import UfsX.Proofs.Balloc

/-!
# `UfsX.Proofs.BallocFail`: what a failed `ffs_balloc` leaves behind

When the indirect case fails, the blocks it has allocated form a chain below
one slot that was null: in the inode (`allocib`) or in an indirect block that
was there before (`unwindidx`). Clearing that slot makes the chain
unreachable, so the file's pointers are what they were.
-/

set_option autoImplicit false

namespace UfsX.Proofs

open UfsX.Lib UfsX.Ufs UfsX.Ffs

/-! ### The pointers of a file -/

/-- The logical number of block `m` of height `h` below indirect pointer `l`. -/
def indirLbn (N l h m : Nat) : Int := metaLbn h (levelBase N l + m * N ^ h)

/-- Block `m` of height `h` below indirect pointer `l` is there: no pointer
that leads to it is null. -/
inductive Reached (mp : Ump) (s : Growth) (l : Nat) : Nat → Nat → Prop
  | top : s.ip.ib l ≠ 0 → Reached mp s l (l + 1) 0
  | down {h m i : Nat} : Reached mp s l (h + 2) m → i < mp.fs.nindir →
      s.ind (indirLbn mp.fs.nindir l (h + 2) m) i ≠ 0 → Reached mp s l (h + 1) (m * mp.fs.nindir + i)

/-- Where a pointer can stand. -/
inductive Place where
  | db (i : Nat)
  | ib (l : Nat)
  | slot (l h m i : Nat)

/-- The file has pointer `b` at this place. -/
def PtrAt (mp : Ump) (s : Growth) : Place → Int → Prop
  | .db i, b => i < ndaddr ∧ b = s.ip.db i
  | .ib l, b => l < niaddr ∧ b = s.ip.ib l
  | .slot l h m i, b => l < niaddr ∧ Reached mp s l h m ∧ i < mp.fs.nindir ∧
      b = s.ind (indirLbn mp.fs.nindir l h m) i

section Reach

variable {mp : Ump} {s s' : Growth} {l rel : Nat}

theorem Reached.bounds {h m : Nat} (hr : Reached mp s l h m) :
    1 ≤ h ∧ h ≤ l + 1 ∧ (m + 1) * mp.fs.nindir ^ h ≤ mp.fs.nindir ^ (l + 1) := by
  induction hr with
  | top _ => exact ⟨by omega, Nat.le_refl _, by simp⟩
  | @down h m i _ hi _ ih =>
      refine ⟨by omega, by omega, Nat.le_trans ?_ ih.2.2⟩
      calc (m * mp.fs.nindir + i + 1) * mp.fs.nindir ^ (h + 1)
          ≤ (m * mp.fs.nindir + mp.fs.nindir) * mp.fs.nindir ^ (h + 1) :=
            Nat.mul_le_mul_right _ (by omega)
        _ = (m + 1) * mp.fs.nindir ^ (h + 2) := by rw [Nat.pow_succ]; ring

theorem isIndir_of_bounds {N h m : Nat} (hl : l < niaddr)
    (hb : 1 ≤ h ∧ h ≤ l + 1 ∧ (m + 1) * N ^ h ≤ N ^ (l + 1)) :
    IsIndir N h (levelBase N l + m * N ^ h) :=
  ⟨l, hl, hb.1, hb.2.1, m, rfl, hb.2.2⟩

/-- Reached blocks with the same number are the same block. -/
theorem indirLbn_inj {N l' h m h' m' : Nat} (hN : 4 ≤ N) (hl : l < niaddr) (hl' : l' < niaddr)
    (hb : 1 ≤ h ∧ h ≤ l + 1 ∧ (m + 1) * N ^ h ≤ N ^ (l + 1))
    (hb' : 1 ≤ h' ∧ h' ≤ l' + 1 ∧ (m' + 1) * N ^ h' ≤ N ^ (l' + 1))
    (heq : indirLbn N l h m = indirLbn N l' h' m') : l = l' ∧ h = h' ∧ m = m' := by
  obtain ⟨rfl, hfirst⟩ :=
    metaLbn_inj hN (isIndir_of_bounds hl hb) (isIndir_of_bounds hl' hb') heq
  have hpos : 0 < N ^ h := Nat.pow_pos (by omega)
  have hb1 : levelBase N (l + 1) = levelBase N l + N ^ (l + 1) := rfl
  have hb2 : levelBase N (l' + 1) = levelBase N l' + N ^ (l' + 1) := rfl
  have h1 := hb.2.2
  have h2 := hb'.2.2
  rw [Nat.add_mul, Nat.one_mul] at h1 h2
  have hll : l = l' := by
    rcases Nat.lt_trichotomy l l' with h | h | h
    · have := levelBase_mono N (show l + 1 ≤ l' from h)
      omega
    · exact h
    · have := levelBase_mono N (show l' + 1 ≤ l from h)
      omega
  subst hll
  refine ⟨rfl, rfl, Nat.eq_of_mul_eq_mul_right hpos ?_⟩
  omega

/-- The blocks of height `j` and less on the path to leaf `rel`. -/
def Chain (N l rel j : Nat) (n : Int) : Prop := ∃ i < j, n = indirLbn N l (i + 1) (rel / N ^ (i + 1))

theorem path_bounds {N : Nat} (hN : 4 ≤ N) (hrel : rel < N ^ (l + 1)) {i : Nat} (hi : i ≤ l) :
    1 ≤ i + 1 ∧ i + 1 ≤ l + 1 ∧ (rel / N ^ (i + 1) + 1) * N ^ (i + 1) ≤ N ^ (l + 1) := by
  have hpos : 0 < N ^ (i + 1) := Nat.pow_pos (by omega)
  have hpow : N ^ (l + 1) = N ^ (l - i) * N ^ (i + 1) := by
    rw [← Nat.pow_add]
    congr 1
    omega
  refine ⟨by omega, by omega, ?_⟩
  rw [hpow]
  refine Nat.mul_le_mul_right _ (Nat.succ_le_of_lt ?_)
  rw [Nat.div_lt_iff_lt_mul hpos, ← hpow]
  exact hrel

/-- A chain below a null slot is not reached. -/
theorem Reached.not_chain (hl : l < niaddr) (hrel : rel < mp.fs.nindir ^ (l + 1)) {j : Nat}
    (hj : j ≤ l)
    (hnull : j = 0 ∨ s.ind (indirLbn mp.fs.nindir l (j + 1) (rel / mp.fs.nindir ^ (j + 1)))
      (rel / mp.fs.nindir ^ j % mp.fs.nindir) = 0)
    {l' h m : Nat} (hl' : l' < niaddr) (hr : Reached mp s l' h m) :
    ¬ Chain mp.fs.nindir l rel j (indirLbn mp.fs.nindir l' h m) := by
  have hN : 4 ≤ mp.fs.nindir := mp.fs.four_le_nindir
  induction hr with
  | top _ =>
      rintro ⟨i, hi, heq⟩
      obtain ⟨rfl, hh, -⟩ := indirLbn_inj hN hl' hl ⟨by omega, Nat.le_refl _, by simp⟩
        (path_bounds hN hrel (by omega)) heq
      omega
  | @down h m i hpar hi hne ih =>
      rintro ⟨k, hk, heq⟩
      obtain ⟨rfl, hh, hm⟩ := indirLbn_inj hN hl' hl (Reached.down hpar hi hne).bounds
        (path_bounds hN hrel (by omega)) heq
      obtain rfl : h = k := by omega
      -- the parent of a block of the chain is the next block of the path
      have hdiv : rel / mp.fs.nindir ^ (h + 2) = m := by
        rw [Nat.pow_succ, ← Nat.div_div_eq_div_mul, ← hm, Nat.mul_comm, Nat.mul_add_div (by omega),
          Nat.div_eq_of_lt hi, Nat.add_zero]
      have hmod : rel / mp.fs.nindir ^ (h + 1) % mp.fs.nindir = i := by
        rw [← hm, Nat.mul_comm, Nat.mul_add_mod, Nat.mod_eq_of_lt hi]
      rcases Nat.lt_or_ge (h + 1) j with hlt | hge
      · exact ih ⟨h + 1, hlt, by rw [hdiv]⟩
      · obtain rfl : j = h + 1 := by omega
        rcases hnull with h0 | h0
        · omega
        · rw [hdiv, hmod] at h0
          exact hne h0

/-- Below a null pointer of the inode nothing is reached. -/
theorem Reached.ib_ne_zero {h m : Nat} (hr : Reached mp s l h m) : s.ip.ib l ≠ 0 := by
  induction hr with
  | top h0 => exact h0
  | down _ _ _ ih => exact ih

/-- The whole path below a null pointer of the inode is not reached. -/
theorem Reached.not_path (hl : l < niaddr) (hrel : rel < mp.fs.nindir ^ (l + 1))
    (hnull : s.ip.ib l = 0) {l' h m : Nat} (hl' : l' < niaddr) (hr : Reached mp s l' h m) :
    ¬ Chain mp.fs.nindir l rel (l + 1) (indirLbn mp.fs.nindir l' h m) := by
  have hN : 4 ≤ mp.fs.nindir := mp.fs.four_le_nindir
  rintro ⟨i, hi, heq⟩
  obtain ⟨rfl, -⟩ := indirLbn_inj hN hl' hl hr.bounds (path_bounds hN hrel (by omega)) heq
  exact hr.ib_ne_zero hnull

/-- The file's pointers are the same at every place. -/
def SamePtrs (mp : Ump) (s s' : Growth) : Prop := ∀ p b, PtrAt mp s' p b ↔ PtrAt mp s p b

theorem Reached.congr {K : Int → Prop}
    (hK : ∀ l h m, l < niaddr → Reached mp s l h m → ¬ K (indirLbn mp.fs.nindir l h m))
    (hib : s'.ip.ib = s.ip.ib) (hind : ∀ n, ¬ K n → s'.ind n = s.ind n) {l h m : Nat}
    (hl : l < niaddr) (hr : Reached mp s l h m) : Reached mp s' l h m := by
  induction hr with
  | top h0 => exact .top (by rwa [hib])
  | down hpar hi hne ih => exact .down ih hi (by rwa [hind _ (hK _ _ _ hl hpar)])

/-- Writing blocks that are reached neither before nor after changes no pointer
of the file. -/
theorem samePtrs_of_unreached {K : Int → Prop}
    (hK : ∀ l h m, l < niaddr → Reached mp s l h m → ¬ K (indirLbn mp.fs.nindir l h m))
    (hK' : ∀ l h m, l < niaddr → Reached mp s' l h m → ¬ K (indirLbn mp.fs.nindir l h m))
    (hdb : s'.ip.db = s.ip.db) (hib : s'.ip.ib = s.ip.ib)
    (hind : ∀ n, ¬ K n → s'.ind n = s.ind n) : SamePtrs mp s s' := by
  intro p b
  cases p with
  | db i => rw [PtrAt, PtrAt, hdb]
  | ib i => rw [PtrAt, PtrAt, hib]
  | slot l h m i =>
      constructor
      · rintro ⟨hl, hr, hi, rfl⟩
        exact ⟨hl, hr.congr hK' hib.symm (fun n hn => (hind n hn).symm) hl, hi,
          by rw [hind _ (hK' _ _ _ hl hr)]⟩
      · rintro ⟨hl, hr, hi, rfl⟩
        exact ⟨hl, hr.congr hK hib hind hl, hi, by rw [hind _ (hK _ _ _ hl hr)]⟩

/-- A chain below a null slot may be written without changing a pointer. -/
theorem samePtrs_of_chain (hl : l < niaddr) (hrel : rel < mp.fs.nindir ^ (l + 1)) {j : Nat}
    (hj : j ≤ l)
    (hnull : j = 0 ∨ s.ind (indirLbn mp.fs.nindir l (j + 1) (rel / mp.fs.nindir ^ (j + 1)))
      (rel / mp.fs.nindir ^ j % mp.fs.nindir) = 0)
    (hdb : s'.ip.db = s.ip.db) (hib : s'.ip.ib = s.ip.ib)
    (hind : ∀ n, ¬ Chain mp.fs.nindir l rel j n → s'.ind n = s.ind n) : SamePtrs mp s s' := by
  have hN : 4 ≤ mp.fs.nindir := mp.fs.four_le_nindir
  have hslot : ¬ Chain mp.fs.nindir l rel j
      (indirLbn mp.fs.nindir l (j + 1) (rel / mp.fs.nindir ^ (j + 1))) := by
    rintro ⟨i, hi, heq⟩
    have := (indirLbn_inj hN hl hl (path_bounds hN hrel hj) (path_bounds hN hrel (by omega)) heq).2.1
    omega
  have hnull' : j = 0 ∨ s'.ind (indirLbn mp.fs.nindir l (j + 1) (rel / mp.fs.nindir ^ (j + 1)))
      (rel / mp.fs.nindir ^ j % mp.fs.nindir) = 0 := by
    rwa [hind _ hslot]
  exact samePtrs_of_unreached (fun _ _ _ hl' hr => hr.not_chain hl hrel hj hnull hl')
    (fun _ _ _ hl' hr => hr.not_chain hl hrel hj hnull' hl') hdb hib hind

/-- The path below a null pointer of the inode may be written without changing
a pointer. -/
theorem samePtrs_of_top (hl : l < niaddr) (hrel : rel < mp.fs.nindir ^ (l + 1))
    (hnull : s.ip.ib l = 0) (hdb : s'.ip.db = s.ip.db) (hib : s'.ip.ib = s.ip.ib)
    (hind : ∀ n, ¬ Chain mp.fs.nindir l rel (l + 1) n → s'.ind n = s.ind n) :
    SamePtrs mp s s' :=
  samePtrs_of_unreached (fun _ _ _ hl' hr => hr.not_path hl hrel hnull hl')
    (fun _ _ _ hl' hr => hr.not_path hl hrel (by rwa [hib]) hl') hdb hib hind

end Reach

/-! ### Where a failed walk stands -/

section WalkErr

variable {mp : Ump} {c : BallocCall} {l rel lbn : Nat}

/-- The slot to take back is chosen once. -/
theorem walkFrom_unwind_some (allocib : Bool) (h : Nat) (s : Growth) (ap : Indir) :
    (walkFrom mp c lbn allocib l rel h s (some ap)).unwind = some ap := by
  induction h generalizing s with
  | zero => exact (ballocWalk_nil_cases mp c lbn allocib s (some ap) _).1
  | succ h ih =>
      have hcases := ballocWalk_cons_cases mp c lbn allocib s (some ap) (hop mp l rel (h + 1))
        (hop mp l rel h) (hops mp l rel h)
      rw [walkFrom, hops, path]
      obtain ⟨s₁, e, -, heq⟩ | ⟨-, s₁, -, heq⟩ | ⟨-, b, -, ⟨s₁, e, -, heq⟩ | ⟨s₁, -, heq⟩⟩ := hcases
      · rw [heq]
      · rw [heq]
        exact ih s₁
      · rw [heq]
      · rw [heq, if_neg (by simp)]
        exact ih s₁

theorem onPath_iff_chain (N h : Nat) (n : Int) :
    OnPath N (levelBase N l) rel h n ↔ Chain N l rel (h + 1) n := by
  constructor
  · rintro ⟨i, hi, rfl⟩
    exact ⟨i, by omega, rfl⟩
  · rintro ⟨i, hi, rfl⟩
    exact ⟨i, by omega, rfl⟩

/-- A failed walk has written a chain below a slot that was null, and the slot
itself when it is the one to take back. -/
theorem walkFrom_err (mp : Ump) (c : BallocCall) (l rel lbn h : Nat) (s : Growth)
    (hw : (walkFrom mp c lbn false l rel h s none).err ≠ none) :
    let w := walkFrom mp c lbn false l rel h s none
    ∃ j ≤ h, (j = 0 ∨ s.ind (hop mp l rel j).lbn (hop mp l rel j).off = 0) ∧
      ((w.unwind = none ∧ ∀ n, ¬ Chain mp.fs.nindir l rel j n → w.st.ind n = s.ind n) ∨
        (w.unwind = some (hop mp l rel j) ∧
          ∀ n, ¬ Chain mp.fs.nindir l rel j n →
            (w.st.setInd (hop mp l rel j).lbn (hop mp l rel j).off 0).ind n = s.ind n)) := by
  induction h generalizing s with
  | zero =>
      intro w
      obtain ⟨hu, ⟨hsame, -⟩ | ⟨-, -, hnone, -⟩⟩ := ballocWalk_nil_cases mp c lbn false s none
        (hop mp l rel 0)
      · exact ⟨0, Nat.le_refl 0, .inl rfl, .inl ⟨hu, fun n _ => congrFun hsame.ind n⟩⟩
      · exact absurd hnone hw
  | succ h ih =>
      have hcases := ballocWalk_cons_cases mp c lbn false s none (hop mp l rel (h + 1)) (hop mp l rel h)
        (hops mp l rel h)
      have hchild : Chain mp.fs.nindir l rel (h + 1) (hop mp l rel h).lbn := ⟨h, by omega, rfl⟩
      rw [walkFrom, hops, path] at hw ⊢
      obtain ⟨s₁, e, hsame, heq⟩ | ⟨-, s₁, hsame, heq⟩ |
          ⟨h0, b, -, ⟨s₁, e, hsame, heq⟩ | ⟨s₁, hsame, heq⟩⟩ := hcases
      · rw [heq]
        exact ⟨0, Nat.zero_le _, .inl rfl, .inl ⟨rfl, fun n _ => congrFun hsame.ind n⟩⟩
      · rw [heq] at hw ⊢
        obtain ⟨j, hj, hnull, hrest⟩ := ih s₁ hw
        rw [hsame.ind] at hnull hrest
        exact ⟨j, by omega, hnull, hrest⟩
      · rw [heq]
        refine ⟨h + 1, Nat.le_refl _, .inr h0, .inl ⟨rfl, fun n hn => ?_⟩⟩
        have hne : n ≠ (hop mp l rel h).lbn := by
          rintro rfl
          exact hn hchild
        rw [hsame.ind, Growth.clear_of_ne _ hne, Growth.grant_ind]
      · -- the new block is linked in: its slot is the one to take back
        rw [heq, if_pos ⟨rfl, rfl⟩]
        refine ⟨h + 1, Nat.le_refl _, .inr h0, .inr ⟨walkFrom_unwind_some false h s₁ _, ?_⟩⟩
        intro n hn
        have hne : n ≠ (hop mp l rel h).lbn := by
          rintro rfl
          exact hn hchild
        have hframe := (ballocWalk_walked mp c lbn false (levelBase mp.fs.nindir l) rel h s₁
          (some (hop mp l rel (h + 1)))).frame n
          (fun hp => hn ((onPath_iff_chain _ _ _).mp hp))
        by_cases hkey : n = (hop mp l rel (h + 1)).lbn
        · subst hkey
          funext i
          rw [Growth.setInd_self]
          split
          · next hi => rw [hi, h0]
          · next hi =>
              rw [hframe, hsame.ind, linked, Growth.setInd_self, if_neg hi,
                Growth.clear_of_ne _ hne, Growth.grant_ind]
        · rw [Growth.setInd_of_ne _ hkey, hframe, hsame.ind, linked, Growth.setInd_of_ne _ hkey,
            Growth.clear_of_ne _ hne, Growth.grant_ind]

end WalkErr

/-! ### The label `fail` -/

theorem chargeN_eq (mp : Ump) (b : Int) {n : Nat} (hn : 0 < n) :
    chargeN mp b n = toU32 (b + n * btodb mp mp.fs.bsize) := by
  induction n with
  | zero => omega
  | succ n ih =>
      rw [chargeN]
      cases n with
      | zero => simp [chargeN]
      | succ n =>
          rw [ih (by omega), toU32, toU32, toU32, Int.emod_add_emod]
          congr 1
          push_cast
          ring

theorem btodb_mul (mp : Ump) (n : Nat) :
    btodb mp (n * mp.fs.bsize) = n * btodb mp mp.fs.bsize := by
  have hdvd : mp.devbsize ∣ mp.fs.bsize := by
    rw [mp.fs.bsize_eq]
    exact Dvd.dvd.mul_left mp.devbsize_dvd _
  exact Nat.mul_div_assoc n hdvd

/-- What `fail` makes of `di_blocks` when `n` blocks were allocated. -/
def unchargeN (mp : Ump) (b : Int) (n : Nat) : Int :=
  blocksCast mp.fs (chargeN mp b n - btodb mp (n * mp.fs.bsize))

theorem unchargeN_nil {mp : Ump} {b : Int} (hb : blocksCast mp.fs b = b) : unchargeN mp b 0 = b := by
  have h0 : btodb mp (0 * mp.fs.bsize) = 0 := by rw [btodb_mul, Nat.zero_mul]
  rw [unchargeN, chargeN, h0, Nat.cast_zero, Int.sub_zero, hb]

/-- The charge is taken back exactly when `DIP_SET` lost nothing: in UFS1 the
field has the type of the cast. -/
theorem unchargeN_eq_iff (mp : Ump) {b : Int} (hb : blocksCast mp.fs b = b) (n : Nat) :
    unchargeN mp b n = b ↔
      mp.fs.magic = .ufs1 ∨ n = 0 ∨ toU64 (b + n * btodb mp mp.fs.bsize) < 2 ^ 32 := by
  rcases Nat.eq_zero_or_pos n with rfl | hn
  · simp only [unchargeN_nil hb, true_or, or_true]
  · rw [unchargeN, chargeN_eq mp b hn, btodb_mul]
    push_cast
    generalize hd : (n : Int) * (btodb mp mp.fs.bsize : Int) = d
    unfold blocksCast at hb ⊢
    cases hm : mp.fs.magic with
    | ufs1 =>
        simp only [hm] at hb ⊢
        simp only [toU32] at hb ⊢
        simp only [true_or, iff_true]
        omega
    | ufs2 =>
        simp only [hm] at hb ⊢
        simp only [toU32, toU64] at hb ⊢
        have hn' : n ≠ 0 := by omega
        simp only [hn', false_or, reduceCtorEq]
        omega

/-- What an error return of the indirect case does: the new blocks are freed,
the pointers are as before, and the charge is taken back. -/
structure Failed (mp : Ump) (c : BallocCall) (s s' : Growth) (new : List Grant) : Prop where
  allocs : s'.allocs = new ++ s.allocs
  source : ∀ g ∈ new, c.alloc g.lbn = .ok g.addr
  frees : s'.frees = (new.map fun g => (g.addr, mp.fs.bsize)) ++ s.frees
  ptrs : SamePtrs mp s s'
  blocks : s'.ip.blocks = unchargeN mp s.ip.blocks new.length

/-- Through `fail` to the error return: the state before with the slot taken
back, up to the charge and the freed blocks. -/
theorem ballocFinish_error {mp : Ump} {c : BallocCall} {old new : List Grant}
    {allocib : Option Nat} {w : WalkEnd} {s' : Growth} {e : Errno}
    (hallocs : w.st.allocs = new ++ old)
    (h : ballocFinish mp c old allocib w = (.error e, s')) :
    w.err = some e ∧
      ((new = [] ∧ allocib = none ∧ w.unwind = none ∧ s' = w.st) ∨
        ∃ t, failUnwind c w.st allocib w.unwind = some t ∧
          s' = { t with
            ip := { t.ip with
              blocks := blocksCast mp.fs
                (t.ip.blocks - btodb mp (new.length * mp.fs.bsize)) }
            frees := (new.map fun g => (ptrCast mp.fs g.addr, mp.fs.bsize)) ++ t.frees }) := by
  have htake : w.st.allocs.take (w.st.allocs.length - old.length) = new := by
    rw [hallocs, List.length_append, Nat.add_sub_cancel, List.take_left]
  unfold ballocFinish at h
  split at h
  · cases (Prod.mk.inj h).1
  · next e' he =>
      rw [htake] at h
      unfold ballocFail at h
      split at h
      · next hnone =>
          obtain ⟨h1, h2⟩ := Prod.mk.inj h
          rw [he, Outcome.error.inj h1]
          exact ⟨rfl, .inl ⟨hnone.1, hnone.2.1, hnone.2.2, h2.symm⟩⟩
      · split at h
        · cases (Prod.mk.inj h).1
        · split at h
          · cases (Prod.mk.inj h).1
          · next t ht =>
              obtain ⟨h1, h2⟩ := Prod.mk.inj h
              rw [he, Outcome.error.inj h1]
              exact ⟨rfl, .inr ⟨t, ht, h2.symm⟩⟩

section Fail

variable {mp : Ump} {c : BallocCall} {l rel : Nat} {s s' : Growth} {e : Errno}

theorem map_ptrCast (hac : AllocOk mp c) {new : List Grant}
    (hsrc : ∀ g ∈ new, c.alloc g.lbn = .ok g.addr) :
    (new.map fun g => (ptrCast mp.fs g.addr, mp.fs.bsize)) =
      new.map fun g => (g.addr, mp.fs.bsize) := by
  refine List.map_congr_left fun g hg => ?_
  obtain ⟨h0, h1⟩ := hac.alloc _ _ (hsrc g hg)
  rw [ptrCast_eq_self h0 h1]

theorem SamePtrs.trans {t : Growth} (h1 : SamePtrs mp s t) (h2 : SamePtrs mp t s') :
    SamePtrs mp s s' :=
  fun p b => (h2 p b).trans (h1 p b)

theorem samePtrs_of_eq {t : Growth} (hdb : t.ip.db = s.ip.db) (hib : t.ip.ib = s.ip.ib)
    (hind : t.ind = s.ind) : SamePtrs mp s t :=
  samePtrs_of_unreached (K := fun _ => False) (fun _ _ _ _ _ => id) (fun _ _ _ _ _ => id) hdb hib
    fun n _ => congrFun hind n

theorem failed_refl (hblocks : blocksCast mp.fs s.ip.blocks = s.ip.blocks) :
    Failed mp c s s [] :=
  ⟨rfl, by simp, rfl, samePtrs_of_eq rfl rfl rfl, (unchargeN_nil hblocks).symm⟩

theorem failUnwind_slot {t : Growth} {ap : Indir} (h : failUnwind c s none (some ap) = some t) :
    SameFile (s.setInd ap.lbn ap.off 0) t := by
  have hread := sameFile_bread s c ap.lbn
  simp only [failUnwind] at h
  split at h
  · cases h
  · rw [← Option.some.inj h]
    exact (hread.setInd _ _ _).use _ _ _

/-- Taking back a pointer touches nothing but that pointer. -/
theorem failUnwind_frame {t : Growth} {allocib : Option Nat} {unwind : Option Indir}
    (h : failUnwind c s allocib unwind = some t) :
    t.allocs = s.allocs ∧ t.frees = s.frees ∧ t.ip.blocks = s.ip.blocks := by
  cases allocib with
  | some i =>
      obtain rfl := Option.some.inj h
      exact ⟨rfl, rfl, rfl⟩
  | none =>
      cases unwind with
      | none =>
          obtain rfl := Option.some.inj h
          exact ⟨rfl, rfl, rfl⟩
      | some ap =>
          rw [failUnwind_slot h]
          exact ⟨rfl, rfl, rfl⟩

/-- Taking back a pointer leaves the size. -/
theorem failUnwind_size {t : Growth} {allocib : Option Nat} {unwind : Option Indir}
    (h : failUnwind c s allocib unwind = some t) : t.ip.size = s.ip.size := by
  cases allocib with
  | some i =>
      obtain rfl := Option.some.inj h
      rfl
  | none =>
      cases unwind with
      | none =>
          obtain rfl := Option.some.inj h
          rfl
      | some ap => rw [(failUnwind_slot h).ip]; rfl

/-- The pointers and the size of the file are as before. -/
structure IntactFile (mp : Ump) (s s' : Growth) : Prop where
  ptrs : SamePtrs mp s s'
  size : s'.ip.size = s.ip.size

theorem SameFile.intact (h : SameFile s s') : IntactFile mp s s' :=
  ⟨samePtrs_of_eq (by rw [h]) (by rw [h]) h.ind, by rw [h]⟩

/-- An error return leaves the file intact when taking back the topmost new
pointer gives the file its old pointers. -/
theorem intact_of_finish {old : List Grant} {allocib : Option Nat} {w : WalkEnd} {new : List Grant}
    (hallocs : w.st.allocs = new ++ old) (hsize : w.st.ip.size = s.ip.size)
    (hptrs : ∀ t, failUnwind c w.st allocib w.unwind = some t → SamePtrs mp s t)
    (h : ballocFinish mp c old allocib w = (.error e, s')) : IntactFile mp s s' := by
  obtain ⟨-, ⟨rfl, rfl, hunwind, rfl⟩ | ⟨t, ht, rfl⟩⟩ := ballocFinish_error hallocs h
  · exact ⟨hptrs _ (by rw [hunwind]; rfl), hsize⟩
  · exact ⟨(hptrs t ht).trans (samePtrs_of_eq rfl rfl rfl), (failUnwind_size ht).trans hsize⟩

/-- An error return undoes the call when the file is intact. -/
theorem failed_of_finish {allocib : Option Nat} {w : WalkEnd} {new : List Grant}
    (hac : AllocOk mp c) (hblocks : blocksCast mp.fs s.ip.blocks = s.ip.blocks)
    (hallocs : w.st.allocs = new ++ s.allocs)
    (hsrc : ∀ g ∈ new, c.alloc g.lbn = .ok g.addr) (hfrees : w.st.frees = s.frees)
    (hcharge : w.st.ip.blocks = chargeN mp s.ip.blocks new.length) (hptrs : SamePtrs mp s s')
    (h : ballocFinish mp c s.allocs allocib w = (.error e, s')) : Failed mp c s s' new := by
  obtain ⟨-, ⟨rfl, rfl, hunwind, rfl⟩ | ⟨t, ht, rfl⟩⟩ := ballocFinish_error hallocs h
  · refine ⟨hallocs, hsrc, hfrees, hptrs, ?_⟩
    rw [hcharge, List.length_nil, unchargeN_nil hblocks, chargeN]
  · obtain ⟨ha, hf, hb⟩ := failUnwind_frame ht
    refine ⟨ha.trans hallocs, hsrc, ?_, hptrs, ?_⟩
    · show (new.map fun g => (ptrCast mp.fs g.addr, mp.fs.bsize)) ++ t.frees = _
      rw [map_ptrCast hac hsrc, hf, hfrees]
    · show blocksCast mp.fs (t.ip.blocks - btodb mp (new.length * mp.fs.bsize)) = _
      rw [hb, hcharge]
      rfl

section Indirect

variable (hl : l < niaddr) (hrel : rel < mp.fs.nindir ^ (l + 1))
include hl hrel

/-- The error return of a walk whose first block was there. -/
theorem intact_old {lbn : Nat}
    (h : ballocFinish mp c s.allocs none (walkFrom mp c lbn false l rel l s none) =
      (.error e, s')) : IntactFile mp s s' := by
  have hwalked : Walked mp c lbn (OnHops mp l rel l) s
      (walkFrom mp c lbn false l rel l s none).st :=
    ballocWalk_walked mp c lbn false (levelBase mp.fs.nindir l) rel l s none
  obtain ⟨new, ha, -⟩ := hwalked.allocs
  obtain ⟨herr, -⟩ := ballocFinish_error ha h
  obtain ⟨j, hj, hnull, hrest⟩ := walkFrom_err mp c l rel lbn l s (by rw [herr]; simp)
  refine intact_of_finish ha (by rw [hwalked.ip]) (fun t ht => ?_) h
  -- what is left of the new blocks hangs below the slot of height `j + 1`
  rcases hrest with ⟨hunwind, hind⟩ | ⟨hunwind, hind⟩
  · rw [hunwind] at ht
    obtain rfl := Option.some.inj ht
    exact samePtrs_of_chain hl hrel hj hnull (by rw [hwalked.ip]) (by rw [hwalked.ip]) hind
  · rw [hunwind] at ht
    have hsame := failUnwind_slot ht
    refine samePtrs_of_chain hl hrel hj hnull ?_ ?_ fun n hn => ?_
    · rw [hsame]
      show (walkFrom mp c lbn false l rel l s none).st.ip.db = s.ip.db
      rw [hwalked.ip]
    · rw [hsame]
      show (walkFrom mp c lbn false l rel l s none).st.ip.ib = s.ip.ib
      rw [hwalked.ip]
    · rw [hsame.ind]
      exact hind n hn

/-- The first block is new, and its write fails. -/
theorem intact_write {b : Int} {s₁ : Growth} {e₁ : Errno}
    (hib : s.ip.ib l = 0)
    (hsame : SameFile ((s.grant mp (hop mp l rel l).lbn b
      mp.fs.bsize).clear (hop mp l rel l).lbn) s₁)
    (h : ballocFinish mp c s.allocs none ⟨s₁, none, some e₁⟩ = (.error e, s')) : IntactFile mp s s' := by
  have ha : s₁.allocs = [⟨_, b⟩] ++ s.allocs := hsame.allocs
  refine intact_of_finish ha (by rw [hsame.ip]; rfl) (fun t ht => ?_) h
  obtain rfl := Option.some.inj ht
  refine samePtrs_of_top hl hrel hib (by rw [hsame.ip]; rfl) (by rw [hsame.ip]; rfl) fun n hn => ?_
  rw [hsame.ind, Growth.clear_of_ne, Growth.grant_ind]
  rintro rfl
  exact hn ⟨l, Nat.lt_succ_self l, rfl⟩

/-- The first block is new, and the walk behind it fails. -/
theorem intact_new {b nb : Int} {s₁ : Growth} {lbn : Nat}
    (hib : s.ip.ib l = 0)
    (hsame : SameFile ((s.grant mp (hop mp l rel l).lbn b
      mp.fs.bsize).clear (hop mp l rel l).lbn) s₁)
    (h : ballocFinish mp c s.allocs (some l)
      (walkFrom mp c lbn true l rel l (s₁.setIb l nb) none) = (.error e, s')) : IntactFile mp s s' := by
  have hwalked : Walked mp c lbn (OnHops mp l rel l)
      (s₁.setIb l nb) (walkFrom mp c lbn true l rel l (s₁.setIb l nb) none).st :=
    ballocWalk_walked mp c lbn true (levelBase mp.fs.nindir l) rel l (s₁.setIb l nb) none
  obtain ⟨new, ha, -⟩ := hwalked.allocs
  rw [show (s₁.setIb l nb).allocs = [⟨_, b⟩] ++ s.allocs from hsame.allocs, ← List.append_assoc] at ha
  refine intact_of_finish ha ?_ (fun t ht => ?_) h
  · rw [hwalked.ip]
    show s₁.ip.size = s.ip.size
    rw [hsame.ip]
    rfl
  · obtain rfl := Option.some.inj ht
    refine samePtrs_of_top hl hrel hib ?_ ?_ fun n hn => ?_
    · show (walkFrom mp c lbn true l rel l (s₁.setIb l nb) none).st.ip.db = s.ip.db
      rw [hwalked.ip]
      show s₁.ip.db = s.ip.db
      rw [hsame.ip]
      rfl
    · -- the slot was null, so clearing it restores it
      show Function.update (walkFrom mp c lbn true l rel l (s₁.setIb l nb) none).st.ip.ib l 0 = s.ip.ib
      rw [hwalked.ip]
      show Function.update (Function.update s₁.ip.ib l nb) l 0 = s.ip.ib
      rw [Function.update_idem, hsame.ip, ← hib]
      exact Function.update_eq_self l s.ip.ib
    · show (walkFrom mp c lbn true l rel l (s₁.setIb l nb) none).st.ind n = s.ind n
      rw [hwalked.frame n fun hp => hn ((onPath_iff_chain _ _ _).mp hp)]
      show s₁.ind n = s.ind n
      rw [hsame.ind, Growth.clear_of_ne, Growth.grant_ind]
      rintro rfl
      exact hn ⟨l, Nat.lt_succ_self l, rfl⟩

/-- An error return of the indirect case leaves the pointers and the size,
whatever the allocator returned. -/
theorem ballocIndir_intact {t : Int}
    (h : ballocIndir mp c s (levelBase mp.fs.nindir l + rel) ⟨t, l⟩ (hop mp l rel l)
      (hops mp l rel l) = (.error e, s')) : IntactFile mp s s' := by
  unfold ballocIndir at h
  split at h
  · exact intact_old hl hrel h
  · next hib =>
      cases halloc : c.alloc (hop mp l rel l).lbn with
      | error e' =>
          simp only [ffsAlloc, halloc] at h
          rw [← (Prod.mk.inj h).2]
          exact SameFile.intact (.refl s)
      | ok b =>
          simp only [ffsAlloc, halloc] at h
          have hn := sameFile_newIndir mp c
            (s.grant mp (hop mp l rel l).lbn b mp.fs.bsize) (hop mp l rel l).lbn (ptrCast mp.fs b)
          split at h
          · next s₁ hnew =>
              rw [hnew] at hn
              exact intact_write hl hrel (not_not.mp hib) hn h
          · next s₁ hnew =>
              rw [hnew] at hn
              exact intact_new hl hrel (not_not.mp hib) hn h

variable (hac : AllocOk mp c) (hblocks : blocksCast mp.fs s.ip.blocks = s.ip.blocks)
include hac hblocks

/-- The error return of a walk whose first block was there. -/
theorem failed_old {lbn : Nat}
    (h : ballocFinish mp c s.allocs none (walkFrom mp c lbn false l rel l s none) =
      (.error e, s')) : ∃ new, Failed mp c s s' new := by
  have hwalked : Walked mp c lbn (OnHops mp l rel l) s
      (walkFrom mp c lbn false l rel l s none).st :=
    ballocWalk_walked mp c lbn false (levelBase mp.fs.nindir l) rel l s none
  obtain ⟨new, ha, hb, hnew⟩ := hwalked.allocs
  exact ⟨new, failed_of_finish hac hblocks ha (fun g hg => (hnew g hg).1) hwalked.frees hb
    (intact_old hl hrel h).ptrs h⟩

/-- The first block is new, and its write fails. -/
theorem failed_write {b : Int} {s₁ : Growth} {e₁ : Errno}
    (hib : s.ip.ib l = 0)
    (halloc : c.alloc (hop mp l rel l).lbn = .ok b)
    (hsame : SameFile ((s.grant mp (hop mp l rel l).lbn b
      mp.fs.bsize).clear (hop mp l rel l).lbn) s₁)
    (h : ballocFinish mp c s.allocs none ⟨s₁, none, some e₁⟩ = (.error e, s')) :
    ∃ new, Failed mp c s s' new := by
  refine ⟨[⟨(hop mp l rel l).lbn, b⟩],
    failed_of_finish hac hblocks hsame.allocs ?_ (by rw [hsame]; rfl) ?_ (intact_write hl hrel hib hsame h).ptrs h⟩
  · intro g hg
    obtain rfl := List.mem_singleton.mp hg
    exact halloc
  · show s₁.ip.blocks = _
    rw [hsame.ip]
    rfl

/-- The first block is new, and the walk behind it fails. -/
theorem failed_new {b : Int} {s₁ : Growth} {lbn : Nat}
    (hib : s.ip.ib l = 0)
    (halloc : c.alloc (hop mp l rel l).lbn = .ok b)
    (hsame : SameFile ((s.grant mp (hop mp l rel l).lbn b
      mp.fs.bsize).clear (hop mp l rel l).lbn) s₁)
    (h : ballocFinish mp c s.allocs (some l)
      (walkFrom mp c lbn true l rel l (s₁.setIb l b) none) = (.error e, s')) :
    ∃ new, Failed mp c s s' new := by
  have hwalked : Walked mp c lbn (OnHops mp l rel l)
      (s₁.setIb l b) (walkFrom mp c lbn true l rel l (s₁.setIb l b) none).st :=
    ballocWalk_walked mp c lbn true (levelBase mp.fs.nindir l) rel l (s₁.setIb l b) none
  obtain ⟨new, ha, hb, hnew⟩ := hwalked.allocs
  refine ⟨new ++ [⟨(hop mp l rel l).lbn, b⟩],
    failed_of_finish hac hblocks ?_ ?_ ?_ ?_ (intact_new hl hrel hib hsame h).ptrs h⟩
  · rw [ha, show (s₁.setIb l b).allocs = s₁.allocs from rfl, hsame.allocs]
    exact (List.append_assoc new [_] s.allocs).symm
  · intro g hg
    rcases List.mem_append.mp hg with hg | hg
    · exact (hnew g hg).1
    · obtain rfl := List.mem_singleton.mp hg
      exact halloc
  · rw [hwalked.frees, show (s₁.setIb l b).frees = s₁.frees from rfl, hsame]
    rfl
  · rw [hb, show (s₁.setIb l b).ip.blocks = s₁.ip.blocks from rfl, hsame.ip,
      List.length_append, Nat.add_comm, ← chargeN_add]
    rfl

theorem ballocIndir_failed {t : Int}
    (h : ballocIndir mp c s (levelBase mp.fs.nindir l + rel) ⟨t, l⟩ (hop mp l rel l)
      (hops mp l rel l) = (.error e, s')) :
    ∃ new, Failed mp c s s' new := by
  unfold ballocIndir at h
  split at h
  · exact failed_old hl hrel hac hblocks h
  · next hib =>
      cases halloc : c.alloc (hop mp l rel l).lbn with
      | error e' =>
          simp only [ffsAlloc, halloc] at h
          rw [← (Prod.mk.inj h).2]
          exact ⟨[], failed_refl hblocks⟩
      | ok b =>
          simp only [ffsAlloc, halloc] at h
          have hn := sameFile_newIndir mp c
            (s.grant mp (hop mp l rel l).lbn b mp.fs.bsize) (hop mp l rel l).lbn (ptrCast mp.fs b)
          split at h
          · next s₁ hnew =>
              rw [hnew] at hn
              exact failed_write hl hrel hac hblocks (not_not.mp hib) halloc hn h
          · next s₁ hnew =>
              rw [hnew] at hn
              obtain ⟨hb0, hb1⟩ := hac.alloc _ _ halloc
              rw [ptrCast_eq_self hb0 hb1] at h
              exact failed_new hl hrel hac hblocks (not_not.mp hib) halloc hn h

end Indirect

end Fail

/-! ### How many blocks a failing call allocates -/

/-- The write of a new indirect block is waited for and fails. -/
def newIndirErr (mp : Ump) (c : BallocCall) (n : Int) : Bool :=
  !(!c.sync && mp.async) && (c.writeErr n).isSome

/-- The blocks that are allocated below the indirect block `ap` before
something fails: from the first null slot on, until an allocation, a write or
a read fails. A new block has null slots only. -/
def taken (mp : Ump) (c : BallocCall) : (Int → Nat → Int) → Indir → List Indir → Nat
  | _, _, [] => 0
  | ind, ap, ap' :: rest =>
      if (c.readErr ap.lbn).isSome ∨
          (ufsCheckBlkno mp.fs mp.untrusted (ind ap.lbn ap.off)).isSome then 0
      else if ind ap.lbn ap.off ≠ 0 then taken mp c ind ap' rest
      else
        match c.alloc ap'.lbn with
        | .error _ => 0
        | .ok _ => if newIndirErr mp c ap'.lbn then 1 else 1 + taken mp c (fun _ _ => 0) ap' rest

/-- The blocks that a failing call for block `lbn` allocates. -/
def blocksTaken (mp : Ump) (c : BallocCall) (s : Growth) (lbn : Nat) : Nat :=
  match ufsGetlbns mp.fs.nindir lbn with
  | .ok (top :: ap :: rest) =>
      if s.ip.ib top.off ≠ 0 then taken mp c s.ind ap rest
      else
        match c.alloc ap.lbn with
        | .error _ => 0
        | .ok _ => if newIndirErr mp c ap.lbn then 1 else 1 + taken mp c (fun _ _ => 0) ap rest
  | _ => 0

theorem ballocNewIndir_err (mp : Ump) (c : BallocCall) (s : Growth) (lbn nb : Int) :
    (ballocNewIndir mp c s lbn nb).1.isSome = newIndirErr mp c lbn := by
  unfold ballocNewIndir newIndirErr
  split
  · next h => simp [h.1, h.2]
  · next h =>
      cases hs : c.sync <;> cases ha : mp.async <;> simp_all

/-- Below a null slot the contents of the file's other blocks do not matter. -/
theorem taken_null {mp : Ump} {c : BallocCall} {ind : Int → Nat → Int} {ap : Indir}
    (h0 : ind ap.lbn ap.off = 0) (rest : List Indir) :
    taken mp c ind ap rest = taken mp c (fun _ _ => 0) ap rest := by
  cases rest with
  | nil => rfl
  | cons ap' rest => simp only [taken, h0, ne_eq, not_true_eq_false, if_false]

theorem ballocWalk_taken (mp : Ump) (c : BallocCall) (lbn : Nat) (allocib : Bool) (s : Growth)
    (unwind : Option Indir) (ap : Indir) (rest : List Indir)
    (hchain : (ap :: rest).IsChain fun a b => b.lbn ≠ a.lbn)
    (herr : (ballocWalk mp c lbn allocib s unwind ap rest).err ≠ none) :
    (ballocWalk mp c lbn allocib s unwind ap rest).st.allocs.length =
      taken mp c s.ind ap rest + s.allocs.length := by
  induction rest generalizing s unwind ap with
  | nil =>
      obtain ⟨-, ⟨hsame, -⟩ | ⟨-, -, hnone, -⟩⟩ := ballocWalk_nil_cases mp c lbn allocib s unwind ap
      · rw [hsame.allocs, taken, Nat.zero_add]
      · exact absurd hnone herr
  | cons ap' rest ih =>
      obtain ⟨hne, hrest⟩ := List.isChain_cons_cons.mp hchain
      rw [ballocWalk] at herr ⊢
      rw [taken]
      cases hre : c.readErr ap.lbn with
      | some e => simp
      | none =>
          rcases hb : s.bread c ap.lbn with ⟨s1, bp⟩
          have hs : SameFile s s1 := by
            have := sameFile_bread s c ap.lbn
            rwa [hb] at this
          simp only [hre, hb, hs.ind] at herr ⊢
          cases hck : ufsCheckBlkno mp.fs mp.untrusted (s.ind ap.lbn ap.off) with
          | some e => simp [(hs.use ap.lbn bp .release).allocs]
          | none =>
              simp only [hck, Option.isSome_none, Bool.false_eq_true, or_self, if_false] at herr ⊢
              by_cases h0 : s.ind ap.lbn ap.off = 0
              · simp only [if_neg (not_not.mpr h0)] at herr ⊢
                cases ha : c.alloc ap'.lbn with
                | error e => simp [ffsAlloc, (hs.use ap.lbn bp .release).allocs]
                | ok b =>
                    simp only [ffsAlloc, ha] at herr ⊢
                    have hn := sameFile_newIndir mp c (s1.grant mp ap'.lbn b mp.fs.bsize) ap'.lbn
                      (ptrCast mp.fs b)
                    replace hn := ((hs.grant mp ap'.lbn b).clear ap'.lbn).trans hn
                    have hbad := ballocNewIndir_err mp c (s1.grant mp ap'.lbn b mp.fs.bsize) ap'.lbn
                      (ptrCast mp.fs b)
                    rcases hnew : ballocNewIndir mp c (s1.grant mp ap'.lbn b mp.fs.bsize) ap'.lbn
                      (ptrCast mp.fs b) with ⟨err, s2⟩
                    simp only [hnew] at hn hbad herr ⊢
                    have hlen : s2.allocs.length = 1 + s.allocs.length := by
                      rw [hn.allocs, Nat.add_comm]
                      rfl
                    cases err with
                    | some e =>
                        rw [← hbad]
                        exact hlen
                    | none =>
                        have hok : ¬ newIndirErr mp c ap'.lbn = true := by simp [← hbad]
                        rw [if_neg hok, ih _ _ _ hrest herr, taken_null ?_, Nat.add_comm 1,
                          Nat.add_assoc]
                        · exact congrArg _ hlen
                        · show (s2.setInd ap.lbn ap.off (ptrCast mp.fs b)).ind ap'.lbn ap'.off = 0
                          rw [Growth.setInd_of_ne _ hne, hn.ind, Growth.clear_self]
              · simp only [if_pos h0] at herr ⊢
                rw [ih _ _ _ hrest herr, (hs.use ap.lbn bp .write).allocs,
                  (hs.use ap.lbn bp .write).ind]

theorem ballocFinish_allocs {mp : Ump} {c : BallocCall} {old new : List Grant}
    {allocib : Option Nat} {w : WalkEnd} {s' : Growth} {e : Errno}
    (hallocs : w.st.allocs = new ++ old)
    (h : ballocFinish mp c old allocib w = (.error e, s')) :
    w.err ≠ none ∧ s'.allocs = w.st.allocs := by
  obtain ⟨herr, ⟨-, -, -, rfl⟩ | ⟨t, ht, rfl⟩⟩ := ballocFinish_error hallocs h
  · exact ⟨by simp [herr], rfl⟩
  · exact ⟨by simp [herr], (failUnwind_frame ht).1⟩

theorem path_chain {N l rel : Nat} (hN : 4 ≤ N) (hl : l < niaddr) (hrel : rel < N ^ (l + 1))
    {h : Nat} (hh : h ≤ l) :
    (pathIndir N (levelBase N l) rel h :: path N (levelBase N l) rel h).IsChain
      fun a b => b.lbn ≠ a.lbn := by
  induction h with
  | zero => exact List.isChain_singleton _
  | succ h ih =>
      refine List.isChain_cons_cons.mpr ⟨fun heq => ?_, ih (by omega)⟩
      have := pathIndir_inj hN hl hrel (show h ≤ l by omega) hh heq
      omega

/-- The error return comes with as many blocks allocated as `blocksTaken`
counts. -/
theorem ballocIndir_taken {mp : Ump} {c : BallocCall} {l rel lbn : Nat} {s s' : Growth}
    {e : Errno} (hl : l < niaddr) (hrel : rel < mp.fs.nindir ^ (l + 1)) {t : Int}
    (hpath : ufsGetlbns mp.fs.nindir lbn = .ok (⟨t, l⟩ ::
      hop mp l rel l ::
      hops mp l rel l))
    (h : ballocIndir mp c s lbn ⟨t, l⟩ (hop mp l rel l) (hops mp l rel l) = (.error e, s')) :
    s'.allocs.length = blocksTaken mp c s lbn + s.allocs.length := by
  have hchain := path_chain mp.fs.four_le_nindir hl hrel (Nat.le_refl l)
  have hwalked := fun allocib s => (ballocWalk_walked mp c lbn allocib
    (levelBase mp.fs.nindir l) rel l s none).allocs
  simp only [blocksTaken, hpath]
  unfold ballocIndir at h
  by_cases hib : s.ip.ib l = 0
  · simp only [hib, ne_eq, not_true_eq_false, if_false] at h ⊢
    cases halloc : c.alloc (hop mp l rel l).lbn with
    | error e' =>
        simp only [ffsAlloc, halloc] at h
        rw [← (Prod.mk.inj h).2, Nat.zero_add]
    | ok b =>
        simp only [ffsAlloc, halloc] at h
        have hn := sameFile_newIndir mp c
          (s.grant mp (hop mp l rel l).lbn b mp.fs.bsize) (hop mp l rel l).lbn (ptrCast mp.fs b)
        have hbad := ballocNewIndir_err mp c
          (s.grant mp (hop mp l rel l).lbn b mp.fs.bsize) (hop mp l rel l).lbn (ptrCast mp.fs b)
        split at h
        · next e₁ s₁ hnew =>
            rw [hnew] at hn hbad
            have ha : s₁.allocs = [⟨_, b⟩] ++ s.allocs := hn.allocs
            rw [← hbad, (ballocFinish_allocs ha h).2, ha, List.length_append]
            rfl
        · next s₁ hnew =>
            rw [hnew] at hn hbad
            have hok : ¬ newIndirErr mp c (hop mp l rel l).lbn = true := by
              simp [← hbad]
            obtain ⟨new, ha, -⟩ := hwalked true (s₁.setIb l (ptrCast mp.fs b))
            rw [show (s₁.setIb l (ptrCast mp.fs b)).allocs = [⟨_, b⟩] ++ s.allocs from hn.allocs,
              ← List.append_assoc] at ha
            obtain ⟨herr, hs'⟩ := ballocFinish_allocs ha h
            rw [if_neg hok, hs', ballocWalk_taken _ _ _ _ _ _ _ _ hchain herr, taken_null ?_,
              Nat.add_comm 1, Nat.add_assoc, Nat.add_comm 1]
            · exact congrArg _ (congrArg List.length hn.allocs)
            · show s₁.ind _ _ = 0
              rw [hn.ind, Growth.clear_self]
  · simp only [hib, ne_eq, not_false_eq_true, if_true] at h ⊢
    obtain ⟨new, ha, -⟩ := hwalked false s
    obtain ⟨herr, hs'⟩ := ballocFinish_allocs ha h
    rw [hs', ballocWalk_taken _ _ _ _ _ _ _ _ hchain herr]

/-! ### The whole call -/

/-- What the allocator returns is not in use by the file. -/
def Fresh (mp : Ump) (c : BallocCall) (s : Growth) : Prop :=
  ∀ n b, c.alloc n = .ok b → ∀ p, ¬ PtrAt mp s p b

/-- Nothing is left of the blocks `new` that were allocated since `s`. -/
structure Undone (mp : Ump) (s s' : Growth) (new : List Grant) : Prop where
  allocs : s'.allocs = new ++ s.allocs
  frees : s'.frees = (new.map fun g => (g.addr, mp.fs.bsize)) ++ s.frees
  dangling : ∀ g ∈ new, ∀ p, ¬ PtrAt mp s' p g.addr
  kept : ∀ p b, b ≠ 0 → PtrAt mp s p b → PtrAt mp s' p b
  blocks : s'.ip.blocks = s.ip.blocks

theorem Failed.undone_length_iff {mp : Ump} {c : BallocCall} {s s' : Growth} {new : List Grant}
    (hf : Failed mp c s s' new) (hfresh : Fresh mp c s) :
    (∃ new, Undone mp s s' new) ↔ unchargeN mp s.ip.blocks new.length = s.ip.blocks := by
  constructor
  · rintro ⟨new', hu⟩
    rw [← hf.blocks, hu.blocks]
  · intro hb
    refine ⟨new, hf.allocs, hf.frees, fun g hg p hp => ?_, fun p b _ hp => (hf.ptrs p b).mpr hp,
      hf.blocks.trans hb⟩
    exact hfresh _ _ (hf.source g hg) p ((hf.ptrs p _).mp hp)

/-- A failed call for a block behind indirect blocks leaves the file as it was
after the promotion step, exactly when no charge was lost: `DIP_SET` narrows
`di_blocks` to 32 bits, and `fail` subtracts from the full field. -/
theorem ffsBalloc_undone_iff (mp : Ump) (c : BallocCall) (s s₁ s' : Growth) (startoffset : Int)
    (size : Nat) (e : Errno) (hac : AllocOk mp c) (hfresh : Fresh mp c s₁)
    (hblocks : blocksCast mp.fs s₁.ip.blocks = s₁.ip.blocks)
    (hlbn : (ndaddr : Int) ≤ mp.fs.lblkno startoffset)
    (hp : ballocPromote mp c s (mp.fs.lblkno startoffset).toNat = (.ok (), s₁))
    (h : ffsBalloc mp c s startoffset size = (.error e, s')) :
    let n := blocksTaken mp c s₁ (mp.fs.lblkno startoffset).toNat
    (∃ new, Undone mp s₁ s' new) ↔
      mp.fs.magic = .ufs1 ∨ n = 0 ∨
        toU64 (s₁.ip.blocks + n * btodb mp mp.fs.bsize) < 2 ^ 32 := by
  intro n
  rw [← unchargeN_eq_iff mp hblocks]
  have hnat : ¬ (mp.fs.lblkno startoffset).toNat < ndaddr := by
    unfold ndaddr at hlbn ⊢
    omega
  unfold ffsBalloc at h
  simp only [hp] at h
  split at h
  · cases (Prod.mk.inj h).1
  split at h
  · unfold ndaddr at hlbn
    omega
  simp only [ballocBlock, if_neg hnat] at h
  obtain hdir | ⟨l, rel, hl, hrel, hlev⟩ | hbig :=
    level_cases mp.fs.nindir (mp.fs.lblkno startoffset).toNat
  · exact absurd hdir hnat
  · have hpath := ufsGetlbns_path hl hrel
    rw [← hlev] at hpath
    simp only [hpath] at h
    have htaken := ballocIndir_taken hl hrel hpath h
    rw [hlev] at h
    obtain ⟨new, hf⟩ := ballocIndir_failed hl hrel hac hblocks h
    have hlen : new.length = n := by
      rw [hf.allocs, List.length_append] at htaken
      omega
    rw [hf.undone_length_iff hfresh, hlen]
  · have hbig' := ufsGetlbns_efbig hbig
    have hn : n = 0 := by
      simp only [n, blocksTaken, hbig']
    simp only [hbig'] at h
    rw [← (Prod.mk.inj h).2, (failed_refl hblocks).undone_length_iff hfresh, List.length_nil, hn]

/-- Indirect blocks can be had at fragment `b`, and then the disk is full. -/
def fullCall (b : Int) : BallocCall :=
  { smoothCall with alloc := fun n => if n < 0 then .ok b else .error .enospc }

theorem allocOk_fullCall {mp : Ump} {b : Int} (h0 : 0 < b) (h1 : b < mp.fs.size) :
    AllocOk mp (fullCall b) where
  alloc n x h := by
    simp only [fullCall] at h
    split at h
    · obtain rfl := Except.ok.inj h
      exact ⟨h0, h1⟩
    · cases h

theorem fresh_fullCall {mp : Ump} {b : Int} {s : Growth} (h : ∀ p, ¬ PtrAt mp s p b) :
    Fresh mp (fullCall b) s := by
  intro n x hx
  simp only [fullCall] at hx
  split at hx
  · obtain rfl := Except.ok.inj hx
    exact h
  · cases hx

theorem sparseFile_ptrs {size : Nat} {p : Place} {b : Int}
    (h : PtrAt tinyUmp (sparseFile size) p b) : b = 0 := by
  cases p with
  | db i => exact h.2
  | ib l => exact h.2
  | slot l h' m i => exact h.2.2.2

theorem ffsBalloc_undone_iff_sparse :
    ∃ new, Undone tinyUmp (sparseFile 0)
      (ffsBalloc tinyUmp (fullCall 4) (sparseFile 0) 196608 16384).2 new := by
  have herr : (ffsBalloc tinyUmp (fullCall 4) (sparseFile 0) 196608 16384).1 = .error .enospc := by
    decide +kernel
  refine (ffsBalloc_undone_iff tinyUmp (fullCall 4) (sparseFile 0) (sparseFile 0) _ 196608 16384
    .enospc (allocOk_fullCall (by decide) (by decide))
    (fresh_fullCall fun p hp => absurd (sparseFile_ptrs hp) (by decide)) (by decide) (by decide)
    (by rfl) (eq_mk_snd herr)).mpr (.inr (.inr (by decide +kernel)))

/-- A UFS2 file system of 16 terabytes, with 65536-byte blocks. -/
def hugeFs : Fs :=
  { tinyFs with
    fragshift := 3, fshift := 13, size := 2 ^ 31, ncg := 2 ^ 13, fpg := 2 ^ 18, nindir := 8192
    inopb := 256
    fragshift_le := by decide
    bshift_le := by decide
    fpg_pos := by decide
    frag_dvd_fpg := by decide
    ncg_pos := by decide
    ncg_lt := by decide
    inopb_pos := by decide
    size_lt := by decide
    fsbtodb_le := by decide
    four_le_nindir := by decide
    nindir_le := by decide }

theorem hugeUmp_pos : 0 < 512 := by decide

theorem hugeUmp_dvd : 512 ∣ hugeFs.fsize := by decide

def hugeUmp : Ump where
  fs := hugeFs
  devbsize := 512
  untrusted := false
  async := false
  devbsize_pos := hugeUmp_pos
  devbsize_dvd := hugeUmp_dvd

/-- A file whose first 33550334 blocks are there; with its 4097 indirect blocks
it holds 2^25 - 1 blocks of 128 device blocks each. Data block `m` is at
fragment `8 * (m + 16)`, the indirect blocks are behind all of these. -/
def hugeFile : Growth :=
  { sparseFile (33550334 * 65536) with
    ip :=
      { snapshot := false, size := 33550334 * 65536, blocks := 2 ^ 32 - 128
        db := fun i => 8 * (i + 16)
        ib := fun i =>
          if i = 0 then 2 ^ 30 + 8 * 12 else if i = 1 then 2 ^ 30 + 8 * 8205 else 0
        extb := fun _ => 0 }
    ind := fun n i =>
      if n = -8205 then if i ≤ 4094 then 2 ^ 30 + 8 * (8204 + i * 8192) else 0
      else if -n + i < 33550334 then 8 * (-n + i + 16) else 0 }

theorem fresh_hugeFile : Fresh hugeUmp (fullCall 8) hugeFile := by
  refine fresh_fullCall fun p hp => ?_
  cases p with
  | db i =>
      have h : (8 : Int) = 8 * (i + 16) := hp.2
      omega
  | ib l =>
      have h : (8 : Int) = if l = 0 then 2 ^ 30 + 8 * 12 else if l = 1 then 2 ^ 30 + 8 * 8205 else 0 :=
        hp.2
      split at h
      · omega
      · split at h <;> omega
  | slot l h' m i =>
      obtain ⟨-, hr, -, hb⟩ := hp
      have hneg : indirLbn hugeUmp.fs.nindir l h' m ≤ 0 := by
        have := hr.bounds.1
        unfold indirLbn metaLbn
        omega
      generalize indirLbn hugeUmp.fs.nindir l h' m = n at hb hneg
      simp only [hugeFile] at hb
      split at hb
      · split at hb <;> omega
      · split at hb <;> omega

/-- A write behind the end of that file gets its indirect block and no data
block. `di_blocks` was 2^32 - 128 and ends as 2^64 - 128. -/
theorem not_ffsBalloc_undone_huge :
    AllocOk hugeUmp (fullCall 8) ∧ Fresh hugeUmp (fullCall 8) hugeFile ∧
      (ballocPromote hugeUmp (fullCall 8) hugeFile 40968204).1 = .ok () ∧
      (ffsBalloc hugeUmp (fullCall 8) hugeFile (40968204 * 65536) 65536).1 = .error .enospc ∧
      ¬ ∃ new, Undone hugeUmp (ballocPromote hugeUmp (fullCall 8) hugeFile 40968204).2
        (ffsBalloc hugeUmp (fullCall 8) hugeFile (40968204 * 65536) 65536).2 new := by
  refine ⟨allocOk_fullCall (by decide) (by decide), fresh_hugeFile, by decide +kernel,
    by decide +kernel, ?_⟩
  rintro ⟨new, h⟩
  exact absurd h.blocks (by decide +kernel)

end UfsX.Proofs
