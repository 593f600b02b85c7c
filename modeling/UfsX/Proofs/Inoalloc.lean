import UfsX.Ffs.Inoalloc
import UfsX.Proofs.Discipline

/-!
# `UfsX.Proofs.Inoalloc`: the inode maps stay consistent

`inoOk_of_run` is the invariant over runs of `ffs_nodealloccg` and
`ffs_freefile`. It rests on `memcchr_spec`, the word-wise search, and on
`nodeRestart_run`, which follows the function through the initialization of
inode blocks in any state.
-/

set_option autoImplicit false

namespace UfsX.Proofs

open UfsX.Lib UfsX.Ffs
open Finset (range)
open Relation (ReflTransGen)

/-! ### `memcchr` -/

section Memcchr

variable {mem : Nat → BitVec 8} {c : BitVec 8}

/-- `q` is the first place from `p` on that does not hold `c`. -/
def FirstNot (mem : Nat → BitVec 8) (c : BitVec 8) (p q : Nat) : Prop :=
  p ≤ q ∧ mem q ≠ c ∧ ∀ r, p ≤ r → r < q → mem r = c

theorem FirstNot.extend {p p' q : Nat} (h : FirstNot mem c p' q) (hp : p ≤ p')
    (hall : ∀ r, p ≤ r → r < p' → mem r = c) : FirstNot mem c p q := by
  refine ⟨Nat.le_trans hp h.1, h.2.1, fun r hr hq => ?_⟩
  rcases Nat.lt_or_ge r p' with hlt | hge
  · exact hall r hr hlt
  · exact h.2.2 r hge hq

theorem testBytes_some {n p q : Nat} (h : testBytes mem c n p = some q) :
    FirstNot mem c p q ∧ q < p + n := by
  induction n generalizing p with
  | zero => cases h
  | succ n ih =>
      rw [testBytes] at h
      split at h
      · next hne =>
          obtain rfl := Option.some.inj h
          exact ⟨⟨Nat.le_refl _, hne, fun r _ _ => by omega⟩, by omega⟩
      · next heq =>
          obtain ⟨hf, hlt⟩ := ih h
          refine ⟨hf.extend (by omega) fun r hr hr' => ?_, by omega⟩
          obtain rfl : r = p := by omega
          exact not_not.mp heq

theorem testBytes_none {n p : Nat} (h : testBytes mem c n p = none) :
    ∀ r, p ≤ r → r < p + n → mem r = c := by
  induction n generalizing p with
  | zero =>
      intro r hr hr'
      omega
  | succ n ih =>
      rw [testBytes] at h
      split at h
      · cases h
      · next heq =>
          intro r hr hr'
          rcases Nat.eq_or_lt_of_le hr with rfl | hlt
          · exact not_not.mp heq
          · exact ih h r hlt (by omega)

theorem wordIs_iff {lp : Nat} :
    wordIs mem c lp = true ↔ ∀ r, lp ≤ r → r < lp + 8 → mem r = c := by
  simp only [wordIs, List.all_eq_true, List.mem_range, beq_iff_eq]
  constructor
  · intro h r hr hr'
    have := h (r - lp) (by omega)
    rwa [Nat.add_sub_cancel' hr] at this
  · intro h i hi
    exact h (lp + i) (by omega) (by omega)

/-- In a word that differs, seven tests are enough. -/
theorem wordDiff {lp : Nat} (h : wordIs mem c lp = false) :
    FirstNot mem c lp ((testBytes mem c 7 lp).getD (lp + 7)) := by
  cases ht : testBytes mem c 7 lp with
  | some q => exact (testBytes_some ht).1
  | none =>
      have hall := testBytes_none ht
      refine ⟨by simp, fun heq => ?_, hall⟩
      have : wordIs mem c lp = true := by
        refine wordIs_iff.mpr fun r hr hr' => ?_
        rcases Nat.lt_or_ge r (lp + 7) with hlt | hge
        · exact hall r hr hlt
        · obtain rfl : r = lp + 7 := by omega
          exact heq
      simp [h] at this

theorem memcchrWords_some {stop n lp q : Nat} (h : memcchrWords mem c stop n lp = some q) :
    FirstNot mem c lp q := by
  induction n generalizing lp with
  | zero => cases h
  | succ n ih =>
      rw [memcchrWords] at h
      split at h
      · cases h
      · split at h
        · next hw =>
            exact (ih h).extend (by omega) (wordIs_iff.mp hw)
        · next hw =>
            obtain rfl := Option.some.inj h
            exact wordDiff (by simpa using hw)

theorem memcchrWords_none {stop n lp : Nat} (hn : stop ≤ lp + 8 * n)
    (h : memcchrWords mem c stop n lp = none) : ∀ r, lp ≤ r → r < stop → mem r = c := by
  induction n generalizing lp with
  | zero =>
      intro r hr hr'
      omega
  | succ n ih =>
      rw [memcchrWords] at h
      split at h
      · intro r hr hr'
        omega
      · split at h
        · next hw =>
            intro r hr hr'
            rcases Nat.lt_or_ge r (lp + 8) with hlt | hge
            · exact wordIs_iff.mp hw r hr hlt
            · exact ih (by omega) h r hge hr'
        · cases h

/-- The first of the two loops, then the second. -/
theorem memcchr_loops (mem : Nat → BitVec 8) (c : BitVec 8) (start n : Nat) :
    match (if wordIs mem c (start / 8 * 8) then none
        else testBytes mem c (start / 8 * 8 + 8 - start) start).or
        (memcchrWords mem c (start + n) n (start / 8 * 8 + 8)) with
    | some q => FirstNot mem c start q
    | none => ∀ r, start ≤ r → r < start + n → mem r = c := by
  -- no byte of the first word from `start` on differs, so the second loop decides
  have hsecond (hall : ∀ r, start ≤ r → r < start / 8 * 8 + 8 → mem r = c) :
      match memcchrWords mem c (start + n) n (start / 8 * 8 + 8) with
      | some q => FirstNot mem c start q
      | none => ∀ r, start ≤ r → r < start + n → mem r = c := by
    cases hw : memcchrWords mem c (start + n) n (start / 8 * 8 + 8) with
    | some q => exact (memcchrWords_some hw).extend (by omega) hall
    | none =>
        intro r hr hr'
        rcases Nat.lt_or_ge r (start / 8 * 8 + 8) with hlt | hge
        · exact hall r hr hlt
        · exact memcchrWords_none (by omega) hw r hge hr'
  by_cases hword : wordIs mem c (start / 8 * 8) = true
  · rw [if_pos hword, Option.none_or]
    exact hsecond fun r hr hr' => wordIs_iff.mp hword r (by omega) hr'
  · rw [if_neg hword]
    cases ht : testBytes mem c (start / 8 * 8 + 8 - start) start with
    | some q =>
        rw [Option.some_or]
        exact (testBytes_some ht).1
    | none =>
        rw [Option.none_or]
        exact hsecond fun r hr hr' => testBytes_none ht r hr (by omega)

/-- `memcchr` returns the first byte that is not `c`, wherever the words begin
and end. -/
theorem memcchr_spec (mem : Nat → BitVec 8) (start : Nat) (c : BitVec 8) (n : Nat) :
    match memcchr mem start c n with
    | some q => FirstNot mem c start q ∧ q < start + n
    | none => ∀ r, start ≤ r → r < start + n → mem r = c := by
  unfold memcchr
  by_cases hn : n = 0
  · rw [if_pos hn]
    intro r hr hr'
    omega
  · rw [if_neg hn]
    have hloops := memcchr_loops mem c start n
    dsimp only
    revert hloops
    generalize (Option.or _ _) = found
    intro hloops
    cases found with
    | none => exact hloops
    | some q =>
        by_cases hq : q < start + n
        · simp only [if_pos hq]
          exact ⟨hloops, hq⟩
        · simp only [if_neg hq]
          intro r hr hr'
          exact hloops.2.2 r hr (by omega)

end Memcchr

/-! ### The invariant -/

/-- What `newfs` promises about the inodes of a file system: a group's inodes
fill whole blocks, a block of inodes fills whole bytes of the map, and inode
numbers have 32 bits. -/
structure InoGeometry (fs : Fs) : Prop where
  inopb_dvd : fs.inopb ∣ fs.ipg
  eight_dvd : 8 ∣ fs.inopb
  ino_lt : fs.ipg * fs.ncg < 2 ^ 32

/-- The free inodes of a map. -/
def freeInodes (fs : Fs) (m : Bitmap) : Nat := ((range fs.ipg).filter fun i => m.isclr i).card

/-- On UFS2, only inodes of initialized blocks are used. -/
structure InitedOk (fs : Fs) (c : Cg) : Prop where
  niblk : c.niblk = fs.ipg
  le : c.initediblk ≤ c.niblk
  dvd : fs.inopb ∣ c.initediblk
  used : ∀ i < fs.ipg, c.inosused.isset i = true → i < c.initediblk

/-- The inode part of a cylinder group is consistent. -/
structure CgInoOk (fs : Fs) (c : Cg) : Prop where
  nifree : c.cs.nifree = freeInodes fs c.inosused
  irotor : c.irotor < fs.ipg
  inited : fs.magic = .ufs2 → InitedOk fs c

/-- The inode maps and their summaries are consistent, and inode 0 is used. -/
structure InoOk (fs : Fs) (s : State) : Prop where
  group : ∀ cg < fs.ncg, CgInoOk fs (s.cgs cg)
  csp_nifree : ∀ cg < fs.ncg, (s.csp cg).nifree = (s.cgs cg).cs.nifree
  csp_ndir : ∀ cg < fs.ncg, (s.csp cg).ndir = (s.cgs cg).cs.ndir
  nifree : s.cstotal.nifree = ∑ cg ∈ range fs.ncg, (s.cgs cg).cs.nifree
  ndir : s.cstotal.ndir = ∑ cg ∈ range fs.ncg, (s.cgs cg).cs.ndir
  zero : (s.cgs 0).inosused.isset 0 = true

section Invariant

variable {fs : Fs}

theorem InoGeometry.eight_dvd_ipg (hgeo : InoGeometry fs) : 8 ∣ fs.ipg :=
  hgeo.eight_dvd.trans hgeo.inopb_dvd

theorem InoGeometry.cg_mul_lt (hgeo : InoGeometry fs) {cg : Nat} (hcg : cg < fs.ncg) :
    cg * fs.ipg + fs.ipg < 2 ^ 32 := by
  calc cg * fs.ipg + fs.ipg = fs.ipg * (cg + 1) := by ring
    _ ≤ fs.ipg * fs.ncg := Nat.mul_le_mul_left _ hcg
    _ < 2 ^ 32 := hgeo.ino_lt

/-! ### The search for a free inode -/

/-- A byte that is not full has a clear bit. -/
theorem firstClear_spec {b : BitVec 8} (hb : b ≠ 0xff) :
    firstClear b < 8 ∧ b.getLsbD (firstClear b) = false := by
  unfold firstClear
  cases hf : (List.range 8).find? fun i => !b.getLsbD i with
  | some i =>
      have hmem := List.mem_of_find?_eq_some hf
      have hclr := List.find?_some hf
      simp only [List.mem_range, Bool.not_eq_true'] at hmem hclr
      exact ⟨hmem, hclr⟩
  | none =>
      refine absurd (BitVec.eq_of_getLsbD_eq fun i hi => ?_) hb
      have hset := List.find?_eq_none.mp hf i (List.mem_range.mpr hi)
      have hones : (0xff : BitVec 8).getLsbD i = true := by
        interval_cases i <;> rfl
      rw [hones]
      simpa using hset

/-- A full byte has no clear bit. -/
theorem byte_ne_full {m : Bitmap} {i : Nat} (h : m.isclr i = true) : m (i / 8) ≠ 0xff := by
  intro hfull
  have hones : (0xff : BitVec 8).getLsbD (i % 8) = true := by
    have hlt : i % 8 < 8 := Nat.mod_lt _ (by decide)
    generalize i % 8 = r at hlt
    interval_cases r <;> rfl
  simp only [Bitmap.isclr, Bitmap.isset, hfull, hones] at h
  exact absurd h (by decide)

theorem exists_isclr {m : Bitmap} (h : freeInodes fs m ≠ 0) :
    ∃ i < fs.ipg, m.isclr i = true := by
  obtain ⟨i, hi⟩ := Finset.card_ne_zero.mp h
  rw [Finset.mem_filter, Finset.mem_range] at hi
  exact ⟨i, hi⟩

theorem clear_of_byte {m : Bitmap} {q : Nat} (hdvd : 8 ∣ fs.ipg) (hq : q < fs.ipg / 8)
    (hne : m q ≠ 0xff) :
    q * 8 + firstClear (m q) < fs.ipg ∧ m.isclr (q * 8 + firstClear (m q)) = true := by
  obtain ⟨hlt, hclr⟩ := firstClear_spec hne
  refine ⟨by omega, ?_⟩
  rw [Bitmap.isclr, Nat.mul_comm, ← Bitmap.getLsbD_byte _ _ _ hlt, hclr]
  rfl

/-- What the search finds is a free inode of the group. -/
theorem inodeSearch_free (hdvd : 8 ∣ fs.ipg) {c : Cg} (hrotor : c.irotor < fs.ipg) {i : Nat}
    (h : inodeSearch fs c = .ok i) : i < fs.ipg ∧ c.inosused.isclr i = true := by
  have hfirst := memcchr_spec c.inosused (c.irotor / 8) 0xff ((fs.ipg - c.irotor + 7) / 8)
  have hsecond := memcchr_spec c.inosused 0 0xff (c.irotor / 8 + 1)
  -- the bytes from the rotor's on are the last ones of the map
  have hend : c.irotor / 8 + (fs.ipg - c.irotor + 7) / 8 = fs.ipg / 8 := by omega
  unfold inodeSearch at h
  cases hm : memcchr c.inosused (c.irotor / 8) 0xff ((fs.ipg - c.irotor + 7) / 8) with
  | some q =>
      rw [hm, hend] at hfirst
      simp only [hm, Option.some_or] at h
      obtain rfl := Except.ok.inj h
      exact clear_of_byte hdvd hfirst.2 hfirst.1.2.1
  | none =>
      simp only [hm, Option.none_or] at h
      cases hm' : memcchr c.inosused 0 0xff (c.irotor / 8 + 1) with
      | none => simp only [hm', reduceCtorEq] at h
      | some q =>
          rw [hm'] at hsecond
          simp only [hm'] at h
          obtain rfl := Except.ok.inj h
          exact clear_of_byte hdvd (by omega) hsecond.1.2.1

/-- The search comes to the two ends of the map, so it finds an inode when one is free. -/
theorem inodeSearch_ne_error (hdvd : 8 ∣ fs.ipg) {c : Cg} (hrotor : c.irotor < fs.ipg) {i₀ : Nat}
    (hi₀ : i₀ < fs.ipg) (hclr : c.inosused.isclr i₀ = true) : ∃ i, inodeSearch fs c = .ok i := by
  have hbyte := byte_ne_full hclr
  have hfirst := memcchr_spec c.inosused (c.irotor / 8) 0xff ((fs.ipg - c.irotor + 7) / 8)
  have hsecond := memcchr_spec c.inosused 0 0xff (c.irotor / 8 + 1)
  unfold inodeSearch
  cases hm : memcchr c.inosused (c.irotor / 8) 0xff ((fs.ipg - c.irotor + 7) / 8) with
  | some q => exact ⟨q * 8 + firstClear (c.inosused q), by simp only [hm, Option.some_or]⟩
  | none =>
      rw [hm] at hfirst
      cases hm' : memcchr c.inosused 0 0xff (c.irotor / 8 + 1) with
      | some q => exact ⟨q * 8 + firstClear (c.inosused q), by simp only [hm, hm', Option.none_or]⟩
      | none =>
          rw [hm'] at hsecond
          have hbefore : i₀ / 8 < c.irotor / 8 := by
            by_contra hge
            exact hbyte (hfirst _ (by omega) (by omega))
          exact absurd (hsecond _ (Nat.zero_le _) (by omega)) hbyte

/-- The inode that is tried is a free one of the group. -/
theorem inodePick_free (hdvd : 8 ∣ fs.ipg) {c : Cg} (hrotor : c.irotor < fs.ipg) {ipref i : Nat}
    (h : inodePick fs c ipref = .ok i) : i < fs.ipg ∧ c.inosused.isclr i = true := by
  unfold inodePick at h
  split at h
  · next hpref =>
      obtain rfl := Except.ok.inj h
      exact ⟨Nat.mod_lt _ fs.ipg_pos, hpref.2⟩
  · exact inodeSearch_free hdvd hrotor h

/-- There is one to be tried when the group counts a free one. -/
theorem inodePick_ne_error (hdvd : 8 ∣ fs.ipg) {c : Cg} (h : CgInoOk fs c) (hfree : c.cs.nifree ≠ 0) {ipref : Nat}
    {e : Panic} : inodePick fs c ipref ≠ .error e := by
  obtain ⟨i₀, hi₀, hclr⟩ : ∃ i < fs.ipg, c.inosused.isclr i = true :=
    exists_isclr fun h0 => hfree (by rw [h.nifree, h0]; rfl)
  obtain ⟨i, hi⟩ := inodeSearch_ne_error hdvd h.irotor hi₀ hclr
  unfold inodePick
  split
  · simp
  · rw [hi]
    simp

/-! ### Changes of one group -/

theorem freeInodes_setbit {m : Bitmap} {i : Nat} (hi : i < fs.ipg) (hclr : m.isclr i = true) :
    freeInodes fs m = freeInodes fs (m.setbit i) + 1 := by
  unfold freeInodes
  rw [← Finset.card_erase_add_one (Finset.mem_filter.mpr ⟨Finset.mem_range.mpr hi, hclr⟩)]
  congr 2
  ext j
  simp only [Finset.mem_erase, Finset.mem_filter, Bitmap.isclr, Bitmap.isset_setbit]
  by_cases hj : j = i <;> simp [hj]

theorem freeInodes_clrbit {m : Bitmap} {i : Nat} (hi : i < fs.ipg) (hset : m.isset i = true) :
    freeInodes fs (m.clrbit i) = freeInodes fs m + 1 := by
  have hclr : (m.clrbit i).isclr i = true := by simp [Bitmap.isclr]
  rw [freeInodes_setbit hi hclr]
  unfold freeInodes
  congr 2
  ext j
  simp only [Finset.mem_filter, Bitmap.isclr, Bitmap.isset_setbit, Bitmap.isset_clrbit]
  by_cases hj : j = i <;> simp [hj, hset]

/-- Only group `cg` changes, and the summaries move along with it. -/
structure InoMoves (cg : Nat) (s s' : State) : Prop where
  cgs : ∀ g, g ≠ cg → s'.cgs g = s.cgs g
  csp_nifree : ∀ g, (s'.csp g).nifree - (s.csp g).nifree
    = (s'.cgs g).cs.nifree - (s.cgs g).cs.nifree
  csp_ndir : ∀ g, (s'.csp g).ndir - (s.csp g).ndir = (s'.cgs g).cs.ndir - (s.cgs g).cs.ndir
  nifree : s'.cstotal.nifree - s.cstotal.nifree
    = (s'.cgs cg).cs.nifree - (s.cgs cg).cs.nifree
  ndir : s'.cstotal.ndir - s.cstotal.ndir = (s'.cgs cg).cs.ndir - (s.cgs cg).cs.ndir

namespace InoMoves

variable {cg : Nat} {s s' s'' : State}

theorem trans (h : InoMoves cg s s') (h' : InoMoves cg s' s'') : InoMoves cg s s'' where
  cgs g hg := (h'.cgs g hg).trans (h.cgs g hg)
  csp_nifree g := by have := h.csp_nifree g; have := h'.csp_nifree g; omega
  csp_ndir g := by have := h.csp_ndir g; have := h'.csp_ndir g; omega
  nifree := by have := h.nifree; have := h'.nifree; omega
  ndir := by have := h.ndir; have := h'.ndir; omega

/-- A change that leaves the summaries alone. -/
theorem modCg (f : Cg → Cg) (hf : ∀ c, (f c).cs = c.cs) : InoMoves cg s (s.modCg cg f) where
  cgs g hg := Function.update_of_ne hg _ _
  csp_nifree g := by by_cases hg : g = cg <;> simp [hg, hf]
  csp_ndir g := by by_cases hg : g = cg <;> simp [hg, hf]
  nifree := by simp [hf]
  ndir := by simp [hf]

theorem emit (h : InoMoves cg s s') (e : Event) : InoMoves cg s (s'.emit e) :=
  ⟨h.cgs, h.csp_nifree, h.csp_ndir, h.nifree, h.ndir⟩

theorem addNifree (d : Int) : InoMoves cg s (s.addNifree cg d) where
  cgs g hg := Function.update_of_ne hg _ _
  csp_nifree g := by by_cases hg : g = cg <;> simp [State.addNifree, hg]
  csp_ndir g := by by_cases hg : g = cg <;> simp [State.addNifree, hg]
  nifree := by simp [State.addNifree]
  ndir := by simp [State.addNifree]

theorem addNdir (d : Int) : InoMoves cg s (s.addNdir cg d) where
  cgs g hg := Function.update_of_ne hg _ _
  csp_nifree g := by by_cases hg : g = cg <;> simp [State.addNdir, hg]
  csp_ndir g := by by_cases hg : g = cg <;> simp [State.addNdir, hg]
  nifree := by simp [State.addNdir]
  ndir := by simp [State.addNdir]

theorem cgs_eq (h : InoMoves cg s s') : s'.cgs = Function.update s.cgs cg (s'.cgs cg) := by
  funext g
  by_cases hg : g = cg
  · rw [hg, Function.update_self]
  · rw [Function.update_of_ne hg, h.cgs g hg]

end InoMoves

/-- A change of one group that leaves it consistent keeps the invariant. -/
theorem InoOk.moves {s s' : State} {cg : Nat} (h : InoOk fs s) (hcg : cg < fs.ncg)
    (hst : InoMoves cg s s') (hc' : CgInoOk fs (s'.cgs cg))
    (hzero : cg = 0 → (s'.cgs cg).inosused.isset 0 = true) : InoOk fs s' where
  group g hg := by
    by_cases hgc : g = cg
    · rw [hgc]
      exact hc'
    · rw [hst.cgs g hgc]
      exact h.group g hg
  csp_nifree g hg := by
    have h₁ := hst.csp_nifree g
    have h₂ := h.csp_nifree g hg
    omega
  csp_ndir g hg := by
    have h₁ := hst.csp_ndir g
    have h₂ := h.csp_ndir g hg
    omega
  nifree := by
    have h₁ := hst.nifree
    have h₂ := h.nifree
    rw [hst.cgs_eq, sum_update_cg Csum.nifree _ hcg]
    omega
  ndir := by
    have h₁ := hst.ndir
    have h₂ := h.ndir
    rw [hst.cgs_eq, sum_update_cg Csum.ndir _ hcg]
    omega
  zero := by
    by_cases h0 : cg = 0
    · have hz := hzero h0
      rwa [h0] at hz
    · rw [hst.cgs 0 (Ne.symm h0)]
      exact h.zero

theorem nodeTake_moves (s : State) (cg i mode : Nat) :
    InoMoves cg s (nodeTake fs s cg i mode).2 := by
  unfold nodeTake
  refine InoMoves.emit (InoMoves.emit ?_ _) _
  have hmap : InoMoves cg s
      (((s.modCg cg fun c => { c with irotor := i }).emit .lock).modCg cg fun c =>
        { c with inosused := c.inosused.setbit i }) :=
    ((InoMoves.modCg _ fun _ => by rfl).emit _).trans (InoMoves.modCg _ fun _ => by rfl)
  have htaken := hmap.trans (InoMoves.addNifree (-1))
  cases hdir : isDir mode with
  | false => exact ⟨htaken.1, htaken.2, htaken.3, htaken.4, htaken.5⟩
  | true =>
      have hall := htaken.trans (InoMoves.addNdir 1)
      exact ⟨hall.1, hall.2, hall.3, hall.4, hall.5⟩

theorem freefileGive_moves (s : State) (cg i mode : Nat) :
    InoMoves cg s (freefileGive s cg i mode) := by
  unfold freefileGive
  have hmap : InoMoves cg s ((s.modCg cg fun c => { c with
      inosused := c.inosused.clrbit i
      irotor := if i < c.irotor then i else c.irotor }).emit .lock) :=
    (InoMoves.modCg _ fun _ => by rfl).emit _
  have hgiven := hmap.trans (InoMoves.addNifree 1)
  cases hdir : isDir mode with
  | false => exact ⟨hgiven.1, hgiven.2, hgiven.3, hgiven.4, hgiven.5⟩
  | true =>
      have hall := hgiven.trans (InoMoves.addNdir (-1))
      exact ⟨hall.1, hall.2, hall.3, hall.4, hall.5⟩

theorem nodeTake_cg (fs : Fs) (s : State) (cg i mode : Nat) :
    let c' := (nodeTake fs s cg i mode).2.cgs cg
    c'.inosused = (s.cgs cg).inosused.setbit i ∧ c'.irotor = i
      ∧ c'.cs.nifree = (s.cgs cg).cs.nifree - 1 ∧ c'.niblk = (s.cgs cg).niblk
      ∧ c'.initediblk = (s.cgs cg).initediblk := by
  cases hdir : isDir mode <;>
    simp [nodeTake, State.addNifree, State.addNdir, hdir, Int.sub_eq_add_neg]

theorem freefileGive_cg (s : State) (cg i mode : Nat) :
    let c' := (freefileGive s cg i mode).cgs cg
    c'.inosused = (s.cgs cg).inosused.clrbit i
      ∧ c'.irotor = (if i < (s.cgs cg).irotor then i else (s.cgs cg).irotor)
      ∧ c'.cs.nifree = (s.cgs cg).cs.nifree + 1 ∧ c'.niblk = (s.cgs cg).niblk
      ∧ c'.initediblk = (s.cgs cg).initediblk := by
  cases hdir : isDir mode <;>
    simp [freefileGive, State.addNifree, State.addNdir, hdir]

theorem setbit_ok {c c' : Cg} {i : Nat} (h : CgInoOk fs c)
    (hi : i < fs.ipg) (hclr : c.inosused.isclr i = true)
    (hinited : fs.magic = .ufs2 → i < c.initediblk)
    (hc' : c'.inosused = c.inosused.setbit i ∧ c'.irotor = i
      ∧ c'.cs.nifree = c.cs.nifree - 1 ∧ c'.niblk = c.niblk ∧ c'.initediblk = c.initediblk) :
    CgInoOk fs c' := by
  obtain ⟨hmap, hrotor, hnifree, hniblk, hini⟩ := hc'
  refine ⟨?_, by rw [hrotor]; exact hi, fun h2 => ?_⟩
  · rw [hnifree, hmap, h.nifree, freeInodes_setbit hi hclr]
    omega
  · obtain ⟨hn, hle, hdvd, hused⟩ := h.inited h2
    refine ⟨by rw [hniblk, hn], by rw [hini, hniblk]; exact hle, by rw [hini]; exact hdvd, ?_⟩
    intro j hj hset
    rw [hmap, Bitmap.isset_setbit, Bool.or_eq_true, decide_eq_true_eq] at hset
    rw [hini]
    rcases hset with rfl | hset
    · exact hinited h2
    · exact hused j hj hset

theorem clrbit_ok {c c' : Cg} {i : Nat} (h : CgInoOk fs c) (hi : i < fs.ipg)
    (hset : c.inosused.isset i = true)
    (hc' : c'.inosused = c.inosused.clrbit i
      ∧ c'.irotor = (if i < c.irotor then i else c.irotor)
      ∧ c'.cs.nifree = c.cs.nifree + 1 ∧ c'.niblk = c.niblk ∧ c'.initediblk = c.initediblk) :
    CgInoOk fs c' := by
  obtain ⟨hmap, hrotor, hnifree, hniblk, hini⟩ := hc'
  refine ⟨?_, ?_, fun h2 => ?_⟩
  · rw [hnifree, hmap, h.nifree, freeInodes_clrbit hi hset]
    omega
  · rw [hrotor]
    split
    · exact hi
    · exact h.irotor
  · obtain ⟨hn, hle, hdvd, hused⟩ := h.inited h2
    refine ⟨by rw [hniblk, hn], by rw [hini, hniblk]; exact hle, by rw [hini]; exact hdvd, ?_⟩
    intro j hj hset'
    rw [hmap, Bitmap.isset_clrbit, Bool.and_eq_true] at hset'
    rw [hini]
    exact hused j hj hset'.2

/-! ### `ffs_nodealloccg` -/

/-- What a call of `ffs_nodealloccg` in group `cg` promises, when it takes `s`
to `s'` and returns `ino`. -/
structure NodeOk (fs : Fs) (cg : Nat) (s : State) (ino : Nat) (s' : State) : Prop where
  ok : InoOk fs s'
  none_free : ino = 0 → ∀ i < fs.ipg, (s.cgs cg).inosused.isset i = true
  in_group : ino ≠ 0 → cg * fs.ipg ≤ ino ∧ ino < (cg + 1) * fs.ipg
  was_free : ino ≠ 0 → (s.cgs cg).inosused.isclr (ino - cg * fs.ipg) = true
  is_used : ino ≠ 0 → (s'.cgs cg).inosused.isset (ino - cg * fs.ipg) = true
  inited : ino ≠ 0 → fs.magic = .ufs2 → ino - cg * fs.ipg < (s'.cgs cg).initediblk

theorem InoOk.emit {s : State} (h : InoOk fs s) (e : Event) : InoOk fs (s.emit e) :=
  ⟨h.group, h.csp_nifree, h.csp_ndir, h.nifree, h.ndir, h.zero⟩

theorem all_used {c : Cg} (h : CgInoOk fs c) (h0 : c.cs.nifree = 0) :
    ∀ i < fs.ipg, c.inosused.isset i = true := by
  intro i hi
  have hcard : freeInodes fs c.inosused = 0 := by
    have := h.nifree
    omega
  have hnot := Finset.filter_eq_empty_iff.mp (Finset.card_eq_zero.mp hcard) (Finset.mem_range.mpr hi)
  simpa [Bitmap.isclr] using hnot

theorem nodeTake_ino {s : State} {cg i : Nat} (mode : Nat) (hlt : cg * fs.ipg < 2 ^ 32)
    (hzero : (s.cgs 0).inosused.isset 0 = true) (hclr : (s.cgs cg).inosused.isclr i = true) :
    (nodeTake fs s cg i mode).1 = cg * fs.ipg + i ∧ cg * fs.ipg + i ≠ 0 := by
  constructor
  · show (toU32 _).toNat + i = _
    rw [← Nat.cast_mul, toU32_eq_self (by omega) (by omega), Int.toNat_natCast]
  · -- inode 0 is in use
    intro h0
    obtain ⟨hmul, rfl⟩ := Nat.add_eq_zero_iff.mp h0
    obtain rfl : cg = 0 := (Nat.mul_eq_zero.mp hmul).resolve_right fs.ipg_pos.ne'
    rw [Bitmap.isclr, hzero] at hclr
    cases hclr

theorem nodeTake_ok (hgeo : InoGeometry fs) {s : State} {cg i : Nat} (mode : Nat) (h : InoOk fs s)
    (hcg : cg < fs.ncg) (hi : i < fs.ipg) (hclr : (s.cgs cg).inosused.isclr i = true)
    (hdue : ¬ inodeBlockDue fs (s.cgs cg) i = true) :
    NodeOk fs cg s (nodeTake fs s cg i mode).1 (nodeTake fs s cg i mode).2 := by
  have hok := h.group cg hcg
  have hlt := hgeo.cg_mul_lt hcg
  obtain ⟨hino, hne⟩ := nodeTake_ino mode (show cg * fs.ipg < 2 ^ 32 by omega) h.zero hclr
  -- either the block of `i` is initialized, or all blocks are
  have hinited : fs.magic = .ufs2 → i < (s.cgs cg).initediblk := by
    intro h2
    obtain ⟨hn, hle, -, -⟩ := hok.inited h2
    have hpos := fs.inopb_pos
    simp only [inodeBlockDue, h2, true_and, decide_eq_true_eq] at hdue
    omega
  have hsub : cg * fs.ipg + i - cg * fs.ipg = i := Nat.add_sub_cancel_left _ _
  have hcgmap := nodeTake_cg fs s cg i mode
  obtain ⟨hmap, -, -, -, hini⟩ := hcgmap
  rw [hino]
  refine ⟨h.moves hcg (nodeTake_moves s cg i mode)
      (setbit_ok hok hi hclr hinited (nodeTake_cg fs s cg i mode)) fun h0 => ?_,
    fun h0 => absurd h0 hne, fun _ => ⟨Nat.le_add_right _ _, ?_⟩, fun _ => ?_, fun _ => ?_,
    fun _ h2 => ?_⟩
  · rw [hmap, Bitmap.isset_setbit, h0, h.zero, Bool.or_true]
  · rw [Nat.add_one_mul]
    omega
  · rw [hsub]
    exact hclr
  · rw [hsub, hmap, Bitmap.isset_setbit, decide_eq_true rfl, Bool.true_or]
  · rw [hsub, hini]
    exact hinited h2

/-- Initializing a block keeps the invariant: the blocks of a group end at its
last inode. -/
theorem inodesInited_ok (hgeo : InoGeometry fs) {s : State} {cg i : Nat} (h : InoOk fs s)
    (hcg : cg < fs.ncg) (hdue : inodeBlockDue fs (s.cgs cg) i = true) :
    InoOk fs (s.modCg cg (inodesInited fs (s.cgs cg).initediblk)) := by
  have hok := h.group cg hcg
  simp only [inodeBlockDue, decide_eq_true_eq] at hdue
  have hcs : ∀ c, (inodesInited fs (s.cgs cg).initediblk c).cs = c.cs := by
    intro c
    unfold inodesInited
    split <;> rfl
  refine h.moves hcg (InoMoves.modCg _ hcs) ?_ fun h0 => ?_
  · rw [State.modCg_cgs, Function.update_self, inodesInited_old]
    refine ⟨hok.nifree, hok.irotor, fun h2 => ?_⟩
    obtain ⟨hn, hle, hdvd, hused⟩ := hok.inited h2
    refine ⟨hn, ?_, hdvd.add (Nat.dvd_refl _), fun j hj hset => ?_⟩
    · obtain ⟨a, ha⟩ := hdvd
      obtain ⟨b, hb⟩ := hgeo.inopb_dvd
      have hlt : fs.inopb * a < fs.inopb * b := by omega
      have hab : a + 1 ≤ b := Nat.lt_of_mul_lt_mul_left hlt
      have hmul := Nat.mul_le_mul_left fs.inopb hab
      rw [Nat.mul_add, Nat.mul_one] at hmul
      show (s.cgs cg).initediblk + fs.inopb ≤ (s.cgs cg).niblk
      omega
    · have := hused j hj hset
      show j < (s.cgs cg).initediblk + fs.inopb
      omega
  · rw [State.modCg_cgs, Function.update_self, inodesInited_old, h0]
    exact h.zero

theorem NodeOk.of_map {s₁ s s' : State} {cg ino : Nat} (h : NodeOk fs cg s₁ ino s')
    (hmap : (s₁.cgs cg).inosused = (s.cgs cg).inosused) : NodeOk fs cg s ino s' :=
  ⟨h.ok, hmap ▸ h.none_free, h.in_group, hmap ▸ h.was_free, h.is_used, h.inited⟩

/-! ### Reading the group again

After an inode block has been written, the group is read again, and the attempt
starts over. What is tried then depends on the map alone. -/

/-- The inode of attempt `j`, when all attempts before had to initialize a
block. The inode tried last is the preference of the next attempt. -/
def tried (fs : Fs) (c : Cg) (ipref : Nat) : Nat → Except Panic Nat
  | 0 => inodePick fs c ipref
  | j + 1 => (tried fs c ipref j).bind (inodePick fs c)

/-- Attempt `m` has to initialize a block. In every attempt before it, one block
has been initialized, by this thread or, when `busy`, by another one that is
still at it. -/
def DueAt (fs : Fs) (c : Cg) (ipref : Nat) (busy : List Bool) (m : Nat) : Prop :=
  ∃ i, tried fs c ipref m = .ok i ∧ inodeBlockDue fs
    { c with initediblk := c.initediblk + fs.inopb * (m - (busy.take m).count true) } i = true

/-- This thread writes an inode block, and the group cannot be read again after
it. `gerr` counts from the second call of `ffs_getcg` on. -/
def RereadFails (fs : Fs) (c : Cg) (ipref : Nat) (gerr : Nat → Nat) (busy : List Bool) : Prop :=
  ∃ j, (∀ m < j, gerr m = 0) ∧ (∀ m ≤ j, DueAt fs c ipref busy m) ∧ busy[j]? ≠ some true
    ∧ gerr j ≠ 0

theorem tried_succ {c : Cg} {ipref i : Nat} (hpick : inodePick fs c ipref = .ok i) (m : Nat) :
    tried fs c ipref (m + 1) = tried fs c i m := by
  induction m with
  | zero => simp only [tried, hpick, Except.bind]
  | succ m ih => rw [tried, ih]; rfl

theorem tried_initediblk (c : Cg) (x ipref m : Nat) :
    tried fs { c with initediblk := x } ipref m = tried fs c ipref m := by
  induction m with
  | zero => rfl
  | succ m ih => rw [tried, ih]; rfl

theorem dueAt_zero {c : Cg} {ipref i : Nat} {busy : List Bool}
    (hpick : inodePick fs c ipref = .ok i) :
    DueAt fs c ipref busy 0 ↔ inodeBlockDue fs c i = true := by
  unfold DueAt
  simp only [tried, hpick, Except.ok.injEq, List.take_zero, List.count_nil, Nat.sub_zero,
    Nat.mul_zero, Nat.add_zero]
  exact ⟨fun ⟨i', hi, hdue⟩ => hi ▸ hdue, fun hdue => ⟨i, rfl, hdue⟩⟩

theorem dueAt_succ_busy {c : Cg} {ipref i m : Nat} {busy : List Bool}
    (hpick : inodePick fs c ipref = .ok i) (hbusy : busy.head? = some true) :
    DueAt fs c ipref busy (m + 1) ↔ DueAt fs c i busy.tail m := by
  cases busy with
  | nil => cases hbusy
  | cons b busy =>
      obtain rfl : b = true := by simpa using hbusy
      unfold DueAt
      rw [tried_succ hpick, List.take_succ_cons, List.count_cons_self, Nat.add_sub_add_right,
        List.tail_cons]

theorem dueAt_succ_write {c : Cg} {ipref i m : Nat} {busy : List Bool}
    (hpick : inodePick fs c ipref = .ok i) (hbusy : busy.head? ≠ some true) :
    DueAt fs c ipref busy (m + 1)
      ↔ DueAt fs { c with initediblk := c.initediblk + fs.inopb } i busy.tail m := by
  have hcount : m + 1 - (busy.take (m + 1)).count true
      = (m - (busy.tail.take m).count true) + 1 := by
    have hle : (busy.tail.take m).count true ≤ m :=
      List.count_le_length.trans (List.length_take_le _ _)
    cases busy with
    | nil => simp
    | cons b busy =>
        obtain rfl : b = false := by simpa using hbusy
        rw [List.take_succ_cons, List.count_cons_of_ne (by decide)]
        rw [List.tail_cons] at hle ⊢
        omega
  have hadd : c.initediblk + fs.inopb * ((m - (busy.tail.take m).count true) + 1)
      = c.initediblk + fs.inopb + fs.inopb * (m - (busy.tail.take m).count true) := by ring
  unfold DueAt
  rw [tried_succ hpick, hcount, hadd]
  simp only [tried_initediblk]

theorem getElem?_zero_head (busy : List Bool) : busy[0]? = busy.head? := by
  cases busy <;> rfl

theorem getElem?_succ_tail (busy : List Bool) (j : Nat) : busy[j + 1]? = busy.tail[j]? := by
  cases busy <;> simp

/-- Waiting for another thread. -/
theorem rereadFails_busy {c : Cg} {ipref i : Nat} (gerr : Nat → Nat) {busy : List Bool}
    (hpick : inodePick fs c ipref = .ok i) (hdue : inodeBlockDue fs c i = true)
    (hbusy : busy.head? = some true) :
    RereadFails fs c ipref gerr busy
      ↔ gerr 0 = 0 ∧ RereadFails fs c i (fun m => gerr (m + 1)) busy.tail := by
  constructor
  · rintro ⟨j, hok, hall, hfree, herr⟩
    cases j with
    | zero => exact absurd (getElem?_zero_head busy ▸ hbusy) hfree
    | succ j =>
        refine ⟨hok 0 (by omega), j, fun m hm => hok (m + 1) (by omega), fun m hm => ?_, ?_, herr⟩
        · exact (dueAt_succ_busy hpick hbusy).mp (hall (m + 1) (by omega))
        · rwa [← getElem?_succ_tail]
  · rintro ⟨h0, j, hok, hall, hfree, herr⟩
    refine ⟨j + 1, fun m hm => ?_, fun m hm => ?_, by rwa [getElem?_succ_tail], herr⟩
    · cases m with
      | zero => exact h0
      | succ m => exact hok m (by omega)
    · cases m with
      | zero => exact (dueAt_zero hpick).mpr hdue
      | succ m => exact (dueAt_succ_busy hpick hbusy).mpr (hall m (by omega))

/-- Writing the block. -/
theorem rereadFails_write {c : Cg} {ipref i : Nat} (gerr : Nat → Nat) {busy : List Bool}
    (hpick : inodePick fs c ipref = .ok i) (hdue : inodeBlockDue fs c i = true)
    (hbusy : busy.head? ≠ some true) :
    RereadFails fs c ipref gerr busy ↔ (gerr 0 = 0 →
      RereadFails fs { c with initediblk := c.initediblk + fs.inopb } i (fun m => gerr (m + 1))
        busy.tail) := by
  constructor
  · rintro ⟨j, hok, hall, hfree, herr⟩ h0
    cases j with
    | zero => exact absurd h0 herr
    | succ j =>
        refine ⟨j, fun m hm => hok (m + 1) (by omega), fun m hm => ?_, ?_, herr⟩
        · exact (dueAt_succ_write hpick hbusy).mp (hall (m + 1) (by omega))
        · rwa [← getElem?_succ_tail]
  · intro h
    by_cases h0 : gerr 0 = 0
    · obtain ⟨j, hok, hall, hfree, herr⟩ := h h0
      refine ⟨j + 1, fun m hm => ?_, fun m hm => ?_, by rwa [getElem?_succ_tail], herr⟩
      · cases m with
        | zero => exact h0
        | succ m => exact hok m (by omega)
      · cases m with
        | zero => exact (dueAt_zero hpick).mpr hdue
        | succ m => exact (dueAt_succ_write hpick hbusy).mpr (hall m (by omega))
    · refine ⟨0, fun m hm => absurd hm (Nat.not_lt_zero m), fun m hm => ?_,
        by rwa [getElem?_zero_head], h0⟩
      obtain rfl : m = 0 := by omega
      exact (dueAt_zero hpick).mpr hdue

/-! ### `ffs_nodealloccg` as a whole -/

theorem nodeTake_log (s : State) (cg i mode : Nat) :
    (nodeTake fs s cg i mode).2.log = .bdwrite cg :: .unlock :: .lock :: s.log := by
  cases hdir : isDir mode <;>
    simp [nodeTake, State.emit, State.addNifree, State.addNdir, State.modCg, State.setCg, hdir]

theorem replays_nodeTake (fs : Fs) (s : State) (cg i mode : Nat) :
    Replays s (nodeTake fs s cg i mode).2 (opened cg) ⟨false, [], [cg]⟩ :=
  (replays_write ((Replays.refl s (opened cg)).emit .lock rfl)).congr (nodeTake_log s cg i mode)

/-- Waiting for the thread that initializes the block, and reading the group
again. -/
theorem replays_wait (s : State) (cg i : Nat) :
    Replays s (inodeWait s cg i) (opened cg) locked :=
  ((((Replays.refl s (opened cg)).emit (.brelse cg) (drop_self _ _ _)).emit (.getino cg i)
    rfl).emit (.inoRelse cg i) (drop_self _ _ _)).emit .lock rfl

/-- Writing the block. -/
theorem replays_inoWrite (s : State) (cg i : Nat) :
    Replays s (inodeWrite s cg i) (opened cg) ⟨false, [], []⟩ := by
  refine (((Replays.refl s (opened cg)).emit (.getino cg i) rfl).emit (.brelse cg)
    (k := ⟨false, [.ino cg i], []⟩) ?_).emit (.inoWrite cg i) (drop_self _ _ _)
  simp [Held.event, Held.drop, opened]

theorem replays_reread {s s' : State} {h : Held} {cg : Nat} (hr : Replays s s' h ⟨false, [], []⟩) :
    Replays s (inodeReread s' cg) h (opened cg) :=
  ((hr.emit (.getcg cg) rfl).emit .lock (k := ⟨true, [.cg cg], []⟩) rfl).emit .unlock rfl

/-- Moving `cg_initediblk` leaves the maps and the counts alone. -/
theorem mapsKept_inited (fs : Fs) (s : State) (cg old : Nat) :
    MapsKept s (s.modCg cg (inodesInited fs old)) := by
  have hkept (f : Cg → Cg) {α : Type} (p : Cg → α) (hf : ∀ c, p (f c) = p c) (g : Nat) :
      p ((s.modCg cg f).cgs g) = p (s.cgs g) := by
    by_cases hg : g = cg
    · rw [hg, State.modCg_cgs, Function.update_self, hf]
    · rw [State.modCg_cgs, Function.update_of_ne hg]
  have hinit {α : Type} (p : Cg → α) (hp : ∀ (c : Cg) (x : Nat), p { c with initediblk := x } = p c)
      (c : Cg) : p (inodesInited fs old c) = p c := by
    unfold inodesInited
    split
    · exact hp c _
    · rfl
  exact ⟨rfl, rfl, hkept _ Cg.cs (hinit Cg.cs fun _ _ => rfl),
    hkept _ Cg.blksfree (hinit Cg.blksfree fun _ _ => rfl),
    hkept _ Cg.frsum (hinit Cg.frsum fun _ _ => rfl),
    hkept _ Cg.clustersfree (hinit Cg.clustersfree fun _ _ => rfl),
    hkept _ Cg.clustersum (hinit Cg.clustersum fun _ _ => rfl),
    hkept _ Cg.inosused (hinit Cg.inosused fun _ _ => rfl)⟩

/-- What a property of states must survive to hold wherever a call in group `cg` gets to. -/
structure Survives (fs : Fs) (cg : Nat) (P : State → Prop) : Prop where
  emit : ∀ s e, P s → P (s.emit e)
  inited : ∀ s i, P s → inodeBlockDue fs (s.cgs cg) i = true →
    P (s.modCg cg (inodesInited fs (s.cgs cg).initediblk))

theorem Survives.cgOpen {cg : Nat} {P : State → Prop} (h : Survives fs cg P) {s : State} (hs : P s) :
    P (cgOpen s 0 cg) :=
  h.emit _ _ (h.emit _ _ hs)

/-- All that a call in group `cg` can come to, when the buffers and the lock were `h` before and
`gerr` are the outcomes of `ffs_getcg`. `bad` says that the group could not be read again, and `P`
holds of every state up to the end or the inode that is taken. -/
inductive NodeRun (fs : Fs) (P : State → Prop) (cg mode : Nat) (gerr : Nat → Nat) (bad : Prop) (h : Held)
    (s : State) : Except Panic (Nat × State) → Prop where
  | panic {s₁ : State} {ipref : Nat} {e : Panic} (hP : P s₁) (hfree : (s₁.cgs cg).cs.nifree ≠ 0)
      (hpick : inodePick fs (s₁.cgs cg) ipref = .error e) : NodeRun fs P cg mode gerr bad h s (.error e)
  | none {s' : State} (hbad : ¬ bad) (hP : P s') (hmaps : MapsKept s s') (hlog : Replays s s' h locked)
      (hwhy : (s.csp cg).nifree = 0 ∨ (s.cgs cg).cs.nifree = 0 ∨ ∃ m, gerr m ≠ 0) :
      NodeRun fs P cg mode gerr bad h s (.ok (0, s'))
  | taken {s₁ : State} {ipref i : Nat} (hbad : ¬ bad) (hP : P s₁) (hmaps : MapsKept s s₁)
      (hlog : Replays s s₁ h (opened cg)) (hpick : inodePick fs (s₁.cgs cg) ipref = .ok i)
      (hdue : ¬ inodeBlockDue fs (s₁.cgs cg) i = true) :
      NodeRun fs P cg mode gerr bad h s (.ok (nodeTake fs s₁ cg i mode))
  | errno {s' : State} {m : Nat} (hbad : bad) (hne : gerr m ≠ 0) (hP : P s') (hmaps : MapsKept s s')
      (hlog : Replays s s' h ⟨false, [], []⟩) : NodeRun fs P cg mode gerr bad h s (.ok (gerr m, s'))

/-- The same run, seen from a state before. -/
theorem NodeRun.before {P : State → Prop} {cg mode : Nat} {gerr : Nat → Nat} {bad bad' : Prop} {h h' : Held}
    {s s₁ : State} {r : Except Panic (Nat × State)} (hrun : NodeRun fs P cg mode gerr bad h s₁ r)
    (hlog : Replays s s₁ h' h) (hmaps : MapsKept s s₁) (hbad : bad' ↔ bad) :
    NodeRun fs P cg mode gerr bad' h' s r := by
  cases hrun with
  | panic hP hfree hpick => exact .panic hP hfree hpick
  | none hb hP hm hl hwhy =>
      rw [hmaps.csp, hmaps.cs cg] at hwhy
      exact .none (mt hbad.mp hb) hP (hmaps.trans hm) (hlog.trans hl) hwhy
  | taken hb hP hm hl hpick hdue => exact .taken (mt hbad.mp hb) hP (hmaps.trans hm) (hlog.trans hl) hpick hdue
  | errno hb hne hP hm hl => exact .errno (hbad.mpr hb) hne hP (hmaps.trans hm) (hlog.trans hl)

theorem nodeCheck_none {s : State} {gerr cg : Nat} (hfree : (s.csp cg).nifree ≠ 0)
    (hg : gerr = 0) : nodeCheck s gerr cg = none := by
  rw [nodeCheck, if_neg hfree, if_neg (by simp [hg])]

/-- `check_nifree`, when it ends the call. -/
theorem nodeCheck_run {P : State → Prop} {s : State} {gerr : Nat → Nat} {k cg : Nat} (mode : Nat) {bad : Prop}
    (hP : Survives fs cg P) (hs : P s) (hg : gerr k ≠ 0) (hfree : (s.csp cg).nifree ≠ 0) (hbad : ¬ bad) :
    ∃ r, nodeCheck s (gerr k) cg = some r ∧ NodeRun fs P cg mode gerr bad locked s (.ok r) := by
  have hopen : Ffs.cgOpen s (gerr k) cg = s.emit .unlock := by simp [Ffs.cgOpen, hg]
  refine ⟨(0, (s.emit .unlock).emit .lock), ?_, ?_⟩
  · rw [nodeCheck, if_neg hfree, if_pos hg, hopen]
  · exact .none hbad (hP.emit _ _ (hP.emit _ _ hs)) (MapsKept.of_cgs rfl rfl rfl)
      (((Replays.refl s locked).emit .unlock rfl).emit .lock rfl) (.inr (.inr ⟨k, hg⟩))

/-- From `restart` on, whatever blocks are initialized on the way. -/
theorem nodeRestart_run {P : State → Prop} {cg : Nat} (hP : Survives fs cg P) (mode : Nat) (gerr : Nat → Nat)
    (k : Nat) (busy : List Bool) (s : State) (ipref : Nat) (hs : P s) (hcsp : (s.csp cg).nifree ≠ 0) :
    NodeRun fs P cg mode gerr ((s.cgs cg).cs.nifree ≠ 0
        ∧ RereadFails fs (s.cgs cg) ipref (fun m => gerr (k + m)) busy) (opened cg) s
      (nodeRestart fs cg mode gerr k busy s ipref) := by
  induction hm : busy.length + ((s.cgs cg).niblk - (s.cgs cg).initediblk)
    using Nat.strong_induction_on generalizing k busy s ipref with
  | _ n ih =>
      rw [nodeRestart]
      by_cases h0 : (s.cgs cg).cs.nifree = 0
      · simp only [h0, if_true]
        exact .none (fun hb => hb.1 rfl) (hP.emit _ _ (hP.emit _ _ hs)) (MapsKept.of_cgs rfl rfl rfl)
          (replays_release (Replays.refl s _)) (.inr (.inl h0))
      simp only [if_neg h0]
      cases hpick : inodePick fs (s.cgs cg) ipref with
      | error e => exact .panic hs h0 hpick
      | ok i =>
        dsimp only
        by_cases hdue : inodeBlockDue fs (s.cgs cg) i = true
        · rw [dif_pos hdue]
          by_cases hbusy : busy.head? = some true
          · rw [dif_pos hbusy]
            have hlen : busy.tail.length < busy.length := by
              cases busy with
              | nil => cases hbusy
              | cons => simp
            have hbad := rereadFails_busy (fun m => gerr (k + m)) hpick hdue hbusy
            have hwait := replays_wait s cg (s.cgs cg).initediblk
            have hs₁ : P (inodeWait s cg (s.cgs cg).initediblk) :=
              hP.emit _ _ (hP.emit _ _ (hP.emit _ _ (hP.emit _ _ hs)))
            have hcsp₁ : ((inodeWait s cg (s.cgs cg).initediblk).csp cg).nifree ≠ 0 := hcsp
            by_cases hg : gerr k = 0
            · have hrun := ih _ (by simp only [cgOpen_cgs, cgs_inodeWait]; omega) (k + 1) busy.tail
                (Ffs.cgOpen (inodeWait s cg (s.cgs cg).initediblk) 0 cg) i (hP.cgOpen hs₁) (by simpa using hcsp₁) rfl
              rw [nodeCheck_none hcsp₁ hg, hg]
              refine hrun.before (hwait.trans (replays_cgOpen _ cg))
                (MapsKept.of_cgs (by simp) (by simp [inodeWait]) (by simp [inodeWait])) ?_
              rw [hbad, cgOpen_cgs, cgs_inodeWait]
              simp only [Nat.add_zero, hg, true_and, Nat.add_assoc, Nat.add_comm 1]
            · obtain ⟨r, hcheck, hrun⟩ := nodeCheck_run mode hP hs₁ hg hcsp₁ not_false
              rw [hcheck]
              refine hrun.before hwait (MapsKept.of_cgs rfl rfl rfl) ?_
              rw [hbad]
              simp [hg]
          · rw [dif_neg hbusy]
            have hbad := rereadFails_write (fun m => gerr (k + m)) hpick hdue hbusy
            have hwrite := replays_inoWrite s cg (s.cgs cg).initediblk
            have hs₁ : P (inodeWrite s cg (s.cgs cg).initediblk) :=
              hP.emit _ _ (hP.emit _ _ (hP.emit _ _ hs))
            by_cases hg : gerr k = 0
            · rw [if_neg (not_not.mpr hg)]
              have hlen : busy.tail.length ≤ busy.length := by simp
              have hpos := fs.inopb_pos
              have hroom : (s.cgs cg).initediblk < (s.cgs cg).niblk := by
                simp only [inodeBlockDue, decide_eq_true_eq] at hdue
                exact hdue.2.2
              have hs₂ : P (inodeReread (inodeWrite s cg (s.cgs cg).initediblk) cg) :=
                hP.emit _ _ (hP.emit _ _ (hP.emit _ _ hs₁))
              have hkeep : MapsKept s (inodeReread (inodeWrite s cg (s.cgs cg).initediblk) cg) :=
                MapsKept.of_cgs rfl rfl rfl
              have hrun := ih _
                (by
                  simp only [State.modCg_cgs, cgs_inodeReread, cgs_inodeWrite,
                    Function.update_self, inodesInited_old]
                  omega)
                (k + 1) busy.tail _ i (hP.inited _ i hs₂ hdue) hcsp rfl
              refine hrun.before ((replays_reread hwrite).congr rfl) (hkeep.trans (mapsKept_inited fs _ cg _)) ?_
              simp only [State.modCg_cgs, cgs_inodeReread, cgs_inodeWrite, Function.update_self,
                inodesInited_old]
              rw [hbad]
              simp only [Nat.add_zero, hg, forall_const, Nat.add_assoc, Nat.add_comm 1]
            · rw [if_pos hg]
              exact .errno ⟨h0, hbad.mpr fun hg' => absurd hg' hg⟩ hg (hP.emit _ _ (hP.emit _ _ hs₁))
                (MapsKept.of_cgs rfl rfl rfl) ((hwrite.emit .lock rfl).emit .unlock rfl)
        · rw [dif_neg hdue]
          have hnot : ¬ RereadFails fs (s.cgs cg) ipref (fun m => gerr (k + m)) busy := by
            rintro ⟨j, -, hall, -⟩
            exact hdue ((dueAt_zero hpick).mp (hall 0 (Nat.zero_le j)))
          exact .taken (fun hb => hnot hb.2) hs (MapsKept.of_cgs rfl rfl rfl) (Replays.refl s _) hpick hdue

/-- The group of a call cannot be read again after an inode block has been
written. -/
def NodeReread (fs : Fs) (s : State) (gerr : Nat → Nat) (busy : List Bool) (cg ipref : Nat) :
    Prop :=
  (s.csp cg).nifree ≠ 0 ∧ (s.cgs cg).cs.nifree ≠ 0 ∧ gerr 0 = 0
    ∧ RereadFails fs (s.cgs cg) ipref (fun m => gerr (m + 1)) busy

/-- The whole call, in any state. -/
theorem ffsNodealloccg_run {P : State → Prop} {cg : Nat} (hP : Survives fs cg P) {s : State} (hs : P s)
    (gerr : Nat → Nat) (busy : List Bool) (ipref mode : Nat) :
    NodeRun fs P cg mode gerr (NodeReread fs s gerr busy cg ipref) locked s
      (ffsNodealloccg fs s gerr busy cg ipref mode) := by
  unfold ffsNodealloccg
  by_cases h0 : (s.csp cg).nifree = 0
  · have hcheck : nodeCheck s (gerr 0) cg = some (0, s) := if_pos h0
    rw [hcheck]
    exact .none (fun hb => hb.1 h0) hs (MapsKept.of_cgs rfl rfl rfl) (Replays.refl s _) (.inl h0)
  by_cases hg : gerr 0 = 0
  · rw [nodeCheck_none h0 hg, hg]
    have hrun := nodeRestart_run hP mode gerr 1 busy (Ffs.cgOpen s 0 cg) ipref (hP.cgOpen hs) (by simpa using h0)
    refine hrun.before (replays_cgOpen s cg) (MapsKept.of_cgs (by simp) (by simp) (by simp)) ?_
    rw [cgOpen_cgs]
    simp only [NodeReread, hg, h0, ne_eq, not_false_eq_true, true_and, Nat.add_comm 1]
  · obtain ⟨r, hcheck, hrun⟩ := nodeCheck_run mode hP hs hg h0 not_false
    rw [hcheck]
    refine hrun.before (Replays.refl s _) (MapsKept.of_cgs rfl rfl rfl) ?_
    simp [NodeReread, hg]

/-! ### Consistent states -/

/-- How a call in a consistent state can end. -/
inductive NodeEnd (fs : Fs) (cg : Nat) (gerr : Nat → Nat) (bad : Prop) (s : State) (ino : Nat) (s' : State) :
    Prop where
  | none (hbad : ¬ bad) (h0 : ino = 0) (hok : InoOk fs s') (hmaps : MapsKept s s')
      (hwhy : (∀ i < fs.ipg, (s.cgs cg).inosused.isset i = true) ∨ ∃ m, gerr m ≠ 0)
  | taken (hbad : ¬ bad) (hne : ino ≠ 0) (hok : NodeOk fs cg s ino s')
  | errno (hbad : bad) (hne : ino ≠ 0) (hok : InoOk fs s') (hmaps : MapsKept s s') (hgerr : ∃ m, ino = gerr m)

theorem survives_inoOk (hgeo : InoGeometry fs) {cg : Nat} (hcg : cg < fs.ncg) : Survives fs cg (InoOk fs) where
  emit _ e h := h.emit e
  inited _ _ h hdue := inodesInited_ok hgeo h hcg hdue

/-- A call ends in one of the three ways. -/
theorem ffsNodealloccg_end (hgeo : InoGeometry fs) {cg : Nat} (hcg : cg < fs.ncg) {s : State}
    (h : InoOk fs s) (gerr : Nat → Nat) (busy : List Bool) (ipref mode : Nat) :
    ∃ ino s', ffsNodealloccg fs s gerr busy cg ipref mode = .ok (ino, s')
      ∧ NodeEnd fs cg gerr (NodeReread fs s gerr busy cg ipref) s ino s' := by
  have hrun := ffsNodealloccg_run (survives_inoOk hgeo hcg) h gerr busy ipref mode
  generalize ffsNodealloccg fs s gerr busy cg ipref mode = r at hrun
  cases hrun with
  | panic hP hfree hpick => exact absurd hpick (inodePick_ne_error hgeo.eight_dvd_ipg (hP.group cg hcg) hfree)
  | none hbad hP hmaps _ hwhy =>
      refine ⟨0, _, rfl, .none hbad rfl hP hmaps ?_⟩
      rw [h.csp_nifree cg hcg, ← or_assoc, or_self] at hwhy
      exact hwhy.imp_left (all_used (h.group cg hcg))
  | taken hbad hP hmaps _ hpick hdue =>
      obtain ⟨hi, hclr⟩ := inodePick_free hgeo.eight_dvd_ipg (hP.group cg hcg).irotor hpick
      have hlt := hgeo.cg_mul_lt hcg
      obtain ⟨hino, hne⟩ := nodeTake_ino mode (show cg * fs.ipg < 2 ^ 32 by omega) hP.zero hclr
      exact ⟨_, _, rfl, .taken hbad (fun hz => hne (hino.symm.trans hz))
        ((nodeTake_ok hgeo mode hP hcg hi hclr hdue).of_map (hmaps.inosused cg))⟩
  | errno hbad hne hP hmaps => exact ⟨_, _, rfl, .errno hbad hne hP hmaps ⟨_, rfl⟩⟩

/-- Without I/O errors a call does what it promises. -/
theorem ffsNodealloccg_spec (hgeo : InoGeometry fs) {cg : Nat} (hcg : cg < fs.ncg) {s : State}
    (h : InoOk fs s) (busy : List Bool) (ipref mode : Nat) :
    ∃ ino s', ffsNodealloccg fs s (fun _ => 0) busy cg ipref mode = .ok (ino, s')
      ∧ NodeOk fs cg s ino s' := by
  obtain ⟨ino, s', hrun, hend⟩ := ffsNodealloccg_end hgeo hcg h (fun _ => 0) busy ipref mode
  refine ⟨ino, s', hrun, ?_⟩
  cases hend with
  | none _ h0 hok _ hwhy =>
      subst h0
      refine ⟨hok, fun _ => hwhy.resolve_right fun ⟨_, hm⟩ => hm rfl, fun hne => absurd rfl hne,
        fun hne => absurd rfl hne, fun hne => absurd rfl hne, fun hne => absurd rfl hne⟩
  | taken _ _ hok => exact hok
  | errno hbad =>
      obtain ⟨-, -, -, j, -, -, -, herr⟩ := hbad
      exact absurd rfl herr

/-! ### `ffs_freefile` -/

/-- Inode `ino` is in use. -/
def InoUsed (fs : Fs) (s : State) (ino : Nat) : Prop :=
  ino < fs.ipg * fs.ncg ∧ (s.cgs (ino / fs.ipg)).inosused.isset (ino % fs.ipg) = true

/-- Freeing an inode in use does not panic and keeps the invariant. -/
theorem ffsFreefile_spec (hgeo : InoGeometry fs) {s : State} (h : InoOk fs s) {ino : Nat}
    (hne : ino ≠ 0) (hused : InoUsed fs s ino) (devvp : Vtype) (mode : Nat) :
    ∃ s', ffsFreefile fs s devvp 0 ino mode = .ok (0, s') ∧ InoOk fs s' := by
  obtain ⟨hlt, hset⟩ := hused
  have hcg : ino / fs.ipg < fs.ncg := Nat.div_lt_of_lt_mul hlt
  have hmod : ino % fs.ipg < fs.ipg := Nat.mod_lt _ fs.ipg_pos
  unfold ffsFreefile
  by_cases hdev : devvp ≠ .vreg ∧ devvp ≠ .vchr
  · rw [if_pos hdev]
    exact ⟨s, rfl, h⟩
  · have hrange : ¬ toU32 ((fs.ipg : Int) * fs.ncg) ≤ ino := by
      have := hgeo.ino_lt
      rw [← Nat.cast_mul, toU32_eq_self (by omega) (by omega)]
      omega
    rw [if_neg hdev, if_neg hrange, if_neg (by simp)]
    have hisset : ¬ (s.cgs (ino / fs.ipg)).inosused.isclr (ino % fs.ipg) = true := by
      rw [Bitmap.isclr, hset]
      decide
    dsimp only
    rw [State.emit_cgs, if_neg hisset]
    refine ⟨_, rfl, InoOk.emit (InoOk.emit ?_ _) _⟩
    have hgiven := freefileGive_cg (s.emit (.getcg (ino / fs.ipg))) (ino / fs.ipg)
      (ino % fs.ipg) mode
    refine (h.emit (.getcg (ino / fs.ipg))).moves hcg (freefileGive_moves _ _ _ _)
      (clrbit_ok (h.group _ hcg) hmod hset hgiven) fun h0 => ?_
    have hmod0 : (0 : Nat) ≠ ino % fs.ipg := by
      have hsmall := (Nat.div_eq_zero_iff_lt fs.ipg_pos).mp h0
      rw [Nat.mod_eq_of_lt hsmall]
      exact Ne.symm hne
    rw [hgiven.1, Bitmap.isset_clrbit, decide_eq_false hmod0, State.emit_cgs, h0, h.zero]
    rfl

/-! ### Runs -/

/-- One call of `ffs_nodealloccg`, or of `ffs_freefile` with an inode in use.
Inode 0 is nobody's. -/
inductive InoStep (fs : Fs) (s s' : State) : Prop where
  | alloc (busy : List Bool) (cg ipref mode ino : Nat) (hcg : cg < fs.ncg)
      (h : ffsNodealloccg fs s (fun _ => 0) busy cg ipref mode = .ok (ino, s'))
  | free (devvp : Vtype) (ino mode e : Nat) (hne : ino ≠ 0) (hused : InoUsed fs s ino)
      (h : ffsFreefile fs s devvp 0 ino mode = .ok (e, s'))

theorem InoStep.ok (hgeo : InoGeometry fs) {s s' : State} (h : InoOk fs s)
    (hstep : InoStep fs s s') : InoOk fs s' := by
  cases hstep with
  | alloc busy cg ipref mode ino hcg hcall =>
      obtain ⟨ino', s₁, hcall', hres⟩ := ffsNodealloccg_spec hgeo hcg h busy ipref mode
      rw [hcall] at hcall'
      cases hcall'
      exact hres.ok
  | free devvp ino mode e hne hused hcall =>
      obtain ⟨s₁, hcall', hres⟩ := ffsFreefile_spec hgeo h hne hused devvp mode
      rw [hcall] at hcall'
      cases hcall'
      exact hres

/-- The inode maps stay consistent in every run of allocations and frees. In
every state reached, no further call panics: an allocation gives a free,
initialized inode of the group, or 0 when the group has none, and an inode in
use can be freed. -/
theorem inoOk_of_run (hgeo : InoGeometry fs) {s s' : State} (h : InoOk fs s)
    (hrun : ReflTransGen (InoStep fs) s s') :
    InoOk fs s'
      ∧ (∀ busy cg ipref mode, cg < fs.ncg → ∃ ino s'',
          ffsNodealloccg fs s' (fun _ => 0) busy cg ipref mode = .ok (ino, s'')
            ∧ NodeOk fs cg s' ino s'')
      ∧ ∀ devvp ino mode, ino ≠ 0 → InoUsed fs s' ino → ∃ s'',
          ffsFreefile fs s' devvp 0 ino mode = .ok (0, s'') := by
  have h' : InoOk fs s' := invariant_of_run (InoOk fs) (InoStep.ok hgeo) h hrun
  refine ⟨h', fun busy cg ipref mode hcg => ffsNodealloccg_spec hgeo hcg h' busy ipref mode,
    fun devvp ino mode hne hused => ?_⟩
  obtain ⟨s'', hcall, -⟩ := ffsFreefile_spec hgeo h' hne hused devvp mode
  exact ⟨s'', hcall⟩

end Invariant

/-! ### An example -/

/-- A UFS2 file system with one group of 128 inodes, in two blocks. -/
def inoFs : Fs := { tinyFs with ipg := 128, ipg_pos := by decide }

/-- The first inode block is initialized, and all of its inodes are used. Of the
data blocks, only the first is. -/
def inoCg : Cg :=
  let c := Cg.ofMap inoFs 0 16 (Bitmap.ofFun fun i => decide (2 ≤ i ∧ i < 16))
  { c with
    cs := { c.cs with ndir := 1, nifree := 64 }
    inosused := Bitmap.ofFun fun i => decide (i < 64)
    initediblk := 64 }

def inoState : State where
  cstotal := inoCg.cs
  csp := fun _ => inoCg.cs
  maxcluster := fun _ => 4
  fmod := false
  cgs := fun _ => inoCg
  log := []

theorem inoGeometry_inoFs : InoGeometry inoFs := ⟨by decide, by decide, by decide⟩

theorem inoOk_inoState : InoOk inoFs inoState where
  group _ _ := by
    refine ⟨?_, ?_, fun _ => ⟨rfl, ?_, ?_, fun i _ hset => ?_⟩⟩
    · show (64 : Int) = freeInodes inoFs (Bitmap.ofFun fun i => decide (i < 64))
      decide +kernel
    · show 0 < 128
      decide
    · show 64 ≤ 128
      decide
    · show 64 ∣ 64
      decide
    · simpa [inoState, inoCg] using hset
  csp_nifree _ _ := rfl
  csp_ndir _ _ := rfl
  nifree := rfl
  ndir := rfl
  zero := rfl

/-- After one allocation, from the block that is not initialized yet. -/
theorem inoOk_of_run_one :
    ∃ ino s', InoStep inoFs inoState s' ∧ NodeOk inoFs 0 inoState ino s' ∧ InoOk inoFs s' := by
  obtain ⟨ino, s', hcall, hres⟩ := ffsNodealloccg_spec inoGeometry_inoFs
    (show 0 < inoFs.ncg from by decide) inoOk_inoState [true] 5 0o040755
  have hstep : InoStep inoFs inoState s' := .alloc [true] 0 5 0o040755 ino (by decide) hcall
  exact ⟨ino, s', hstep, hres,
    (inoOk_of_run inoGeometry_inoFs inoOk_inoState (ReflTransGen.single hstep)).1⟩

/-! ### More than 2³² inodes -/

theorem sixteen_pos : 0 < 16 := by decide

/-- The groups and inodes of a file system that newfs writes. -/
def manyFs : Fs :=
  { tinyFs with
    ncg := 21474834, ipg := 208, inopb := 16, ncg_pos := by decide, ncg_lt := by decide
    ipg_pos := by decide, inopb_pos := sixteen_pos }

/-- The group from whose inodes on the numbers need more than 32 bits. -/
def manyCg : Nat := 20648882

/-- Only this group has free inodes. -/
def manyGroup (cg : Nat) : Cg :=
  let c := Cg.ofMap manyFs cg 0 (Bitmap.ofFun fun _ => false)
  { c with
    cs := { c.cs with ndir := 0, nifree := if cg = manyCg then 208 else 0 }
    inosused := Bitmap.ofFun fun _ => decide (cg ≠ manyCg)
    niblk := 208
    initediblk := 208 }

def manyState : State where
  cstotal := (manyGroup manyCg).cs
  csp := fun cg => (manyGroup cg).cs
  maxcluster := fun _ => 0
  fmod := false
  cgs := manyGroup
  log := []

theorem inoOk_manyState : InoOk manyFs manyState where
  group cg _ := by
    have hrotor : 0 < 208 := by decide
    have hinopb : 16 ∣ 208 := by decide
    refine ⟨?_, hrotor, fun _ => ⟨rfl, Nat.le_refl _, hinopb, fun i hi _ => hi⟩⟩
    show (if cg = manyCg then (208 : Int) else 0)
      = freeInodes manyFs (Bitmap.ofFun fun _ => decide (cg ≠ manyCg))
    unfold freeInodes
    by_cases h : cg = manyCg
    · simp [h, Bitmap.isclr, manyFs]
    · simp [h, Bitmap.isclr]
  csp_nifree _ _ := rfl
  csp_ndir _ _ := rfl
  nifree := by
    show (208 : Int) = ∑ cg ∈ range 21474834, if cg = manyCg then 208 else 0
    rw [Finset.sum_ite_eq', if_pos (Finset.mem_range.mpr (by decide))]
  ndir := by
    show (0 : Int) = ∑ cg ∈ range 21474834, 0
    rw [Finset.sum_const_zero]
  zero := by decide

/-- Past 2³² the number that is returned is that of an inode in use in an earlier group. -/
theorem not_inoOk_of_run :
    ¬ ∀ (fs : Fs) (s s' : State) (busy : List Bool) (cg ipref mode ino : Nat), fs.inopb ∣ fs.ipg →
      8 ∣ fs.inopb → InoOk fs s → cg < fs.ncg →
      ffsNodealloccg fs s (fun _ => 0) busy cg ipref mode = .ok (ino, s') → NodeOk fs cg s ino s' := by
  intro hall
  have hcall : ∃ s', ffsNodealloccg manyFs manyState (fun _ => 0) [] manyCg 5 0o100644 = .ok (165, s') := by
    unfold ffsNodealloccg nodeRestart
    exact ⟨_, rfl⟩
  obtain ⟨s', hcall⟩ := hcall
  have hok := hall manyFs manyState s' [] manyCg 5 0o100644 165 (by decide) (by decide) inoOk_manyState
    (by decide) hcall
  exact absurd (hok.in_group (by decide)).1 (by decide)

end UfsX.Proofs
