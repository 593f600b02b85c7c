import UfsX.Ffs.Balloc
import UfsX.Proofs.Bmap

/-!
# `UfsX.Proofs.Balloc`: what `ffs_balloc` does to a file's block map
-/

set_option autoImplicit false

namespace UfsX.Proofs

open UfsX.Lib UfsX.Ufs UfsX.Ffs

/-! ### Indirect blocks have different logical numbers -/

/-- An indirect block of height `h` starts at data block `first`. -/
def IsIndir (N h first : Nat) : Prop :=
  ∃ l < niaddr, 1 ≤ h ∧ Radix.Below N (l + 1) (levelBase N l) h first

/-- The logical number, counted from the start of the level, has the height in
its lowest digit and stays inside the level. -/
theorem IsIndir.split {N h first : Nat} (hN : 4 ≤ N) (hi : IsIndir N h first) :
    ∃ l d, l < niaddr ∧ metaLbn h first = -((levelBase N l + d : Nat) : Int) ∧
      d < N ^ (l + 1) ∧ d % N = h - 1 ∧ first = levelBase N l + d - (h - 1) ∧ h - 1 ≤ d ∧ 1 ≤ h := by
  obtain ⟨l, hl, h1, hle, m, rfl, hm⟩ := hi
  have hh : h - 1 < N := by unfold niaddr at hl; omega
  have hpow : N ^ h = N * N ^ (h - 1) := by
    rw [← Nat.pow_succ', Nat.succ_eq_add_one, Nat.sub_add_cancel h1]
  have hlt : h - 1 < N ^ h := by
    have : 1 ≤ N ^ (h - 1) := Nat.pow_pos (by omega)
    have : N * 1 ≤ N * N ^ (h - 1) := Nat.mul_le_mul_left N this
    omega
  refine ⟨l, m * N ^ h + (h - 1), hl, ?_, ?_, ?_, by omega, by omega, h1⟩
  · unfold metaLbn
    push_cast
    omega
  · rw [Nat.add_mul, Nat.one_mul] at hm
    omega
  · rw [hpow, Nat.mul_left_comm, Nat.mul_add_mod, Nat.mod_eq_of_lt hh]

theorem metaLbn_inj {N h first h' first' : Nat} (hN : 4 ≤ N) (hi : IsIndir N h first)
    (hi' : IsIndir N h' first') (heq : metaLbn h first = metaLbn h' first') :
    h = h' ∧ first = first' := by
  obtain ⟨l, d, hl, hk, hd, hmod, hf, hge, h1⟩ := hi.split hN
  obtain ⟨l', d', hl', hk', hd', hmod', hf', hge', h1'⟩ := hi'.split hN
  have hsum : levelBase N l + d = levelBase N l' + d' := by
    rw [hk, hk'] at heq
    omega
  have hll : l = l' := by
    rcases Nat.lt_trichotomy l l' with h | h | h
    · have := levelBase_mono N (show l + 1 ≤ l' from h)
      rw [levelBase] at this
      omega
    · exact h
    · have := levelBase_mono N (show l' + 1 ≤ l from h)
      rw [levelBase] at this
      omega
  subst hll
  obtain rfl : d = d' := by omega
  omega

theorem metaLbn_neg {N h first : Nat} (hi : IsIndir N h first) : metaLbn h first < 0 := by
  obtain ⟨l, -, h1, hb⟩ := hi
  have h2 := ndaddr_le_levelBase N l
  have h3 := hb.range.1
  unfold ndaddr at h2
  unfold metaLbn
  omega

/-! ### What one step of the walk can do -/

/-- The file is the same; only buffers have been used. -/
def SameFile (s s' : Growth) : Prop := s' = { s with bufs := s'.bufs }

theorem SameFile.refl (s : Growth) : SameFile s s := rfl

theorem SameFile.trans {s t u : Growth} (h1 : SameFile s t) (h2 : SameFile t u) :
    SameFile s u := by
  rw [SameFile, h2, h1]

theorem sameFile_use (s : Growth) (req : Int) (nums : BufNums) (act : BufAct) :
    SameFile s (s.use req nums act) := rfl

theorem sameFile_bread (s : Growth) (c : BallocCall) (n : Int) :
    SameFile s (s.bread c n).1 := by
  unfold Growth.bread
  split
  · exact .refl s
  · exact sameFile_use _ _ _ _

theorem SameFile.use {s t : Growth} (h : SameFile s t) (req : Int) (nums : BufNums)
    (act : BufAct) : SameFile s (t.use req nums act) :=
  h.trans (sameFile_use _ _ _ _)

theorem SameFile.ind {s t : Growth} (h : SameFile s t) : t.ind = s.ind := by rw [h]

theorem SameFile.allocs {s t : Growth} (h : SameFile s t) : t.allocs = s.allocs := by rw [h]

theorem SameFile.ip {s t : Growth} (h : SameFile s t) : t.ip = s.ip := by rw [h]

theorem SameFile.setInd {s t : Growth} (h : SameFile s t) (lbn : Int) (off : Nat) (b : Int) :
    SameFile (s.setInd lbn off b) (t.setInd lbn off b) := by
  rw [h]
  rfl

theorem SameFile.grant {s t : Growth} (h : SameFile s t) (mp : Ump) (lbn b : Int) :
    SameFile (s.grant mp lbn b mp.fs.bsize) (t.grant mp lbn b mp.fs.bsize) := by
  rw [h]
  rfl

theorem SameFile.clear {s t : Growth} (h : SameFile s t) (lbn : Int) :
    SameFile (s.clear lbn) (t.clear lbn) := by
  rw [h]
  rfl

theorem sameFile_newIndir (mp : Ump) (c : BallocCall) (s : Growth) (lbn nb : Int) :
    SameFile (s.clear lbn) (ballocNewIndir mp c s lbn nb).2 := by
  unfold ballocNewIndir
  split <;> exact sameFile_use _ _ _ _

/-- The ways the data block is dealt with: nothing changes, or it is allocated
and its pointer stored. -/
theorem ballocData_cases (mp : Ump) (c : BallocCall) (s : Growth) (lbn : Nat) (ap : Indir)
    (bp : BufNums) :
    let r := ballocData mp c s lbn ap bp
    (SameFile s r.1 ∧ (r.2 = none → c.metaonly = true ∨ s.ind ap.lbn ap.off ≠ 0)) ∨
      (c.metaonly = false ∧ s.ind ap.lbn ap.off = 0 ∧ r.2 = none ∧
        ∃ b, c.alloc lbn = .ok b ∧
          SameFile ((s.grant mp lbn b mp.fs.bsize).setInd ap.lbn ap.off (ptrCast mp.fs b)) r.1) := by
  intro r
  simp only [r, ballocData]
  split
  · next hm => exact .inl ⟨sameFile_use _ _ _ _, fun _ => .inl hm⟩
  · next hm =>
      split
      · next h0 =>
          cases ha : c.alloc lbn with
          | error e => exact .inl ⟨sameFile_use _ _ _ _, by simp [ffsAlloc]⟩
          | ok b =>
              refine .inr ⟨by simpa using hm, h0, rfl, b, rfl, ?_⟩
              exact ((SameFile.refl _).use _ _ _).use _ _ _
      · next h0 =>
          refine .inl ⟨?_, fun _ => .inr h0⟩
          split
          · split
            · exact sameFile_use _ _ _ _
            · exact ((sameFile_use _ _ _ _).trans (sameFile_bread _ _ _)).use _ _ _
          · exact (sameFile_use _ _ _ _).use _ _ _

/-- The state after a new indirect block has been linked in. -/
def linked (mp : Ump) (s : Growth) (ap : Indir) (child b : Int) : Growth :=
  ((s.grant mp child b mp.fs.bsize).clear child).setInd ap.lbn ap.off (ptrCast mp.fs b)

/-- The ways a step above the last block ends: an error before or after the new
block was written, or the next block, old or new. -/
theorem ballocWalk_cons_cases (mp : Ump) (c : BallocCall) (lbn : Nat) (allocib : Bool)
    (s : Growth) (unwind : Option Indir) (ap ap' : Indir) (rest : List Indir) :
    let w := ballocWalk mp c lbn allocib s unwind ap (ap' :: rest)
    (∃ s' e, SameFile s s' ∧ w = ⟨s', unwind, some e⟩) ∨
      (s.ind ap.lbn ap.off ≠ 0 ∧
        ∃ s', SameFile s s' ∧ w = ballocWalk mp c lbn allocib s' unwind ap' rest) ∨
      (s.ind ap.lbn ap.off = 0 ∧ ∃ b, c.alloc ap'.lbn = .ok b ∧
        ((∃ s' e, SameFile ((s.grant mp ap'.lbn b mp.fs.bsize).clear ap'.lbn) s' ∧
            w = ⟨s', unwind, some e⟩) ∨
          ∃ s', SameFile (linked mp s ap ap'.lbn b) s' ∧
            w = ballocWalk mp c lbn allocib s'
              (if allocib = false ∧ unwind = none then some ap else unwind) ap' rest)) := by
  intro w
  simp only [w]
  rw [ballocWalk]
  cases hre : c.readErr ap.lbn with
  | some e => exact .inl ⟨s, e, .refl s, rfl⟩
  | none =>
      rcases hb : s.bread c ap.lbn with ⟨s1, bp⟩
      have hs : SameFile s s1 := by
        have := sameFile_bread s c ap.lbn
        rwa [hb] at this
      simp only [hs.ind]
      cases hck : ufsCheckBlkno mp.fs mp.untrusted (s.ind ap.lbn ap.off) with
      | some e => exact .inl ⟨_, e, hs.use _ _ _, rfl⟩
      | none =>
          by_cases h0 : s.ind ap.lbn ap.off = 0
          · simp only [if_neg (not_not.mpr h0)]
            cases ha : c.alloc ap'.lbn with
            | error e => exact .inl ⟨_, e, hs.use _ _ _, rfl⟩
            | ok b =>
                refine .inr (.inr ⟨h0, b, rfl, ?_⟩)
                have hn := sameFile_newIndir mp c (s1.grant mp ap'.lbn b mp.fs.bsize) ap'.lbn
                  (ptrCast mp.fs b)
                replace hn := ((hs.grant mp ap'.lbn b).clear ap'.lbn).trans hn
                simp only [ffsAlloc]
                rcases hnew : ballocNewIndir mp c (s1.grant mp ap'.lbn b mp.fs.bsize) ap'.lbn
                  (ptrCast mp.fs b) with ⟨err, s2⟩
                rw [hnew] at hn
                cases err with
                | some e => exact .inl ⟨_, e, .use hn _ _ _, rfl⟩
                | none => exact .inr ⟨_, .use (hn.setInd _ _ _) _ _ _, rfl⟩
          · simp only [if_pos h0]
            exact .inr (.inl ⟨h0, _, hs.use _ _ _, rfl⟩)

theorem ballocWalk_nil_cases (mp : Ump) (c : BallocCall) (lbn : Nat) (allocib : Bool)
    (s : Growth) (unwind : Option Indir) (ap : Indir) :
    let w := ballocWalk mp c lbn allocib s unwind ap []
    w.unwind = unwind ∧
      ((SameFile s w.st ∧ (w.err = none → c.metaonly = true ∨ s.ind ap.lbn ap.off ≠ 0)) ∨
        (c.metaonly = false ∧ s.ind ap.lbn ap.off = 0 ∧ w.err = none ∧
          ∃ b, c.alloc lbn = .ok b ∧
            SameFile ((s.grant mp lbn b mp.fs.bsize).setInd ap.lbn ap.off (ptrCast mp.fs b))
              w.st)) := by
  intro w
  simp only [w]
  rw [ballocWalk]
  cases hre : c.readErr ap.lbn with
  | some e => exact ⟨rfl, .inl ⟨.refl s, by simp⟩⟩
  | none =>
      rcases hb : s.bread c ap.lbn with ⟨s1, bp⟩
      have hs : SameFile s s1 := by
        have := sameFile_bread s c ap.lbn
        rwa [hb] at this
      simp only [hs.ind]
      cases hck : ufsCheckBlkno mp.fs mp.untrusted (s.ind ap.lbn ap.off) with
      | some e => exact ⟨rfl, .inl ⟨hs.use _ _ _, by simp⟩⟩
      | none =>
          refine ⟨rfl, ?_⟩
          have hd := ballocData_cases mp c s1 lbn ap bp
          simp only [hs.ind] at hd
          rcases hd with ⟨hsame, hok⟩ | ⟨hm, h0, hnone, b, ha, hsame⟩
          · exact .inl ⟨hs.trans hsame, hok⟩
          · exact .inr ⟨hm, h0, hnone, b, ha, ((hs.grant mp lbn b).setInd _ _ _).trans hsame⟩

/-! ### The path and what a walk leaves alone -/

/-- The block of height `h + 1` on the path to leaf `rel`, with its slot. -/
def pathIndir (N base rel h : Nat) : Indir :=
  ⟨metaLbn (h + 1) (Radix.pathFirst N base rel (h + 1)), rel / N ^ h % N⟩

/-- The blocks of height `h` and less on the path. -/
def path (N base rel : Nat) : Nat → List Indir
  | 0 => []
  | h + 1 => pathIndir N base rel h :: path N base rel h

theorem getlbnsPath_eq_path {N base : Nat} (hN : 0 < N) (hbase : 0 < base) {realbn : Int}
    (hreal : 0 ≤ realbn) (rel h : Nat) :
    getlbnsPath N realbn rel h (N ^ h) (metaLbn h (Radix.pathFirst N base rel h)) =
      path N base rel h := by
  induction h with
  | zero => rfl
  | succ h ih =>
      have hneg : metaLbn (h + 1) (Radix.pathFirst N base rel (h + 1)) < 0 := by
        unfold metaLbn Radix.pathFirst
        omega
      rw [getlbnsPath_succ hN rel h _ (by omega), ← Radix.pathFirst_succ, ih]
      rfl

/-- What `ufs_getlbns` returns behind indirect pointer `l`. -/
theorem ufsGetlbns_path {fs : Fs} {l rel : Nat} (hl : l < niaddr) (hrel : rel < fs.nindir ^ (l + 1)) :
    ufsGetlbns fs.nindir ((levelBase fs.nindir l + rel : Nat) : Int) =
      .ok (⟨metaLbn (l + 1) (levelBase fs.nindir l), l⟩ ::
        pathIndir fs.nindir (levelBase fs.nindir l) rel l ::
        path fs.nindir (levelBase fs.nindir l) rel l) := by
  have hN := fs.four_le_nindir
  have hbase := ndaddr_le_levelBase fs.nindir l
  have hpath := getlbnsPath_eq_path (show 0 < fs.nindir by omega)
    (show 0 < levelBase fs.nindir l by unfold ndaddr at hbase; omega)
    (Int.natCast_nonneg (levelBase fs.nindir l + rel)) rel (l + 1)
  rw [Radix.pathFirst_top hrel] at hpath
  rw [ufsGetlbns_level hl hrel, hpath]
  rfl

/-- What `n` charges of a block make of `di_blocks`. -/
def chargeN (mp : Ump) (b : Int) : Nat → Int
  | 0 => b
  | n + 1 => toU32 (chargeN mp b n + btodb mp mp.fs.bsize)

theorem chargeN_add (mp : Ump) (b : Int) (m n : Nat) :
    chargeN mp (chargeN mp b m) n = chargeN mp b (m + n) := by
  induction n with
  | zero => rfl
  | succ n ih =>
      rw [chargeN, ih]
      rfl

/-- A walk allocates blocks, charges them to the file and writes the blocks
with a number in `K`; nothing else changes. -/
structure Walked (mp : Ump) (c : BallocCall) (lbn : Nat) (K : Int → Prop) (s s' : Growth) :
    Prop where
  ip : s'.ip = { s.ip with blocks := s'.ip.blocks }
  moves : s'.moves = s.moves
  frees : s'.frees = s.frees
  allocs : ∃ new, s'.allocs = new ++ s.allocs ∧
    s'.ip.blocks = chargeN mp s.ip.blocks new.length ∧
    ∀ g ∈ new, c.alloc g.lbn = .ok g.addr ∧ (K g.lbn ∨ g.lbn = lbn)
  frame : ∀ n, ¬ K n → s'.ind n = s.ind n

section Walked

variable {mp : Ump} {c : BallocCall} {lbn : Nat} {K : Int → Prop} {s t u : Growth}

theorem SameFile.walked (h : SameFile s t) : Walked mp c lbn K s t := by
  rw [h]
  exact ⟨rfl, rfl, rfl, ⟨[], rfl, rfl, by simp⟩, fun _ _ => rfl⟩

theorem Walked.trans (h1 : Walked mp c lbn K s t) (h2 : Walked mp c lbn K t u) :
    Walked mp c lbn K s u := by
  obtain ⟨new1, ha1, hb1, hg1⟩ := h1.allocs
  obtain ⟨new2, ha2, hb2, hg2⟩ := h2.allocs
  refine ⟨?_, h2.moves.trans h1.moves, h2.frees.trans h1.frees, ⟨new2 ++ new1, ?_, ?_, ?_⟩, ?_⟩
  · rw [h2.ip, h1.ip]
  · rw [ha2, ha1, List.append_assoc]
  · rw [hb2, hb1, chargeN_add, List.length_append, Nat.add_comm]
  · intro g hg
    exact (List.mem_append.mp hg).elim (hg2 g) (hg1 g)
  · intro n hn
    rw [h2.frame n hn, h1.frame n hn]

theorem Walked.mono {K' : Int → Prop} (hK : ∀ n, K n → K' n) (h : Walked mp c lbn K s t) :
    Walked mp c lbn K' s t := by
  obtain ⟨new, ha, hb, hg⟩ := h.allocs
  exact ⟨h.ip, h.moves, h.frees,
    ⟨new, ha, hb, fun g hm => ⟨(hg g hm).1, (hg g hm).2.imp_left (hK _)⟩⟩,
    fun n hn => h.frame n fun hk => hn (hK n hk)⟩

theorem walked_grant (s : Growth) {n b : Int} (ha : c.alloc n = .ok b) (hn : K n ∨ n = lbn) :
    Walked mp c lbn K s (s.grant mp n b mp.fs.bsize) := by
  refine ⟨rfl, rfl, rfl, ⟨[⟨n, b⟩], rfl, rfl, ?_⟩, fun _ _ => rfl⟩
  intro g hg
  obtain rfl := List.mem_singleton.mp hg
  exact ⟨ha, hn⟩

theorem walked_clear (s : Growth) {n : Int} (hn : K n) : Walked mp c lbn K s (s.clear n) := by
  refine ⟨rfl, rfl, rfl, ⟨[], rfl, rfl, by simp⟩, fun m hm => ?_⟩
  have hne : m ≠ n := by
    rintro rfl
    exact hm hn
  exact Function.update_of_ne hne _ _

theorem walked_setInd (s : Growth) {n : Int} (hn : K n) (off : Nat) (b : Int) :
    Walked mp c lbn K s (s.setInd n off b) := by
  refine ⟨rfl, rfl, rfl, ⟨[], rfl, rfl, by simp⟩, fun m hm => ?_⟩
  have hne : m ≠ n := by
    rintro rfl
    exact hm hn
  exact Function.update_of_ne hne _ _

end Walked

/-- The numbers of the blocks of height `h + 1` and less on the path. -/
def OnPath (N base rel h : Nat) (n : Int) : Prop := ∃ j ≤ h, n = (pathIndir N base rel j).lbn

theorem onPath_self (N base rel h : Nat) : OnPath N base rel h (pathIndir N base rel h).lbn :=
  ⟨h, Nat.le_refl h, rfl⟩

theorem OnPath.succ {N base rel h : Nat} {n : Int} (hn : OnPath N base rel h n) :
    OnPath N base rel (h + 1) n := by
  obtain ⟨j, hj, rfl⟩ := hn
  exact ⟨j, Nat.le_succ_of_le hj, rfl⟩

theorem ballocWalk_walked (mp : Ump) (c : BallocCall) (lbn : Nat) (allocib : Bool)
    (base rel h : Nat) (s : Growth) (unwind : Option Indir) :
    Walked mp c lbn (OnPath mp.fs.nindir base rel h) s
      (ballocWalk mp c lbn allocib s unwind (pathIndir mp.fs.nindir base rel h)
        (path mp.fs.nindir base rel h)).st := by
  induction h generalizing s unwind with
  | zero =>
      obtain ⟨-, ⟨hsame, -⟩ | ⟨-, -, -, b, ha, hsame⟩⟩ :=
        ballocWalk_nil_cases mp c lbn allocib s unwind (pathIndir mp.fs.nindir base rel 0)
      · exact hsame.walked
      · exact ((walked_grant s ha (.inr rfl)).trans
          (walked_setInd _ (onPath_self _ _ _ _) _ _)).trans hsame.walked
  | succ h ih =>
      have hchild : OnPath mp.fs.nindir base rel (h + 1) (pathIndir mp.fs.nindir base rel h).lbn :=
        (onPath_self _ _ _ _).succ
      obtain ⟨s', e, hsame, hw⟩ | ⟨-, s', hsame, hw⟩ | ⟨-, b, ha, ⟨s', e, hsame, hw⟩ | ⟨s', hsame, hw⟩⟩ :=
        ballocWalk_cons_cases mp c lbn allocib s unwind (pathIndir mp.fs.nindir base rel (h + 1))
          (pathIndir mp.fs.nindir base rel h) (path mp.fs.nindir base rel h)
      · rw [path, hw]
        exact hsame.walked
      · rw [path, hw]
        exact hsame.walked.trans ((ih s' unwind).mono fun _ => OnPath.succ)
      · rw [path, hw]
        exact ((walked_grant s ha (.inl hchild)).trans (walked_clear _ hchild)).trans hsame.walked
      · rw [path, hw]
        exact (((walked_grant s ha (.inl hchild)).trans (walked_clear _ hchild)).trans
          (walked_setInd _ (onPath_self _ _ _ _) _ _)).trans
          (hsame.walked.trans ((ih s' _).mono fun _ => OnPath.succ))

/-! ### What a walk makes of the tree -/

/-- The pointer of leaf `k` below the block of height `h`, when that block is
there. -/
def blockPtr (N : Nat) (ind : Int → Nat → Int) (h first k : Nat) : Int :=
  Radix.lookup N (fun h first _ => ind (metaLbn h first)) h first 1 k

section BlockPtr

variable {N : Nat} {ind ind' : Int → Nat → Int}

/-- Which address a block has does not matter, as long as it has one. -/
theorem lookup_eq_blockPtr {a : Int} (ha : a ≠ 0) (h first k : Nat) :
    Radix.lookup N (fun h first _ => ind (metaLbn h first)) (h + 1) first a k =
      blockPtr N ind (h + 1) first k := by
  rw [blockPtr, Radix.lookup_succ ha, Radix.lookup_succ (by decide)]

theorem blockPtr_one (first k : Nat) : blockPtr N ind 1 first k = ind (metaLbn 1 first) k :=
  Radix.lookup_one (by decide) _ _

theorem blockPtr_succ (h first k : Nat) :
    blockPtr N ind (h + 2) first k =
      if ind (metaLbn (h + 2) first) (k / N ^ (h + 1)) = 0 then 0
      else blockPtr N ind (h + 1) (first + k / N ^ (h + 1) * N ^ (h + 1)) (k % N ^ (h + 1)) := by
  rw [blockPtr, Radix.lookup_succ (by decide)]
  split
  · next h0 => rw [h0, Radix.lookup_null]
  · next h0 => exact lookup_eq_blockPtr h0 _ _ _

theorem blockPtr_cleared {h first : Nat} (hz : ∀ i, ind (metaLbn (h + 1) first) i = 0) (k : Nat) :
    blockPtr N ind (h + 1) first k = 0 :=
  Radix.lookup_cleared hz k

end BlockPtr

section Path

variable {N l rel : Nat} (hN : 4 ≤ N) (hl : l < niaddr) (hrel : rel < N ^ (l + 1))
include hN hl hrel

/-- The blocks of a path are indirect blocks. -/
theorem isIndir_path {j : Nat}
    (hj : j ≤ l) : IsIndir N (j + 1) (Radix.pathFirst N (levelBase N l) rel (j + 1)) := by
  have hb := Radix.below_pathFirst (show 0 < N by omega) (levelBase N l) rel
    (show j + 1 ≤ l + 1 by omega)
  rw [Radix.pathFirst_top hrel] at hb
  exact ⟨l, hl, by omega, hb⟩

theorem pathIndir_inj {i j : Nat}
    (hi : i ≤ l) (hj : j ≤ l)
    (heq : (pathIndir N (levelBase N l) rel i).lbn = (pathIndir N (levelBase N l) rel j).lbn) :
    i = j := by
  have := (metaLbn_inj hN (isIndir_path hN hl hrel hi) (isIndir_path hN hl hrel hj) heq).1
  omega

/-- The blocks below another slot are not on the path. -/
theorem not_onPath_sibling {h i : Nat}
    (hh : h ≤ l) (hiN : i < N) (hi : i ≠ rel / N ^ h % N) {h' first' : Nat} (h1 : 1 ≤ h')
    (hb : Radix.Below N h
      (Radix.pathFirst N (levelBase N l) rel (h + 1) + i * N ^ h) h' first') :
    ¬ OnPath N (levelBase N l) rel h (metaLbn h' first') := by
  rintro ⟨j, hj, heq⟩
  have hpos : ∀ n, 0 < N ^ n := fun n => Nat.pow_pos (by omega)
  have htop := Radix.below_pathFirst (show 0 < N by omega) (levelBase N l) rel
    (show h + 1 ≤ l + 1 by omega)
  rw [Radix.pathFirst_top hrel] at htop
  obtain ⟨rfl, rfl⟩ := metaLbn_inj hN ⟨l, hl, h1, htop.trans (hb.of_child hiN)⟩
    (isIndir_path hN hl hrel (Nat.le_trans hj hh)) heq
  -- the two blocks have their leaves below different slots
  have hr1 := hb.range
  have hr2 := (Radix.below_pathFirst (show 0 < N by omega) (levelBase N l) rel hb.1).range
  rw [Radix.pathFirst_succ _ _ h] at hr2
  have := hpos (j + 1)
  rcases Nat.lt_or_gt_of_ne hi with hlt | hgt
  · have := Nat.mul_le_mul_right (N ^ h) (Nat.succ_le_of_lt hlt)
    rw [Nat.succ_mul] at this
    omega
  · have := Nat.mul_le_mul_right (N ^ h) (Nat.succ_le_of_lt hgt)
    rw [Nat.succ_mul] at this
    omega

theorem not_onPath_above {h : Nat}
    (hh : h + 1 ≤ l) :
    ¬ OnPath N (levelBase N l) rel h (pathIndir N (levelBase N l) rel (h + 1)).lbn := by
  rintro ⟨j, hj, heq⟩
  have := pathIndir_inj hN hl hrel hh (by omega) heq
  omega

/-- From the leaves below one slot to the leaves below the block: only the
pointer of leaf `rel` changes. -/
theorem blockPtr_step_up {h : Nat}
    (hh : h + 1 ≤ l) {ind ind' : Int → Nat → Int} {v : Int}
    (hframe : ∀ n, ¬ OnPath N (levelBase N l) rel (h + 1) n → ind' n = ind n)
    (hslot : ∀ i, i ≠ (pathIndir N (levelBase N l) rel (h + 1)).off →
      ind' (pathIndir N (levelBase N l) rel (h + 1)).lbn i =
        ind (pathIndir N (levelBase N l) rel (h + 1)).lbn i)
    (hne : ind' (pathIndir N (levelBase N l) rel (h + 1)).lbn
      (pathIndir N (levelBase N l) rel (h + 1)).off ≠ 0)
    (hchild : ∀ k < N ^ (h + 1),
      blockPtr N ind' (h + 1) (Radix.pathFirst N (levelBase N l) rel (h + 1)) k =
        if k = rel % N ^ (h + 1) then v
        else if ind (pathIndir N (levelBase N l) rel (h + 1)).lbn
            (pathIndir N (levelBase N l) rel (h + 1)).off = 0 then 0
        else blockPtr N ind (h + 1) (Radix.pathFirst N (levelBase N l) rel (h + 1)) k)
    {k : Nat} (hk : k < N ^ (h + 2)) :
    blockPtr N ind' (h + 2) (Radix.pathFirst N (levelBase N l) rel (h + 2)) k =
      if k = rel % N ^ (h + 2) then v
      else blockPtr N ind (h + 2) (Radix.pathFirst N (levelBase N l) rel (h + 2)) k := by
  have hpos : 0 < N ^ (h + 1) := Nat.pow_pos (by omega)
  have hq := Radix.mod_pow_div (N := N) rel (h + 1)
  have hr := Radix.mod_pow_mod (N := N) rel (h + 1)
  by_cases hkq : k / N ^ (h + 1) = rel / N ^ (h + 1) % N
  · -- the leaf is below the slot of the path
    have hiff : k = rel % N ^ (h + 2) ↔ k % N ^ (h + 1) = rel % N ^ (h + 1) := by
      constructor
      · rintro rfl
        exact hr
      · intro hmod
        rw [← Nat.div_add_mod k (N ^ (h + 1)), ← Nat.div_add_mod (rel % N ^ (h + 2)) (N ^ (h + 1)),
          hq, hr, hkq, hmod]
    have hfirst : Radix.pathFirst N (levelBase N l) rel (h + 2) +
        k / N ^ (h + 1) * N ^ (h + 1) = Radix.pathFirst N (levelBase N l) rel (h + 1) := by
      rw [hkq, ← Radix.pathFirst_succ]
    replace hne : ind' (metaLbn (h + 2) (Radix.pathFirst N (levelBase N l) rel (h + 2)))
        (k / N ^ (h + 1)) ≠ 0 := by
      rw [hkq]
      exact hne
    rw [blockPtr_succ, blockPtr_succ, if_neg hne, hfirst, hchild _ (Nat.mod_lt _ hpos), hkq]
    simp only [hiff]
    rfl
  · rw [if_neg fun hc => hkq (by rw [hc, hq])]
    refine Radix.lookup_other hk hkq hslot ?_
    intro i h' first' hiN hi h1 hb
    funext a
    exact hframe _ (not_onPath_sibling hN hl hrel hh hiN hi h1 hb)

end Path

/-- What the allocator promises: addresses of blocks of the file system. -/
structure AllocOk (mp : Ump) (c : BallocCall) : Prop where
  alloc : ∀ n b, c.alloc n = .ok b → 0 < b ∧ b < mp.fs.size

theorem ptrCast_eq_self {fs : Fs} {b : Int} (h0 : 0 < b) (h1 : b < fs.size) :
    ptrCast fs b = b := by
  unfold ptrCast
  cases hm : fs.magic with
  | ufs1 =>
      have := fs.size_lt hm
      exact toI32_eq_self (by omega) (by omega)
  | ufs2 => rfl

/-- The path to leaf `rel` below the inode's indirect pointer `l`. -/
abbrev hop (mp : Ump) (l rel : Nat) : Nat → Indir := pathIndir mp.fs.nindir (levelBase mp.fs.nindir l) rel

abbrev hops (mp : Ump) (l rel : Nat) : Nat → List Indir := path mp.fs.nindir (levelBase mp.fs.nindir l) rel

abbrev OnHops (mp : Ump) (l rel : Nat) : Nat → Int → Prop := OnPath mp.fs.nindir (levelBase mp.fs.nindir l) rel

/-- The walk from the block of height `h + 1` on that path. -/
def walkFrom (mp : Ump) (c : BallocCall) (lbn : Nat) (allocib : Bool) (l rel h : Nat)
    (s : Growth) (unwind : Option Indir) : WalkEnd :=
  ballocWalk mp c lbn allocib s unwind (hop mp l rel h) (hops mp l rel h)

section WalkFrom

variable {mp : Ump} {c : BallocCall} {l rel : Nat}

/-- The pointer of leaf `k` below the block of height `h` on the path. -/
def pathPtr (mp : Ump) (l rel : Nat) (s : Growth) (h k : Nat) : Int :=
  blockPtr mp.fs.nindir s.ind h
    (Radix.pathFirst mp.fs.nindir (levelBase mp.fs.nindir l) rel h) k

/-- After a walk without error the tree has one more leaf, the requested one,
or is the same when that leaf was there or only its block was asked for. -/
structure Grew (mp : Ump) (c : BallocCall) (lbn l rel h : Nat) (s s' : Growth) (v : Int) :
    Prop where
  ptrs : ∀ k < mp.fs.nindir ^ (h + 1), pathPtr mp l rel s' (h + 1) k =
    if k = rel % mp.fs.nindir ^ (h + 1) then v else pathPtr mp l rel s (h + 1) k
  leaf : (v = pathPtr mp l rel s (h + 1) (rel % mp.fs.nindir ^ (h + 1)) ∧
      (c.metaonly = true ∨ v ≠ 0) ∧ ∀ g ∈ s'.allocs, g.lbn = lbn → g ∈ s.allocs) ∨
    (c.metaonly = false ∧ pathPtr mp l rel s (h + 1) (rel % mp.fs.nindir ^ (h + 1)) = 0 ∧
      c.alloc lbn = .ok v ∧ ∃ rest, s'.allocs = ⟨lbn, v⟩ :: rest)

theorem walkFrom_ok_leaf (hac : AllocOk mp c) (lbn : Nat) (allocib : Bool) (s : Growth)
    (unwind : Option Indir) (hw : (walkFrom mp c lbn allocib l rel 0 s unwind).err = none) :
    ∃ v, Grew mp c lbn l rel 0 s (walkFrom mp c lbn allocib l rel 0 s unwind).st v := by
  have hold : pathPtr mp l rel s 1 (rel % mp.fs.nindir ^ 1) =
      s.ind (hop mp l rel 0).lbn (hop mp l rel 0).off := by
    rw [pathPtr, blockPtr_one, hop, pathIndir, Nat.pow_one, Nat.pow_zero, Nat.div_one]
  obtain ⟨-, ⟨hsame, hok⟩ | ⟨hm, h0, -, b, ha, hsame⟩⟩ :=
    ballocWalk_nil_cases mp c lbn allocib s unwind (hop mp l rel 0)
  · refine ⟨_, ⟨fun k _ => ?_, .inl ⟨rfl, ?_, fun g hg _ => ?_⟩⟩⟩
    · have hind : pathPtr mp l rel (walkFrom mp c lbn allocib l rel 0 s unwind).st 1 k =
          pathPtr mp l rel s 1 k := by
        unfold pathPtr
        rw [show (walkFrom mp c lbn allocib l rel 0 s unwind).st.ind = s.ind from hsame.ind]
      rw [hind]
      split
      · next hk => rw [hk]
      · rfl
    · rw [hold]
      exact hok hw
    · rwa [show (walkFrom mp c lbn allocib l rel 0 s unwind).st.allocs = s.allocs
        from hsame.allocs] at hg
  · obtain ⟨hb0, hb1⟩ := hac.alloc _ _ ha
    rw [ptrCast_eq_self hb0 hb1] at hsame
    refine ⟨b, ⟨fun k _ => ?_, .inr ⟨hm, hold.trans h0, ha, ⟨s.allocs, hsame.allocs⟩⟩⟩⟩
    rw [pathPtr, pathPtr, blockPtr_one, blockPtr_one,
      show (walkFrom mp c lbn allocib l rel 0 s unwind).st.ind = _ from hsame.ind]
    simp only [pathIndir, Nat.zero_add, Growth.setInd_self, Growth.grant_ind, Nat.pow_one,
      Nat.pow_zero, Nat.div_one]

variable (hl : l < niaddr) (hrel : rel < mp.fs.nindir ^ (l + 1))
include hl hrel

/-- The walk from a block of height `h + 2`, seen from the walk below it. -/
theorem grew_of_child {lbn h : Nat}
    (hh : h + 1 ≤ l) {s s₁ s' : Growth} {v : Int}
    (hframe₁ : ∀ n, ¬ OnHops mp l rel (h + 1) n →
      s₁.ind n = s.ind n)
    (hslot : ∀ i, i ≠ (hop mp l rel (h + 1)).off →
      s₁.ind (hop mp l rel (h + 1)).lbn i =
        s.ind (hop mp l rel (h + 1)).lbn i)
    (hne : s₁.ind (hop mp l rel (h + 1)).lbn (hop mp l rel (h + 1)).off ≠ 0)
    (hold : ∀ k, pathPtr mp l rel s₁ (h + 1) k =
      if s.ind (hop mp l rel (h + 1)).lbn (hop mp l rel (h + 1)).off = 0 then 0
      else pathPtr mp l rel s (h + 1) k)
    (hallocs : ∀ g ∈ s₁.allocs, g.lbn = (lbn : Int) → g ∈ s.allocs)
    (hwalked : Walked mp c lbn (OnHops mp l rel h) s₁ s')
    (hgrew : Grew mp c lbn l rel h s₁ s' v) :
    Grew mp c lbn l rel (h + 1) s s' v := by
  have hN : 4 ≤ mp.fs.nindir := mp.fs.four_le_nindir
  have habove := hwalked.frame _ (not_onPath_above hN hl hrel hh)
  have hleaf : pathPtr mp l rel s (h + 2) (rel % mp.fs.nindir ^ (h + 2)) =
      pathPtr mp l rel s₁ (h + 1) (rel % mp.fs.nindir ^ (h + 1)) := by
    rw [hold, pathPtr, blockPtr_succ, Radix.mod_pow_div, Radix.mod_pow_mod,
      ← Radix.pathFirst_succ]
    rfl
  refine ⟨fun k hk => ?_, ?_⟩
  · refine blockPtr_step_up hN hl hrel hh ?_ ?_ ?_ ?_ hk
    · intro n hn
      rw [hwalked.frame n fun hp => hn hp.succ, hframe₁ n hn]
    · intro i hi
      rw [habove, hslot i hi]
    · rwa [habove]
    · intro k hk
      rw [← pathPtr, hgrew.ptrs k hk, hold]
      rfl
  · rcases hgrew.leaf with ⟨hv, hm, ha⟩ | ⟨hm, h0, ha, hrest⟩
    · exact .inl ⟨hv.trans hleaf.symm, hm, fun g hg hgl => hallocs g (ha g hg hgl) hgl⟩
    · exact .inr ⟨hm, hleaf.trans h0, ha, hrest⟩

theorem pathIndir_neg {j : Nat}
    (hj : j ≤ l) : (hop mp l rel j).lbn < 0 :=
  metaLbn_neg (isIndir_path mp.fs.four_le_nindir hl hrel hj)

/-- Below a block that has just been linked in there is nothing, and the rest
of the tree is as it was. -/
theorem linked_spec {lbn h : Nat}
    (hh : h + 1 ≤ l) {s s₁ : Growth} {b : Int} (hb : ptrCast mp.fs b ≠ 0)
    (h0 : s.ind (hop mp l rel (h + 1)).lbn (hop mp l rel (h + 1)).off = 0)
    (hsame : SameFile (linked mp s (hop mp l rel (h + 1)) (hop mp l rel h).lbn b) s₁)
    {s' : Growth} {v : Int}
    (hwalked : Walked mp c lbn (OnHops mp l rel h) s₁ s')
    (hgrew : Grew mp c lbn l rel h s₁ s' v) :
    Grew mp c lbn l rel (h + 1) s s' v := by
  have hN : 4 ≤ mp.fs.nindir := mp.fs.four_le_nindir
  have hne : (hop mp l rel h).lbn ≠ (hop mp l rel (h + 1)).lbn := by
    intro heq
    have := pathIndir_inj hN hl hrel (by omega) hh heq
    omega
  refine grew_of_child hl hrel hh ?_ ?_ ?_ ?_ ?_ hwalked hgrew
  · intro n hn
    have h1 : n ≠ (hop mp l rel (h + 1)).lbn := by
      rintro rfl
      exact hn (onPath_self _ _ _ _)
    have h2 : n ≠ (hop mp l rel h).lbn := by
      rintro rfl
      exact hn (onPath_self _ _ _ _).succ
    rw [hsame.ind, linked, Growth.setInd_of_ne _ h1, Growth.clear_of_ne _ h2, Growth.grant_ind]
  · intro i hi
    rw [hsame.ind, linked, Growth.setInd_self, if_neg hi, Growth.clear_of_ne _ hne.symm,
      Growth.grant_ind]
  · rwa [hsame.ind, linked, Growth.setInd_self, if_pos rfl]
  · intro k
    rw [if_pos h0]
    refine blockPtr_cleared (fun i => ?_) k
    rw [hsame.ind, linked]
    show (Growth.setInd _ _ _ _).ind (hop mp l rel h).lbn i = 0
    rw [Growth.setInd_of_ne _ hne, Growth.clear_self]
  · intro g hg hgl
    rw [hsame.allocs] at hg
    rcases List.mem_cons.mp hg with rfl | hg
    · have := pathIndir_neg hl hrel (show h ≤ l by omega)
      simp only at hgl
      omega
    · exact hg

theorem walkFrom_ok (hac : AllocOk mp c)
    (lbn : Nat) (allocib : Bool) {h : Nat} (hh : h ≤ l) (s : Growth) (unwind : Option Indir)
    (hw : (walkFrom mp c lbn allocib l rel h s unwind).err = none) :
    ∃ v, Grew mp c lbn l rel h s (walkFrom mp c lbn allocib l rel h s unwind).st v := by
  induction h generalizing s unwind with
  | zero => exact walkFrom_ok_leaf hac lbn allocib s unwind hw
  | succ h ih =>
      have hcases := ballocWalk_cons_cases mp c lbn allocib s unwind (hop mp l rel (h + 1))
        (hop mp l rel h) (hops mp l rel h)
      rw [walkFrom, hops, path] at hw ⊢
      obtain ⟨s₁, e, -, heq⟩ | ⟨h0, s₁, hsame, heq⟩ | ⟨h0, b, ha, ⟨s₁, e, -, heq⟩ | ⟨s₁, hsame, heq⟩⟩ :=
        hcases
      · rw [heq] at hw
        cases hw
      · rw [heq] at hw ⊢
        obtain ⟨v, hv⟩ := ih (by omega) s₁ unwind hw
        have hptr : ∀ k, pathPtr mp l rel s₁ (h + 1) k = pathPtr mp l rel s (h + 1) k := by
          intro k
          rw [pathPtr, pathPtr, hsame.ind]
        refine ⟨v, grew_of_child hl hrel hh (fun n _ => by rw [hsame.ind])
          (fun i _ => by rw [hsame.ind]) (by rwa [hsame.ind]) (fun k => ?_)
          (fun g hg _ => by rwa [hsame.allocs] at hg)
          (ballocWalk_walked mp c lbn allocib _ rel h s₁ unwind) hv⟩
        rw [if_neg h0, hptr]
      · rw [heq] at hw
        cases hw
      · rw [heq] at hw ⊢
        obtain ⟨v, hv⟩ := ih (by omega) s₁ _ hw
        obtain ⟨hb0, hb1⟩ := hac.alloc _ _ ha
        exact ⟨v, linked_spec hl hrel hh (by rw [ptrCast_eq_self hb0 hb1]; omega) h0 hsame
          (ballocWalk_walked mp c lbn allocib _ rel h s₁ _) hv⟩

end WalkFrom

/-! ### The block map of the whole file -/

/-- The pointer of logical block `b`. -/
def filePtr (mp : Ump) (s : Growth) (b : Nat) : Int :=
  bptr mp.fs.nindir (fun n _ => s.ind n) s.ip b

/-- `ffs_alloc` or `ffs_realloccg` returned `a` for logical block `b`. -/
def Granted (s : Growth) (b : Nat) (a : Int) : Prop :=
  (⟨b, a⟩ : Grant) ∈ s.moves ∨ (⟨b, a⟩ : Grant) ∈ s.allocs

/-- One pointer of the file is set, after at most one range was obtained for
that block. -/
structure Pointed (mp : Ump) (s s' : Growth) (n : Nat) (x : Int) (g : Option Int) : Prop where
  ptr : ∀ b, filePtr mp s' b = if b = n then x else filePtr mp s b
  granted : ∀ b a, Granted s' b a ↔ Granted s b a ∨ (b = n ∧ g = some a)

/-- The pointers of a file after a call: those of the blocks for which a range
was obtained lead to that range, the others are what they were. -/
structure Coherent (mp : Ump) (c : BallocCall) (lbn : Nat) (s s' : Growth) : Prop where
  granted : ∀ b a, Granted s' b a → filePtr mp s' b = a
  kept : ∀ b, (∀ a, ¬ Granted s' b a) → filePtr mp s' b = filePtr mp s b
  mapped : c.metaonly = true ∨ filePtr mp s lbn ≠ 0 ∨ ∃ a, Granted s' lbn a

theorem pointed_refl (mp : Ump) (s : Growth) (n : Nat) :
    Pointed mp s s n (filePtr mp s n) none := by
  refine ⟨fun b => ?_, fun b a => by simp⟩
  split
  · next h => rw [h]
  · rfl

/-- Two pointers are set; each is right when it leads to what was obtained for
its block, or is what it was. -/
theorem coherent_iff {mp : Ump} {c : BallocCall} {lbn m : Nat} {s s₁ s' : Growth} {x y : Int}
    {g g' : Option Int} (hm : m ≠ lbn) (hempty : ∀ b a, ¬ Granted s b a)
    (h1 : Pointed mp s s₁ m x g) (h2 : Pointed mp s₁ s' lbn y g')
    (hmapped : c.metaonly = true ∨ filePtr mp s lbn ≠ 0 ∨ g'.isSome) :
    Coherent mp c lbn s s' ↔
      x = g.getD (filePtr mp s m) ∧ y = g'.getD (filePtr mp s lbn) := by
  have hgr : ∀ b a, Granted s' b a ↔ (b = m ∧ g = some a) ∨ (b = lbn ∧ g' = some a) := by
    intro b a
    rw [h2.granted, h1.granted]
    simp [hempty]
  have hptr : ∀ b, filePtr mp s' b =
      if b = lbn then y else if b = m then x else filePtr mp s b := by
    intro b
    rw [h2.ptr, h1.ptr]
  constructor
  · intro h
    constructor
    · cases g with
      | none =>
          have := h.kept m fun a => by simp [hgr, hm]
          rwa [hptr, if_neg hm, if_pos rfl] at this
      | some a =>
          have := h.granted m a ((hgr m a).mpr (.inl ⟨rfl, rfl⟩))
          rwa [hptr, if_neg hm, if_pos rfl] at this
    · cases g' with
      | none =>
          have := h.kept lbn fun a => by simp [hgr, hm.symm]
          rwa [hptr, if_pos rfl] at this
      | some a =>
          have := h.granted lbn a ((hgr lbn a).mpr (.inr ⟨rfl, rfl⟩))
          rwa [hptr, if_pos rfl] at this
  · rintro ⟨rfl, rfl⟩
    refine ⟨fun b a hg => ?_, fun b hg => ?_, ?_⟩
    · rcases (hgr b a).mp hg with ⟨rfl, rfl⟩ | ⟨rfl, rfl⟩
      · rw [hptr, if_neg hm, if_pos rfl]
        rfl
      · rw [hptr, if_pos rfl]
        rfl
    · rw [hptr]
      split
      · next hb =>
          subst hb
          cases g' with
          | none => rfl
          | some a => exact absurd ((hgr b a).mpr (.inr ⟨rfl, rfl⟩)) (hg a)
      · split
        · next hb =>
            subst hb
            cases g with
            | none => rfl
            | some a => exact absurd ((hgr b a).mpr (.inl ⟨rfl, rfl⟩)) (hg a)
        · rfl
    · refine hmapped.imp_right fun h => h.imp_right fun h => ?_
      obtain ⟨a, ha⟩ := Option.isSome_iff_exists.mp h
      exact ⟨a, (hgr lbn a).mpr (.inr ⟨rfl, ha⟩)⟩

/-- Growing the tree below indirect pointer `l` at leaf `rel` sets one pointer
of the file. -/
theorem filePtr_of_grew {mp : Ump} {l rel : Nat} (hl : l < niaddr)
    (hrel : rel < mp.fs.nindir ^ (l + 1)) {s s' : Growth} {v : Int} (hdb : s'.ip.db = s.ip.db)
    (hib : ∀ i, i ≠ l → s'.ip.ib i = s.ip.ib i) (hibl : s'.ip.ib l ≠ 0)
    (hframe : ∀ n, ¬ OnHops mp l rel l n → s'.ind n = s.ind n)
    (hptrs : ∀ k < mp.fs.nindir ^ (l + 1), pathPtr mp l rel s' (l + 1) k =
      if k = rel then v else if s.ip.ib l = 0 then 0 else pathPtr mp l rel s (l + 1) k) (b : Nat) :
    filePtr mp s' b =
      if b = levelBase mp.fs.nindir l + rel then v else filePtr mp s b := by
  have hN : 4 ≤ mp.fs.nindir := mp.fs.four_le_nindir
  rcases level_cases mp.fs.nindir b with hdir | ⟨l', rel', hl', hrel', rfl⟩ | hbig
  · have := ndaddr_le_levelBase mp.fs.nindir l
    rw [if_neg (by omega), filePtr, filePtr, bptr_direct hdir, bptr_direct hdir, hdb]
  · rw [filePtr, filePtr, bptr_level hl' hrel', bptr_level hl' hrel']
    by_cases hll : l' = l
    · subst hll
      have htop : Radix.pathFirst mp.fs.nindir (levelBase mp.fs.nindir l') rel (l' + 1) =
          levelBase mp.fs.nindir l' := Radix.pathFirst_top hrel
      have hp := hptrs rel' hrel'
      simp only [pathPtr, htop] at hp
      rw [lookup_eq_blockPtr hibl, hp]
      simp only [Nat.add_left_cancel_iff]
      split
      · rfl
      · split
        · next h0 => rw [h0, Radix.lookup_null]
        · next h0 => rw [lookup_eq_blockPtr h0]
    · have hb1 : levelBase mp.fs.nindir (l + 1) = levelBase mp.fs.nindir l +
          mp.fs.nindir ^ (l + 1) := rfl
      have hb2 : levelBase mp.fs.nindir (l' + 1) = levelBase mp.fs.nindir l' +
          mp.fs.nindir ^ (l' + 1) := rfl
      rw [hib l' hll, if_neg ?_]
      · refine Radix.lookup_congr (fun h first h1 hb => ?_) _ hrel'
        funext _
        refine hframe _ ?_
        rintro ⟨j, hj, heq⟩
        obtain ⟨rfl, rfl⟩ := metaLbn_inj hN ⟨l', hl', h1, hb⟩ (isIndir_path hN hl hrel hj) heq
        have hr1 := hb.range
        have hr2 := (Radix.below_pathFirst (show 0 < mp.fs.nindir by omega)
          (levelBase mp.fs.nindir l) rel (show j + 1 ≤ l + 1 by omega)).range
        rw [Radix.pathFirst_top hrel] at hr2
        have hpos : 0 < mp.fs.nindir ^ (j + 1) := Nat.pow_pos (by omega)
        rcases Nat.lt_or_gt_of_ne hll with h | h
        · have := levelBase_mono mp.fs.nindir (show l' + 1 ≤ l from h)
          omega
        · have := levelBase_mono mp.fs.nindir (show l + 1 ≤ l' from h)
          omega
      · rcases Nat.lt_or_gt_of_ne hll with h | h
        · have := levelBase_mono mp.fs.nindir (show l' + 1 ≤ l from h)
          omega
        · have := levelBase_mono mp.fs.nindir (show l + 1 ≤ l' from h)
          omega
  · have h1 := levelBase_mono mp.fs.nindir (show l + 1 ≤ niaddr from hl)
    have hb1 : levelBase mp.fs.nindir (l + 1) = levelBase mp.fs.nindir l +
        mp.fs.nindir ^ (l + 1) := rfl
    rw [if_neg (by omega), filePtr, filePtr, bptr_beyond hbig, bptr_beyond hbig]

/-- The ranges obtained by a walk that grew the tree. -/
theorem granted_of_grew {mp : Ump} {c : BallocCall} {lbn l rel h : Nat} {K : Int → Prop}
    {s s₁ s' : Growth} {v : Int} (hK : ∀ n, K n → n < 0) (hmoves : s'.moves = s.moves)
    (hallocs : ∃ new, s'.allocs = new ++ s.allocs ∧
      ∀ g ∈ new, c.alloc g.lbn = .ok g.addr ∧ (K g.lbn ∨ g.lbn = lbn))
    (hs₁ : ∀ g ∈ s₁.allocs, g.lbn = (lbn : Int) → g ∈ s.allocs)
    (hgrew : Grew mp c lbn l rel h s₁ s' v) :
    ∃ g, (∀ b a, Granted s' b a ↔ Granted s b a ∨ (b = lbn ∧ g = some a)) ∧
      v = g.getD (pathPtr mp l rel s₁ (h + 1) (rel % mp.fs.nindir ^ (h + 1))) ∧
      (c.metaonly = true ∨ v ≠ 0 ∧ g = none ∨ g.isSome) := by
  obtain ⟨new, ha, hnew⟩ := hallocs
  -- a range for a data block is either old or the one for the requested block
  have hin : ∀ b a, Granted s' b a →
      Granted s b a ∨ (b = lbn ∧ c.alloc lbn = .ok a ∧ (⟨b, a⟩ : Grant) ∈ s'.allocs) := by
    rintro b a (hm | hm)
    · rw [hmoves] at hm
      exact .inl (.inl hm)
    · have hm' := hm
      rw [ha] at hm
      rcases List.mem_append.mp hm with hn | hn
      · obtain ⟨halloc, hk | hk⟩ := hnew _ hn
        · have := hK _ hk
          simp only at this
          omega
        · obtain rfl : b = lbn := Int.ofNat.inj hk
          exact .inr ⟨rfl, halloc, hm'⟩
      · exact .inl (.inr hn)
  have hout : ∀ b a, Granted s b a → Granted s' b a := by
    rintro b a (hm | hm)
    · exact .inl (by rwa [hmoves])
    · exact .inr (by rw [ha]; exact List.mem_append_right _ hm)
  rcases hgrew.leaf with ⟨hv, hm, hall⟩ | ⟨hm, h0, halloc, rest, hrest⟩
  · refine ⟨none, fun b a => ⟨fun h => ?_, ?_⟩, hv, hm.imp_right fun h => .inl ⟨h, rfl⟩⟩
    · rcases hin b a h with h | ⟨rfl, -, hmem⟩
      · exact .inl h
      · exact .inl (.inr (hs₁ _ (hall _ hmem rfl) rfl))
    · rintro (h | ⟨-, h⟩)
      · exact hout b a h
      · cases h
  · refine ⟨some v, fun b a => ⟨fun h => ?_, ?_⟩, rfl, .inr (.inr rfl)⟩
    · rcases hin b a h with h | ⟨rfl, halloc', -⟩
      · exact .inl h
      · rw [halloc] at halloc'
        exact .inr ⟨rfl, congrArg some (Except.ok.inj halloc')⟩
    · rintro (h | ⟨rfl, h⟩)
      · exact hout b a h
      · obtain rfl := Option.some.inj h
        exact .inr (by rw [hrest]; exact List.mem_cons_self)

theorem ballocFinish_ok {mp : Ump} {c : BallocCall} {old : List Grant} {allocib : Option Nat}
    {w : WalkEnd} {s' : Growth} (h : ballocFinish mp c old allocib w = (.ok (), s')) :
    w.err = none ∧ w.st = s' := by
  unfold ballocFinish at h
  split at h
  · next hw => exact ⟨hw, (Prod.mk.inj h).2⟩
  · unfold ballocFail at h
    split at h
    · cases (Prod.mk.inj h).1
    · split at h
      · cases (Prod.mk.inj h).1
      · split at h <;> cases (Prod.mk.inj h).1

/-- How the state at the start of the walk differs from that of the call: the
first indirect block may be new. -/
structure WalkStart (mp : Ump) (c : BallocCall) (l rel : Nat) (s s₁ : Growth) : Prop where
  db : s₁.ip.db = s.ip.db
  ib : ∀ i, i ≠ l → s₁.ip.ib i = s.ip.ib i
  top : s₁.ip.ib l ≠ 0
  frame : ∀ n, ¬ OnHops mp l rel l n → s₁.ind n = s.ind n
  ptr : ∀ k, pathPtr mp l rel s₁ (l + 1) k =
    if s.ip.ib l = 0 then 0 else pathPtr mp l rel s (l + 1) k
  moves : s₁.moves = s.moves
  allocs : ∃ new, s₁.allocs = new ++ s.allocs ∧ ∀ g ∈ new, c.alloc g.lbn = .ok g.addr ∧
    OnHops mp l rel l g.lbn

section Indir

variable {mp : Ump} {c : BallocCall} {l rel : Nat} {s s₁ s' : Growth}

theorem walkStart_old (hib : s.ip.ib l ≠ 0) : WalkStart mp c l rel s s :=
  ⟨rfl, fun _ _ => rfl, hib, fun _ _ => rfl, fun _ => (if_neg hib).symm, rfl,
    ⟨[], rfl, by simp⟩⟩

/-- The start of a walk whose first block is new. -/
theorem walkStart_new {b : Int} (hib : s.ip.ib l = 0) (hb : b ≠ 0)
    (halloc : c.alloc (hop mp l rel l).lbn = .ok b)
    (hsame : SameFile ((s.grant mp (hop mp l rel l).lbn b
      mp.fs.bsize).clear (hop mp l rel l).lbn) s₁) :
    WalkStart mp c l rel s (s₁.setIb l b) := by
  have hib' : (s₁.setIb l b).ip.ib = Function.update s.ip.ib l b := by
    show Function.update s₁.ip.ib l b = _
    rw [hsame.ip]
    rfl
  refine ⟨?_, fun i hi => ?_, ?_, fun n hn => ?_, fun k => ?_, ?_, ?_⟩
  · show s₁.ip.db = s.ip.db
    rw [hsame.ip]
    rfl
  · rw [hib', Function.update_of_ne hi]
  · rwa [hib', Function.update_self]
  · show s₁.ind n = s.ind n
    rw [hsame.ind, Growth.clear_of_ne, Growth.grant_ind]
    rintro rfl
    exact hn (onPath_self _ _ _ _)
  · rw [if_pos hib]
    refine blockPtr_cleared (fun i => ?_) k
    show s₁.ind (hop mp l rel l).lbn i = 0
    rw [hsame.ind, Growth.clear_self]
  · show s₁.moves = s.moves
    rw [hsame]
    rfl
  · refine ⟨[⟨_, b⟩], hsame.allocs, fun g hg => ?_⟩
    obtain rfl := List.mem_singleton.mp hg
    exact ⟨halloc, onPath_self _ _ _ _⟩

/-- A walk without error sets the pointer of the requested block: the new
address reaches the indirect block in a local variable. -/
theorem pointed_of_walk (hl : l < niaddr) (hrel : rel < mp.fs.nindir ^ (l + 1))
    (hac : AllocOk mp c) (hstart : WalkStart mp c l rel s s₁) {allocib : Bool}
    {unwind : Option Indir}
    (hw : (walkFrom mp c (levelBase mp.fs.nindir l + rel) allocib l rel l s₁ unwind).err = none) :
    ∃ v g, Pointed mp s
        (walkFrom mp c (levelBase mp.fs.nindir l + rel) allocib l rel l s₁ unwind).st
        (levelBase mp.fs.nindir l + rel) v g ∧
      v = g.getD (filePtr mp s (levelBase mp.fs.nindir l + rel)) ∧
      (c.metaonly = true ∨ filePtr mp s (levelBase mp.fs.nindir l + rel) ≠ 0 ∨ g.isSome) := by
  have hmod : rel % mp.fs.nindir ^ (l + 1) = rel := Nat.mod_eq_of_lt hrel
  have hK : ∀ n, OnHops mp l rel l n → n < 0 := by
    rintro n ⟨j, hj, rfl⟩
    exact pathIndir_neg hl hrel hj
  have hfile : filePtr mp s (levelBase mp.fs.nindir l + rel) =
      pathPtr mp l rel s₁ (l + 1) rel := by
    rw [hstart.ptr, filePtr, bptr_level hl hrel]
    split
    · next h0 => rw [h0, Radix.lookup_null]
    · next h0 => rw [lookup_eq_blockPtr h0, pathPtr, Radix.pathFirst_top hrel]
  have hwalked := ballocWalk_walked mp c (levelBase mp.fs.nindir l + rel) allocib
    (levelBase mp.fs.nindir l) rel l s₁ unwind
  obtain ⟨v, hv⟩ := walkFrom_ok hl hrel hac (levelBase mp.fs.nindir l + rel) allocib
    (Nat.le_refl l) s₁ unwind hw
  obtain ⟨new, ha, -, hnew⟩ := hwalked.allocs
  obtain ⟨top, ht, htop⟩ := hstart.allocs
  obtain ⟨g, hg, hvg, hm⟩ := granted_of_grew hK (hwalked.moves.trans hstart.moves)
    ⟨new ++ top, by rw [ha, ht, List.append_assoc], fun g hg => (List.mem_append.mp hg).elim
      (hnew g) fun h => ⟨(htop g h).1, .inl (htop g h).2⟩⟩
    (fun g hg hgl => by
      rw [ht] at hg
      refine (List.mem_append.mp hg).elim (fun h => ?_) id
      have := hK _ (htop g h).2
      omega) hv
  rw [hmod] at hvg
  refine ⟨v, g, ⟨filePtr_of_grew hl hrel ?_ ?_ ?_ ?_ ?_, hg⟩, ?_, ?_⟩
  · rw [walkFrom, hwalked.ip]
    exact hstart.db
  · intro i hi
    rw [walkFrom, hwalked.ip]
    exact hstart.ib i hi
  · rw [walkFrom, hwalked.ip]
    exact hstart.top
  · intro n hn
    rw [walkFrom, hwalked.frame n hn, hstart.frame n hn]
  · intro k hk
    rw [hv.ptrs k hk, hmod, hstart.ptr]
  · rw [hfile]
    exact hvg
  · refine hm.imp_right fun h => h.imp_left fun ⟨hne, hnone⟩ => ?_
    rw [hnone] at hvg
    rw [hfile, ← show v = pathPtr mp l rel s₁ (l + 1) rel from hvg]
    exact hne

theorem ballocIndir_pointed (hl : l < niaddr) (hrel : rel < mp.fs.nindir ^ (l + 1))
    (hac : AllocOk mp c) {t : Int}
    (h : ballocIndir mp c s (levelBase mp.fs.nindir l + rel) ⟨t, l⟩ (hop mp l rel l)
      (hops mp l rel l) = (.ok (), s')) :
    ∃ v g, Pointed mp s s' (levelBase mp.fs.nindir l + rel) v g ∧
      v = g.getD (filePtr mp s (levelBase mp.fs.nindir l + rel)) ∧
      (c.metaonly = true ∨ filePtr mp s (levelBase mp.fs.nindir l + rel) ≠ 0 ∨ g.isSome) := by
  unfold ballocIndir at h
  split at h
  · next hib =>
      obtain ⟨hw, rfl⟩ := ballocFinish_ok h
      exact pointed_of_walk hl hrel hac (walkStart_old hib) hw
  · next hib =>
      cases halloc : c.alloc (hop mp l rel l).lbn with
      | error e =>
          simp only [ffsAlloc, halloc] at h
          cases (Prod.mk.inj h).1
      | ok b =>
          simp only [ffsAlloc, halloc] at h
          have hn := sameFile_newIndir mp c
            (s.grant mp (hop mp l rel l).lbn b mp.fs.bsize) (hop mp l rel l).lbn (ptrCast mp.fs b)
          split at h
          · obtain ⟨hw, -⟩ := ballocFinish_ok h
            cases hw
          · next s₂ hnew =>
              rw [hnew] at hn
              obtain ⟨hb0, hb1⟩ := hac.alloc _ _ halloc
              rw [ptrCast_eq_self hb0 hb1] at h
              obtain ⟨hw, rfl⟩ := ballocFinish_ok h
              exact pointed_of_walk hl hrel hac
                (walkStart_new (not_not.mp hib) (by omega) halloc hn) hw

end Indir

/-! ### Direct blocks: the address comes from the buffer -/

/-- The pointer that is stored for a buffer with physical number `n`. -/
def storedPtr (fs : Fs) (n : Int) : Int := ptrCast fs (dbtofsb fs n)

/-- The place that one attempt of `ffs_realloccg` has for a fragment at
`bprev`: the old one, a new one or none. -/
def tryAddr (t : ReallocTry) (bprev : Int) : Option Int :=
  if t.space then if t.extended then some bprev else t.found else none

/-- The address that a successful `ffs_realloccg` returns. -/
def reallocAddr (tries : Nat → ReallocTry) (bprev : Int) : Option Int :=
  (tryAddr (tries 0) bprev).or (tryAddr (tries 1) bprev)

/-- The effect of an attempt that returns a buffer. -/
structure Realloced (c : BallocCall) (n a : Int) (bp : BufNums) (s s' : Growth) : Prop where
  blkno : bp.blkno = c.phys n
  ip : s'.ip = { s.ip with blocks := s'.ip.blocks }
  ind : s'.ind = s.ind
  allocs : s'.allocs = s.allocs
  moves : s'.moves = ⟨n, a⟩ :: s.moves

theorem realloccgPlace_cases (mp : Ump) (t : ReallocTry) (s : Growth) (n bprev : Int)
    (osize nsize : Nat) (bp : BufNums) :
    let r := realloccgPlace mp t s n bprev osize nsize bp
    (r.1 = none ∧ t.extended = false ∧ t.found = none ∧ SameFile s r.2) ∨ r.1 = some .panic ∨
      ∃ bp' a, r.1 = some (.ok bp') ∧ bp'.blkno = bp.blkno ∧
        (if t.extended then some bprev else t.found) = some a ∧
        (r.2.ip = { s.ip with blocks := r.2.ip.blocks } ∧ r.2.ind = s.ind ∧
          r.2.allocs = s.allocs ∧ r.2.moves = ⟨n, a⟩ :: s.moves) := by
  intro r
  simp only [r, realloccgPlace]
  cases hx : t.extended with
  | true =>
      simp only [if_true]
      split
      · exact .inr (.inr ⟨bp, bprev, rfl, rfl, rfl, rfl, rfl, rfl, rfl⟩)
      · exact .inr (.inl rfl)
  | false =>
      cases hf : t.found with
      | none => exact .inl ⟨rfl, rfl, rfl, sameFile_use _ _ _ _⟩
      | some bno => exact .inr (.inr ⟨_, bno, rfl, rfl, rfl, rfl, rfl, rfl, rfl⟩)

/-- An attempt finds no space, fails, or returns a buffer whose physical number
it has not touched. -/
theorem realloccgTry_cases (mp : Ump) (c : BallocCall) (t : ReallocTry) (s : Growth)
    (n bprev : Int) (osize nsize : Nat) :
    let r := realloccgTry mp c t s n bprev osize nsize
    (r.1 = none ∧ tryAddr t bprev = none ∧ SameFile s r.2) ∨ r.1 = some .panic ∨
      (∃ e, r.1 = some (.error e)) ∨
      ∃ bp a, r.1 = some (.ok bp) ∧ tryAddr t bprev = some a ∧ Realloced c n a bp s r.2 := by
  intro r
  simp only [r, realloccgTry, tryAddr]
  cases hsp : t.space with
  | false => exact .inl ⟨rfl, rfl, .refl s⟩
  | true =>
      simp only [Bool.true_eq_false, if_false, if_true]
      split
      · exact .inr (.inl rfl)
      · cases hre : t.readErr with
        | some e => exact .inr (.inr (.inl ⟨e, rfl⟩))
        | none =>
            rcases hb : s.bread c n with ⟨s₁, bp⟩
            have hs : SameFile s s₁ := by
              have := sameFile_bread s c n
              rwa [hb] at this
            have hbp : bp.blkno = c.phys n := by
              have : bp = ⟨n, c.phys n⟩ := by rw [← (Prod.mk.inj hb).2]
              rw [this]
            -- both ways on call `realloccgPlace` with the same physical number
            have key : ∀ bp₁ : BufNums, bp₁.blkno = bp.blkno →
                let r := realloccgPlace mp t s₁ n bprev osize nsize bp₁
                (r.1 = none ∧ (if t.extended then some bprev else t.found) = none ∧
                    SameFile s r.2) ∨ r.1 = some .panic ∨ (∃ e, r.1 = some (.error e)) ∨
                  ∃ bp a, r.1 = some (.ok bp) ∧
                    (if t.extended then some bprev else t.found) = some a ∧
                    Realloced c n a bp s r.2 := by
              intro bp₁ hbp₁ r
              obtain ⟨h1, h2, h3, h4⟩ | h | ⟨bp', a, h1, h2, h3, h4, h5, h6, h7⟩ :=
                realloccgPlace_cases mp t s₁ n bprev osize nsize bp₁
              · exact .inl ⟨h1, by rw [h2, h3]; rfl, hs.trans h4⟩
              · exact .inr (.inl h)
              · refine .inr (.inr (.inr ⟨bp', a, h1, h3, ?_⟩))
                rw [hs.ip] at h4
                refine ⟨h2.trans (hbp₁.trans hbp), h4, h5.trans hs.ind, h6.trans hs.allocs, ?_⟩
                rw [h7, show s₁.moves = s.moves by rw [hs]]
            simp only
            split
            · split
              · exact .inr (.inl rfl)
              · exact key _ rfl
            · exact key _ rfl

theorem ffsRealloccg_ok {mp : Ump} {c : BallocCall} {tries : Nat → ReallocTry} {s s' : Growth}
    {n bprev : Int} {osize nsize : Nat} {bp : BufNums}
    (h : ffsRealloccg mp c tries s n bprev osize nsize = (.ok bp, s')) :
    ∃ a, reallocAddr tries bprev = some a ∧ Realloced c n a bp s s' := by
  have hfirst := realloccgTry_cases mp c (tries 0) s n bprev osize nsize
  rw [ffsRealloccg] at h
  rcases hr : realloccgTry mp c (tries 0) s n bprev osize nsize with ⟨r, s₁⟩
  rw [hr] at h hfirst
  obtain ⟨rfl, haddr, hs⟩ | rfl | ⟨e, rfl⟩ | ⟨bp', a, rfl, haddr, hre⟩ := hfirst
  · simp only at h
    split at h
    · cases (Prod.mk.inj h).1
    · have hsecond := realloccgTry_cases mp c (tries 1) s₁ n bprev osize nsize
      rcases hr' : realloccgTry mp c (tries 1) s₁ n bprev osize nsize with ⟨r', s₂⟩
      rw [hr'] at h hsecond
      obtain ⟨rfl, -⟩ | rfl | ⟨e, rfl⟩ | ⟨bp', a, rfl, haddr', hre⟩ := hsecond
      · cases (Prod.mk.inj h).1
      · cases (Prod.mk.inj h).1
      · cases (Prod.mk.inj h).1
      · obtain ⟨hbp, rfl⟩ := Prod.mk.inj h
        obtain rfl := Outcome.ok.inj hbp
        replace hs : SameFile s s₁ := hs
        refine ⟨a, by rw [reallocAddr, haddr, haddr', Option.none_or], hre.blkno, ?_,
          hre.ind.trans hs.ind, hre.allocs.trans hs.allocs, ?_⟩
        · rw [hre.ip, hs.ip]
        · rw [hre.moves, show s₁.moves = s.moves by rw [hs]]
  · cases (Prod.mk.inj h).1
  · cases (Prod.mk.inj h).1
  · obtain ⟨hbp, rfl⟩ := Prod.mk.inj h
    obtain rfl := Outcome.ok.inj hbp
    exact ⟨a, by rw [reallocAddr, haddr, Option.some_or], hre⟩

/-- Storing a direct pointer sets one pointer of the file. -/
theorem filePtr_setDb {mp : Ump} {s s' : Growth} {n : Nat} {x : Int} (hn : n < ndaddr)
    (hdb : s'.ip.db = Function.update s.ip.db n x) (hib : s'.ip.ib = s.ip.ib)
    (hind : s'.ind = s.ind) (b : Nat) :
    filePtr mp s' b = if b = n then x else filePtr mp s b := by
  rcases level_cases mp.fs.nindir b with hdir | ⟨l, rel, hl, hrel, rfl⟩ | hbig
  · rw [filePtr, filePtr, bptr_direct hdir, bptr_direct hdir, hdb, Function.update_apply]
  · have := ndaddr_le_levelBase mp.fs.nindir l
    rw [if_neg (by omega), filePtr, filePtr, bptr_level hl hrel, bptr_level hl hrel, hib, hind]
  · have := ndaddr_le_levelBase mp.fs.nindir niaddr
    rw [if_neg (by omega), filePtr, filePtr, bptr_beyond hbig, bptr_beyond hbig]

/-- The pointer read off the buffer of a fragment that `ffs_realloccg`
returned. -/
theorem Realloced.pointed {mp : Ump} {c : BallocCall} {n : Nat} {a x : Int} {bp : BufNums}
    {s s₁ s' : Growth} (hn : n < ndaddr) (h : Realloced c n a bp s s₁)
    (hdb : s'.ip.db = Function.update s₁.ip.db n x) (hib : s'.ip.ib = s₁.ip.ib)
    (hind : s'.ind = s₁.ind) (hallocs : s'.allocs = s₁.allocs) (hmoves : s'.moves = s₁.moves) :
    Pointed mp s s' n x (some a) := by
  have hdb₁ : s₁.ip.db = s.ip.db := by rw [h.ip]
  have hib₁ : s₁.ip.ib = s.ip.ib := by rw [h.ip]
  refine ⟨filePtr_setDb hn (by rw [hdb, hdb₁]) (hib.trans hib₁) (hind.trans h.ind), fun b a' => ?_⟩
  rw [Granted, Granted, hmoves, h.moves, hallocs, h.allocs, List.mem_cons, Grant.mk.injEq,
    Nat.cast_inj, Option.some.injEq, eq_comm (a := a')]
  tauto

/-- The pointer stored for the last fragment is the one of its new place. -/
def PromotionRight (mp : Ump) (c : BallocCall) (s : Growth) (lbn : Nat) : Prop :=
  needsPromotion mp.fs s.ip lbn = true →
    reallocAddr c.promote (s.ip.db (s.ip.size / mp.fs.bsize)) =
      some (storedPtr mp.fs (c.phys ((s.ip.size / mp.fs.bsize : Nat) : Int)))

/-- The size of the file after the promotion step. -/
def promotedSize (fs : Fs) (ip : Inode) (lbn : Nat) : Nat :=
  if needsPromotion fs ip lbn then fs.lblktosize (ip.size / fs.bsize + 1) else ip.size

theorem ballocPromote_pointed {mp : Ump} {c : BallocCall} {s s' : Growth} {lbn : Nat}
    (h : ballocPromote mp c s lbn = (.ok (), s')) :
    ∃ n x g, n ≠ lbn ∧ Pointed mp s s' n x g ∧
      (x = g.getD (filePtr mp s n) ↔ PromotionRight mp c s lbn) ∧
      s'.ip.size = promotedSize mp.fs s.ip lbn ∧ s'.ip.db lbn = s.ip.db lbn := by
  unfold ballocPromote at h
  split at h
  · next hp =>
      have hlt : s.ip.size / mp.fs.bsize < ndaddr ∧ s.ip.size / mp.fs.bsize < lbn := by
        have := of_decide_eq_true hp
        exact ⟨this.1, this.2.1⟩
      simp only at h
      rcases hr : ffsRealloccg mp c c.promote s ((s.ip.size / mp.fs.bsize : Nat) : Int)
          (s.ip.db (s.ip.size / mp.fs.bsize))
          (blksize mp.fs s.ip ((s.ip.size / mp.fs.bsize : Nat) : Int)) mp.fs.bsize with ⟨r, s₁⟩
      rw [hr] at h
      cases r with
      | ok bp =>
          obtain ⟨a, ha, hre⟩ := ffsRealloccg_ok hr
          obtain rfl := (Prod.mk.inj h).2
          refine ⟨s.ip.size / mp.fs.bsize, _, some a, by omega,
            hre.pointed hlt.1 rfl rfl rfl rfl rfl, ?_, ?_, ?_⟩
          · rw [PromotionRight, ha, hre.blkno]
            simp only [hp, forall_const, Option.getD_some, Option.some.injEq, storedPtr]
            exact eq_comm
          · rw [promotedSize, if_pos hp]
            rfl
          · show Function.update s₁.ip.db _ _ lbn = _
            rw [Function.update_of_ne (by omega), hre.ip]
      | error e => cases (Prod.mk.inj h).1
      | panic => cases (Prod.mk.inj h).1
  · next hp =>
      obtain rfl := (Prod.mk.inj h).2
      refine ⟨lbn + 1, _, none, by omega, pointed_refl mp s (lbn + 1), ?_, ?_, rfl⟩
      · simp [PromotionRight, hp]
      · rw [promotedSize, if_neg hp]

/-- The pointer stored for direct block `lbn` of a file of `isize` bytes is the
one of the block: it is there in full and not stored at all, or the buffer's
physical number happens to be its device address. `size` is where the request
ends in the block. -/
def DirectRight (mp : Ump) (c : BallocCall) (db : Nat → Int) (isize lbn size : Nat) : Prop :=
  if db lbn = 0 then c.alloc lbn = .ok (storedPtr mp.fs lbn)
  else if mp.fs.lblktosize (lbn + 1) ≤ isize then True
  else if mp.fs.fragroundup size ≤ mp.fs.fragroundup (mp.fs.blkoff isize) then
    storedPtr mp.fs (c.phys lbn) = db lbn
  else reallocAddr c.grow (db lbn) = some (storedPtr mp.fs (c.phys lbn))

theorem ballocFull_ok {mp : Ump} {c : BallocCall} {s s' : Growth} {lbn : Nat}
    (h : ballocFull mp c s lbn = (.ok (), s')) : SameFile s s' := by
  unfold ballocFull at h
  simp only at h
  split at h
  · split at h
    · cases (Prod.mk.inj h).1
    · obtain rfl := (Prod.mk.inj h).2
      exact (sameFile_bread s c lbn).use _ _ _
  · obtain rfl := (Prod.mk.inj h).2
    exact sameFile_use _ _ _ _

theorem SameFile.pointed {mp : Ump} {s s' : Growth} (h : SameFile s s') (n : Nat) :
    Pointed mp s s' n (filePtr mp s n) none := by
  have hptr : ∀ b, filePtr mp s' b = filePtr mp s b := by
    intro b
    rw [filePtr, filePtr, h.ind, h.ip]
  have hgr : ∀ b a, Granted s' b a ↔ Granted s b a := by
    intro b a
    rw [Granted, Granted, h.allocs, show s'.moves = s.moves by rw [h]]
  obtain ⟨h1, h2⟩ := pointed_refl mp s n
  exact ⟨fun b => (hptr b).trans (h1 b), fun b a => (hgr b a).trans (h2 b a)⟩

/-- A fragment that stays where it is, with its pointer read off the buffer. -/
theorem SameFile.pointed_setDb {mp : Ump} {s s₁ s' : Growth} (h : SameFile s s₁) {n : Nat}
    (hn : n < ndaddr) {x : Int} {req : Int} {nums : BufNums} {act : BufAct}
    (hs' : s' = (s₁.setDb n x).use req nums act) : Pointed mp s s' n x none := by
  subst hs'
  refine ⟨filePtr_setDb hn ?_ ?_ h.ind, fun b a => ?_⟩
  · show Function.update s₁.ip.db n x = _
    rw [h.ip]
  · show s₁.ip.ib = _
    rw [h.ip]
  · show Granted s₁ b a ↔ _
    rw [Granted, Granted, h.allocs, show s₁.moves = s.moves by rw [h]]
    simp

theorem ballocFragment_pointed {mp : Ump} {c : BallocCall} {s s' : Growth} {lbn size : Nat}
    (hlbn : lbn < ndaddr)
    (hfull : ¬ (s.ip.db lbn ≠ 0 ∧ mp.fs.lblktosize (lbn + 1) ≤ s.ip.size))
    (h : ballocFragment mp c s lbn size = (.ok (), s')) :
    ∃ x g, Pointed mp s s' lbn x g ∧ (filePtr mp s lbn ≠ 0 ∨ g.isSome) ∧
      (x = g.getD (filePtr mp s lbn) ↔ DirectRight mp c s.ip.db s.ip.size lbn size) := by
  have hptr : filePtr mp s lbn = s.ip.db lbn := bptr_direct hlbn
  unfold ballocFragment at h
  simp only at h
  by_cases h0 : s.ip.db lbn = 0
  · rw [if_neg (not_not.mpr h0)] at h
    cases ha : c.alloc (lbn : Int) with
    | error e =>
        rw [ha] at h
        cases (Prod.mk.inj h).1
    | ok b =>
        rw [ha] at h
        obtain rfl := (Prod.mk.inj h).2
        refine ⟨storedPtr mp.fs lbn, some b, ⟨filePtr_setDb hlbn rfl rfl rfl, fun b' a => ?_⟩,
          .inr rfl, ?_⟩
        · show (_ ∨ (⟨b', a⟩ : Grant) ∈ (⟨lbn, b⟩ : Grant) :: s.allocs) ↔ _
          rw [List.mem_cons, Grant.mk.injEq, Nat.cast_inj, Option.some.injEq, eq_comm (a := a)]
          unfold Granted
          tauto
        · rw [DirectRight, if_pos h0, ha, Except.ok.injEq, Option.getD_some]
          exact eq_comm
  · have hsz : ¬ mp.fs.lblktosize (lbn + 1) ≤ s.ip.size := fun hc => hfull ⟨h0, hc⟩
    rw [if_pos h0] at h
    rw [DirectRight, if_neg h0, if_neg hsz]
    by_cases hle : mp.fs.fragroundup size ≤ mp.fs.fragroundup (mp.fs.blkoff s.ip.size)
    · rw [if_pos hle] at h ⊢
      split at h
      · cases (Prod.mk.inj h).1
      · obtain rfl := (Prod.mk.inj h).2
        refine ⟨_, none, (sameFile_bread s c lbn).pointed_setDb hlbn rfl, .inl ?_, ?_⟩
        · rwa [hptr]
        · rw [Option.getD_none, hptr]
          rfl
    · rw [if_neg hle] at h ⊢
      rcases hr : ffsRealloccg mp c c.grow s (lbn : Int) (s.ip.db lbn)
          (mp.fs.fragroundup (mp.fs.blkoff s.ip.size)) (mp.fs.fragroundup size) with ⟨r, s₁⟩
      rw [hr] at h
      cases r with
      | ok bp =>
          obtain ⟨a, ha, hre⟩ := ffsRealloccg_ok hr
          obtain rfl := (Prod.mk.inj h).2
          refine ⟨storedPtr mp.fs bp.blkno, some a, hre.pointed hlbn rfl rfl rfl rfl rfl,
            .inr rfl, ?_⟩
          rw [ha, Option.getD_some, Option.some.injEq, hre.blkno]
          exact eq_comm
      | error e => cases (Prod.mk.inj h).1
      | panic => cases (Prod.mk.inj h).1

theorem ballocDirect_pointed {mp : Ump} {c : BallocCall} {s s' : Growth} {lbn size : Nat}
    (hlbn : lbn < ndaddr) (h : ballocDirect mp c s lbn size = (.ok (), s')) :
    ∃ x g, Pointed mp s s' lbn x g ∧ (filePtr mp s lbn ≠ 0 ∨ g.isSome) ∧
      (x = g.getD (filePtr mp s lbn) ↔ DirectRight mp c s.ip.db s.ip.size lbn size) := by
  unfold ballocDirect at h
  split at h
  · cases (Prod.mk.inj h).1
  · split at h
    · next hfull =>
        refine ⟨_, none, (ballocFull_ok h).pointed lbn, .inl ?_, ?_⟩
        · rw [filePtr, bptr_direct hlbn]
          exact hfull.1
        · rw [DirectRight, if_neg hfull.1, if_pos hfull.2]
          simp
    · next hfull => exact ballocFragment_pointed hlbn hfull h

/-- The block step of a successful call. -/
theorem ballocBlock_pointed {mp : Ump} {c : BallocCall} {s s' : Growth} {lbn size : Nat}
    (hac : AllocOk mp c) (h : ballocBlock mp c s lbn size = (.ok (), s')) :
    ∃ x g, Pointed mp s s' lbn x g ∧
      (c.metaonly = true ∨ filePtr mp s lbn ≠ 0 ∨ g.isSome) ∧
      (x = g.getD (filePtr mp s lbn) ↔
        (lbn < ndaddr → DirectRight mp c s.ip.db s.ip.size lbn size)) := by
  unfold ballocBlock at h
  split at h
  · next hlbn =>
      obtain ⟨x, g, hp, hm, hx⟩ := ballocDirect_pointed hlbn h
      exact ⟨x, g, hp, .inr hm, by simp only [hx, hlbn, forall_const]⟩
  · next hlbn =>
      obtain hdir | ⟨l, rel, hl, hrel, rfl⟩ | hbig := level_cases mp.fs.nindir lbn
      · exact absurd hdir hlbn
      · rw [ufsGetlbns_path hl hrel] at h
        obtain ⟨v, g, hp, hv, hm⟩ := ballocIndir_pointed hl hrel hac h
        exact ⟨v, g, hp, hm, by simp only [hv, hlbn, false_imp_iff]⟩
      · rw [ufsGetlbns_efbig hbig] at h
        cases (Prod.mk.inj h).1

/-- A successful call leaves a coherent block map exactly when the pointers it
reads off a buffer are right. Behind indirect blocks the address travels in a
local variable and nothing is asked for but the promotion step. -/
theorem ffsBalloc_coherent_iff (mp : Ump) (c : BallocCall) (s s' : Growth) (startoffset : Int)
    (size : Nat) (hac : AllocOk mp c) (hmoves : s.moves = []) (hallocs : s.allocs = [])
    (h : ffsBalloc mp c s startoffset size = (.ok (), s')) :
    let lbn := (mp.fs.lblkno startoffset).toNat
    Coherent mp c lbn s s' ↔
      PromotionRight mp c s lbn ∧
        (lbn < ndaddr →
          DirectRight mp c s.ip.db (promotedSize mp.fs s.ip lbn) lbn
            ((startoffset % mp.fs.bsize).toNat + size)) := by
  intro lbn
  unfold ffsBalloc at h
  simp only at h
  split at h
  · cases (Prod.mk.inj h).1
  split at h
  · cases (Prod.mk.inj h).1
  rcases hp : ballocPromote mp c s (mp.fs.lblkno startoffset).toNat with ⟨r, s₁⟩
  rw [hp] at h
  cases r with
  | error e => cases (Prod.mk.inj h).1
  | panic => cases (Prod.mk.inj h).1
  | ok u =>
      obtain ⟨n, x, g, hn, h1, hx, hsize, hdb⟩ := ballocPromote_pointed hp
      obtain ⟨y, g', h2, hm, hy⟩ := ballocBlock_pointed hac h
      have hsame : filePtr mp s₁ lbn = filePtr mp s lbn := by
        rw [h1.ptr, if_neg hn.symm]
      have hempty : ∀ b a, ¬ Granted s b a := by
        intro b a
        simp [Granted, hmoves, hallocs]
      have hdir : ∀ isize sz, DirectRight mp c s₁.ip.db isize lbn sz ↔
          DirectRight mp c s.ip.db isize lbn sz := by
        intro isize sz
        rw [DirectRight, DirectRight, show s₁.ip.db lbn = s.ip.db lbn from hdb]
      rw [coherent_iff hn hempty h1 h2 (by rw [← hsame]; exact hm), hx, ← hsame, hy, hsize, hdir]

theorem eq_mk_snd {α β : Type} {p : α × β} {a : α} (h : p.1 = a) : p = (a, p.2) := by rw [← h]

/-- The sample file system on a disk with 512-byte blocks. -/
def tinyUmp : Ump where
  fs := tinyFs
  devbsize := 512
  untrusted := false
  async := false
  devbsize_pos := by decide
  devbsize_dvd := by decide

/-- A file of `size` bytes without any block, at the start of a call. -/
def sparseFile (size : Nat) : Growth where
  ip := { snapshot := false, size, blocks := 0, db := fun _ => 0, ib := fun _ => 0,
          extb := fun _ => 0 }
  ind := fun _ _ => 0
  allocs := []
  moves := []
  frees := []
  bufs := []

/-- Every call succeeds: data blocks are found at fragment 6, indirect blocks
at fragment 4, and no buffer has been mapped to the device. -/
def smoothCall : BallocCall where
  sync := false
  clrbuf := false
  metaonly := false
  buflocked := false
  fsfail := false
  alloc := fun n => .ok (if n < 0 then 4 else 6)
  promote := fun _ => ⟨true, none, true, none⟩
  grow := fun _ => ⟨true, none, true, none⟩
  valid := fun _ => true
  readErr := fun _ => none
  writeErr := fun _ => none
  phys := fun n => n
  incore := fun _ => none
  unwindErr := none

theorem allocOk_smoothCall : AllocOk tinyUmp smoothCall where
  alloc n b h := by
    obtain rfl := Except.ok.inj h
    show 0 < (if n < 0 then (4 : Int) else 6) ∧ (if n < 0 then (4 : Int) else 6) < 16
    split <;> decide

theorem ffsBalloc_coherent_iff_indirect :
    Coherent tinyUmp smoothCall 12 (sparseFile 0)
      (ffsBalloc tinyUmp smoothCall (sparseFile 0) 196608 16384).2 := by
  have hlbn : (tinyUmp.fs.lblkno 196608).toNat = 12 := by decide
  have hok : (ffsBalloc tinyUmp smoothCall (sparseFile 0) 196608 16384).1 = .ok () := by
    decide +kernel
  have h := ffsBalloc_coherent_iff tinyUmp smoothCall (sparseFile 0) _ 196608 16384
    allocOk_smoothCall rfl rfl (eq_mk_snd hok)
  rw [hlbn] at h
  exact h.mpr ⟨fun h => absurd h (by decide), fun h => absurd h (by decide)⟩

/-- The first block of an empty file: its address is 6, the stored pointer 0. -/
theorem not_ffsBalloc_coherent_new :
    AllocOk tinyUmp smoothCall ∧
      (ffsBalloc tinyUmp smoothCall (sparseFile 0) 0 16384).1 = .ok () ∧
      ¬ Coherent tinyUmp smoothCall 0 (sparseFile 0)
        (ffsBalloc tinyUmp smoothCall (sparseFile 0) 0 16384).2 := by
  refine ⟨allocOk_smoothCall, rfl, fun h => ?_⟩
  have h6 := h.granted 0 6 (.inr List.mem_cons_self)
  exact absurd h6 (by decide)

end UfsX.Proofs
