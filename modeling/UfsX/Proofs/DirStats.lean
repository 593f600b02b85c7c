import UfsX.Lib.First
import UfsX.Proofs.DirIndex
import UfsX.Proofs.DirScan

/-!
# `UfsX.Proofs.DirStats`: the free space that the hash table counts

`StatsOk` says that `dh_blkfree` counts the free words of each block, and that
`dh_firstfree` names the first block for each count, or none. With `IndexOk` it makes
`HashOk`, which every operation keeps: `add`, `remove`, `move`, `newblk` and
`dirtrunc` do to the entries what they say, or free the table, and never panic.

`ufsdirhash_findfree` then finds a slot like the one of the search loop
(`findfree_region`), and no entry begins at `ufsdirhash_enduseful` or later.
-/

set_option autoImplicit false

namespace UfsX.Proofs

open UfsX.Lib UfsX.Ufs

/-- The bytes that the entries of a block need. -/
def usedIn (b : Nat) (L : List Entry) : Nat :=
  (L.map fun p => if p.1 / DIRBLKSIZ = b then directsiz p.2.length else 0).sum

/-- The counts are those of a directory with the entries `L`. -/
structure StatsOk (dh : Dirhash) (L : List Entry) (size : Nat) : Prop where
  size_eq : size = dh.dirblks * DIRBLKSIZ
  nblk : dh.dirblks ≤ dh.nblk
  blkfree : ∀ b, b < dh.dirblks → DIRALIGN * dh.blkfree b + usedIn b L = DIRBLKSIZ
  firstfree : ∀ i, i ≤ DH_NFSTATS →
    IsFirst (fun b => blkfree2idx (dh.blkfree b) = i) dh.dirblks (dh.firstfree i)

/-- A hash table for a directory with the entries `L`. -/
structure HashOk (fnv : List UInt8 → Nat) (dh : Dirhash) (L : List Entry) (size : Nat) : Prop where
  index : IndexOk fnv dh L
  stats : StatsOk dh L size
  seqoff : -1 ≤ dh.seqoff

/-! ### The bytes in use -/

section UsedIn

variable {b : Nat} {L L' : List Entry}

@[simp] theorem usedIn_nil : usedIn b [] = 0 := rfl

@[simp] theorem usedIn_cons (o : Nat) (name : List UInt8) :
    usedIn b ((o, name) :: L)
      = (if o / DIRBLKSIZ = b then directsiz name.length else 0) + usedIn b L := by
  simp [usedIn]

@[simp] theorem usedIn_append : usedIn b (L ++ L') = usedIn b L + usedIn b L' := by
  simp [usedIn]

theorem usedIn_perm (h : L.Perm L') : usedIn b L = usedIn b L' := (h.map _).sum_nat

theorem usedIn_dvd : 4 ∣ usedIn b L := by
  induction L with
  | nil => exact Nat.dvd_zero 4
  | cons p L ih =>
      obtain ⟨o, name⟩ := p
      rw [usedIn_cons]
      refine Nat.dvd_add ?_ ih
      split
      · exact directsiz_dvd _
      · exact Nat.dvd_zero 4

theorem usedIn_eq_zero_iff : usedIn b L = 0 ↔ ∀ p ∈ L, p.1 / DIRBLKSIZ ≠ b := by
  induction L with
  | nil => simp
  | cons p L ih =>
      obtain ⟨o, name⟩ := p
      have hpos := eight_le_directsiz name.length
      rw [usedIn_cons, Nat.add_eq_zero_iff, ih, List.forall_mem_cons]
      refine and_congr_left fun _ => ?_
      split
      · next h => exact ⟨fun h0 => absurd h0 (by omega), fun hne => absurd h hne⟩
      · next h => exact ⟨fun _ => h, fun _ => rfl⟩

end UsedIn

/-! ### `ufsdirhash_adjfree` -/

theorem blkfree2idx_le (n : Nat) : blkfree2idx n ≤ DH_NFSTATS ∧ blkfree2idx n ≤ n := by
  unfold blkfree2idx
  split <;> omega

namespace StatsOk

variable {dh dh' : Dirhash} {L L' : List Entry} {size : Nat}

theorem perm (h : StatsOk dh L size) (hperm : L.Perm L') : StatsOk dh L' size :=
  ⟨h.size_eq, h.nblk, fun b hb => by rw [← usedIn_perm hperm]; exact h.blkfree b hb, h.firstfree⟩

/-- Only the counts matter. -/
theorem congr (h : StatsOk dh L size) (hblks : dh'.dirblks = dh.dirblks) (hnblk : dh'.nblk = dh.nblk)
    (hfree : dh'.blkfree = dh.blkfree) (hfirst : dh'.firstfree = dh.firstfree) :
    StatsOk dh' L size where
  size_eq := by rw [hblks]; exact h.size_eq
  nblk := by rw [hblks, hnblk]; exact h.nblk
  blkfree := by rw [hblks, hfree]; exact h.blkfree
  firstfree := by rw [hblks, hfree, hfirst]; exact h.firstfree

theorem block_lt (h : StatsOk dh L size) {o : Nat} (ho : o < size) : o / DIRBLKSIZ < dh.dirblks :=
  Nat.div_lt_of_lt_mul (by rw [Nat.mul_comm, ← h.size_eq]; exact ho)

/-- The free words of the block afterwards. -/
theorem free_after (h : StatsOk dh L size) {b : Nat} {diff : Int} (hb : b < dh.dirblks)
    (hle : usedIn b L' ≤ DIRBLKSIZ) (hdiff : diff = (usedIn b L : Int) - usedIn b L') :
    DIRALIGN * (((dh.blkfree b : Int) + diff.tdiv DIRALIGN) % 256).toNat + usedIn b L' = DIRBLKSIZ := by
  have hold := h.blkfree b hb
  obtain ⟨u, hu⟩ := usedIn_dvd (b := b) (L := L)
  obtain ⟨u', hu'⟩ := usedIn_dvd (b := b) (L := L')
  have hq : diff.tdiv DIRALIGN = (u : Int) - u' := by
    have hmul : diff = (DIRALIGN : Int) * ((u : Int) - u') := by
      unfold DIRALIGN
      omega
    rw [hmul]
    exact Int.mul_tdiv_cancel_left _ (by decide)
  rw [hq]
  unfold DIRALIGN DIRBLKSIZ at *
  omega

/-- The first blocks, once a block has gone from one count to another. -/
theorem firstfree_after (h : StatsOk dh L size) {b : Nat} (free : Nat) (hb : b < dh.dirblks)
    (hne : blkfree2idx (dh.blkfree b) ≠ blkfree2idx free) :
    let blkfree := Function.update dh.blkfree b free
    let ofidx := blkfree2idx (dh.blkfree b)
    let nfidx := blkfree2idx free
    let next := (List.range' (b + 1) (dh.dirblks - (b + 1))).find?
      fun i => blkfree2idx (blkfree i) = ofidx
    let removed :=
      if dh.firstfree ofidx = b then
        Function.update dh.firstfree ofidx (next.elim (-1) fun i => (i : Int))
      else dh.firstfree
    let firstfree :=
      if removed nfidx > b ∨ removed nfidx = -1 then Function.update removed nfidx b else removed
    ∀ i, i ≤ DH_NFSTATS → IsFirst (fun b' => blkfree2idx (blkfree b') = i) dh.dirblks (firstfree i) := by
  intro blkfree ofidx nfidx next removed firstfree i hi
  have hself : blkfree b = free := Function.update_self _ _ _
  have hother : ∀ b', b' ≠ b → blkfree b' = dh.blkfree b' := fun b' hb' => Function.update_of_ne hb' _ _
  -- `dh_firstfree` of the other counts than the two is not touched
  have hremoved : ∀ k, k ≠ ofidx → removed k = dh.firstfree k := by
    intro k hk
    change (if dh.firstfree ofidx = b then Function.update dh.firstfree ofidx _ else dh.firstfree) k = _
    split
    · exact Function.update_of_ne hk _ _
    · rfl
  have hfirstfree : ∀ k, k ≠ nfidx → firstfree k = removed k := by
    intro k hk
    change (if removed nfidx > b ∨ removed nfidx = -1 then Function.update removed nfidx b
      else removed) k = _
    split
    · exact Function.update_of_ne hk _ _
    · rfl
  have hold := h.firstfree i hi
  by_cases hin : i = nfidx
  · -- the block has gained this count
    have hval : firstfree i = if dh.firstfree i > b ∨ dh.firstfree i = -1 then (b : Int)
        else dh.firstfree i := by
      rw [hin, ← hremoved nfidx (Ne.symm hne)]
      change (if removed nfidx > b ∨ removed nfidx = -1 then Function.update removed nfidx b
        else removed) nfidx = _
      split
      · exact Function.update_self _ _ _
      · rfl
    rw [hval]
    refine hold.insert hb fun b' => ?_
    by_cases hbb : b' = b
    · rw [hbb, hself]
      exact iff_of_true hin.symm (.inr rfl)
    · rw [hother b' hbb]
      exact ⟨.inl, fun hor => hor.resolve_right hbb⟩
  · rw [hfirstfree i hin]
    by_cases hio : i = ofidx
    · -- the block has lost this count
      have hP : ∀ b', blkfree2idx (blkfree b') = i ↔ blkfree2idx (dh.blkfree b') = i ∧ b' ≠ b := by
        intro b'
        by_cases hbb : b' = b
        · rw [hbb, hself]
          exact iff_of_false (Ne.symm hin) fun hno => hno.2 rfl
        · rw [hother b' hbb]
          exact ⟨fun heq => ⟨heq, hbb⟩, And.left⟩
      subst hio
      by_cases hfirst : dh.firstfree ofidx = b
      · have hval : removed ofidx = next.elim (-1) fun i => (i : Int) := by
          change (if dh.firstfree ofidx = b then Function.update dh.firstfree ofidx _
            else dh.firstfree) ofidx = _
          rw [if_pos hfirst, Function.update_self]
        rw [hval]
        rw [hfirst] at hold
        exact hold.erase_first hP fun b' => decide_eq_true_iff
      · have hval : removed ofidx = dh.firstfree ofidx := by
          change (if dh.firstfree ofidx = b then Function.update dh.firstfree ofidx _
            else dh.firstfree) ofidx = _
          rw [if_neg hfirst]
        rw [hval]
        exact hold.erase_other hP hfirst
    · rw [hremoved i hio]
      refine hold.congr fun b' _ => ?_
      by_cases hbb : b' = b
      · rw [hbb, hself]
        exact iff_of_false (Ne.symm hin) (Ne.symm hio)
      · rw [hother b' hbb]

/-- The counts after the entries of one block have changed. -/
theorem adjfree (h : StatsOk dh L size) {o : Nat} (L' : List Entry) (diff : Int) (ho : o < size)
    (hother : ∀ b, b ≠ o / DIRBLKSIZ → usedIn b L' = usedIn b L)
    (hle : usedIn (o / DIRBLKSIZ) L' ≤ DIRBLKSIZ)
    (hdiff : diff = (usedIn (o / DIRBLKSIZ) L : Int) - usedIn (o / DIRBLKSIZ) L') :
    ∃ dh', dh.adjfree o diff = some dh' ∧ StatsOk dh' L' size
      ∧ ∃ blkfree firstfree, dh' = { dh with blkfree := blkfree, firstfree := firstfree } := by
  have hb := h.block_lt ho
  have hnb := Nat.lt_of_lt_of_le hb h.nblk
  have hfree := h.free_after hb hle hdiff
  unfold Dirhash.adjfree
  simp only [hb, hnb, and_self, if_true]
  generalize (((dh.blkfree (o / DIRBLKSIZ) : Int) + diff.tdiv DIRALIGN) % 256).toNat = free at hfree ⊢
  have hblk : ∀ b, b < dh.dirblks →
      DIRALIGN * Function.update dh.blkfree (o / DIRBLKSIZ) free b + usedIn b L' = DIRBLKSIZ := by
    intro b hb'
    by_cases hbo : b = o / DIRBLKSIZ
    · rw [hbo, Function.update_self]
      exact hfree
    · rw [Function.update_of_ne hbo, hother b hbo]
      exact h.blkfree b hb'
  split
  · next hidx =>
      refine ⟨_, rfl, ⟨h.size_eq, h.nblk, hblk, fun i hi => (h.firstfree i hi).congr fun b _ => ?_⟩, _, _, rfl⟩
      change blkfree2idx (Function.update dh.blkfree (o / DIRBLKSIZ) free b) = i ↔ _
      by_cases hbo : b = o / DIRBLKSIZ
      · rw [hbo, Function.update_self, ← hidx]
      · rw [Function.update_of_ne hbo]
  · next hidx =>
      exact ⟨_, rfl, ⟨h.size_eq, h.nblk, hblk, h.firstfree_after free hb hidx⟩, _, _, rfl⟩

/-- The entries stand in the directory. -/
theorem unused (h : StatsOk dh L size) {b : Nat} (hb : b < dh.dirblks)
    (hL : ∀ p ∈ L, p.1 / DIRBLKSIZ ≠ b) : dh.blkfree b = DIRBLKSIZ / DIRALIGN := by
  have hfree := h.blkfree b hb
  rw [usedIn_eq_zero_iff.mpr hL] at hfree
  unfold DIRALIGN DIRBLKSIZ at *
  omega

theorem unused_of_blkfree (h : StatsOk dh L size) {b : Nat} (hb : b < dh.dirblks)
    (hfree : dh.blkfree b = DIRBLKSIZ / DIRALIGN) : ∀ p ∈ L, p.1 / DIRBLKSIZ ≠ b := by
  refine usedIn_eq_zero_iff.mp ?_
  have hsum := h.blkfree b hb
  rw [hfree] at hsum
  unfold DIRALIGN DIRBLKSIZ at *
  omega

end StatsOk

/-! ### The operations -/

/-- The hash table of a directory, if it has one. Only directories of the new format
have one. -/
def HashOpt (fnv : List UInt8 → Nat) (ofs : Bool) (dirhash : Option Dirhash) (L : List Entry)
    (size : Nat) : Prop :=
  ∀ dh, dirhash = some dh → ofs = false ∧ HashOk fnv dh L size

/-- An operation that does not panic, and leaves the table in order or frees it. -/
def Gives (fnv : List UInt8 → Nat) (ofs : Bool) (r : Option (Option Dirhash)) (L : List Entry)
    (size : Nat) : Prop :=
  ∃ dirhash, r = some dirhash ∧ HashOpt fnv ofs dirhash L size

section Operations

variable {fnv : List UInt8 → Nat} {ofs : Bool} {dh dh' : Dirhash} {dirhash : Option Dirhash}
variable {L L' : List Entry} {size size' : Nat}

theorem HashOk.perm (h : HashOk fnv dh L size) (hperm : L.Perm L') : HashOk fnv dh L' size :=
  ⟨h.index.perm hperm, h.stats.perm hperm, h.seqoff⟩

theorem HashOpt.perm (h : HashOpt fnv ofs dirhash L size) (hperm : L.Perm L') :
    HashOpt fnv ofs dirhash L' size := fun dh hdh => ⟨(h dh hdh).1, (h dh hdh).2.perm hperm⟩

theorem hashOpt_none : HashOpt fnv ofs none L size := fun _ h => by cases h

theorem gives_freed : Gives fnv ofs (some none) L size := ⟨none, rfl, hashOpt_none⟩

theorem gives_some (h : HashOk fnv dh L size) : Gives fnv false (some (some dh)) L size :=
  ⟨some dh, rfl, fun _ h' => by cases h'; exact ⟨rfl, h⟩⟩

theorem gives_withHash (f : Dirhash → Option (Option Dirhash)) (h : HashOpt fnv ofs dirhash L size)
    (hf : ofs = false → ∀ dh, HashOk fnv dh L size → Gives fnv false (f dh) L' size') :
    Gives fnv ofs (withHash dirhash f) L' size' := by
  cases dirhash with
  | none => exact gives_freed
  | some dh =>
      obtain ⟨rfl, hok⟩ := h dh rfl
      exact hf rfl dh hok

theorem HashOk.add (h : HashOk fnv dh L size) {o : Nat} {name : List UInt8} (ho : o < size)
    (hnew : o ∉ L.map Prod.fst) (hle : usedIn (o / DIRBLKSIZ) ((o, name) :: L) ≤ DIRBLKSIZ) :
    Gives fnv false (dh.add fnv name o) ((o, name) :: L) size := by
  unfold Dirhash.add
  rw [if_pos (by rw [← h.stats.size_eq]; exact ho)]
  by_cases hfull : dh.hused ≥ dh.hlen * 3 / 4
  · rw [if_pos hfull]
    exact gives_freed
  · rw [if_neg hfull]
    obtain ⟨slot, hprobe, hslot, hneg, hreach⟩ := h.index.probe_free name
    have hroom : (occupied dh.entry DIRHASH_EMPTY dh.hlen).card + 1 < dh.hlen := by
      have hused := h.index.hused
      have hpos := h.index.hlen_pos
      omega
    have hindex := h.index.fill o name hslot hneg hnew hreach (.inl hroom)
    simp only [hprobe]
    generalize hd : ({ dh.setEntry slot o with
      hused := if dh.entry slot = DIRHASH_EMPTY then dh.hused + 1 else dh.hused } : Dirhash) = dh₁
      at hindex ⊢
    have hstats : StatsOk dh₁ L size := by
      subst hd
      exact h.stats.congr rfl rfl rfl rfl
    obtain ⟨dh₂, hadj, hstats₂, blkfree, firstfree, hframe⟩ := hstats.adjfree ((o, name) :: L)
      (-(directsiz name.length : Int)) ho
      (fun b hb => by rw [usedIn_cons, if_neg (Ne.symm hb), Nat.zero_add]) hle
      (by rw [usedIn_cons, if_pos rfl]; omega)
    rw [hadj]
    have hseq : dh₂.seqoff = dh.seqoff := by rw [hframe, ← hd]; rfl
    refine gives_some ⟨hindex.congr ?_ ?_ ?_, hstats₂, by rw [hseq]; exact h.seqoff⟩ <;> rw [hframe]

theorem HashOk.remove {o : Nat} {name : List UInt8} (h : HashOk fnv dh ((o, name) :: L) size)
    (ho : o < size) : ∃ dh', dh.remove fnv name o = some (some dh') ∧ HashOk fnv dh' L size := by
  obtain ⟨slot, hfind, hslot, hentry⟩ := h.index.findslot List.mem_cons_self
  obtain ⟨dh₁, hdel, hindex, entry, hused, hframe₁⟩ := h.index.delslot hslot hentry
  have hstats : StatsOk dh₁ ((o, name) :: L) size := by
    subst hframe₁
    exact h.stats.congr rfl rfl rfl rfl
  have hle := h.stats.blkfree _ (h.stats.block_lt ho)
  rw [usedIn_cons, if_pos rfl] at hle
  obtain ⟨dh₂, hadj, hstats₂, blkfree, firstfree, hframe₂⟩ := hstats.adjfree L
    (directsiz name.length : Int) ho
    (fun b hb => by rw [usedIn_cons, if_neg (Ne.symm hb), Nat.zero_add])
    (by omega) (by rw [usedIn_cons, if_pos rfl]; omega)
  have hseq : dh₂.seqoff = dh.seqoff := by rw [hframe₂, hframe₁]
  refine ⟨dh₂, ?_, hindex.congr ?_ ?_ ?_, hstats₂, by rw [hseq]; exact h.seqoff⟩
  · unfold Dirhash.remove
    rw [if_pos (by rw [← h.stats.size_eq]; exact ho), hfind]
    simp only [hdel, hadj]
    rfl
  all_goals rw [hframe₂]

theorem HashOk.move {o o' : Nat} {name : List UInt8} (h : HashOk fnv dh ((o, name) :: L) size)
    (hnew : o' ∉ L.map Prod.fst) (ho : o < size) (ho' : o' < size)
    (hblk : o' / DIRBLKSIZ = o / DIRBLKSIZ) :
    Gives fnv false (dh.move fnv name o o') ((o', name) :: L) size := by
  rw [h.stats.size_eq] at ho ho'
  obtain ⟨dh', hmove, hindex, entry, hframe⟩ := h.index.move hnew ho ho'
  rw [hmove]
  refine gives_some ⟨hindex, ?_, by rw [hframe]; exact h.seqoff⟩
  have hsame : ∀ b, usedIn b ((o', name) :: L) = usedIn b ((o, name) :: L) := by
    intro b
    rw [usedIn_cons, usedIn_cons, hblk]
  subst hframe
  refine ⟨h.stats.size_eq, h.stats.nblk, fun b hb => ?_, h.stats.firstfree⟩
  rw [hsame]
  exact h.stats.blkfree b hb

theorem HashOk.newblk (h : HashOk fnv dh L size) (hL : ∀ p ∈ L, p.1 < size) :
    Gives fnv false (dh.newblk size) L (size + DIRBLKSIZ) := by
  have hblk : size / DIRBLKSIZ = dh.dirblks := by
    rw [h.stats.size_eq]
    exact Nat.mul_div_cancel _ (by decide)
  unfold Dirhash.newblk
  rw [if_pos h.stats.size_eq]
  simp only [hblk]
  split
  · exact gives_freed
  · next hnblk =>
      refine gives_some ⟨h.index.congr rfl rfl rfl, ⟨?_, Nat.lt_of_not_le hnblk, ?_, ?_⟩, h.seqoff⟩
      · change size + DIRBLKSIZ = (dh.dirblks + 1) * DIRBLKSIZ
        rw [Nat.add_mul, Nat.one_mul, ← h.stats.size_eq]
      · intro b hb
        change DIRALIGN * Function.update dh.blkfree dh.dirblks (DIRBLKSIZ / DIRALIGN) b + usedIn b L = _
        by_cases hlast : b = dh.dirblks
        · rw [hlast, Function.update_self, usedIn_eq_zero_iff.mpr]
          · rfl
          · intro p hp heq
            exact absurd (h.stats.block_lt (hL p hp)) (by omega)
        · rw [Function.update_of_ne hlast]
          exact h.stats.blkfree b (by change b < dh.dirblks + 1 at hb; omega)
      · intro i hi
        have hold := h.stats.firstfree i hi
        have hsame : ∀ b, b < dh.dirblks →
            (blkfree2idx (Function.update dh.blkfree dh.dirblks (DIRBLKSIZ / DIRALIGN) b) = i
              ↔ blkfree2idx (dh.blkfree b) = i) := by
          intro b hb
          rw [Function.update_of_ne (Nat.ne_of_lt hb)]
        by_cases hlast : i = DH_NFSTATS
        · -- the new block is empty
          subst hlast
          have hval : (if dh.firstfree DH_NFSTATS = -1 then
              Function.update dh.firstfree DH_NFSTATS (dh.dirblks : Int) else dh.firstfree) DH_NFSTATS
              = if dh.firstfree DH_NFSTATS = -1 then (dh.dirblks : Int) else dh.firstfree DH_NFSTATS := by
            split
            · exact Function.update_self _ _ _
            · rfl
          simp only [hval]
          refine hold.snoc hsame ?_
          rw [Function.update_self]
          rfl
        · have hval : (if dh.firstfree DH_NFSTATS = -1 then
              Function.update dh.firstfree DH_NFSTATS (dh.dirblks : Int) else dh.firstfree) i
              = dh.firstfree i := by
            split
            · exact Function.update_of_ne hlast _ _
            · rfl
          simp only [hval]
          refine hold.snoc_not hsame ?_
          rw [Function.update_self]
          exact fun hno => hlast hno.symm

theorem HashOk.dirtrunc (h : HashOk fnv dh L size) {e : Nat} (hblk : DIRBLKSIZ ∣ e) (he : e ≤ size)
    (hL : ∀ p ∈ L, p.1 < e) : Gives fnv false (dh.dirtrunc e) L e := by
  obtain ⟨k, rfl⟩ := hblk
  have hhow : howmany (DIRBLKSIZ * k) DIRBLKSIZ = k := by
    unfold howmany DIRBLKSIZ
    omega
  have hk : k ≤ dh.dirblks := by
    have hsize := h.stats.size_eq
    unfold DIRBLKSIZ at *
    omega
  have hunused : ∀ b, k ≤ b → b < dh.dirblks → dh.blkfree b = DIRBLKSIZ / DIRALIGN := by
    intro b hb hb'
    refine h.stats.unused hb' fun p hp heq => ?_
    have hlt := hL p hp
    unfold DIRBLKSIZ at *
    omega
  unfold Dirhash.dirtrunc
  rw [if_pos (by rw [← h.stats.size_eq]; exact he), hhow]
  simp only
  split
  · exact gives_freed
  · -- what is left of `dh_firstfree` names blocks that stay
    have hfirst : ∀ i, i ≤ DH_NFSTATS → IsFirst (fun b => blkfree2idx (dh.blkfree b) = i) k
        ((if dh.firstfree DH_NFSTATS ≥ k then Function.update dh.firstfree DH_NFSTATS (-1)
          else dh.firstfree) i) := by
      intro i hi
      have hold := (h.stats.firstfree i hi).take hk
      by_cases hlast : i = DH_NFSTATS
      · subst hlast
        have hval : (if dh.firstfree DH_NFSTATS ≥ k then Function.update dh.firstfree DH_NFSTATS (-1)
            else dh.firstfree) DH_NFSTATS
            = if dh.firstfree DH_NFSTATS ≥ k then -1 else dh.firstfree DH_NFSTATS := by
          split
          · exact Function.update_self _ _ _
          · rfl
        rw [hval]
        exact hold
      · have hsame : (if dh.firstfree DH_NFSTATS ≥ k then Function.update dh.firstfree DH_NFSTATS (-1)
            else dh.firstfree) i = dh.firstfree i := by
          split
          · exact Function.update_of_ne hlast _ _
          · rfl
        -- the blocks that are cut off are empty
        have hlt : ¬ dh.firstfree i ≥ k := by
          intro hge
          obtain ⟨b, hb, hff, hidx⟩ := (h.stats.firstfree i hi).block (by omega)
          rw [hunused b (by omega) hb] at hidx
          exact hlast hidx.symm
        rw [if_neg hlt] at hold
        rw [hsame]
        exact hold
    rw [if_neg, if_neg]
    · exact gives_some ⟨h.index.congr rfl rfl rfl, ⟨Nat.mul_comm _ _, hk.trans h.stats.nblk,
        fun b hb => h.stats.blkfree b (Nat.lt_of_lt_of_le hb hk), hfirst⟩, h.seqoff⟩
    · rintro ⟨i, hi, hge⟩
      obtain ⟨b, hb, hff, -⟩ := (hfirst i (Nat.le_of_lt hi)).block (by omega)
      omega
    · rintro ⟨i, hi, hge, hne⟩
      exact hne (hunused i hge hi)

end Operations

/-! ### `ufsdirhash_enduseful` -/

/-- A search from the end. -/
theorem find?_reverse_range {P : Nat → Bool} (n : Nat) :
    match (List.range n).reverse.find? P with
    | none => ∀ i, i < n → P i = false
    | some i => i < n ∧ ∀ j, i < j → j < n → P j = false := by
  induction n with
  | zero => exact fun i hi => absurd hi (Nat.not_lt_zero i)
  | succ n ih =>
      rw [List.range_succ, List.reverse_append, List.reverse_singleton, List.singleton_append,
        List.find?_cons]
      cases hP : P n with
      | true => exact ⟨Nat.lt_succ_self n, fun j hj hj' => by omega⟩
      | false =>
          simp only
          split at ih
          · intro i hi
            obtain hlt | rfl := Nat.lt_succ_iff_lt_or_eq.mp hi
            · exact ih i hlt
            · exact hP
          · refine ⟨Nat.lt_succ_of_lt ih.1, fun j hj hj' => ?_⟩
            obtain hlt | rfl := Nat.lt_succ_iff_lt_or_eq.mp hj'
            · exact ih.2 j hj hlt
            · exact hP

/-- No entry begins at the end of what is useful, or later. -/
theorem StatsOk.enduseful {dh : Dirhash} {L : List Entry} {size : Nat} (h : StatsOk dh L size)
    (hL : ∀ p ∈ L, p.1 < size) :
    dh.enduseful = -1 ∨ ∃ e : Nat, dh.enduseful = e ∧ e ≤ size ∧ ∀ p ∈ L, p.1 < e := by
  unfold Dirhash.enduseful
  split
  · exact .inl rfl
  · right
    have hlast := find?_reverse_range (P := fun i => decide (dh.blkfree i ≠ DIRBLKSIZ / DIRALIGN))
      dh.dirblks
    revert hlast
    generalize (List.range dh.dirblks).reverse.find? _ = last
    intro hlast
    -- the entries are not in blocks that are free
    have hused : ∀ p ∈ L, ∃ b, b < dh.dirblks ∧ b = p.1 / DIRBLKSIZ
        ∧ dh.blkfree b ≠ DIRBLKSIZ / DIRALIGN := by
      intro p hp
      have hb := h.block_lt (hL p hp)
      exact ⟨_, hb, rfl, fun hfree => h.unused_of_blkfree hb hfree p hp rfl⟩
    cases last with
    | none =>
        refine ⟨0, rfl, Nat.zero_le _, fun p hp => ?_⟩
        obtain ⟨b, hb, -, hne⟩ := hused p hp
        exact absurd hne (of_decide_eq_false (hlast b hb))
    | some i =>
        refine ⟨(i + 1) * DIRBLKSIZ, rfl, ?_, fun p hp => ?_⟩
        · rw [h.size_eq]
          exact Nat.mul_le_mul_right _ hlast.1
        · obtain ⟨b, hb, hbp, hne⟩ := hused p hp
          have hle : b ≤ i := by
            by_contra hgt
            exact absurd hne (of_decide_eq_false (hlast.2 b (by omega) hb))
          unfold DIRBLKSIZ at *
          omega

/-! ### `ufsdirhash_findfree` -/

section Findfree

variable {ofs : Bool} {rs : List Rec} {m : Mem}

theorem usedIn_index {b o : Nat} (hok : ∀ r ∈ rs, r.Ok ofs) (hlo : b * DIRBLKSIZ ≤ o)
    (hhi : o + recsLen rs ≤ (b + 1) * DIRBLKSIZ) : usedIn b (index o rs) + freeOf rs = recsLen rs := by
  induction rs generalizing o with
  | nil => rfl
  | cons r rs ih =>
      have hr := hok r List.mem_cons_self
      have hpos := hr.pos
      have hsum := hr.used_add_free
      rw [recsLen_cons] at hhi ⊢
      have hrest := ih (o := o + r.reclen) (fun r' hr' => hok r' (List.mem_cons_of_mem _ hr'))
        (by omega) (by omega)
      have hblk : o / DIRBLKSIZ = b := by
        unfold DIRBLKSIZ at *
        omega
      rw [freeOf_cons, index]
      unfold Rec.used at hsum
      by_cases hino : r.ino = 0
      · have hdead : r.live = false := by simp [Rec.live, hino]
        rw [if_pos hino] at hsum
        rw [hdead, if_neg Bool.false_ne_true]
        omega
      · have hlive : r.live = true := by simp [Rec.live, hino]
        rw [if_neg hino] at hsum
        rw [hlive, if_pos rfl, usedIn_cons, if_pos hblk]
        omega

/-- The records of a block, and the bytes that are free there. -/
theorem exists_block {b : Nat} (hfits : Fits 0 rs) (hok : ∀ r ∈ rs, r.Ok ofs)
    (hb : (b + 1) * DIRBLKSIZ ≤ recsLen rs) :
    ∃ before blk after, rs = before ++ blk ++ after ∧ recsLen before = b * DIRBLKSIZ
      ∧ recsLen blk = DIRBLKSIZ ∧ usedIn b (index 0 rs) + freeOf blk = DIRBLKSIZ := by
  have hpos : ∀ r ∈ rs, 0 < r.reclen := fun r hr => (hok r hr).pos
  obtain ⟨before, rest, rfl, hbefore⟩ := exists_cut (e := b * DIRBLKSIZ) hfits hpos
    (Dvd.intro_left _ rfl) (Nat.zero_le _) (by rw [Nat.add_mul] at hb; omega)
  rw [Nat.zero_add] at hbefore
  obtain ⟨-, hfits'⟩ := fits_append.mp hfits
  rw [recsLen_append, hbefore] at hb
  rw [Nat.zero_add, hbefore] at hfits'
  obtain ⟨blk, after, rfl, hblk⟩ := exists_cut (e := (b + 1) * DIRBLKSIZ) hfits'
    (fun r hr => hpos r (List.mem_append_right _ hr)) (Dvd.intro_left _ rfl)
    (by rw [Nat.add_mul]; omega) hb
  have hlen : recsLen blk = DIRBLKSIZ := by
    rw [Nat.add_mul] at hblk
    omega
  refine ⟨before, blk, after, by simp, hbefore, hlen, ?_⟩
  have hmid : ∀ r ∈ blk, r.Ok ofs := fun r hr =>
    hok r (List.mem_append_right _ (List.mem_append_left _ hr))
  have hused := usedIn_index (o := b * DIRBLKSIZ) hmid (le_refl _) (le_of_eq hblk)
  -- the entries before and after are in other blocks
  have hzero₁ : usedIn b (index 0 before) = 0 := by
    refine usedIn_eq_zero_iff.mpr fun p hp heq => ?_
    have := index_range (fun r hr => hpos r (List.mem_append_left _ hr)) hp
    unfold DIRBLKSIZ at *
    omega
  have hzero₂ : usedIn b (index ((b + 1) * DIRBLKSIZ) after) = 0 := by
    refine usedIn_eq_zero_iff.mpr fun p hp heq => ?_
    have := index_range (fun r hr => hpos r
      (List.mem_append_right _ (List.mem_append_right _ hr))) hp
    unfold DIRBLKSIZ at *
    omega
  rw [index_append, index_append, usedIn_append, usedIn_append, hzero₁, hbefore, Nat.zero_add,
    Nat.zero_add, hblk, hzero₂]
  omega

/-- The first record with free space. -/
theorem findfreeFirst_eq {pos i fuel : Nat} (hholds : Holds false m (pos + i) rs)
    (hok : ∀ r ∈ rs, r.Ok false) (hlen : i + recsLen rs = DIRBLKSIZ) (hfree : 0 < freeOf rs)
    (hfuel : rs.length < fuel) :
    ∃ before after, rs = before ++ after ∧ freeOf before = 0
      ∧ findfreeFirst m pos fuel i = some (i + recsLen before) := by
  induction rs generalizing i fuel with
  | nil => exact absurd hfree (Nat.lt_irrefl 0)
  | cons r rs ih =>
      cases fuel with
      | zero => exact absurd hfuel (Nat.not_lt_zero _)
      | succ fuel =>
          obtain ⟨hr, hrest⟩ := hholds
          have hrok := hok r List.mem_cons_self
          have hpos := hrok.pos
          have hsum := hrok.used_add_free
          have hreclen := recOf_dReclen hr
          have hused : r.used = if dIno m (pos + i) = 0 then 0 else dirsiz false m (pos + i) := by
            rw [← hr, recOf_used]
          rw [recsLen_cons] at hlen
          unfold findfreeFirst
          simp only [hreclen]
          rw [if_pos (show i < DIRBLKSIZ by omega), if_neg (by omega)]
          split
          · exact ⟨[], r :: rs, rfl, rfl, rfl⟩
          · next hno =>
              have hz : r.free = 0 := by
                rw [not_or] at hno
                rw [if_neg hno.1] at hused
                omega
              rw [freeOf_cons, hz, Nat.zero_add] at hfree
              obtain ⟨before, after, heq, hbefore, hfind⟩ := ih (i := i + r.reclen)
                (by rw [← Nat.add_assoc]; exact hrest)
                (fun r' hr' => hok r' (List.mem_cons_of_mem _ hr')) (by omega) hfree
                (Nat.lt_of_succ_lt_succ hfuel)
              refine ⟨r :: before, after, by rw [heq]; rfl, by rw [freeOf_cons, hz, hbefore], ?_⟩
              rw [hfind, recsLen_cons, Nat.add_assoc]

/-- The records that are needed to get enough space. -/
theorem findfreeRange_eq {pos i : Nat} (needed acc fuel : Nat) (hholds : Holds false m (pos + i) rs)
    (hok : ∀ r ∈ rs, r.Ok false) (hlen : i + recsLen rs = DIRBLKSIZ) (hfree : needed ≤ acc + freeOf rs)
    (hfuel : rs.length < fuel) :
    ∃ mid after, rs = mid ++ after ∧ needed ≤ acc + freeOf mid
      ∧ findfreeRange m pos needed fuel i acc = some (i + recsLen mid, acc + freeOf mid) := by
  induction rs generalizing i acc fuel with
  | nil =>
      cases fuel with
      | zero => exact absurd hfuel (Nat.not_lt_zero _)
      | succ fuel =>
          refine ⟨[], [], rfl, hfree, ?_⟩
          unfold findfreeRange
          rw [recsLen_nil] at hlen
          rw [if_neg (by omega)]
          rfl
  | cons r rs ih =>
      cases fuel with
      | zero => exact absurd hfuel (Nat.not_lt_zero _)
      | succ fuel =>
          obtain ⟨hr, hrest⟩ := hholds
          have hrok := hok r List.mem_cons_self
          have hpos := hrok.pos
          have hsum := hrok.used_add_free
          have hreclen := recOf_dReclen hr
          have hused : r.used = if dIno m (pos + i) = 0 then 0 else dirsiz false m (pos + i) := by
            rw [← hr, recOf_used]
          rw [recsLen_cons] at hlen
          unfold findfreeRange
          simp only [hreclen, ← hused]
          split
          · rw [if_neg (by omega), show acc + r.reclen - r.used = acc + r.free from by omega]
            rw [freeOf_cons, ← Nat.add_assoc] at hfree
            obtain ⟨mid, after, heq, hmid, hrange⟩ := ih (i := i + r.reclen) (acc + r.free) fuel
              (by rw [← Nat.add_assoc]; exact hrest)
              (fun r' hr' => hok r' (List.mem_cons_of_mem _ hr')) (by omega) hfree
              (Nat.lt_of_succ_lt_succ hfuel)
            refine ⟨r :: mid, after, by rw [heq]; rfl, by rw [freeOf_cons]; omega, ?_⟩
            rw [hrange, recsLen_cons, freeOf_cons, Nat.add_assoc, Nat.add_assoc]
          · next hno => exact ⟨[], r :: rs, rfl, by simp; omega, rfl⟩

/-- A record takes at least a byte. -/
theorem length_le_recsLen (hok : ∀ r ∈ rs, r.Ok ofs) : rs.length ≤ recsLen rs := by
  induction rs with
  | nil => exact le_refl _
  | cons r rs ih =>
      have hpos := (hok r List.mem_cons_self).pos
      have hrest := ih fun r' hr' => hok r' (List.mem_cons_of_mem _ hr')
      rw [recsLen_cons, List.length_cons]
      omega

/-- The counts that `ufsdirhash_findfree` looks at, in its first loop. -/
def findfreeIdx (dh : Dirhash) (needed : Nat) : Option Nat :=
  (List.range' (howmany needed DIRALIGN) (DH_NFSTATS + 1 - howmany needed DIRALIGN)).find?
    fun i => dh.firstfree i ≠ -1

/-- A block with enough space has a slot. -/
theorem findfree_found {fnv : List UInt8 → Nat} {dh : Dirhash} {size needed idx : Nat}
    (hd : DirOk false m size rs) (h : HashOk fnv dh (index 0 rs) size) (hneeded : 0 < needed)
    (hfind : findfreeIdx dh needed = some idx) :
    ∃ so sz, ufsdirhashFindfree dh m needed = some (some (so, sz)) ∧ Region rs so sz needed := by
  unfold findfreeIdx at hfind
  unfold ufsdirhashFindfree
  simp only [hfind]
  have hmem := List.mem_of_find?_eq_some hfind
  rw [List.mem_range'_1] at hmem
  have hne : dh.firstfree idx ≠ -1 :=
    of_decide_eq_true (List.find?_some (p := fun i => decide (dh.firstfree i ≠ -1)) hfind)
  obtain ⟨b, hb, hff, hidx⟩ := (h.stats.firstfree idx (by omega)).block hne
  have hle := (blkfree2idx_le (dh.blkfree b)).2
  have hblkfree := h.stats.blkfree b hb
  simp only [hff, Int.toNat_natCast]
  rw [if_pos ⟨Nat.lt_of_lt_of_le hb h.stats.nblk, by omega⟩]
  obtain ⟨before, blk, after, hrs, hbefore, hlen, hfree⟩ := exists_block (b := b) hd.fits hd.recs
    (by
      rw [← hd.size_eq, h.stats.size_eq]
      exact Nat.mul_le_mul_right _ hb)
  have henough : needed ≤ freeOf blk := by
    unfold howmany DIRALIGN at hmem
    unfold DIRALIGN DIRBLKSIZ at *
    omega
  -- the records of the block
  have hholds := hd.holds
  rw [hrs] at hholds
  have hblk : Holds false m (b * DIRBLKSIZ + 0) blk := by
    have hcut := (holds_append.mp (holds_append.mp hholds).1).2
    rw [hbefore, Nat.zero_add] at hcut
    rw [Nat.add_zero]
    exact hcut
  have hok : ∀ r ∈ blk, r.Ok false := fun r hr => hd.recs r (by rw [hrs]; simp [hr])
  have hfuel : blk.length < DIRBLKSIZ + 1 := by
    have := length_le_recsLen hok
    omega
  obtain ⟨blk₁, rest, rfl, hzero, hfirst⟩ := findfreeFirst_eq hblk hok (by omega) (by omega) hfuel
  rw [freeOf_append, hzero, Nat.zero_add] at henough
  rw [recsLen_append] at hlen
  rw [holds_append, Nat.add_zero] at hblk
  rw [List.length_append] at hfuel
  obtain ⟨mid, rest', rfl, hmid, hrange⟩ := findfreeRange_eq (i := recsLen blk₁) needed 0
    (DIRBLKSIZ + 1) hblk.2
    (fun r hr => hok r (List.mem_append_right _ hr)) hlen (by omega) (by omega)
  rw [recsLen_append] at hlen
  rw [Nat.zero_add] at hmid hrange
  rw [hfirst]
  simp only [Nat.zero_add, hrange]
  rw [if_neg (by omega), if_neg (by omega), if_neg (by omega)]
  refine ⟨_, _, rfl, before ++ blk₁, mid, rest' ++ after, by rw [hrs]; simp, ?_, ?_, ?_, ?_, hmid⟩
  · rw [recsLen_append, hbefore]
  · omega
  · unfold DIRBLKSIZ at *
    omega
  · rintro rfl
    rw [freeOf_nil] at hmid
    omega

/-- The slot that the hash table finds. -/
theorem findfree_region {fnv : List UInt8 → Nat} {dh : Dirhash} {size needed : Nat}
    (hd : DirOk false m size rs) (h : HashOk fnv dh (index 0 rs) size) (hneeded : 0 < needed) :
    ufsdirhashFindfree dh m needed = some none
      ∨ ∃ so sz, ufsdirhashFindfree dh m needed = some (some (so, sz)) ∧ Region rs so sz needed := by
  cases hfind : findfreeIdx dh needed with
  | none =>
      left
      unfold findfreeIdx at hfind
      unfold ufsdirhashFindfree
      simp only [hfind]
  | some idx => exact .inr (findfree_found hd h hneeded hfind)

end Findfree

end UfsX.Proofs
