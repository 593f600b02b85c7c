import UfsX.Ufs.LookupRdonly
import UfsX.Proofs.Consistent
import UfsX.Proofs.LookupIno

/-!
# `UfsX.Proofs.LookupRdonly`: the linear search finds what is there

`records` is what can be reached of a directory with arbitrary contents: in each directory block,
the records from its start on, each found with the length of the one before, up to a mangled one.

The loop, from a record in the middle of a block on, goes over `remaining` and ends at the first
record that has the name (`scanLoop_spec`). The proof is by induction on the number of rounds, and the
invariant says where the record at `i_offset` is in the buffers (`Positioned`) and that the slot
lies in the block of that record (`SlotOk`). A search from a cached offset is two such
loops, and goes over `searchOrder`.
-/

set_option autoImplicit false

namespace UfsX.Proofs.LookupRdonly

open UfsX.Ufs hiding Scan ScanEnd Found scanLoop
open UfsX.Lib UfsX.Ufs.LookupRdonly

/-! ### What can be reached -/

section Reach

variable (arg : Arg)

/-! The record at an offset of the directory. -/

def mangledAt (o : Nat) : Bool := mangled arg (arg.buf (o / arg.fs.bsize)) (o % arg.fs.bsize)

def named (o : Nat) : Bool := hasName arg (arg.buf (o / arg.fs.bsize)) (o % arg.fs.bsize)

def whiteoutAt (o : Nat) : Bool := isWhiteout arg (arg.buf (o / arg.fs.bsize)) (o % arg.fs.bsize)

def inoAt (o : Nat) : Nat := dIno (arg.buf (o / arg.fs.bsize)) (o % arg.fs.bsize)

def nameAt (o : Nat) : List UInt8 := dName arg.ofs (arg.buf (o / arg.fs.bsize)) (o % arg.fs.bsize)

/-- The offset of the record after the one at `o`. -/
def next (o : Nat) : Nat := o + dReclen (arg.buf (o / arg.fs.bsize)) (o % arg.fs.bsize)

/-- The records of a block that are reached from offset `o` on, at most `fuel` of them. -/
def chain : Nat → Nat → List Nat
  | 0, _ => []
  | fuel + 1, o =>
      if mangledAt arg o then []
      else if next arg o % DIRBLKSIZ = 0 then [o]
      else o :: chain fuel (next arg o)

/-- The records of the directory blocks from `k` to `n`. -/
def blocks (k n : Nat) : List Nat := (List.range' k (n - k)).flatMap fun k => chain arg DIRBLKSIZ (DIRBLKSIZ * k)

/-- The records that can be reached, block by block. -/
def records : List Nat := blocks arg 0 (roundupBlk arg.size / DIRBLKSIZ)

/-- What a loop up to the end of block `n` has before it at offset `o`. -/
def remaining (n o : Nat) : List Nat :=
  if o < DIRBLKSIZ * n then chain arg DIRBLKSIZ o ++ blocks arg (o / DIRBLKSIZ + 1) n else []

/-- The block that a search with this `i_diroff` starts with. -/
def startBlock (idiroff : Int) : Nat :=
  if arg.nameiop ≠ .lookup ∨ idiroff = 0 ∨ toU64 idiroff ≥ arg.size then 0 else idiroff.toNat / DIRBLKSIZ

/-- The number of blocks that a `doff_t` makes of the size. -/
def endBlock : Nat := (toI32 (roundupBlk arg.size)).toNat / DIRBLKSIZ

/-- The records in the order in which a search looks at them. -/
def searchOrder (idiroff : Int) : List Nat :=
  blocks arg (startBlock arg idiroff) (endBlock arg) ++ blocks arg 0 (startBlock arg idiroff)

end Reach

/-- A multiple of `DIRBLKSIZ` in a `doff_t`. -/
structure IsDiroff (idiroff : Int) : Prop where
  lower : -2 ^ 31 ≤ idiroff
  upper : idiroff < 2 ^ 31
  dvd : (DIRBLKSIZ : Int) ∣ idiroff

/-- The rounded size is a `doff_t`. -/
def FitsDoff (arg : Arg) : Prop := roundupBlk arg.size < 2 ^ 31

/-- No two entries have the same name. -/
def DistinctNames (arg : Arg) : Prop :=
  ∀ o ∈ records arg, ∀ o' ∈ records arg, inoAt arg o ≠ 0 → inoAt arg o' ≠ 0 → nameAt arg o = nameAt arg o' → o = o'

/-- An entry is found if and only if there is one. -/
def Finds (arg : Arg) (found : LookupRdonly.Found) : Prop :=
  (∃ ino, found = .found ino) ↔ ∃ o ∈ records arg, named arg o = true ∧ whiteoutAt arg o = false

/-- What a search with this `i_diroff` comes to. -/
structure SearchOk (arg : Arg) (idiroff : Int) (found : LookupRdonly.Found) (reads : List Nat) : Prop where
  reads_lt : ∀ o ∈ reads, o < roundupBlk arg.size
  /-- The place for a new entry is in one block. -/
  slot : arg.nameiop = .create → ∀ offset count endoff, found = .ejustreturn offset count endoff →
    offset % DIRBLKSIZ + count ≤ DIRBLKSIZ
  /-- A look-up ends in one of two ways. -/
  answers : arg.nameiop = .lookup → found = .enoent ∨ ∃ ino, found = .found ino
  /-- The first record with the name decides. -/
  first : arg.nameiop = .lookup → FitsDoff arg → ∀ ino, found = .found ino ↔
    ∃ o, (searchOrder arg idiroff).find? (named arg) = some o ∧ whiteoutAt arg o = false ∧ inoAt arg o = ino
  finds : arg.nameiop = .lookup → FitsDoff arg →
    (∀ o ∈ records arg, named arg o = true → whiteoutAt arg o = false) → Finds arg found

/-! ### Blocks and offsets -/

section Offsets

variable {arg : Arg} {n o : Nat}

theorem reclen_bounds (h : mangledAt arg o = false) : o < next arg o ∧ next arg o ≤ DIRBLKSIZ * (o / DIRBLKSIZ + 1) := by
  have hmod : o % arg.fs.bsize % DIRBLKSIZ = o % DIRBLKSIZ := Nat.mod_mod_of_dvd o arg.bsize_dvd
  simp only [mangledAt, mangled, hmod, Bool.or_eq_false_iff, decide_eq_false_iff_not] at h
  obtain ⟨⟨hpos, hle⟩, -⟩ := h
  have hdiv : DIRBLKSIZ * (o / DIRBLKSIZ) + o % DIRBLKSIZ = o := Nat.div_add_mod o DIRBLKSIZ
  have hlt : o % DIRBLKSIZ < DIRBLKSIZ := Nat.mod_lt o (by decide)
  simp only [next, Nat.mul_add]
  omega

theorem div_of_within {d : Nat} (hle : o ≤ d) (hlt : d < DIRBLKSIZ * (o / DIRBLKSIZ + 1)) : d / DIRBLKSIZ = o / DIRBLKSIZ := by
  simp only [DIRBLKSIZ] at hlt ⊢
  omega

/-- A chain has no more records than bytes. -/
theorem chain_fuel {fuel : Nat} (h : DIRBLKSIZ - o % DIRBLKSIZ ≤ fuel) : chain arg fuel o = chain arg DIRBLKSIZ o := by
  have hcommon : ∀ f f' o, DIRBLKSIZ - o % DIRBLKSIZ ≤ f → DIRBLKSIZ - o % DIRBLKSIZ ≤ f' → chain arg f o = chain arg f' o := by
    intro f
    induction f with
    | zero =>
        intro f' o hf hf'
        have hlt : o % DIRBLKSIZ < DIRBLKSIZ := Nat.mod_lt o (by decide)
        omega
    | succ f ih =>
        intro f' o hf hf'
        have hlt : o % DIRBLKSIZ < DIRBLKSIZ := Nat.mod_lt o (by decide)
        cases f' with
        | zero => omega
        | succ f' =>
            simp only [chain]
            by_cases hm : mangledAt arg o
            · simp [hm]
            · by_cases hn : next arg o % DIRBLKSIZ = 0
              · simp [hm, hn]
              · obtain ⟨hgt, hle⟩ := reclen_bounds (by simpa using hm)
                have hroom : DIRBLKSIZ - next arg o % DIRBLKSIZ < DIRBLKSIZ - o % DIRBLKSIZ := by
                  simp only [DIRBLKSIZ] at hle hn ⊢
                  omega
                simp only [hm, hn, if_false, Bool.false_eq_true]
                rw [ih f' (next arg o) (by omega) (by omega)]
  exact hcommon fuel DIRBLKSIZ o h (Nat.sub_le _ _)

theorem blocks_cons {k : Nat} (h : k < n) : blocks arg k n = chain arg DIRBLKSIZ (DIRBLKSIZ * k) ++ blocks arg (k + 1) n := by
  have hlen : n - k = (n - (k + 1)) + 1 := by omega
  simp only [blocks]
  rw [hlen, List.range'_succ, List.flatMap_cons]

theorem blocks_nil {k : Nat} (h : n ≤ k) : blocks arg k n = [] := by
  simp [blocks, Nat.sub_eq_zero_of_le h]

theorem blocks_append {k m : Nat} (hk : k ≤ m) (hm : m ≤ n) : blocks arg k n = blocks arg k m ++ blocks arg m n := by
  have hlen : n - k = (m - k) + (n - m) := by omega
  have hmid : k + (m - k) = m := by omega
  simp only [blocks, ← List.flatMap_append]
  rw [hlen, ← List.range'_append_1, hmid]

theorem remaining_block (k : Nat) : remaining arg n (DIRBLKSIZ * k) = blocks arg k n := by
  have hdiv : DIRBLKSIZ * k / DIRBLKSIZ = k := Nat.mul_div_cancel_left k (by decide)
  by_cases h : k < n
  · have hlt : DIRBLKSIZ * k < DIRBLKSIZ * n := Nat.mul_lt_mul_of_pos_left h (by decide)
    rw [remaining, if_pos hlt, hdiv, blocks_cons h]
  · have hle : ¬ DIRBLKSIZ * k < DIRBLKSIZ * n := by simp only [DIRBLKSIZ]; omega
    rw [remaining, if_neg hle, blocks_nil (by omega)]

theorem chain_eq : chain arg DIRBLKSIZ o = if mangledAt arg o then []
    else if next arg o % DIRBLKSIZ = 0 then [o] else o :: chain arg (DIRBLKSIZ - 1) (next arg o) := rfl

/-- Past a mangled record the search is at the next block. -/
theorem remaining_mangled (ho : o < DIRBLKSIZ * n) (h : mangledAt arg o = true) :
    remaining arg n o = remaining arg n (o + (DIRBLKSIZ - o % DIRBLKSIZ)) := by
  have hend : o + (DIRBLKSIZ - o % DIRBLKSIZ) = DIRBLKSIZ * (o / DIRBLKSIZ + 1) := by
    simp only [DIRBLKSIZ]
    omega
  rw [hend, remaining_block, remaining, if_pos ho, chain_eq, if_pos h, List.nil_append]

theorem remaining_record (ho : o < DIRBLKSIZ * n) (h : mangledAt arg o = false) :
    remaining arg n o = o :: remaining arg n (next arg o) := by
  obtain ⟨hgt, hle⟩ := reclen_bounds h
  have hchain : chain arg DIRBLKSIZ o
      = if next arg o % DIRBLKSIZ = 0 then [o] else o :: chain arg (DIRBLKSIZ - 1) (next arg o) := by
    rw [chain_eq, if_neg (by simp [h])]
  by_cases hn : next arg o % DIRBLKSIZ = 0
  · -- The record is the last of its block.
    have hend : next arg o = DIRBLKSIZ * (o / DIRBLKSIZ + 1) := by
      simp only [DIRBLKSIZ] at hle hn ⊢
      omega
    rw [hend, remaining_block, remaining, if_pos ho, hchain, if_pos hn, List.singleton_append]
  · have hlt : next arg o < DIRBLKSIZ * (o / DIRBLKSIZ + 1) := by
      simp only [DIRBLKSIZ] at hle hn ⊢
      omega
    have hdiv : next arg o / DIRBLKSIZ = o / DIRBLKSIZ := div_of_within hgt.le hlt
    have hon : next arg o < DIRBLKSIZ * n := by
      simp only [DIRBLKSIZ] at hlt ho ⊢
      omega
    have hfuel : chain arg (DIRBLKSIZ - 1) (next arg o) = chain arg DIRBLKSIZ (next arg o) :=
      chain_fuel (by simp only [DIRBLKSIZ] at hn ⊢; omega)
    rw [remaining, if_pos ho, remaining, if_pos hon, hchain, if_neg hn, hfuel, hdiv, List.cons_append]

end Offsets

/-! ### The search loop -/

section Loop

variable {arg : Arg} {n : Nat} {scan : Scan}

/-- Where the record at `i_offset` is, unless the next round reads its block first. -/
def Positioned (arg : Arg) (scan : Scan) : Prop :=
  scan.ioffset % arg.fs.bsize = 0
    ∨ scan.bp = scan.ioffset / arg.fs.bsize ∧ scan.entryoffsetinblock = scan.ioffset % arg.fs.bsize

/-- The slot, before the record at `o` is looked at. Free space is counted in the block of `o`. -/
def SlotOk (slot : Slot) (o : Nat) : Prop :=
  ∀ s ∈ slot.offset, if slot.status = .none then o % DIRBLKSIZ = 0 ∨ s ≤ o ∧ s / DIRBLKSIZ = o / DIRBLKSIZ
    else s % DIRBLKSIZ + slot.size ≤ DIRBLKSIZ

/-- The scan is at a record, which is in its buffer. -/
structure AtRecord (arg : Arg) (scan : Scan) : Prop where
  bp : scan.bp = scan.ioffset / arg.fs.bsize
  index : scan.entryoffsetinblock = scan.ioffset % arg.fs.bsize
  valid : mangledAt arg scan.ioffset = false

/-- The end of a loop over the records `os`, of which it looks at none from `bound` on. -/
def EndsWith (arg : Arg) (os : List Nat) (bound : Nat) (reads : List Nat) : ScanEnd → Prop
  | .entry scan =>
      os.find? (named arg) = some scan.ioffset ∧ AtRecord arg scan ∧ SlotOk scan.slot (next arg scan.ioffset)
        ∧ ∀ o ∈ scan.reads, o ∈ reads ∨ o < bound
  | .nothing scan =>
      os.find? (named arg) = none ∧ SlotOk scan.slot 0 ∧ ∀ o ∈ scan.reads, o ∈ reads ∨ o < bound

theorem positioned_advance {d bp eo : Nat} (hle : scan.ioffset + d ≤ DIRBLKSIZ * (scan.ioffset / DIRBLKSIZ + 1))
    (hbp : bp = scan.ioffset / arg.fs.bsize) (heo : eo = scan.ioffset % arg.fs.bsize) {scan' : Scan}
    (ho' : scan'.ioffset = scan.ioffset + d) (hbp' : scan'.bp = bp) (heo' : scan'.entryoffsetinblock = eo + d) :
    Positioned arg scan' := by
  obtain ⟨q, hq⟩ := arg.bsize_dvd
  by_cases hmod : (scan.ioffset + d) % arg.fs.bsize = 0
  · exact .inl (ho' ▸ hmod)
  · right
    -- The next record is in the block of this one, and so in the same buffer.
    have hdivmod : arg.fs.bsize * (scan.ioffset / arg.fs.bsize) + scan.ioffset % arg.fs.bsize = scan.ioffset :=
      Nat.div_add_mod _ _
    rcases Nat.eq_zero_or_pos arg.fs.bsize with h0 | hpos
    · rw [ho', hbp', heo', hbp, heo, h0]
      simp
    · have hlt : scan.ioffset % arg.fs.bsize < arg.fs.bsize := Nat.mod_lt _ hpos
      have hsub : scan.ioffset % arg.fs.bsize + d ≤ arg.fs.bsize := by
        have hmm : scan.ioffset % arg.fs.bsize % DIRBLKSIZ = scan.ioffset % DIRBLKSIZ :=
          Nat.mod_mod_of_dvd _ arg.bsize_dvd
        generalize scan.ioffset % arg.fs.bsize = e at hmm hlt ⊢
        simp only [DIRBLKSIZ] at hle hq hmm
        omega
      have hne : scan.ioffset % arg.fs.bsize + d ≠ arg.fs.bsize := by
        intro heq
        have hsum : scan.ioffset + d = arg.fs.bsize * (scan.ioffset / arg.fs.bsize + 1) := by
          rw [Nat.mul_add]
          omega
        exact hmod (by rw [hsum]; exact Nat.mul_mod_right _ _)
      have hsum : scan.ioffset + d = arg.fs.bsize * (scan.ioffset / arg.fs.bsize) + (scan.ioffset % arg.fs.bsize + d) := by
        omega
      have hsmall : scan.ioffset % arg.fs.bsize + d < arg.fs.bsize := by omega
      constructor
      · rw [ho', hbp', hbp, hsum, Nat.mul_add_div hpos, Nat.div_eq_of_lt hsmall, Nat.add_zero]
      · rw [ho', heo', heo, hsum, Nat.mul_add_mod, Nat.mod_eq_of_lt hsmall]

theorem slotOk_zero {slot : Slot} {o : Nat} (h : SlotOk slot o) : SlotOk slot 0 := by
  intro s hs
  by_cases hnone : slot.status = .none
  · rw [if_pos hnone]
    exact .inl rfl
  · have hsize := h s hs
    rw [if_neg hnone] at hsize ⊢
    exact hsize

theorem slotOk_reset {slot : Slot} {o eo : Nat} (h : SlotOk slot o) (hmod : eo % DIRBLKSIZ = o % DIRBLKSIZ) :
    ∀ s ∈ (resetSlot slot eo).offset, if slot.status = .none then s ≤ o ∧ s / DIRBLKSIZ = o / DIRBLKSIZ
      else s % DIRBLKSIZ + slot.size ≤ DIRBLKSIZ := by
  intro s hs
  by_cases hreset : slot.status = .none ∧ eo % DIRBLKSIZ = 0
  · simp [resetSlot, hreset] at hs
  · rw [resetSlot, if_neg hreset] at hs
    have hok := h s hs
    by_cases hnone : slot.status = .none
    · rw [if_pos hnone] at hok ⊢
      exact hok.resolve_left fun h0 => hreset ⟨hnone, hmod.trans h0⟩
    · rw [if_neg hnone] at hok ⊢
      exact hok

theorem resetSlot_keeps (slot : Slot) (eo : Nat) :
    (resetSlot slot eo).status = slot.status ∧ (resetSlot slot eo).size = slot.size := by
  unfold resetSlot
  split <;> exact ⟨rfl, rfl⟩

theorem slotOk_skip {slot : Slot} {o eo : Nat} (h : SlotOk slot o) (hmod : eo % DIRBLKSIZ = o % DIRBLKSIZ) :
    SlotOk (resetSlot slot eo) (o + (DIRBLKSIZ - o % DIRBLKSIZ)) := by
  obtain ⟨hstatus, hsize⟩ := resetSlot_keeps slot eo
  intro s hs
  have hok := slotOk_reset h hmod s hs
  rw [hstatus, hsize]
  by_cases hnone : slot.status = .none
  · rw [if_pos hnone]
    left
    simp only [DIRBLKSIZ]
    omega
  · rw [if_neg hnone] at hok ⊢
    exact hok

/-- A record of a block leaves the slot in the block. -/
theorem slotOk_take {slot : Slot} {o eo reclen slotneeded : Nat} {size : Int} (h : SlotOk slot o)
    (hmod : eo % DIRBLKSIZ = o % DIRBLKSIZ) (hle : o + reclen ≤ DIRBLKSIZ * (o / DIRBLKSIZ + 1)) :
    SlotOk (takeSlot (resetSlot slot eo) slotneeded o reclen size) (o + reclen) := by
  have hreset := slotOk_reset h hmod
  obtain ⟨hstatus, hsize⟩ := resetSlot_keeps slot eo
  -- The place from which free space is counted, which may be this record.
  have hgetD : slot.status = .none → (resetSlot slot eo).offset.getD o ≤ o
      ∧ (resetSlot slot eo).offset.getD o / DIRBLKSIZ = o / DIRBLKSIZ := by
    intro hnone
    cases hoff : (resetSlot slot eo).offset with
    | none => exact ⟨le_refl o, rfl⟩
    | some s =>
        have hs := hreset s hoff
        rw [if_pos hnone] at hs
        exact hs
  have hnext : ∀ s, s ≤ o → s / DIRBLKSIZ = o / DIRBLKSIZ →
      (o + reclen) % DIRBLKSIZ = 0 ∨ s ≤ o + reclen ∧ s / DIRBLKSIZ = (o + reclen) / DIRBLKSIZ := by
    intro s hs hdiv
    simp only [DIRBLKSIZ] at hdiv hle ⊢
    omega
  have hkeep : SlotOk (resetSlot slot eo) (o + reclen) := by
    intro s hs
    have hok := hreset s hs
    rw [hstatus, hsize]
    by_cases hnone : slot.status = .none
    · rw [if_pos hnone] at hok ⊢
      exact hnext s hok.1 hok.2
    · rw [if_neg hnone] at hok ⊢
      exact hok
  unfold takeSlot
  by_cases hskip : (resetSlot slot eo).status = .found ∨ size ≤ 0
  · rw [if_pos hskip]
    exact hkeep
  rw [if_neg hskip]
  by_cases hlarge : (slotneeded : Int) ≤ size
  · rw [if_pos hlarge]
    intro s hs
    simp only [Option.mem_def, Option.some.injEq] at hs
    subst hs
    rw [if_neg (by simp)]
    simp only [DIRBLKSIZ] at hle ⊢
    omega
  rw [if_neg hlarge]
  by_cases hnone : (resetSlot slot eo).status = .none
  · obtain ⟨hs, hdiv⟩ := hgetD (hstatus ▸ hnone)
    simp only [if_pos hnone]
    generalize (resetSlot slot eo).offset.getD o = slotoffset at hs hdiv ⊢
    split
    · -- COMPACT: from the first free space of the block to the end of this record.
      intro s hs'
      simp only [Option.mem_def, Option.some.injEq] at hs'
      subst hs'
      rw [if_neg (by simp)]
      simp only [DIRBLKSIZ] at hle hdiv ⊢
      omega
    · intro s hs'
      simp only [Option.mem_def, Option.some.injEq] at hs'
      subst hs'
      rw [if_pos hnone]
      exact hnext _ hs hdiv
  · rw [if_neg hnone]
    exact hkeep

theorem EndsWith.mono {os : List Nat} {bound bound' : Nat} {reads reads' : List Nat} {e : ScanEnd}
    (h : EndsWith arg os bound' reads' e) (hb : bound' ≤ bound) (hr : ∀ o ∈ reads', o ∈ reads ∨ o < bound) :
    EndsWith arg os bound reads e := by
  have hreads : ∀ s : LookupRdonly.Scan, (∀ o ∈ s.reads, o ∈ reads' ∨ o < bound') → ∀ o ∈ s.reads, o ∈ reads ∨ o < bound := by
    intro s hs o ho
    rcases hs o ho with hold | hlt
    · exact hr o hold
    · exact .inr (by omega)
  cases e with
  | entry s => exact ⟨h.1, h.2.1, h.2.2.1, hreads s h.2.2.2⟩
  | nothing s => exact ⟨h.1, h.2.1, hreads s h.2.2⟩

theorem EndsWith.prepend {os os' : List Nat} {bound : Nat} {reads : List Nat} {e : ScanEnd}
    (h : EndsWith arg os bound reads e) (hne : os'.find? (named arg) = none) : EndsWith arg (os' ++ os) bound reads e := by
  have hfind : (os' ++ os).find? (named arg) = os.find? (named arg) := by rw [List.find?_append, hne, Option.none_or]
  cases e with
  | entry s => exact ⟨hfind.trans h.1, h.2⟩
  | nothing s => exact ⟨hfind.trans h.1, h.2⟩

theorem scanLoop_spec {endsearch : Int} (hend : ∀ o : Nat, (o : Int) < endsearch ↔ o < DIRBLKSIZ * n) :
    ∀ fuel scan, Positioned arg scan → SlotOk scan.slot scan.ioffset → DIRBLKSIZ * n - scan.ioffset < fuel →
      ∃ e, scanLoop arg endsearch fuel scan = some e
        ∧ EndsWith arg (remaining arg n scan.ioffset) (DIRBLKSIZ * n) scan.reads e := by
  intro fuel
  induction fuel with
  | zero =>
      intro scan hpos hslot hfuel
      omega
  | succ fuel ih =>
      intro scan hpos hslot hfuel
      rw [scanLoop]
      by_cases hlt : (scan.ioffset : Int) < endsearch
      · have ho : scan.ioffset < DIRBLKSIZ * n := (hend scan.ioffset).mp hlt
        -- After `UFS_BLKATOFF`, if there is one, `bp` and the index are those of the record.
        have hbp : (if scan.ioffset % arg.fs.bsize = 0 then scan.ioffset / arg.fs.bsize else scan.bp)
            = scan.ioffset / arg.fs.bsize := by
          split
          · rfl
          · next hne => exact (hpos.resolve_left hne).1
        have heo : (if scan.ioffset % arg.fs.bsize = 0 then 0 else scan.entryoffsetinblock)
            = scan.ioffset % arg.fs.bsize := by
          split
          · next h0 => exact h0.symm
          · next hne => exact (hpos.resolve_left hne).2
        have hread : scan.ioffset / arg.fs.bsize * arg.fs.bsize + scan.ioffset % arg.fs.bsize = scan.ioffset :=
          Nat.div_add_mod' _ _
        have hmod : scan.ioffset % arg.fs.bsize % DIRBLKSIZ = scan.ioffset % DIRBLKSIZ :=
          Nat.mod_mod_of_dvd _ arg.bsize_dvd
        have hreads : ∀ o ∈ scan.reads ++ [scan.ioffset], o ∈ scan.reads ∨ o < DIRBLKSIZ * n := by
          intro o hmem
          rcases List.mem_append.mp hmem with hold | hnew
          · exact .inl hold
          · exact .inr (List.mem_singleton.mp hnew ▸ ho)
        -- What a round leaves for the next ones, with the records `os` behind it.
        have hround : ∀ (scan' : LookupRdonly.Scan) (os : List Nat),
            remaining arg n scan.ioffset = os ++ remaining arg n scan'.ioffset → os.find? (named arg) = none →
            scan.ioffset < scan'.ioffset → Positioned arg scan' → SlotOk scan'.slot scan'.ioffset →
            scan'.reads = scan.reads ++ [scan.ioffset] → ∃ e, scanLoop arg endsearch fuel scan' = some e
              ∧ EndsWith arg (remaining arg n scan.ioffset) (DIRBLKSIZ * n) scan.reads e := by
          intro scan' os hos hnone hgt hpos' hslot' hreads'
          obtain ⟨e, he, hends⟩ := ih scan' hpos' hslot' (by omega)
          rw [hreads'] at hends
          rw [hos]
          exact ⟨e, he, (hends.mono (le_refl _) hreads).prepend hnone⟩
        simp only [if_pos hlt, hbp, heo, hread, hmod]
        by_cases hm : mangledAt arg scan.ioffset = true
        · -- The rest of the directory block is skipped.
          have hblock : scan.ioffset + (DIRBLKSIZ - scan.ioffset % DIRBLKSIZ)
              ≤ DIRBLKSIZ * (scan.ioffset / DIRBLKSIZ + 1) := by
            simp only [DIRBLKSIZ]
            omega
          have hgt : scan.ioffset < scan.ioffset + (DIRBLKSIZ - scan.ioffset % DIRBLKSIZ) := by
            simp only [DIRBLKSIZ]
            omega
          rw [if_pos (show mangled arg _ _ = true from hm)]
          exact hround _ [] (remaining_mangled ho hm) rfl hgt (positioned_advance hblock rfl rfl rfl rfl rfl)
            (slotOk_skip hslot hmod) rfl
        · have hvalid : mangledAt arg scan.ioffset = false := by simpa using hm
          obtain ⟨hgt, hle⟩ := reclen_bounds hvalid
          rw [if_neg (show ¬ mangled arg _ _ = true from hm)]
          by_cases hn : named arg scan.ioffset = true
          · rw [if_pos (show hasName arg _ _ = true from hn), remaining_record ho hvalid]
            refine ⟨_, rfl, ?_⟩
            exact ⟨List.find?_cons_of_pos hn, ⟨rfl, rfl, hvalid⟩, slotOk_take hslot hmod hle, hreads⟩
          · have hskip : [scan.ioffset].find? (named arg) = none := by simp [hn]
            rw [if_neg (show ¬ hasName arg _ _ = true from hn)]
            exact hround _ [scan.ioffset] (remaining_record ho hvalid) hskip hgt
              (positioned_advance hle rfl rfl rfl rfl rfl) (slotOk_take hslot hmod hle) rfl
      · have hge : ¬ scan.ioffset < DIRBLKSIZ * n := fun ho => hlt ((hend scan.ioffset).mpr ho)
        rw [if_neg hlt, remaining, if_neg hge]
        exact ⟨_, rfl, rfl, slotOk_zero hslot, fun o ho => .inl ho⟩

end Loop

/-! ### Both loops -/

section Search

variable {arg : Arg} {d : Int}

theorem below_iff {endsearch : Int} (h : (DIRBLKSIZ : Int) ∣ endsearch) (o : Nat) :
    (o : Int) < endsearch ↔ o < DIRBLKSIZ * (endsearch.toNat / DIRBLKSIZ) := by
  simp only [DIRBLKSIZ] at h ⊢
  omega

theorem endBlock_le : DIRBLKSIZ * endBlock arg ≤ roundupBlk arg.size := by
  have hle : toI32 (roundupBlk arg.size) ≤ roundupBlk arg.size := toI32_le (Int.natCast_nonneg _)
  have hmul : DIRBLKSIZ * endBlock arg ≤ (toI32 (roundupBlk arg.size)).toNat := Nat.mul_div_le _ _
  omega

theorem endBlock_eq (h : FitsDoff arg) : endBlock arg = roundupBlk arg.size / DIRBLKSIZ := by
  unfold FitsDoff at h
  rw [endBlock, toI32_eq_self (by omega) (by omega), Int.toNat_natCast]

/-- The sought offset is one in the directory, unless the search is from the beginning. -/
theorem startBlock_cached (hd : IsDiroff d) (h : ¬ (arg.nameiop ≠ .lookup ∨ d = 0 ∨ toU64 d ≥ arg.size)) :
    d = (DIRBLKSIZ * startBlock arg d : Nat) ∧ DIRBLKSIZ * startBlock arg d < arg.size := by
  obtain ⟨hlower, hupper, hdvd⟩ := hd
  have hsize := arg.size_lt
  rw [startBlock, if_neg h]
  obtain ⟨-, -, hlt⟩ : ¬ arg.nameiop ≠ .lookup ∧ d ≠ 0 ∧ ¬ toU64 d ≥ arg.size := by simpa [not_or] using h
  simp only [toU64, DIRBLKSIZ, ge_iff_le, not_le] at hlt hdvd ⊢
  omega

theorem startBlock_le (hd : IsDiroff d) : DIRBLKSIZ * startBlock arg d ≤ arg.size := by
  by_cases h : arg.nameiop ≠ .lookup ∨ d = 0 ∨ toU64 d ≥ arg.size
  · rw [startBlock, if_pos h]
    exact Nat.zero_le _
  · exact (startBlock_cached hd h).2.le

theorem slotOk_init (o : Nat) : SlotOk (slotInit arg) o := by
  intro s hs
  simp [slotInit] at hs

theorem search_spec (arg : Arg) (hd : IsDiroff d) {rounds : Nat} (hr : roundupBlk arg.size < rounds) :
    ∃ e, search arg rounds d = some e ∧ EndsWith arg (searchOrder arg d) (roundupBlk arg.size) [] e := by
  have hend := below_iff (toI32_dvd (x := roundupBlk arg.size) (Int.natCast_dvd_natCast.mpr (roundupBlk_dvd arg.size)))
  have hle : DIRBLKSIZ * endBlock arg ≤ roundupBlk arg.size := endBlock_le
  have hstop : ∀ o : Nat, DIRBLKSIZ * endBlock arg - o < rounds := by
    intro o
    omega
  have hsize : arg.size ≤ roundupBlk arg.size := by
    simp only [roundupBlk, DIRBLKSIZ]
    omega
  unfold search
  by_cases h : arg.nameiop ≠ .lookup ∨ d = 0 ∨ toU64 d ≥ arg.size
  · obtain ⟨e, he, hends⟩ := scanLoop_spec (n := endBlock arg) hend rounds ⟨0, 0, 0, 0, 0, slotInit arg, []⟩
      (.inl (Nat.zero_mod _)) (slotOk_init 0) (hstop 0)
    have horder : searchOrder arg d = remaining arg (endBlock arg) 0 := by
      rw [searchOrder, startBlock, if_pos h, blocks_nil (Nat.le_refl 0), List.append_nil]
      exact (remaining_block 0).symm
    rw [if_pos h, horder]
    exact ⟨e, he, hends.mono hle fun o ho => .inl ho⟩
  · obtain ⟨hk, hlt⟩ := startBlock_cached hd h
    have hstart : d.toNat = DIRBLKSIZ * startBlock arg d := by omega
    obtain ⟨e, he, hends⟩ := scanLoop_spec (n := endBlock arg) hend rounds
      ⟨d.toNat, d.toNat % arg.fs.bsize, d.toNat / arg.fs.bsize, d.toNat, 0, slotInit arg, []⟩
      (.inr ⟨rfl, rfl⟩) (slotOk_init _) (hstop _)
    rw [show remaining arg (endBlock arg) d.toNat = blocks arg (startBlock arg d) (endBlock arg) by
      rw [hstart, remaining_block]] at hends
    simp only [if_neg h, he, Option.bind_some]
    cases e with
    | entry s =>
        have hfind : (searchOrder arg d).find? (named arg) = some s.ioffset := by
          rw [searchOrder, List.find?_append, hends.1, Option.some_or]
        exact ⟨_, rfl, (EndsWith.mono (e := .entry s) ⟨hfind, hends.2⟩ hle fun o ho => .inl ho)⟩
    | nothing s =>
        -- The second loop ends where the first has started.
        have hsecond := below_iff hd.dvd
        rw [hstart, Nat.mul_div_cancel_left _ (by decide)] at hsecond
        obtain ⟨e, he', hends'⟩ := scanLoop_spec hsecond rounds { s with ioffset := 0 } (.inl (Nat.zero_mod _)) hends.2.1
          (by omega)
        rw [show remaining arg (startBlock arg d) 0 = blocks arg 0 (startBlock arg d) from remaining_block 0] at hends'
        refine ⟨e, he', ?_⟩
        refine (hends'.mono (by omega) ?_).prepend hends.1
        intro o ho
        rcases hends.2.2 o ho with hnil | hlt
        · exact absurd hnil List.not_mem_nil
        · exact .inr (by omega)

end Search

/-! ### The answer -/

section Answer

variable {arg : Arg} {d : Int}

theorem mem_searchOrder (hd : IsDiroff d) (h : FitsDoff arg) {o : Nat} : o ∈ searchOrder arg d ↔ o ∈ records arg := by
  have hk : DIRBLKSIZ * startBlock arg d ≤ arg.size := startBlock_le hd
  have hle : startBlock arg d ≤ roundupBlk arg.size / DIRBLKSIZ := by
    simp only [roundupBlk, DIRBLKSIZ] at hk ⊢
    omega
  rw [records, blocks_append (Nat.zero_le _) hle, searchOrder, endBlock_eq h, List.mem_append, List.mem_append, or_comm]

theorem notfound_ne_found (iswhiteout : Bool) (scan : LookupRdonly.Scan) (ino : Nat) :
    notfound arg iswhiteout scan ≠ .found ino := by
  unfold notfound
  split
  · split
    · simp
    · simp
    · split <;> simp
  · simp

theorem notfound_slot (hcreate : arg.nameiop = .create) {iswhiteout : Bool} {scan : LookupRdonly.Scan}
    (hslot : scan.slot.status ≠ .none → ∀ s ∈ scan.slot.offset, s % DIRBLKSIZ + scan.slot.size ≤ DIRBLKSIZ)
    {offset count endoff : Int} (h : notfound arg iswhiteout scan = .ejustreturn offset count endoff) :
    offset % DIRBLKSIZ + count ≤ DIRBLKSIZ := by
  -- With no slot the new entry goes in a block of its own.
  have hnew : ∀ x : Int, x % DIRBLKSIZ + 0 ≤ DIRBLKSIZ := by
    intro x
    simp only [DIRBLKSIZ]
    omega
  rw [notfound, if_pos (.inl hcreate)] at h
  split at h
  · obtain ⟨rfl, rfl, -⟩ : _ ∧ _ ∧ _ := by simpa using h
    exact hnew _
  · obtain ⟨rfl, rfl, -⟩ : _ ∧ _ ∧ _ := by simpa using h
    exact hnew _
  · next s hoff hstatus =>
      rw [if_neg (by simp [hcreate])] at h
      obtain ⟨rfl, rfl, -⟩ : _ ∧ _ ∧ _ := by simpa using h
      exact_mod_cast hslot (fun hnone => hstatus hnone) s hoff

theorem slotOk_size {slot : Slot} {o : Nat} (h : SlotOk slot o) (hne : slot.status ≠ .none) :
    ∀ s ∈ slot.offset, s % DIRBLKSIZ + slot.size ≤ DIRBLKSIZ := by
  intro s hs
  have hok := h s hs
  rw [if_neg hne] at hok
  exact hok

/-- A found record, or a whiteout, decides the answer of a look-up; without one there is no answer. -/
theorem scanResult_found {os : List Nat} {bound : Nat} {reads : List Nat} {e : LookupRdonly.ScanEnd}
    (h : EndsWith arg os bound reads e) (ino : Nat) : (scanResult arg e).1 = .found ino ↔
      ∃ o, os.find? (named arg) = some o ∧ whiteoutAt arg o = false ∧ inoAt arg o = ino := by
  cases e with
  | nothing s =>
      obtain ⟨hfind, -⟩ := h
      simp [scanResult, notfound_ne_found, hfind]
  | entry s =>
      obtain ⟨hfind, ⟨hbp, heo, -⟩, -⟩ := h
      have hwht : isWhiteout arg (arg.buf s.bp) s.entryoffsetinblock = whiteoutAt arg s.ioffset := by
        rw [hbp, heo, whiteoutAt]
      have hino : dIno (arg.buf s.bp) s.entryoffsetinblock = inoAt arg s.ioffset := by
        rw [hbp, heo, inoAt]
      cases hw : whiteoutAt arg s.ioffset with
      | true => simp [scanResult, hwht, hw, notfound_ne_found, hfind]
      | false => simp [scanResult, hwht, hw, hino, hfind]

theorem scanResult_reads {os : List Nat} {bound : Nat} {e : LookupRdonly.ScanEnd} (h : EndsWith arg os bound [] e) :
    ∀ o ∈ (scanResult arg e).2, o < bound := by
  cases e with
  | nothing s => exact fun o ho => (h.2.2 o ho).resolve_left List.not_mem_nil
  | entry s =>
      have hreads : (scanResult arg (.entry s)).2 = s.reads := by
        simp only [scanResult]
        split <;> rfl
      rw [hreads]
      exact fun o ho => (h.2.2.2 o ho).resolve_left List.not_mem_nil

theorem scanResult_slot (hcreate : arg.nameiop = .create) {os : List Nat} {bound : Nat} {reads : List Nat}
    {e : LookupRdonly.ScanEnd} (h : EndsWith arg os bound reads e) {offset count endoff : Int}
    (hres : (scanResult arg e).1 = .ejustreturn offset count endoff) : offset % DIRBLKSIZ + count ≤ DIRBLKSIZ := by
  cases e with
  | nothing s => exact notfound_slot hcreate (slotOk_size h.2.1) hres
  | entry s =>
      obtain ⟨-, ⟨hbp, heo, hvalid⟩, -⟩ := h
      simp only [scanResult] at hres
      split at hres
      · -- The record of the whiteout is in one block.
        dsimp only at hres
        refine notfound_slot hcreate ?_ hres
        intro _ o ho
        obtain ⟨-, hle⟩ := reclen_bounds hvalid
        simp only [Option.mem_def, Option.some.injEq] at ho
        subst ho
        simp only [next] at hle
        rw [hbp, heo]
        simp only [DIRBLKSIZ] at hle ⊢
        omega
      · simp at hres

/-- With distinct names the order in which the records are looked at does not matter. -/
theorem find_order (h : FitsDoff arg) (hnames : DistinctNames arg) {d' : Int} (hd : IsDiroff d) (hd' : IsDiroff d') {o : Nat}
    (hfind : (searchOrder arg d).find? (named arg) = some o) : (searchOrder arg d').find? (named arg) = some o := by
  have hlive : ∀ o, named arg o = true → inoAt arg o ≠ 0 ∧ nameAt arg o = arg.name := by
    intro o ho
    simpa [named, hasName, inoAt, nameAt] using ho
  have hmem : o ∈ records arg := (mem_searchOrder hd h).mp (List.mem_of_find?_eq_some hfind)
  have ho : named arg o = true := List.find?_some hfind
  have hsome : ((searchOrder arg d').find? (named arg)).isSome :=
    List.find?_isSome.mpr ⟨o, (mem_searchOrder hd' h).mpr hmem, ho⟩
  obtain ⟨o', hfind'⟩ := Option.isSome_iff_exists.mp hsome
  have hmem' : o' ∈ records arg := (mem_searchOrder hd' h).mp (List.mem_of_find?_eq_some hfind')
  obtain ⟨hino, hname⟩ := hlive o ho
  obtain ⟨hino', hname'⟩ := hlive o' (List.find?_some hfind')
  rw [hfind', hnames o hmem o' hmem' hino hino' (hname.trans hname'.symm)]

theorem lookup_answer (hlookup : arg.nameiop = .lookup) {os : List Nat} {bound : Nat} {reads : List Nat}
    {e : LookupRdonly.ScanEnd} (h : EndsWith arg os bound reads e) :
    (scanResult arg e).1 = .enoent ∨ ∃ ino, (scanResult arg e).1 = .found ino := by
  have hnotfound : ∀ w s, notfound arg w s = .enoent := by
    intro w s
    simp [notfound, hlookup]
  cases e with
  | nothing s => exact .inl (hnotfound false s)
  | entry s =>
      simp only [scanResult]
      split
      · dsimp only
        exact .inl (hnotfound true _)
      · exact .inr ⟨_, rfl⟩

end Answer

/-! ### The search -/

theorem linear_finds (arg : Arg) {idiroff : Int} (hd : IsDiroff idiroff) {rounds : Nat} (hr : roundupBlk arg.size < rounds) :
    ∃ found reads, linear arg rounds idiroff = some (found, reads) ∧ SearchOk arg idiroff found reads
      ∧ (arg.nameiop = .lookup → FitsDoff arg → DistinctNames arg → ∀ idiroff', IsDiroff idiroff' →
          ∃ reads', linear arg rounds idiroff' = some (found, reads')) := by
  obtain ⟨e, he, hends⟩ := search_spec arg hd hr
  have hfound := scanResult_found hends
  refine ⟨(scanResult arg e).1, (scanResult arg e).2, by rw [linear, he]; rfl, ?_, ?_⟩
  · constructor
    case reads_lt => exact scanResult_reads hends
    case slot =>
      intro hcreate offset count endoff hres
      exact scanResult_slot hcreate hends hres
    case answers => exact fun hlookup => lookup_answer hlookup hends
    case first => exact fun _ _ ino => hfound ino
    case finds =>
      intro hlookup hfit hwht
      constructor
      · rintro ⟨ino, hino⟩
        obtain ⟨o, hfind, hw, -⟩ := (hfound ino).mp hino
        exact ⟨o, (mem_searchOrder hd hfit).mp (List.mem_of_find?_eq_some hfind), List.find?_some hfind, hw⟩
      · rintro ⟨o, hmem, hname, -⟩
        have hsome : ((searchOrder arg idiroff).find? (named arg)).isSome :=
          List.find?_isSome.mpr ⟨o, (mem_searchOrder hd hfit).mpr hmem, hname⟩
        obtain ⟨o', hfind⟩ := Option.isSome_iff_exists.mp hsome
        have hmem' := (mem_searchOrder hd hfit).mp (List.mem_of_find?_eq_some hfind)
        exact ⟨inoAt arg o', (hfound _).mpr ⟨o', hfind, hwht o' hmem' (List.find?_some hfind), rfl⟩⟩
  · intro hlookup hfit hnames idiroff' hd'
    obtain ⟨e', he', hends'⟩ := search_spec arg hd' hr
    have hfound' := scanResult_found hends'
    -- What one of the searches finds, the other finds too.
    have hsame : ∀ ino, (scanResult arg e').1 = .found ino ↔ (scanResult arg e).1 = .found ino := by
      intro ino
      rw [hfound, hfound']
      constructor
      · rintro ⟨o, hfind, h⟩
        exact ⟨o, find_order hfit hnames hd' hd hfind, h⟩
      · rintro ⟨o, hfind, h⟩
        exact ⟨o, find_order hfit hnames hd hd' hfind, h⟩
    have heq : (scanResult arg e').1 = (scanResult arg e).1 := by
      rcases lookup_answer hlookup hends with hno | ⟨ino, hino⟩
      · rcases lookup_answer hlookup hends' with hno' | ⟨ino, hino'⟩
        · rw [hno, hno']
        · rw [(hsame ino).mp hino'] at hno
          simp at hno
      · rw [hino, (hsame ino).mpr hino]
    refine ⟨(scanResult arg e').2, ?_⟩
    rw [linear, he', ← heq]
    rfl

/-- A whiteout of "x" before an entry "x". -/
def whiteoutBytes : List UInt8 := [1, 0, 0, 0, 12, 0, 14, 1, 120, 0, 0, 0, 5, 0, 0, 0, 244, 1, 8, 1, 120, 0, 0, 0]

/-- An entry "x" that fills its block. -/
def entryBytes : List UInt8 := [5, 0, 0, 0, 0, 2, 8, 1, 120, 0, 0, 0]

def lookupArg (bytes : List UInt8) (size : Nat) (h : size < 2 ^ 63) : Arg where
  fs := tinyFs
  ofs := false
  buf _ i := bytes.getD i 0
  size := size
  size_lt := h
  bsize_dvd := by decide
  dirchk := true
  nameiop := .lookup
  name := [120]
  dowhiteout := false

theorem entry_reached {size : Nat} (h : size < 2 ^ 63) (hpos : 0 < size) : 0 ∈ records (lookupArg entryBytes size h) := by
  have hblock : 0 < roundupBlk size / DIRBLKSIZ := by
    simp only [roundupBlk, DIRBLKSIZ]
    omega
  have hvalid : mangledAt (lookupArg entryBytes size h) (DIRBLKSIZ * 0) = false := by
    show mangledAt (lookupArg entryBytes 0 (by decide)) 0 = false
    decide
  have hlast : next (lookupArg entryBytes size h) (DIRBLKSIZ * 0) % DIRBLKSIZ = 0 := by
    show next (lookupArg entryBytes 0 (by decide)) 0 % DIRBLKSIZ = 0
    decide
  have hchain : chain (lookupArg entryBytes size h) DIRBLKSIZ (DIRBLKSIZ * 0) = [0] := by
    rw [chain_eq, hvalid, if_neg Bool.false_ne_true, if_pos hlast, Nat.mul_zero]
  rw [records, show (lookupArg entryBytes size h).size = size from rfl, blocks_cons hblock, hchain]
  exact List.mem_cons_self

/-- Two blocks: "a" and "x", then "y". -/
def wrapBytes : List UInt8 :=
  [4, 0, 0, 0, 12, 0, 8, 1, 97, 0, 0, 0, 5, 0, 0, 0, 244, 1, 8, 1, 120, 0, 0, 0] ++ List.replicate 488 0
    ++ [6, 0, 0, 0, 0, 2, 8, 1, 121, 0, 0, 0]

/-- A search for "x" from the second block on goes on at the beginning, and finds what a search from
the beginning finds. -/
theorem linear_finds_wrapped :
    ∃ reads reads', linear (lookupArg wrapBytes 1024 (by decide)) 1025 512 = some (.found 5, reads)
      ∧ linear (lookupArg wrapBytes 1024 (by decide)) 1025 0 = some (.found 5, reads') := by
  have hrecords : records (lookupArg wrapBytes 1024 (by decide)) = [0, 12, 512] := by decide +kernel
  have hnames : DistinctNames (lookupArg wrapBytes 1024 (by decide)) := by
    unfold DistinctNames
    rw [hrecords]
    decide +kernel
  have hfit : FitsDoff (lookupArg wrapBytes 1024 (by decide)) := by
    unfold FitsDoff
    decide
  obtain ⟨found, reads, hlinear, hok, hsame⟩ := linear_finds (lookupArg wrapBytes 1024 (by decide))
    (show IsDiroff 512 from ⟨by decide, by decide, by decide⟩) (show roundupBlk 1024 < 1025 by decide)
  have hfound : found = .found 5 :=
    (hok.first rfl hfit 5).mpr ⟨12, by decide +kernel, by decide +kernel, by decide +kernel⟩
  obtain ⟨reads', hlinear'⟩ := hsame rfl hfit hnames 0 ⟨by decide, by decide, by decide⟩
  exact ⟨reads, reads', hfound ▸ hlinear, hfound ▸ hlinear'⟩

/-- A search up to a negative offset sees no record. -/
theorem linear_negative {arg : Arg} (hneg : toI32 (roundupBlk arg.size) ≤ 0) (hlookup : arg.nameiop = .lookup) (rounds : Nat) :
    linear arg (rounds + 1) 0 = some (.enoent, []) := by
  have hend : ¬ ((0 : Nat) : Int) < toI32 (roundupBlk arg.size) := by omega
  rw [linear, search, if_pos (.inr (.inl rfl)), scanLoop, if_neg hend]
  simp [scanResult, notfound, hlookup]

/-- An entry is missed behind a whiteout with its name, and in a directory whose size is negative as a
`doff_t`. -/
theorem lookup_misses_entry :
    (linear (lookupArg whiteoutBytes 512 (by decide)) 513 0 = some (.enoent, [0])
        ∧ ¬ Finds (lookupArg whiteoutBytes 512 (by decide)) .enoent)
      ∧ linear (lookupArg entryBytes (2 ^ 31) (by decide)) (2 ^ 31 + 1) 0 = some (.enoent, [])
      ∧ ¬ Finds (lookupArg entryBytes (2 ^ 31) (by decide)) .enoent := by
  have hmissed : ∀ arg : Arg, (∃ o ∈ records arg, named arg o = true ∧ whiteoutAt arg o = false) → ¬ Finds arg .enoent := by
    intro arg hentry hfinds
    obtain ⟨ino, hino⟩ := hfinds.mpr hentry
    simp at hino
  refine ⟨⟨by decide, hmissed _ ⟨12, ?_, by decide, by decide⟩⟩, linear_negative (by decide) rfl _, hmissed _ ⟨0, ?_, by decide, by decide⟩⟩
  · decide
  · exact entry_reached _ (by decide)

end UfsX.Proofs.LookupRdonly
