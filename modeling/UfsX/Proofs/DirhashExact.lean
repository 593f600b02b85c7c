import UfsX.Proofs.DirRun

/-!
# `UfsX.Proofs.DirhashExact`: the hash table and the linear search

`Exact` says what a hash table is for: its entries are the offsets of the live
records, each once, and a lookup in it comes to the record that the linear search of
`ufs_lookup_ino` comes to. `dirhash_exact` proves it of every table that
`ufsdirhash_build` and the calls on the directory have made.

The two searches differ in one thing. For the first entry of a block the linear
search remembers the last record of the block before, and `ufsdirhash_lookup` the
entry itself (`prevoff_differs`). `ufs_lookup_ino` sets `i_count` to 0 either way.
-/

set_option autoImplicit false

namespace UfsX.Proofs

open UfsX.Lib UfsX.Ufs
open Relation (ReflTransGen)

/-! ### What the table is for -/

/-- A lookup in the table ends as the linear search does. `DELETE` asks for the
previous offset. -/
def EndsAlike (nameiop : Nameiop) (r : HashLookup) : ScanEnd → Prop
  | .entry scan => ∃ prevoff, r = .found scan.ioffset prevoff
      ∧ (nameiop = .delete →
        prevoff = if scan.ioffset % DIRBLKSIZ = 0 then scan.ioffset else scan.prevoff)
  | .nothing _ => r = .enoent

/-- The table is an exact index of the directory. -/
structure Exact (fnv : List UInt8 → Nat) (d : Dir) (dh : Dirhash) (rs : List Rec) : Prop where
  cells : ∀ i, i < dh.hlen → 0 ≤ dh.entry i → ∃ p ∈ index 0 rs, dh.entry i = (p.1 : Int)
  once : ∀ p ∈ index 0 rs, ∃! i, i < dh.hlen ∧ dh.entry i = (p.1 : Int)
  hused : dh.hused = ((Finset.range dh.hlen).filter fun i => dh.entry i ≠ DIRHASH_EMPTY).card
  room : dh.hused < dh.hlen
  /-- A loop over the slots that stops at an empty one ends. -/
  probes : ∀ stop s, stop DIRHASH_EMPTY = true → s < dh.hlen → ∃ i, dh.probe stop dh.hlen s = some i
  reach : ∀ p ∈ index 0 rs, ∃ i, dh.entry i = (p.1 : Int)
    ∧ Reach dh.entry DIRHASH_EMPTY dh.hlen (dh.hash fnv p.2) i
  /-- Wherever the shortcut begins. -/
  lookup : ∀ (seqoff : Int) (nameiop : Nameiop) (name : List UInt8) (slot : Slot), -1 ≤ seqoff →
    ∃ r dh' e, ufsdirhashLookup fnv { dh with seqoff := seqoff } d.data d.size name
        (nameiop = .delete) = some (r, dh')
      ∧ d.search false nameiop name slot = some e ∧ EndsAlike nameiop r e

/-! ### What the calls keep -/

section Exact

variable {fnv : List UInt8 → Nat} {d : Dir} {dh : Dirhash} {rs : List Rec} {L : List Entry}

theorem IndexOk.exists_unique (h : IndexOk fnv dh L) {p : Entry} (hp : p ∈ L) :
    ∃! i, i < dh.hlen ∧ dh.entry i = (p.1 : Int) := by
  obtain ⟨i, hi, hreach⟩ := h.reach p hp
  refine ⟨i, ⟨hreach.lt, hi⟩, ?_⟩
  rintro j ⟨hj, hje⟩
  refine h.once j i hj hreach.lt ?_ (hje.trans hi.symm)
  rw [hje]
  exact Int.natCast_nonneg _

/-- An empty slot stops every loop that it should stop. -/
theorem IndexOk.probe_ends (h : IndexOk fnv dh L) {stop : Int → Bool} {s : Nat}
    (hstop : stop DIRHASH_EMPTY = true) (hs : s < dh.hlen) :
    ∃ i, dh.probe stop dh.hlen s = some i := by
  obtain ⟨i, hi, hempty⟩ := h.exists_empty
  obtain ⟨k, hk, hend, hmin⟩ := exists_first (fun j => stop (dh.entry j) = true) hs hi
    (by rw [hempty]; exact hstop)
  exact ⟨_, probe_first dh hs hk hend hmin⟩

/-- The shortcut does not matter. -/
theorem HashOk.withSeqoff {size : Nat} (h : HashOk fnv dh L size) {seqoff : Int} (hseq : -1 ≤ seqoff) :
    HashOk fnv { dh with seqoff := seqoff } L size :=
  ⟨h.index.congr rfl rfl rfl, h.stats.congr rfl rfl rfl rfl, hseq⟩

/-- The two searches agree. -/
theorem lookup_agrees (nameiop : Nameiop) (name : List UInt8) (slot : Slot)
    (hd : DirOk false d.data d.size rs) (hsize : d.size ≤ MAXDIRSIZE) (hdiroff : DiroffOk d)
    (h : HashOk fnv dh (index 0 rs) d.size) :
    ∃ r dh' e, ufsdirhashLookup fnv dh d.data d.size name (nameiop = .delete) = some (r, dh')
      ∧ d.search false nameiop name slot = some e ∧ EndsAlike nameiop r e := by
  have hlt : d.size < 2147483648 := by
    unfold MAXDIRSIZE at hsize
    omega
  by_cases hmem : name ∈ namesOf rs
  · obtain ⟨before, r, after, hrs, hlive, rfl⟩ := mem_namesOf hmem
    obtain ⟨dh', hlook, -⟩ := lookup_present (nameiop = .delete) hd h hrs hlive
    obtain ⟨scan, hscan, hoff, hprev⟩ := search_present nameiop hd hlt (fun _ => hdiroff) hrs hlive slot
    refine ⟨_, dh', _, hlook, hscan, hashPrev (nameiop = .delete) before, by rw [hoff], ?_⟩
    intro hdel
    unfold hashPrev
    rw [hprev (by rw [hdel]; decide), hoff]
    by_cases hblk : recsLen before % DIRBLKSIZ = 0
    · rw [if_neg (fun hno => hno.2 hblk), if_pos hblk]
    · rw [if_pos ⟨decide_eq_true hdel, hblk⟩, if_neg hblk]
  · obtain ⟨scan, hscan⟩ := search_absent nameiop hd hlt hdiroff hmem slot
    exact ⟨_, dh, _, lookup_absent hd h hmem, hscan, rfl⟩

end Exact

/-- The hash table of a directory is exact, whatever calls have made it. -/
theorem dirhash_exact {s₀ s : HashedDir} {dh : Dirhash} (h : Unhashed s₀)
    (hrun : ReflTransGen DirStep s₀ s) (hdh : s.dir.dirhash = some dh) :
    ∃ rs, DirOk false s.dir.data s.dir.size rs ∧ Exact s.fnv s.dir dh rs := by
  obtain ⟨⟨rs, hs⟩, hsize, hdiroff⟩ := DirInv.of_run h hrun
  obtain ⟨-, hok⟩ := hs.hash dh hdh
  have hindex := hok.index
  have hroom : dh.hused < dh.hlen := by
    rw [hindex.hused]
    exact_mod_cast hindex.room
  refine ⟨rs, hs.dir, ?_⟩
  exact {
    cells := fun i hi hpos => hindex.cell_of_nonneg hi hpos
    once := fun p hp => hindex.exists_unique hp
    hused := hindex.hused
    room := hroom
    probes := fun stop s hstop hs => hindex.probe_ends hstop hs
    reach := hindex.reach
    lookup := fun seqoff nameiop name slot hseq =>
      lookup_agrees nameiop name slot hs.dir hsize hdiroff (hok.withSeqoff hseq) }

/-! ### A directory of two blocks -/

def entryA : Direct := ⟨4, 8, [97]⟩
def entryB : Direct := ⟨5, 8, [98]⟩

/-- Two entries, each of which has a block for itself. -/
def twoDir : Dir where
  data x := if x < 512 then entryA.bytes false 512 x else entryB.bytes false 512 (x - 512)
  size := 1024
  offset := 0
  count := 0
  endoff := 0
  diroff := 0
  dirhash := none

theorem twoDir_ok : DirOk false twoDir.data twoDir.size [entryRec entryA 512, entryRec entryB 512] where
  size_eq := rfl
  blocks := ⟨2, rfl⟩
  fits := ⟨by decide, by decide, trivial⟩
  recs := by
    intro r hr
    obtain rfl | rfl : r = entryRec entryA 512 ∨ r = entryRec entryB 512 := by simpa using hr
    · exact ⟨⟨128, rfl⟩, by decide, by decide, by decide⟩
    · exact ⟨⟨128, rfl⟩, by decide, by decide, by decide⟩
  holds := ⟨by decide +kernel, by decide +kernel, trivial⟩
  names := by decide

/-- After the table is built and an entry removed. -/
theorem dirhash_exact_removed :
    ∃ (s : HashedDir) (dh : Dirhash) (rs : List Rec), ReflTransGen DirStep ⟨sparseDir, List.length⟩ s
      ∧ s.dir.dirhash = some dh ∧ entriesOf rs = [([97], 4, 8), ([99], 6, 8), ([100], 7, 8)]
      ∧ Exact s.fnv s.dir dh rs := by
  obtain ⟨s, dh, hrun, hdh, hentries⟩ := sparse_run
  obtain ⟨rs, hd, hexact⟩ := dirhash_exact unhashed_sparseDir hrun hdh
  exact ⟨s, dh, rs, hrun, hdh, hentries rs hd, hexact⟩

/-- The previous offset of the second entry: 0 for the linear search, 512 for the
table. -/
theorem prevoff_differs :
    DirOk false twoDir.data twoDir.size [entryRec entryA 512, entryRec entryB 512]
      ∧ ∃ dh dh' scan, ufsdirhashBuild (fun _ => 0) twoDir.data twoDir.size = some dh
        ∧ twoDir.search false .delete [98] (Dir.slotInit .delete) = some (.entry scan)
        ∧ scan.prevoff = 0
        ∧ ufsdirhashLookup (fun _ => 0) dh twoDir.data twoDir.size [98] true
          = some (.found scan.ioffset 512, dh') := by
  have hrs : [entryRec entryA 512, entryRec entryB 512]
      = [entryRec entryA 512] ++ entryRec entryB 512 :: [] := rfl
  obtain ⟨dh, hbuild, hok⟩ := build_ok (fun _ => 0) twoDir_ok (by decide) (by decide)
  obtain ⟨scan, hscan, hoff, hprev⟩ := search_present .delete twoDir_ok (by decide)
    (fun _ => ⟨by decide, ⟨0, rfl⟩⟩) hrs rfl (Dir.slotInit .delete)
  obtain ⟨dh', hlook, -⟩ := lookup_present true twoDir_ok hok hrs rfl
  refine ⟨twoDir_ok, dh, dh', scan, hbuild, hscan, ?_, ?_⟩
  · exact hprev (by decide)
  · rw [hoff]
    exact hlook

end UfsX.Proofs
