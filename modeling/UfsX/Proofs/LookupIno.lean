import UfsX.Proofs.Direnter

/-!
# `UfsX.Proofs.LookupIno`: what a lookup leaves in the directory

For `CREATE` and `RENAME`, a lookup of a name that is not there leaves a place for it
(`Slotted`): the end of the directory, or a range of records of one block with enough
free bytes, and the end of the last block in use. It does not matter which of the two
searches has found it (`lookup_create`). For `DELETE`, a lookup of a name that is there
leaves the place of its record (`lookup_delete`).
-/

set_option autoImplicit false

namespace UfsX.Proofs

open UfsX.Lib UfsX.Ufs

/-- A place for an entry of `needed` bytes: `i_offset`, `i_count` and `i_endoff`. -/
def Slotted (needed : Nat) (rs : List Rec) (d : Dir) : Prop :=
  (d.count = 0 ∧ d.offset = d.size)
    ∨ ∃ so sz e : Nat, d.offset = so ∧ d.count = sz ∧ d.endoff = e ∧ Region rs so sz needed
      ∧ DIRBLKSIZ ∣ e ∧ so + sz ≤ e ∧ ∀ p ∈ index 0 rs, p.1 < e

section Sizes

theorem roundupBlk_dvd (x : Nat) : DIRBLKSIZ ∣ roundupBlk x := Dvd.intro_left _ rfl

theorem toI32_dvd {x : Int} (h : (DIRBLKSIZ : Int) ∣ x) : (DIRBLKSIZ : Int) ∣ toI32 x := by
  simp only [toI32, Int.bmod_def, DIRBLKSIZ] at h ⊢
  split <;> omega

theorem toI32_le {x : Int} (h : 0 ≤ x) : toI32 x ≤ x := by
  simp only [toI32, Int.bmod_def]
  split <;> omega

theorem le_roundupBlk (x : Nat) : x ≤ roundupBlk x := by
  unfold roundupBlk DIRBLKSIZ
  omega

theorem roundupBlk_eq {x : Nat} (h : DIRBLKSIZ ∣ x) : roundupBlk x = x := by
  obtain ⟨k, rfl⟩ := h
  unfold roundupBlk DIRBLKSIZ
  omega

end Sizes

section Create

variable {fnv : List UInt8 → Nat} {ofs : Bool} {d : Dir} {rs : List Rec} {nameiop : Nameiop}
variable {name : List UInt8}

/-- A search that has found no entry. -/
theorem notfound_slotted {needed : Nat} {slot : Slot} {enduseful : Int}
    (hiop : nameiop = .create ∨ nameiop = .rename) (hblk : DIRBLKSIZ ∣ d.size)
    (hsize : d.size < 2147483648)
    (hslot : slot.status ≠ .none → ∃ so, slot.offset = some so ∧ Region rs so slot.size needed)
    (hlive : ∀ p ∈ index 0 rs, (p.1 : Int) < enduseful) :
    ∃ offset count endoff, d.notfound nameiop slot enduseful
        = (.ejustreturn, { d with offset := offset, count := count, endoff := endoff })
      ∧ Slotted needed rs { d with offset := offset, count := count, endoff := endoff } := by
  have hround : toI32 (roundupBlk d.size : Nat) = d.size := by
    rw [roundupBlk_eq hblk]
    exact toI32_eq_self (by omega) (by omega)
  unfold Dir.notfound
  rw [if_pos hiop]
  by_cases hstatus : slot.status = .none
  · simp only [hstatus, hround]
    exact ⟨_, _, _, rfl, .inl ⟨rfl, rfl⟩⟩
  · obtain ⟨so, hso, hregion⟩ := hslot hstatus
    -- the end of what is useful includes the slot
    have hend : ∃ e : Nat, (if enduseful < so + slot.size then (so : Int) + slot.size else enduseful) = e
        ∧ so + slot.size ≤ e ∧ ∀ p ∈ index 0 rs, p.1 < e := by
      split
      · refine ⟨so + slot.size, by omega, le_refl _, fun p hp => ?_⟩
        have := hlive p hp
        omega
      · refine ⟨enduseful.toNat, by omega, by omega, fun p hp => ?_⟩
        have := hlive p hp
        omega
    obtain ⟨e, he, hle, hlt⟩ := hend
    have hslotted : Slotted needed rs
        { d with offset := so, count := slot.size, endoff := (roundupBlk e : Nat) } := by
      refine .inr ⟨so, slot.size, roundupBlk e, rfl, rfl, rfl, hregion, roundupBlk_dvd e, ?_, ?_⟩
      · exact hle.trans (le_roundupBlk e)
      · exact fun p hp => Nat.lt_of_lt_of_le (hlt p hp) (le_roundupBlk e)
    cases hs : slot.status with
    | none => exact absurd hs hstatus
    | compact =>
        simp only [hso, he, Int.toNat_natCast]
        exact ⟨_, _, _, rfl, hslotted⟩
    | found =>
        simp only [hso, he, Int.toNat_natCast]
        exact ⟨_, _, _, rfl, hslotted⟩

/-! ### The linear search -/

theorem roundup_size (hd : Layout ofs d.size rs) (hsize : d.size < 2147483648) :
    toI32 (roundupBlk d.size : Nat) = d.size := by
  rw [roundupBlk_eq hd.blocks]
  exact toI32_eq_self (by omega) (by omega)

theorem search_eq (hd : DirOk ofs d.data d.size rs) (hsize : d.size < 2147483648)
    (hiop : nameiop ≠ .lookup ∨ d.diroff = 0 ∨ d.diroff ≥ d.size) (slot : Slot) :
    d.search ofs nameiop name slot
      = some (scanRecs name (directsiz name.length) ⟨0, 0, 0, slot⟩ rs) := by
  have hlen := length_le_recsLen hd.recs
  rw [← hd.size_eq] at hlen
  unfold Dir.search
  simp only
  rw [if_pos hiop, roundup_size hd.toLayout hsize]
  exact scanLoop_eq name (directsiz name.length) (by rw [hd.size_eq]; simp) hd.holds hd.fits hd.recs
    (by omega)

/-- `LOOKUP` begins in the middle, and goes on at the start. -/
theorem search_twice (hd : DirOk ofs d.data d.size rs) (hsize : d.size < 2147483648)
    (hiop : ¬ (nameiop ≠ .lookup ∨ d.diroff = 0 ∨ d.diroff ≥ d.size))
    (hpos : 0 ≤ d.diroff) (hblk : DIRBLKSIZ ∣ d.diroff.toNat) (slot : Slot) :
    ∃ front back, rs = front ++ back
      ∧ d.search ofs nameiop name slot
        = match scanRecs name (directsiz name.length) ⟨recsLen front, recsLen front, 0, slot⟩ back with
          | .entry scan => some (.entry scan)
          | .nothing scan =>
              some (scanRecs name (directsiz name.length) { scan with ioffset := 0 } front) := by
  simp only [not_or] at hiop
  have hrecs : ∀ r ∈ rs, 0 < r.reclen := fun r hr => (hd.recs r hr).pos
  obtain ⟨front, back, hrs, hfront⟩ := exists_cut hd.fits hrecs hblk (Nat.zero_le _)
    (by rw [Nat.zero_add, ← hd.size_eq]; omega)
  rw [Nat.zero_add] at hfront
  refine ⟨front, back, hrs, ?_⟩
  have hholds := hd.holds
  have hfits := hd.fits
  have hok := hd.recs
  have hlen := length_le_recsLen hd.recs
  have hsz := hd.size_eq
  rw [hrs] at hholds hfits hok hlen hsz
  rw [holds_append, Nat.zero_add] at hholds
  rw [fits_append, Nat.zero_add] at hfits
  rw [recsLen_append, List.length_append] at hlen
  rw [recsLen_append] at hsz
  have hdiroff : d.diroff = recsLen front := by omega
  unfold Dir.search
  simp only
  rw [if_neg (by simp only [not_or]; exact hiop), roundup_size hd.toLayout hsize, ← hfront,
    scanLoop_eq name (directsiz name.length) (by rw [hsz]) hholds.2 hfits.2
      (fun r hr => hok r (List.mem_append_right _ hr)) (by omega)]
  cases scanRecs name (directsiz name.length) ⟨recsLen front, recsLen front, 0, slot⟩ back with
  | entry scan => rfl
  | nothing scan =>
      simp only [Option.bind_some]
      rw [hdiroff, scanLoop_eq name (directsiz name.length) (by simp) hholds.1 hfits.1
        (fun r hr => hok r (List.mem_append_left _ hr)) (by omega)]

/-- The offset that `LOOKUP` begins at. -/
structure DiroffOk (d : Dir) : Prop where
  nonneg : 0 ≤ d.diroff
  blocks : DIRBLKSIZ ∣ d.diroff.toNat

theorem DiroffOk.of_eq {d' : Dir} (h : DiroffOk d) (heq : d'.diroff = d.diroff) : DiroffOk d' := by
  refine ⟨?_, ?_⟩
  · rw [heq]
    exact h.nonneg
  · rw [heq]
    exact h.blocks

theorem search_absent (nameiop : Nameiop) (hd : DirOk ofs d.data d.size rs) (hsize : d.size < 2147483648)
    (hdiroff : DiroffOk d) (hname : name ∉ namesOf rs) (slot : Slot) :
    ∃ scan, d.search ofs nameiop name slot = some (.nothing scan) := by
  by_cases hiop : nameiop ≠ .lookup ∨ d.diroff = 0 ∨ d.diroff ≥ d.size
  · obtain ⟨scan, hscan⟩ := scanRecs_nothing (directsiz name.length) ⟨0, 0, 0, slot⟩ hname
    exact ⟨scan, by rw [search_eq hd hsize hiop, hscan]⟩
  · obtain ⟨front, back, hrs, hsearch⟩ := search_twice hd hsize hiop hdiroff.nonneg hdiroff.blocks slot
    rw [hrs, namesOf_append, List.mem_append, not_or] at hname
    obtain ⟨scan, hscan⟩ := scanRecs_nothing (directsiz name.length)
      ⟨recsLen front, recsLen front, 0, slot⟩ hname.2
    obtain ⟨scan', hscan'⟩ := scanRecs_nothing (directsiz name.length) { scan with ioffset := 0 } hname.1
    exact ⟨scan', by rw [hsearch, hscan]; simp only [hscan']⟩

theorem search_present {before after : List Rec} {r : Rec} (nameiop : Nameiop) (hd : DirOk ofs d.data d.size rs)
    (hsize : d.size < 2147483648) (hdiroff : nameiop = .lookup → DiroffOk d) (hrs : rs = before ++ r :: after)
    (hlive : r.live = true) (slot : Slot) :
    ∃ scan, d.search ofs nameiop r.name slot = some (.entry scan) ∧ scan.ioffset = recsLen before
      ∧ (nameiop ≠ .lookup → scan.prevoff = lastOffset 0 0 before) := by
  obtain ⟨hbefore, hafter⟩ := name_once (hrs ▸ hd.names) hlive
  by_cases hiop : nameiop ≠ .lookup ∨ d.diroff = 0 ∨ d.diroff ≥ d.size
  · obtain ⟨scan, hscan, hoff, hprev⟩ := scanRecs_present (directsiz r.name.length) after
      ⟨0, 0, 0, slot⟩ hbefore hlive rfl
    refine ⟨scan, by rw [search_eq hd hsize hiop, hrs, hscan], ?_, fun _ => hprev⟩
    rw [hoff, Nat.zero_add]
  · have hlookup : nameiop = .lookup := by
      by_contra hne
      exact hiop (.inl hne)
    obtain ⟨front, back, hcut, hsearch⟩ := search_twice hd hsize hiop (hdiroff hlookup).nonneg
      (hdiroff hlookup).blocks slot
    rw [hrs] at hcut
    obtain ⟨mid, hfront, hmid⟩ | ⟨mid, hfront, hback⟩ := List.append_eq_append_iff.mp hcut
    · cases mid with
      | nil =>
          -- the record is the first one of the back part
          rw [List.append_nil] at hfront
          rw [List.nil_append] at hmid
          obtain ⟨scan, hscan, hoff, -⟩ := scanRecs_present (directsiz r.name.length) after
            ⟨recsLen front, recsLen front, 0, slot⟩ (show r.name ∉ namesOf [] from List.not_mem_nil)
            hlive rfl
          rw [List.nil_append, hmid] at hscan
          refine ⟨scan, by rw [hsearch, hscan], ?_, fun hno => absurd hlookup hno⟩
          rw [hoff, hfront]
          exact Nat.add_zero _
      | cons r' mid =>
          -- the record is in the front part
          rw [List.cons_append, List.cons.injEq] at hmid
          obtain ⟨rfl, hmid⟩ := hmid
          have hnot : r.name ∉ namesOf back := fun hmem =>
            hafter (by rw [hmid, namesOf_append]; exact List.mem_append_right _ hmem)
          obtain ⟨scan, hscan⟩ := scanRecs_nothing (directsiz r.name.length)
            ⟨recsLen front, recsLen front, 0, slot⟩ hnot
          obtain ⟨scan', hscan', hoff, -⟩ := scanRecs_present (directsiz r.name.length) mid
            { scan with ioffset := 0 } hbefore hlive rfl
          rw [← hfront] at hscan'
          refine ⟨scan', by rw [hsearch, hscan]; simp only [hscan'], ?_, fun hno => absurd hlookup hno⟩
          rw [hoff, Nat.zero_add]
    · -- the record is in the back part
      have hnot : r.name ∉ namesOf mid := fun hmem =>
        hbefore (by rw [hfront, namesOf_append]; exact List.mem_append_right _ hmem)
      obtain ⟨scan, hscan, hoff, -⟩ := scanRecs_present (directsiz r.name.length) after
        ⟨recsLen front, recsLen front, 0, slot⟩ hnot hlive rfl
      rw [← hback] at hscan
      refine ⟨scan, by rw [hsearch, hscan], ?_, fun hno => absurd hlookup hno⟩
      rw [hoff, hfront, recsLen_append]

/-- A name that is not there: the search ends without an entry, with the slot it has
found and the end of what is useful. -/
theorem lookup_notfound (hs : DirState fnv ofs d rs) (hsize : d.size < 2147483648)
    (hiop : nameiop = .create ∨ nameiop = .rename) (hname : name ∉ namesOf rs) :
    ∃ slot enduseful, d.ufsLookupIno fnv ofs nameiop name = some (d.notfound nameiop slot enduseful)
      ∧ (slot.status ≠ .none → ∃ so, slot.offset = some so
        ∧ Region rs so slot.size (directsiz name.length))
      ∧ ∀ p ∈ index 0 rs, (p.1 : Int) < enduseful := by
  have hd := hs.dir
  have hneeded : 0 < directsiz name.length := by
    have := eight_le_directsiz name.length
    omega
  have hinit : Dir.slotInit nameiop = ⟨.none, none, 0, 0⟩ := by
    unfold Dir.slotInit
    rw [if_pos hiop]
  have hiop' : nameiop ≠ .lookup := by
    obtain rfl | rfl := hiop <;> decide
  have htoI : toI32 (d.size : Int) = d.size := toI32_eq_self (by omega) (by omega)
  unfold Dir.ufsLookupIno
  cases hhash : d.dirhash with
  | none =>
      simp only
      unfold Dir.linear
      rw [search_eq hd hsize (.inl hiop')]
      obtain ⟨scan, hscan, hok⟩ := scanRecs_absent (scanOk_start (directsiz name.length)
        (Dir.slotInit nameiop) (by rw [hinit]; exact .inl ⟨rfl, rfl⟩)) hd.fits hd.recs hname
      rw [hscan]
      refine ⟨scan.slot, scan.enduseful, rfl, fun hstatus => by simpa using hok.slot.region hstatus, ?_⟩
      exact fun p hp => by exact_mod_cast hok.live_lt p hp
  | some dh =>
      obtain ⟨rfl, hh⟩ := hs.hash dh hhash
      have hself : ({ d with dirhash := some dh } : Dir) = d := by
        rw [← hhash]
      simp only
      rw [if_pos hiop, lookup_absent hd hh hname]
      obtain hfree | ⟨so, sz, hfree, hregion⟩ := findfree_region hd hh hneeded
      · rw [hfree]
        simp only [hself, hinit, htoI]
        exact ⟨_, _, rfl, fun hno => absurd rfl hno, fun p hp => by exact_mod_cast hd.index_lt p hp⟩
      · rw [hfree]
        simp only [hself, htoI]
        refine ⟨_, _, rfl, fun _ => ⟨so, rfl, hregion⟩, fun p hp => ?_⟩
        obtain hno | ⟨e, he, -, hlive⟩ := hh.stats.enduseful hd.index_lt
        · rw [hno, if_pos (by decide)]
          exact_mod_cast hd.index_lt p hp
        · rw [he, if_neg (by omega)]
          exact_mod_cast hlive p hp

/-- The lookup leaves a place for the name. -/
theorem lookup_create (hs : DirState fnv ofs d rs) (hsize : d.size < 2147483648)
    (hiop : nameiop = .create ∨ nameiop = .rename) (hname : name ∉ namesOf rs) :
    ∃ offset count endoff, d.ufsLookupIno fnv ofs nameiop name
        = some (.ejustreturn, { d with offset := offset, count := count, endoff := endoff })
      ∧ Slotted (directsiz name.length) rs { d with offset := offset, count := count, endoff := endoff } := by
  obtain ⟨slot, enduseful, hlook, hslot, hlive⟩ := lookup_notfound hs hsize hiop hname
  obtain ⟨offset, count, endoff, heq, hslotted⟩ :=
    notfound_slotted (d := d) hiop hs.dir.blocks hsize hslot hlive
  exact ⟨offset, count, endoff, by rw [hlook, heq], hslotted⟩

end Create

/-! ### A name that is there -/

section Found

variable {fnv : List UInt8 → Nat} {ofs : Bool} {d : Dir} {rs before after : List Rec} {r : Rec}

/-- An entry is no whiteout. -/
theorem isWhiteout_false (hd : DirOk ofs d.data d.size rs) (hrs : rs = before ++ r :: after)
    (hlive : r.live = true) : d.isWhiteout ofs (recsLen before) = false := by
  obtain ⟨hrec, hok, -, -⟩ := hd.rec_at hrs
  unfold Dir.isWhiteout
  cases ofs with
  | true => rfl
  | false =>
      have htype : dType false d.data (recsLen before) = r.type := by
        rw [← hrec]
        unfold recOf
        rw [if_neg ((recOf_live hrec).mp hlive)]
      simp [htype, hok.not_wht rfl]

theorem lookup_hashed (nameiop : Nameiop) (hs : DirState fnv ofs d rs) (hrs : rs = before ++ r :: after)
    (hlive : r.live = true) {dh : Dirhash} (hhash : d.dirhash = some dh) :
    ∃ dh' prevoff, d.ufsLookupIno fnv ofs nameiop r.name
        = { d with dirhash := some dh' }.found ofs nameiop (recsLen before) prevoff
      ∧ HashOpt fnv ofs (some dh') (index 0 rs) d.size
      ∧ (nameiop = .delete → recsLen before % DIRBLKSIZ ≠ 0 → prevoff = lastOffset 0 0 before) := by
  have hd := hs.dir
  have hwht := isWhiteout_false hd hrs hlive
  obtain ⟨rfl, hh⟩ := hs.hash dh hhash
  obtain ⟨dh', hlook, hh'⟩ := lookup_present (nameiop = .delete) hd hh hrs hlive
  have hneeded : 0 < directsiz r.name.length := by
    have := eight_le_directsiz r.name.length
    omega
  unfold Dir.ufsLookupIno
  rw [hhash]
  refine ⟨dh', hashPrev (nameiop = .delete) before, ?_,
    fun dh hdh => by cases hdh; exact ⟨rfl, hh'⟩, ?_⟩
  · have hwht' : Dir.isWhiteout { d with dirhash := some dh' } false (recsLen before) = false := hwht
    simp only
    rw [hlook]
    simp only [hwht', Bool.false_eq_true, if_false]
    by_cases hiop : nameiop = .create ∨ nameiop = .rename
    · rw [if_pos hiop]
      obtain hfree | ⟨so, sz, hfree, -⟩ := findfree_region hd hh hneeded
      · rw [hfree]
      · rw [hfree]
    · rw [if_neg hiop]
  · intro hdel hblk
    unfold hashPrev
    rw [if_pos ⟨decide_eq_true hdel, hblk⟩]

/-- The two searches come to the same record. -/
theorem lookup_found (nameiop : Nameiop) (hs : DirState fnv ofs d rs) (hsize : d.size < 2147483648)
    (hdiroff : nameiop = .lookup → DiroffOk d) (hrs : rs = before ++ r :: after) (hlive : r.live = true) :
    ∃ dirhash prevoff, d.ufsLookupIno fnv ofs nameiop r.name
        = { d with dirhash := dirhash }.found ofs nameiop (recsLen before) prevoff
      ∧ HashOpt fnv ofs dirhash (index 0 rs) d.size
      ∧ (nameiop = .delete → recsLen before % DIRBLKSIZ ≠ 0 → prevoff = lastOffset 0 0 before) := by
  cases hhash : d.dirhash with
  | none =>
      have hwht := isWhiteout_false hs.dir hrs hlive
      obtain ⟨scan, hscan, hoff, hprev⟩ := search_present nameiop hs.dir hsize hdiroff hrs hlive
        (Dir.slotInit nameiop)
      refine ⟨none, scan.prevoff, ?_, hashOpt_none, fun hdel _ => by rw [hprev (by rw [hdel]; decide)]⟩
      unfold Dir.ufsLookupIno Dir.linear
      rw [hhash]
      simp only
      rw [hscan]
      simp only [Option.bind_some, Dir.scanResult]
      rw [hoff, hwht, if_neg Bool.false_ne_true, ← hhash]
  | some dh =>
      obtain ⟨dh', hlook⟩ := lookup_hashed nameiop hs hrs hlive hhash
      exact ⟨some dh', hlook⟩

/-- The inode number is returned. -/
theorem found_some (nameiop : Nameiop) (prevoff : Int) (hd : DirOk ofs d.data d.size rs)
    (hrs : rs = before ++ r :: after) (hlive : r.live = true) :
    ∃ offset count diroff, d.found ofs nameiop (recsLen before) prevoff
        = some (.found r.ino, { d with offset := offset, count := count, diroff := diroff })
      ∧ (DiroffOk d → 0 ≤ diroff ∧ DIRBLKSIZ ∣ diroff.toNat)
      ∧ (nameiop = .create → offset = d.offset ∧ count = d.count ∧ diroff = d.diroff)
      ∧ (nameiop = .delete → offset = recsLen before ∧ diroff = d.diroff
        ∧ count = if recsLen before % DIRBLKSIZ = 0 then 0 else recsLen before - prevoff) := by
  obtain ⟨hrec, hok, -, hle⟩ := hd.rec_at hrs
  have hsum := hok.used_add_free
  have hri : dIno d.data (recsLen before) = r.ino := by rw [← hrec, recOf_ino]
  unfold Dir.found
  rw [recOf_dirsiz hrec hlive, if_neg (by omega), hri]
  cases nameiop with
  | lookup =>
      refine ⟨_, _, _, rfl, fun _ => ⟨Int.natCast_nonneg _, ?_⟩, nofun, nofun⟩
      rw [Int.toNat_natCast]
      exact Dvd.intro_left _ rfl
  | create =>
      exact ⟨_, _, _, rfl, fun h => ⟨h.nonneg, h.blocks⟩, fun _ => ⟨rfl, rfl, rfl⟩, nofun⟩
  | delete =>
      exact ⟨_, _, _, rfl, fun h => ⟨h.nonneg, h.blocks⟩, nofun, fun _ => ⟨rfl, rfl, rfl⟩⟩
  | rename =>
      exact ⟨_, _, _, rfl, fun h => ⟨h.nonneg, h.blocks⟩, nofun, nofun⟩

/-- A name that is not there. -/
theorem lookup_enoent {name : List UInt8} {nameiop : Nameiop}
    (hiop : ¬ (nameiop = .create ∨ nameiop = .rename)) (hs : DirState fnv ofs d rs)
    (hsize : d.size < 2147483648) (hdiroff : DiroffOk d) (hname : name ∉ namesOf rs) :
    d.ufsLookupIno fnv ofs nameiop name = some (.enoent, d) := by
  have hd := hs.dir
  have hnot : ∀ slot enduseful, d.notfound nameiop slot enduseful = (.enoent, d) := by
    intro slot enduseful
    unfold Dir.notfound
    rw [if_neg hiop]
  unfold Dir.ufsLookupIno
  cases hhash : d.dirhash with
  | none =>
      obtain ⟨scan, hscan⟩ := search_absent nameiop hd hsize hdiroff hname
        (Dir.slotInit nameiop)
      simp only
      unfold Dir.linear
      rw [hscan]
      simp only [Option.bind_some, Dir.scanResult, hnot]
  | some dh =>
      obtain ⟨rfl, hh⟩ := hs.hash dh hhash
      have hself : ({ d with dirhash := some dh } : Dir) = d := by
        rw [← hhash]
      simp only
      rw [if_neg hiop, lookup_absent hd hh hname]
      simp only [hself, hnot]

end Found

end UfsX.Proofs
