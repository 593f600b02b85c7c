import UfsX.Proofs.Dirremove

/-!
# `UfsX.Proofs.Remove`: what a removal leaves of an entry

A look-up for `DELETE` and then `ufs_dirremove`, in a directory of any size and of either format.
The size does not matter once the name is found: `endsearch` is where a search ends, and not
where it goes wrong (`search_front`). All other entries stay in their places (`dirremove_placed`).

The name is cleared with `d_namlen` for its length, which is the other half of the length in the old
format: of an old record nothing is cleared (`wiped_old`).
-/

set_option autoImplicit false

namespace UfsX.Proofs

open UfsX.Lib UfsX.Ufs

/-- A well-formed directory. The old format has a length of 16 bits, for names of up to 255 bytes. -/
structure WellFormed (fnv : List UInt8 → Nat) (ofs : Bool) (d : Dir) (rs : List Rec) : Prop where
  state : DirState fnv ofs d rs
  old : ofs = true → ∀ r ∈ rs, r.type = 0

/-- The name of a file, which is neither "." nor "..". -/
structure IsFilename (name : List UInt8) : Prop where
  ne_nil : name ≠ []
  no_null : 0 ∉ name
  ne_dot : name ≠ [46]
  ne_dotdot : name ≠ [46, 46]

/-- What `ufs_dirremove` is to do with the entry at offset `o`, which the look-up has found: it takes out this entry,
and no other, and leaves no byte of its name; and without the block it does nothing. -/
structure RemovesOnly (fnv : List UInt8 → Nat) (ofs : Bool) (rs : List Rec) (o : Nat) (name : List UInt8) (d : Dir)
    (ip : Unlinked) : Prop where
  removed : ∃ d' ip' rs', ufsDirremoveLinks fnv d ip 0 = some (0, d', ip') ∧ WellFormed fnv ofs d' rs'
    ∧ placed 0 rs' = (placed 0 rs).filter (fun p => p.2.1 ≠ name) ∧ ∀ i, i < name.length → d'.data (o + 8 + i) = 0
  unread : ∀ error, error ≠ 0 → ∃ d' ip', ufsDirremoveLinks fnv d ip error = some (error, d', ip')
    ∧ d'.data = d.data ∧ ip'.nlink = ip.nlink ∧ ip'.effnlink = ip.effnlink

/-! ### The look-up -/

section Lookup

variable {fnv : List UInt8 → Nat} {ofs : Bool} {d : Dir} {rs before after : List Rec} {r : Rec}

/-- A search from the beginning goes over some of the first records, all of them in a directory of at most
`MAXDIRSIZE`. -/
theorem search_front (nameiop : Nameiop) (hd : DirOk ofs d.data d.size rs) (hiop : nameiop ≠ .lookup) (name : List UInt8) (slot : Slot) :
    ∃ front back, rs = front ++ back
      ∧ d.search ofs nameiop name slot = some (scanRecs name (directsiz name.length) ⟨0, 0, 0, slot⟩ front) := by
  have hlen := length_le_recsLen hd.recs
  have hsize : toI32 (roundupBlk d.size) ≤ d.size := by
    rw [roundupBlk_eq hd.blocks]
    exact toI32_le (Int.natCast_nonneg _)
  have hdvd : (DIRBLKSIZ : Int) ∣ toI32 (roundupBlk d.size) :=
    toI32_dvd (Int.natCast_dvd_natCast.mpr (roundupBlk_dvd d.size))
  unfold Dir.search
  simp only
  rw [if_pos (.inl hiop)]
  by_cases hneg : toI32 (roundupBlk d.size) < 0
  · refine ⟨[], rs, rfl, ?_⟩
    have hend : ¬ ((0 : Nat) : Int) < toI32 (roundupBlk d.size) := by omega
    rw [scanLoop, if_neg hend]
    rfl
  · -- The search ends between two blocks.
    obtain ⟨front, back, hrs, hfront⟩ := exists_cut (e := (toI32 (roundupBlk d.size)).toNat) hd.fits
      (fun r hr => (hd.recs r hr).pos) (by simp only [DIRBLKSIZ] at hdvd ⊢; omega) (Nat.zero_le _)
      (by rw [Nat.zero_add, ← hd.size_eq]; omega)
    have hholds := hd.holds
    have hfits := hd.fits
    rw [hrs, holds_append] at hholds
    rw [hrs, fits_append] at hfits
    rw [← hd.size_eq, hrs, List.length_append] at hlen
    refine ⟨front, back, hrs, ?_⟩
    refine scanLoop_eq name (directsiz name.length) ?_ hholds.1 hfits.1
      (fun r hr => hd.recs r (by rw [hrs]; exact List.mem_append_left _ hr)) (by omega)
    show toI32 (roundupBlk d.size) = (0 + recsLen front : Nat)
    omega

/-- A name that a look-up for `DELETE` finds is found at its place. -/
theorem delete_found (hs : DirState fnv ofs d rs) (hrs : rs = before ++ r :: after) (hlive : r.live = true) {ino : Nat}
    {d₁ : Dir} (h : d.ufsLookupIno fnv ofs .delete r.name = some (.found ino, d₁)) :
    ino = r.ino ∧ ∃ dirhash, d₁ = { d with offset := recsLen before, count := distance before, dirhash := dirhash }
      ∧ HashOpt fnv ofs dirhash (index 0 rs) d.size := by
  have hd := hs.dir
  cases hhash : d.dirhash with
  | some dh =>
      obtain ⟨dirhash, prevoff, hlook, hopt, hprev⟩ := lookup_hashed .delete hs hrs hlive hhash
      rw [hlook, found_delete hs hrs hlive dirhash prevoff (hprev rfl)] at h
      obtain ⟨rfl, rfl⟩ : r.ino = ino ∧ _ = d₁ := by simpa using h
      exact ⟨rfl, dirhash, rfl, hopt⟩
  | none =>
      obtain ⟨front, back, hcut, hsearch⟩ := search_front .delete hd (by decide) r.name (Dir.slotInit .delete)
      obtain ⟨hbefore, -⟩ := name_once (hrs ▸ hd.names) hlive
      have hwht := isWhiteout_false hd hrs hlive
      have hlook : d.scanResult ofs .delete (scanRecs r.name (directsiz r.name.length) ⟨0, 0, 0, Dir.slotInit .delete⟩ front)
          = some (.found ino, d₁) := by
        rw [← h]
        unfold Dir.ufsLookupIno Dir.linear
        rw [hhash]
        simp only
        rw [hsearch, Option.bind_some]
      -- The records searched have the name.
      have hmem : r.name ∈ namesOf front := by
        by_contra hno
        obtain ⟨scan, hscan⟩ := scanRecs_nothing (directsiz r.name.length) ⟨0, 0, 0, Dir.slotInit .delete⟩ hno
        rw [hscan] at hlook
        simp [Dir.scanResult, Dir.notfound] at hlook
      obtain ⟨mid, rfl⟩ : ∃ mid, front = before ++ r :: mid := by
        rw [hrs] at hcut
        obtain ⟨mid, hfront, hmid⟩ | ⟨mid, hfront, -⟩ := List.append_eq_append_iff.mp hcut
        · cases mid with
          | nil => exact absurd (by rwa [hfront, List.append_nil] at hmem) hbefore
          | cons r' mid =>
              rw [List.cons_append, List.cons.injEq] at hmid
              exact ⟨mid, by rw [hfront, hmid.1]⟩
        · exact absurd (by rw [hfront, namesOf_append]; exact List.mem_append_left _ hmem) hbefore
      obtain ⟨scan, hscan, hoff, hprev⟩ := scanRecs_present (directsiz r.name.length) mid
        ⟨0, 0, 0, Dir.slotInit .delete⟩ hbefore hlive rfl
      have hplace := found_delete hs hrs hlive none scan.prevoff fun _ => hprev
      rw [hscan] at hlook
      simp only [Dir.scanResult, hoff, Nat.zero_add, hwht, Bool.false_eq_true, if_false] at hlook
      rw [← hhash] at hplace
      rw [hplace] at hlook
      obtain ⟨rfl, rfl⟩ : r.ino = ino ∧ _ = d₁ := by simpa using hlook
      exact ⟨rfl, d.dirhash, rfl, hs.hash⟩

end Lookup

/-! ### The bytes of the name -/

section Name

variable {ofs : Bool} {m : Mem} {o i : Nat} {r : Rec}

/-- As many bytes of the name are cleared as `d_namlen` says. -/
theorem wiped_name (m : Mem) (o i : Nat) : wiped m o (o + 8 + i) = if i < (m (o + 7)).toNat then 0 else m (o + 8 + i) := by
  have hhead : AgreeOn (setIno ((m.zero (o + 8) (m (o + 7)).toNat).zero (o + 6) 2) o 0)
      (m.zero (o + 8) (m (o + 7)).toNat) (o + 8 + i) (o + 8 + i + 1) :=
    (Mem.agreeOn_write32 0 (.inr (by omega))).trans (Mem.agreeOn_zero 2 (.inr (by omega)))
  have hrange : (o + 8 ≤ o + 8 + i ∧ o + 8 + i < o + 8 + (m (o + 7)).toNat) ↔ i < (m (o + 7)).toNat := by omega
  rw [wiped, hhead (o + 8 + i) (le_refl _) (by omega), Mem.zero, if_congr hrange rfl rfl]

theorem wiped_new (hrec : recOf false m o = r) (hlive : r.live = true) (hi : i < r.name.length) :
    wiped m o (o + 8 + i) = 0 := by
  have hlen : (m (o + 7)).toNat = r.name.length := by
    rw [← recOf_dName hrec hlive, dName_length]
    rfl
  rw [wiped_name, if_pos (by omega)]

/-- In the old format `d_namlen` is 0. -/
theorem wiped_old (hrec : recOf true m o = r) (hlive : r.live = true) (htype : r.type = 0) :
    wiped m o (o + 8 + i) = m (o + 8 + i) := by
  have hzero : (m (o + 7)).toNat = 0 := by
    rw [← htype, ← hrec, recOf, if_neg ((recOf_live hrec).mp hlive)]
    rfl
  rw [wiped_name, if_neg (by omega)]

end Name

/-! ### The removal -/

section Removal

variable {fnv : List UInt8 → Nat} {ofs : Bool} {d : Dir} {rs before after : List Rec} {r : Rec}

theorem placed_name {o : Nat} {p : Nat × List UInt8 × Nat × Nat} (hp : p ∈ placed o rs) : p.2.1 ∈ namesOf rs := by
  rw [namesOf_eq, ← placed_entries o rs, List.map_map]
  exact List.mem_map_of_mem hp

/-- An entry is taken out by its name. -/
theorem placed_filter (hnames : (namesOf rs).Nodup) (hrs : rs = before ++ r :: after) (hlive : r.live = true) :
    placed 0 before ++ placed (recsLen before + r.reclen) after = (placed 0 rs).filter (fun p => p.2.1 ≠ r.name) := by
  obtain ⟨hbefore, hafter⟩ := name_once (hrs ▸ hnames) hlive
  have hkeep : ∀ (o : Nat) (rs' : List Rec), r.name ∉ namesOf rs' →
      (placed o rs').filter (fun p => p.2.1 ≠ r.name) = placed o rs' := by
    intro o rs' hno
    rw [List.filter_eq_self]
    intro p hp
    have hne : p.2.1 ≠ r.name := by
      rintro heq
      exact hno (heq ▸ placed_name hp)
    simpa using hne
  have hcons : placed (recsLen before) (r :: after)
      = (recsLen before, r.name, r.ino, r.type) :: placed (recsLen before + r.reclen) after := by
    rw [placed, if_pos hlive]
  rw [hrs, placed_append, Nat.zero_add, List.filter_append, hkeep 0 before hbefore, hcons,
    List.filter_cons_of_neg (by simp), hkeep _ after hafter]

/-- With the block, all of it is done except perhaps the clearing of the name. -/
theorem remove_done (hw : WellFormed fnv ofs d rs) (hrs : rs = before ++ r :: after) (hlive : r.live = true) {ip : Unlinked}
    (hino : ip.number = r.ino) {d₁ : Dir}
    (h : d.ufsLookupIno fnv ofs .delete r.name = some (.found r.ino, d₁)) :
    d₁.data = d.data ∧ ∃ d' ip' rs', ufsDirremoveLinks fnv d₁ ip 0 = some (0, d', ip') ∧ WellFormed fnv ofs d' rs'
      ∧ placed 0 rs' = (placed 0 rs).filter (fun p => p.2.1 ≠ r.name)
      ∧ ∀ i, d'.data (recsLen before + 8 + i) = wiped d.data (recsLen before) (recsLen before + 8 + i) := by
  obtain ⟨-, dirhash, rfl, hhash⟩ := delete_found hw.state hrs hlive h
  have hmem : r ∈ rs := by
    rw [hrs]
    exact List.mem_append_right _ List.mem_cons_self
  obtain ⟨data, dirhash', rs', hremove, hs', hplaced, htypes, hbytes⟩ := dirremove_placed (d := { d with
    offset := recsLen before, count := distance before, dirhash := dirhash }) ⟨hw.state.dir, hhash⟩ hrs hlive
    (fun hofs => hw.old hofs r hmem) hino.symm rfl rfl
  refine ⟨rfl, _, { ip with effnlink := ip.effnlink - 1, nlink := ip.nlink - 1, dinlink := ip.nlink - 1 }, rs', ?_,
    ⟨hs', ?_⟩, ?_, fun i => hbytes (recsLen before + 8 + i + 1) _ (by omega) (by omega)⟩
  · simp only [ufsDirremoveLinks, ne_eq, not_true_eq_false, if_false]
    rw [hremove]
    rfl
  · intro hofs r' hr'
    rcases htypes r' hr' with hzero | ⟨r₀, hr₀, heq⟩
    · exact hzero
    · rw [← heq]
      exact hw.old hofs r₀ hr₀
  · rw [hplaced]
    exact placed_filter hw.state.dir.names hrs hlive

/-- Without the block the links are put back. -/
theorem remove_unread (d : Dir) (ip : Unlinked) {error : Nat} (he : error ≠ 0) :
    ∃ d' ip', ufsDirremoveLinks fnv d ip error = some (error, d', ip') ∧ d'.data = d.data ∧ ip'.nlink = ip.nlink
      ∧ ip'.effnlink = ip.effnlink := by
  refine ⟨d, { ip with
    effnlink := ip.effnlink - 1 + 1, nlink := ip.nlink - 1 + 1, dinlink := ip.nlink - 1 + 1 }, ?_, rfl, ?_, ?_⟩
  · rw [ufsDirremoveLinks]
    exact if_pos he
  · exact BitVec.sub_add_cancel ip.nlink 1
  · exact BitVec.sub_add_cancel ip.effnlink 1

/-- A name in the old format stays. -/
theorem old_name_stays (hw : WellFormed fnv true d rs) (hrs : rs = before ++ r :: after) (hlive : r.live = true)
    (hname : IsFilename r.name) {ip : Unlinked} (hino : ip.number = r.ino) {d₁ : Dir}
    (h : d.ufsLookupIno fnv true .delete r.name = some (.found r.ino, d₁)) :
    ¬ RemovesOnly fnv true rs (recsLen before) r.name d₁ ip := by
  rintro ⟨⟨d', ip', rs', hremove, -, -, hcleared⟩, -⟩
  obtain ⟨-, d'', ip'', rs'', hremove', -, -, hbytes⟩ := remove_done hw hrs hlive hino h
  obtain ⟨rfl, -⟩ : d'' = d' ∧ ip'' = ip' := by simpa [hremove] using hremove'.symm
  obtain ⟨hrec, -, -, -⟩ := hw.state.dir.rec_at hrs
  have hlen : 0 < r.name.length := List.length_pos_iff.mpr hname.ne_nil
  have hmem : r ∈ rs := by
    rw [hrs]
    exact List.mem_append_right _ List.mem_cons_self
  -- The first byte of the name, before and after.
  have hfirst : d.data (recsLen before + 8 + 0) = 0 := by
    rw [← wiped_old hrec hlive (hw.old rfl r hmem), ← hbytes 0]
    exact hcleared 0 hlen
  have hhead : d.data (recsLen before + 8 + 0) ∈ r.name := by
    rw [← recOf_dName hrec hlive]
    exact List.mem_map_of_mem (List.mem_range.mpr (by rw [← dName_length, recOf_dName hrec hlive]; exact hlen))
  exact hname.no_null (hfirst ▸ hhead)

end Removal

theorem removesOnly_iff {fnv : List UInt8 → Nat} {ofs : Bool} {d : Dir} {rs before after : List Rec} {r : Rec}
    (hw : WellFormed fnv ofs d rs) (hrs : rs = before ++ r :: after) (hlive : r.live = true) (hname : IsFilename r.name) :
    (d.size ≤ MAXDIRSIZE → ∃ d₁, d.ufsLookupIno fnv ofs .delete r.name = some (.found r.ino, d₁))
      ∧ ∀ ino d₁ ip, d.ufsLookupIno fnv ofs .delete r.name = some (.found ino, d₁) → ip.number = ino →
          (RemovesOnly fnv ofs rs (recsLen before) r.name d₁ ip ↔ ofs = false) := by
  constructor
  · intro hsize
    have hlt : d.size < 2147483648 := by
      simp only [MAXDIRSIZE] at hsize
      omega
    obtain ⟨dirhash, prevoff, hlook, -, hprev⟩ := lookup_found .delete hw.state hlt (fun h => by cases h) hrs hlive
    exact ⟨_, hlook.trans (found_delete hw.state hrs hlive dirhash prevoff (hprev rfl))⟩
  · intro ino d₁ ip h hip
    obtain ⟨rfl, -⟩ := delete_found hw.state hrs hlive h
    constructor
    · intro honly
      cases ofs with
      | false => rfl
      | true => exact absurd honly (old_name_stays hw hrs hlive hname hip h)
    · rintro rfl
      obtain ⟨-, d', ip', rs', hremove, hw', hplaced, hbytes⟩ := remove_done hw hrs hlive hip h
      obtain ⟨hrec, -, -, -⟩ := hw.state.dir.rec_at hrs
      refine ⟨⟨d', ip', rs', hremove, hw', hplaced, ?_⟩, fun error he => remove_unread d₁ ip he⟩
      intro i hi
      rw [hbytes i]
      exact wiped_new hrec hlive hi

/-- "." and "..", and a file "a". -/
def fileRecs (ofs : Bool) : List Rec :=
  [⟨2, 12, if ofs then 0 else 4, [46]⟩, ⟨2, 12, if ofs then 0 else 4, [46, 46]⟩, ⟨7, 488, if ofs then 0 else 8, [97]⟩]

def filesDir (ofs : Bool) : Dir where
  data x :=
    if x < 12 then Direct.bytes ofs ⟨2, if ofs then 0 else 4, [46]⟩ 12 x
    else if x < 24 then Direct.bytes ofs ⟨2, if ofs then 0 else 4, [46, 46]⟩ 12 (x - 12)
    else Direct.bytes ofs ⟨7, if ofs then 0 else 8, [97]⟩ 488 (x - 24)
  size := 512
  offset := 0
  count := 0
  endoff := 0
  diroff := 0
  dirhash := none

theorem wellFormed_files (ofs : Bool) : WellFormed (fun _ => 0) ofs (filesDir ofs) (fileRecs ofs) := by
  have hrecs : ∀ r ∈ fileRecs ofs, 4 ∣ r.reclen ∧ r.foot ≤ r.reclen ∧ r.ino ≠ UFS_WINO ∧ (ofs = false → r.type ≠ DT_WHT) := by
    cases ofs <;> decide
  constructor
  case state =>
    refine ⟨⟨⟨?_, ⟨1, rfl⟩, ?_, ?_⟩, ?_, ?_⟩, hashOpt_none⟩
    · cases ofs <;> decide
    · cases ofs <;> exact ⟨by decide, by decide, by decide, trivial⟩
    · intro r hr
      obtain ⟨hdvd, hfoot, hwino, hwht⟩ := hrecs r hr
      exact ⟨hdvd, hfoot, hwino, hwht⟩
    · cases ofs <;> exact ⟨by decide, by decide, by decide, trivial⟩
    · cases ofs <;> decide
  case old =>
    rintro rfl
    decide

theorem isFilename_a : IsFilename [97] := ⟨by decide, by decide, by decide, by decide⟩

theorem removesOnly_file : ((filesDir false).size ≤ MAXDIRSIZE → ∃ d₁,
      (filesDir false).ufsLookupIno (fun _ => 0) false .delete [97] = some (.found 7, d₁))
    ∧ ∀ ino d₁ ip, (filesDir false).ufsLookupIno (fun _ => 0) false .delete [97] = some (.found ino, d₁) → ip.number = ino →
        (RemovesOnly (fun _ => 0) false (fileRecs false) (recsLen ((fileRecs false).take 2)) [97] d₁ ip ↔ false = false) := by
  have hrs : fileRecs false = (fileRecs false).take 2 ++ ⟨7, 488, 8, [97]⟩ :: [] := rfl
  have hiff := removesOnly_iff (wellFormed_files false) hrs rfl isFilename_a
  exact hiff

/-- The file "a" of an old directory is removed, and its name stays. -/
theorem remove_old_file : WellFormed (fun _ => 0) true (filesDir true) (fileRecs true)
    ∧ ∃ d₁, (filesDir true).ufsLookupIno (fun _ => 0) true .delete [97] = some (.found 7, d₁)
      ∧ ¬ RemovesOnly (fun _ => 0) true (fileRecs true) 24 [97] d₁ ⟨7, 1, 1, 1⟩ := by
  have hw := wellFormed_files true
  have hrs : fileRecs true = (fileRecs true).take 2 ++ ⟨7, 488, 0, [97]⟩ :: [] := rfl
  obtain ⟨dirhash, prevoff, hlook, -, hprev⟩ := lookup_found .delete hw.state (by decide) (fun h => by cases h) hrs rfl
  have hfound := hlook.trans (found_delete hw.state hrs rfl dirhash prevoff (hprev rfl))
  exact ⟨hw, _, hfound, old_name_stays hw hrs rfl isFilename_a rfl hfound⟩

end UfsX.Proofs
