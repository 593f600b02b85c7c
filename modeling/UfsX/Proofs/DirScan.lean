import UfsX.Proofs.DirRecords

/-!
# `UfsX.Proofs.DirScan`: the search loop over a well-formed directory

`scanLoop` reads bytes; on a well-formed directory it does what `scanRecs` does with
the list of records (`scanLoop_eq`). Two results follow. A name that is not there is
not found, and the slot is then a range of records with enough free bytes, in one
block (`Region`), while no live record begins at `enduseful` or later
(`scanRecs_absent`). A name that is there is found at its place, with the place of the
record before it (`scanRecs_present`).

`SlotOk` is the invariant of the slot: while there is none, the free bytes counted so
far are those of the last records seen, all of one block.
-/

set_option autoImplicit false

namespace UfsX.Proofs

open UfsX.Lib UfsX.Ufs

/-! ### The search over records -/

/-- `scanLoop` over the records that are left. -/
def scanRecs (name : List UInt8) (slotneeded : Nat) : Scan → List Rec → ScanEnd
  | scan, [] => .nothing scan
  | scan, r :: rs =>
      let slot := scan.slot.step slotneeded scan.ioffset r.reclen r.free
      if r.live ∧ r.name = name then .entry { scan with slot := slot }
      else
        scanRecs name slotneeded
          { ioffset := scan.ioffset + r.reclen
            prevoff := scan.ioffset
            enduseful := if r.live then scan.ioffset + r.reclen else scan.enduseful
            slot := slot } rs

section Loop

variable {ofs : Bool} {m : Mem} {o : Nat} {r : Rec} {rs : List Rec}

theorem recOf_free (h : recOf ofs m o = r) :
    (if dIno m o = 0 then dReclen m o else dReclen m o - dirsiz ofs m o) = r.free := by
  subst h
  unfold Rec.free
  rw [recOf_used, recOf_reclen]
  split <;> rfl

theorem recOf_live (h : recOf ofs m o = r) : r.live = true ↔ dIno m o ≠ 0 := by
  subst h
  unfold Rec.live
  rw [recOf_ino, decide_eq_true_iff]

theorem recOf_dReclen (h : recOf ofs m o = r) : dReclen m o = r.reclen := by
  rw [← h, recOf_reclen]

theorem recOf_dName (h : recOf ofs m o = r) (hlive : r.live = true) : dName ofs m o = r.name := by
  rw [← h, recOf_name ((recOf_live h).mp hlive)]

theorem recOf_dirsiz (h : recOf ofs m o = r) (hlive : r.live = true) : dirsiz ofs m o = r.used := by
  rw [← h, recOf_used, if_neg ((recOf_live h).mp hlive)]

/-- The loop reads the records. -/
theorem scanLoop_eq {fuel : Nat} {scan : Scan} {endsearch : Int} (name : List UInt8) (needed : Nat)
    (hend : endsearch = (scan.ioffset + recsLen rs : Nat)) (hholds : Holds ofs m scan.ioffset rs) (hfits : Fits scan.ioffset rs)
    (hok : ∀ r ∈ rs, r.Ok ofs) (hfuel : rs.length < fuel) :
    scanLoop ofs m name needed endsearch fuel scan
      = some (scanRecs name needed scan rs) := by
  induction rs generalizing scan fuel with
  | nil =>
      cases fuel with
      | zero => exact absurd hfuel (Nat.not_lt_zero _)
      | succ fuel => simp [scanLoop, scanRecs, hend]
  | cons r rs ih =>
      cases fuel with
      | zero => exact absurd hfuel (Nat.not_lt_zero _)
      | succ fuel =>
          obtain ⟨hr, hrest⟩ := hholds
          obtain ⟨hfit, hfits⟩ := hfits
          have hpos := (hok r List.mem_cons_self).pos
          have hreclen := recOf_dReclen hr
          have hlive := recOf_live hr
          have hfree := recOf_free hr
          rw [hreclen] at hfree
          rw [recsLen_cons] at hend
          have hlt : (scan.ioffset : Int) < endsearch := by omega
          have hend' : endsearch = (scan.ioffset + r.reclen + recsLen rs : Nat) := by omega
          unfold scanLoop scanRecs
          simp only [hlt, if_true, hreclen, hfree]
          rw [if_neg (by unfold DIRBLKSIZ at *; omega)]
          by_cases hz : dIno m scan.ioffset = 0
          · have hdead : ¬ r.live = true := fun h => hlive.mp h hz
            have hno : ¬ (dIno m scan.ioffset ≠ 0 ∧ dName ofs m scan.ioffset = name) := fun h => h.1 hz
            have hno' : ¬ (r.live = true ∧ r.name = name) := fun h => hdead h.1
            rw [if_neg hno, if_neg hno', if_pos hz, if_neg hdead]
            exact ih hend' hrest hfits (fun r' hr' => hok r' (List.mem_cons_of_mem _ hr'))
              (Nat.lt_of_succ_lt_succ hfuel)
          · have hl := hlive.mpr hz
            have hname := recOf_dName hr hl
            rw [hname, if_neg hz, if_pos hl]
            by_cases heq : r.name = name
            · rw [if_pos ⟨hz, heq⟩, if_pos ⟨hl, heq⟩]
            · have hno : ¬ (dIno m scan.ioffset ≠ 0 ∧ r.name = name) := fun h => heq h.2
              have hno' : ¬ (r.live = true ∧ r.name = name) := fun h => heq h.2
              rw [if_neg hno, if_neg hno']
              exact ih hend' hrest hfits (fun r' hr' => hok r' (List.mem_cons_of_mem _ hr'))
                (Nat.lt_of_succ_lt_succ hfuel)

end Loop

/-! ### The slot -/

/-- The free bytes of some records. -/
def freeOf (rs : List Rec) : Nat := (rs.map Rec.free).sum

@[simp] theorem freeOf_nil : freeOf [] = 0 := rfl

@[simp] theorem freeOf_cons (r : Rec) (rs : List Rec) : freeOf (r :: rs) = r.free + freeOf rs := by
  simp [freeOf]

@[simp] theorem freeOf_append (rs rs' : List Rec) : freeOf (rs ++ rs') = freeOf rs + freeOf rs' := by
  simp [freeOf]

/-- Bytes `slotoffset` to `slotoffset + slotsize` are records of one block, with
enough bytes to spare. -/
def Region (rs : List Rec) (slotoffset slotsize needed : Nat) : Prop :=
  ∃ before mid after, rs = before ++ mid ++ after ∧ recsLen before = slotoffset
    ∧ recsLen mid = slotsize ∧ slotoffset % DIRBLKSIZ + slotsize ≤ DIRBLKSIZ ∧ mid ≠ []
    ∧ needed ≤ freeOf mid

theorem Region.append {rs : List Rec} {so sz needed : Nat} (h : Region rs so sz needed)
    (rs' : List Rec) : Region (rs ++ rs') so sz needed := by
  obtain ⟨before, mid, after, rfl, hrest⟩ := h
  exact ⟨before, mid, after ++ rs', by simp, hrest⟩

/-- Free bytes are being counted, from `slotoffset` on. -/
def Counting (seen : List Rec) (slotoffset freespace : Nat) : Prop :=
  ∃ before mid, seen = before ++ mid ∧ recsLen before = slotoffset ∧ mid ≠ []
    ∧ slotoffset % DIRBLKSIZ + recsLen mid ≤ DIRBLKSIZ ∧ freespace = freeOf mid

/-- The slot after the records `seen`. -/
def SlotOk (needed : Nat) (seen : List Rec) (slot : Slot) : Prop :=
  match slot.status with
  | .none => (slot.offset = none ∧ slot.freespace = 0)
      ∨ ∃ so, slot.offset = some so ∧ Counting seen so slot.freespace
  | .compact | .found => ∃ so, slot.offset = some so ∧ Region seen so slot.size needed

section Slot

variable {needed : Nat} {seen : List Rec} {slot : Slot} {r : Rec}

theorem SlotOk.region (h : SlotOk needed seen slot) (hstatus : slot.status ≠ .none) :
    ∃ so, slot.offset = some so ∧ Region seen so slot.size needed := by
  unfold SlotOk at h
  split at h
  · next hnone => exact absurd hnone hstatus
  · exact h
  · exact h

/-- One more record of the same block. -/
theorem Counting.snoc {so freespace : Nat} (h : Counting seen so freespace)
    (hblk : recsLen seen % DIRBLKSIZ ≠ 0) (hfit : recsLen seen % DIRBLKSIZ + r.reclen ≤ DIRBLKSIZ) :
    Counting (seen ++ [r]) so (freespace + r.free) := by
  obtain ⟨before, mid, rfl, hbefore, hne, hle, hfree⟩ := h
  refine ⟨before, mid ++ [r], by simp, hbefore, by simp, ?_, by simp [hfree]⟩
  simp only [recsLen_append, recsLen_cons, recsLen_nil, hbefore] at hblk hfit ⊢
  unfold DIRBLKSIZ at *
  omega

theorem counting_one (hfit : recsLen seen % DIRBLKSIZ + r.reclen ≤ DIRBLKSIZ) :
    Counting (seen ++ [r]) (recsLen seen) r.free :=
  ⟨seen, [r], rfl, rfl, by simp, by simpa using hfit, by simp⟩

theorem Counting.region {so freespace : Nat} (h : Counting seen so freespace)
    (hneeded : needed ≤ freespace) : Region seen so (recsLen seen - so) needed := by
  obtain ⟨before, mid, rfl, hbefore, hne, hle, hfree⟩ := h
  have hlen : recsLen (before ++ mid) - so = recsLen mid := by
    rw [recsLen_append, hbefore, Nat.add_sub_cancel_left]
  exact ⟨before, mid, [], by simp, hbefore, hlen.symm, by rw [hlen]; exact hle, hne, by omega⟩

/-- No slot yet: what the start of a block does to the count. -/
theorem slotOk_count (h : SlotOk needed seen slot) (hstatus : slot.status = .none)
    (hfit : recsLen seen % DIRBLKSIZ + r.reclen ≤ DIRBLKSIZ) :
    let slot' : Slot := if slot.status = .none ∧ recsLen seen % DIRBLKSIZ = 0
      then { slot with offset := none, freespace := 0 } else slot
    (slot'.offset = none ∧ slot'.freespace = 0 ∧ Counting (seen ++ [r]) (recsLen seen) r.free)
      ∨ ∃ so, slot'.offset = some so ∧ Counting (seen ++ [r]) so (slot'.freespace + r.free) := by
  by_cases hblk : recsLen seen % DIRBLKSIZ = 0
  · simp only [hstatus, hblk, and_self, if_true]
    exact .inl ⟨trivial, trivial, counting_one hfit⟩
  · simp only [hblk, and_false, if_false]
    unfold SlotOk at h
    rw [hstatus] at h
    obtain ⟨hoff, hfree⟩ | ⟨so, hoff, hcount⟩ := h
    · exact .inl ⟨hoff, hfree, counting_one hfit⟩
    · exact .inr ⟨so, hoff, hcount.snoc hblk hfit⟩

/-- One turn of the loop. -/
theorem SlotOk.step (h : SlotOk needed seen slot)
    (hfit : recsLen seen % DIRBLKSIZ + r.reclen ≤ DIRBLKSIZ) :
    SlotOk needed (seen ++ [r]) (slot.step needed (recsLen seen) r.reclen r.free) := by
  by_cases hstatus : slot.status = .none
  · have hcount := slotOk_count h hstatus hfit
    have hstatus' : (if slot.status = .none ∧ recsLen seen % DIRBLKSIZ = 0
        then { slot with offset := none, freespace := 0 } else slot).status = .none := by
      split <;> exact hstatus
    unfold Slot.step
    revert hcount hstatus'
    generalize (if slot.status = .none ∧ recsLen seen % DIRBLKSIZ = 0
      then { slot with offset := none, freespace := 0 } else slot) = slot'
    intro hcount hstatus'
    -- in both cases the record is counted, from some offset on
    have hnew : ∃ so, slot'.offset.getD (recsLen seen) = so
        ∧ Counting (seen ++ [r]) so (slot'.freespace + r.free) := by
      obtain ⟨hoff, hfree, hone⟩ | ⟨so, hoff, hmore⟩ := hcount
      · exact ⟨recsLen seen, by rw [hoff]; rfl, by rw [hfree, Nat.zero_add]; exact hone⟩
      · exact ⟨so, by rw [hoff]; rfl, hmore⟩
    obtain ⟨so, hso, hmore⟩ := hnew
    simp only [hstatus', reduceCtorEq, false_or, hso, if_true]
    by_cases hzero : r.free = 0
    · rw [if_pos hzero]
      unfold SlotOk
      rw [hstatus']
      obtain ⟨hoff, hfree, -⟩ | ⟨so', hoff, hmore'⟩ := hcount
      · exact .inl ⟨hoff, hfree⟩
      · rw [hzero] at hmore'
        exact .inr ⟨so', hoff, hmore'⟩
    · rw [if_neg hzero]
      by_cases hfound : needed ≤ r.free
      · rw [if_pos hfound]
        have hregion := (counting_one hfit).region hfound
        simp only [recsLen_append, recsLen_cons, recsLen_nil, Nat.add_zero,
          Nat.add_sub_cancel_left] at hregion
        exact ⟨_, rfl, hregion⟩
      · rw [if_neg hfound]
        by_cases hcompact : needed ≤ slot'.freespace + r.free
        · rw [if_pos hcompact]
          have hregion := hmore.region hcompact
          simp only [recsLen_append, recsLen_cons, recsLen_nil, Nat.add_zero] at hregion
          exact ⟨_, rfl, hregion⟩
        · rw [if_neg hcompact]
          unfold SlotOk
          exact .inr ⟨_, rfl, hmore⟩
  · -- there is a slot already: it stays, or gives way to a record that has the space
    obtain ⟨so, hoff, hregion⟩ := h.region hstatus
    have hstay : SlotOk needed (seen ++ [r]) slot := by
      unfold SlotOk
      split
      · next hnone => exact absurd hnone hstatus
      · exact ⟨so, hoff, hregion.append [r]⟩
      · exact ⟨so, hoff, hregion.append [r]⟩
    unfold Slot.step
    simp only [hstatus, false_and, if_false]
    split
    · exact hstay
    · split
      · next hfound =>
          have hnew := (counting_one hfit).region hfound
          simp only [recsLen_append, recsLen_cons, recsLen_nil, Nat.add_zero,
            Nat.add_sub_cancel_left] at hnew
          exact ⟨_, rfl, hnew⟩
      · exact hstay

end Slot

/-! ### A name that is not there -/

theorem not_match_of_notMem {name : List UInt8} {r : Rec} (h : name ∉ namesOf [r]) :
    ¬ (r.live = true ∧ r.name = name) := by
  rintro ⟨hlive, rfl⟩
  exact h (by simp [namesOf, liveOf, hlive])

/-- The variables of the loop after the records `seen`. -/
structure ScanOk (needed : Nat) (seen : List Rec) (scan : Scan) : Prop where
  ioffset_eq : scan.ioffset = recsLen seen
  slot : SlotOk needed seen scan.slot
  live_lt : ∀ p ∈ index 0 seen, p.1 < scan.enduseful
  enduseful_le : scan.enduseful ≤ recsLen seen

theorem scanOk_start (needed : Nat) (slot : Slot) (h : SlotOk needed [] slot) :
    ScanOk needed [] ⟨0, 0, 0, slot⟩ :=
  ⟨rfl, h, fun _ hp => absurd hp List.not_mem_nil, le_refl _⟩

theorem scanRecs_absent {ofs : Bool} {name : List UInt8} {needed : Nat} {seen rs : List Rec}
    {scan : Scan} (h : ScanOk needed seen scan) (hfits : Fits scan.ioffset rs)
    (hok : ∀ r ∈ rs, r.Ok ofs) (hname : name ∉ namesOf rs) :
    ∃ scan', scanRecs name needed scan rs = .nothing scan' ∧ ScanOk needed (seen ++ rs) scan' := by
  induction rs generalizing seen scan with
  | nil => exact ⟨scan, rfl, by rw [List.append_nil]; exact h⟩
  | cons r rs ih =>
      obtain ⟨hfit, hfits⟩ := hfits
      have hpos := (hok r List.mem_cons_self).pos
      rw [show r :: rs = [r] ++ rs from rfl, namesOf_append, List.mem_append, not_or] at hname
      unfold scanRecs
      rw [if_neg (not_match_of_notMem hname.1), show r :: rs = [r] ++ rs from rfl, ← List.append_assoc]
      refine ih ?_ hfits (fun r' hr' => hok r' (List.mem_cons_of_mem _ hr')) hname.2
      rw [h.ioffset_eq] at hfit
      refine ⟨by simp [h.ioffset_eq], by rw [h.ioffset_eq]; exact h.slot.step hfit, ?_, ?_⟩
      · intro p hp
        rw [index_append, List.mem_append, Nat.zero_add] at hp
        have hend := h.enduseful_le
        rw [h.ioffset_eq]
        by_cases hlive : r.live = true
        · simp only [hlive, if_true]
          obtain hp | hp := hp
          · have := h.live_lt p hp
            omega
          · simp only [index, hlive, if_true, List.mem_singleton] at hp
            subst hp
            exact Nat.lt_add_of_pos_right hpos
        · simp only [hlive, Bool.false_eq_true, if_false]
          obtain hp | hp := hp
          · exact h.live_lt p hp
          · simp only [index, hlive, Bool.false_eq_true, if_false] at hp
            exact absurd hp List.not_mem_nil
      · have hend := h.enduseful_le
        simp only [recsLen_append, recsLen_cons, recsLen_nil, h.ioffset_eq]
        split <;> omega

theorem scanRecs_nothing {name : List UInt8} (needed : Nat) {rs : List Rec} (scan : Scan)
    (hname : name ∉ namesOf rs) : ∃ scan', scanRecs name needed scan rs = .nothing scan' := by
  induction rs generalizing scan with
  | nil => exact ⟨scan, rfl⟩
  | cons r rs ih =>
      rw [show r :: rs = [r] ++ rs from rfl, namesOf_append, List.mem_append, not_or] at hname
      unfold scanRecs
      rw [if_neg (not_match_of_notMem hname.1)]
      exact ih _ hname.2

/-! ### A name that is there -/

/-- The offset of the last of some records, `prevoff` if there are none. -/
def lastOffset (prevoff o : Nat) (rs : List Rec) : Nat :=
  if rs = [] then prevoff else o + recsLen rs.dropLast

theorem lastOffset_cons (prevoff o : Nat) (r : Rec) (rs : List Rec) :
    lastOffset prevoff o (r :: rs) = lastOffset o (o + r.reclen) rs := by
  unfold lastOffset
  cases rs with
  | nil => simp
  | cons r' rs => simp [Nat.add_assoc]

theorem scanRecs_present {name : List UInt8} (needed : Nat) {rs : List Rec} (rest : List Rec) {r : Rec}
    (scan : Scan) (hname : name ∉ namesOf rs) (hlive : r.live = true) (heq : r.name = name) :
    ∃ scan', scanRecs name needed scan (rs ++ r :: rest) = .entry scan'
      ∧ scan'.ioffset = scan.ioffset + recsLen rs
      ∧ scan'.prevoff = lastOffset scan.prevoff scan.ioffset rs := by
  induction rs generalizing scan with
  | nil =>
      refine ⟨{ scan with slot := scan.slot.step needed scan.ioffset r.reclen r.free }, ?_, rfl, rfl⟩
      simp only [List.nil_append, scanRecs]
      rw [if_pos ⟨hlive, heq⟩]
  | cons r' rs ih =>
      rw [show r' :: rs = [r'] ++ rs from rfl, namesOf_append, List.mem_append, not_or] at hname
      simp only [List.cons_append, scanRecs]
      rw [if_neg (not_match_of_notMem hname.1)]
      obtain ⟨scan', hscan, hoff, hprev⟩ := ih _ hname.2
      refine ⟨scan', hscan, ?_, ?_⟩
      · rw [hoff, recsLen_cons]
        exact Nat.add_assoc _ _ _
      · rw [hprev, lastOffset_cons]

end UfsX.Proofs
