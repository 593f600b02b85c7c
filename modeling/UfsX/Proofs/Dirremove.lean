import UfsX.Proofs.LookupIno

/-!
# `UfsX.Proofs.Dirremove`: an entry taken out of a directory

A lookup for `DELETE` leaves the place of the record and the distance from the record
before it (`lookup_delete`). `ufs_dirremove` frees the record, and its bytes go to the
record before it, unless it is the first of its block (`dirremove_ok`).
-/

set_option autoImplicit false

namespace UfsX.Proofs

open UfsX.Lib UfsX.Ufs

/-! ### The lookup -/

section Lookup

variable {fnv : List UInt8 → Nat} {ofs : Bool} {d : Dir} {rs before after : List Rec} {r : Rec}

/-- The distance from the record before, 0 at the start of a block. -/
def distance (before : List Rec) : Int :=
  if recsLen before % DIRBLKSIZ = 0 then 0 else recsLen before - lastOffset 0 0 before

/-- Both searches leave the place of the record. -/
theorem found_delete (hs : DirState fnv ofs d rs) (hrs : rs = before ++ r :: after) (hlive : r.live = true)
    (dirhash : Option Dirhash) (prevoff : Nat) (hprev : recsLen before % DIRBLKSIZ ≠ 0 → prevoff = lastOffset 0 0 before) :
    { d with dirhash := dirhash }.found ofs .delete (recsLen before) prevoff
      = some (.found r.ino, { d with offset := recsLen before, count := distance before, dirhash := dirhash }) := by
  obtain ⟨offset, count, diroff, hfound, -, -, hplace⟩ := found_some (d := { d with dirhash := dirhash })
    .delete prevoff hs.dir hrs hlive
  obtain ⟨rfl, rfl, rfl⟩ := hplace rfl
  have hdist : (if recsLen before % DIRBLKSIZ = 0 then (0 : Int) else recsLen before - prevoff)
      = distance before := by
    unfold distance
    by_cases hblk : recsLen before % DIRBLKSIZ = 0
    · rw [if_pos hblk, if_pos hblk]
    · rw [if_neg hblk, if_neg hblk, hprev hblk]
  rw [hfound, hdist]

theorem lookup_delete (hs : DirState fnv ofs d rs) (hsize : d.size < 2147483648) (hdiroff : DiroffOk d)
    (hrs : rs = before ++ r :: after) (hlive : r.live = true) :
    ∃ dirhash, d.ufsLookupIno fnv ofs .delete r.name
        = some (.found r.ino, { d with
          offset := recsLen before, count := distance before, dirhash := dirhash })
      ∧ HashOpt fnv ofs dirhash (index 0 rs) d.size := by
  obtain ⟨dirhash, prevoff, hlook, hhash, hprev⟩ := lookup_found .delete hs hsize (fun _ => hdiroff) hrs hlive
  exact ⟨dirhash, hlook.trans (found_delete hs hrs hlive dirhash prevoff (hprev rfl)), hhash⟩

end Lookup

/-! ### The record is freed -/

section Remove

variable {fnv : List UInt8 → Nat} {ofs : Bool} {m : Mem} {o : Nat} {r : Rec}

/-- A free record of the same length. -/
def Rec.freed (r : Rec) : Rec := ⟨0, r.reclen, 0, []⟩

/-- What `ufs_dirremove` does to the record at `rep`. -/
def wiped (m : Mem) (rep : Nat) : Mem :=
  setIno ((m.zero (rep + 8) (m (rep + 7)).toNat).zero (rep + 6) 2) rep 0

/-- The bytes that are cleared are those of the record. In the old format, the byte of
the type is the other half of the length of the name. -/
theorem wiped_frame (hrec : recOf ofs m o = r) (hok : r.Ok ofs) (hlive : r.live = true)
    (hold : ofs = true → r.type = 0) {lo hi : Nat} (hout : hi ≤ o ∨ o + r.reclen ≤ lo) :
    AgreeOn (wiped m o) m lo hi := by
  have hino := (recOf_live hrec).mp hlive
  have hfoot := hok.foot_le
  rw [Rec.foot_of_live hlive, ← recOf_dirsiz hrec hlive] at hfoot
  have hsiz := eight_le_directsiz (dNamlen ofs m o)
  have hbytes : 8 + (m (o + 7)).toNat ≤ r.reclen := by
    cases ofs with
    | false =>
        have hlen : dNamlen false m o = (m (o + 7)).toNat := rfl
        unfold dirsiz at hfoot
        omega
    | true =>
        have hzero : (m (o + 7)).toNat = 0 := by
          have htype := hold rfl
          rw [← hrec] at htype
          unfold recOf at htype
          rw [if_neg hino] at htype
          exact htype
        unfold dirsiz at hfoot
        omega
  refine ((Mem.agreeOn_write32 0 ?_).trans (Mem.agreeOn_zero _ ?_)).trans (Mem.agreeOn_zero _ ?_)
  · omega
  · omega
  · omega

/-- The length of the record stays. -/
theorem recOf_wiped (hrec : recOf ofs m o = r) : recOf ofs (wiped m o) o = r.freed := by
  have hino : dIno (wiped m o) o = 0 := Mem.read32_write32 (by decide)
  have hagree : AgreeOn (wiped m o) m (o + 4) (o + 6) :=
    ((Mem.agreeOn_write32 0 (.inr (by omega))).trans (Mem.agreeOn_zero _ (.inl (by omega)))).trans
      (Mem.agreeOn_zero _ (.inl (by omega)))
  have hreclen : dReclen (wiped m o) o = r.reclen := by
    rw [← recOf_dReclen hrec]
    exact (hagree.sameBytes (n := 2) (le_refl _) (le_refl _)).read16 (i := 0) (by omega)
  unfold recOf
  rw [if_pos hino, hreclen]
  rfl

theorem Rec.Ok.freed (h : r.Ok ofs) : r.freed.Ok ofs where
  dvd := h.dvd
  foot_le := by
    have h₁ := r.eight_le_foot
    have h₂ := h.foot_le
    change 8 ≤ r.reclen
    omega
  not_wino := by
    change 0 ≠ UFS_WINO
    decide
  not_wht := by
    intro _
    change 0 ≠ DT_WHT
    decide

end Remove

/-- The length of a record does not count. -/
theorem entriesOf_reclen (r : Rec) (reclen : Nat) : entriesOf [{ r with reclen := reclen }] = entriesOf [r] := by
  have hsame : Rec.live { r with reclen := reclen } = r.live := rfl
  unfold entriesOf liveOf
  cases hlive : r.live with
  | true => simp [hsame, hlive]
  | false => simp [hsame, hlive]

section Dirremove

variable {fnv : List UInt8 → Nat} {ofs : Bool} {d : Dir} {rs before after : List Rec} {r : Rec}

/-- The hash table loses the entry. -/
theorem gives_remove (hs : DirState fnv ofs d rs) (hrs : rs = before ++ r :: after)
    (hlive : r.live = true) :
    Gives fnv ofs (withHash d.dirhash
        (·.remove fnv (dName false d.data (recsLen before)) (recsLen before)))
      (index 0 before ++ index (recsLen before + r.reclen) after) d.size := by
  obtain ⟨hrec, hok, -, hle⟩ := hs.dir.rec_at hrs
  have hpos := hok.pos
  have hindex : index 0 rs = index 0 before
      ++ (recsLen before, r.name) :: index (recsLen before + r.reclen) after := by
    rw [hrs, index_append, Nat.zero_add]
    conv_lhs => rw [index]
    rw [if_pos hlive]
  refine gives_withHash (·.remove fnv (dName false d.data (recsLen before)) (recsLen before)) hs.hash
    fun hofs dh hdh => ?_
  subst hofs
  rw [recOf_dName hrec hlive]
  rw [hindex] at hdh
  obtain ⟨dh', hremove, hok'⟩ := (hdh.perm List.perm_middle).remove (by omega)
  rw [hremove]
  exact gives_some hok'

/-- The first record of a block becomes a free one. -/
theorem dirremove_first {ino : Nat} (hs : DirState fnv ofs d rs) (hrs : rs = before ++ r :: after)
    (hlive : r.live = true) (hold : ofs = true → r.type = 0) (hino : r.ino = ino)
    (hoff : d.offset = recsLen before) (hcount : d.count = 0) :
    ∃ dirhash, d.ufsDirremove fnv ino = some { d with data := wiped d.data (recsLen before), dirhash := dirhash }
      ∧ DirState fnv ofs { d with data := wiped d.data (recsLen before), dirhash := dirhash }
        (before ++ [r.freed] ++ after) := by
  obtain ⟨hrec, hok, hfit, hle⟩ := hs.dir.rec_at hrs
  obtain ⟨dirhash, hremove, hgive⟩ := gives_remove hs hrs hlive
  have hd := hs.dir
  have hrs' : before ++ r :: after = before ++ [r] ++ after := by simp
  rw [hrs, hrs'] at hd
  have hri : dIno d.data (recsLen before) = ino := by rw [← hino, ← hrec, recOf_ino]
  refine ⟨dirhash, ?_, hd.replace ⟨recOf_wiped hrec, trivial⟩ ?_ rfl ?_ ?_ ?_, ?_⟩
  · unfold Dir.ufsDirremove
    simp only [hoff, hcount, Int.sub_zero, Int.toNat_natCast, if_true]
    rw [hremove]
    simp only [hri, ne_eq, not_true_eq_false, if_false]
    rfl
  · intro lo hi hout
    refine wiped_frame hrec hok hlive hold ?_
    simpa using hout
  · simpa using hfit
  · intro r' hr'
    rw [List.mem_singleton.mp hr']
    exact hok.freed
  · refine List.Nodup.sublist ?_ hd.names
    have hdead : namesOf [r.freed] = [] := rfl
    rw [namesOf_append, namesOf_append, namesOf_append, namesOf_append, hdead, List.append_nil]
    exact (List.sublist_append_left _ _).append_right _
  · have hindex : index 0 (before ++ [r.freed] ++ after)
        = index 0 before ++ index (recsLen before + r.reclen) after := by
      rw [index_append, index_append, Nat.zero_add, Nat.zero_add]
      have hdead : index (recsLen before) [r.freed] = [] := rfl
      rw [hdead, List.append_nil, recsLen_append]
      rfl
    rw [hindex]
    exact hgive

/-- What `ufs_dirremove` does to the record at `rep` and the record at `ep` before it. -/
def merged (m : Mem) (ep rep reclen : Nat) : Mem := setReclen (setReclen (wiped m rep) ep reclen) rep 0

/-- The bytes of another record go to the record before it. -/
theorem dirremove_next {ino : Nat} {front : List Rec} {r₀ : Rec} (hs : DirState fnv ofs d rs)
    (hrs : rs = front ++ [r₀] ++ r :: after) (hlive : r.live = true) (hold : ofs = true → r.type = 0)
    (hino : r.ino = ino) (hoff : d.offset = recsLen (front ++ [r₀])) (hcount : d.count = r₀.reclen)
    (hblk : recsLen (front ++ [r₀]) % DIRBLKSIZ ≠ 0) :
    ∃ dirhash, d.ufsDirremove fnv ino = some { d with
        data := merged d.data (recsLen front) (recsLen (front ++ [r₀])) (r₀.reclen + r.reclen), dirhash := dirhash }
      ∧ DirState fnv ofs { d with
          data := merged d.data (recsLen front) (recsLen (front ++ [r₀])) (r₀.reclen + r.reclen), dirhash := dirhash }
        (front ++ [{ r₀ with reclen := r₀.reclen + r.reclen }] ++ after) := by
  have hd := hs.dir
  obtain ⟨hrec, hok, hfit, hle⟩ := hd.rec_at hrs
  obtain ⟨hrec₀, hok₀, hfit₀, -⟩ := hd.rec_at
    (show rs = front ++ r₀ :: (r :: after) by rw [hrs]; simp)
  obtain ⟨dirhash, hremove, hgive⟩ := gives_remove hs hrs hlive
  have hpos₀ := hok₀.pos
  have hpos := hok.pos
  have hfoot₀ := r₀.eight_le_foot
  have hfoot := r.eight_le_foot
  have hle₀ := hok₀.foot_le
  have hle' := hok.foot_le
  have hlen : recsLen (front ++ [r₀]) = recsLen front + r₀.reclen := by simp
  rw [hlen] at hrec hfit hle hoff hremove hblk ⊢
  have hboth : recsLen front % DIRBLKSIZ + (r₀.reclen + r.reclen) ≤ DIRBLKSIZ := by
    unfold DIRBLKSIZ at *
    omega
  have hri : dIno d.data (recsLen front + r₀.reclen) = ino := by rw [← hino, ← hrec, recOf_ino]
  -- the record is wiped first
  have hwiped := recOf_wiped hrec
  have hwframe : ∀ {lo hi : Nat}, hi ≤ recsLen front + r₀.reclen
      ∨ recsLen front + r₀.reclen + r.reclen ≤ lo →
      AgreeOn (wiped d.data (recsLen front + r₀.reclen)) d.data lo hi := fun hout =>
    wiped_frame hrec hok hlive hold hout
  have hw₀ : recOf ofs (wiped d.data (recsLen front + r₀.reclen)) (recsLen front) = r₀ :=
    recOf_agree hrec₀ (hwframe (.inl (by omega))).symm
  have hep : (d.offset - d.count).toNat = recsLen front := by
    rw [hoff, hcount]
    omega
  have hcount' : ¬ d.count = 0 := by
    rw [hcount]
    omega
  rw [show front ++ [r₀] ++ r :: after = front ++ [r₀, r] ++ after by simp] at hrs
  rw [hrs] at hd
  have hmid : recsLen [r₀, r] = r₀.reclen + r.reclen := by simp
  refine ⟨dirhash, ?_, hd.replace ⟨?_, trivial⟩ ?_ ?_ ?_ ?_ ?_, ?_⟩
  · unfold Dir.ufsDirremove
    simp only [hep, if_neg hcount', recOf_dReclen hrec₀]
    rw [hoff]
    simp only [Int.toNat_natCast, hremove, hri, ne_eq, not_true_eq_false, if_false]
    rw [← wiped, recOf_dReclen hw₀, recOf_dReclen hwiped]
    rfl
  · refine recOf_agree (m := setReclen (wiped d.data (recsLen front + r₀.reclen)) (recsLen front)
      (r₀.reclen + r.reclen)) ?_ (Mem.agreeOn_write16 0 (.inl ?_)).symm
    · rw [recOf_setReclen (by unfold DIRBLKSIZ at hboth; omega), hw₀]
    · change recsLen front + r₀.foot ≤ _
      omega
  · intro lo hi hout
    rw [hmid] at hout
    refine ((Mem.agreeOn_write16 0 ?_).trans (Mem.agreeOn_write16 _ ?_)).trans (hwframe ?_)
    · omega
    · omega
    · omega
  · simp
  · rw [hmid]
    exact hboth
  · intro r' hr'
    rw [List.mem_singleton.mp hr']
    refine ⟨Nat.dvd_add hok₀.dvd hok.dvd, ?_, hok₀.not_wino, hok₀.not_wht⟩
    change r₀.foot ≤ r₀.reclen + r.reclen
    omega
  · refine List.Nodup.sublist ?_ hd.names
    have hsame : namesOf [{ r₀ with reclen := r₀.reclen + r.reclen }] = namesOf [r₀] := by
      rw [namesOf_eq, namesOf_eq, entriesOf_reclen]
    rw [namesOf_append, namesOf_append, namesOf_append, namesOf_append, hsame,
      show [r₀, r] = [r₀] ++ [r] from rfl, namesOf_append]
    exact ((List.sublist_append_left _ _).append_left _).append_right _
  · have hindex : index 0 (front ++ [{ r₀ with reclen := r₀.reclen + r.reclen }] ++ after)
        = index 0 (front ++ [r₀]) ++ index (recsLen (front ++ [r₀]) + r.reclen) after := by
      rw [index_append, index_append, index_append]
      simp only [recsLen_append, recsLen_cons, recsLen_nil, Nat.add_zero, Nat.zero_add, Nat.add_assoc]
      rfl
    rw [hindex]
    exact hgive

/-- The place, name, inode number and type of each live entry, from offset `o` on. -/
def placed : Nat → List Rec → List (Nat × List UInt8 × Nat × Nat)
  | _, [] => []
  | o, r :: rs =>
      if r.live then (o, r.name, r.ino, r.type) :: placed (o + r.reclen) rs else placed (o + r.reclen) rs

theorem placed_append (o : Nat) (rs rs' : List Rec) : placed o (rs ++ rs') = placed o rs ++ placed (o + recsLen rs) rs' := by
  induction rs generalizing o with
  | nil => simp [placed]
  | cons r rs ih =>
      simp only [List.cons_append, placed, ih, recsLen_cons, Nat.add_assoc]
      split <;> rfl

theorem placed_entries (o : Nat) (rs : List Rec) : (placed o rs).map Prod.snd = entriesOf rs := by
  induction rs generalizing o with
  | nil => rfl
  | cons r rs ih =>
      have hcons : entriesOf (r :: rs) = entriesOf [r] ++ entriesOf rs := by
        rw [← entriesOf_append, List.singleton_append]
      rw [hcons, ← ih (o + r.reclen)]
      cases hlive : r.live with
      | true => simp [placed, entriesOf, liveOf, hlive]
      | false => simp [placed, entriesOf, liveOf, hlive]

/-- What is behind the header of the removed record, after a removal. -/
theorem merged_name {m : Mem} {ep rep reclen : Nat} (hle : ep + 8 ≤ rep) (hi : Nat) :
    AgreeOn (merged m ep rep reclen) (wiped m rep) (rep + 8) hi :=
  (Mem.agreeOn_write16 0 (.inr (by omega))).trans (Mem.agreeOn_write16 reclen (.inr (by omega)))

/-- `ufs_dirremove` after a lookup for `DELETE`. The other entries stay where they are. -/
theorem dirremove_placed {ino : Nat} (hs : DirState fnv ofs d rs) (hrs : rs = before ++ r :: after)
    (hlive : r.live = true) (hold : ofs = true → r.type = 0) (hino : r.ino = ino)
    (hoff : d.offset = recsLen before) (hcount : d.count = distance before) :
    ∃ data dirhash rs', d.ufsDirremove fnv ino = some { d with data := data, dirhash := dirhash }
      ∧ DirState fnv ofs { d with data := data, dirhash := dirhash } rs'
      ∧ placed 0 rs' = placed 0 before ++ placed (recsLen before + r.reclen) after
      ∧ (∀ r' ∈ rs', r'.type = 0 ∨ ∃ r₀ ∈ rs, r₀.type = r'.type)
      ∧ ∀ hi, AgreeOn data (wiped d.data (recsLen before)) (recsLen before + 8) hi := by
  by_cases hblk : recsLen before % DIRBLKSIZ = 0
  · have hzero : d.count = 0 := by
      rw [hcount]
      unfold distance
      rw [if_pos hblk]
    obtain ⟨dirhash, hremove, hs'⟩ := dirremove_first hs hrs hlive hold hino hoff hzero
    refine ⟨_, dirhash, _, hremove, hs', ?_, ?_, fun hi x _ _ => rfl⟩
    · have hdead : placed (recsLen before) [r.freed] = [] := rfl
      rw [placed_append, placed_append, recsLen_append, Nat.zero_add, Nat.zero_add, hdead, List.append_nil]
      rfl
    · intro r' hr'
      rw [List.mem_append, List.mem_append, List.mem_singleton] at hr'
      rcases hr' with (hr' | rfl) | hr'
      · exact .inr ⟨r', by rw [hrs]; simp [hr'], rfl⟩
      · exact .inl rfl
      · exact .inr ⟨r', by rw [hrs]; simp [hr'], rfl⟩
  · obtain rfl | ⟨front, r₀, rfl⟩ := List.eq_nil_or_concat before
    · exact absurd (Nat.zero_mod _) hblk
    · rw [List.concat_eq_append] at *
      have hdist : d.count = r₀.reclen := by
        rw [hcount]
        unfold distance lastOffset
        rw [if_neg hblk, if_neg (by simp)]
        simp
      obtain ⟨dirhash, hremove, hs'⟩ := dirremove_next hs hrs hlive hold hino hoff hdist hblk
      obtain ⟨-, hok₀, -, -⟩ := hs.dir.rec_at (show rs = front ++ r₀ :: (r :: after) by rw [hrs]; simp)
      have hheader : recsLen front + 8 ≤ recsLen (front ++ [r₀]) := by
        have hfoot := r₀.eight_le_foot
        have hle := hok₀.foot_le
        simp only [recsLen_append, recsLen_cons, recsLen_nil]
        omega
      refine ⟨_, dirhash, _, hremove, hs', ?_, ?_, merged_name hheader⟩
      · have hlonger : ∀ o, placed o [{ r₀ with reclen := r₀.reclen + r.reclen }] = placed o [r₀] := by
          intro o
          simp [placed, Rec.live]
        simp only [placed_append, recsLen_append, recsLen_cons, recsLen_nil, hlonger, Nat.zero_add, Nat.add_zero,
          Nat.add_assoc]
      · intro r' hr'
        rw [List.mem_append, List.mem_append, List.mem_singleton] at hr'
        rcases hr' with (hr' | rfl) | hr'
        · exact .inr ⟨r', by rw [hrs]; simp [hr'], rfl⟩
        · exact .inr ⟨r₀, by rw [hrs]; simp, rfl⟩
        · exact .inr ⟨r', by rw [hrs]; simp [hr'], rfl⟩

theorem dirremove_ok {ino : Nat} (hs : DirState fnv ofs d rs) (hrs : rs = before ++ r :: after)
    (hlive : r.live = true) (hold : ofs = true → r.type = 0) (hino : r.ino = ino)
    (hoff : d.offset = recsLen before) (hcount : d.count = distance before) :
    ∃ data dirhash rs', d.ufsDirremove fnv ino = some { d with data := data, dirhash := dirhash }
      ∧ DirState fnv ofs { d with data := data, dirhash := dirhash } rs'
      ∧ entriesOf rs' = entriesOf before ++ entriesOf after := by
  obtain ⟨data, dirhash, rs', hremove, hs', hplaced, -, -⟩ := dirremove_placed hs hrs hlive hold hino hoff hcount
  refine ⟨data, dirhash, rs', hremove, hs', ?_⟩
  rw [← placed_entries 0 rs', hplaced, List.map_append, placed_entries, placed_entries]

end Dirremove

end UfsX.Proofs
