import UfsX.Proofs.Compact
import UfsX.Proofs.HashLookup

/-!
# `UfsX.Proofs.Direnter`: a new entry in a directory

`ufs_direnter` puts a new entry at the end of the slot that the lookup has found
(`enterSlot_ok`) or in a new block (`enterNewblk_ok`), and shortens the directory when
its end is free (`shorten_ok`). Each leaves a well-formed directory with its hash
table, and changes the live entries in no other way.

What happens inside the slot is the business of `UfsX.Proofs.Compact`. Here the
records of the slot are replaced by others of the same length (`DirOk.replace`).
-/

set_option autoImplicit false

namespace UfsX.Proofs

open UfsX.Lib UfsX.Ufs

/-- What a directory says: name, inode number and type of each live entry. -/
def entriesOf (rs : List Rec) : List (List UInt8 × Nat × Nat) :=
  (liveOf rs).map fun r => (r.name, r.ino, r.type)

/-- A well-formed directory, and its hash table. -/
structure DirState (fnv : List UInt8 → Nat) (ofs : Bool) (d : Dir) (rs : List Rec) : Prop where
  dir : DirOk ofs d.data d.size rs
  hash : HashOpt fnv ofs d.dirhash (index 0 rs) d.size

section Entries

variable {rs rs' : List Rec}

@[simp] theorem entriesOf_append : entriesOf (rs ++ rs') = entriesOf rs ++ entriesOf rs' := by
  simp [entriesOf]

theorem entriesOf_packed (rs : List Rec) : entriesOf (packed rs) = entriesOf rs := by
  unfold entriesOf
  rw [liveOf_packed]
  simp [packed, Rec.pack]

theorem entriesOf_dead (h : ∀ r ∈ rs, r.live = false) : entriesOf rs = [] := by
  unfold entriesOf
  rw [liveOf_eq_nil h]
  rfl

theorem entriesOf_entryRec {ofs : Bool} {dirp : Direct} (h : EntryOk ofs dirp) (reclen : Nat) :
    entriesOf [entryRec dirp reclen] = [(dirp.name, dirp.ino, dirp.type)] := by
  unfold entriesOf liveOf
  rw [List.filter_cons, if_pos (entryRec_live h)]
  rfl

theorem index_entryRec {ofs : Bool} {dirp : Direct} (h : EntryOk ofs dirp) (o reclen : Nat) :
    index o [entryRec dirp reclen] = [(o, dirp.name)] := by
  unfold index
  rw [if_pos (entryRec_live h)]
  rfl

/-- The names follow from the entries. -/
theorem namesOf_eq (rs : List Rec) : namesOf rs = (entriesOf rs).map Prod.fst := by
  simp [namesOf, entriesOf]

end Entries

/-! ### Other records in the same place -/

section Replace

variable {ofs : Bool} {m m' : Mem} {size : Nat} {before mid mid' after rs : List Rec}

theorem Layout.replace (h : Layout ofs size (before ++ mid ++ after)) (hlen : recsLen mid' = recsLen mid)
    (hfit : recsLen before % DIRBLKSIZ + recsLen mid ≤ DIRBLKSIZ) (hok : ∀ r ∈ mid', r.Ok ofs) :
    Layout ofs size (before ++ mid' ++ after) := by
  have hf := h.fits
  rw [fits_append, fits_append, recsLen_append, Nat.zero_add, Nat.zero_add] at hf
  refine ⟨?_, h.blocks, ?_, ?_⟩
  · rw [h.size_eq]
    simp [hlen]
  · rw [fits_append, fits_append, recsLen_append, Nat.zero_add, Nat.zero_add, hlen]
    exact ⟨⟨hf.1.1, fits_of_le (by rw [hlen]; exact hfit)⟩, hf.2⟩
  · intro r hr
    rw [List.mem_append, List.mem_append] at hr
    obtain (hr | hr) | hr := hr
    · exact h.recs r (by simp [hr])
    · exact hok r hr
    · exact h.recs r (by simp [hr])

theorem DirOk.replace (hd : DirOk ofs m size (before ++ mid ++ after))
    (hholds : Holds ofs m' (recsLen before) mid')
    (hframe : ∀ lo hi, hi ≤ recsLen before ∨ recsLen before + recsLen mid ≤ lo → AgreeOn m' m lo hi)
    (hlen : recsLen mid' = recsLen mid) (hfit : recsLen before % DIRBLKSIZ + recsLen mid ≤ DIRBLKSIZ)
    (hok : ∀ r ∈ mid', r.Ok ofs) (hnames : (namesOf (before ++ mid' ++ after)).Nodup) :
    DirOk ofs m' size (before ++ mid' ++ after) := by
  have hh := hd.holds
  rw [holds_append, holds_append, recsLen_append, Nat.zero_add, Nat.zero_add] at hh
  refine ⟨hd.toLayout.replace hlen hfit hok, ?_, hnames⟩
  rw [holds_append, holds_append, recsLen_append, Nat.zero_add, Nat.zero_add, hlen]
  refine ⟨⟨?_, hholds⟩, ?_⟩
  · exact hh.1.1.agree (fun r hr => hd.recs r (by simp [hr])) (hframe _ _ (.inl (by omega))).symm
  · exact hh.2.agree (fun r hr => hd.recs r (by simp [hr])) (hframe _ _ (.inr (le_refl _))).symm

/-- The entries of a block need no more bytes than it has. -/
theorem Layout.usedIn_le (h : Layout ofs size rs) {o : Nat} (ho : o < size) :
    usedIn (o / DIRBLKSIZ) (index 0 rs) ≤ DIRBLKSIZ := by
  have hle : (o / DIRBLKSIZ + 1) * DIRBLKSIZ ≤ recsLen rs := by
    obtain ⟨k, hk⟩ := h.blocks
    rw [← h.size_eq]
    unfold DIRBLKSIZ at *
    omega
  obtain ⟨before, blk, after, -, -, -, hsum⟩ := exists_block h.fits h.recs hle
  omega

end Replace

/-! ### The slot -/

section Slot

variable {fnv : List UInt8 → Nat} {ofs : Bool} {m : Mem} {base : Nat} {r : Rec} {rest : List Rec}
variable {dirp : Direct}

/-- The variables before the loop. -/
theorem compactOk_start (hrec : recOf ofs m base = r) (hr : r.Ok ofs) (dirhash : Option Dirhash) :
    CompactOk ofs base m [r] ⟨m, dirhash, 0, r.used, r.free, r.reclen⟩ where
  front := by
    cases hlive : r.live with
    | true =>
        refine ⟨[], [r.pack], by rw [packed_live hlive]; rfl, trivial, rfl, by simp [Rec.pack],
          .inr ⟨r.pack, r.reclen, rfl, ?_⟩⟩
        exact hrec
    | false =>
        have hfoot := r.eight_le_foot
        have hle := hr.foot_le
        have hsum := hr.used_add_free
        have hused := Rec.used_of_dead hlive
        have hino : dIno m base = 0 := by
          by_contra hne
          rw [(recOf_live hrec).mpr hne] at hlive
          exact Bool.noConfusion hlive
        refine ⟨[], [], by rw [packed_dead hlive]; rfl, trivial, rfl, hused, .inl ⟨rfl, hino, ?_⟩⟩
        change 8 ≤ r.free
        omega
  loc_eq := by simp
  space := by simp
  frame := fun _ _ _ _ _ _ => rfl

/-- The end of the loop: the last record gets its length, if there is one, and the new
entry goes behind it. -/
theorem CompactOk.finish {seen : List Rec} {c : Compact} {m₀ : Mem} (h : CompactOk ofs base m₀ seen c)
    (hok : ∀ r ∈ seen, r.Ok ofs) (hlen : recsLen seen ≤ DIRBLKSIZ) (dirp : Direct) :
    let unused := Dir.unusedFor ofs dirp c.data (base + c.ep)
    let data := if unused then c.data else setReclen c.data (base + c.ep) c.dsize
    (unused = true → c.dsize = 0)
      ∧ (if unused then base + c.ep else base + c.ep + c.dsize) = base + recsLen (packed seen)
      ∧ Holds ofs data base (packed seen)
      ∧ ∀ lo hi, hi ≤ base ∨ base + recsLen seen ≤ lo → AgreeOn data m₀ lo hi := by
  intro unused data
  obtain ⟨hep, hholds, hframe⟩ := h.trim hok hlen
  obtain ⟨done, cur, hpacked, hdone, hdep, hdsize, hlast⟩ := h.front
  obtain ⟨hnil, hino, -⟩ | ⟨r, reclen, hcur, hrec⟩ := hlast
  · have hunused : unused = true := decide_eq_true (.inl hino)
    rw [hnil, List.append_nil] at hpacked
    rw [hnil, recsLen_nil] at hdsize
    refine ⟨fun _ => hdsize, ?_, ?_, ?_⟩
    · rw [if_pos hunused]
      omega
    · rw [show data = c.data from if_pos hunused, hpacked]
      exact hdone
    · rw [show data = c.data from if_pos hunused]
      exact h.frame
  · -- the last record is live, and no whiteout
    have hmem : r ∈ packed seen := by rw [hpacked, hcur]; simp
    have hlive : r.live = true := by
      rw [← liveOf_packed] at hmem
      exact (List.mem_filter.mp hmem).2
    have hino : dIno c.data (base + c.ep) = r.ino := by
      have hsame : (recOf ofs c.data (base + c.ep)).ino = r.ino := by rw [hrec]
      rw [← hsame, recOf_ino]
    have hused : ¬ unused = true := by
      intro hyes
      obtain hz | ⟨hw, -⟩ := of_decide_eq_true hyes
      · exact Rec.live_iff.mp hlive (hino.symm.trans hz)
      · exact (packed_ok hok r hmem).not_wino (hino.symm.trans hw)
    refine ⟨fun hno => absurd hno hused, ?_, ?_, ?_⟩
    · rw [if_neg hused]
      omega
    · rw [show data = setReclen c.data (base + c.ep) c.dsize from if_neg hused]
      exact hholds
    · rw [show data = setReclen c.data (base + c.ep) c.dsize from if_neg hused]
      exact hframe

theorem index_packed_cons (o : Nat) (r : Rec) (rest : List Rec) :
    index o (packed [r]) ++ index (o + r.reclen) rest = index o (r :: rest) := by
  conv_rhs => unfold index
  cases hlive : r.live with
  | true =>
      rw [packed_live hlive, if_pos rfl]
      unfold index
      rw [if_pos (show r.pack.live = true from hlive)]
      rfl
  | false =>
      rw [packed_dead hlive, if_neg Bool.false_ne_true]
      rfl

/-- The records of the slot afterwards. -/
def entered (dirp : Direct) (mid : List Rec) : List Rec := packed mid ++ [entryRec dirp (freeOf mid)]

theorem recsLen_entered (dirp : Direct) {mid : List Rec} (hok : ∀ r ∈ mid, r.Ok ofs) :
    recsLen (entered dirp mid) = recsLen mid := by
  have hsum := recsLen_packed hok
  simp only [entered, recsLen_append, recsLen_cons, recsLen_nil, entryRec]
  omega

theorem entriesOf_entered (h : EntryOk ofs dirp) (before mid after : List Rec) :
    (entriesOf (before ++ entered dirp mid ++ after)).Perm
      ((dirp.name, dirp.ino, dirp.type) :: entriesOf (before ++ mid ++ after)) := by
  unfold entered
  simp only [entriesOf_append, entriesOf_packed, entriesOf_entryRec h]
  rw [List.append_assoc, List.append_assoc, List.append_assoc]
  exact perm_insert _ _ _ _

theorem namesOf_entered (h : EntryOk ofs dirp) (before mid after : List Rec) :
    (namesOf (before ++ entered dirp mid ++ after)).Perm (dirp.name :: namesOf (before ++ mid ++ after)) := by
  rw [namesOf_eq, namesOf_eq]
  exact (entriesOf_entered h before mid after).map Prod.fst

/-- The bytes of the slot afterwards. -/
theorem holds_entered {mid : List Rec} {data : Mem} (h : EntryOk ofs dirp)
    (hmid : ∀ r ∈ mid, r.Ok ofs) (hlen : recsLen mid ≤ DIRBLKSIZ)
    (hholds : Holds ofs data base (packed mid)) :
    Holds ofs (data.copy (base + recsLen (packed mid)) (dirp.bytes ofs (freeOf mid)) 0
      (directsiz dirp.name.length)) base (entered dirp mid) := by
  have hsum := recsLen_packed hmid
  unfold entered
  rw [holds_append]
  refine ⟨hholds.agree (packed_ok hmid) (Mem.agreeOn_copy _ _ _ (.inl (le_refl _))).symm, ?_, trivial⟩
  exact recOf_copy_bytes h (by unfold DIRBLKSIZ at hlen; omega) _ _

theorem entered_ok {mid : List Rec} (h : EntryOk ofs dirp) (hmid : ∀ r ∈ mid, r.Ok ofs)
    (hspace : directsiz dirp.name.length ≤ freeOf mid) : ∀ r ∈ entered dirp mid, r.Ok ofs := by
  intro r hr
  obtain hr | hr := List.mem_append.mp hr
  · exact packed_ok hmid r hr
  · rw [List.mem_singleton.mp hr]
    refine entryRec_ok h ?_ hspace
    -- the free bytes are what is left of multiples of four
    have hfree : ∀ rs : List Rec, (∀ r ∈ rs, r.Ok ofs) → 4 ∣ freeOf rs := by
      intro rs
      induction rs with
      | nil => exact fun _ => Nat.dvd_zero 4
      | cons r rs ih =>
          intro hrs
          rw [freeOf_cons]
          refine Nat.dvd_add (Nat.dvd_sub (hrs r List.mem_cons_self).dvd ?_)
            (ih fun r' hr' => hrs r' (List.mem_cons_of_mem _ hr'))
          unfold Rec.used
          split
          · exact Nat.dvd_zero 4
          · exact directsiz_dvd _
    exact hfree mid hmid

end Slot

section Enter

variable {fnv : List UInt8 → Nat} {ofs : Bool} {d : Dir} {dirp : Direct} {before mid after rs : List Rec}

/-- The entry of the new record. -/
theorem gives_add {dirhash : Option Dirhash} {size : Nat} {A B : List Entry} {o : Nat}
    (hd : Layout ofs size rs) (ho : o < size) (hindex : index 0 rs = A ++ (o, dirp.name) :: B)
    (hhash : HashOpt fnv ofs dirhash (A ++ B) size) :
    Gives fnv ofs (withHash dirhash (·.add fnv dirp.name o)) (index 0 rs) size := by
  have hperm : (index 0 rs).Perm ((o, dirp.name) :: (A ++ B)) := by
    rw [hindex]
    exact List.perm_middle
  have hgive : Gives fnv ofs (withHash dirhash (·.add fnv dirp.name o)) ((o, dirp.name) :: (A ++ B))
      size := by
    refine gives_withHash (·.add fnv dirp.name o) hhash fun _ dh hdh => hdh.add ho ?_ ?_
    · have hnodup := index_offsets_nodup 0 (fun r hr => (hd.recs r hr).pos)
      exact (List.nodup_cons.mp ((hperm.map Prod.fst).nodup_iff.mp hnodup)).1
    · rw [← usedIn_perm hperm]
      exact hd.usedIn_le ho
  obtain ⟨dirhash', hadd, hgive⟩ := hgive
  exact ⟨dirhash', hadd, hgive.perm hperm.symm⟩

/-- The new entry goes behind the records of the slot. -/
theorem enterCompacted_eq {m₀ : Mem} {c : Compact} {base : Nat} (h : CompactOk ofs base m₀ mid c)
    (hok : ∀ r ∈ mid, r.Ok ofs) (hlen : recsLen mid ≤ DIRBLKSIZ)
    (hspace : directsiz dirp.name.length ≤ freeOf mid) {L : List Entry}
    (hhash : Gives fnv ofs (withHash c.dirhash (·.add fnv dirp.name (base + recsLen (packed mid)))) L
      d.size) :
    ∃ data dirhash, d.enterCompacted fnv ofs dirp base c
        = some { d with
          data := data.copy (base + recsLen (packed mid)) (dirp.bytes ofs (freeOf mid)) 0
            (directsiz dirp.name.length)
          dirhash := dirhash }
      ∧ Holds ofs data base (packed mid)
      ∧ (∀ lo hi, hi ≤ base ∨ base + recsLen mid ≤ lo → AgreeOn data m₀ lo hi)
      ∧ HashOpt fnv ofs dirhash L d.size := by
  obtain ⟨hds, hep, hholds, hframe⟩ := h.finish hok hlen dirp
  obtain ⟨dirhash, hadd, hgive⟩ := hhash
  have hspacefree := h.space
  refine ⟨_, dirhash, ?_, hholds, hframe, hgive⟩
  unfold Dir.enterCompacted
  simp only [hep]
  generalize Dir.unusedFor ofs dirp c.data (base + c.ep) = unused at *
  have hnewreclen : (if unused then c.spacefree + c.dsize else c.spacefree) = freeOf mid := by
    split
    · next hyes => rw [hds hyes, hspacefree, Nat.add_zero]
    · exact hspacefree
  rw [if_neg (by rw [hspacefree]; omega), hnewreclen, if_pos (.inr hspacefree.symm), hadd]

/-- The loop, on the slot of a well-formed directory. -/
theorem slot_compacted (hs : DirState fnv ofs d (before ++ mid ++ after))
    (hfit : recsLen before % DIRBLKSIZ + recsLen mid ≤ DIRBLKSIZ) (hne : mid ≠ []) :
    let reclen := dReclen d.data (recsLen before)
    let dsize := if dIno d.data (recsLen before) = 0 then 0 else dirsiz ofs d.data (recsLen before)
    ∃ c, compactLoop fnv ofs (recsLen before) (recsLen mid) (recsLen mid + 1)
        ⟨d.data, d.dirhash, 0, dsize, reclen - dsize, reclen⟩ = some c
      ∧ CompactOk ofs (recsLen before) d.data mid c
      ∧ HashOpt fnv ofs c.dirhash (looping (index 0 before)
        (index (recsLen before + recsLen mid) after) (recsLen before) mid []) d.size := by
  have hd := hs.dir
  have hmid : ∀ r ∈ mid, r.Ok ofs := fun r hr => hd.recs r (by simp [hr])
  have hholds := hd.holds
  rw [holds_append, holds_append, Nat.zero_add] at hholds
  cases mid with
  | nil => exact absurd rfl hne
  | cons r rest =>
      obtain ⟨hrec, hrest⟩ := hholds.1.2
      have hlist : index 0 (before ++ r :: rest ++ after)
          = looping (index 0 before) (index (recsLen before + recsLen (r :: rest)) after)
            (recsLen before) [r] rest := by
        rw [List.append_assoc, index_append, index_append, Nat.zero_add]
        unfold looping
        rw [← List.append_assoc (index _ (packed [r])), recsLen_cons r [], recsLen_nil, Nat.add_zero,
          index_packed_cons]
      have hhash := hs.hash
      rw [hlist] at hhash
      have hused : (if dIno d.data (recsLen before) = 0 then 0 else dirsiz ofs d.data (recsLen before))
          = r.used := by rw [← recOf_used, hrec]
      simp only [hused, recOf_dReclen hrec]
      refine compactLoop_ok (recsLen (r :: rest)) (recsLen (r :: rest) + 1)
        (compactOk_start hrec (hmid r List.mem_cons_self) d.dirhash) rfl (by simpa using hrest) hmid
        ?_ ?_ ?_ hfit hhash ?_
      · intro p hp
        have := index_range (fun r hr => (hd.recs r (by simp [hr])).pos) hp
        omega
      · intro p hp
        exact (index_range (fun r hr => (hd.recs r (by simp [hr])).pos) hp).1
      · rw [hd.size_eq, recsLen_append, recsLen_append]
        omega
      · have := length_le_recsLen hmid
        rw [List.length_cons] at this
        omega

theorem enterSlot_ok (isrename : Bool) (hs : DirState fnv ofs d (before ++ mid ++ after))
    (hentry : EntryOk ofs dirp) (hnew : dirp.name ∉ namesOf (before ++ mid ++ after))
    (hoff : d.offset = recsLen before) (hcount : d.count = recsLen mid)
    (hfit : recsLen before % DIRBLKSIZ + recsLen mid ≤ DIRBLKSIZ) (hne : mid ≠ [])
    (hspace : directsiz dirp.name.length ≤ freeOf mid) :
    ∃ data dirhash, d.enterSlot fnv ofs dirp isrename
        = { d with data := data, dirhash := dirhash }.shorten isrename
      ∧ DirState fnv ofs { d with data := data, dirhash := dirhash } (before ++ entered dirp mid ++ after) := by
  have hd := hs.dir
  have hmid : ∀ r ∈ mid, r.Ok ofs := fun r hr => hd.recs r (by simp [hr])
  have hsum := recsLen_packed hmid
  have hsize : recsLen before + recsLen mid ≤ d.size := by
    rw [hd.size_eq, recsLen_append, recsLen_append]
    omega
  have hlen := recsLen_entered dirp hmid
  have hok := entered_ok hentry hmid hspace
  have hpos := eight_le_directsiz dirp.name.length
  obtain ⟨c, hloop, hc, hchash⟩ := slot_compacted hs hfit hne
  -- the new entry in the hash table
  have hindex : index 0 (before ++ entered dirp mid ++ after)
      = (index 0 before ++ index (recsLen before) (packed mid))
        ++ (recsLen before + recsLen (packed mid), dirp.name)
          :: index (recsLen before + recsLen mid) after := by
    rw [index_append, index_append, recsLen_append, hlen]
    unfold entered
    rw [index_append, index_entryRec hentry, Nat.zero_add, Nat.zero_add]
    simp
  have hgive := gives_add (hd.toLayout.replace hlen hfit hok) (by omega) hindex
    (by
      unfold looping at hchash
      simpa [index] using hchash)
  obtain ⟨data, dirhash, hcompacted, hholds, hframe, hhash⟩ :=
    enterCompacted_eq (d := d) hc hmid (by omega) hspace hgive
  refine ⟨data.copy (recsLen before + recsLen (packed mid)) (dirp.bytes ofs (freeOf mid)) 0
    (directsiz dirp.name.length), dirhash, ?_,
    hd.replace (holds_entered hentry hmid (by omega) hholds) ?_ hlen hfit hok ?_, hhash⟩
  · have hbase : d.offset.toNat = recsLen before := by rw [hoff, Int.toNat_natCast]
    have hcnt : d.count.toNat = recsLen mid := by rw [hcount, Int.toNat_natCast]
    unfold Dir.enterSlot
    simp only [hbase, hcnt]
    rw [if_neg (show ¬ recsLen before + recsLen mid > d.size by omega), hloop]
    dsimp only
    rw [hcompacted]
  · intro lo hi hout
    refine AgreeOn.trans (Mem.agreeOn_copy _ _ _ ?_) (hframe lo hi hout)
    omega
  · rw [(namesOf_entered hentry before mid after).nodup_iff]
    exact List.nodup_cons.mpr ⟨hnew, hd.names⟩

/-! ### The end of the directory -/

theorem shorten_ok (isrename : Bool) (hs : DirState fnv ofs d rs)
    (hend : isrename = false → ∃ e : Nat, d.endoff = e ∧ DIRBLKSIZ ∣ e ∧ ∀ p ∈ index 0 rs, p.1 < e) :
    ∃ d' kept dead, d.shorten isrename = some d' ∧ rs = kept ++ dead ∧ (∀ r ∈ dead, r.live = false)
      ∧ DirState fnv ofs d' kept ∧ d'.size ≤ d.size ∧ d'.diroff = d.diroff := by
  have hd := hs.dir
  unfold Dir.shorten
  split
  · next hcond =>
      obtain ⟨hrename, -, -, hlt⟩ := hcond
      obtain ⟨e, he, hblk, hlive⟩ := hend (by simpa using hrename)
      rw [he] at hlt ⊢
      simp only [Int.toNat_natCast]
      have hpos : ∀ r ∈ rs, 0 < r.reclen := fun r hr => (hd.recs r hr).pos
      have hle : e ≤ d.size := by omega
      obtain ⟨kept, dead, hrs, hkept⟩ := exists_cut hd.fits hpos hblk (Nat.zero_le e)
        (by rw [Nat.zero_add, ← hd.size_eq]; exact hle)
      rw [Nat.zero_add] at hkept
      -- nothing lives behind the cut
      have hdead : index e dead = [] := by
        refine List.eq_nil_iff_forall_not_mem.mpr fun p hp => ?_
        have hlo := (index_range (fun r hr => hpos r (by rw [hrs]; simp [hr])) hp).1
        have hhi := hlive p (by rw [hrs, index_append, Nat.zero_add, hkept]; simp [hp])
        omega
      have hindex : index 0 rs = index 0 kept := by
        rw [hrs, index_append, Nat.zero_add, hkept, hdead, List.append_nil]
      have hhash := hs.hash
      rw [hindex] at hhash hlive
      obtain ⟨dirhash, htrunc, hgive⟩ := gives_withHash (·.dirtrunc e) hhash
        (fun _ dh hdh => hdh.dirtrunc hblk hle hlive)
      rw [htrunc]
      refine ⟨_, kept, dead, rfl, hrs, index_eq_nil hdead, ⟨⟨⟨?_, hblk, ?_, ?_⟩, ?_, ?_⟩, hgive⟩, hle, rfl⟩
      · exact hkept.symm
      · have hfits := hd.fits
        rw [hrs, fits_append] at hfits
        exact hfits.1
      · exact fun r hr => hd.recs r (by rw [hrs]; simp [hr])
      · have hholds := hd.holds
        rw [hrs, holds_append] at hholds
        exact hholds.1
      · have hnames := hd.names
        rw [← index_names 0, hindex, index_names 0] at hnames
        exact hnames
  · exact ⟨d, rs, [], rfl, by simp, by simp, hs, le_refl _, rfl⟩

/-! ### A new block -/

theorem enterNewblk_ok (hs : DirState fnv ofs d rs) (hentry : EntryOk ofs dirp)
    (hnew : dirp.name ∉ namesOf rs) (hoff : d.offset = d.size) (hsize : d.size + DIRBLKSIZ < 2147483648) :
    ∃ d', d.enterNewblk fnv ofs dirp = some d'
      ∧ DirState fnv ofs d' (rs ++ [entryRec dirp DIRBLKSIZ])
      ∧ d'.size = d.size + DIRBLKSIZ ∧ d'.diroff = d.diroff := by
  have hd := hs.dir
  have hfitI : toI32 ((d.size : Int) + DIRBLKSIZ) = (d.size + DIRBLKSIZ : Nat) := by
    rw [toI32_eq_self (by omega) (by omega)]
    rfl
  have hfitU : toU64 ((d.size + DIRBLKSIZ : Nat) : Int) = (d.size + DIRBLKSIZ : Nat) :=
    toU64_eq_self (by omega) (by omega)
  obtain ⟨k, hk⟩ := hd.blocks
  have haligned : d.size % DIRBLKSIZ = 0 := Nat.mod_eq_zero_of_dvd hd.blocks
  have hname := directsiz_lt hentry.name_le
  -- the layout afterwards
  have hlayout : Layout ofs (d.size + DIRBLKSIZ) (rs ++ [entryRec dirp DIRBLKSIZ]) := by
    refine ⟨?_, Nat.dvd_add hd.blocks (Nat.dvd_refl _), ?_, ?_⟩
    · rw [recsLen_append, ← hd.size_eq]
      rfl
    · rw [fits_append, Nat.zero_add, ← hd.size_eq]
      refine ⟨hd.fits, ?_, trivial⟩
      rw [haligned, Nat.zero_add]
      exact le_refl _
    · intro r hr
      obtain hr | hr := List.mem_append.mp hr
      · exact hd.recs r hr
      · rw [List.mem_singleton.mp hr]
        exact entryRec_ok hentry (by decide) (by unfold DIRBLKSIZ; omega)
  have hindex : index 0 (rs ++ [entryRec dirp DIRBLKSIZ]) = index 0 rs ++ [(d.size, dirp.name)] := by
    rw [index_append, Nat.zero_add, ← hd.size_eq, index_entryRec hentry]
  -- the hash table
  obtain ⟨dirhash₁, hnewblk, hgive₁⟩ := gives_withHash (·.newblk d.size) hs.hash
    (fun _ dh hdh => hdh.newblk hd.index_lt)
  rw [← List.append_nil (index 0 rs)] at hgive₁
  obtain ⟨dirhash₂, hadd, hgive₂⟩ := gives_add hlayout (o := d.size) (by unfold DIRBLKSIZ; omega) hindex
    hgive₁
  unfold Dir.enterNewblk
  rw [if_neg (by rw [hoff]; unfold DIRBLKSIZ at *; omega)]
  simp only [hoff, hfitI, hfitU, hnewblk, hadd, Int.toNat_natCast]
  refine ⟨_, rfl, ⟨⟨hlayout, ?_, ?_⟩, hgive₂⟩, rfl, rfl⟩
  · rw [holds_append, Nat.zero_add, ← hd.size_eq]
    refine ⟨hd.holds.agree hd.recs ?_, recOf_copy_bytes hentry (by decide) _ _, trivial⟩
    rw [Nat.zero_add, ← hd.size_eq]
    exact ((Mem.agreeOn_copy _ _ _ (.inl (le_refl _))).trans (Mem.agreeOn_zero _ (.inl (le_refl _)))).symm
  · rw [namesOf_append, show namesOf [entryRec dirp DIRBLKSIZ] = [dirp.name] by
      rw [namesOf_eq, entriesOf_entryRec hentry]; rfl]
    rw [List.nodup_append_comm]
    exact List.nodup_cons.mpr ⟨hnew, hd.names⟩

end Enter

end UfsX.Proofs
