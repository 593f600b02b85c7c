import UfsX.Proofs.DirRun

/-!
# `UfsX.Proofs.DirMap`: a directory is a map

What a directory is for is a map from names to inode numbers and types (`NameMap`). The code
keeps it in records with free space between them, finds its way with a hash table that may be
built or freed at any time, and begins a search where the last one has ended. None of this
shows: to any calls, one after the other, the code gives the answers that the map gives
(`answers_eq`).

`DirRun` has what a single call does. What is left is what an entry means for the map, and
`ufs_dirrewrite`, which gives a name to another inode.
-/

set_option autoImplicit false

namespace UfsX.Proofs.DirMap

open UfsX.Lib UfsX.Ufs UfsX.Proofs

/-! ### The map -/

/-- The inode number and the type of each name. -/
abbrev NameMap := List UInt8 → Option (Nat × Nat)

/-- A call on a directory: a look-up, and what the system call does next. -/
inductive Call where
  | lookup (name : List UInt8)
  | create (dirp : Direct)
  | remove (name : List UInt8)
  /-- The target of `ufs_rename`. -/
  | replace (dirp : Direct)
  /-- A hash table is made, in a place that gives it this hash function. -/
  | build (fnv : List UInt8 → Nat)
  | free

/-- The entry of a call can be made. -/
def Call.Legal : Call → Prop
  | .create dirp | .replace dirp => EntryOk false dirp
  | _ => True

/-- The answer of a look-up that has found `v`, or nothing. -/
def answer (absent : Found) : Option (Nat × Nat) → Found
  | some v => .found v.1
  | none => absent

/-- What a call does with the map, and its answer. -/
def spec : Call → NameMap → Option Found × NameMap
  | .lookup name, m => (some (answer .enoent (m name)), m)
  | .create dirp, m =>
      (some (answer .ejustreturn (m dirp.name)),
        if m dirp.name = none then Function.update m dirp.name (some (dirp.ino, dirp.type)) else m)
  | .remove name, m => (some (answer .enoent (m name)), Function.update m name none)
  | .replace dirp, m =>
      (some (answer .ejustreturn (m dirp.name)), Function.update m dirp.name (some (dirp.ino, dirp.type)))
  | .build _, m => (none, m)
  | .free, m => (none, m)

/-! ### The code -/

/-- What a call does with the directory. A table is not built where there is one, and not for a
directory that is too small. An error of `ufs_dirrewrite` is no answer. -/
def exec (c : Call) (s : HashedDir) : Option (Option Found × HashedDir) :=
  match c with
  | .lookup name => (s.dir.ufsLookupIno s.fnv false .lookup name).map fun q => (some q.1, ⟨q.2, s.fnv⟩)
  | .create dirp =>
      (s.dir.ufsLookupIno s.fnv false .create dirp.name).bind fun q =>
        match q.1 with
        | .ejustreturn => (q.2.ufsDirenter s.fnv false dirp false).map fun d => (some q.1, ⟨d, s.fnv⟩)
        | _ => some (some q.1, ⟨q.2, s.fnv⟩)
  | .remove name =>
      (s.dir.ufsLookupIno s.fnv false .delete name).bind fun q =>
        match q.1 with
        | .found ino => (q.2.ufsDirremove s.fnv ino).map fun d => (some q.1, ⟨d, s.fnv⟩)
        | _ => some (some q.1, ⟨q.2, s.fnv⟩)
  | .replace dirp =>
      (s.dir.ufsLookupIno s.fnv false .rename dirp.name).bind fun q =>
        match q.1 with
        | .found ino =>
            match q.2.ufsDirrewrite false ino dirp.ino dirp.type with
            | (0, d) => some (some q.1, ⟨d, s.fnv⟩)
            | _ => none
        | _ => (q.2.ufsDirenter s.fnv false dirp true).map fun d => (some q.1, ⟨d, s.fnv⟩)
  | .build fnv =>
      match s.dir.dirhash, ufsdirhashBuild fnv s.dir.data s.dir.size with
      | none, some dh => some (none, ⟨{ s.dir with dirhash := some dh }, fnv⟩)
      | _, _ => some (none, s)
  | .free => some (none, ⟨{ s.dir with dirhash := none }, s.fnv⟩)

/-! ### The entries and the map -/

section Entries

variable {rs rs' before after : List Rec} {r : Rec} {m : NameMap} {name : List UInt8} {v : Nat × Nat}

/-- The map has what the entries say. -/
def Contents (rs : List Rec) (m : NameMap) : Prop := ∀ name v, (name, v) ∈ entriesOf rs ↔ m name = some v

theorem Contents.absent (h : Contents rs m) : name ∉ namesOf rs ↔ m name = none := by
  rw [namesOf_eq, List.mem_map, not_exists, Option.eq_none_iff_forall_ne_some]
  constructor
  · intro hno v hv
    exact hno (name, v) ⟨(h name v).mpr hv, rfl⟩
  · rintro hnone ⟨name', v⟩ ⟨hmem, rfl⟩
    exact hnone v ((h _ _).mp hmem)

theorem entriesOf_cons_live (hlive : r.live = true) : entriesOf (r :: rs) = (r.name, r.ino, r.type) :: entriesOf rs := by
  simp [entriesOf, liveOf, hlive]

theorem Contents.present (h : Contents (before ++ r :: after) m) (hlive : r.live = true) :
    m r.name = some (r.ino, r.type) := by
  refine (h _ _).mp ?_
  rw [entriesOf_append, entriesOf_cons_live hlive]
  exact List.mem_append_right _ List.mem_cons_self

/-- An entry more. -/
theorem Contents.enter {ino type : Nat} (h : Contents rs m) (hnew : name ∉ namesOf rs)
    (hperm : (entriesOf rs').Perm ((name, ino, type) :: entriesOf rs)) :
    Contents rs' (Function.update m name (some (ino, type))) := by
  intro name' v
  rw [hperm.mem_iff, List.mem_cons, h name' v]
  by_cases hname : name' = name
  · have hnone := h.absent.mp hnew
    subst hname
    rw [Function.update_self, hnone, Option.some.injEq, Prod.mk.injEq]
    constructor
    · rintro (⟨-, rfl⟩ | hv)
      · rfl
      · cases hv
    · rintro rfl
      exact .inl ⟨rfl, rfl⟩
  · rw [Function.update_of_ne hname, Prod.mk.injEq]
    exact or_iff_right fun hv => hname hv.1

/-- The names of the records around a live one are other names. -/
theorem other_names (hnames : (namesOf (before ++ r :: after)).Nodup) (hlive : r.live = true)
    (hmem : (name, v) ∈ entriesOf before ∨ (name, v) ∈ entriesOf after) : name ≠ r.name := by
  obtain ⟨hbefore, hafter⟩ := name_once hnames hlive
  rintro rfl
  rcases hmem with hmem | hmem
  · refine hbefore ?_
    rw [namesOf_eq]
    exact List.mem_map_of_mem hmem
  · refine hafter ?_
    rw [namesOf_eq]
    exact List.mem_map_of_mem hmem

/-- An entry less. -/
theorem Contents.remove (h : Contents (before ++ r :: after) m) (hnames : (namesOf (before ++ r :: after)).Nodup)
    (hlive : r.live = true) (hentries : entriesOf rs' = entriesOf before ++ entriesOf after) :
    Contents rs' (Function.update m r.name none) := by
  intro name v
  have hcontents := h name v
  rw [entriesOf_append, entriesOf_cons_live hlive, List.mem_append, List.mem_cons] at hcontents
  rw [hentries, List.mem_append]
  by_cases hname : name = r.name
  · rw [hname, Function.update_self]
    constructor
    · intro hmem
      exact absurd rfl (other_names hnames hlive hmem)
    · intro hv
      cases hv
  · rw [Function.update_of_ne hname, ← hcontents, Prod.mk.injEq]
    simp [hname]

/-- An entry for another inode: the old one goes, and the new one takes its place. -/
theorem Contents.rewrite {dirp : Direct} {reclen : Nat} (h : Contents (before ++ r :: after) m)
    (hnames : (namesOf (before ++ r :: after)).Nodup) (hlive : r.live = true) (hentry : EntryOk false dirp)
    (hname : dirp.name = r.name) :
    Contents (before ++ [entryRec dirp reclen] ++ after) (Function.update m dirp.name (some (dirp.ino, dirp.type))) := by
  obtain ⟨hbefore, hafter⟩ := name_once hnames hlive
  have hgone : Contents (before ++ after) (Function.update m dirp.name none) := by
    rw [hname]
    exact h.remove hnames hlive (entriesOf_append ..)
  have hnew : dirp.name ∉ namesOf (before ++ after) := by
    rw [hname, namesOf_append, List.mem_append, not_or]
    exact ⟨hbefore, hafter⟩
  have hperm : (entriesOf (before ++ [entryRec dirp reclen] ++ after)).Perm
      ((dirp.name, dirp.ino, dirp.type) :: entriesOf (before ++ after)) := by
    rw [entriesOf_append, entriesOf_append, entriesOf_append, entriesOf_entryRec hentry, List.append_assoc]
    exact List.perm_middle
  have hback := hgone.enter hnew hperm
  rwa [Function.update_idem] at hback

/-- A name of the map has a record. -/
theorem Contents.record (h : Contents rs m) (hv : m name = some v) :
    ∃ before r after, rs = before ++ r :: after ∧ r.live = true ∧ r.name = name ∧ (r.ino, r.type) = v := by
  have hmem : name ∈ namesOf rs := by
    by_contra hno
    rw [h.absent.mp hno] at hv
    cases hv
  obtain ⟨before, r, after, rfl, hlive, rfl⟩ := mem_namesOf hmem
  rw [h.present hlive] at hv
  exact ⟨before, r, after, rfl, hlive, rfl, Option.some.inj hv⟩

end Entries

/-! ### Another inode for a name -/

section Rewrite

variable {fnv : List UInt8 → Nat} {d : Dir} {rs before after : List Rec} {r : Rec} {dirp : Direct} {m : Mem} {o : Nat}

theorem found_rename (prevoff : Int) (hd : DirOk false d.data d.size rs) (hrs : rs = before ++ r :: after)
    (hlive : r.live = true) :
    d.found false .rename (recsLen before) prevoff = some (.found r.ino, { d with offset := recsLen before }) := by
  obtain ⟨hrec, hok, -, hle⟩ := hd.rec_at hrs
  have hsum := hok.used_add_free
  have hino : dIno d.data (recsLen before) = r.ino := by rw [← hrec, recOf_ino]
  unfold Dir.found
  rw [recOf_dirsiz hrec hlive, if_neg (by omega), hino]

/-- A look-up of a name that is there. -/
theorem lookup_present (nameiop : Nameiop) (hs : DirState fnv false d rs) (hsize : d.size < 2147483648)
    (hdiroff : DiroffOk d) (hrs : rs = before ++ r :: after) (hlive : r.live = true) :
    ∃ d', d.ufsLookupIno fnv false nameiop r.name = some (.found r.ino, d') ∧ DirState fnv false d' rs
      ∧ DiroffOk d' ∧ d'.size = d.size ∧ (nameiop = .rename → d'.offset = recsLen before) := by
  obtain ⟨dirhash, prevoff, hlook, hhash, -⟩ := lookup_found nameiop hs hsize (fun _ => hdiroff) hrs hlive
  obtain ⟨offset, count, diroff, hfound, hdiroff', -⟩ :=
    found_some (d := { d with dirhash := dirhash }) nameiop prevoff hs.dir hrs hlive
  obtain ⟨hnonneg, hblocks⟩ := hdiroff' ⟨hdiroff.nonneg, hdiroff.blocks⟩
  refine ⟨_, hlook.trans hfound, ⟨hs.dir, hhash⟩, ⟨hnonneg, hblocks⟩, rfl, ?_⟩
  rintro rfl
  have hrename := found_rename (d := { d with dirhash := dirhash }) prevoff hs.dir hrs hlive
  rw [hfound] at hrename
  exact congrArg Dir.offset (Prod.mk.inj (Option.some.inj hrename)).2

/-- The number and the type are the only bytes that change. -/
def rewritten (m : Mem) (o : Nat) (dirp : Direct) : Mem := (setIno m o dirp.ino).write8 (o + 6) (UInt8.ofNat dirp.type)

theorem rewritten_agree {lo hi : Nat} (hino : hi ≤ o ∨ o + 4 ≤ lo) (htype : hi ≤ o + 6 ∨ o + 7 ≤ lo) :
    AgreeOn (rewritten m o dirp) m lo hi :=
  (Mem.agreeOn_write8 _ htype).trans (Mem.agreeOn_write32 _ hino)

theorem recOf_rewritten (hentry : EntryOk false dirp) (hrec : recOf false m o = r) (hlive : r.live = true)
    (hname : dirp.name = r.name) : recOf false (rewritten m o dirp) o = entryRec dirp r.reclen := by
  have hino : dIno (rewritten m o dirp) o = dirp.ino := by
    have hagree : AgreeOn (rewritten m o dirp) (setIno m o dirp.ino) o (o + 4) := Mem.agreeOn_write8 _ (.inl (by omega))
    have hsame := hagree.sameBytes (n := 4) (le_refl o) (le_refl _)
    exact (hsame.read32 (i := 0) (by omega)).trans (Mem.read32_write32 hentry.ino_lt)
  have hreclen : dReclen (rewritten m o dirp) o = r.reclen := by
    have hagree : AgreeOn (rewritten m o dirp) m (o + 4) (o + 6) := rewritten_agree (.inr (le_refl _)) (.inl (le_refl _))
    rw [← recOf_dReclen hrec]
    exact (hagree.sameBytes (n := 2) (le_refl _) (le_refl _)).read16 (i := 0) (by omega)
  have htype : dType false (rewritten m o dirp) o = dirp.type := by
    have hbyte : rewritten m o dirp (o + 6) = UInt8.ofNat dirp.type := if_pos rfl
    exact (congrArg UInt8.toNat hbyte).trans (Nat.mod_eq_of_lt hentry.type_lt)
  have hbytes : dName false (rewritten m o dirp) o = dirp.name := by
    have hrest (n : Nat) : AgreeOn (rewritten m o dirp) m (o + 7) (o + 7 + n) :=
      rewritten_agree (.inr (by omega)) (.inr (le_refl _))
    have hnamlen : dNamlen false (rewritten m o dirp) o = dNamlen false m o :=
      congrArg UInt8.toNat (hrest 1 (o + 7) (le_refl _) (Nat.lt_succ_self _))
    rw [hname, ← recOf_dName hrec hlive]
    unfold dName
    rw [hnamlen]
    exact ((hrest (1 + dNamlen false m o)).sameBytes (o := o + 8) (n := dNamlen false m o) (by omega)
      (by omega)).readBytes (i := 0) (by omega)
  unfold recOf
  rw [hino, if_neg hentry.ino_ne, hreclen, htype, hbytes]
  rfl

/-- `ufs_dirrewrite` does not fail: the record that the look-up has found is the one for the inode. -/
theorem dirrewrite_ok (hs : DirState fnv false d rs) (hrs : rs = before ++ r :: after) (hlive : r.live = true)
    (hentry : EntryOk false dirp) (hname : dirp.name = r.name) (hoff : d.offset = recsLen before) :
    ∃ data, d.ufsDirrewrite false r.ino dirp.ino dirp.type = (0, { d with data := data })
      ∧ DirState fnv false { d with data := data } (before ++ [entryRec dirp r.reclen] ++ after) := by
  obtain ⟨hrec, hok, hfit, -⟩ := hs.dir.rec_at hrs
  have hino : dIno d.data (recsLen before) = r.ino := by rw [← hrec, recOf_ino]
  have hlen : recsLen [entryRec dirp r.reclen] = recsLen [r] := rfl
  have hone : recsLen [r] = r.reclen := by rw [recsLen_cons, recsLen_nil, Nat.add_zero]
  have hfoot : 8 ≤ r.reclen := r.eight_le_foot.trans hok.foot_le
  have hsame : namesOf [entryRec dirp r.reclen] = namesOf [r] := by
    rw [namesOf_eq, entriesOf_entryRec hentry, namesOf_eq, entriesOf_cons_live hlive]
    exact congrArg (fun name => [name]) hname
  have hsplit : rs = before ++ [r] ++ after := by rw [hrs, List.append_assoc, List.singleton_append]
  refine ⟨rewritten d.data (recsLen before) dirp, ?_, ?_, ?_⟩
  · unfold Dir.ufsDirrewrite
    rw [hoff, Int.toNat_natCast, if_neg (by rw [hino]; tauto)]
    rfl
  · have hd := hs.dir
    rw [hsplit] at hd
    refine hd.replace ⟨recOf_rewritten hentry hrec hlive hname, trivial⟩ ?_ hlen (by rwa [hone]) ?_ ?_
    · intro lo hi hout
      rw [hone] at hout
      exact rewritten_agree (by omega) (by omega)
    · intro r' hr'
      obtain rfl := List.mem_singleton.mp hr'
      refine entryRec_ok hentry hok.dvd ?_
      have hfoot_le := hok.foot_le
      unfold Rec.foot at hfoot_le
      rwa [if_neg (of_decide_eq_true hlive), ← hname] at hfoot_le
    · have hnames := hd.names
      rw [namesOf_append, namesOf_append] at hnames ⊢
      rwa [hsame]
  · have hhash := hs.hash
    have hindex (o : Nat) : index o [r] = [(o, r.name)] := by
      unfold index
      rw [if_pos hlive]
      rfl
    rw [hsplit, index_append, index_append, hindex] at hhash
    rw [index_append, index_append, index_entryRec hentry, recsLen_append, hlen, ← recsLen_append, hname]
    exact hhash

end Rewrite

/-! ### The calls -/

/-- The directory has what the map says, and room for `n` calls that make it grow. -/
structure Represents (n : Nat) (s : HashedDir) (m : NameMap) : Prop where
  records : ∃ rs, DirState s.fnv false s.dir rs ∧ Contents rs m
  diroff : DiroffOk s.dir
  room : s.dir.size + n * DIRBLKSIZ ≤ MAXDIRSIZE

section Calls

variable {n : Nat} {s : HashedDir} {m : NameMap}

/-- A call has a block more to use than the calls after it. -/
theorem room_of_growth {size size' : Nat} (h : size + (n + 1) * DIRBLKSIZ ≤ MAXDIRSIZE)
    (hsize : size' ≤ size + DIRBLKSIZ) : size' + n * DIRBLKSIZ ≤ MAXDIRSIZE := by
  rw [Nat.add_mul, Nat.one_mul] at h
  omega

theorem Represents.size_lt (h : Represents n s m) : s.dir.size < 2147483648 := by
  have hroom := h.room
  unfold MAXDIRSIZE at hroom
  omega

theorem Represents.present {name : List UInt8} {v : Nat × Nat} (nameiop : Nameiop) (h : Represents (n + 1) s m)
    (hv : m name = some v) :
    ∃ d', s.dir.ufsLookupIno s.fnv false nameiop name = some (.found v.1, d') ∧ Represents n ⟨d', s.fnv⟩ m := by
  obtain ⟨rs, hs, hcontents⟩ := h.records
  obtain ⟨before, r, after, hrs, hlive, rfl, rfl⟩ := hcontents.record hv
  obtain ⟨d', hlook, hs', hdiroff', hsize, -⟩ := lookup_present nameiop hs h.size_lt h.diroff hrs hlive
  exact ⟨d', hlook, ⟨rs, hs', hcontents⟩, hdiroff', room_of_growth h.room (by rw [hsize]; omega)⟩

/-- A look-up that is not for a new name. -/
theorem Represents.look (nameiop : Nameiop) (name : List UInt8) (hiop : ¬ (nameiop = .create ∨ nameiop = .rename))
    (h : Represents (n + 1) s m) :
    ∃ d', s.dir.ufsLookupIno s.fnv false nameiop name = some (answer .enoent (m name), d')
      ∧ Represents n ⟨d', s.fnv⟩ m := by
  cases hv : m name with
  | some v => exact h.present nameiop hv
  | none =>
      obtain ⟨rs, hs, hcontents⟩ := h.records
      have hno := hcontents.absent.mpr hv
      exact ⟨_, lookup_enoent hiop hs h.size_lt h.diroff hno, ⟨rs, hs, hcontents⟩, h.diroff,
        room_of_growth h.room (Nat.le_add_right _ _)⟩

/-- A new name. -/
theorem Represents.enter {nameiop : Nameiop} {dirp : Direct} (isrename : Bool)
    (hiop : nameiop = .create ∨ nameiop = .rename) (hentry : EntryOk false dirp) (h : Represents (n + 1) s m)
    (hv : m dirp.name = none) :
    ∃ d₁ d₂, s.dir.ufsLookupIno s.fnv false nameiop dirp.name = some (.ejustreturn, d₁)
      ∧ d₁.ufsDirenter s.fnv false dirp isrename = some d₂
      ∧ Represents n ⟨d₂, s.fnv⟩ (Function.update m dirp.name (some (dirp.ino, dirp.type))) := by
  obtain ⟨rs, hs, hcontents⟩ := h.records
  have hno := hcontents.absent.mpr hv
  have hroom : s.dir.size + DIRBLKSIZ ≤ MAXDIRSIZE := (Nat.le_add_right _ _).trans (room_of_growth h.room (le_refl _))
  obtain ⟨d₁, d₂, rs', hlook, henter, hs', hperm, hsize, hdiroff⟩ := enter_ok isrename hs hentry hno hroom hiop
  exact ⟨d₁, d₂, hlook, henter, ⟨rs', hs', hcontents.enter hno hperm⟩, h.diroff.of_eq hdiroff,
    room_of_growth h.room hsize⟩

theorem exec_create {dirp : Direct} (hentry : EntryOk false dirp) (h : Represents (n + 1) s m) :
    ∃ s', exec (.create dirp) s = some ((spec (.create dirp) m).1, s') ∧ Represents n s' (spec (.create dirp) m).2 := by
  simp only [exec, spec]
  cases hv : m dirp.name with
  | none =>
      obtain ⟨d₁, d₂, hlook, henter, hnext⟩ := h.enter false (.inl rfl) hentry hv
      refine ⟨⟨d₂, s.fnv⟩, ?_, hnext⟩
      rw [hlook, Option.bind_some]
      exact congrArg (Option.map _) henter
  | some v =>
      obtain ⟨d', hlook, hnext⟩ := h.present .create hv
      refine ⟨⟨d', s.fnv⟩, ?_, hnext⟩
      rw [hlook]
      rfl

theorem exec_remove (name : List UInt8) (h : Represents (n + 1) s m) :
    ∃ s', exec (.remove name) s = some ((spec (.remove name) m).1, s') ∧ Represents n s' (spec (.remove name) m).2 := by
  simp only [exec, spec]
  cases hv : m name with
  | none =>
      obtain ⟨d', hlook, hnext⟩ := h.look .delete name (by decide)
      rw [hv] at hlook
      refine ⟨⟨d', s.fnv⟩, ?_, ?_⟩
      · rw [hlook]
        rfl
      · rwa [← hv, Function.update_eq_self]
  | some v =>
      obtain ⟨rs, hs, hcontents⟩ := h.records
      obtain ⟨before, r, after, hrs, hlive, rfl, rfl⟩ := hcontents.record hv
      obtain ⟨d₁, d₂, rs', hlook, hremove, hs', hentries, hsize, hdiroff⟩ :=
        remove_ok hs ((Nat.le_add_right _ _).trans h.room) h.diroff hrs hlive nofun
      refine ⟨⟨d₂, s.fnv⟩, ?_, ⟨rs', hs', ?_⟩, h.diroff.of_eq hdiroff, room_of_growth h.room (by rw [hsize]; omega)⟩
      · rw [hlook, Option.bind_some]
        exact congrArg (Option.map _) hremove
      · have hnames := hs.dir.names
        rw [hrs] at hcontents hnames
        exact hcontents.remove hnames hlive hentries

theorem exec_replace {dirp : Direct} (hentry : EntryOk false dirp) (h : Represents (n + 1) s m) :
    ∃ s', exec (.replace dirp) s = some ((spec (.replace dirp) m).1, s')
      ∧ Represents n s' (spec (.replace dirp) m).2 := by
  simp only [exec, spec]
  cases hv : m dirp.name with
  | none =>
      obtain ⟨d₁, d₂, hlook, henter, hnext⟩ := h.enter true (.inr rfl) hentry hv
      refine ⟨⟨d₂, s.fnv⟩, ?_, hnext⟩
      rw [hlook, Option.bind_some]
      exact congrArg (Option.map _) henter
  | some v =>
      obtain ⟨rs, hs, hcontents⟩ := h.records
      obtain ⟨before, r, after, hrs, hlive, hname, rfl⟩ := hcontents.record hv
      obtain ⟨d', hlook, hs', hdiroff', hsize, hoff⟩ := lookup_present .rename hs h.size_lt h.diroff hrs hlive
      obtain ⟨data, hrewrite, hs''⟩ := dirrewrite_ok hs' hrs hlive hentry hname.symm (hoff rfl)
      refine ⟨⟨{ d' with data := data }, s.fnv⟩, ?_, ⟨_, hs'', ?_⟩, hdiroff'.of_eq rfl,
        room_of_growth h.room (by rw [← hsize]; exact Nat.le_add_right _ _)⟩
      · rw [← hname, hlook, Option.bind_some]
        simp only [hrewrite]
        rfl
      · have hnames := hs.dir.names
        rw [hrs] at hcontents hnames
        exact hcontents.rewrite hnames hlive hentry hname.symm

theorem exec_build (fnv : List UInt8 → Nat) (h : Represents (n + 1) s m) :
    ∃ s', exec (.build fnv) s = some (none, s') ∧ Represents n s' m := by
  obtain ⟨rs, hs, hcontents⟩ := h.records
  have hroom := room_of_growth h.room (Nat.le_add_right _ _)
  rw [exec]
  split
  case h_1 dh hnone hbuild =>
    have hhash := hashOpt_build hs.dir ((Nat.le_add_right _ _).trans h.room) hbuild
    exact ⟨_, rfl, ⟨rs, ⟨hs.dir, hhash⟩, hcontents⟩, h.diroff.of_eq rfl, hroom⟩
  case h_2 => exact ⟨s, rfl, ⟨rs, hs, hcontents⟩, h.diroff, hroom⟩

/-- One call. -/
theorem Represents.step {c : Call} (hlegal : c.Legal) (h : Represents (n + 1) s m) :
    ∃ s', exec c s = some ((spec c m).1, s') ∧ Represents n s' (spec c m).2 := by
  cases c with
  | lookup name =>
      obtain ⟨d', hlook, hnext⟩ := h.look .lookup name (by decide)
      refine ⟨⟨d', s.fnv⟩, ?_, hnext⟩
      rw [exec, hlook]
      rfl
  | create dirp => exact exec_create hlegal h
  | remove name => exact exec_remove name h
  | replace dirp => exact exec_replace hlegal h
  | build fnv => exact exec_build fnv h
  | free =>
      obtain ⟨rs, hs, hcontents⟩ := h.records
      exact ⟨_, rfl, ⟨rs, ⟨hs.dir, hashOpt_none⟩, hcontents⟩, h.diroff.of_eq rfl,
        room_of_growth h.room (Nat.le_add_right _ _)⟩

end Calls

/-! ### Every sequence of calls -/

/-- The answers to any calls are those of the map, and the directory is that of the map in the
end. -/
theorem answers_eq {s : HashedDir} {rs : List Rec} {m : NameMap} {calls : List Call}
    (hd : DirOk false s.dir.data s.dir.size rs) (hcontents : Contents rs m) (hnone : s.dir.dirhash = none)
    (hdiroff : DiroffOk s.dir) (hlegal : ∀ c ∈ calls, c.Legal)
    (hroom : s.dir.size + calls.length * DIRBLKSIZ ≤ MAXDIRSIZE) :
    ∃ s' rs', answers exec calls s = some ((specAnswers spec calls m).1, s')
      ∧ DirOk false s'.dir.data s'.dir.size rs' ∧ Contents rs' (specAnswers spec calls m).2 := by
  have hstart : Represents calls.length s m := by
    refine ⟨⟨rs, ⟨hd, ?_⟩, hcontents⟩, hdiroff, hroom⟩
    rw [hnone]
    exact hashOpt_none
  obtain ⟨s', hanswers, hend⟩ := answers_of_simulation (P := Call.Legal) (fun n s m => Represents n s m)
    Represents.step hlegal hstart
  obtain ⟨rs', hs', hcontents'⟩ := hend.records
  exact ⟨s', rs', hanswers, hs'.dir, hcontents'⟩

/-- A name comes and goes, with a table and without. -/
def comesAndGoes : List Call :=
  [.create ⟨4, 8, [97]⟩, .build fun _ => 0, .lookup [97], .replace ⟨5, 8, [97]⟩, .free, .remove [97], .lookup [97]]

theorem answers_comesAndGoes : ∃ s', answers exec comesAndGoes ⟨emptyDir, fun _ => 0⟩
    = some ([some .ejustreturn, none, some (.found 4), some (.found 4), none, some (.found 5), some .enoent], s') := by
  have hentry : EntryOk false ⟨4, 8, [97]⟩ :=
    ⟨by decide, by decide, by decide, by decide, by decide, by decide, by decide⟩
  have hentry' : EntryOk false ⟨5, 8, [97]⟩ :=
    ⟨by decide, by decide, by decide, by decide, by decide, by decide, by decide⟩
  have hempty : Contents [freeRec] fun _ => none := fun name v => iff_of_false List.not_mem_nil nofun
  have hlegal : ∀ c ∈ comesAndGoes, c.Legal := by
    simp [comesAndGoes, Call.Legal, hentry, hentry']
  obtain ⟨s', -, hanswers, -⟩ := answers_eq (s := ⟨emptyDir, fun _ => 0⟩) emptyDir_ok hempty rfl ⟨by decide, by decide⟩
    hlegal (by decide)
  exact ⟨s', hanswers⟩

end UfsX.Proofs.DirMap
