import UfsX.Lib.Run
import UfsX.Proofs.DirhashBuild
import UfsX.Proofs.Dirremove

/-!
# `UfsX.Proofs.DirRun`: the life of a directory

`DirStep` is one call on a directory of the new format: the hash table is built or
freed, a name is looked up, entered or removed. A directory that is well formed at
first, with a hash table that holds it, stays so (`DirInv.step`).

`create_ok` is what a `CREATE` does on any such directory.
-/

set_option autoImplicit false

namespace UfsX.Proofs

open UfsX.Lib UfsX.Ufs
open Relation (ReflTransGen)

/-! ### A new entry, from the lookup on -/

section Create

variable {fnv : List UInt8 → Nat} {ofs : Bool} {d : Dir} {rs : List Rec} {dirp : Direct}

/-- `ufs_direnter` puts the entry in the place that the lookup has left. -/
theorem direnter_ok (isrename : Bool) (hs : DirState fnv ofs d rs) (hentry : EntryOk ofs dirp)
    (hnew : dirp.name ∉ namesOf rs) (hsize : d.size + DIRBLKSIZ ≤ MAXDIRSIZE)
    (hslot : Slotted (directsiz dirp.name.length) rs d) :
    ∃ d' rs', d.ufsDirenter fnv ofs dirp isrename = some d' ∧ DirState fnv ofs d' rs'
      ∧ (entriesOf rs').Perm ((dirp.name, dirp.ino, dirp.type) :: entriesOf rs)
      ∧ d'.size ≤ d.size + DIRBLKSIZ ∧ d'.diroff = d.diroff := by
  unfold Dir.ufsDirenter
  obtain ⟨hcount, hoff⟩ | ⟨so, sz, e, hoff, hcount, hend, hregion, hblk, hle, hlive⟩ := hslot
  · rw [if_pos hcount]
    obtain ⟨d', henter, hs', hsz, hdiroff⟩ := enterNewblk_ok hs hentry hnew hoff
      (by unfold MAXDIRSIZE at hsize; omega)
    refine ⟨d', _, henter, hs', ?_, by omega, hdiroff⟩
    rw [entriesOf_append, entriesOf_entryRec hentry]
    exact List.perm_append_singleton _ _
  · obtain ⟨before, mid, after, rfl, rfl, rfl, hfit, hne, hspace⟩ := hregion
    have hrecs : ∀ r ∈ before ++ mid ++ after, 0 < r.reclen := fun r hr => (hs.dir.recs r hr).pos
    have hmidok : ∀ r ∈ mid, r.Ok ofs := fun r hr => hs.dir.recs r (by simp [hr])
    have hmid : 0 < recsLen mid := by
      have hlen := length_le_recsLen hmidok
      have hpos := List.length_pos_of_ne_nil hne
      omega
    rw [if_neg (by rw [hcount]; omega)]
    obtain ⟨data, dirhash, henter, hs'⟩ := enterSlot_ok isrename hs hentry hnew hoff hcount hfit hne hspace
    rw [henter]
    -- the entries of the slot stand before its end, and those behind it have not moved
    have hlens := recsLen_entered dirp hmidok
    have hmem : ∀ p ∈ index 0 (before ++ entered dirp mid ++ after), p.1 < e := by
      intro p hp
      rw [index_append, recsLen_append, hlens, List.mem_append] at hp
      obtain hp | hp := hp
      · have hrange := (index_range (fun r hr => ?_) hp).2
        · rw [recsLen_append, hlens] at hrange
          omega
        · obtain hr | hr := List.mem_append.mp hr
          · exact hrecs r (by simp [hr])
          · exact (entered_ok hentry hmidok hspace r hr).pos
      · refine hlive p ?_
        rw [index_append, recsLen_append]
        exact List.mem_append_right _ hp
    obtain ⟨d', kept, dead, hshort, hrs', hdead, hs'', hsz, hdiroff⟩ := shorten_ok isrename hs'
      (fun _ => ⟨e, hend, hblk, hmem⟩)
    refine ⟨d', kept, hshort, hs'', ?_, ?_, hdiroff⟩
    · have hperm := entriesOf_entered hentry before mid after
      rw [hrs', entriesOf_append, entriesOf_dead hdead, List.append_nil] at hperm
      exact hperm
    · exact hsz.trans (Nat.le_add_right _ _)

/-- A name that is not there is entered. -/
theorem enter_ok {nameiop : Nameiop} (isrename : Bool) (hs : DirState fnv ofs d rs)
    (hentry : EntryOk ofs dirp) (hnew : dirp.name ∉ namesOf rs)
    (hsize : d.size + DIRBLKSIZ ≤ MAXDIRSIZE) (hiop : nameiop = .create ∨ nameiop = .rename) :
    ∃ d₁ d₂ rs', d.ufsLookupIno fnv ofs nameiop dirp.name = some (.ejustreturn, d₁)
      ∧ d₁.ufsDirenter fnv ofs dirp isrename = some d₂ ∧ DirState fnv ofs d₂ rs'
      ∧ (entriesOf rs').Perm ((dirp.name, dirp.ino, dirp.type) :: entriesOf rs)
      ∧ d₂.size ≤ d.size + DIRBLKSIZ ∧ d₂.diroff = d.diroff := by
  obtain ⟨offset, count, endoff, hlook, hslot⟩ := lookup_create hs
    (by unfold MAXDIRSIZE at hsize; omega) hiop hnew
  obtain ⟨d₂, rs', henter, hs', hperm, hsz, hdiroff⟩ := direnter_ok isrename
    (d := { d with offset := offset, count := count, endoff := endoff }) ⟨hs.dir, hs.hash⟩ hentry hnew
    hsize hslot
  exact ⟨_, d₂, rs', hlook, henter, hs', hperm, hsz, hdiroff⟩

/-- A name that is there is removed. -/
theorem remove_ok {before after : List Rec} {r : Rec} (hs : DirState fnv ofs d rs)
    (hsize : d.size ≤ MAXDIRSIZE) (hdiroff : DiroffOk d) (hrs : rs = before ++ r :: after)
    (hlive : r.live = true) (hold : ofs = true → r.type = 0) :
    ∃ d₁ d₂ rs', d.ufsLookupIno fnv ofs .delete r.name = some (.found r.ino, d₁)
      ∧ d₁.ufsDirremove fnv r.ino = some d₂ ∧ DirState fnv ofs d₂ rs'
      ∧ entriesOf rs' = entriesOf before ++ entriesOf after
      ∧ d₂.size = d.size ∧ d₂.diroff = d.diroff := by
  obtain ⟨dirhash, hlook, hhash⟩ := lookup_delete hs (by unfold MAXDIRSIZE at hsize; omega) hdiroff hrs
    hlive
  obtain ⟨data, dirhash', rs', hremove, hs', hentries⟩ := dirremove_ok (d := { d with
    offset := recsLen before, count := distance before, dirhash := dirhash }) ⟨hs.dir, hhash⟩ hrs hlive
    hold rfl rfl rfl
  exact ⟨_, _, rs', hlook, hremove, hs', hentries, rfl, rfl⟩

theorem mem_namesOf {name : List UInt8} (h : name ∈ namesOf rs) :
    ∃ before r after, rs = before ++ r :: after ∧ r.live = true ∧ r.name = name := by
  rw [← index_names 0] at h
  obtain ⟨p, hp, hpn⟩ := List.mem_map.mp h
  obtain ⟨before, r, after, hrs, -, hlive, hname⟩ := exists_rec_of_mem_index hp
  exact ⟨before, r, after, hrs, hlive, hname.symm.trans hpn⟩

/-- Any lookup leaves the directory as it is. -/
theorem lookup_state (nameiop : Nameiop) (name : List UInt8) (hs : DirState fnv ofs d rs)
    (hsize : d.size ≤ MAXDIRSIZE) (hdiroff : DiroffOk d) :
    ∃ r d', d.ufsLookupIno fnv ofs nameiop name = some (r, d') ∧ DirState fnv ofs d' rs ∧ DiroffOk d'
      ∧ d'.size = d.size ∧ (name ∈ namesOf rs ↔ ∃ ino, r = .found ino) := by
  have hlt : d.size < 2147483648 := by
    unfold MAXDIRSIZE at hsize
    omega
  by_cases hmem : name ∈ namesOf rs
  · obtain ⟨before, r, after, hrs, hlive, rfl⟩ := mem_namesOf hmem
    obtain ⟨dirhash, prevoff, hlook, hhash, -⟩ := lookup_found nameiop hs hlt (fun _ => hdiroff) hrs hlive
    obtain ⟨offset, count, diroff, hfound, hdiroff', -⟩ := found_some
      (d := { d with dirhash := dirhash }) nameiop prevoff hs.dir hrs hlive
    obtain ⟨hnonneg, hblks⟩ := hdiroff' ⟨hdiroff.nonneg, hdiroff.blocks⟩
    exact ⟨_, _, hlook.trans hfound, ⟨hs.dir, hhash⟩, ⟨hnonneg, hblks⟩, rfl,
      ⟨fun _ => ⟨_, rfl⟩, fun _ => hmem⟩⟩
  · have hno : ∀ r : Found, r = .ejustreturn ∨ r = .enoent → (name ∈ namesOf rs ↔ ∃ ino, r = .found ino) := by
      intro r hr
      refine ⟨fun h => absurd h hmem, ?_⟩
      rintro ⟨ino, rfl⟩
      obtain hr | hr := hr <;> cases hr
    by_cases hiop : nameiop = .create ∨ nameiop = .rename
    · obtain ⟨offset, count, endoff, hlook, -⟩ := lookup_create hs hlt hiop hmem
      exact ⟨_, _, hlook, ⟨hs.dir, hs.hash⟩, ⟨hdiroff.nonneg, hdiroff.blocks⟩, rfl, hno _ (.inl rfl)⟩
    · exact ⟨_, _, lookup_enoent hiop hs hlt hdiroff hmem, hs, hdiroff, rfl, hno _ (.inr rfl)⟩

end Create

/-! ### Runs -/

/-- A directory of the new format, and the hash function of its table: it depends on
where the table is. -/
structure HashedDir where
  dir : Dir
  fnv : List UInt8 → Nat

/-- One call on a directory. A directory that grows stays below `MAXDIRSIZE`. -/
inductive DirStep (s : HashedDir) : HashedDir → Prop where
  | build {dh : Dirhash} (fnv : List UInt8 → Nat) (h : s.dir.dirhash = none)
      (hbuild : ufsdirhashBuild fnv s.dir.data s.dir.size = some dh) :
      DirStep s ⟨{ s.dir with dirhash := some dh }, fnv⟩
  | free : DirStep s ⟨{ s.dir with dirhash := none }, s.fnv⟩
  | lookup (nameiop : Nameiop) (name : List UInt8) {r : Found} {d : Dir}
      (h : s.dir.ufsLookupIno s.fnv false nameiop name = some (r, d)) : DirStep s ⟨d, s.fnv⟩
  | enter (nameiop : Nameiop) (dirp : Direct) (isrename : Bool) {d₁ d₂ : Dir}
      (hiop : nameiop = .create ∨ nameiop = .rename) (hentry : EntryOk false dirp)
      (hsize : s.dir.size + DIRBLKSIZ ≤ MAXDIRSIZE)
      (hlook : s.dir.ufsLookupIno s.fnv false nameiop dirp.name = some (.ejustreturn, d₁))
      (henter : d₁.ufsDirenter s.fnv false dirp isrename = some d₂) : DirStep s ⟨d₂, s.fnv⟩
  | remove (name : List UInt8) {ino : Nat} {d₁ d₂ : Dir}
      (hlook : s.dir.ufsLookupIno s.fnv false .delete name = some (.found ino, d₁))
      (hremove : d₁.ufsDirremove s.fnv ino = some d₂) : DirStep s ⟨d₂, s.fnv⟩

/-- What stays true of a directory. -/
structure DirInv (s : HashedDir) : Prop where
  state : ∃ rs, DirState s.fnv false s.dir rs
  size_le : s.dir.size ≤ MAXDIRSIZE
  diroff : DiroffOk s.dir

/-- A table that has been built. -/
theorem hashOpt_build {fnv : List UInt8 → Nat} {m : Mem} {size : Nat} {rs : List Rec} {dh : Dirhash}
    (hd : DirOk false m size rs) (hmax : size ≤ MAXDIRSIZE)
    (hbuild : ufsdirhashBuild fnv m size = some dh) :
    HashOpt fnv false (some dh) (index 0 rs) size := by
  have hle : DIRBLKSIZ ≤ size := by
    by_contra hlt
    unfold ufsdirhashBuild at hbuild
    rw [if_pos (by omega)] at hbuild
    cases hbuild
  obtain ⟨dh', hbuild', hok⟩ := build_ok fnv hd hle hmax
  obtain rfl : dh' = dh := Option.some.inj (hbuild'.symm.trans hbuild)
  intro _ hdh
  cases hdh
  exact ⟨rfl, hok⟩

theorem DirInv.step {s s' : HashedDir} (h : DirInv s) (hstep : DirStep s s') : DirInv s' := by
  obtain ⟨⟨rs, hs⟩, hsize, hdiroff⟩ := h
  cases hstep with
  | @build dh fnv hnone hbuild =>
      exact ⟨⟨rs, hs.dir, hashOpt_build hs.dir hsize hbuild⟩, hsize, ⟨hdiroff.nonneg, hdiroff.blocks⟩⟩
  | free => exact ⟨⟨rs, hs.dir, hashOpt_none⟩, hsize, ⟨hdiroff.nonneg, hdiroff.blocks⟩⟩
  | lookup nameiop name hlook =>
      obtain ⟨r, d, hlook', hs', hdiroff', hsz, -⟩ := lookup_state nameiop name hs hsize hdiroff
      obtain ⟨-, rfl⟩ := Prod.mk.inj (Option.some.inj (hlook'.symm.trans hlook))
      exact ⟨⟨rs, hs'⟩, hsz.trans_le hsize, hdiroff'⟩
  | enter nameiop dirp isrename hiop hentry hgrow hlook henter =>
      have hnew : dirp.name ∉ namesOf rs := by
        intro hmem
        obtain ⟨r, d, hlook', -, -, -, hfound⟩ := lookup_state nameiop dirp.name hs hsize hdiroff
        obtain ⟨ino, rfl⟩ := hfound.mp hmem
        obtain ⟨hno, -⟩ := Prod.mk.inj (Option.some.inj (hlook'.symm.trans hlook))
        cases hno
      obtain ⟨d₁, d₂, rs', hlook', henter', hs', -, hsz, hdiroff'⟩ := enter_ok isrename hs hentry hnew
        hgrow hiop
      obtain ⟨-, rfl⟩ := Prod.mk.inj (Option.some.inj (hlook'.symm.trans hlook))
      obtain rfl := Option.some.inj (henter'.symm.trans henter)
      exact ⟨⟨rs', hs'⟩, hsz.trans hgrow, hdiroff.of_eq hdiroff'⟩
  | remove name hlook hremove =>
      obtain ⟨r, d, hlook', -, -, -, hfound⟩ := lookup_state .delete name hs hsize hdiroff
      obtain ⟨rfl, -⟩ := Prod.mk.inj (Option.some.inj (hlook'.symm.trans hlook))
      obtain ⟨before, r, after, hrs, hlive, rfl⟩ := mem_namesOf (hfound.mpr ⟨_, rfl⟩)
      obtain ⟨d₁, d₂, rs', hlook'', hremove', hs', -, hsz, hdiroff'⟩ := remove_ok hs hsize hdiroff hrs
        hlive (fun hno => by cases hno)
      obtain ⟨hino, rfl⟩ := Prod.mk.inj (Option.some.inj (hlook''.symm.trans hlook))
      cases hino
      obtain rfl := Option.some.inj (hremove'.symm.trans hremove)
      exact ⟨⟨rs', hs'⟩, hsz.trans_le hsize, hdiroff.of_eq hdiroff'⟩

/-- A directory without a hash table, at first. -/
structure Unhashed (s : HashedDir) : Prop where
  dir : ∃ rs, DirOk false s.dir.data s.dir.size rs
  none : s.dir.dirhash = none
  size_le : s.dir.size ≤ MAXDIRSIZE
  diroff : DiroffOk s.dir

theorem DirInv.of_run {s s' : HashedDir} (h : Unhashed s) (hrun : ReflTransGen DirStep s s') :
    DirInv s' := by
  obtain ⟨rs, hd⟩ := h.dir
  have hstart : DirInv s := by
    refine ⟨⟨rs, hd, ?_⟩, h.size_le, h.diroff⟩
    rw [h.none]
    exact hashOpt_none
  exact invariant_of_run DirInv (fun ha hs => ha.step hs) hstart hrun

/-! ### Every directory -/

/-- The bytes of a directory determine its records. -/
theorem holds_unique {ofs : Bool} {m : Mem} {o : Nat} {rs rs' : List Rec} (h : Holds ofs m o rs)
    (h' : Holds ofs m o rs') (hpos : ∀ r ∈ rs, 0 < r.reclen) (hpos' : ∀ r ∈ rs', 0 < r.reclen)
    (hlen : recsLen rs = recsLen rs') : rs = rs' := by
  induction rs generalizing o rs' with
  | nil =>
      cases rs' with
      | nil => rfl
      | cons r' rs' =>
          have := hpos' r' List.mem_cons_self
          rw [recsLen_nil, recsLen_cons] at hlen
          omega
  | cons r rs ih =>
      cases rs' with
      | nil =>
          have := hpos r List.mem_cons_self
          rw [recsLen_nil, recsLen_cons] at hlen
          omega
      | cons r' rs' =>
          obtain rfl : r = r' := h.1.symm.trans h'.1
          rw [recsLen_cons, recsLen_cons] at hlen
          rw [ih h.2 h'.2 (fun r hr => hpos r (List.mem_cons_of_mem _ hr))
            (fun r hr => hpos' r (List.mem_cons_of_mem _ hr)) (by omega)]

theorem DirOk.unique {ofs : Bool} {m : Mem} {size : Nat} {rs rs' : List Rec} (h : DirOk ofs m size rs)
    (h' : DirOk ofs m size rs') : rs = rs' :=
  holds_unique h.holds h'.holds (fun r hr => (h.recs r hr).pos) (fun r hr => (h'.recs r hr).pos)
    (h.size_eq.symm.trans h'.size_eq)

/-- A directory has no hash table, or one that the calls on it have made. -/
def Hashed (fnv : List UInt8 → Nat) (ofs : Bool) (d : Dir) : Prop :=
  d.dirhash = none
    ∨ (ofs = false ∧ ∃ s, Unhashed s ∧ ReflTransGen DirStep s ⟨d, fnv⟩)

/-- A `CREATE` or `RENAME` lookup of a new name, and then `ufs_direnter`: neither
panics, the directory stays well formed, and the new entry is all that changes. -/
theorem create_ok {fnv : List UInt8 → Nat} {ofs : Bool} {d : Dir} {rs : List Rec} {dirp : Direct}
    {nameiop : Nameiop} (hd : DirOk ofs d.data d.size rs) (hhash : Hashed fnv ofs d)
    (hsize : d.size + DIRBLKSIZ ≤ MAXDIRSIZE) (hentry : EntryOk ofs dirp)
    (hnew : dirp.name ∉ namesOf rs) (hiop : nameiop = .create ∨ nameiop = .rename) :
    ∃ d₁ d₂ rs', d.ufsLookupIno fnv ofs nameiop dirp.name = some (.ejustreturn, d₁)
      ∧ d₁.ufsDirenter fnv ofs dirp false = some d₂ ∧ DirOk ofs d₂.data d₂.size rs'
      ∧ (entriesOf rs').Perm ((dirp.name, dirp.ino, dirp.type) :: entriesOf rs) := by
  have hs : DirState fnv ofs d rs := by
    obtain hnone | ⟨rfl, s, hstart, hrun⟩ := hhash
    · refine ⟨hd, ?_⟩
      rw [hnone]
      exact hashOpt_none
    · obtain ⟨⟨rs', hs⟩, -, -⟩ := DirInv.of_run hstart hrun
      rw [hd.unique hs.dir]
      exact hs
  obtain ⟨d₁, d₂, rs', hlook, henter, hs', hperm, -, -⟩ := enter_ok false hs hentry hnew hsize hiop
  exact ⟨d₁, d₂, rs', hlook, henter, hs'.dir, hperm⟩

/-- An empty block. -/
def freeRec : Rec := ⟨0, 512, 0, []⟩

/-- An empty directory of one block. -/
def emptyDir : Dir := ⟨fun x => if x = 5 then 2 else 0, 512, 0, 0, 0, 0, none⟩

theorem emptyDir_ok : DirOk false emptyDir.data emptyDir.size [freeRec] where
  size_eq := rfl
  blocks := ⟨1, rfl⟩
  fits := ⟨by decide, trivial⟩
  recs := by
    intro r hr
    obtain rfl := List.mem_singleton.mp hr
    exact ⟨⟨128, rfl⟩, by decide, by decide, by decide⟩
  holds := ⟨by decide +kernel, trivial⟩
  names := List.nodup_nil

def longName : List UInt8 := List.replicate 120 110

/-- Three entries in one block, with space behind each, and one in the next block. -/
def sparseDir : Dir where
  data x :=
    if x < 128 then Direct.bytes false ⟨4, 8, [97]⟩ 128 x
    else if x < 256 then Direct.bytes false ⟨5, 8, [98]⟩ 128 (x - 128)
    else if x < 512 then Direct.bytes false ⟨6, 8, [99]⟩ 256 (x - 256)
    else Direct.bytes false ⟨7, 8, [100]⟩ 512 (x - 512)
  size := 1024
  offset := 0
  count := 0
  endoff := 0
  diroff := 0
  dirhash := none

def sparseRecs : List Rec :=
  [entryRec ⟨4, 8, [97]⟩ 128, entryRec ⟨5, 8, [98]⟩ 128, entryRec ⟨6, 8, [99]⟩ 256, entryRec ⟨7, 8, [100]⟩ 512]

theorem sparseDir_ok : DirOk false sparseDir.data sparseDir.size sparseRecs where
  size_eq := rfl
  blocks := ⟨2, rfl⟩
  fits := ⟨by decide, by decide, by decide, by decide, trivial⟩
  recs := by
    intro r hr
    simp only [sparseRecs, List.mem_cons, List.not_mem_nil, or_false] at hr
    rcases hr with rfl | rfl | rfl | rfl
    · exact ⟨⟨32, rfl⟩, by decide, by decide, by decide⟩
    · exact ⟨⟨32, rfl⟩, by decide, by decide, by decide⟩
    · exact ⟨⟨64, rfl⟩, by decide, by decide, by decide⟩
    · exact ⟨⟨128, rfl⟩, by decide, by decide, by decide⟩
  holds := ⟨by decide +kernel, by decide +kernel, by decide +kernel, by decide +kernel, trivial⟩
  names := by decide +kernel

theorem unhashed_sparseDir : Unhashed ⟨sparseDir, List.length⟩ :=
  ⟨⟨_, sparseDir_ok⟩, rfl, by decide, ⟨by decide, ⟨0, rfl⟩⟩⟩

theorem entryOk_longName : EntryOk false ⟨8, 8, longName⟩ :=
  ⟨by decide, by decide, by decide, by decide, by decide, by decide +kernel, by decide +kernel⟩

theorem longName_new : longName ∉ namesOf sparseRecs := by decide +kernel

/-- With a hash table, the first block is compacted for the new entry. -/
theorem create_compacts :
    ∃ dh, ufsdirhashBuild List.length sparseDir.data sparseDir.size = some dh ∧ ∃ d₁ d₂ rs',
      { sparseDir with dirhash := some dh }.ufsLookupIno List.length false .create longName
        = some (.ejustreturn, d₁)
      ∧ d₁.ufsDirenter List.length false ⟨8, 8, longName⟩ false = some d₂
      ∧ DirOk false d₂.data d₂.size rs'
      ∧ (entriesOf rs').Perm ((longName, 8, 8) :: entriesOf sparseRecs) := by
  obtain ⟨dh, hbuild, -⟩ := build_ok List.length sparseDir_ok (by decide) (by decide)
  have hhash : Hashed List.length false { sparseDir with dirhash := some dh } :=
    .inr ⟨rfl, _, unhashed_sparseDir, .single (.build List.length rfl hbuild)⟩
  have hsize : sparseDir.size + DIRBLKSIZ ≤ MAXDIRSIZE := by decide
  exact ⟨dh, hbuild, @create_ok List.length false { sparseDir with dirhash := some dh } sparseRecs
    ⟨8, 8, longName⟩ .create sparseDir_ok hhash hsize entryOk_longName longName_new (.inl rfl)⟩

/-! #### An update of a hash table -/

section Hashed

variable {fnv : List UInt8 → Nat} {d d' : Dir} {dh : Dirhash}

/-- The removal of an entry keeps the table. -/
theorem dirremove_hashed {ino : Nat} (hdh : d.dirhash = some dh) (h : d.ufsDirremove fnv ino = some d') :
    ∃ dh', d'.dirhash = some dh' := by
  unfold Dir.ufsDirremove at h
  simp only [hdh, withHash] at h
  split at h
  case h_1 => cases h
  case h_2 dirhash hremove =>
      rw [Option.ite_none_left_eq_some] at h
      rw [← Option.some.inj h.2]
      unfold Dirhash.remove at hremove
      rw [Option.ite_none_right_eq_some] at hremove
      obtain ⟨-, hremove⟩ := hremove
      split at hremove
      case h_1 => cases hremove
      case h_2 =>
          split at hremove
          case h_1 => cases hremove
          case h_2 =>
              obtain ⟨dh', -, rfl⟩ := Option.map_eq_some_iff.mp hremove
              exact ⟨dh', rfl⟩

/-- The table is built, and the long name of the first block is removed. -/
theorem sparse_run : ∃ s dh, ReflTransGen DirStep ⟨sparseDir, List.length⟩ s ∧ s.dir.dirhash = some dh
    ∧ ∀ rs, DirOk false s.dir.data s.dir.size rs →
      entriesOf rs = [([97], 4, 8), ([99], 6, 8), ([100], 7, 8)] := by
  obtain ⟨dh, hbuild, -⟩ := build_ok List.length sparseDir_ok (by decide) (by decide)
  have hfirst : DirStep ⟨sparseDir, List.length⟩ ⟨{ sparseDir with dirhash := some dh }, List.length⟩ :=
    .build List.length rfl hbuild
  obtain ⟨⟨rs, hs⟩, -, -⟩ := DirInv.of_run unhashed_sparseDir (.single hfirst)
  obtain rfl : rs = sparseRecs := hs.dir.unique sparseDir_ok
  have hrs : sparseRecs = [entryRec ⟨4, 8, [97]⟩ 128] ++ entryRec ⟨5, 8, [98]⟩ 128 ::
    [entryRec ⟨6, 8, [99]⟩ 256, entryRec ⟨7, 8, [100]⟩ 512] := rfl
  obtain ⟨dh₁, prevoff, hlook, hhash, hprev⟩ := lookup_hashed .delete hs hrs rfl rfl
  obtain ⟨data, dirhash, rs', hremove, hs', hentries⟩ := dirremove_ok (d := { sparseDir with
    offset := recsLen [entryRec ⟨4, 8, [97]⟩ 128], count := distance [entryRec ⟨4, 8, [97]⟩ 128],
    dirhash := some dh₁ }) ⟨sparseDir_ok, hhash⟩ hrs rfl nofun rfl rfl rfl
  obtain ⟨dh₂, hdh₂⟩ := dirremove_hashed rfl hremove
  have hfound := hlook.trans (found_delete hs hrs rfl (some dh₁) prevoff (hprev rfl))
  refine ⟨_, dh₂, (ReflTransGen.single hfirst).tail (.remove _ hfound hremove), hdh₂, ?_⟩
  intro rs'' hd
  rw [hd.unique hs'.dir, hentries]
  rfl

end Hashed

/-- The last entry of a directory that is too long for `doff_t`. -/
def lastEntry : Direct := ⟨5, 8, [122]⟩

/-- A directory of more than 4 GB: one entry, in its last block. -/
def longDir : Dir where
  data x :=
    if x < 4294967808 then (if x % 512 = 5 then 2 else 0)
    else lastEntry.bytes false 512 (x - 4294967808)
  size := 4294968320
  offset := 0
  count := 0
  endoff := 0
  diroff := 0
  dirhash := none

def longRecs : List Rec := List.replicate 8388609 freeRec ++ [entryRec lastEntry 512]

theorem recsLen_replicate (n : Nat) : recsLen (List.replicate n freeRec) = 512 * n := by
  induction n with
  | zero => rfl
  | succ n ih =>
      rw [List.replicate_succ, recsLen_cons, ih]
      change 512 + 512 * n = _
      omega

theorem freeRecs_ok (n : Nat) : ∀ r ∈ List.replicate n freeRec, r.Ok false := by
  intro r hr
  obtain rfl := List.eq_of_mem_replicate hr
  exact ⟨⟨128, rfl⟩, by decide, by decide, by decide⟩

theorem freeRecs_fits (n : Nat) {o : Nat} (hblk : 512 ∣ o) : Fits o (List.replicate n freeRec) := by
  induction n generalizing o with
  | zero => trivial
  | succ n ih =>
      refine ⟨?_, ih (Nat.dvd_add hblk (Nat.dvd_refl 512))⟩
      change o % 512 + 512 ≤ 512
      omega

theorem freeRecs_dead (n : Nat) : ∀ r ∈ List.replicate n freeRec, r.live = false := by
  intro r hr
  obtain rfl := List.eq_of_mem_replicate hr
  rfl

/-- Empty blocks, one behind the other. -/
theorem holds_free {m : Mem} {e : Nat} (h : ∀ x, x < e → m x = if x % 512 = 5 then 2 else 0) (n o : Nat)
    (hblk : 512 ∣ o) (hle : o + 512 * n ≤ e) : Holds false m o (List.replicate n freeRec) := by
  induction n generalizing o with
  | zero => trivial
  | succ n ih =>
      refine ⟨?_, ih (o + 512) (Nat.dvd_add hblk (Nat.dvd_refl 512)) (by omega)⟩
      obtain ⟨k, rfl⟩ := hblk
      have hbyte : ∀ i, i < 8 → m (512 * k + i) = if i = 5 then 2 else 0 := by
        intro i hi
        rw [h _ (by omega), show (512 * k + i) % 512 = i by omega]
      have h₀ := hbyte 0 (by omega)
      rw [Nat.add_zero] at h₀
      simp only [recOf, dIno, dReclen, Mem.read32, Mem.read16, Nat.add_assoc, h₀, hbyte 1 (by omega),
        hbyte 2 (by omega), hbyte 3 (by omega), hbyte 4 (by omega), hbyte 5 (by omega)]
      rfl

theorem longDir_holds (n : Nat) (hle : 512 * n ≤ 4294967808) :
    Holds false longDir.data 0 (List.replicate n freeRec) := by
  refine holds_free (e := 4294967808) (fun x hx => ?_) n 0 ⟨0, rfl⟩ (by omega)
  unfold longDir
  simp only
  rw [if_pos hx]

/-- `doff_t` sees the first two blocks. -/
theorem longDir_search : longDir.search false .create [97] ⟨.none, none, 0, 0⟩
    = some (.nothing ⟨1024, 512, 0, ⟨.found, some 0, 512, 0⟩⟩) := by
  have hscan := @scanLoop_eq false longDir.data (List.replicate 2 freeRec) 4294968833
    ⟨0, 0, 0, ⟨.none, none, 0, 0⟩⟩ 1024 [97] 12 (by decide) (longDir_holds 2 (by omega))
    (freeRecs_fits 2 ⟨0, rfl⟩) (freeRecs_ok 2) (by decide)
  have hend : toI32 (roundupBlk longDir.size : Nat) = 1024 := by decide
  unfold Dir.search
  simp only
  rw [if_pos (.inl (by decide)), hend]
  exact hscan

theorem longDir_lookup (fnv : List UInt8 → Nat) : longDir.ufsLookupIno fnv false .create [97]
    = some (.ejustreturn, { longDir with offset := 0, count := 512, endoff := 512 }) := by
  have hresult := congrArg (Option.bind · (longDir.scanResult false .create)) longDir_search
  exact hresult

theorem longDir_ok : DirOk false longDir.data longDir.size longRecs where
  size_eq := by
    unfold longRecs
    rw [recsLen_append, recsLen_replicate]
    rfl
  blocks := ⟨8388610, rfl⟩
  fits := by
    unfold longRecs
    rw [fits_append]
    refine ⟨?_, ?_⟩
    · exact freeRecs_fits _ ⟨0, rfl⟩
    · rw [recsLen_replicate]
      exact ⟨by decide, trivial⟩
  recs := by
    intro r hr
    obtain hr | hr := List.mem_append.mp hr
    · exact freeRecs_ok _ r hr
    · obtain rfl := List.mem_singleton.mp hr
      exact ⟨⟨128, rfl⟩, by decide, by decide, by decide⟩
  holds := by
    unfold longRecs
    rw [holds_append]
    refine ⟨longDir_holds _ (by decide), ?_, trivial⟩
    rw [recsLen_replicate]
    decide +kernel
  names := by
    unfold longRecs
    rw [namesOf_append, namesOf, liveOf_eq_nil (freeRecs_dead _)]
    exact List.nodup_singleton _

theorem longDir_enter (fnv : List UInt8 → Nat) :
    { longDir with offset := 0, count := 512, endoff := 512 }.ufsDirenter fnv false ⟨4, 8, [97]⟩ false
      = some { longDir with
        data := longDir.data.copy 0 (Direct.bytes false ⟨4, 8, [97]⟩ 512) 0 12
        size := 512
        offset := 0
        count := 512
        endoff := 512 } := by
  rfl

/-- The entry in the last block is lost: the search ends before it, and the directory
is cut behind the slot. -/
theorem create_long :
    DirOk false longDir.data longDir.size longRecs ∧ longDir.dirhash = none
      ∧ EntryOk false ⟨4, 8, [97]⟩ ∧ [97] ∉ namesOf longRecs
      ∧ ∃ d₁ d₂, longDir.ufsLookupIno (fun _ => 0) false .create [97] = some (.ejustreturn, d₁)
        ∧ d₁.ufsDirenter (fun _ => 0) false ⟨4, 8, [97]⟩ false = some d₂
        ∧ ¬ ∃ rs', DirOk false d₂.data d₂.size rs'
          ∧ (entriesOf rs').Perm (([97], 4, 8) :: entriesOf longRecs) := by
  have hentry : EntryOk false ⟨4, 8, [97]⟩ :=
    ⟨by decide, by decide, by decide, by decide, by decide, by decide, by decide⟩
  have hentries : entriesOf longRecs = [([122], 5, 8)] := by
    unfold longRecs
    rw [entriesOf_append, entriesOf_dead (freeRecs_dead _)]
    rfl
  refine ⟨longDir_ok, rfl, hentry, ?_, _, _, longDir_lookup _, longDir_enter _, ?_⟩
  · rw [namesOf_eq, hentries]
    decide
  · rintro ⟨rs', hd, hperm⟩
    have hrec : recOf false (longDir.data.copy 0 (Direct.bytes false ⟨4, 8, [97]⟩ 512) 0 12) 0
        = entryRec ⟨4, 8, [97]⟩ 512 := recOf_copy_bytes hentry (by decide) longDir.data 0
    have honly : rs' = [entryRec ⟨4, 8, [97]⟩ 512] :=
      holds_unique hd.holds ⟨hrec, trivial⟩ (fun r hr => (hd.recs r hr).pos) (by simp [entryRec])
        hd.size_eq.symm
    have hlen := hperm.length_eq
    rw [honly, hentries] at hlen
    exact absurd hlen (by decide)

end UfsX.Proofs
