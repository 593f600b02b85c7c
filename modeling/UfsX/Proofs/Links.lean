import UfsX.Lib.ParentTree
import UfsX.Lib.Run
import UfsX.Ufs.Links
import Mathlib.Data.List.Perm.Basic

/-!
# `UfsX.Proofs.Links`: link counts and the tree of directories

`links` is the number of live entries that name an inode, and `Consistent` the state of a
good file system: the counts are these numbers, and the entries of the live directories
are those of a `ParentTree`, whose parents are the entries `..` and whose labels are the
names. An edit of the name space (`dropFile`, `dropDir`, `moveDir` and so on) is what an
operation that succeeds comes to; each keeps a state consistent.
-/

set_option autoImplicit false

namespace UfsX.Proofs.Links

open Relation UfsX.Lib UfsX.Ufs.Links

/-! ### Live entries -/

/-- An inode that has not been removed. -/
def Live (s : State) (i : Nat) : Prop := 0 < (s.inode i).nlink

instance (s : State) (i : Nat) : Decidable (Live s i) := inferInstanceAs (Decidable (_ < _))

/-- The live entries that name an inode, `.` and `..` among them. -/
def links (s : State) (i : Nat) : Nat := s.entries.countP fun e => e.ino = i ∧ Live s e.dir

/-- A live entry. -/
def Has (s : State) (d : Nat) (name : Name) (i : Nat) : Prop := Live s d ∧ ⟨d, name, i⟩ ∈ s.entries

/-- No directory has two entries of one name. -/
def UniqueNames (es : List Ufs.Links.Entry) : Prop := es.Pairwise fun a b => ¬ (a.dir = b.dir ∧ a.name = b.name)

variable {s s' : State} {d i j x : Nat} {name : Name}

@[simp] theorem inode_setInode (ip : Inode) : (s.setInode i ip).inode j = if j = i then ip else s.inode j :=
  Function.update_apply ..

@[simp] theorem entries_setInode (ip : Inode) : (s.setInode i ip).entries = s.entries := rfl

@[simp] theorem entries_adjust (a b : Int) : (s.adjust i a b).entries = s.entries := rfl

@[simp] theorem inode_enter : (s.enter d name i).inode = s.inode := rfl

@[simp] theorem entries_enter : (s.enter d name i).entries = ⟨d, name, i⟩ :: s.entries := rfl

@[simp] theorem inode_remove : (s.remove d name).inode = s.inode := rfl

@[simp] theorem nlink_adjust (a b : Int) :
    ((s.adjust i a b).inode j).nlink = (s.inode j).nlink + if j = i then b else 0 := by
  unfold State.adjust
  rw [inode_setInode]
  split
  case isTrue h => rw [h]
  case isFalse => rw [Int.add_zero]

@[simp] theorem effnlink_adjust (a b : Int) :
    ((s.adjust i a b).inode j).effnlink = (s.inode j).effnlink + if j = i then a else 0 := by
  unfold State.adjust
  rw [inode_setInode]
  split
  case isTrue h => rw [h]
  case isFalse => rw [Int.add_zero]

@[simp] theorem isDir_adjust (a b : Int) : ((s.adjust i a b).inode j).isDir = (s.inode j).isDir := by
  unfold State.adjust
  rw [inode_setInode]
  split
  case isTrue h => rw [h]
  case isFalse => rfl

@[simp] theorem mem_remove {e : Ufs.Links.Entry} :
    e ∈ (s.remove d name).entries ↔ e ∈ s.entries ∧ ¬ (e.dir = d ∧ e.name = name) := by
  simp only [State.remove, List.mem_filter, decide_eq_true_eq]

/-- An entry and the others. -/
theorem perm_of_mem {es : List Ufs.Links.Entry} {e : Ufs.Links.Entry} (hk : UniqueNames es) (he : e ∈ es) :
    es.Perm (e :: es.filter fun a => ¬ (a.dir = e.dir ∧ a.name = e.name)) := by
  induction es with
  | nil => cases he
  | cons a es ih =>
      obtain ⟨hfirst, hrest⟩ := List.pairwise_cons.mp hk
      rcases List.mem_cons.mp he with rfl | hmem
      · have hall : es.filter (fun a => ¬ (a.dir = e.dir ∧ a.name = e.name)) = es :=
          List.filter_eq_self.mpr fun b hb => by
            have hne := hfirst b hb
            simp only [decide_eq_true_eq]
            exact fun h => hne ⟨h.1.symm, h.2.symm⟩
        rw [List.filter_cons_of_neg (by simp), hall]
      · have hne := hfirst e hmem
        rw [List.filter_cons_of_pos (by exact decide_eq_true hne)]
        exact ((ih hrest hmem).cons a).trans (.swap ..)

theorem perm_remove (hk : UniqueNames s.entries) (h : ⟨d, name, i⟩ ∈ s.entries) :
    s.entries.Perm (⟨d, name, i⟩ :: (s.remove d name).entries) :=
  perm_of_mem hk h

/-- There is one entry of a name. -/
theorem ino_unique (hk : UniqueNames s.entries) (hi : ⟨d, name, i⟩ ∈ s.entries)
    (hj : ⟨d, name, j⟩ ∈ s.entries) : i = j := by
  have hmem := (perm_remove hk hi).mem_iff.mp hj
  simp only [List.mem_cons, mem_remove, not_true_eq_false, and_self, and_false, or_false] at hmem
  cases hmem
  rfl

theorem lookup_eq_some (hk : UniqueNames s.entries) :
    s.lookup d name = some i ↔ ⟨d, name, i⟩ ∈ s.entries := by
  unfold State.lookup
  constructor
  · intro h
    obtain ⟨e, hfind, rfl⟩ := Option.map_eq_some_iff.mp h
    have hkey := List.find?_some hfind
    simp only [decide_eq_true_eq] at hkey
    obtain ⟨rfl, rfl⟩ := hkey
    exact List.mem_of_find?_eq_some hfind
  · intro h
    cases hfind : s.entries.find? fun e => e.dir = d ∧ e.name = name with
    | none =>
        have hno := List.find?_eq_none.mp hfind _ h
        simp at hno
    | some e =>
        have hkey := List.find?_some hfind
        simp only [decide_eq_true_eq] at hkey
        obtain ⟨rfl, rfl⟩ := hkey
        exact congrArg some (ino_unique hk (List.mem_of_find?_eq_some hfind) h)

theorem lookup_eq_none : s.lookup d name = none ↔ ∀ i, ⟨d, name, i⟩ ∉ s.entries := by
  unfold State.lookup
  rw [Option.map_eq_none_iff, List.find?_eq_none]
  constructor
  · intro h i hi
    simpa using h _ hi
  · rintro h ⟨d', name', i⟩ he
    simp only [decide_eq_true_eq]
    rintro ⟨rfl, rfl⟩
    exact h i he

theorem uniqueNames_remove (hk : UniqueNames s.entries) : UniqueNames (s.remove d name).entries :=
  List.Pairwise.filter _ hk

theorem uniqueNames_enter (hk : UniqueNames s.entries) (hfree : ∀ i, ⟨d, name, i⟩ ∉ s.entries) :
    UniqueNames (s.enter d name i).entries := by
  refine List.pairwise_cons.mpr ⟨?_, hk⟩
  rintro ⟨d', name', i'⟩ he ⟨hd, hname⟩
  obtain rfl : d = d' := hd
  obtain rfl : name = name' := hname
  exact hfree i' he

/-! ### Counting -/

theorem links_congr (he : s'.entries = s.entries) (hl : ∀ e ∈ s.entries, Live s' e.dir ↔ Live s e.dir) :
    links s' i = links s i := by
  unfold links
  rw [he]
  refine List.countP_congr fun e hmem => ?_
  simp only [decide_eq_true_eq, hl e hmem]

theorem links_perm (hi : s'.inode = s.inode) (he : s'.entries.Perm s.entries) : links s' i = links s i := by
  have hl : ∀ d, Live s' d ↔ Live s d := fun d => by
    unfold Live
    rw [hi]
  refine (he.countP_eq _).trans (List.countP_congr fun e _ => ?_)
  simp only [decide_eq_true_eq, hl]

theorem links_enter :
    links (s.enter d name i) j = links s j + if i = j ∧ Live s d then 1 else 0 := by
  unfold links
  rw [entries_enter, List.countP_cons]
  simp only [decide_eq_true_eq]
  rfl

theorem links_remove (hk : UniqueNames s.entries) (h : ⟨d, name, i⟩ ∈ s.entries) :
    links s j = links (s.remove d name) j + if i = j ∧ Live s d then 1 else 0 := by
  have hback : links s j = links ((s.remove d name).enter d name i) j := links_perm rfl (perm_remove hk h)
  exact hback.trans links_enter

/-- An inode without entries may live or not. -/
theorem links_setInode (ip : Inode) (h : ∀ e ∈ s.entries, e.dir ≠ i) : links (s.setInode i ip) j = links s j := by
  refine links_congr rfl fun e he => ?_
  unfold Live
  rw [inode_setInode, if_neg (h e he)]

theorem links_pos (h : Has s d name i) : 0 < links s i :=
  List.countP_pos_iff.mpr ⟨_, h.2, decide_eq_true ⟨rfl, h.1⟩⟩

/-! ### Consistent states -/

/-- A name other than `.` and `..`. -/
def Ordinary (name : Name) : Prop := name ≠ dotName ∧ name ≠ dotdotName

/-- The directories are the tree `t`. -/
structure Represents (s : State) (t : ParentTree Nat Name) : Prop where
  root : t.root = UFS_ROOTINO
  nodes : ∀ d, d ∈ t.nodes ↔ (s.inode d).isDir = true ∧ Live s d
  dot : ∀ d i, Has s d dotName i ↔ d ∈ t.nodes ∧ i = d
  dotdot : ∀ d i, Has s d dotdotName i ↔ d ∈ t.nodes ∧ i = t.up d
  names : ∀ d name i, (s.inode i).isDir = true →
    (Ordinary name ∧ Has s d name i ↔ i ∈ t.nodes ∧ i ≠ t.root ∧ d = t.up i ∧ name = t.label i)

/-- A good file system. The bound on `i_nlink` is that of its type. -/
structure Consistent (s : State) : Prop where
  unique : UniqueNames s.entries
  inDir : ∀ e ∈ s.entries, (s.inode e.dir).isDir = true
  nlink : ∀ i, (s.inode i).nlink = links s i
  effnlink : ∀ i, (s.inode i).effnlink = links s i
  linkMax : ∀ i, (s.inode i).nlink ≤ UFS_LINK_MAX
  tree : ∃ t, Represents s t

section Facts

variable (hs : Consistent s)

include hs

theorem live_of_has (h : Has s d name i) : Live s i := by
  have hpos := links_pos h
  unfold Live
  rw [hs.nlink]
  omega

theorem live_iff_effnlink : Live s i ↔ (s.inode i).effnlink ≠ 0 := by
  unfold Live
  rw [hs.nlink, hs.effnlink]
  omega

theorem has_of_lookupIno (h : s.lookupIno d name = some i) : Has s d name i := by
  unfold State.lookupIno at h
  split at h
  · cases h
  case isFalse hne => exact ⟨(live_iff_effnlink hs).mpr hne, (lookup_eq_some hs.unique).mp h⟩

theorem free_of_lookupIno (hd : Live s d) (h : s.lookupIno d name = none) : ∀ i, ⟨d, name, i⟩ ∉ s.entries := by
  unfold State.lookupIno at h
  rw [if_neg ((live_iff_effnlink hs).mp hd)] at h
  exact lookup_eq_none.mp h

/-- Nothing is in a plain file. -/
theorem no_entries (hfile : (s.inode i).isDir = false) : ∀ e ∈ s.entries, e.dir ≠ i := by
  rintro e he rfl
  rw [hs.inDir e he] at hfile
  cases hfile

variable {t : ParentTree Nat Name} (ht : Represents s t)

include ht

omit hs in
/-- A name that a live directory does not have is not `.` or `..`. -/
theorem ordinary_of_free (hd : d ∈ t.nodes) (hfree : ∀ i, ⟨d, name, i⟩ ∉ s.entries) : Ordinary name := by
  constructor
  · rintro rfl
    exact hfree d ((ht.dot d d).mpr ⟨hd, rfl⟩).2
  · rintro rfl
    exact hfree _ ((ht.dotdot d _).mpr ⟨hd, rfl⟩).2

omit hs in
/-- A name of a plain file is not `.` or `..`. -/
theorem ordinary_of_file (h : Has s d name i) (hfile : (s.inode i).isDir = false) : Ordinary name := by
  have hnot : i ∉ t.nodes := fun hi => by
    rw [((ht.nodes i).mp hi).1] at hfile
    cases hfile
  constructor
  · rintro rfl
    obtain ⟨hd, rfl⟩ := (ht.dot d i).mp h
    exact hnot hd
  · rintro rfl
    obtain ⟨hd, rfl⟩ := (ht.dotdot d i).mp h
    exact hnot (t.up_mem d hd)

/-- What happens to plain files does not change the tree. -/
theorem Represents.of_files
    (hnode : ∀ d, (s'.inode d).isDir = true ∧ Live s' d ↔ (s.inode d).isDir = true ∧ Live s d)
    (hhas : ∀ d name i, (¬ Ordinary name ∨ (s'.inode i).isDir = true) → (Has s' d name i ↔ Has s d name i))
    (hdir : ∀ i, Live s i → (s'.inode i).isDir = (s.inode i).isDir) : Represents s' t where
  root := ht.root
  nodes := fun d => (ht.nodes d).trans (hnode d).symm
  dot := fun d i => (hhas d _ i (.inl fun h => h.1 rfl)).trans (ht.dot d i)
  dotdot := fun d i => (hhas d _ i (.inl fun h => h.2 rfl)).trans (ht.dotdot d i)
  names := by
    intro d name i hi
    rw [hhas d name i (.inr hi)]
    by_cases hlive : Live s i
    · rw [hdir i hlive] at hi
      exact ht.names d name i hi
    · constructor
      · intro h
        exact absurd (live_of_has hs h.2) hlive
      · intro h
        exact absurd ((ht.nodes i).mp h.1).2 hlive

end Facts

theorem nodup_of_unique {es : List Ufs.Links.Entry} (hk : UniqueNames es) : es.Nodup :=
  hk.imp fun hne he => hne ⟨congrArg _ he, congrArg _ he⟩

/-- The links, by their list. -/
theorem links_eq_length (es : List Ufs.Links.Entry) (hk : UniqueNames s.entries) (hes : es.Nodup)
    (hmem : ∀ e, e ∈ es ↔ e ∈ s.entries ∧ e.ino = i ∧ Live s e.dir) : links s i = es.length := by
  unfold links
  rw [List.countP_eq_length_filter]
  refine List.Perm.length_eq ((List.perm_ext_iff_of_nodup ((nodup_of_unique hk).filter _) hes).mpr ?_)
  intro e
  rw [hmem, List.mem_filter, decide_eq_true_eq]

/-- What happens in directories that have been removed does not matter. -/
theorem Consistent.of_live (hs : Consistent s) (hunique : UniqueNames s'.entries)
    (hin : ∀ e ∈ s'.entries, (s'.inode e.dir).isDir = true)
    (hnlink : ∀ i, (s'.inode i).nlink = (s.inode i).nlink)
    (heff : ∀ i, (s'.inode i).effnlink = (s.inode i).effnlink)
    (hdir : ∀ i, Live s i → (s'.inode i).isDir = (s.inode i).isDir)
    (hmem : ∀ e, Live s e.dir → (e ∈ s'.entries ↔ e ∈ s.entries)) : Consistent s' := by
  have hlive : ∀ d, Live s' d ↔ Live s d := fun d => by
    unfold Live
    rw [hnlink]
  have hlinks : ∀ i, links s' i = links s i := by
    intro i
    unfold links
    rw [List.countP_eq_length_filter (l := s.entries)]
    refine links_eq_length _ hunique ((nodup_of_unique hs.unique).filter _) fun e => ?_
    rw [List.mem_filter, decide_eq_true_eq, hlive]
    exact and_congr_left fun h => (hmem e h.2).symm
  obtain ⟨t, ht⟩ := hs.tree
  refine ⟨hunique, hin, fun i => ?_, fun i => ?_, fun i => ?_, t, ?_⟩
  · rw [hnlink, hlinks]
    exact hs.nlink i
  · rw [heff, hlinks]
    exact hs.effnlink i
  · rw [hnlink]
    exact hs.linkMax i
  · refine ht.of_files hs (fun d => ?_) (fun d name i _ => ?_) hdir
    · rw [hlive]
      exact and_congr_left fun h => by rw [hdir d h]
    · unfold Has
      rw [hlive]
      exact and_congr_right fun h => hmem _ h

/-- The order of the entries does not matter, and the flags do not. -/
theorem Consistent.same (hs : Consistent s) (he : s'.entries.Perm s.entries)
    (hnlink : ∀ i, (s'.inode i).nlink = (s.inode i).nlink)
    (heff : ∀ i, (s'.inode i).effnlink = (s.inode i).effnlink)
    (hdir : ∀ i, (s'.inode i).isDir = (s.inode i).isDir) : Consistent s' :=
  hs.of_live ((he.pairwise_iff fun h h' => h ⟨h'.1.symm, h'.2.symm⟩).mpr hs.unique)
    (fun e hmem => (hdir _).trans (hs.inDir e (he.mem_iff.mp hmem))) hnlink heff (fun i _ => hdir i)
    fun _ _ => he.mem_iff

/-! ### Edits of plain files -/

/-- One more name for `i`. -/
def addLink (s : State) (d : Nat) (name : Name) (i : Nat) : State := (s.adjust i 1 1).enter d name i

/-- The name goes, and a link with it. -/
def dropFile (s : State) (d : Nat) (name : Name) (i : Nat) : State := (s.adjust i (-1) (-1)).remove d name

theorem live_adjust_of_ne {a b : Int} (h : j ≠ i) : Live (s.adjust i a b) j ↔ Live s j := by
  unfold Live
  rw [nlink_adjust, if_neg h, Int.add_zero]

theorem links_adjust_file (hs : Consistent s) (hfile : (s.inode i).isDir = false) (a b : Int) :
    links (s.adjust i a b) j = links s j :=
  links_setInode _ (no_entries hs hfile)

theorem isDir_ne {b : Bool} (hd : (s.inode d).isDir = b) (hi : (s.inode i).isDir = !b) : d ≠ i := by
  rintro rfl
  rw [hd] at hi
  cases b <;> cases hi

theorem Consistent.addLink (hs : Consistent s) (hdir : (s.inode d).isDir = true) (hd : Live s d)
    (hfile : (s.inode i).isDir = false) (hmax : (s.inode i).nlink < UFS_LINK_MAX)
    (hfree : ∀ j, ⟨d, name, j⟩ ∉ s.entries) : Consistent (addLink s d name i) := by
  have hne : d ≠ i := isDir_ne hdir hfile
  have hd' : Live (s.adjust i 1 1) d := (live_adjust_of_ne hne).mpr hd
  have hcount : ∀ j, (links (Links.addLink s d name i) j : Int) = links s j + if j = i then 1 else 0 := by
    intro j
    have henter : links (Links.addLink s d name i) j = _ := links_enter
    rw [links_adjust_file hs hfile] at henter
    grind
  obtain ⟨t, ht⟩ := hs.tree
  have hdt : d ∈ t.nodes := (ht.nodes d).mpr ⟨hdir, hd⟩
  have hord := ordinary_of_free ht hdt hfree
  refine ⟨uniqueNames_enter hs.unique hfree, fun e he => ?_, fun j => ?_, fun j => ?_, fun j => ?_, t, ?_⟩
  · show ((s.adjust i 1 1).inode e.dir).isDir = true
    rw [isDir_adjust]
    rcases List.mem_cons.mp he with rfl | he
    · exact hdir
    · exact hs.inDir e he
  · exact (nlink_adjust _ _).trans (by rw [hcount, hs.nlink])
  · exact (effnlink_adjust _ _).trans (by rw [hcount, hs.effnlink])
  · refine (nlink_adjust _ _).trans_le ?_
    have := hs.linkMax j
    split
    case isTrue h =>
        rw [h]
        omega
    case isFalse => omega
  · refine ht.of_files hs (fun c => ?_) (fun c n j hor => ?_) fun j _ => isDir_adjust _ _
    · show ((s.adjust i 1 1).inode c).isDir = true ∧ Live (s.adjust i 1 1) c ↔ _
      rw [isDir_adjust]
      refine and_congr_right fun hc => live_adjust_of_ne (isDir_ne hc hfile)
    · -- the new entry is ordinary, and of a plain file
      have hnew : (⟨c, n, j⟩ : Ufs.Links.Entry) ≠ ⟨d, name, i⟩ := by
        rintro ⟨⟩
        rcases hor with h | h
        · exact h hord
        · exact absurd ((isDir_adjust 1 1).symm.trans h) (by rw [hfile]; exact Bool.false_ne_true)
      show Live (s.adjust i 1 1) c ∧ _ ∈ ⟨d, name, i⟩ :: s.entries ↔ Live s c ∧ _
      rw [List.mem_cons, or_iff_right hnew]
      refine and_congr_left fun he => live_adjust_of_ne (isDir_ne (hs.inDir _ he) hfile)

theorem Consistent.dropFile (hs : Consistent s) (h : Has s d name i) (hfile : (s.inode i).isDir = false) :
    Consistent (dropFile s d name i) := by
  have hne : d ≠ i := isDir_ne (hs.inDir _ h.2) hfile
  have hd' : Live (s.adjust i (-1) (-1)) d := (live_adjust_of_ne hne).mpr h.1
  have hcount : ∀ j, (links (Links.dropFile s d name i) j : Int) = links s j + if j = i then -1 else 0 := by
    intro j
    have hrem : _ = links (Links.dropFile s d name i) j + _ :=
      links_remove (s := s.adjust i (-1) (-1)) hs.unique h.2
    rw [links_adjust_file hs hfile] at hrem
    grind
  obtain ⟨t, ht⟩ := hs.tree
  have hord := ordinary_of_file ht h hfile
  refine ⟨uniqueNames_remove hs.unique, fun e he => ?_, fun j => ?_, fun j => ?_, fun j => ?_, t, ?_⟩
  · show ((s.adjust i (-1) (-1)).inode e.dir).isDir = true
    rw [isDir_adjust]
    exact hs.inDir e (mem_remove.mp he).1
  · exact (nlink_adjust _ _).trans (by rw [hcount, hs.nlink])
  · exact (effnlink_adjust _ _).trans (by rw [hcount, hs.effnlink])
  · refine (nlink_adjust _ _).trans_le ?_
    have := hs.linkMax j
    split <;> omega
  · refine ht.of_files hs (fun c => ?_) (fun c n j hor => ?_) fun j _ => isDir_adjust _ _
    · show ((s.adjust i (-1) (-1)).inode c).isDir = true ∧ Live (s.adjust i (-1) (-1)) c ↔ _
      rw [isDir_adjust]
      refine and_congr_right fun hc => live_adjust_of_ne (isDir_ne hc hfile)
    · show Live (s.adjust i (-1) (-1)) c ∧ _ ∈ ((s.adjust i (-1) (-1)).remove d name).entries ↔ Live s c ∧ _
      rw [mem_remove]
      constructor
      · rintro ⟨hlive, he, _⟩
        exact ⟨(live_adjust_of_ne (isDir_ne (hs.inDir _ he) hfile)).mp hlive, he⟩
      · rintro ⟨hlive, he⟩
        refine ⟨(live_adjust_of_ne (isDir_ne (hs.inDir _ he) hfile)).mpr hlive, he, ?_⟩
        rintro ⟨rfl, rfl⟩
        -- the entry that went is ordinary, and of a plain file
        obtain rfl := ino_unique hs.unique he h.2
        rcases hor with h' | h'
        · exact h' hord
        · exact absurd ((isDir_adjust (-1) (-1)).symm.trans h') (by rw [hfile]; exact Bool.false_ne_true)

/-! ### Inodes without links -/

theorem not_live_of_free (h : s.Free i) : ¬ Live s i := by
  unfold Live
  rw [h.1]
  exact Int.lt_irrefl 0

/-- A number that is handed out, before it has a name. -/
theorem Consistent.setInode (hs : Consistent s) (h : s.Free i) (b : Bool) :
    Consistent (s.setInode i (newInode b 0)) := by
  refine hs.of_live hs.unique (fun e he => ?_) (fun j => ?_) (fun j => ?_) (fun j hj => ?_) fun _ _ => .rfl
  · rw [inode_setInode, if_neg (h.2.2 e he)]
    exact hs.inDir e he
  · rw [inode_setInode]
    split
    case isTrue hji => exact hji ▸ h.1.symm
    case isFalse => rfl
  · rw [inode_setInode]
    split
    case isTrue hji => exact hji ▸ h.2.1.symm
    case isFalse => rfl
  · rw [inode_setInode, if_neg]
    rintro rfl
    exact not_live_of_free h hj

/-- An entry of a directory that has no links. -/
theorem Consistent.enterDead (hs : Consistent s) (hdir : (s.inode d).isDir = true) (hd : ¬ Live s d)
    (hfree : ∀ j, ⟨d, name, j⟩ ∉ s.entries) : Consistent (s.enter d name i) := by
  refine hs.of_live (uniqueNames_enter hs.unique hfree) (fun e he => ?_) (fun _ => rfl) (fun _ => rfl)
    (fun _ _ => rfl) fun e he => ?_
  · rcases List.mem_cons.mp he with rfl | he
    · exact hdir
    · exact hs.inDir e he
  · rw [entries_enter, List.mem_cons, or_iff_right]
    rintro rfl
    exact hd he

theorem Consistent.reclaimInode (hs : Consistent s) (h : (s.inode i).nlink ≤ 0) : Consistent (reclaimInode s i) := by
  have hzero : (s.inode i).nlink = 0 ∧ (s.inode i).effnlink = 0 := by
    have hn := hs.nlink i
    have he := hs.effnlink i
    omega
  have hmem : ∀ e, e ∈ (UfsX.Ufs.Links.reclaimInode s i).entries ↔ e ∈ s.entries ∧ e.dir ≠ i := fun e => by
    simp only [UfsX.Ufs.Links.reclaimInode, entries_setInode, List.mem_filter, decide_eq_true_eq]
  have hinode : ∀ j, (UfsX.Ufs.Links.reclaimInode s i).inode j = if j = i then newInode false 0 else s.inode j :=
    fun j => inode_setInode _
  refine hs.of_live (hs.unique.filter _) (fun e he => ?_) (fun j => ?_) (fun j => ?_) (fun j hj => ?_) fun e he => ?_
  · obtain ⟨he, hne⟩ := (hmem e).mp he
    rw [hinode, if_neg hne]
    exact hs.inDir e he
  · rw [hinode]
    split
    case isTrue hji => exact hji ▸ hzero.1.symm
    case isFalse => rfl
  · rw [hinode]
    split
    case isTrue hji => exact hji ▸ hzero.2.symm
    case isFalse => rfl
  · rw [hinode, if_neg]
    rintro rfl
    unfold Live at hj
    omega
  · rw [hmem, and_iff_left]
    rintro rfl
    unfold Live at he
    omega

/-! ### Edits of directories -/

/-- A new directory `i` with its entries, and its name in `d`. -/
def addDir (s : State) (d : Nat) (name : Name) (i : Nat) : State :=
  ((((s.setInode i (newInode true 2)).adjust d 1 1).enter i dotName i).enter i dotdotName d).enter d name i

/-- The entry of an empty directory goes, and its links and that of its `..` with it. -/
def dropDir (s : State) (d : Nat) (name : Name) (x : Nat) : State :=
  ((s.adjust d (-1) (-1)).adjust x (-2) (-2)).remove d name

/-- A directory goes from the name `fn` in `fd` to `tn` in `td`, and its `..` with it. -/
def moveDir (s : State) (fd : Nat) (fn : Name) (td : Nat) (tn : Name) (i : Nat) : State :=
  (((((s.adjust fd (-1) (-1)).adjust td 1 1).remove i dotdotName).remove fd fn).enter i dotdotName td).enter td tn i

theorem dotName_ne_dotdotName : dotName ≠ dotdotName := by decide

section AddDir

variable {t : ParentTree Nat Name} (ht : Represents s t) (hd : d ∈ t.nodes) (hi : s.Free i)

include ht hi

theorem notMem_of_free : i ∉ t.nodes := fun h => not_live_of_free hi ((ht.nodes i).mp h).2

include hd

variable (name)

theorem live_addDir (c : Nat) : Live (addDir s d name i) c ↔ c = i ∨ Live s c := by
  have hdlive := ((ht.nodes d).mp hd).2
  have hne : d ≠ i := ne_of_mem_of_not_mem hd (notMem_of_free ht hi)
  show 0 < (((s.setInode i (newInode true 2)).adjust d 1 1).inode c).nlink ↔ _
  rw [nlink_adjust, inode_setInode]
  unfold Live at *
  by_cases hci : c = i
  · simp [hci, newInode]
    omega
  · rw [if_neg hci, or_iff_right hci]
    by_cases hcd : c = d
    · subst hcd
      rw [if_pos rfl]
      omega
    · rw [if_neg hcd, Int.add_zero]

theorem has_addDir (c : Nat) (n : Name) (j : Nat) : Has (addDir s d name i) c n j ↔
    (c = d ∧ n = name ∧ j = i) ∨ (c = i ∧ n = dotdotName ∧ j = d) ∨ (c = i ∧ n = dotName ∧ j = i)
      ∨ Has s c n j := by
  have hdlive := ((ht.nodes d).mp hd).2
  have hentries : (⟨c, n, j⟩ : Ufs.Links.Entry) ∈ (addDir s d name i).entries ↔
      (c = d ∧ n = name ∧ j = i) ∨ (c = i ∧ n = dotdotName ∧ j = d) ∨ (c = i ∧ n = dotName ∧ j = i)
        ∨ ⟨c, n, j⟩ ∈ s.entries := by
    simp only [addDir, entries_enter, entries_adjust, entries_setInode, List.mem_cons, Ufs.Links.Entry.mk.injEq]
  have hnone : (⟨c, n, j⟩ : Ufs.Links.Entry) ∈ s.entries → c ≠ i := fun h => hi.2.2 _ h
  unfold Has
  rw [live_addDir name ht hd hi, hentries]
  grind

theorem links_addDir (j : Nat) : (links (addDir s d name i) j : Int)
    = links s j + (if j = d then 1 else 0) + if j = i then 2 else 0 := by
  have hlive : ∀ c, Live ((s.setInode i (newInode true 2)).adjust d 1 1) c ↔ c = i ∨ Live s c :=
    live_addDir name ht hd hi
  have hdlive := (hlive d).mpr (.inr ((ht.nodes d).mp hd).2)
  have hilive := (hlive i).mpr (.inl rfl)
  have hold : links ((s.setInode i (newInode true 2)).adjust d 1 1) j = links s j := by
    refine links_congr rfl fun e he => ?_
    rw [hlive, or_iff_right (hi.2.2 e he)]
  unfold addDir
  rw [links_enter, links_enter, links_enter, hold]
  simp only [Live, inode_enter] at hdlive hilive ⊢
  grind

variable {name}

theorem Represents.addDir (hs : Consistent s) (hfree : ∀ j, ⟨d, name, j⟩ ∉ s.entries) :
    Represents (addDir s d name i) (t.addLeaf i name hd (notMem_of_free ht hi)) := by
  have hnot := notMem_of_free ht hi
  have hne : d ≠ i := ne_of_mem_of_not_mem hd hnot
  have hord := ordinary_of_free ht hd hfree
  have hlive := live_addDir name ht hd hi
  have hhas := has_addDir name ht hd hi
  have hdir : ∀ c, ((Links.addDir s d name i).inode c).isDir = if c = i then true else (s.inode c).isDir := by
    intro c
    show (((s.setInode i (newInode true 2)).adjust d 1 1).inode c).isDir = _
    rw [isDir_adjust, inode_setInode]
    split <;> rfl
  have hnohas : ∀ c n, ¬ Has s c n i := fun c n h => not_live_of_free hi (live_of_has hs h)
  refine ⟨ht.root, fun c => ?_, fun c j => ?_, fun c j => ?_, fun c n j hj => ?_⟩
  · show c = i ∨ c ∈ t.nodes ↔ _
    rw [hdir, hlive, ht.nodes]
    grind
  · show _ ↔ (c = i ∨ c ∈ t.nodes) ∧ _
    have hdots := dotName_ne_dotdotName
    rw [hhas, ht.dot]
    grind [Ordinary]
  · show _ ↔ (c = i ∨ c ∈ t.nodes) ∧ j = Function.update t.up i d c
    have hdots := dotName_ne_dotdotName
    rw [hhas, ht.dotdot, Function.update_apply]
    grind [Ordinary]
  · show _ ↔ (j = i ∨ j ∈ t.nodes) ∧ j ≠ t.root ∧ c = Function.update t.up i d j ∧ n = Function.update t.label i name j
    have hroot : i ≠ t.root := (ne_of_mem_of_not_mem t.root_mem hnot).symm
    rw [hhas, Function.update_apply, Function.update_apply]
    by_cases hji : j = i
    · subst hji
      have hno := hnohas c n
      grind [Ordinary]
    · rw [hdir, if_neg hji] at hj
      have hold := ht.names c n j hj
      grind [Ordinary]

end AddDir

theorem Consistent.addDir (hs : Consistent s) (hdir : (s.inode d).isDir = true) (hd : Live s d)
    (hmax : (s.inode d).nlink < UFS_LINK_MAX) (hfree : ∀ j, ⟨d, name, j⟩ ∉ s.entries) (hi : s.Free i) :
    Consistent (addDir s d name i) := by
  obtain ⟨t, ht⟩ := hs.tree
  have hdt : d ∈ t.nodes := (ht.nodes d).mpr ⟨hdir, hd⟩
  have hne : d ≠ i := ne_of_mem_of_not_mem hdt (notMem_of_free ht hi)
  have hcount := links_addDir name ht hdt hi
  have hinode : ∀ j, (Links.addDir s d name i).inode j = ((s.setInode i (newInode true 2)).adjust d 1 1).inode j :=
    fun _ => rfl
  have hzero : (links s i : Int) = 0 := (hs.nlink i).symm.trans hi.1
  refine ⟨?_, fun e he => ?_, fun j => ?_, fun j => ?_, fun j => ?_, _, ht.addDir hdt hi hs hfree⟩
  · -- the entries of `i` are new, and the name is new in `d`
    have hnone : ∀ n j, (⟨i, n, j⟩ : Ufs.Links.Entry) ∉ s.entries := fun n j h => hi.2.2 _ h rfl
    refine uniqueNames_enter (uniqueNames_enter (uniqueNames_enter hs.unique (hnone dotName)) ?_) ?_
    · intro j hj
      rcases List.mem_cons.mp hj with h | h
      · cases h
      · exact hnone _ _ h
    · intro j hj
      simp only [entries_enter, entries_adjust, entries_setInode, List.mem_cons, Ufs.Links.Entry.mk.injEq, hne, false_and,
        false_or] at hj
      exact hfree j hj
  · rw [hinode, isDir_adjust, inode_setInode]
    split
    case isTrue => rfl
    case isFalse hei =>
        simp only [Links.addDir, entries_enter, entries_adjust, entries_setInode, List.mem_cons] at he
        rcases he with rfl | rfl | rfl | he
        · exact hdir
        · exact absurd rfl hei
        · exact absurd rfl hei
        · exact hs.inDir e he
  · rw [hinode, nlink_adjust, inode_setInode, hcount]
    have hj := hs.nlink j
    grind [newInode]
  · rw [hinode, effnlink_adjust, inode_setInode, hcount]
    have hj := hs.effnlink j
    grind [newInode]
  · rw [hinode, nlink_adjust, inode_setInode]
    have hj := hs.linkMax j
    have hm : (2 : Int) ≤ UFS_LINK_MAX := by decide
    grind [newInode]

/-- Two entries of different names are two links. -/
theorem two_le_links {c : Nat} {n : Name} (hs : Consistent s) (h : Has s d name i) (h' : Has s c n i)
    (hne : ¬ (c = d ∧ n = name)) : 2 ≤ links s i := by
  have hrem := links_remove (j := i) hs.unique h.2
  have hpos : 0 < links (s.remove d name) i := links_pos (d := c) ⟨h'.1, mem_remove.mpr ⟨h'.2, hne⟩⟩
  rw [if_pos ⟨rfl, h.1⟩] at hrem
  omega

/-- A directory with a directory in it has two links at least. -/
theorem two_le_links_up {t : ParentTree Nat Name} (hs : Consistent s) (ht : Represents s t) (hx : x ∈ t.nodes)
    (hroot : x ≠ t.root) : 2 ≤ links s (t.up x) :=
  two_le_links hs ((ht.dot _ _).mpr ⟨t.up_mem x hx, rfl⟩) ((ht.dotdot x _).mpr ⟨hx, rfl⟩)
    fun h => t.up_ne hx hroot h.1.symm

section DropDir

/-- Only `.` and `..` are left in the directory. -/
def Empty (s : State) (x d : Nat) : Prop := ∀ n j, ⟨x, n, j⟩ ∈ s.entries →
  (n = dotName ∧ j = x) ∨ (n = dotdotName ∧ j = d)

variable {t : ParentTree Nat Name} (hs : Consistent s) (ht : Represents s t) (hx : x ∈ t.nodes) (hroot : x ≠ t.root)
  (hempty : Empty s x (t.up x))

include ht hroot hempty

theorem up_ne_of_empty {c : Nat} (hc : c ∈ t.nodes) : t.up c ≠ x := by
  intro hup
  have hcroot : c ≠ t.root := by
    rintro rfl
    exact hroot (hup.symm.trans t.up_root)
  obtain ⟨hord, hhas⟩ := (ht.names (t.up c) (t.label c) c ((ht.nodes c).mp hc).1).mpr ⟨hc, hcroot, rfl, rfl⟩
  rw [hup] at hhas
  rcases hempty _ _ hhas.2 with h | h
  · exact hord.1 h.1
  · exact hord.2 h.1

include hs hx

/-- An empty directory has the link of its `.` and that of its name. -/
theorem links_of_empty : links s x = 2 := by
  have hdir := ((ht.nodes x).mp hx).1
  obtain ⟨hord, hname⟩ := (ht.names (t.up x) (t.label x) x hdir).mpr ⟨hx, hroot, rfl, rfl⟩
  have hdot := (ht.dot x x).mpr ⟨hx, rfl⟩
  refine links_eq_length [⟨x, dotName, x⟩, ⟨t.up x, t.label x, x⟩] hs.unique ?_ ?_
  · simp only [List.nodup_cons, List.mem_singleton, Ufs.Links.Entry.mk.injEq, List.not_mem_nil, not_false_eq_true,
      List.nodup_nil, and_true]
    exact fun h => hord.1 h.2.symm
  · rintro ⟨c, n, j⟩
    constructor
    · intro he
      rcases List.mem_cons.mp he with h | h
      · cases h
        exact ⟨hdot.2, rfl, hdot.1⟩
      · cases List.mem_singleton.mp h
        exact ⟨hname.2, rfl, hname.1⟩
    · rintro ⟨he, rfl, hlive⟩
      have hhas : Has s c n j := ⟨hlive, he⟩
      by_cases hndot : n = dotName
      · subst hndot
        obtain ⟨-, rfl⟩ := (ht.dot _ _).mp hhas
        exact List.mem_cons_self
      · by_cases hndotdot : n = dotdotName
        · subst hndotdot
          obtain ⟨hc, hup⟩ := (ht.dotdot _ _).mp hhas
          exact absurd hup.symm (up_ne_of_empty ht hroot hempty hc)
        · obtain ⟨-, -, rfl, rfl⟩ := (ht.names c n j hdir).mp ⟨⟨hndot, hndotdot⟩, hhas⟩
          exact List.mem_cons_of_mem _ (List.mem_singleton_self _)

variable (name) in
theorem live_dropDir (c : Nat) : Live (dropDir s (t.up x) name x) c ↔ Live s c ∧ c ≠ x := by
  have hxlinks := links_of_empty hs ht hx hroot hempty
  have huplinks := two_le_links_up hs ht hx hroot
  have hne := t.up_ne hx hroot
  show 0 < (((s.adjust (t.up x) (-1) (-1)).adjust x (-2) (-2)).inode c).nlink ↔ 0 < (s.inode c).nlink ∧ _
  rw [nlink_adjust, nlink_adjust]
  have hc := hs.nlink c
  grind

variable (name) in
theorem has_dropDir (c : Nat) (n : Name) (j : Nat) : Has (dropDir s (t.up x) name x) c n j ↔
    Has s c n j ∧ c ≠ x ∧ ¬ (c = t.up x ∧ n = name) := by
  have hmem : (⟨c, n, j⟩ : Ufs.Links.Entry) ∈ (dropDir s (t.up x) name x).entries ↔
      ⟨c, n, j⟩ ∈ s.entries ∧ ¬ (c = t.up x ∧ n = name) := mem_remove
  unfold Has
  rw [live_dropDir name hs ht hx hroot hempty, hmem]
  constructor
  · rintro ⟨⟨hlive, hne⟩, he, hname⟩
    exact ⟨⟨hlive, he⟩, hne, hname⟩
  · rintro ⟨⟨hlive, he⟩, hne, hname⟩
    exact ⟨⟨hlive, hne⟩, he, hname⟩

/-- The entries of the directory and its name are all the links that go. -/
theorem links_dropDir (hname : Has s (t.up x) name x) (j : Nat) :
    (links (dropDir s (t.up x) name x) j : Int)
      = links s j + (if j = t.up x then -1 else 0) + if j = x then -2 else 0 := by
  have hne := t.up_ne hx hroot
  have hdot := (ht.dot x x).mpr ⟨hx, rfl⟩
  have hdotdot := (ht.dotdot x _).mpr ⟨hx, rfl⟩
  have hlive := live_dropDir name hs ht hx hroot hempty
  have hxlive := (hlive x).not.mpr fun h => h.2 rfl
  -- take the three entries out, of the state before and of the state after
  let s₁ := s.remove (t.up x) name
  let s₂ := s₁.remove x dotName
  have hmem₁ : (⟨x, dotName, x⟩ : Ufs.Links.Entry) ∈ s₁.entries := mem_remove.mpr ⟨hdot.2, fun h => hne h.1.symm⟩
  have hmem₂ : (⟨x, dotdotName, t.up x⟩ : Ufs.Links.Entry) ∈ s₂.entries :=
    mem_remove.mpr ⟨mem_remove.mpr ⟨hdotdot.2, fun h => hne h.1.symm⟩, fun h => dotName_ne_dotdotName h.2.symm⟩
  have hk₁ : UniqueNames s₁.entries := uniqueNames_remove hs.unique
  have hk₂ : UniqueNames s₂.entries := uniqueNames_remove hk₁
  have hb₀ := links_remove (j := j) hs.unique hname.2
  have hb₁ : links s₁ j = links s₂ j + _ := links_remove hk₁ hmem₁
  have hb₂ : links s₂ j = links (s₂.remove x dotdotName) j + _ := links_remove hk₂ hmem₂
  let s' := dropDir s (t.up x) name x
  have ha₁ : links s' j = links (s'.remove x dotName) j + _ := links_remove hk₁ hmem₁
  have ha₂ : links (s'.remove x dotName) j = links ((s'.remove x dotName).remove x dotdotName) j + _ :=
    links_remove hk₂ hmem₂
  have hrest : links ((s'.remove x dotName).remove x dotdotName) j = links (s₂.remove x dotdotName) j := by
    refine links_congr rfl fun e he => ?_
    refine (hlive e.dir).trans (and_iff_left ?_)
    -- nothing else is in the directory
    rintro rfl
    obtain ⟨he, hno⟩ := mem_remove.mp he
    obtain ⟨he, hno'⟩ := mem_remove.mp he
    obtain ⟨he, -⟩ := mem_remove.mp he
    rcases hempty _ _ he with h | h
    · exact hno' ⟨rfl, h.1⟩
    · exact hno ⟨rfl, h.1⟩
  rw [if_neg (show ¬ (_ ∧ Live s' x) from fun h => hxlive h.2)] at ha₁
  rw [if_neg (show ¬ (_ ∧ Live (s'.remove x dotName) x) from fun h => hxlive h.2)] at ha₂
  have hup : Live s (t.up x) := hname.1
  have hxs : Live s x := hdot.1
  have hxs₁ : Live s₁ x := hxs
  have hxs₂ : Live s₂ x := hxs
  show (links s' j : Int) = _
  grind

theorem Represents.dropDir (hname : Has s (t.up x) name x) (hord : Ordinary name) :
    Represents (dropDir s (t.up x) name x)
      (t.removeLeaf hroot fun _ hc => up_ne_of_empty ht hroot hempty hc) := by
  have hlive := live_dropDir name hs ht hx hroot hempty
  have hhas := has_dropDir name hs ht hx hroot hempty
  have hdir : ∀ c, ((Links.dropDir s (t.up x) name x).inode c).isDir = (s.inode c).isDir := fun c =>
    (isDir_adjust _ _).trans (isDir_adjust _ _)
  refine ⟨ht.root, fun c => ?_, fun c j => ?_, fun c j => ?_, fun c n j hj => ?_⟩
  · show c ∈ t.nodes ∧ c ≠ x ↔ _
    rw [hdir, hlive, ht.nodes, and_assoc]
  · show _ ↔ (c ∈ t.nodes ∧ c ≠ x) ∧ _
    rw [hhas, ht.dot]
    grind [Ordinary]
  · show _ ↔ (c ∈ t.nodes ∧ c ≠ x) ∧ j = t.up c
    rw [hhas, ht.dotdot]
    grind [Ordinary]
  · show _ ↔ (j ∈ t.nodes ∧ j ≠ x) ∧ j ≠ t.root ∧ c = t.up j ∧ n = t.label j
    rw [hdir] at hj
    rw [hhas]
    constructor
    · rintro ⟨hn, h, -, hkey⟩
      obtain ⟨hjt, hjroot, rfl, rfl⟩ := (ht.names c n j hj).mp ⟨hn, h⟩
      refine ⟨⟨hjt, ?_⟩, hjroot, rfl, rfl⟩
      rintro rfl
      exact hkey ⟨rfl, ((ht.names _ _ j hj).mp ⟨hord, hname⟩).2.2.2.symm⟩
    · rintro ⟨⟨hjt, hjx⟩, hjroot, hc, hn⟩
      obtain ⟨hn', h⟩ := (ht.names c n j hj).mpr ⟨hjt, hjroot, hc, hn⟩
      refine ⟨hn', h, hc ▸ up_ne_of_empty ht hroot hempty hjt, ?_⟩
      rintro ⟨rfl, rfl⟩
      exact hjx (ino_unique hs.unique h.2 hname.2)

end DropDir

theorem Consistent.dropDir {t : ParentTree Nat Name} (hs : Consistent s) (ht : Represents s t) (hx : x ∈ t.nodes)
    (hroot : x ≠ t.root) (hempty : Empty s x (t.up x)) (hname : Has s (t.up x) name x) (hord : Ordinary name) :
    Consistent (dropDir s (t.up x) name x) := by
  have hcount := links_dropDir hs ht hx hroot hempty hname
  have hinode : ∀ j, (Links.dropDir s (t.up x) name x).inode j
      = ((s.adjust (t.up x) (-1) (-1)).adjust x (-2) (-2)).inode j := fun _ => rfl
  refine ⟨uniqueNames_remove hs.unique, fun e he => ?_, fun j => ?_, fun j => ?_, fun j => ?_, _,
    ht.dropDir hs hx hroot hempty hname hord⟩
  · rw [hinode, isDir_adjust, isDir_adjust]
    exact hs.inDir e (mem_remove.mp he).1
  · rw [hinode, nlink_adjust, nlink_adjust, hcount, hs.nlink]
  · rw [hinode, effnlink_adjust, effnlink_adjust, hcount, hs.effnlink]
  · rw [hinode, nlink_adjust, nlink_adjust]
    have hj := hs.linkMax j
    grind

section MoveDir

variable {t : ParentTree Nat Name} {td : Nat} {fn tn : Name} (hs : Consistent s) (ht : Represents s t)
  (hi : i ∈ t.nodes) (hroot : i ≠ t.root) (htd : td ∈ t.nodes)

include hs ht hi hroot htd

variable (fn tn) in
theorem live_moveDir (c : Nat) : Live (moveDir s (t.up i) fn td tn i) c ↔ Live s c := by
  have huplinks := two_le_links_up hs ht hi hroot
  have htdlive : 0 < (s.inode td).nlink := ((ht.nodes td).mp htd).2
  show 0 < (((s.adjust (t.up i) (-1) (-1)).adjust td 1 1).inode c).nlink ↔ 0 < (s.inode c).nlink
  rw [nlink_adjust, nlink_adjust]
  have hc := hs.nlink c
  grind

variable (fn tn) in
theorem has_moveDir (c : Nat) (n : Name) (j : Nat) : Has (moveDir s (t.up i) fn td tn i) c n j ↔
    (c = td ∧ n = tn ∧ j = i) ∨ (c = i ∧ n = dotdotName ∧ j = td)
      ∨ Has s c n j ∧ ¬ (c = i ∧ n = dotdotName) ∧ ¬ (c = t.up i ∧ n = fn) := by
  have hmem : (⟨c, n, j⟩ : Ufs.Links.Entry) ∈ (moveDir s (t.up i) fn td tn i).entries ↔
      (c = td ∧ n = tn ∧ j = i) ∨ (c = i ∧ n = dotdotName ∧ j = td)
        ∨ (⟨c, n, j⟩ ∈ s.entries ∧ ¬ (c = i ∧ n = dotdotName)) ∧ ¬ (c = t.up i ∧ n = fn) := by
    unfold moveDir
    simp only [entries_enter, mem_remove, entries_adjust, List.mem_cons, Ufs.Links.Entry.mk.injEq]
  have htdlive := ((ht.nodes td).mp htd).2
  have hilive := ((ht.nodes i).mp hi).2
  unfold Has
  rw [live_moveDir fn tn hs ht hi hroot htd, hmem]
  grind

variable (tn) in
theorem links_moveDir (hname : Has s (t.up i) fn i) (hord : Ordinary fn) (j : Nat) :
    (links (moveDir s (t.up i) fn td tn i) j : Int)
      = links s j + (if j = t.up i then -1 else 0) + if j = td then 1 else 0 := by
  have hdotdot := (ht.dotdot i _).mpr ⟨hi, rfl⟩
  have hlive := live_moveDir fn tn hs ht hi hroot htd
  -- the state without the two entries, before and after
  let s₁ := s.remove i dotdotName
  have hmem₁ : (⟨t.up i, fn, i⟩ : Ufs.Links.Entry) ∈ s₁.entries := mem_remove.mpr ⟨hname.2, fun h => hord.2 h.2⟩
  have hk₁ : UniqueNames s₁.entries := uniqueNames_remove hs.unique
  have hb₀ : links s j = links s₁ j + _ := links_remove hs.unique hdotdot.2
  have hb₁ : links s₁ j = links (s₁.remove (t.up i) fn) j + _ := links_remove hk₁ hmem₁
  let s₂ := (((s.adjust (t.up i) (-1) (-1)).adjust td 1 1).remove i dotdotName).remove (t.up i) fn
  have hrest : links s₂ j = links (s₁.remove (t.up i) fn) j := links_congr rfl fun e _ => hlive e.dir
  have ha₁ : links (s₂.enter i dotdotName td) j = links s₂ j + _ := links_enter
  have ha₂ : links (moveDir s (t.up i) fn td tn i) j = links (s₂.enter i dotdotName td) j + _ := links_enter
  have hup : Live s₁ (t.up i) := hname.1
  have hi₀ : Live s i := hdotdot.1
  have hi₂ : Live s₂ i := (hlive i).mpr hi₀
  have htd₂ : Live (s₂.enter i dotdotName td) td := (hlive td).mpr ((ht.nodes td).mp htd).2
  rw [if_congr (and_iff_left hi₀) rfl rfl] at hb₀
  rw [if_congr (and_iff_left hup) rfl rfl] at hb₁
  rw [if_congr (and_iff_left hi₂) rfl rfl] at ha₁
  rw [if_congr (and_iff_left htd₂) rfl rfl] at ha₂
  grind

theorem Represents.moveDir (hname : Has s (t.up i) fn i) (hord : Ordinary fn)
    (hfree : ∀ j, ⟨td, tn, j⟩ ∉ s.entries) (havoid : Avoids t.up i td t.root) :
    Represents (moveDir s (t.up i) fn td tn i) (t.move tn hroot htd havoid) := by
  have hlive := live_moveDir fn tn hs ht hi hroot htd
  have hhas := has_moveDir fn tn hs ht hi hroot htd
  have hdir : ∀ c, ((Links.moveDir s (t.up i) fn td tn i).inode c).isDir = (s.inode c).isDir := fun c =>
    (isDir_adjust _ _).trans (isDir_adjust _ _)
  have htn := ordinary_of_free ht htd hfree
  have hdots := dotName_ne_dotdotName
  refine ⟨ht.root, fun c => ?_, fun c j => ?_, fun c j => ?_, fun c n j hj => ?_⟩
  · rw [hdir, hlive]
    exact ht.nodes c
  · show _ ↔ c ∈ t.nodes ∧ j = c
    rw [hhas, ht.dot]
    grind [Ordinary]
  · show _ ↔ c ∈ t.nodes ∧ j = Function.update t.up i td c
    rw [hhas, ht.dotdot, Function.update_apply]
    grind [Ordinary]
  · show _ ↔ j ∈ t.nodes ∧ j ≠ t.root ∧ c = Function.update t.up i td j ∧ n = Function.update t.label i tn j
    rw [hdir] at hj
    rw [hhas, Function.update_apply, Function.update_apply]
    have hold := ht.names c n j hj
    by_cases hji : j = i
    · subst hji
      have hlabel := ((ht.names _ _ j hj).mp ⟨hord, hname⟩).2.2.2
      grind [Ordinary]
    · -- another directory of the old name would be the one that moves
      have hother : Has s c n j → ¬ (c = t.up i ∧ n = fn) := by
        rintro h ⟨rfl, rfl⟩
        exact hji (ino_unique hs.unique h.2 hname.2)
      grind [Ordinary]

theorem Consistent.moveDir (hname : Has s (t.up i) fn i) (hord : Ordinary fn)
    (hfree : ∀ j, ⟨td, tn, j⟩ ∉ s.entries) (havoid : Avoids t.up i td t.root)
    (hmax : (s.inode td).nlink < UFS_LINK_MAX ∨ td = t.up i) : Consistent (moveDir s (t.up i) fn td tn i) := by
  have hcount := links_moveDir tn hs ht hi hroot htd hname hord
  have hinode : ∀ j, (Links.moveDir s (t.up i) fn td tn i).inode j
      = ((s.adjust (t.up i) (-1) (-1)).adjust td 1 1).inode j := fun _ => rfl
  have htn := ordinary_of_free ht htd hfree
  refine ⟨?_, fun e he => ?_, fun j => ?_, fun j => ?_, fun j => ?_, _,
    ht.moveDir hs hi hroot htd hname hord hfree havoid⟩
  · refine uniqueNames_enter (uniqueNames_enter (uniqueNames_remove (uniqueNames_remove hs.unique)) ?_) ?_
    · intro j hj
      exact (mem_remove.mp (mem_remove.mp hj).1).2 ⟨rfl, rfl⟩
    · intro j hj
      rcases List.mem_cons.mp hj with h | h
      · cases h
        exact htn.2 rfl
      · exact hfree j (mem_remove.mp (mem_remove.mp h).1).1
  · rw [hinode, isDir_adjust, isDir_adjust]
    rcases List.mem_cons.mp he with rfl | he
    · exact ((ht.nodes td).mp htd).1
    · rcases List.mem_cons.mp he with rfl | he
      · exact ((ht.nodes i).mp hi).1
      · exact hs.inDir e (mem_remove.mp (mem_remove.mp he).1).1
  · rw [hinode, nlink_adjust, nlink_adjust, hcount, hs.nlink]
  · rw [hinode, effnlink_adjust, effnlink_adjust, hcount, hs.effnlink]
  · rw [hinode, nlink_adjust, nlink_adjust]
    have hj := hs.linkMax j
    grind

end MoveDir

end UfsX.Proofs.Links
