import UfsX.Proofs.Links
import UfsX.Proofs.RenameLocks

/-!
# `UfsX.Proofs.LinksRun`: the operations keep the name space consistent

Each operation either leaves the state as it was, or comes to one of the edits of
`UfsX.Proofs.Links`; a refusal half way takes back what was counted. `ufs_rename` is a
drop of the target, if there is one, and a move of the source. Its loop check gives the
way up that the move needs, and ends because a way up in a tree is not longer than the
list of entries.
-/

set_option autoImplicit false

namespace UfsX.Proofs.Links

open Relation UfsX.Lib UfsX.Ufs.Links
open UfsX.Ufs (nameSaved SAVENAME)

variable {savename : UInt32} {s s' : State} {d i j x : Nat} {name : Name}

/-! ### Where an operation does not return -/

/-- The operation neither panics nor waits for ever. -/
def Returns (r : Ending × State) : Prop := ∃ e, r.1 = .returned e

/-- The request is refused before the locks, or by a look-up, and no lock is asked for
twice. -/
def EndsEarly (s : State) (a : RenameArgs) : Prop :=
  a.exdev = true ∨ a.fdvp ≠ a.tdvp ∧ ∀ fip, s.lookupIno a.fdvp a.fname = some fip →
    fip ≠ a.fdvp ∧ fip ≠ a.tdvp ∧ ∃ e, lookupTarget s a = .error e

/-- The operation is not refused before it calls `ufs_makedirentry`, where the flag is
missing. Of a rename: it gets past its look-ups. -/
def NameMissing (savename : UInt32) (s : State) : Ufs.Links.Op → Prop
  | .makeinode dvp _ cnFlags _ valloc _ => nameSaved savename cnFlags = false
      ∧ ¬ (s.inode dvp).effnlink < 2 ∧ ∃ i, valloc = .ok i
  | .link vp tdvp _ cnFlags _ => nameSaved savename cnFlags = false ∧ ¬ (s.inode tdvp).effnlink < 2
      ∧ (s.inode vp).nlink < UFS_LINK_MAX ∧ (s.inode vp).effnlink ≠ 0
      ∧ (s.inode vp).immutable = false ∧ (s.inode vp).append = false
  | .mkdir dvp _ cnFlags valloc balloc _ => nameSaved savename cnFlags = false
      ∧ (s.inode dvp).nlink < UFS_LINK_MAX ∧ ¬ (s.inode dvp).effnlink < 2 ∧ (∃ i, valloc = .ok i) ∧ balloc = 0
  | .rename a => nameSaved savename (a.cnFlags ||| savename) = false ∧ ¬ EndsEarly s a
  | _ => False

/-! ### Counting up and down -/

theorem adjust_adjust (a b a' b' : Int) : (s.adjust i a b).adjust i a' b' = s.adjust i (a + a') (b + b') := by
  unfold State.adjust State.setInode
  simp only [Function.update_self, Function.update_idem, Int.add_assoc]

@[simp] theorem adjust_zero : s.adjust i 0 0 = s := by
  unfold State.adjust State.setInode
  simp only [Int.add_zero, Function.update_eq_self]

/-- What a refusal takes back. -/
@[simp] theorem adjust_undo : (s.adjust i 1 1).adjust i (-1) (-1) = s := by
  rw [adjust_adjust]
  exact adjust_zero

theorem setInode_setInode (a b : Inode) : (s.setInode i a).setInode i b = s.setInode i b := by
  unfold State.setInode
  simp only [Function.update_idem]

theorem adjust_newInode (b : Bool) : (s.setInode i (newInode b 0)).adjust i 1 1 = s.setInode i (newInode b 1) := by
  unfold State.adjust
  rw [setInode_setInode, inode_setInode, if_pos rfl]
  rfl

/-! ### Making names -/

/-- A parent that `i_effnlink` says is there. -/
theorem live_of_effnlink (hs : Consistent s) (h : ¬ (s.inode d).effnlink < 2) : Live s d :=
  (live_iff_effnlink hs).mpr (by omega)

/-- A test that refuses the request. -/
theorem consistent_ite {p : Prop} [Decidable p] {e : Int} {r : Ending × State} (hs : Consistent s)
    (h : ¬ p → Consistent r.2) : Consistent (if p then (.returned e, s) else r).2 := by
  split
  case isTrue => exact hs
  case isFalse hp => exact h hp

theorem ufsMakeinode_consistent (hs : Consistent s) {cnFlags : UInt32} {valloc : Except Int Nat} {direnter : Int}
    (hdir : (s.inode d).isDir = true) (hnone : s.lookupIno d name = none) (hfree : ∀ i, valloc = .ok i → s.Free i)
    (hname : ¬ NameMissing savename s (.makeinode d name cnFlags false valloc direnter)) :
    Consistent (ufsMakeinode savename s d name cnFlags false valloc direnter).2 := by
  refine consistent_ite hs fun heff => ?_
  have hd := live_of_effnlink hs heff
  cases valloc with
  | error e => exact hs
  | ok i =>
      have hi := hfree i rfl
      have hbase := hs.setInode hi false
      have hnew := free_of_lookupIno hs hd hnone
      have hne : d ≠ i := by
        rintro rfl
        exact not_live_of_free hi hd
      dsimp only
      rw [if_neg fun h => hname ⟨h, heff, i, rfl⟩]
      split
      · rw [setInode_setInode]
        exact hbase
      · rw [← adjust_newInode]
        refine hbase.addLink ?_ ?_ ?_ ?_ hnew
        · rw [inode_setInode, if_neg hne]
          exact hdir
        · unfold Live
          rw [inode_setInode, if_neg hne]
          exact hd
        · rw [inode_setInode, if_pos rfl]
          rfl
        · rw [inode_setInode, if_pos rfl]
          decide

theorem ufsLink_consistent (hs : Consistent s) {cnFlags : UInt32} {direnter : Int} (hfile : (s.inode i).isDir = false)
    (hdir : (s.inode d).isDir = true) (hnone : s.lookupIno d name = none)
    (hname : ¬ NameMissing savename s (.link i d name cnFlags direnter)) :
    Consistent (ufsLink savename s i d name cnFlags direnter).2 := by
  refine consistent_ite hs fun heff => consistent_ite hs fun hmax => ?_
  refine consistent_ite hs fun hlinks => consistent_ite hs fun hflags => ?_
  have hd := live_of_effnlink hs heff
  dsimp only
  rw [if_neg fun h => hname ⟨h, heff, Int.not_le.mp hmax, hlinks, by simpa using hflags⟩]
  split
  · rw [adjust_undo]
    exact hs
  · exact hs.addLink hdir hd hfile (Int.not_le.mp hmax) (free_of_lookupIno hs hd hnone)

/-- `bad` takes back what `ufs_mkdir` has counted. -/
theorem mkdirBad_eq (s : State) (d i : Nat) (error : Int) :
    mkdirBad ((s.setInode i (newInode true 2)).adjust d 1 1) d i error
      = (.returned error, s.setInode i (newInode true 0)) := by
  unfold mkdirBad
  rw [adjust_undo, setInode_setInode]

theorem ufsMkdir_consistent (hs : Consistent s) {cnFlags : UInt32} {valloc : Except Int Nat} {balloc direnter : Int}
    (hdir : (s.inode d).isDir = true) (hnone : s.lookupIno d name = none) (hfree : ∀ i, valloc = .ok i → s.Free i)
    (hname : ¬ NameMissing savename s (.mkdir d name cnFlags valloc balloc direnter)) :
    Consistent (ufsMkdir savename s d name cnFlags valloc balloc direnter).2 := by
  refine consistent_ite hs fun hmax => consistent_ite hs fun heff => ?_
  have hd := live_of_effnlink hs heff
  cases valloc with
  | error e => exact hs
  | ok i =>
      have hi := hfree i rfl
      have hbase := hs.setInode hi true
      dsimp only
      split
      · rw [mkdirBad_eq]
        exact hbase
      case isFalse hballoc =>
        rw [if_neg fun h => hname ⟨h, Int.not_le.mp hmax, heff, ⟨i, rfl⟩, not_not.mp hballoc⟩]
        split
        · -- the block of the new directory has been written
          show Consistent (((mkdirBad ((s.setInode i (newInode true 2)).adjust d 1 1) d i direnter).2.enter
            i dotName i).enter i dotdotName d)
          rw [mkdirBad_eq]
          have hdead : ¬ Live (s.setInode i (newInode true 0)) i := by
            unfold Live
            rw [inode_setInode, if_pos rfl]
            exact Int.lt_irrefl 0
          have hisDir : ((s.setInode i (newInode true 0)).inode i).isDir = true := by
            rw [inode_setInode, if_pos rfl]
            rfl
          refine (hbase.enterDead hisDir hdead ?_).enterDead hisDir hdead ?_
          · exact fun j hj => hi.2.2 _ hj rfl
          · intro j hj
            rcases List.mem_cons.mp hj with h | h
            · cases h
            · exact hi.2.2 _ h rfl
        · exact hs.addDir hdir hd (Int.not_le.mp hmax) (free_of_lookupIno hs hd hnone) hi

/-! ### Removing names -/

/-- The entry that the look-up found is the one to remove. -/
theorem ufsDirremove_eq (hk : UniqueNames s.entries) (h : ⟨d, name, i⟩ ∈ s.entries) :
    ufsDirremove s d name i = some ((s.adjust i (-1) (-1)).remove d name) := by
  unfold ufsDirremove
  refine if_neg (not_not.mpr ?_)
  exact (lookup_eq_some (s := s.adjust i (-1) (-1)) hk).mpr h

theorem ufsRemove_spec (hs : Consistent s) (h : s.lookupIno d name = some i) (hfile : (s.inode i).isDir = false) :
    Consistent (ufsRemove s d i name).2 ∧ ∃ e, (ufsRemove s d i name).1 = .returned e := by
  have hhas := has_of_lookupIno hs h
  unfold ufsRemove
  split
  · exact ⟨hs, _, rfl⟩
  · rw [ufsDirremove_eq hs.unique hhas.2]
    exact ⟨hs.dropFile hhas hfile, _, rfl⟩

theorem diremptyAccepts_eq_true {e : Ufs.Links.Entry} {ip parent : Nat} (h : diremptyAccepts ip parent e = true) :
    (e.name = dotName ∧ e.ino = ip) ∨ (e.name = dotdotName ∧ e.ino = parent) := by
  obtain ⟨d, name, i⟩ := e
  unfold diremptyAccepts at h
  rcases name with _ | ⟨a, _ | ⟨b, _ | ⟨c, rest⟩⟩⟩
  · simp at h
  · left
    simp only [List.length_singleton, List.getD_cons_zero, List.getD_cons_succ, List.getD_nil] at h
    grind [dotName]
  · right
    simp only [List.length_cons, List.length_nil, List.getD_cons_zero, List.getD_cons_succ] at h
    grind [dotdotName]
  · simp at h

theorem empty_of_ufsDirempty (h : ufsDirempty s x d = true) : Empty s x d := by
  intro n j hmem
  refine diremptyAccepts_eq_true (e := ⟨x, n, j⟩) (List.all_eq_true.mp h _ ?_)
  exact List.mem_filter.mpr ⟨hmem, decide_eq_true rfl⟩

/-- A directory is above its own entries, so that `..` is not empty. -/
theorem ordinary_of_empty {t : ParentTree Nat Name} (ht : Represents s t) (h : Has s d name x) (hne : x ≠ d)
    (hempty : Empty s x d) : Ordinary name := by
  constructor
  · rintro rfl
    exact hne ((ht.dot d x).mp h).2
  · rintro rfl
    obtain ⟨hd, rfl⟩ := (ht.dotdot d x).mp h
    have hroot : d ≠ t.root := by
      rintro rfl
      exact hne t.up_root
    obtain ⟨hord, hname⟩ := (ht.names _ _ d ((ht.nodes d).mp hd).1).mpr ⟨hd, hroot, rfl, rfl⟩
    rcases hempty _ _ hname.2 with h | h
    · exact hord.1 h.1
    · exact hord.2 h.1

theorem ufsRmdir_spec (hs : Consistent s) {mountedOn : Bool} (h : s.lookupIno d name = some x)
    (hdir : (s.inode x).isDir = true) (hne : x ≠ d) :
    Consistent (ufsRmdir s d x name mountedOn).2 ∧ ∃ e, (ufsRmdir s d x name mountedOn).1 = .returned e := by
  have hhas := has_of_lookupIno hs h
  obtain ⟨t, ht⟩ := hs.tree
  unfold ufsRmdir
  split
  · exact ⟨hs, _, rfl⟩
  · split
    · exact ⟨hs, _, rfl⟩
    case isFalse hempty =>
        have hempty := empty_of_ufsDirempty (Bool.not_eq_false _ ▸ hempty)
        have hord := ordinary_of_empty ht hhas hne hempty
        obtain ⟨hx, hroot, rfl, hlabel⟩ := (ht.names d name x hdir).mp ⟨hord, hhas⟩
        split
        · exact ⟨hs, _, rfl⟩
        · split
          · exact ⟨hs, _, rfl⟩
          · rw [ufsDirremove_eq (s := (s.adjust (t.up x) (-1) 0).adjust x (-1) 0) hs.unique hhas.2]
            refine ⟨?_, _, rfl⟩
            refine (hs.dropDir ht hx hroot hempty hhas hord).same (.refl _) (fun j => ?_) (fun j => ?_) fun j => ?_
            · simp only [dropDir, inode_remove, nlink_adjust]
              grind
            · simp only [dropDir, inode_remove, effnlink_adjust]
              grind
            · simp only [dropDir, inode_remove, isDir_adjust]

/-! ### The loop check -/

section Checkpath

variable {t : ParentTree Nat Name} {source fuel vp : Nat} (hs : Consistent s) (ht : Represents s t)

include hs ht

theorem lookup_dotdot (hd : d ∈ t.nodes) : s.lookup d dotdotName = some (t.up d) :=
  (lookup_eq_some hs.unique).mpr ((ht.dotdot d _).mpr ⟨hd, rfl⟩).2

/-- A walk that ends well has not met the source. -/
theorem avoids_of_checkpathLoop (hsource : source ∈ t.nodes) (hroot : source ≠ t.root) (hvp : vp ∈ t.nodes)
    (hne : vp ≠ source) (h : checkpathLoop s source (t.up source) fuel vp = .error 0) :
    Avoids t.up source vp t.root := by
  induction fuel generalizing vp with
  | zero => cases h
  | succ fuel ih =>
      unfold checkpathLoop at h
      rw [lookup_dotdot hs ht hvp] at h
      refine .head hne ?_
      dsimp only at h
      split at h
      · cases h
      case isFalse hup =>
          split at h
          case isTrue hend => exact .of_eq (hend.trans ht.root.symm)
          case isFalse =>
              split at h
              -- from the parent of the source on, the way is that of the source
              case isTrue hend => exact hend ▸ .of_parent t.up_root (t.reach source hsource) hroot
              case isFalse => exact ih (t.up_mem vp hvp) hup h

/-- The walk ends when the root is reached. -/
theorem checkpathLoop_ends (source parent : Nat) {n : Nat} (hvp : vp ∈ t.nodes) (hne : vp ≠ t.root) (hn : n ≤ fuel)
    (h : t.up^[n] vp = t.root) : ∃ e, checkpathLoop s source parent fuel vp = .error e := by
  induction fuel generalizing vp n with
  | zero =>
      obtain rfl : n = 0 := by omega
      exact absurd h hne
  | succ fuel ih =>
      unfold checkpathLoop
      rw [lookup_dotdot hs ht hvp]
      dsimp only
      split
      · exact ⟨_, rfl⟩
      · split
        · exact ⟨_, rfl⟩
        case isFalse hup =>
            split
            · exact ⟨_, rfl⟩
            · cases n with
              | zero => exact absurd h hne
              | succ n => exact ih (t.up_mem vp hvp) (ht.root ▸ hup) (by omega) h

omit hs in
/-- The way up is not longer than the list of entries. -/
theorem exists_le_length (hd : d ∈ t.nodes) : ∃ n ≤ s.entries.length, t.up^[n] d = t.root := by
  let dirs := (s.entries.map Ufs.Links.Entry.dir).toFinset.filter fun c => (s.inode c).isDir = true ∧ Live s c
  have hmem : ∀ c, c ∈ dirs ↔ c ∈ t.nodes := by
    intro c
    rw [Finset.mem_filter, ht.nodes, and_iff_right_iff_imp, List.mem_toFinset]
    intro hc
    exact List.mem_map_of_mem ((ht.dot c c).mpr ⟨(ht.nodes c).mpr hc, rfl⟩).2
  obtain ⟨n, hn, hup⟩ := (t.reach d hd).exists_lt_card (S := dirs)
    (fun c hc => (hmem _).mpr (t.up_mem c ((hmem c).mp hc))) ((hmem d).mpr hd)
  have hcard : dirs.card ≤ s.entries.length :=
    (Finset.card_filter_le _ _).trans ((List.toFinset_card_le _).trans_eq (List.length_map _))
  exact ⟨n, by omega, hup⟩

theorem ufsCheckpath_spec (hsource : source ∈ t.nodes) (hroot : source ≠ t.root) (hd : d ∈ t.nodes) :
    ∃ e, ufsCheckpath s source (t.up source) d = .error e ∧ (e = 0 → Avoids t.up source d t.root) := by
  unfold ufsCheckpath
  split
  · exact ⟨_, rfl, fun h => absurd h (by decide)⟩
  case isFalse hne =>
      split
      case isTrue hup => exact ⟨_, rfl, fun _ => hup ▸ .of_parent t.up_root (t.reach source hsource) hroot⟩
      case isFalse =>
          split
          case isTrue hend => exact ⟨_, rfl, fun _ => .of_eq (hend.trans ht.root.symm)⟩
          case isFalse hend =>
              obtain ⟨n, hn, hup⟩ := exists_le_length ht hd
              obtain ⟨e, he⟩ := checkpathLoop_ends hs ht source (t.up source) hd
                (ht.root ▸ hend) hn hup
              refine ⟨e, he, ?_⟩
              rintro rfl
              exact avoids_of_checkpathLoop hs ht hsource hroot hd hne he

end Checkpath

/-! ### `ufs_rename` between the look-ups and `unlockout` -/

theorem remove_comm {c : Nat} {n : Name} : (s.remove d name).remove c n = (s.remove c n).remove d name := by
  unfold State.remove
  simp only [List.filter_comm]

theorem ufsDirrewrite_eq (hk : UniqueNames s.entries) (h : name = dotdotName → ⟨d, name, x⟩ ∈ s.entries) :
    ufsDirrewrite s d name x i = (0, (s.adjust x (-1) (-1)).rewrite d name i) := by
  unfold ufsDirrewrite
  refine if_neg ?_
  rintro ⟨hname, hno⟩
  exact hno ((lookup_eq_some (s := s.adjust x (-1) (-1)) hk).mpr (h hname))

variable {a : RenameArgs} {fip tip : Nat}

/-- The source is unlinked. -/
theorem renameUnlink_eq {target : Option Nat} (hk : UniqueNames s.entries) (hf : ⟨a.fdvp, a.fname, fip⟩ ∈ s.entries)
    (hlive : (s.inode a.fdvp).effnlink ≠ 0) : renameUnlink a fip target false s
      = .unlockout 0 ((s.adjust fip (-1) (-1)).remove a.fdvp a.fname) := by
  unfold renameUnlink
  rw [if_neg]
  · simp only [Bool.false_eq_true, if_false, ufsDirremove_eq hk hf]
  · rintro ⟨-, hno⟩
    unfold State.lookupIno at hno
    rw [if_neg hlive, (lookup_eq_some hk).mpr hf] at hno
    exact hno rfl

/-- The source is a directory that gets a new parent. -/
theorem renameUnlink_newparent {target : Option Nat} (hk : UniqueNames s.entries)
    (hf : ⟨a.fdvp, a.fname, fip⟩ ∈ s.entries) (hdd : ⟨fip, dotdotName, a.fdvp⟩ ∈ s.entries) (hne : a.fdvp ≠ a.tdvp)
    (hname : a.fname ≠ dotdotName) : renameUnlink a fip target true s
      = .unlockout 0 (((((if target = none then s.adjust a.tdvp 1 1 else s).adjust a.fdvp (-1) (-1)).rewrite
          fip dotdotName a.tdvp).adjust fip (-1) (-1)).remove a.fdvp a.fname) := by
  have hentries : (if target = none then s.adjust a.tdvp 1 1 else s).entries = s.entries := by
    split <;> rfl
  unfold renameUnlink
  rw [if_neg fun h => hne h.1]
  simp only [if_true]
  rw [ufsDirrewrite_eq (by rwa [hentries]) fun _ => by rwa [hentries]]
  have hk' : UniqueNames (((if target = none then s.adjust a.tdvp 1 1 else s).adjust a.fdvp (-1) (-1)).rewrite
      fip dotdotName a.tdvp).entries := by
    refine uniqueNames_enter (uniqueNames_remove ?_) fun j hj => (mem_remove.mp hj).2 ⟨rfl, rfl⟩
    rwa [entries_adjust, hentries]
  rw [ufsDirremove_eq hk']
  refine List.mem_cons_of_mem _ (mem_remove.mpr ⟨?_, fun h => hname h.2⟩)
  rwa [entries_adjust, hentries]

/-- The label `unlockout` is reached, and the state is good. -/
def GoodExit : RenameExit → Prop
  | .unlockout _ s => Consistent s
  | .panic _ => False
  | .loops _ => False

theorem good_renameBad (hs : Consistent s) {e : Int} : GoodExit (renameBad fip e (s.adjust fip 1 1)) := by
  unfold renameBad
  rw [adjust_undo]
  exact hs

/-- A test that ends the call after step 1. -/
theorem good_refuse {p : Prop} [Decidable p] {e : Int} {r : RenameExit} (hs : Consistent s) (h : ¬ p → GoodExit r) :
    GoodExit (if p then renameBad fip e (s.adjust fip 1 1) else r) := by
  split
  case isTrue => exact good_renameBad hs
  case isFalse hp => exact h hp

theorem adjust_comm {k k' l l' : Int} (h : i ≠ j) : (s.adjust i k l).adjust j k' l' = (s.adjust j k' l').adjust i k l := by
  unfold State.adjust State.setInode
  simp only [Function.update_of_ne h, Function.update_of_ne (Ne.symm h), Function.update_comm h]

/-! #### Plain files -/

/-- A plain file that has its new name loses the old one. -/
theorem good_renameUnlink_file {target : Option Nat} (hs : Consistent s) (hdir : (s.inode a.tdvp).isDir = true)
    (hlive : Live s a.tdvp) (hfile : (s.inode fip).isDir = false) (hmax : (s.inode fip).nlink < UFS_LINK_MAX)
    (hfree : ∀ j, ⟨a.tdvp, a.tname, j⟩ ∉ s.entries) (hf : Has s a.fdvp a.fname fip) :
    GoodExit (renameUnlink a fip target false (addLink s a.tdvp a.tname fip)) := by
  have hadd := hs.addLink hdir hlive hfile hmax hfree
  have hne : a.fdvp ≠ fip := isDir_ne (hs.inDir _ hf.2) hfile
  have hf' : Has (addLink s a.tdvp a.tname fip) a.fdvp a.fname fip :=
    ⟨(live_adjust_of_ne hne).mpr hf.1, List.mem_cons_of_mem _ hf.2⟩
  rw [renameUnlink_eq hadd.unique hf'.2 ((live_iff_effnlink hadd).mp hf'.1)]
  exact hadd.dropFile hf' ((isDir_adjust _ _).trans hfile)

section Files

variable (hs : Consistent s) (hdir : (s.inode a.tdvp).isDir = true) (hlive : Live s a.tdvp)
  (hfile : (s.inode fip).isDir = false) (hmax : (s.inode fip).nlink < UFS_LINK_MAX) (hf : Has s a.fdvp a.fname fip)

include hs hdir hlive hfile hmax hf

theorem good_renameNew_file (hname : nameSaved savename (a.cnFlags ||| savename) = true) (hfree : ∀ j, ⟨a.tdvp, a.tname, j⟩ ∉ s.entries) :
    GoodExit (renameNew savename a fip false (s.adjust fip 1 1)) := by
  unfold renameNew
  rw [if_neg fun h => Bool.false_ne_true h.1, if_neg (Bool.not_eq_false _ ▸ hname)]
  exact good_refuse hs fun _ => good_renameUnlink_file hs hdir hlive hfile hmax hfree hf

theorem good_renameOver_file (ht : Has s a.tdvp a.tname tip) (hne : tip ≠ fip) :
    GoodExit (renameOver a fip tip false false (s.adjust fip 1 1)) := by
  unfold renameOver
  rw [if_neg hne]
  refine good_refuse hs fun _ => good_refuse hs fun _ => good_refuse hs fun htip => ?_
  rw [if_neg fun h => Bool.false_ne_true h.2]
  have htip : (s.inode tip).isDir = false := by simpa using htip
  obtain ⟨t, hrep⟩ := hs.tree
  have hord := ordinary_of_file hrep ht htip
  simp only [renameQuash, Bool.false_eq_true, if_false]
  rw [ufsDirrewrite_eq (s := s.adjust fip 1 1) hs.unique fun h => absurd h hord.2]
  show GoodExit (renameUnlink a fip (some tip) false (((s.adjust fip 1 1).adjust tip (-1) (-1)).rewrite
    a.tdvp a.tname fip))
  rw [adjust_comm (Ne.symm hne)]
  have hdrop := hs.dropFile ht htip
  have hinode : ∀ j, (dropFile s a.tdvp a.tname tip).inode j = (s.adjust tip (-1) (-1)).inode j := fun _ => rfl
  refine good_renameUnlink_file (s := dropFile s a.tdvp a.tname tip) hdrop ?_ ?_ ?_ ?_ ?_ ⟨?_, ?_⟩
  · rw [hinode, isDir_adjust]
    exact hdir
  · exact (live_adjust_of_ne (isDir_ne hdir htip)).mpr hlive
  · rw [hinode, isDir_adjust]
    exact hfile
  · rw [hinode, nlink_adjust, if_neg (Ne.symm hne), Int.add_zero]
    exact hmax
  · exact fun j hj => (mem_remove.mp hj).2 ⟨rfl, rfl⟩
  · exact (live_adjust_of_ne (isDir_ne (hs.inDir _ hf.2) htip)).mpr hf.1
  · refine mem_remove.mpr ⟨hf.2, ?_⟩
    rintro ⟨hd, hn⟩
    dsimp only at hd hn
    exact hne (ino_unique hs.unique ht.2 (hd ▸ hn ▸ hf.2))

end Files

/-! #### Directories -/

/-- The state after step 2: the source has its new name and one link more, and the new
parent `k` more. -/
structure Linked (b s : State) (td : Nat) (tn : Name) (i : Nat) (k : Int) : Prop where
  entries : s.entries = ⟨td, tn, i⟩ :: b.entries
  nlink : ∀ j, (s.inode j).nlink = (b.inode j).nlink + (if j = i then 1 else 0) + if j = td then k else 0
  effnlink : ∀ j, (s.inode j).effnlink = (b.inode j).effnlink + (if j = i then 1 else 0) + if j = td then k else 0
  isDir : ∀ j, (s.inode j).isDir = (b.inode j).isDir

section Dirs

variable {t : ParentTree Nat Name} {b : State} {target : Option Nat} (hb : Consistent b) (ht : Represents b t)
  (hi : fip ∈ t.nodes) (hroot : fip ≠ t.root) (htd : a.tdvp ∈ t.nodes) (hfd : a.fdvp = t.up fip)
  (hname : Has b a.fdvp a.fname fip) (hord : Ordinary a.fname) (hfree : ∀ j, ⟨a.tdvp, a.tname, j⟩ ∉ b.entries)

include hname hfree

theorem key_ne : ¬ (a.tdvp = a.fdvp ∧ a.tname = a.fname) := by
  rintro ⟨hd, hn⟩
  exact hfree fip (hd ▸ hn ▸ hname.2)

include hb ht hi hroot htd hfd hord

theorem consistent_moved (havoid : Avoids t.up fip a.tdvp t.root)
    (hmax : (b.inode a.tdvp).nlink < UFS_LINK_MAX ∨ a.tdvp = a.fdvp) :
    Consistent (moveDir b a.fdvp a.fname a.tdvp a.tname fip) := by
  rw [hfd] at hname hmax ⊢
  exact hb.moveDir ht hi hroot htd hname hord hfree havoid hmax

/-- A new name in the same directory. -/
theorem good_renameUnlink_dir (hsame : a.fdvp = a.tdvp) (h : Linked b s a.tdvp a.tname fip 0) :
    GoodExit (renameUnlink a fip target false s) := by
  have hkey := key_ne hname hfree
  have hdd : (⟨fip, dotdotName, a.fdvp⟩ : Ufs.Links.Entry) ∈ b.entries := ((ht.dotdot fip _).mpr ⟨hi, hfd⟩).2
  have hk : UniqueNames s.entries := by
    rw [h.entries]
    exact uniqueNames_enter hb.unique hfree
  have heff : (s.inode a.fdvp).effnlink ≠ 0 := by
    have hlive := (live_iff_effnlink hb).mp hname.1
    have hpos := hb.effnlink a.fdvp
    rw [h.effnlink]
    grind
  have havoid : Avoids t.up fip a.tdvp t.root := by
    rw [← hsame, hfd]
    exact .of_parent t.up_root (t.reach fip hi) hroot
  have hmoved := consistent_moved hb ht hi hroot htd hfd hname hord hfree havoid (.inr hsame.symm)
  rw [renameUnlink_eq hk (by rw [h.entries]; exact List.mem_cons_of_mem _ hname.2) heff]
  refine hmoved.same ?_ (fun j => ?_) (fun j => ?_) fun j => ?_
  · -- `..` stays as it is
    have hentries : ((s.adjust fip (-1) (-1)).remove a.fdvp a.fname).entries
        = ⟨a.tdvp, a.tname, fip⟩ :: (b.remove a.fdvp a.fname).entries := by
      show List.filter _ s.entries = _
      rw [h.entries, List.filter_cons_of_pos (by exact decide_eq_true hkey)]
      rfl
    rw [hentries]
    refine .cons _ ?_
    have hperm := perm_remove (s := b.remove a.fdvp a.fname) (uniqueNames_remove hb.unique)
      (mem_remove.mpr ⟨hdd, fun h => hord.2 h.2.symm⟩)
    rw [remove_comm, hsame] at hperm
    rw [hsame]
    exact hperm
  · simp only [inode_remove, nlink_adjust, h.nlink, moveDir, inode_enter, hsame]
    grind
  · simp only [inode_remove, effnlink_adjust, h.effnlink, moveDir, inode_enter, hsame]
    grind
  · simp only [inode_remove, isDir_adjust, h.isDir, moveDir, inode_enter]

/-- A new parent. -/
theorem good_renameUnlink_newparent (hne : a.fdvp ≠ a.tdvp) (havoid : Avoids t.up fip a.tdvp t.root)
    (hmax : (b.inode a.tdvp).nlink < UFS_LINK_MAX)
    (h : Linked b (if target = none then s.adjust a.tdvp 1 1 else s) a.tdvp a.tname fip 1) :
    GoodExit (renameUnlink a fip target true s) := by
  have hkey := key_ne hname hfree
  have hdd : (⟨fip, dotdotName, a.fdvp⟩ : Ufs.Links.Entry) ∈ b.entries := ((ht.dotdot fip _).mpr ⟨hi, hfd⟩).2
  have htn := ordinary_of_free ht htd hfree
  have hentries : s.entries = ⟨a.tdvp, a.tname, fip⟩ :: b.entries := by
    have := h.entries
    split at this <;> exact this
  have hmoved := consistent_moved hb ht hi hroot htd hfd hname hord hfree havoid (.inl hmax)
  rw [renameUnlink_newparent (by rw [hentries]; exact uniqueNames_enter hb.unique hfree)
    (by rw [hentries]; exact List.mem_cons_of_mem _ hname.2)
    (by rw [hentries]; exact List.mem_cons_of_mem _ hdd) hne hord.2]
  generalize (if target = none then s.adjust a.tdvp 1 1 else s) = s₁ at h
  refine hmoved.same ?_ (fun j => ?_) (fun j => ?_) fun j => ?_
  · simp only [State.remove, State.rewrite, State.enter, entries_adjust]
    rw [h.entries, List.filter_cons_of_pos (by exact decide_eq_true fun h => hord.2 h.2.symm),
      List.filter_cons_of_pos (by exact decide_eq_true fun h => htn.2 h.2),
      List.filter_cons_of_pos (by exact decide_eq_true hkey)]
    exact .swap ..
  · simp only [State.rewrite, inode_remove, nlink_adjust, h.nlink, moveDir, inode_enter]
    grind
  · simp only [State.rewrite, inode_remove, effnlink_adjust, h.effnlink, moveDir, inode_enter]
    grind
  · simp only [State.rewrite, inode_remove, isDir_adjust, h.isDir, moveDir, inode_enter]

end Dirs

section Targets

variable {t : ParentTree Nat Name} (hs : Consistent s) (ht : Represents s t) (hi : fip ∈ t.nodes)
  (hroot : fip ≠ t.root) (htd : a.tdvp ∈ t.nodes) (hfd : a.fdvp = t.up fip) (hname : Has s a.fdvp a.fname fip)
  (hord : Ordinary a.fname) (havoid : Avoids t.up fip a.tdvp t.root)

include hs ht hi hroot htd hfd hname hord havoid

theorem good_renameNew_dir (hsaved : nameSaved savename (a.cnFlags ||| savename) = true)
    (hfree : ∀ j, ⟨a.tdvp, a.tname, j⟩ ∉ s.entries) {newparent : Bool}
    (hnew : newparent = true ↔ a.fdvp ≠ a.tdvp) : GoodExit (renameNew savename a fip newparent (s.adjust fip 1 1)) := by
  refine good_refuse hs fun hlink => ?_
  rw [if_neg (Bool.not_eq_false _ ▸ hsaved)]
  refine good_refuse hs fun _ => ?_
  cases newparent with
  | false =>
      have hsame : a.fdvp = a.tdvp := by simpa using hnew
      refine good_renameUnlink_dir hs ht hi hroot htd hfd hname hord hfree hsame
        ⟨rfl, fun j => ?_, fun j => ?_, fun j => ?_⟩
      · simp only [inode_enter, nlink_adjust, ite_self, Int.add_zero]
      · simp only [inode_enter, effnlink_adjust, ite_self, Int.add_zero]
      · simp only [inode_enter, isDir_adjust]
  | true =>
      have hmax : (s.inode a.tdvp).nlink < UFS_LINK_MAX := by
        simp only [nlink_adjust, true_and, ge_iff_le, Int.not_le] at hlink
        grind
      refine good_renameUnlink_newparent hs ht hi hroot htd hfd hname hord hfree (hnew.mp rfl) havoid hmax
        ⟨rfl, fun j => ?_, fun j => ?_, fun j => ?_⟩
      · simp only [if_true, nlink_adjust, inode_enter]
      · simp only [if_true, effnlink_adjust, inode_enter]
      · simp only [if_true, isDir_adjust, inode_enter]

theorem good_renameOver_dir (htip : Has s a.tdvp a.tname tip) (hne : tip ≠ fip) (hself : tip ≠ a.tdvp)
    (htn : a.tname ≠ dotdotName) {newparent : Bool} (hnew : newparent = true ↔ a.fdvp ≠ a.tdvp) :
    GoodExit (renameOver a fip tip true newparent (s.adjust fip 1 1)) := by
  unfold renameOver
  rw [if_neg hne]
  refine good_refuse hs fun _ => good_refuse hs fun hnotempty => ?_
  rw [if_neg fun h => Bool.false_ne_true h.2.symm]
  refine good_refuse hs fun hdir => ?_
  have hdir : (s.inode tip).isDir = true := by simpa using hdir
  have hempty : Empty s tip a.tdvp := by
    refine empty_of_ufsDirempty (Bool.not_eq_false _ ▸ fun h => ?_)
    exact hnotempty ⟨(isDir_adjust _ _).trans hdir, .inr h⟩
  have htnord : Ordinary a.tname := ordinary_of_empty ht htip hself hempty
  obtain ⟨hx, hxroot, htdup, -⟩ := (ht.names _ _ tip hdir).mp ⟨htnord, htip⟩
  -- the state without the target
  obtain ⟨hb, hbt, hbhas⟩ : Consistent (dropDir s a.tdvp a.tname tip)
      ∧ (∃ hleaf, Represents (dropDir s a.tdvp a.tname tip) (t.removeLeaf hxroot hleaf))
      ∧ Has (dropDir s a.tdvp a.tname tip) a.fdvp a.fname fip := by
    rw [htdup] at htip hempty ⊢
    refine ⟨hs.dropDir ht hx hxroot hempty htip htnord,
      ⟨_, ht.dropDir hs hx hxroot hempty htip htnord⟩, ?_⟩
    refine (has_dropDir _ hs ht hx hxroot hempty _ _ _).mpr ⟨hname, ?_, ?_⟩
    · rw [hfd]
      exact up_ne_of_empty ht hxroot hempty hi
    · rintro ⟨hd, hn⟩
      exact hne (ino_unique hs.unique htip.2 (hd ▸ hn ▸ hname.2))
  obtain ⟨hleaf, hbt⟩ := hbt
  have hbfree : ∀ j, ⟨a.tdvp, a.tname, j⟩ ∉ (dropDir s a.tdvp a.tname tip).entries :=
    fun j hj => (mem_remove.mp hj).2 ⟨rfl, rfl⟩
  cases newparent with
  | false =>
      have hsame : a.fdvp = a.tdvp := by simpa using hnew
      simp only [renameQuash, Bool.false_eq_true, if_false, if_true]
      rw [ufsDirrewrite_eq (s := ((s.adjust fip 1 1).adjust a.tdvp (-1) 0).adjust tip (-1) 0) hs.unique
        fun h => absurd h htn]
      refine good_renameUnlink_dir hb hbt ⟨hi, Ne.symm hne⟩ hroot ⟨htd, Ne.symm hself⟩ hfd hbhas hord hbfree
        hsame ⟨rfl, fun j => ?_, fun j => ?_, fun j => ?_⟩
      · simp only [State.rewrite, dropDir, inode_enter, inode_remove, nlink_adjust]
        grind
      · simp only [State.rewrite, dropDir, inode_enter, inode_remove, effnlink_adjust]
        grind
      · simp only [State.rewrite, dropDir, inode_enter, inode_remove, isDir_adjust]
  | true =>
      simp only [renameQuash, if_true]
      rw [ufsDirrewrite_eq (s := (s.adjust fip 1 1).adjust tip (-1) 0) hs.unique fun h => absurd h htn]
      refine good_renameUnlink_newparent hb hbt ⟨hi, Ne.symm hne⟩ hroot ⟨htd, Ne.symm hself⟩ hfd hbhas hord
        hbfree (hnew.mp rfl) havoid ?_ ⟨rfl, fun j => ?_, fun j => ?_, fun j => ?_⟩
      · have hmax := hs.linkMax a.tdvp
        simp only [dropDir, inode_remove, nlink_adjust]
        grind
      · simp only [reduceCtorEq, if_false, State.rewrite, dropDir, inode_enter, inode_remove, nlink_adjust]
        grind
      · simp only [reduceCtorEq, if_false, State.rewrite, dropDir, inode_enter, inode_remove, effnlink_adjust]
        grind
      · simp only [reduceCtorEq, if_false, State.rewrite, dropDir, inode_enter, inode_remove, isDir_adjust]

end Targets

/-! ### `ufs_rename` -/

/-- What the look-up of the target has found. -/
def TargetFound (s : State) (a : RenameArgs) : Option Nat → Prop
  | none => ∀ j, ⟨a.tdvp, a.tname, j⟩ ∉ s.entries
  | some tip => Has s a.tdvp a.tname tip ∧ tip ≠ a.tdvp

theorem lookupTarget_ok {target : Option Nat} (hs : Consistent s) (h : lookupTarget s a = .ok target) :
    Live s a.tdvp ∧ TargetFound s a target := by
  unfold lookupTarget at h
  split at h
  · cases h
  case isFalse heff =>
      have hlive := (live_iff_effnlink hs).mpr heff
      refine ⟨hlive, ?_⟩
      split at h
      · cases h
      · cases hlook : s.lookup a.tdvp a.tname with
        | none =>
            rw [hlook] at h
            cases h
            exact lookup_eq_none.mp hlook
        | some ino =>
            rw [hlook] at h
            dsimp only at h
            split at h
            · cases h
            case isFalse hne =>
                cases h
                exact ⟨⟨hlive, (lookup_eq_some hs.unique).mp hlook⟩, hne⟩

section Rename

variable {t : ParentTree Nat Name} {target : Option Nat} (hs : Consistent s) (ht : Represents s t)
  (hf : Has s a.fdvp a.fname fip) (htd : a.tdvp ∈ t.nodes) (htarget : TargetFound s a target)
  (hne : target ≠ some fip) (hsaved : target = none → nameSaved savename (a.cnFlags ||| savename) = true)
  (hmax : (s.inode fip).nlink < UFS_LINK_MAX)

include hs ht hf htd

/-- None of the inodes has lost its links. -/
theorem effnlink_ne_zero : ¬ ((s.inode fip).effnlink = 0 ∨ (s.inode a.fdvp).effnlink = 0
    ∨ (s.inode a.tdvp).effnlink = 0) := by
  have hfip := (live_iff_effnlink hs).mp (live_of_has hs hf)
  have hfdvp := (live_iff_effnlink hs).mp hf.1
  have htdvp := (live_iff_effnlink hs).mp ((ht.nodes _).mp htd).2
  rintro (h | h | h)
  · exact hfip h
  · exact hfdvp h
  · exact htdvp h

include htarget hne hsaved

include hmax in
theorem good_renameLink_file (hfile : (s.inode fip).isDir = false) :
    GoodExit (renameLink savename a fip target false false s) := by
  obtain ⟨hdir, hlive⟩ := (ht.nodes _).mp htd
  unfold renameLink
  rw [if_neg (effnlink_ne_zero hs ht hf htd)]
  cases target with
  | none => exact good_renameNew_file hs hdir hlive hfile hmax hf (hsaved rfl) htarget
  | some tip => exact good_renameOver_file hs hdir hlive hfile hmax hf htarget.1 fun h => hne (congrArg some h)

theorem good_renameLink_dir (hdir : (s.inode fip).isDir = true) (hord : Ordinary a.fname)
    (htn : a.tname ≠ dotdotName) (havoid : Avoids t.up fip a.tdvp t.root) {newparent : Bool}
    (hnew : newparent = true ↔ a.fdvp ≠ a.tdvp) : GoodExit (renameLink savename a fip target true newparent s) := by
  obtain ⟨hi, hroot, hfd, -⟩ := (ht.names _ _ fip hdir).mp ⟨hord, hf⟩
  unfold renameLink
  rw [if_neg (effnlink_ne_zero hs ht hf htd)]
  cases target with
  | none => exact good_renameNew_dir hs ht hi hroot htd hfd hf hord havoid (hsaved rfl) htarget hnew
  | some tip =>
      exact good_renameOver_dir hs ht hi hroot htd hfd hf hord havoid htarget.1 (fun h => hne (congrArg some h))
        htarget.2 htn hnew

end Rename

/-- The panic of `ufs_rename` for a directory with a new parent: "lost to startdir". -/
def LostToStartdir (s : State) (a : RenameArgs) (fip : Nat) : Prop :=
  (s.inode fip).isDir = true ∧ a.fdvp ≠ a.tdvp ∧ a.saveStart = false

/-- A check that ends the call. -/
theorem good_ite {p q : Prop} [Decidable p] {e : Int} {r : RenameExit} (hs : Consistent s)
    (h : ¬ p → GoodExit r ∨ r = .panic s ∧ q) :
    GoodExit (if p then .unlockout e s else r) ∨ (if p then .unlockout e s else r) = .panic s ∧ q := by
  split
  case isTrue => exact .inl hs
  case isFalse hp => exact h hp

theorem renameChecks_spec {target : Option Nat} (hs : Consistent s) (hdir : (s.inode a.tdvp).isDir = true)
    (hlive : Live s a.tdvp) (hf : Has s a.fdvp a.fname fip) (htarget : TargetFound s a target)
    (hsaved : target = none → nameSaved savename (a.cnFlags ||| savename) = true) :
    GoodExit (renameChecks savename a fip target s)
      ∨ renameChecks savename a fip target s = .panic s ∧ LostToStartdir s a fip := by
  obtain ⟨t, ht⟩ := hs.tree
  have htd : a.tdvp ∈ t.nodes := (ht.nodes _).mpr ⟨hdir, hlive⟩
  refine good_ite hs fun _ => good_ite hs fun hne => ?_
  refine good_ite hs fun hmax => good_ite hs fun _ => ?_
  refine good_ite hs fun hnames => good_ite hs fun _ => ?_
  cases hfdir : (s.inode fip).isDir with
  | false =>
      simp only [Bool.false_eq_true, false_and, decide_false, if_false]
      exact .inl (good_renameLink_file hs ht hf htd htarget hne hsaved (Int.not_le.mp hmax) hfdir)
  | true =>
      have hord : Ordinary a.fname ∧ a.tname ≠ dotdotName := by
        rw [hfdir] at hnames
        grind [Ordinary]
      obtain ⟨hi, hroot, hfd, -⟩ := (ht.names _ _ fip hfdir).mp ⟨hord.1, hf⟩
      have hlink := good_renameLink_dir hs ht hf htd htarget hne hsaved hfdir hord.1 hord.2
      by_cases hsame : a.fdvp = a.tdvp
      · have havoid : Avoids t.up fip a.tdvp t.root := by
          rw [← hsame, hfd]
          exact .of_parent t.up_root (t.reach fip hi) hroot
        simp only [ne_eq, hsame, not_true_eq_false, and_false, decide_false, Bool.false_eq_true, if_false]
        exact .inl (hlink havoid (by simp [hsame]))
      · obtain ⟨e, hcheck, havoid⟩ := ufsCheckpath_spec hs ht hi hroot htd
        rw [← hfd] at hcheck
        simp only [ne_eq, hsame, not_false_eq_true, and_true, decide_true, if_true, hcheck]
        refine good_ite hs fun _ => good_ite hs fun he => ?_
        split
        case isTrue hsave => exact .inr ⟨rfl, hfdir, hsame, hsave⟩
        case isFalse => exact .inl (hlink (havoid (not_not.mp he)) (by simp [hsame]))

/-- The state that `unlockout` finds is the one that is left, whatever becomes of the
locks. -/
theorem renameUnlockout_state {target : Option Nat} {l : Lib.Ledger Nat} {r : RenameExit} (h : GoodExit r) :
    Consistent (renameUnlockout a fip target l r).2 := by
  cases r with
  | unlockout e s =>
      unfold renameUnlockout
      dsimp only
      split
      · exact h
      · exact h
  | panic s => exact h.elim
  | loops s => exact h.elim

theorem ufsRename_consistent (hs : Consistent s) (hdir : (s.inode a.tdvp).isDir = true)
    (hname : ¬ NameMissing savename s (.rename a)) : Consistent (ufsRename savename s a).2 := by
  unfold ufsRename
  split
  · exact hs
  case isFalse hexdev =>
    dsimp only
    split
    · exact hs
    · split
      · exact hs
      case h_2 fip hfrom =>
          split
          · exact hs
          · split
            · exact hs
            case h_2 target hto =>
                obtain ⟨hlive, hfound⟩ := lookupTarget_ok hs hto
                have hsaved : nameSaved savename (a.cnFlags ||| savename) = true := by
                  refine (Bool.not_eq_false _).mp fun h => hname ⟨h, ?_⟩
                  rintro (hexdev' | ⟨-, hearly⟩)
                  · exact hexdev hexdev'
                  · obtain ⟨-, -, e, he⟩ := hearly fip hfrom
                    rw [hto] at he
                    cases he
                rcases renameChecks_spec hs hdir hlive (has_of_lookupIno hs hfrom) hfound fun _ => hsaved
                  with h | ⟨h, -⟩
                · exact renameUnlockout_state h
                · rw [h]
                  exact hs

/-! #### The locks -/

theorem sound_taken (taken : List Nat) : (⟨taken, [], []⟩ : Lib.Ledger Nat).Sound := rfl

theorem lookupTarget_ne {target : Option Nat} (h : lookupTarget s a = .ok target) : target ≠ some a.tdvp := by
  unfold lookupTarget at h
  split at h
  · cases h
  · split at h
    · cases h
    · split at h
      · cases h
        exact nofun
      · split at h
        · cases h
        case isFalse hne =>
            cases h
            exact fun h => hne (Option.some.inj h)

/-- The lock of the target has not been taken. -/
theorem renameUnlockout_ne {target : Option Nat} {r : RenameExit} (hdirs : a.fdvp ≠ a.tdvp) (hfd : fip ≠ a.fdvp)
    (htd : fip ≠ a.tdvp) (htarget : target ≠ some a.tdvp) (e : Int) :
    (renameUnlockout a fip target ⟨[fip, a.tdvp, a.fdvp], [], []⟩ r).1 ≠ .returned e := by
  cases r with
  | unlockout e s =>
      unfold renameUnlockout
      dsimp only
      rw [(unlock_three hdirs hfd htd).2, if_neg]
      · rintro ⟨⟩
      · cases target with
        | none => rintro ⟨⟩
        | some x =>
            have hx : x ≠ a.tdvp := fun h => htarget (congrArg some h)
            simp [Lib.Ledger.unlock, Lib.Ledger.Sound, hx]
  | panic s => rintro ⟨⟩
  | loops s => rintro ⟨⟩

/-- `ufs_rename` returns only where it does not get to the label `unlockout`. -/
theorem ufsRename_returns (savename : UInt32) (s : State) (a : RenameArgs) :
    Returns (ufsRename savename s a) ↔ EndsEarly s a := by
  unfold Returns ufsRename EndsEarly
  split
  case isTrue hexdev => exact ⟨fun _ => .inl hexdev, fun _ => ⟨_, rfl⟩⟩
  case isFalse hexdev =>
      rw [or_iff_right hexdev]
      dsimp only
      by_cases hdirs : a.fdvp = a.tdvp
      · rw [if_pos (by rw [hdirs]; simp [Lib.Ledger.lock, Lib.Ledger.empty, Lib.Ledger.Sound])]
        refine ⟨?_, fun h => absurd hdirs h.1⟩
        rintro ⟨_, ⟨⟩⟩
      · rw [lock_dirs hdirs, if_neg (not_not.mpr (sound_taken _))]
        cases hfrom : s.lookupIno a.fdvp a.fname with
        | none => exact ⟨fun _ => ⟨hdirs, fun _ h => by cases h⟩, fun _ => ⟨_, rfl⟩⟩
        | some fip =>
            dsimp only
            by_cases hfip : fip ≠ a.fdvp ∧ fip ≠ a.tdvp
            · rw [lock_three hfip.1 hfip.2, if_neg (not_not.mpr (sound_taken _))]
              cases hto : lookupTarget s a with
              | error e =>
                  refine ⟨fun _ => ⟨hdirs, fun i hi => ?_⟩, fun _ => ⟨_, rfl⟩⟩
                  cases hi
                  exact ⟨hfip.1, hfip.2, e, rfl⟩
              | ok target =>
                  constructor
                  · rintro ⟨e, he⟩
                    exact absurd he (renameUnlockout_ne hdirs hfip.1 hfip.2 (lookupTarget_ne hto) e)
                  · intro h
                    obtain ⟨-, -, e, he⟩ := h.2 fip rfl
                    cases he
            · rw [if_pos]
              · refine ⟨?_, fun h => absurd ⟨(h.2 fip rfl).1, (h.2 fip rfl).2.1⟩ hfip⟩
                rintro ⟨_, ⟨⟩⟩
              · have hmem : fip ∈ [a.tdvp, a.fdvp] := by grind
                simp [Lib.Ledger.lock, Lib.Ledger.Sound, hmem]

/-! ### Runs -/

/-- An operation that the VFS asks for, and that returns. -/
def Step (savename : UInt32) (s s' : State) : Prop :=
  ∃ op : Ufs.Links.Op, op.Possible s ∧ ∃ e, op.exec savename s = (.returned e, s')

theorem exec_consistent {op : Ufs.Links.Op} (hs : Consistent s) (h : op.Possible s)
    (hname : ¬ NameMissing savename s op) : Consistent (op.exec savename s).2 := by
  cases op with
  | makeinode dvp name cnFlags isDir valloc direnter =>
      obtain ⟨hdir, hnone, rfl, hfree⟩ := h
      exact ufsMakeinode_consistent hs hdir hnone hfree hname
  | link vp tdvp name cnFlags direnter => exact ufsLink_consistent hs h.1 h.2.1 h.2.2 hname
  | mkdir dvp name cnFlags valloc balloc direnter => exact ufsMkdir_consistent hs h.1 h.2.1 h.2.2 hname
  | remove dvp vp name => exact (ufsRemove_spec hs h.1 h.2).1
  | rmdir dvp vp name mountedOn => exact (ufsRmdir_spec hs h.1 h.2.1 h.2.2).1
  | rename a => exact ufsRename_consistent hs h.2 hname
  | reclaim i => exact hs.reclaimInode h

/-- The condition: a rename ends before the label `unlockout`. -/
def RenameEndsEarly (s : State) : Ufs.Links.Op → Prop
  | .rename a => EndsEarly s a
  | _ => True

@[simp] theorem returns_returned (e : Int) : Returns (.returned e, s) := ⟨e, rfl⟩

/-- A test that refuses the request. -/
@[simp] theorem returns_ite {p : Prop} [Decidable p] {e : Int} {r : Ending × State} :
    Returns (if p then (.returned e, s) else r) ↔ (¬ p → Returns r) := by
  split
  case isTrue h => exact iff_of_true ⟨e, rfl⟩ fun hno => absurd h hno
  case isFalse h => exact ⟨fun hr _ => hr, fun hr => hr h⟩

/-- An assertion. -/
@[simp] theorem returns_assert {p : Prop} [Decidable p] {r : Ending × State} :
    Returns (if p then (.panic, s) else r) ↔ ¬ p ∧ Returns r := by
  split
  case isTrue h =>
      refine iff_of_false ?_ fun hno => hno.1 h
      rintro ⟨_, ⟨⟩⟩
  case isFalse h => exact ⟨fun hr => ⟨h, hr⟩, And.right⟩

theorem ufsMakeinode_returns {cnFlags : UInt32} {isDir : Bool} {valloc : Except Int Nat} {direnter : Int} :
    Returns (ufsMakeinode savename s d name cnFlags isDir valloc direnter)
      ↔ ¬ NameMissing savename s (.makeinode d name cnFlags isDir valloc direnter) := by
  cases valloc with
  | error e => simp [ufsMakeinode, NameMissing]
  | ok i =>
      simp only [ufsMakeinode, NameMissing, returns_ite, returns_assert, returns_returned]
      grind

theorem ufsLink_returns {cnFlags : UInt32} {direnter : Int} :
    Returns (ufsLink savename s i d name cnFlags direnter)
      ↔ ¬ NameMissing savename s (.link i d name cnFlags direnter) := by
  simp only [ufsLink, NameMissing, returns_ite, returns_assert, returns_returned]
  grind

theorem ufsMkdir_returns {cnFlags : UInt32} {valloc : Except Int Nat} {balloc direnter : Int} :
    Returns (ufsMkdir savename s d name cnFlags valloc balloc direnter)
      ↔ ¬ NameMissing savename s (.mkdir d name cnFlags valloc balloc direnter) := by
  cases valloc with
  | error e => simp [ufsMkdir, NameMissing]
  | ok i =>
      simp only [ufsMkdir, mkdirBad, NameMissing, returns_ite, returns_assert, returns_returned]
      grind

theorem exec_returns {op : Ufs.Links.Op} (hs : Consistent s) (h : op.Possible s) :
    Returns (op.exec savename s) ↔ ¬ NameMissing savename s op ∧ RenameEndsEarly s op := by
  cases op with
  | makeinode dvp name cnFlags isDir valloc direnter => exact ufsMakeinode_returns.trans (and_iff_left trivial).symm
  | link vp tdvp name cnFlags direnter => exact ufsLink_returns.trans (and_iff_left trivial).symm
  | mkdir dvp name cnFlags valloc balloc direnter => exact ufsMkdir_returns.trans (and_iff_left trivial).symm
  | remove dvp vp name => exact iff_of_true (ufsRemove_spec hs h.1 h.2).2 ⟨not_false, trivial⟩
  | rmdir dvp vp name mountedOn => exact iff_of_true (ufsRmdir_spec hs h.1 h.2.1 h.2.2).2 ⟨not_false, trivial⟩
  | rename a =>
      exact (ufsRename_returns savename s a).trans
        ⟨fun hearly => ⟨fun hmissing => hmissing.2 hearly, hearly⟩, And.right⟩
  | reclaim i => exact iff_of_true ⟨_, rfl⟩ ⟨not_false, trivial⟩

/-- Only an operation that returns makes a step, and these do not miss the name. -/
theorem consistent_of_run {s₀ : State} (h₀ : Consistent s₀) (hrun : ReflTransGen (Step savename) s₀ s) :
    Consistent s := by
  refine invariant_of_run Consistent (fun {s₁ s₂} hs hstep => ?_) h₀ hrun
  obtain ⟨op, hpossible, e, hexec⟩ := hstep
  have hreturned := (exec_returns hs hpossible).mp ⟨e, congrArg Prod.fst hexec⟩
  have hgood := exec_consistent hs hpossible hreturned.1
  rw [hexec] at hgood
  exact hgood

/-- The directory above, by the live entry `..`. -/
def Above (s : State) (d p : Nat) : Prop := Has s d dotdotName p

/-- Link counts match the name space, and the directories are a tree. -/
structure NamesMatch (s : State) : Prop where
  nlink : ∀ i, (s.inode i).nlink = links s i
  effnlink : ∀ i, (s.inode i).effnlink = links s i
  /-- Only an inode without entries has no links. -/
  last : ∀ i, (s.inode i).nlink = 0 ∨ (s.inode i).effnlink = 0 → ∀ d name, ¬ Has s d name i
  /-- The root is above every directory. -/
  rooted : ∀ d, (s.inode d).isDir = true → Live s d → ReflTransGen (Above s) d UFS_ROOTINO
  /-- No directory is above itself, but the root. -/
  acyclic : ∀ d, d ≠ UFS_ROOTINO → ¬ TransGen (Above s) d d
  /-- A directory has one name, in the directory above it. -/
  named : ∀ d name c n i, (s.inode i).isDir = true → Ordinary name → Ordinary n → Has s d name i →
    Has s c n i → d = c ∧ name = n ∧ Above s i d

theorem reflTransGen_above {t : ParentTree Nat Name} (ht : Represents s t) {n : Nat} (hd : d ∈ t.nodes) :
    ReflTransGen (Above s) d (t.up^[n] d) := by
  induction n generalizing d with
  | zero => exact .refl
  | succ n ih => exact .head ((ht.dotdot d _).mpr ⟨hd, rfl⟩) (ih (t.up_mem d hd))

theorem iterate_of_transGen {t : ParentTree Nat Name} (ht : Represents s t) (h : TransGen (Above s) d i) :
    d ∈ t.nodes ∧ ∃ n, 0 < n ∧ t.up^[n] d = i := by
  induction h with
  | single h =>
      obtain ⟨hd, rfl⟩ := (ht.dotdot _ _).mp h
      exact ⟨hd, 1, Nat.one_pos, rfl⟩
  | tail _ h ih =>
      obtain ⟨hd, n, hn, rfl⟩ := ih
      obtain ⟨-, rfl⟩ := (ht.dotdot _ _).mp h
      exact ⟨hd, n + 1, Nat.succ_pos n, Function.iterate_succ_apply' ..⟩

theorem Consistent.namesMatch (hs : Consistent s) : NamesMatch s := by
  obtain ⟨t, ht⟩ := hs.tree
  refine ⟨hs.nlink, hs.effnlink, fun i hzero d name hhas => ?_, fun d hdir hlive => ?_, fun d hroot hloop => ?_,
    fun d name c n i hdir hname hn h h' => ?_⟩
  · have hlinks := links_pos hhas
    have hnlink := hs.nlink i
    have heff := hs.effnlink i
    omega
  · have hd := (ht.nodes d).mpr ⟨hdir, hlive⟩
    obtain ⟨n, hn⟩ := t.reach d hd
    rw [← ht.root, ← hn]
    exact reflTransGen_above ht hd
  · obtain ⟨hd, n, hn, hback⟩ := iterate_of_transGen ht hloop
    exact t.not_own_ancestor hd (ht.root ▸ hroot) hn hback
  · obtain ⟨hi, -, rfl, rfl⟩ := (ht.names d name i hdir).mp ⟨hname, h⟩
    obtain ⟨-, -, rfl, rfl⟩ := (ht.names c n i hdir).mp ⟨hn, h'⟩
    exact ⟨rfl, rfl, (ht.dotdot i _).mpr ⟨hi, rfl⟩⟩

/-- In a run from a good file system, link counts match the name space in every state,
also in those that an operation leaves that does not return, the assertion of
`ufs_makedirentry` apart, and between the look-ups of `ufs_rename` and its label
`unlockout`. An operation returns exactly where the assertion does not fail and it is not
a rename that gets past its look-ups. -/
theorem linkCounts_match (savename : UInt32) {s₀ : State} (h₀ : Consistent s₀)
    (hrun : ReflTransGen (Step savename) s₀ s) :
    NamesMatch s
      ∧ (∀ op : Ufs.Links.Op, op.Possible s → (¬ NameMissing savename s op → NamesMatch (op.exec savename s).2)
          ∧ (Returns (op.exec savename s) ↔ ¬ NameMissing savename s op ∧ RenameEndsEarly s op))
      ∧ ∀ a fip target, (s.inode a.tdvp).isDir = true → s.lookupIno a.fdvp a.fname = some fip →
          lookupTarget s a = .ok target → (target = none → nameSaved savename (a.cnFlags ||| savename) = true) →
          ¬ LostToStartdir s a fip →
          ∃ e s', renameChecks savename a fip target s = .unlockout e s' ∧ NamesMatch s' := by
  have hs := consistent_of_run h₀ hrun
  refine ⟨hs.namesMatch, fun op hop => ?_, fun a fip target hdir hfrom hto hsaved hlost => ?_⟩
  · exact ⟨fun hname => (exec_consistent hs hop hname).namesMatch, exec_returns hs hop⟩
  · obtain ⟨hlive, hfound⟩ := lookupTarget_ok hs hto
    rcases renameChecks_spec hs hdir hlive (has_of_lookupIno hs hfrom) hfound hsaved with h | ⟨-, h⟩
    · cases hexit : renameChecks savename a fip target s with
      | unlockout e s' =>
          rw [hexit] at h
          exact ⟨e, s', rfl, Consistent.namesMatch h⟩
      | panic s' =>
          rw [hexit] at h
          exact h.elim
      | loops s' =>
          rw [hexit] at h
          exact h.elim
    · exact absurd h hlost

/-! #### From an empty file system -/

/-- A file system with a root and nothing else. -/
def fresh : State where
  inode i := newInode (i = UFS_ROOTINO) (if i = UFS_ROOTINO then 2 else 0)
  entries := [⟨UFS_ROOTINO, dotName, UFS_ROOTINO⟩, ⟨UFS_ROOTINO, dotdotName, UFS_ROOTINO⟩]

/-- The tree of the root alone. -/
def freshTree : ParentTree Nat Name where
  root := UFS_ROOTINO
  nodes := {UFS_ROOTINO}
  up _ := UFS_ROOTINO
  label _ := []
  root_mem := rfl
  up_root := rfl
  up_mem _ _ := rfl
  reach _ _ := ⟨1, rfl⟩

theorem live_fresh : Live fresh i ↔ i = UFS_ROOTINO := by
  unfold Live fresh newInode
  by_cases h : i = UFS_ROOTINO
  · simp [h]
  · simp [h]

theorem has_fresh : Has fresh d name i ↔
    d = UFS_ROOTINO ∧ i = UFS_ROOTINO ∧ (name = dotName ∨ name = dotdotName) := by
  unfold Has
  rw [live_fresh]
  simp only [fresh, List.mem_cons, List.not_mem_nil, or_false, Ufs.Links.Entry.mk.injEq]
  grind

theorem links_fresh : (links fresh i : Int) = if i = UFS_ROOTINO then 2 else 0 := by
  by_cases h : i = UFS_ROOTINO
  · subst h
    decide
  · have hno : links fresh i = 0 := by
      rw [links, List.countP_eq_zero]
      intro e he
      have : e.ino = UFS_ROOTINO := by
        simp only [fresh, List.mem_cons, List.not_mem_nil, or_false] at he
        rcases he with rfl | rfl
        · rfl
        · rfl
      simp only [decide_eq_true_eq, not_and]
      intro hi
      exact absurd (hi.symm.trans this) h
    rw [hno, if_neg h]
    rfl

theorem consistent_fresh : Consistent fresh where
  unique := by
    unfold UniqueNames
    decide
  inDir := by decide
  nlink i := links_fresh.symm
  effnlink i := links_fresh.symm
  linkMax i := by
    show (if i = UFS_ROOTINO then (2 : Int) else 0) ≤ UFS_LINK_MAX
    split <;> decide
  tree := by
    have hdots := dotName_ne_dotdotName
    refine ⟨freshTree, rfl, fun d => ?_, fun d i => ?_, fun d i => ?_, fun d name i hi => ?_⟩
    · rw [live_fresh]
      show d = UFS_ROOTINO ↔ decide (d = UFS_ROOTINO) = true ∧ _
      rw [decide_eq_true_eq, and_self]
    · rw [has_fresh]
      show _ ↔ d = UFS_ROOTINO ∧ _
      grind
    · rw [has_fresh]
      show _ ↔ d = UFS_ROOTINO ∧ i = UFS_ROOTINO
      grind
    · rw [has_fresh]
      have hroot : i = UFS_ROOTINO := by simpa [fresh, newInode] using hi
      constructor
      · rintro ⟨hord, -, -, h | h⟩
        · exact absurd h hord.1
        · exact absurd h hord.2
      · rintro ⟨-, hne, -⟩
        exact absurd hroot hne

/-- Two directories and a file in the root, and a file in one of them, made where the flag
is one. -/
def built₁ : State := ((Ufs.Links.Op.mkdir 2 [0x61] 1 (.ok 3) 0 0).exec 1 fresh).2
def built₂ : State := ((Ufs.Links.Op.mkdir 2 [0x62] 1 (.ok 4) 0 0).exec 1 built₁).2
def built₃ : State := ((Ufs.Links.Op.makeinode 2 [0x66] 1 false (.ok 5) 0).exec 1 built₂).2
def built₄ : State := ((Ufs.Links.Op.makeinode 3 [0x68] 1 false (.ok 6) 0).exec 1 built₃).2

theorem free_of_ok {n : Nat} (h : s.Free n) : ∀ i, (Except.ok n : Except Int Nat) = .ok i → s.Free i := by
  rintro _ ⟨⟩
  exact h

theorem run_built : ReflTransGen (Step 1) fresh built₄ := by
  have h₁ : Step 1 fresh built₁ :=
    ⟨.mkdir 2 [0x61] 1 (.ok 3) 0 0, ⟨rfl, rfl, free_of_ok ⟨rfl, rfl, by decide⟩⟩, 0, rfl⟩
  have h₂ : Step 1 built₁ built₂ :=
    ⟨.mkdir 2 [0x62] 1 (.ok 4) 0 0, ⟨rfl, rfl, free_of_ok ⟨rfl, rfl, by decide⟩⟩, 0, rfl⟩
  have h₃ : Step 1 built₂ built₃ :=
    ⟨.makeinode 2 [0x66] 1 false (.ok 5) 0, ⟨rfl, rfl, rfl, free_of_ok ⟨rfl, rfl, by decide⟩⟩, 0, rfl⟩
  have h₄ : Step 1 built₃ built₄ :=
    ⟨.makeinode 3 [0x68] 1 false (.ok 6) 0, ⟨rfl, rfl, rfl, free_of_ok ⟨rfl, rfl, by decide⟩⟩, 0, rfl⟩
  exact .head h₁ (.head h₂ (.head h₃ (.single h₄)))

theorem consistent_built : Consistent built₄ := consistent_of_run consistent_fresh run_built

/-- The file in the root goes, and then the empty directory, with the flag of the code. -/
def cleared₁ : State := ((Ufs.Links.Op.remove 2 5 [0x66]).exec SAVENAME built₄).2
def cleared₂ : State := ((Ufs.Links.Op.rmdir 2 4 [0x62] false).exec SAVENAME cleared₁).2

theorem run_cleared : ReflTransGen (Step SAVENAME) built₄ cleared₂ := by
  have h₁ : Step SAVENAME built₄ cleared₁ := ⟨.remove 2 5 [0x66], ⟨rfl, rfl⟩, 0, rfl⟩
  have h₂ : Step SAVENAME cleared₁ cleared₂ := ⟨.rmdir 2 4 [0x62] false, ⟨rfl, rfl, by decide⟩, 0, rfl⟩
  exact .head h₁ (.single h₂)

/-- A name to another one, where every call succeeds. -/
def toDirectory (fdvp : Nat) (fname : Name) (tdvp : Nat) (tname : Name) : RenameArgs :=
  { fdvp := fdvp, fname := fname, tdvp := tdvp, tname := tname, cnFlags := 0, exdev := false, lookupAuthorize := 0,
    mountedOn := false, authorize := 0, saveStart := false, sticky := false, direnter := 0 }

theorem linkCounts_match_built : NamesMatch built₄ ∧ links built₄ 2 = 4
    ∧ NamesMatch cleared₂ ∧ links cleared₂ 2 = 3
    ∧ Returns ((Ufs.Links.Op.rename { toDirectory 3 [0x68] 2 [0x67] with lookupAuthorize := 13 }).exec SAVENAME
        cleared₂) := by
  have h := linkCounts_match SAVENAME consistent_built run_cleared
  have hpossible : (Ufs.Links.Op.rename { toDirectory 3 [0x68] 2 [0x67] with lookupAuthorize := 13 }).Possible
    cleared₂ := ⟨rfl, rfl⟩
  refine ⟨(linkCounts_match 1 consistent_fresh run_built).1, by decide, h.1, by decide, ?_⟩
  have hearly : EndsEarly cleared₂ { toDirectory 3 [0x68] 2 [0x67] with lookupAuthorize := 13 } :=
    .inr ⟨by decide, fun fip hfip => by cases hfip; exact ⟨by decide, by decide, _, rfl⟩⟩
  exact (h.2.1 _ hpossible).2.mpr ⟨fun hmissing => hmissing.2 hearly, hearly⟩

/-- A request of the VFS for which the operation does not return. -/
def Fails (s : State) (op : Ufs.Links.Op) (ending : Ending) : Prop :=
  op.Possible s ∧ (op.exec SAVENAME s).1 = ending

/-- Every operation that makes a name panics in `ufs_makedirentry`. The rename of a file
over another one ends at the lock of the target, which was not taken, the move of a
directory at "lost to startdir", and a rename inside one directory waits for its own
lock. -/
theorem rename_panics : Consistent built₄
    ∧ Fails built₄ (.mkdir 2 [0x63] 0 (.ok 7) 0 0) .panic
    ∧ Fails built₄ (.makeinode 2 [0x63] 0 false (.ok 7) 0) .panic
    ∧ Fails built₄ (.link 5 2 [0x63] 0 0) .panic
    ∧ Fails built₄ (.rename (toDirectory 2 [0x66] 3 [0x67])) .panic
    ∧ Fails built₄ (.rename (toDirectory 2 [0x66] 3 [0x68])) .panic
    ∧ Fails built₄ (.rename (toDirectory 2 [0x61] 4 [0x61])) .panic
    ∧ LostToStartdir built₄ (toDirectory 2 [0x61] 4 [0x61]) 3
    ∧ Fails built₄ (.rename (toDirectory 2 [0x66] 2 [0x67])) .hang := by
  refine ⟨consistent_built, ⟨⟨rfl, rfl, free_of_ok ⟨rfl, rfl, by decide⟩⟩, rfl⟩,
    ⟨⟨rfl, rfl, rfl, free_of_ok ⟨rfl, rfl, by decide⟩⟩, rfl⟩, ⟨⟨rfl, rfl, rfl⟩, rfl⟩, ⟨⟨rfl, rfl⟩, by decide⟩,
    ⟨⟨rfl, rfl⟩, by decide⟩, ⟨⟨rfl, rfl⟩, by decide⟩, ⟨rfl, by decide, rfl⟩, ⟨rfl, rfl⟩, by decide⟩

end UfsX.Proofs.Links
