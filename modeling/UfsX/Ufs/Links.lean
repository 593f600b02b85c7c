import UfsX.Lib.Ledger
import UfsX.Ufs.Makedirentry
import Mathlib.Logic.Function.Basic

/-!
# `UfsX.Ufs.Links`: the name space and its link counts

The operations of `ufs_vnops.c` that change names: `ufs_makeinode`, `ufs_link`,
`ufs_mkdir`, `ufs_remove`, `ufs_rmdir` and `ufs_rename`, on the inodes of one file
system and the entries of all its directories. An operation runs alone, with soft
updates compiled out and no I/O errors: `UFS_UPDATE`, `UFS_BLKATOFF` and `bwrite`
succeed. What else may fail is part of the request: `UFS_VALLOC`, `UFS_BALLOC`,
`ufs_direnter` and the authorizations. Where `ufs_makedirentry` is called, `savename` is
the flag that its first assertion wants in `cn_flags`; in the code it is `SAVENAME`.

The entries stay in the list when their directory is removed: the blocks of a
directory go with the inode, in `ufs_inactive`. The order of the list has no meaning.
`i_nlink` has 16 bits; it never passes `UFS_LINK_MAX`, which is the largest value
that fits.
-/

set_option autoImplicit false

namespace UfsX.Ufs.Links

open UfsX.Lib

abbrev Name := List UInt8

def dotName : Name := [0x2e]
def dotdotName : Name := [0x2e, 0x2e]

def UFS_ROOTINO : Nat := 2
def UFS_LINK_MAX : Int := 32767

def EPERM : Int := 1
def ENOENT : Int := 2
def EEXIST : Int := 17
def EXDEV : Int := 18
def ENOTDIR : Int := 20
def EISDIR : Int := 21
def EINVAL : Int := 22
def EMLINK : Int := 31
def ENOTEMPTY : Int := 66
def EIDRM : Int := 90

/-- An entry of the directory `dir`. -/
structure Entry where
  dir : Nat
  name : Name
  ino : Nat
  deriving DecidableEq, Repr

/-- The fields of an inode that the operations read and write. The flags are those of
the user and of the super-user together. -/
structure Inode where
  isDir : Bool
  nlink : Int
  effnlink : Int
  nounlink : Bool
  immutable : Bool
  append : Bool
  deriving DecidableEq, Repr

structure State where
  inode : Nat → Inode
  entries : List Entry

namespace State

variable (s : State)

/-- What a directory has under a name. -/
def lookup (d : Nat) (name : Name) : Option Nat :=
  (s.entries.find? fun e => e.dir = d ∧ e.name = name).map Entry.ino

/-- `ufs_lookup_ino`: nothing is found in a directory that has been removed. -/
def lookupIno (d : Nat) (name : Name) : Option Nat :=
  if (s.inode d).effnlink = 0 then none else s.lookup d name

def setInode (i : Nat) (ip : Inode) : State := { s with inode := Function.update s.inode i ip }

/-- Add to `i_effnlink` and to `i_nlink`. -/
def adjust (i : Nat) (deff dnlink : Int) : State :=
  s.setInode i { s.inode i with
    effnlink := (s.inode i).effnlink + deff, nlink := (s.inode i).nlink + dnlink }

def enter (d : Nat) (name : Name) (i : Nat) : State := { s with entries := ⟨d, name, i⟩ :: s.entries }

def remove (d : Nat) (name : Name) : State :=
  { s with entries := s.entries.filter fun e => ¬ (e.dir = d ∧ e.name = name) }

/-- The entry gets another inode number. -/
def rewrite (d : Nat) (name : Name) (i : Nat) : State := (s.remove d name).enter d name i

end State

/-- How an operation ends. -/
inductive Ending where
  | returned (error : Int)
  /-- A panic of the source, or a null pointer. -/
  | panic
  /-- The thread waits for a lock it holds, or goes round for ever. -/
  | hang
  deriving DecidableEq, Repr

/-! ### The entries of a directory -/

/-- `ufs_dirremove`, after a look-up of `name`. `none` is a panic. -/
def ufsDirremove (s : State) (dvp : Nat) (name : Name) (ip : Nat) : Option State :=
  let s := s.adjust ip (-1) (-1)
  if s.lookup dvp name ≠ some ip then none else some (s.remove dvp name)

/-- `ufs_dirrewrite`, of the entry `name`. -/
def ufsDirrewrite (s : State) (dp : Nat) (name : Name) (oip newinum : Nat) : Int × State :=
  let s := s.adjust oip (-1) (-1)
  if name = dotdotName ∧ s.lookup dp name ≠ some oip then (EIDRM, s.adjust oip 1 1)
  else (0, s.rewrite dp name newinum)

/-- The test that `ufs_dirempty` makes of an entry of `ip`. -/
def diremptyAccepts (ip parentino : Nat) (e : Entry) : Bool :=
  if e.name.length > 2 then false
  else if e.name.getD 0 0 ≠ 0x2e then false
  else if e.name.length = 1 ∧ e.ino = ip then true
  else if e.name.getD 1 0 = 0x2e ∧ e.ino = parentino then true
  else false

/-- `ufs_dirempty` -/
def ufsDirempty (s : State) (ip parentino : Nat) : Bool :=
  (s.entries.filter fun e => e.dir = ip).all (diremptyAccepts ip parentino)

/-- The ways out of `ufs_checkpath`. -/
inductive Checkpath where
  | error (e : Int)
  | panic
  | loops
  deriving DecidableEq, Repr

/-- The loop of `ufs_checkpath`. `ufs_dir_dd_ino` reads the entry `..` of `vp`. -/
def checkpathLoop (s : State) (source parent : Nat) : Nat → Nat → Checkpath
  | 0, _ => .loops
  | fuel + 1, vp =>
      match s.lookup vp dotdotName with
      | none => .panic
      | some ddIno =>
          if ddIno = source then .error EINVAL
          else if ddIno = UFS_ROOTINO then .error 0
          else if ddIno = parent then .error 0
          else checkpathLoop s source parent fuel ddIno

/-- `ufs_checkpath`. A walk that is longer than the list of entries comes back to a
directory and never ends. -/
def ufsCheckpath (s : State) (source parent target : Nat) : Checkpath :=
  if target = source then .error EEXIST
  else if target = parent then .error 0
  else if target = UFS_ROOTINO then .error 0
  else checkpathLoop s source parent s.entries.length target

/-! ### Creating and removing names -/

/-- A new inode with its counts. -/
def newInode (isDir : Bool) (links : Int) : Inode := ⟨isDir, links, links, false, false, false⟩

/-- `ufs_makeinode` -/
def ufsMakeinode (savename : UInt32) (s : State) (dvp : Nat) (name : Name) (cnFlags : UInt32) (isDir : Bool)
    (valloc : Except Int Nat) (direnter : Int) : Ending × State :=
  if (s.inode dvp).effnlink < 2 then (.returned EINVAL, s)
  else
    match valloc with
    | .error e => (.returned e, s)
    | .ok ip =>
        let s := s.setInode ip (newInode isDir 1)
        if nameSaved savename cnFlags = false then (.panic, s)
        else if direnter ≠ 0 then (.returned direnter, s.setInode ip (newInode isDir 0))
        else (.returned 0, s.enter dvp name ip)

/-- `ufs_link` -/
def ufsLink (savename : UInt32) (s : State) (vp tdvp : Nat) (name : Name) (cnFlags : UInt32) (direnter : Int) :
    Ending × State :=
  if (s.inode tdvp).effnlink < 2 then (.returned EINVAL, s)
  else if (s.inode vp).nlink ≥ UFS_LINK_MAX then (.returned EMLINK, s)
  else if (s.inode vp).effnlink = 0 then (.returned ENOENT, s)
  else if (s.inode vp).immutable ∨ (s.inode vp).append then (.returned EPERM, s)
  else
    let s := s.adjust vp 1 1
    if nameSaved savename cnFlags = false then (.panic, s)
    else if direnter ≠ 0 then (.returned direnter, s.adjust vp (-1) (-1))
    else (.returned 0, s.enter tdvp name vp)

/-- The label `bad` of `ufs_mkdir`. -/
def mkdirBad (s : State) (dvp ip : Nat) (error : Int) : Ending × State :=
  (.returned error, (s.adjust dvp (-1) (-1)).setInode ip (newInode true 0))

/-- `ufs_mkdir` -/
def ufsMkdir (savename : UInt32) (s : State) (dvp : Nat) (name : Name) (cnFlags : UInt32) (valloc : Except Int Nat)
    (balloc direnter : Int) : Ending × State :=
  if (s.inode dvp).nlink ≥ UFS_LINK_MAX then (.returned EMLINK, s)
  else if (s.inode dvp).effnlink < 2 then (.returned EINVAL, s)
  else
    match valloc with
    | .error e => (.returned e, s)
    | .ok ip =>
        let s := (s.setInode ip (newInode true 2)).adjust dvp 1 1
        if balloc ≠ 0 then mkdirBad s dvp ip balloc
        else
          let s := (s.enter ip dotName ip).enter ip dotdotName dvp
          if nameSaved savename cnFlags = false then (.panic, s)
          else if direnter ≠ 0 then mkdirBad s dvp ip direnter
          else (.returned 0, s.enter dvp name ip)

/-- `NOUNLINK | IMMUTABLE | APPEND` on the inode, or `APPEND` on its directory. -/
def undeletable (s : State) (dp ip : Nat) : Bool :=
  (s.inode ip).nounlink || (s.inode ip).immutable || (s.inode ip).append || (s.inode dp).append

/-- `ufs_remove` -/
def ufsRemove (s : State) (dvp vp : Nat) (name : Name) : Ending × State :=
  if undeletable s dvp vp then (.returned EPERM, s)
  else
    match ufsDirremove s dvp name vp with
    | none => (.panic, s)
    | some s => (.returned 0, s)

/-- `ufs_rmdir` -/
def ufsRmdir (s : State) (dvp vp : Nat) (name : Name) (mountedOn : Bool) : Ending × State :=
  if (s.inode dvp).effnlink ≤ 2 then (.returned EINVAL, s)
  else if ufsDirempty s vp dvp = false then (.returned ENOTEMPTY, s)
  else if undeletable s dvp vp then (.returned EPERM, s)
  else if mountedOn then (.returned EINVAL, s)
  else
    match ufsDirremove ((s.adjust dvp (-1) 0).adjust vp (-1) 0) dvp name vp with
    | none => (.panic, s)
    | some s => (.returned 0, (s.adjust dvp 0 (-1)).adjust vp 0 (-1))

/-! ### `ufs_rename` -/

/-- A request, with what the functions outside the name space answer. -/
structure RenameArgs where
  fdvp : Nat
  fname : Name
  tdvp : Nat
  tname : Name
  /-- `cn_flags` of the target, as the VFS sets them. -/
  cnFlags : UInt32
  /-- The vnodes are not of one mount. -/
  exdev : Bool
  /-- `vnode_authorize` in the look-up of the target. -/
  lookupAuthorize : Int
  /-- A file system is mounted on the source or the target. -/
  mountedOn : Bool
  authorize : Int
  /-- `SAVESTART` is set for the target. -/
  saveStart : Bool
  /-- The directory of the target is sticky, and neither it nor the target belongs to
  the caller. -/
  sticky : Bool
  direnter : Int
  deriving Repr

/-- The second look-up of `ufs_rename`: nothing is there (`EJUSTRETURN`), or the
target, or an error. -/
def lookupTarget (s : State) (a : RenameArgs) : Except Int (Option Nat) :=
  if (s.inode a.tdvp).effnlink = 0 then .error ENOENT
  else if a.lookupAuthorize ≠ 0 then .error a.lookupAuthorize
  else
    match s.lookup a.tdvp a.tname with
    | none => .ok none
    | some ino => if ino = a.tdvp then .error EISDIR else .ok (some ino)

/-- Where the part between the look-ups and `unlockout` ends, with the state there. -/
inductive RenameExit where
  | unlockout (error : Int) (s : State)
  | panic (s : State)
  | loops (s : State)

/-- Step 3: unlink the source. The error of `ufs_dirrewrite` is not looked at. -/
def renameUnlink (a : RenameArgs) (fip : Nat) (tip : Option Nat) (newparent : Bool) (s : State) :
    RenameExit :=
  if a.fdvp = a.tdvp ∧ s.lookupIno a.fdvp a.fname ≠ some fip then .panic s
  else
    let s := if newparent then
        (ufsDirrewrite (if tip = none then s.adjust a.tdvp 1 1 else s) fip dotdotName a.fdvp a.tdvp).2
      else s
    match ufsDirremove s a.fdvp a.fname fip with
    | none => .panic s
    | some s => .unlockout 0 s

/-- The label `bad`. -/
def renameBad (fip : Nat) (error : Int) (s : State) : RenameExit :=
  .unlockout error (s.adjust fip (-1) (-1))

/-- Step 2, where the target does not exist. The look-up has set `savename`. -/
def renameNew (savename : UInt32) (a : RenameArgs) (fip : Nat) (newparent : Bool) (s : State) : RenameExit :=
  if newparent ∧ (s.inode a.tdvp).nlink ≥ UFS_LINK_MAX then renameBad fip EMLINK s
  else if nameSaved savename (a.cnFlags ||| savename) = false then .panic s
  else if a.direnter ≠ 0 then renameBad fip a.direnter s
  else renameUnlink a fip none newparent (s.enter a.tdvp a.tname fip)

/-- Drop the links that a target directory has from its `.` and to its parent: the
counts `i_effnlink` before, `i_nlink` after the entry is rewritten. -/
def renameQuash (a : RenameArgs) (tip : Nat) (doingdirectory newparent : Bool) (deff dnlink : Int)
    (s : State) : State :=
  if doingdirectory then
    (if newparent then s else s.adjust a.tdvp deff dnlink).adjust tip deff dnlink
  else s

/-- Step 2, where the target exists. -/
def renameOver (a : RenameArgs) (fip tip : Nat) (doingdirectory newparent : Bool) (s : State) :
    RenameExit :=
  if tip = fip then .panic s
  else if a.sticky then renameBad fip EPERM s
  else if (s.inode tip).isDir
      ∧ ((s.inode tip).effnlink > 2 ∨ ufsDirempty s tip a.tdvp = false) then
    renameBad fip ENOTEMPTY s
  else if (s.inode tip).isDir ∧ doingdirectory = false then renameBad fip ENOTDIR s
  else if (s.inode tip).isDir = false ∧ doingdirectory then renameBad fip EISDIR s
  else
    match ufsDirrewrite (renameQuash a tip doingdirectory newparent (-1) 0 s) a.tdvp a.tname tip fip with
    | (0, s) => renameUnlink a fip (some tip) newparent (renameQuash a tip doingdirectory newparent 0 (-1) s)
    | (e, s) => renameBad fip e (renameQuash a tip doingdirectory newparent 1 0 s)

/-- Step 1 and what follows. -/
def renameLink (savename : UInt32) (a : RenameArgs) (fip : Nat) (tip : Option Nat) (doingdirectory newparent : Bool)
    (s : State) : RenameExit :=
  if (s.inode fip).effnlink = 0 ∨ (s.inode a.fdvp).effnlink = 0 ∨ (s.inode a.tdvp).effnlink = 0 then .panic s
  else
    let s := s.adjust fip 1 1
    match tip with
    | none => renameNew savename a fip newparent s
    | some tip => renameOver a fip tip doingdirectory newparent s

/-- The checks, from the look-ups to step 1. -/
def renameChecks (savename : UInt32) (a : RenameArgs) (fip : Nat) (tip : Option Nat) (s : State) : RenameExit :=
  let doingdirectory := (s.inode fip).isDir
  let newparent : Bool := doingdirectory ∧ a.fdvp ≠ a.tdvp
  if tip.any (undeletable s a.tdvp) then .unlockout EPERM s
  else if tip = some fip then .unlockout 0 s
  else if (s.inode fip).nlink ≥ UFS_LINK_MAX then .unlockout EMLINK s
  else if undeletable s a.fdvp fip then .unlockout EPERM s
  else if doingdirectory ∧ (a.fname = dotName ∨ a.fdvp = fip
      ∨ a.fname = dotdotName ∨ a.tname = dotdotName) then .unlockout EINVAL s
  else if a.mountedOn then .unlockout EXDEV s
  else if newparent then
    if a.authorize ≠ 0 then .unlockout a.authorize s
    else
      match ufsCheckpath s fip a.fdvp a.tdvp with
      | .panic => .panic s
      | .loops => .loops s
      | .error e =>
          if e ≠ 0 then .unlockout e s
          else if a.saveStart = false then .panic s
          else renameLink savename a fip tip doingdirectory newparent s
  else renameLink savename a fip tip doingdirectory newparent s

/-- The label `unlockout`: the locks of `fdvp`, `fvp` and `tvp` are dropped. -/
def renameUnlockout (a : RenameArgs) (fip : Nat) (tip : Option Nat) (l : Ledger Nat) : RenameExit → Ending × State
  | .unlockout error s =>
      if (((l.unlock (some a.fdvp)).unlock (some fip)).unlock tip).Sound then (.returned error, s)
      else (.panic, s)
  | .panic s => (.panic, s)
  | .loops s => (.hang, s)

/-- `ufs_rename`. A lock that the call holds already is waited for without end. -/
def ufsRename (savename : UInt32) (s : State) (a : RenameArgs) : Ending × State :=
  if a.exdev then (.returned EXDEV, s)
  else
    let l := (Ledger.empty.lock a.fdvp).lock a.tdvp
    if ¬ l.Sound then (.hang, s)
    else
      match s.lookupIno a.fdvp a.fname with
      | none => (.returned ENOENT, s)
      | some fip =>
          let l := l.lock fip
          if ¬ l.Sound then (.hang, s)
          else
            match lookupTarget s a with
            | .error e => (.returned e, s)
            | .ok tip => renameUnlockout a fip tip l (renameChecks savename a fip tip s)

/-! ### Runs -/

/-- An operation with its arguments. `reclaim` is `ufs_inactive`, for an inode
without links. -/
inductive Op where
  | makeinode (dvp : Nat) (name : Name) (cnFlags : UInt32) (isDir : Bool) (valloc : Except Int Nat) (direnter : Int)
  | link (vp tdvp : Nat) (name : Name) (cnFlags : UInt32) (direnter : Int)
  | mkdir (dvp : Nat) (name : Name) (cnFlags : UInt32) (valloc : Except Int Nat) (balloc direnter : Int)
  | remove (dvp vp : Nat) (name : Name)
  | rmdir (dvp vp : Nat) (name : Name) (mountedOn : Bool)
  | rename (a : RenameArgs)
  | reclaim (i : Nat)

/-- The entries of the inode go, and its number is free. -/
def reclaimInode (s : State) (i : Nat) : State :=
  { s with entries := s.entries.filter fun e => e.dir ≠ i }.setInode i (newInode false 0)

def Op.exec (savename : UInt32) (s : State) : Op → Ending × State
  | .makeinode dvp name cnFlags isDir valloc direnter =>
      ufsMakeinode savename s dvp name cnFlags isDir valloc direnter
  | .link vp tdvp name cnFlags direnter => ufsLink savename s vp tdvp name cnFlags direnter
  | .mkdir dvp name cnFlags valloc balloc direnter => ufsMkdir savename s dvp name cnFlags valloc balloc direnter
  | .remove dvp vp name => ufsRemove s dvp vp name
  | .rmdir dvp vp name mountedOn => ufsRmdir s dvp vp name mountedOn
  | .rename a => ufsRename savename s a
  | .reclaim i => (.returned 0, reclaimInode s i)

/-- `UFS_VALLOC` may hand out the number: the inode has no links, and no blocks. -/
def State.Free (s : State) (i : Nat) : Prop :=
  (s.inode i).nlink = 0 ∧ (s.inode i).effnlink = 0 ∧ ∀ e ∈ s.entries, e.dir ≠ i

/-- The VFS can make the request, after its own look-up: a name that is made is not
there yet, a name that is removed is; only `mkdir` and `rmdir` are for directories,
and `rmdir` is not for the directory itself. -/
def Op.Possible (s : State) : Op → Prop
  | .makeinode dvp name _ isDir valloc _ => (s.inode dvp).isDir = true ∧ s.lookupIno dvp name = none
      ∧ isDir = false ∧ ∀ i, valloc = .ok i → s.Free i
  | .link vp tdvp name _ _ => (s.inode vp).isDir = false ∧ (s.inode tdvp).isDir = true
      ∧ s.lookupIno tdvp name = none
  | .mkdir dvp name _ valloc _ _ => (s.inode dvp).isDir = true ∧ s.lookupIno dvp name = none
      ∧ ∀ i, valloc = .ok i → s.Free i
  | .remove dvp vp name => s.lookupIno dvp name = some vp ∧ (s.inode vp).isDir = false
  | .rmdir dvp vp name _ => s.lookupIno dvp name = some vp ∧ (s.inode vp).isDir = true
      ∧ vp ≠ dvp
  | .rename a => (s.inode a.fdvp).isDir = true ∧ (s.inode a.tdvp).isDir = true
  | .reclaim i => (s.inode i).nlink ≤ 0

end UfsX.Ufs.Links
