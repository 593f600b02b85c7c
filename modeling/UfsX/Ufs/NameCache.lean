import UfsX.Lib.Cache
import UfsX.Ufs.Links
import UfsX.Ufs.Lookup
import UfsX.Ufs.RenameLocks

/-!
# `UfsX.Ufs.NameCache`: the directories and the name cache of the VFS

The name cache is a cache of the table of all directories, from a directory and a name to
a vnode, or to nothing. The kernel's part is what its interface says: `cache_enter`,
`cache_purge`, `cache_lookup` and `vnode_update_identity`. The rest is what
`ufs_lookup_ino` and the operations of `UfsX.Ufs.Links` do to it. A vnode is known by the
number of its inode.

Threads look names up and change them. A look-up has the exclusive lock of its directory
and is one step. `ufs_create` and `ufs_rmdir` touch the cache after the directory, with no
lock held; other threads may run in between. The other operations do not touch the cache,
but for `ufs_rename`, which has the locks of the directories for its whole body. What
becomes of these locks is left out here. `savename` is as in `UfsX.Ufs.Links`: a call that
panics does not come back.
-/

set_option autoImplicit false

namespace UfsX.Ufs.NameCache

open UfsX.Lib UfsX.Ufs.Links

/-- A directory and a name. -/
abbrev Key : Type := Nat × Name

abbrev VfsCache : Type := Cache Key (Option Nat)

/-- The table of all directories. -/
def contents (s : State) : Key → Option Nat := fun k => s.lookup k.1 k.2

/-- The directories and the name cache. -/
structure Names where
  fs : State
  cache : VfsCache

/-! ### The kernel -/

def cacheEnter (c : VfsCache) (dvp : Nat) (vp : Option Nat) (name : Name) : VfsCache := c.enter (dvp, name) vp

def cachePurge (c : VfsCache) (vp : Nat) : VfsCache := c.forget fun k v => k.1 = vp ∨ v = some vp

/-- `VNODE_UPDATE_PARENT`, `VNODE_UPDATE_NAME`, `VNODE_UPDATE_CACHE` and
`VNODE_UPDATE_PURGE` -/
inductive UpdateFlag where
  | parent
  | name
  | cache
  | purge
  deriving DecidableEq, Repr

def vnodeUpdateIdentity (c : VfsCache) (vp : Nat) (flags : List UpdateFlag) : VfsCache :=
  if .purge ∈ flags ∨ .cache ∈ flags then cachePurge c vp else c

/-- A component to look up, with what the functions outside the name space answer. -/
structure LookupArgs where
  vdp : Nat
  name : Name
  nameiop : Nameiop
  /-- `ISLASTCN` -/
  isLastCn : Bool
  /-- `MAKEENTRY` -/
  makeEntry : Bool
  /-- The caller asks for the number of the inode only. -/
  ddIno : Bool
  authorize : Int
  vget : Int
  deleteDenied : Int
  /-- `i_mode` of the inode that is found is 0. -/
  modeZero : Bool

def LookupArgs.key (r : LookupArgs) : Key := (r.vdp, r.name)

/-- `cache_lookup`. An entry that is about to change is removed. -/
def cacheLookup (c : VfsCache) (r : LookupArgs) : Option (Option Nat) × VfsCache :=
  if r.isLastCn ∧ r.nameiop ≠ .lookup then (none, c.forget fun k _ => k = r.key) else (c r.key, c)

/-! ### `ufs_lookup_ino` -/

/-- From the label `notfound`, in a directory that has not been removed. -/
def lookupNotfound (n : Names) (r : LookupArgs) : Except Int Nat × Names :=
  if (r.nameiop = .create ∨ r.nameiop = .rename) ∧ r.isLastCn then
    if r.authorize ≠ 0 then (.error r.authorize, n) else (.error EJUSTRETURN, n)
  else
    (.error ENOENT, if r.makeEntry then { n with cache := cacheEnter n.cache r.vdp none r.name } else n)

/-- `VFS_VGET` and what follows. -/
def lookupVget (r : LookupArgs) (ino : Nat) : Except Int Nat :=
  if r.name = dotdotName then if r.vget ≠ 0 then .error r.vget else .ok ino
  else if ino = r.vdp then .ok r.vdp
  else if r.vget ≠ 0 then .error r.vget
  else if r.modeZero then .error ENOENT
  else .ok ino

/-- From the label `found`. -/
def lookupFound (n : Names) (r : LookupArgs) (ino : Nat) : Except Int Nat × Names :=
  if r.nameiop = .delete ∧ r.isLastCn then
    if r.ddIno then (.ok ino, n)
    else if r.vget ≠ 0 then (.error r.vget, n)
    else if r.deleteDenied ≠ 0 then (.error r.deleteDenied, n)
    else (.ok ino, n)
  else if r.nameiop = .rename ∧ r.isLastCn then
    if r.authorize ≠ 0 then (.error r.authorize, n)
    else if ino = r.vdp then (.error EISDIR, n)
    else if r.ddIno then (.ok ino, n)
    else if r.vget ≠ 0 then (.error r.vget, n)
    else if r.deleteDenied ≠ 0 then (.error r.deleteDenied, n)
    else (.ok ino, n)
  else if r.ddIno then (.ok ino, n)
  else
    match lookupVget r ino with
    | .error e => (.error e, n)
    | .ok vp => (.ok vp, if r.makeEntry then { n with cache := cacheEnter n.cache r.vdp (some vp) r.name } else n)

/-- `ufs_lookup_ino` -/
def ufsLookupIno (n : Names) (r : LookupArgs) : Except Int Nat × Names :=
  if (n.fs.inode r.vdp).effnlink = 0 then (.error ENOENT, n)
  else
    match cacheLookup n.cache r with
    | (some none, c) => (.error ENOENT, { n with cache := c })
    | (some (some vp), c) => (.ok vp, { n with cache := c })
    | (none, c) =>
        match n.fs.lookup r.vdp r.name with
        | none => lookupNotfound { n with cache := c } r
        | some ino => lookupFound { n with cache := c } r ino

/-! ### `ufs_rename` -/

/-- The look-up of the source again, for its number. -/
def relookupFrom (s : State) (a : RenameArgs) (makeEntry : Bool) (c : VfsCache) : VfsCache :=
  (ufsLookupIno ⟨s, c⟩ ⟨a.fdvp, a.fname, .delete, true, makeEntry, true, 0, 0, 0, false⟩).2.cache

/-- The look-up of the target again. -/
def relookupTo (s : State) (a : RenameArgs) (c : VfsCache) : VfsCache :=
  (ufsLookupIno ⟨s, c⟩ ⟨a.tdvp, a.tname, .rename, true, false, true, a.lookupAuthorize, 0, 0, false⟩).2.cache

/-- `ufs_rename` without the locks: the labels `releout` and `unlockout` with the error. -/
def renameExit (savename : UInt32) (s : State) (a : RenameArgs) : RenameExit :=
  if a.exdev then .unlockout EXDEV s
  else
    match s.lookupIno a.fdvp a.fname with
    | none => .unlockout ENOENT s
    | some fip =>
        match lookupTarget s a with
        | .error e => .unlockout e s
        | .ok tip => renameChecks savename a fip tip s

/-- What step 3 does to the cache. -/
def unlinkCache (a : RenameArgs) (fip : Nat) (newparent makeEntry : Bool) (s : State) (c : VfsCache) :
    VfsCache :=
  let c := if a.fdvp = a.tdvp then relookupFrom s a makeEntry c else c
  let c := if newparent then cachePurge c a.fdvp else c
  vnodeUpdateIdentity c fip [.parent, .name]

/-- What step 2 does to it, where the target does not exist. -/
def newCache (a : RenameArgs) (fip : Nat) (newparent makeEntry : Bool) (s : State) (c : VfsCache) :
    VfsCache :=
  if newparent ∧ (s.inode a.tdvp).nlink ≥ UFS_LINK_MAX then c
  else if a.direnter ≠ 0 then c
  else unlinkCache a fip newparent makeEntry (s.enter a.tdvp a.tname fip) c

/-- And where the target exists. -/
def overCache (a : RenameArgs) (fip tip : Nat) (doingdirectory newparent makeEntry : Bool) (s : State)
    (c : VfsCache) : VfsCache :=
  if tip = fip then c
  else if a.sticky then c
  else if (s.inode tip).isDir
      ∧ ((s.inode tip).effnlink > 2 ∨ ufsDirempty s tip a.tdvp = false) then c
  else if (s.inode tip).isDir ∧ doingdirectory = false then c
  else if (s.inode tip).isDir = false ∧ doingdirectory then c
  else
    let c := if (s.inode tip).isDir then cachePurge c a.tdvp else c
    match ufsDirrewrite (renameQuash a tip doingdirectory newparent (-1) 0 s) a.tdvp a.tname tip fip with
    | (0, s) =>
        unlinkCache a fip newparent makeEntry (renameQuash a tip doingdirectory newparent 0 (-1) s) c
    | _ => c

/-- From step 1 on. -/
def linkCache (a : RenameArgs) (fip : Nat) (tip : Option Nat) (doingdirectory newparent makeEntry : Bool)
    (s : State) (c : VfsCache) : VfsCache :=
  let s := s.adjust fip 1 1
  match tip with
  | none => newCache a fip newparent makeEntry s c
  | some tip => overCache a fip tip doingdirectory newparent makeEntry s c

/-- From the look-ups on. A call that a check ends does no more to the cache. -/
def checksCache (a : RenameArgs) (fip : Nat) (tip : Option Nat) (makeEntry : Bool) (s : State)
    (c : VfsCache) : VfsCache :=
  let doingdirectory := (s.inode fip).isDir
  let newparent : Bool := doingdirectory ∧ a.fdvp ≠ a.tdvp
  if tip.any (undeletable s a.tdvp) then c
  else if tip = some fip then c
  else if (s.inode fip).nlink ≥ UFS_LINK_MAX then c
  else if undeletable s a.fdvp fip then c
  else if doingdirectory ∧ (a.fname = dotName ∨ a.fdvp = fip
      ∨ a.fname = dotdotName ∨ a.tname = dotdotName) then c
  else if a.mountedOn then c
  else if newparent then
    if a.authorize ≠ 0 then c
    else
      match ufsCheckpath s fip a.fdvp a.tdvp with
      | .error 0 => linkCache a fip tip doingdirectory newparent makeEntry s c
      | _ => c
  else linkCache a fip tip doingdirectory newparent makeEntry s c

/-- What `ufs_rename` does to the cache. -/
def renameCache (s : State) (a : RenameArgs) (makeEntry : Bool) (c : VfsCache) : VfsCache :=
  if a.exdev then c
  else
    match s.lookupIno a.fdvp a.fname with
    | none => relookupFrom s a makeEntry c
    | some fip =>
        let c := relookupTo s a (relookupFrom s a makeEntry c)
        match lookupTarget s a with
        | .error _ => c
        | .ok tip => checksCache a fip tip makeEntry s c

/-! ### Threads -/

/-- A call of a thread. `makeEntry` is the flag `MAKEENTRY` of the component, in
`ufs_rename` of the source. -/
inductive Call where
  | create (dvp : Nat) (name : Name) (cnFlags : UInt32) (valloc : Except Int Nat) (direnter : Int) (makeEntry : Bool)
  | mkdir (dvp : Nat) (name : Name) (cnFlags : UInt32) (valloc : Except Int Nat) (balloc direnter : Int)
  | link (vp tdvp : Nat) (name : Name) (cnFlags : UInt32) (direnter : Int)
  | remove (dvp vp : Nat) (name : Name)
  | rmdir (dvp vp : Nat) (name : Name) (mountedOn : Bool)
  | rename (a : RenameArgs) (makeEntry : Bool)

/-- Where a thread is. -/
inductive Pc where
  | idle
  /-- In `ufs_create`, after `ufs_makeinode`. -/
  | created (dvp : Nat) (name : Name) (vp : Nat) (makeEntry : Bool)
  /-- In `ufs_rmdir`, after the entry is gone. -/
  | removed (vp : Nat)
  deriving DecidableEq, Repr

/-- After `ufs_makeinode`. -/
def createdPc (dvp : Nat) (name : Name) (makeEntry : Bool) (error : Int) : Except Int Nat → Pc
  | .ok vp => if error ≠ 0 then .idle else .created dvp name vp makeEntry
  | .error _ => .idle

/-- A call up to its end, or to the place where other threads may run. `none` does not
come back. -/
def Call.start (savename : UInt32) (n : Names) : Call → Option (Int × Names × Pc)
  | .create dvp name cnFlags valloc direnter makeEntry =>
      match ufsMakeinode savename n.fs dvp name cnFlags false valloc direnter with
      | (.returned e, s) => some (e, { n with fs := s }, createdPc dvp name makeEntry e valloc)
      | _ => none
  | .mkdir dvp name cnFlags valloc balloc direnter =>
      match ufsMkdir savename n.fs dvp name cnFlags valloc balloc direnter with
      | (.returned e, s) => some (e, { n with fs := s }, .idle)
      | _ => none
  | .link vp tdvp name cnFlags direnter =>
      match ufsLink savename n.fs vp tdvp name cnFlags direnter with
      | (.returned e, s) => some (e, { n with fs := s }, .idle)
      | _ => none
  | .remove dvp vp name =>
      match ufsRemove n.fs dvp vp name with
      | (.returned e, s) => some (e, { n with fs := s }, .idle)
      | _ => none
  | .rmdir dvp vp name mountedOn =>
      match ufsRmdir n.fs dvp vp name mountedOn with
      | (.returned e, s) => some (e, { n with fs := s }, if e ≠ 0 then .idle else .removed vp)
      | _ => none
  | .rename a makeEntry =>
      match renameExit savename n.fs a with
      | .unlockout e s => some (e, ⟨s, renameCache n.fs a makeEntry n.cache⟩, .idle)
      | _ => none

/-- The rest of a call. -/
def Pc.finish (c : VfsCache) : Pc → VfsCache
  | .idle => c
  | .created dvp name vp makeEntry => if makeEntry then cacheEnter c dvp (some vp) name else c
  | .removed vp => vnodeUpdateIdentity c vp [.purge, .parent]

/-- A directory has its entry `.`, whatever becomes of it. -/
def HasDot (s : State) (d : Nat) : Prop := s.lookup d dotName = some d

instance (s : State) (d : Nat) : Decidable (HasDot s d) := inferInstanceAs (Decidable (_ = _))

/-- The VFS can make the request, after its own look-up. -/
def Call.Possible (s : State) : Call → Prop
  | .create dvp name cnFlags valloc direnter _ =>
      (Op.makeinode dvp name cnFlags false valloc direnter).Possible s ∧ HasDot s dvp
  | .mkdir dvp name cnFlags valloc balloc direnter =>
      (Op.mkdir dvp name cnFlags valloc balloc direnter).Possible s ∧ HasDot s dvp
  | .link vp tdvp name cnFlags direnter => (Op.link vp tdvp name cnFlags direnter).Possible s ∧ HasDot s tdvp
  | .remove dvp vp name =>
      (Op.remove dvp vp name).Possible s ∧ (s.inode dvp).isDir = true ∧ HasDot s dvp
  | .rmdir dvp vp name mountedOn => (Op.rmdir dvp vp name mountedOn).Possible s ∧ HasDot s dvp
  | .rename a _ => (Op.rename a).Possible s ∧ HasDot s a.fdvp ∧ HasDot s a.tdvp

/-- The names and the threads. -/
structure Sys (τ : Type*) where
  names : Names
  pc : τ → Pc

inductive Event where
  | lookup (r : LookupArgs)
  | start (c : Call)
  | finish

/-- A step of the thread `t`. -/
inductive Step {τ : Type*} [DecidableEq τ] (savename : UInt32) (s : Sys τ) (t : τ) : Event → Sys τ → Prop where
  | lookup (r : LookupArgs) (idle : s.pc t = .idle) (dir : HasDot s.names.fs r.vdp) :
      Step savename s t (.lookup r) { s with names := (ufsLookupIno s.names r).2 }
  | start (c : Call) (idle : s.pc t = .idle) (possible : c.Possible s.names.fs) (e : Int) (n : Names)
      (p : Pc) (run : c.start savename s.names = some (e, n, p)) :
      Step savename s t (.start c) ⟨n, Function.update s.pc t p⟩
  | finish (busy : s.pc t ≠ .idle) :
      Step savename s t .finish
        ⟨{ s.names with cache := (s.pc t).finish s.names.cache }, Function.update s.pc t .idle⟩

end UfsX.Ufs.NameCache
