import UfsX.Lib.RefCount
import UfsX.Ufs.RenameLocks

/-!
# `UfsX.Ufs.VnodeRefs`: the vnode references of `ufs_rename`, `ufs_makeinode` and `ufs_mkdir`

A vnode has I/O references (`vnode_get`, `vnode_put`) and use references (`vnode_ref`,
`vnode_rele`). `VFS_VGET` adds an I/O reference to the vnode it hands out, and so does
`UFS_VALLOC`, which gets its vnode from there. The model follows every path through the
three functions and records the calls that change references. The other functions they
call change none for good. `vn_revoke` takes no reference and drops none.

The paths through `ufs_rename` are those of `UfsX.Ufs.RenameLocks`; here `fvp` and `tvp` are
carried from one round to the next, as in the source. Calls that panic on the way return
nothing, and two of these panics are passed over here, so that more calls return than in the
source: that of `iunlock` at `unlockout`, on a `tvp` whose lock is not held, and that of
`ufs_makedirentry` in `ufs_makeinode` and `ufs_mkdir`. Quotas and ACLs are compiled out.
-/

set_option autoImplicit false

namespace UfsX.Ufs

open UfsX.Lib

/-- The kinds of references on a vnode. -/
inductive RefKind where
  | io
  | use
  deriving DecidableEq, Repr

variable {ι : Type*} [DecidableEq ι]

abbrev VnodeRefs (ι : Type*) : Type _ := Refs RefKind ι

/-- `VFS_VGET`, when it succeeds. -/
def vfsVget (vp : ι) (l : VnodeRefs ι) : VnodeRefs ι := l.get .io vp

def vnodePut (vp : ι) (l : VnodeRefs ι) : VnodeRefs ι := l.drop .io vp

def vnodeRele (vp : ι) (l : VnodeRefs ι) : VnodeRefs ι := l.drop .use vp

/-- `if (vp) vnode_put(vp)` -/
def vnodePutIf (vp : Option ι) (l : VnodeRefs ι) : VnodeRefs ι := l.dropOpt .io vp

/-- `if (vp) vnode_rele(vp)` -/
def vnodeReleIf (vp : Option ι) (l : VnodeRefs ι) : VnodeRefs ι := l.dropOpt .use vp

/-! ### `ufs_rename` -/

/-- A round, with what `VFS_VGET` gives for the inode that `ufs_checkpath` waits for. -/
structure RefRound (ι : Type*) extends Round ι where
  vgetWait : Except Int ι

/-- Where a round ends, with `fvp` and `tvp` at that point. -/
inductive RefExit (ι : Type*) where
  | relock (fvp : ι) (tvp : Option ι)
  | releout (fvp : ι) (tvp : Option ι)
  | unlockout (fvp : ι) (tvp : Option ι)
  | panic

/-- From the checks to a jump. -/
def renameRefsAfter (fdvp tdvp fvp : ι) (tvp : Option ι) (r : RefRound ι) (l : VnodeRefs ι) :
    RefExit ι × VnodeRefs ι :=
  match renameBody fdvp tdvp fvp tvp r.toRound with
  | .panic => (.panic, l)
  | .unlockout => (.unlockout fvp tvp, l)
  | .restart =>
      match r.vgetWait with
      | .ok nvp => (.relock fvp tvp, vnodePut nvp (vfsVget nvp l))
      | .error _ => (.relock fvp tvp, l)

/-- From the look-up of the target on. -/
def renameRefsTarget (fdvp tdvp fvp : ι) (tvp : Option ι) (r : RefRound ι) (l : VnodeRefs ι) :
    RefExit ι × VnodeRefs ι :=
  if r.lookupTo = EJUSTRETURN then renameRefsAfter fdvp tdvp fvp none r (vnodeReleIf tvp l)
  else if r.lookupTo ≠ 0 then (.releout fvp tvp, l)
  else
    match r.vgetTo with
    | .ok nvp => renameRefsAfter fdvp tdvp fvp (some nvp) r (vnodeReleIf tvp (vfsVget nvp l))
    | .error e =>
        let l := vnodeReleIf tvp l
        if e ≠ EBUSY then (.releout fvp none, l)
        else match r.vgetToAgain with
          | .error _ => (.releout fvp none, l)
          | .ok nvp => (.relock fvp none, vnodePut nvp (vfsVget nvp l))

/-- From the label `relock` to the next jump. -/
def renameRefsRound (fdvp tdvp fvp : ι) (tvp : Option ι) (r : RefRound ι) (l : VnodeRefs ι) :
    RefExit ι × VnodeRefs ι :=
  if r.lookupFrom ≠ 0 then (.releout fvp tvp, l)
  else
    match r.vgetFrom with
    | .error e =>
        if e ≠ EBUSY then (.releout fvp tvp, l)
        else match r.vgetFromAgain with
          | .error _ => (.releout fvp tvp, l)
          | .ok nvp => (.relock nvp tvp, vnodeRele fvp (vfsVget nvp l))
    | .ok nvp => renameRefsTarget fdvp tdvp nvp tvp r (vnodeRele fvp (vfsVget nvp l))

/-- The label `releout`. -/
def releout (fdvp tdvp fvp : ι) (tvp : Option ι) (l : VnodeRefs ι) : VnodeRefs ι :=
  vnodeReleIf tvp (vnodeRele tdvp (vnodeRele fvp (vnodeRele fdvp l)))

/-- The label `unlockout`. -/
def unlockout (fdvp tdvp fvp : ι) (tvp : Option ι) (l : VnodeRefs ι) : VnodeRefs ι :=
  vnodePut tdvp (vnodePutIf tvp (vnodePut fvp (vnodePut fdvp l)))

def renameRefsRounds (fdvp tdvp : ι) : List (RefRound ι) → ι → Option ι → VnodeRefs ι → CallEnd × VnodeRefs ι
  | [], _, _, l => (.waiting, l)
  | r :: rs, fvp, tvp, l =>
      match renameRefsRound fdvp tdvp fvp tvp r l with
      | (.relock fvp tvp, l) => renameRefsRounds fdvp tdvp rs fvp tvp l
      | (.releout fvp tvp, l) => (.returned, releout fdvp tdvp fvp tvp l)
      | (.unlockout fvp tvp, l) => (.returned, unlockout fdvp tdvp fvp tvp l)
      | (.panic, l) => (.panicked, l)

/-- The arguments of `ufs_rename`. `exdev` says that the vnodes are not of one mount. -/
structure RenameArgs (ι : Type*) where
  exdev : Bool
  fdvp : ι
  fvp : ι
  tdvp : ι
  tvp : Option ι

def ufsRenameRefs (a : RenameArgs ι) (rounds : List (RefRound ι)) : CallEnd × VnodeRefs ι :=
  if a.exdev then (.returned, releout a.fdvp a.tdvp a.fvp a.tvp .none)
  else renameRefsRounds a.fdvp a.tdvp rounds a.fvp a.tvp .none

/-! ### `ufs_makeinode` and `ufs_mkdir` -/

def EINVAL : Int := 22
def EMLINK : Int := 31

/-- How a call that makes an inode returns: the error, what it has stored in `*vpp`, and the
references. -/
structure MadeInode (ι : Type*) where
  error : Int
  vpp : Option ι
  refs : VnodeRefs ι

/-- What the calls and the tests of `ufs_makeinode` give. -/
structure Makeinode (ι : Type*) where
  /-- `pdir->i_effnlink < 2` -/
  badEffnlink : Bool
  valloc : Except Int ι
  update : Int
  direnter : Int

def ufsMakeinode (c : Makeinode ι) : MadeInode ι :=
  if c.badEffnlink then ⟨EINVAL, none, .none⟩
  else
    match c.valloc with
    | .error e => ⟨e, none, .none⟩
    | .ok tvp =>
        let refs := vfsVget tvp .none
        -- the label `bad`
        let bad (error : Int) : MadeInode ι := ⟨error, none, vnodePut tvp refs⟩
        if c.update ≠ 0 then bad c.update
        else if c.direnter ≠ 0 then bad c.direnter
        else ⟨0, some tvp, refs⟩

/-- What the calls and the tests of `ufs_mkdir` give. -/
structure Mkdir (ι : Type*) where
  /-- `dp->i_nlink >= UFS_LINK_MAX` -/
  linkMax : Bool
  badEffnlink : Bool
  valloc : Except Int ι
  /-- `UFS_UPDATE` of the directory, and of the new one. -/
  updateDir : Int
  balloc : Int
  update : Int
  /-- `DOINGASYNC` -/
  async : Bool
  bwrite : Int
  direnter : Int

def ufsMkdir (c : Mkdir ι) : MadeInode ι :=
  if c.linkMax then ⟨EMLINK, none, .none⟩
  else if c.badEffnlink then ⟨EINVAL, none, .none⟩
  else
    match c.valloc with
    | .error e => ⟨e, none, .none⟩
    | .ok tvp =>
        let refs := vfsVget tvp .none
        let error :=
          if c.updateDir ≠ 0 then c.updateDir
          else if c.balloc ≠ 0 then c.balloc
          else if c.update ≠ 0 then c.update
          else if c.async = false ∧ c.bwrite ≠ 0 then c.bwrite
          else c.direnter
        -- the label `bad`
        if error = 0 then ⟨error, some tvp, refs⟩ else ⟨error, none, vnodePut tvp refs⟩

end UfsX.Ufs
