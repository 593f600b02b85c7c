import UfsX.Lib.Ledger
import UfsX.Lib.RwLock

/-!
# `UfsX.Ufs.RenameLocks`: the inode locks of `ufs_rename` and `ffs_pageout`

`ufs_rename` takes the locks of the two directories and of the source, looks the
names up again, and starts over when it cannot get a vnode. A `Round` holds what the
functions it calls give it between two labels `relock`. The model follows every path
through the function and keeps a ledger of the calls of `ixlock` and `iunlock`.
Inodes and vnodes are the same here; `none` is a null pointer. Soft updates are
compiled out.
-/

set_option autoImplicit false

namespace UfsX.Ufs

open UfsX.Lib

def EBUSY : Int := 16
def EJUSTRETURN : Int := -2

/-- What the calls and the tests of one round give, in the order of the source. An
error of `VFS_VGET` leaves no vnode. -/
structure Round (ι : Type*) where
  /-- `ufs_lookup_ino` and `VFS_VGET` for the source, and the second `VFS_VGET`
  after `EBUSY`. -/
  lookupFrom : Int
  vgetFrom : Except Int ι
  vgetFromAgain : Except Int ι
  /-- The same for the target. -/
  lookupTo : Int
  vgetTo : Except Int ι
  vgetToAgain : Except Int ι
  /-- `NOUNLINK`, `IMMUTABLE` or `APPEND` on the target, or `APPEND` on its
  directory. -/
  toProtected : Bool
  /-- `fip->i_nlink >= UFS_LINK_MAX` -/
  fromLinkMax : Bool
  fromProtected : Bool
  /-- `(fip->i_mode & IFMT) == IFDIR` -/
  fromDir : Bool
  /-- The source is named `.`, or one of the names is `..`. -/
  dotNames : Bool
  /-- A file system is mounted on the source or the target. -/
  mountedOn : Bool
  authorize : Int
  /-- `ufs_checkpath`: the error, and whether it hands back an inode number to wait
  for. -/
  checkpath : Int × Bool
  /-- `SAVESTART` -/
  saveStart : Bool
  /-- `i_effnlink` is zero somewhere. -/
  badEffnlink : Bool
  update : Int
  /-- The inodes are on different devices. -/
  otherDevice : Bool
  /-- `tdp->i_nlink >= UFS_LINK_MAX` -/
  toDirLinkMax : Bool
  /-- The first assertion of `ufs_makedirentry` fails. With `SAVENAME` as it is, it
  always does. -/
  nameMissing : Bool
  direnter : Int
  /-- The target is the source, by number. -/
  sameNumber : Bool
  /-- The directory is sticky, and neither it nor the target belongs to the
  caller. -/
  sticky : Bool
  toDir : Bool
  /-- `tip->i_effnlink > 2`, or `ufs_dirempty` fails. -/
  toNotEmpty : Bool
  dirrewrite : Int
  /-- The second look-up of the source fails or gives another inode. -/
  fromGone : Bool

/-- Where the part of the function between the look-ups and the label `unlockout`
ends. -/
inductive Exit where
  | unlockout
  /-- `ufs_checkpath` hands back an inode number: unlock, and start over. -/
  | restart
  | panic
  deriving DecidableEq, Repr

variable {ι : Type*} [DecidableEq ι]

/-- Steps 1 to 3 of `ufs_rename`: the links are made and removed. `bad` goes on to
`unlockout`. -/
def renameLinks (fdvp tdvp : ι) (tvp : Option ι) (newparent : Bool) (r : Round ι) : Exit :=
  if r.update ≠ 0 then .unlockout
  else
    let unlinkSource : Exit :=
      if fdvp = tdvp ∧ r.fromGone then .panic
      -- an error of the last `UFS_UPDATE` goes to `unlockout` as well
      else .unlockout
    match tvp with
    | none =>
        if r.otherDevice then .panic
        else if newparent ∧ r.toDirLinkMax then .unlockout
        else if r.nameMissing then .panic
        else if r.direnter ≠ 0 then .unlockout
        else unlinkSource
    | some _ =>
        if r.otherDevice then .panic
        else if r.sameNumber then .panic
        else if r.sticky then .unlockout
        else if r.toDir ∧ r.toNotEmpty then .unlockout
        else if r.toDir ≠ r.fromDir then .unlockout
        else if r.dirrewrite ≠ 0 then .unlockout
        else unlinkSource

/-- The checks of `ufs_rename`, and what follows. `fvp` and `tvp` are as the look-ups
have left them. -/
def renameBody (fdvp tdvp fvp : ι) (tvp : Option ι) (r : Round ι) : Exit :=
  if tvp ≠ none ∧ r.toProtected then .unlockout
  else if tvp = some fvp then .unlockout
  else if r.fromLinkMax then .unlockout
  else if r.fromProtected then .unlockout
  else if r.fromDir ∧ (r.dotNames ∨ fdvp = fvp) then .unlockout
  else
    let newparent : Bool := r.fromDir ∧ fdvp ≠ tdvp
    if r.mountedOn then .unlockout
    else if newparent ∧ r.authorize ≠ 0 then .unlockout
    else if newparent ∧ r.checkpath.2 then .restart
    else if newparent ∧ r.checkpath.1 ≠ 0 then .unlockout
    else if newparent ∧ ¬ r.saveStart then .panic
    else if r.badEffnlink then .panic
    else renameLinks fdvp tdvp tvp newparent r

/-- How a round ends, with the vnodes that the look-ups gave. -/
inductive RoundEnd where
  | releout
  | relock
  | unlockout
  | panic
  deriving DecidableEq, Repr

/-- `iunlock` of the two directories. -/
def unlockDirs (fdvp tdvp : ι) (l : Ledger ι) : Ledger ι :=
  (l.unlock (some fdvp)).unlock (some tdvp)

/-- From the checks on. The label `unlockout` drops the lock of `tvp`, and not that of
`tdvp`. -/
def renameAfter (fdvp tdvp fvp : ι) (tvp : Option ι) (r : Round ι) (l : Ledger ι) :
    RoundEnd × Ledger ι :=
  match renameBody fdvp tdvp fvp tvp r with
  | .panic => (.panic, l)
  | .unlockout => (.unlockout, ((l.unlock (some fdvp)).unlock (some fvp)).unlock tvp)
  | .restart =>
      let l := ((l.unlock (some fdvp)).unlock (some fvp)).unlock (some tdvp)
      (.relock, if tvp ≠ none then l.unlock tvp else l)

/-- From the look-up of the target on. The locks of the directories and of `fvp` are
taken. -/
def renameTarget (fdvp tdvp fvp : ι) (r : Round ι) (l : Ledger ι) : RoundEnd × Ledger ι :=
  let dropAll := (unlockDirs fdvp tdvp l).unlock (some fvp)
  if r.lookupTo = EJUSTRETURN then renameAfter fdvp tdvp fvp none r l
  else if r.lookupTo ≠ 0 then (.releout, dropAll)
  else
    match r.vgetTo with
    | .ok tvp => renameAfter fdvp tdvp fvp (some tvp) r l
    | .error e =>
        if e ≠ EBUSY then (.releout, dropAll)
        else match r.vgetToAgain with
          | .error _ => (.releout, dropAll)
          | .ok _ => (.relock, dropAll)

/-- From the label `relock` to the next jump back, or to the end. -/
def renameRound (fdvp tdvp : ι) (r : Round ι) (l : Ledger ι) : RoundEnd × Ledger ι :=
  let l := (l.lock fdvp).lock tdvp
  if r.lookupFrom ≠ 0 then (.releout, unlockDirs fdvp tdvp l)
  else
    match r.vgetFrom with
    | .error e =>
        if e ≠ EBUSY then (.releout, unlockDirs fdvp tdvp l)
        else match r.vgetFromAgain with
          | .error _ => (.releout, unlockDirs fdvp tdvp l)
          | .ok _ => (.relock, unlockDirs fdvp tdvp l)
    | .ok fvp => renameTarget fdvp tdvp fvp r (l.lock fvp)

/-- How a call ends. `waiting` is a call that is not over after the rounds given. -/
inductive CallEnd where
  | returned
  | panicked
  | waiting
  deriving DecidableEq, Repr

def renameRounds (fdvp tdvp : ι) : List (Round ι) → Ledger ι → CallEnd × Ledger ι
  | [], l => (.waiting, l)
  | r :: rs, l =>
      match renameRound fdvp tdvp r l with
      | (.relock, l) => renameRounds fdvp tdvp rs l
      | (.panic, l) => (.panicked, l)
      | (_, l) => (.returned, l)

/-- `ufs_rename`. `exdev` says that the vnodes are not of one mount. -/
def ufsRename (exdev : Bool) (fdvp tdvp : ι) (rounds : List (Round ι)) : CallEnd × Ledger ι :=
  if exdev then (.returned, .empty) else renameRounds fdvp tdvp rounds .empty

/-! ### `ffs_pageout` -/

/-- What `ffs_pageout` reads: the request, the size of the file, and what
`cluster_pageout` gives. -/
structure Pageout where
  fsRonly : Bool
  fOffset : Int
  fSize : Int
  clusterPageout : Int

/-- `ffs_pageout` on the inode `ip`, which the caller holds as `locktype` says. The
lock is the same on every way out. -/
def ffsPageout (ip : ι) (locktype : Option Hold) (p : Pageout) : Int × Ledger ι :=
  let l : Ledger ι := .empty
  if p.fsRonly then (30, l)
  else
    let l := match locktype with
      | none => l.lock ip
      | some .shared => l.upgrade ip
      | some .exclusive => l
    if p.fOffset < 0 ∨ p.fOffset ≥ p.fSize then (22, l)
    else if p.clusterPageout ≠ 0 then (p.clusterPageout, l)
    else (0, l)

end UfsX.Ufs
