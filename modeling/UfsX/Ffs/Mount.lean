import UfsX.Compat.Suspend

/-!
# `UfsX.Ffs.Mount`: updating a mount

The part of `ffs_mount` (`ffs_vfsops.c`) that serves an update of a mounted file system:
from read-write to read-only, the reload, from read-only to read-write, and the start and
the end of a checker. What the functions return that it calls comes in from outside.

`flushed` and `writes` record what has been done. A superblock counts as written where
`ffs_sbupdate` returns 0. Soft updates and snapshots are compiled out.
-/

set_option autoImplicit false

namespace UfsX.Ffs.Mount

open UfsX.Compat (Bsdmount)

def EPERM : Int := 1
def EINVAL : Int := 22

/-- A superblock on the device: its `fs_clean`, and whether the last `ffs_flushfiles` of the
call before it succeeded. -/
structure Written where
  clean : Bool
  flushed : Bool
  deriving DecidableEq, Repr

/-- The fields of the superblock that the reload brings from the device. -/
structure FsFlags where
  /-- `fs_clean` -/
  clean : Bool
  /-- `FS_UNCLEAN`, `FS_NEEDSFSCK`, `FS_SUJ` and `FS_DOSOFTDEP` of `fs_flags`. -/
  unclean : Bool
  needsfsck : Bool
  suj : Bool
  dosoftdep : Bool
  deriving DecidableEq, Repr

structure State (τ : Type*) where
  fs : FsFlags
  /-- `fs_ronly` and `fs_fmod` -/
  ronly : Bool
  fmod : Bool
  /-- `um_fsckpid` -/
  fsckpid : Int
  /-- `MNT_RDONLY` and `MNT_ASYNC` -/
  rdonly : Bool
  async : Bool
  bsd : Bsdmount τ
  flushed : Bool
  writes : List Written
  deriving DecidableEq

/-- The request, and what the functions return that are called on the way. -/
structure Request where
  /-- `WANTRDWR` is defined in the build. -/
  wantrdwr : Bool
  /-- `copyin` of the arguments, and `VNOP_IOCTL`. -/
  copyin : Bool
  ioctl : Int
  /-- `ufs_mntflags`: both `FREEBSD_MNT_ACLS` and `FREEBSD_MNT_NFS4ACLS`. -/
  bothAcls : Bool
  /-- `ufs_fsckpid` -/
  fsckpid : Int
  /-- `vfs_isforce`, `vfs_isreload` and `vfs_issynchronous` -/
  force : Bool
  reload : Bool
  synchronous : Bool
  /-- `MOUNTEDSOFTDEP` -/
  softdep : Bool
  /-- `ffs_flushfiles` and `ffs_sbupdate` at the end of a checker. -/
  checkerFlush : Int
  checkerUpdate : Int
  /-- `ffs_flushfiles` and `ffs_sbupdate` on the way to read-only. -/
  flush : Int
  downUpdate : Int
  /-- `ffs_reload`, and what it has made of the superblock. -/
  reloadErr : Int
  reloaded : FsFlags
  /-- `ffs_sbupdate` on the way to read-write. -/
  upUpdate : Int
  /-- `ffs_sbupdate` when a checker starts. -/
  startUpdate : Int
  /-- `vnode_specrdev` of the two device vnodes is the same. -/
  sameDevice : Bool

/-- `ffs_mount` goes on (in the end: returns 0), returns an error, or panics. -/
inductive Outcome (τ : Type*) where
  | go (s : State τ)
  | error (e : Int) (s : State τ)
  | panic (s : State τ)

def Outcome.andThen {τ : Type*} : Outcome τ → (State τ → Outcome τ) → Outcome τ
  | .go s, f => f s
  | o, _ => o

variable {τ : Type*} (q : Request) (s : State τ)

/-- `ffs_flushfiles` with the value `err`. -/
def State.flush (err : Int) : State τ := { s with flushed := err = 0 }

/-- `ffs_sbupdate` with `MNT_WAIT` and the value `err`. -/
def State.sbupdate (err : Int) : State τ :=
  if err = 0 then { s with writes := ⟨s.fs.clean, s.flushed⟩ :: s.writes, fmod := false }
  else { s with fmod := false }

/-- The arguments. Without `WANTRDWR` every mount is one for reading. -/
def readArgs : Outcome τ :=
  if q.ioctl ≠ 0 then .panic s
  else
    let s := if q.wantrdwr then s else { s with rdonly := true }
    -- without arguments a null pointer is used
    if ¬ q.copyin then .panic s
    else if q.bothAcls then .error EINVAL s
    else .go s

/-- The end of a checker. -/
def checkerEnd : Outcome τ :=
  if q.fsckpid = -1 ∧ 0 < s.fsckpid then
    let s := s.flush q.checkerFlush
    if q.checkerFlush ≠ 0 then .error q.checkerFlush s
    else
      let s := s.sbupdate q.checkerUpdate
      if q.checkerUpdate ≠ 0 then .error q.checkerUpdate s
      else .go { s with fsckpid := 0 }
  else .go s

/-- From read-write to read-only. The error of the flush is overwritten. -/
def downgrade : Outcome τ :=
  if ¬ s.ronly ∧ s.rdonly then
    let s := s.flush q.flush
    let s := if ¬ s.fs.unclean ∧ ¬ s.fs.needsfsck then { s with fs := { s.fs with clean := true } } else s
    let s := s.sbupdate q.downUpdate
    if q.downUpdate ≠ 0 then
      .error q.downUpdate { s with ronly := false, fs := { s.fs with clean := false } }
    else .go { s with ronly := true, rdonly := true }
  else .go s

/-- `ffs_reload` -/
def reload : Outcome τ :=
  if q.reload then
    let s := { s with fs := q.reloaded }
    if q.reloadErr ≠ 0 then .error q.reloadErr s else .go s
  else .go s

/-- `vfs_write_resume`. On a suspended mount it clears the suspension and goes on to
`VFS_SUSP_CLEAN`, which uses a null pointer. Its assertion that the caller owns the suspension
is left out: such a call panics either way. -/
def resume (next : Outcome τ) (s : State τ) : Outcome τ :=
  if s.bsd.suspend then .panic { s with bsd := s.bsd.unsuspend } else next

/-- A file system that is not clean goes read-write only if asked to by force, or with soft
updates. -/
def denied (f : FsFlags) : Bool := !f.clean && !(q.force || (!f.suj && !f.needsfsck && f.dosoftdep))

/-- From read-only to read-write. -/
def upgrade : Outcome τ :=
  if s.ronly ∧ ¬ s.rdonly then
    let s := { s with fs := { s.fs with unclean := !s.fs.clean } }
    if denied q s.fs then .error EPERM s
    else
      let asyncOff := q.softdep && !q.synchronous
      let s := { s with ronly := false, rdonly := false, async := s.async && !asyncOff,
                        fs := { s.fs with clean := false } }
      let s := s.sbupdate q.upUpdate
      if q.upUpdate ≠ 0 then
        let s := { s with ronly := true, rdonly := true, async := s.async || asyncOff }
        resume (.error q.upUpdate s) s
      else resume (.go s) s
  else .go s

/-- The start of a checker. -/
def checkerStart : Outcome τ :=
  let s := if q.softdep then { s with async := false } else s
  if 0 < q.fsckpid then
    if s.fsckpid ≠ 0 then .error EINVAL s
    else .go ({ s with fsckpid := q.fsckpid, fmod := true, fs := { s.fs with clean := false } }.sbupdate q.startUpdate)
  else .go s

def checkDevice : Outcome τ := if q.sameDevice then .go s else .error EINVAL s

/-- `ffs_mount` with `MNT_UPDATE`. -/
def ffsMountUpdate : Outcome τ :=
  ((((((readArgs q { s with flushed := false, writes := [] }).andThen (checkerEnd q)).andThen
    (downgrade q)).andThen (reload q)).andThen (upgrade q)).andThen (checkerStart q)).andThen (checkDevice q)

end UfsX.Ffs.Mount
