import UfsX.Ffs.Fs

/-!
# `UfsX.Ffs.Fsck`: updates of a mounted file system by `fsck`

`sysctl_ffs_fsck` (`ffs_alloc.c`). What it calls and what it changes are events, in the
order of the source; what the functions it calls give back comes from an `FsckEnv`. Soft
updates are compiled out. Signed arithmetic wraps.
-/

set_option autoImplicit false

namespace UfsX.Ffs.Fsck

open UfsX.Lib
open UfsX.Ffs (Fs)

def FFS_CMD_VERSION : Int := 0x19790518

def EINVAL : Int := 22
def EROFS : Int := 30
def ENOTSUP : Int := 45
def EBADRPC : Int := 72
def ERPCMISMATCH : Int := 73

def IFDIR : Nat := 0o040000
def IFREG : Nat := 0o100000

/-- `struct fsck_cmd` without `handle`, which is only passed on, and `spare`. -/
structure FsckCmd where
  version : Int
  value : Int
  size : Int
  value_ge : -2 ^ 63 ≤ value
  value_lt : value < 2 ^ 63
  size_ge : -2 ^ 63 ≤ size
  size_lt : size < 2 ^ 63

def sizeofFsckCmd : Nat := 32

/-- The commands, by `oid_number`. -/
inductive FfsCommand where
  | adjRefcnt
  | adjBlkcnt
  | blkFree
  | dirFree
  | fileFree
  | setFlags
  | adjNdir
  | adjNbfree
  | adjNifree
  | adjNffree
  | adjNumclusters
  | setCwd
  | setDotdot
  | unlink
  | setSize
  | invalid
  deriving DecidableEq, Repr

def FfsCommand.ofOid : Int → FfsCommand
  | 1 => .adjRefcnt
  | 2 => .adjBlkcnt
  | 3 => .blkFree
  | 4 => .dirFree
  | 5 => .fileFree
  | 6 => .setFlags
  | 7 => .adjNdir
  | 8 => .adjNbfree
  | 9 => .adjNifree
  | 10 => .adjNffree
  | 11 => .adjNumclusters
  | 12 => .setCwd
  | 13 => .setDotdot
  | 14 => .unlink
  | 17 => .setSize
  | _ => .invalid

/-- The totals of `fs_cstotal` that can be adjusted. -/
inductive Total where
  | ndir
  | nbfree
  | nifree
  | nffree
  | numclusters
  deriving DecidableEq, Repr

/-- What `vnode_vtype` says, as far as it matters. -/
inductive HandleType where
  | vreg
  | vdir
  | other
  deriving DecidableEq, Repr

/-- What the functions that are called give back, and what is read of the mount. A vnode is
its address; `none` is a null pointer. -/
structure FsckEnv where
  /-- `req->newlen` -/
  newlen : Nat
  sysctlIn : Int
  fileVnode : Int
  vtype : HandleType
  /-- `vn_start_write`: the error, and what is in `mp` afterwards. -/
  startWrite : Int
  mp : Option Nat
  /-- `f_fstypename` is "ufsX". -/
  ufsX : Bool
  rdonly : Bool
  /-- `ump->um_fsckpid == proc_pid(proc)` -/
  fsckpid : Bool
  /-- `ffs_vget`: the error, or the vnode. -/
  vget : Except Int Nat
  update : Int
  /-- `ffs_freefile`, call by call. -/
  freefile : Nat → Int
  /-- `vfs_context_cwd`, and `vnode_get` of it. -/
  cwd : Nat
  vnodeGet : Int
  dirrewrite : Int
  /-- `fs_flags`, `fs_cstotal` and inodes are only changed, so that they are not here. -/
  fs : Fs

inductive FsckEvent where
  /-- `file_vnode_withvid` succeeded. -/
  | fileVnode
  | fileDrop
  | startWrite (error : Int)
  | finishedWrite (mp : Option Nat)
  /-- `ffs_vget` or `vnode_get` succeeded. -/
  | vnodeGot (vp : Nat)
  | vnodePut (vp : Nat)
  | setFlags (value : Int)
  | clearFlags (value : Int)
  | adjRefcnt (vp : Nat) (size : Int)
  | adjBlkcnt (vp : Nat) (size : Int)
  | setSize (vp : Nat) (size : Int)
  | update (vp : Nat)
  | freefile (ino : Int) (filetype : Nat)
  | blkreleaseStart
  | blkfree (blkno size : Int)
  | blkreleaseFinish
  | adjust (total : Total) (value : Int)
  | dirrewrite (dvp fdvp : Nat) (ino : Int)
  | cachePurge (vp : Nat)
  deriving DecidableEq, Repr

section Commands

variable (env : FsckEnv) (cmd : FsckCmd)

/-- The commands that change one inode. -/
def fsckInode (change : Nat → FsckEvent) : Int × List FsckEvent :=
  match env.vget with
  | .error error => (error, [])
  | .ok vp => (env.update, [.vnodeGot vp, change vp, .update vp, .vnodePut vp])

/-- The loop of `FFS_DIR_FREE` and `FFS_FILE_FREE`, from call `k` on. `ino_t` has 32
bits. -/
def freefileLoop (filetype : Nat) : Nat → Nat → Int → Int × List FsckEvent
  | 0, _, _ => (0, [])
  | size + 1, k, value =>
      let call := .freefile (toU32 value) filetype
      if env.freefile k ≠ 0 then (env.freefile k, [call])
      else
        let (error, events) := freefileLoop filetype size (k + 1) (toI64 (value + 1))
        (error, call :: events)

/-- The loop of `FFS_BLK_FREE`. A piece is never empty. -/
def blkfreeLoop (fs : Fs) (blkno blkcnt : Int) (blksize : { n : Int // 0 < n }) :
    List FsckEvent :=
  if 0 < blkcnt then
    let size := if blkcnt < blksize then blkcnt else blksize
    .blkfree blkno (size * fs.fsize) ::
      blkfreeLoop fs (toI64 (blkno + size)) (blkcnt - size) ⟨fs.frag, by simp [Fs.frag]⟩
  else []
termination_by blkcnt.toNat
decreasing_by
  have := blksize.property
  split <;> omega

/-- `fs->fs_frag - (blkno % fs->fs_frag)` -/
def firstBlksize (fs : Fs) (blkno : Int) : { n : Int // 0 < n } :=
  ⟨fs.frag - blkno.tmod fs.frag, by
    have hpos : (0 : Int) < fs.frag := by simp [Fs.frag]
    have hlt := Int.tmod_lt_of_pos blkno hpos
    omega⟩

/-- `FFS_SET_DOTDOT` -/
def fsckSetDotdot : Int × List FsckEvent :=
  match env.vget with
  | .error error => (error, [])
  | .ok fdvp =>
      if env.vnodeGet ≠ 0 then (env.vnodeGet, [.vnodeGot fdvp, .vnodePut fdvp])
      else
        (env.dirrewrite,
          [.vnodeGot fdvp, .vnodeGot env.cwd, .dirrewrite env.cwd fdvp cmd.size,
            .cachePurge fdvp, .cachePurge env.cwd, .vnodePut env.cwd, .vnodePut fdvp])

/-- The `switch`, with the error it leaves. -/
def fsckSwitch : FfsCommand → Int × List FsckEvent
  | .setFlags => (0, [if cmd.size > 0 then .setFlags cmd.value else .clearFlags cmd.value])
  | .adjRefcnt => fsckInode env fun vp => .adjRefcnt vp cmd.size
  | .adjBlkcnt => fsckInode env fun vp => .adjBlkcnt vp cmd.size
  | .setSize => fsckInode env fun vp => .setSize vp cmd.size
  | .dirFree => freefileLoop env IFDIR cmd.size.toNat 0 cmd.value
  | .fileFree => freefileLoop env IFREG cmd.size.toNat 0 cmd.value
  | .blkFree =>
      (0, .blkreleaseStart ::
        (blkfreeLoop env.fs cmd.value cmd.size (firstBlksize env.fs cmd.value) ++
          [.blkreleaseFinish]))
  | .adjNdir => (0, [.adjust .ndir cmd.value])
  | .adjNbfree => (0, [.adjust .nbfree cmd.value])
  | .adjNifree => (0, [.adjust .nifree cmd.value])
  | .adjNffree => (0, [.adjust .nffree cmd.value])
  | .adjNumclusters => (0, [.adjust .numclusters cmd.value])
  | .setCwd => (ENOTSUP, [])
  | .setDotdot => fsckSetDotdot env cmd
  -- `mp = NULL` is compiled out
  | .unlink => (ENOTSUP, [.finishedWrite env.mp])
  | .invalid => (EINVAL, [])

/-- From `vn_start_write` on. -/
def fsckStarted (oid : Int) : Int × List FsckEvent :=
  if env.mp = none ∨ env.ufsX = false then (EINVAL, [.finishedWrite env.mp, .fileDrop])
  else if env.rdonly = true ∧ env.fsckpid = false then
    (EROFS, [.finishedWrite env.mp, .fileDrop])
  else
    let (error, events) := fsckSwitch env cmd (.ofOid oid)
    (error, events ++ [.fileDrop, .finishedWrite env.mp])

/-- `sysctl_ffs_fsck`: the value it returns, and what it has done. -/
def sysctlFfsFsck (oid : Int) : Int × List FsckEvent :=
  if sizeofFsckCmd < env.newlen then (EBADRPC, [])
  else if env.sysctlIn ≠ 0 then (env.sysctlIn, [])
  else if cmd.version ≠ FFS_CMD_VERSION then (ERPCMISMATCH, [])
  else if env.fileVnode ≠ 0 then (env.fileVnode, [])
  else if env.vtype = .other then (EINVAL, [.fileVnode, .fileDrop])
  else
    -- the result of `vn_start_write` is not looked at
    let (error, events) := fsckStarted env cmd oid
    (error, .fileVnode :: .startWrite env.startWrite :: events)

end Commands

end UfsX.Ffs.Fsck
