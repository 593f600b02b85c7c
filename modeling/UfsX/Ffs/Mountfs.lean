import UfsX.Lib.Heap
import UfsX.Compat.Suspend
import UfsX.Ffs.Superblock

/-!
# `UfsX.Ffs.Mountfs`: mounting a file system

`ffs_mountfs` (`ffs_vfsops.c`) with `ffs_sbget` under it, where any read can fail, and
`ffs_oldfscompat_read`. A heap records what is allocated and freed; the objects have names,
since each is allocated once. `vfs_op_enter` is the one of `mount_subr.c`, which takes
`mnt_lock` first.

Pointers that nothing is read through are `true` when they are set. Quotas, `fs_active`
and the log are left out.
-/

set_option autoImplicit false

namespace UfsX.Ffs

open UfsX.Lib UfsX.Compat

def FS_UNCLEAN : Nat := 0x1
def FS_DOSOFTDEP : Nat := 0x2
def FS_SUJ : Nat := 0x8
def FS_GJOURNAL : Nat := 0x40
def FS_TRIM : Nat := 0x400
def FS_44INODEFMT : Int := 2
def MAXMNTLEN : Nat := 468
def AVFILESIZ : Nat := 16384
def AFPDIR : Nat := 64

namespace Sb

variable (fs : Sb)

def oldTime : Nat := fs.read32 32
def oldSize : Nat := fs.read32 36
def oldDsize : Nat := fs.read32 40
def bmask : Nat := fs.read32 72
def fmask : Nat := fs.read32 76
def nindir : Nat := fs.read32 116
def id : Nat × Nat := (fs.read32 144, fs.read32 148)
def oldCsaddr : Nat := fs.read32 152
def cgsize : Nat := fs.read32 160
def clean : UInt8 := fs 209
def maxbsize : Nat := fs.read32 860
def pendingblocks : Nat := fs.read64 1104
def pendinginodes : Nat := fs.read32 1112
def avgfilesize : Nat := fs.read32 1196
def avgfpdir : Nat := fs.read32 1200
def maxsymlinklen : Nat := fs.read32 1320
def oldInodefmt : Int := toI32 (fs.read32 1324)
def maxfilesize : Nat := fs.read64 1328

def setClean (v : UInt8) : Sb := fs.write8 209 v
def setRonly (v : Bool) : Sb := fs.write8 210 (if v then 1 else 0)
def setOldFlags (v : Nat) : Sb := fs.write8 211 (UInt8.ofNat v)
def setMaxbsize (v : Nat) : Sb := fs.write32 860 v
def setSize (v : Nat) : Sb := fs.write64 1080 v
def setDsize (v : Nat) : Sb := fs.write64 1088 v
def setCsaddr (v : Nat) : Sb := fs.write64 1096 v
def setPendingblocks (v : Nat) : Sb := fs.write64 1104 v
def setPendinginodes (v : Nat) : Sb := fs.write32 1112 v
def setAvgfilesize (v : Nat) : Sb := fs.write32 1196 v
def setAvgfpdir (v : Nat) : Sb := fs.write32 1200 v
def setMtime (v : Nat) : Sb := fs.write64 1208 v
def setQbmask (v : Nat) : Sb := fs.write64 1336 v
def setQfmask (v : Nat) : Sb := fs.write64 1344 v

/-- `fs_fsmnt`, padded with zeros. -/
def setFsmnt (name : List UInt8) : Sb :=
  Mem.copy (Mem.zero fs 212 MAXMNTLEN) 212 (fun i => name.getD i 0) 0 (min name.length (MAXMNTLEN - 1))

end Sb

/-! ### `ffs_oldfscompat_read` -/

/-- An `int32_t` in 64 bits. -/
def signExtend (v : Nat) : Nat := (toU64 (toI32 v)).toNat

/-- `fs_flags` and `fs_sblockloc` at their new places. -/
def Sb.moveFlags (fs : Sb) (sblockloc : Nat) : Sb :=
  if fs.oldFlags &&& FS_FLAGS_UPDATED = 0 then
    let fs := fs.setFlags fs.oldFlags
    let fs := fs.setOldFlags (fs.oldFlags ||| FS_FLAGS_UPDATED)
    fs.setSblockloc sblockloc
  else fs

/-- The wider fields of a superblock of UFS1. -/
def Sb.widen (fs : Sb) : Sb :=
  if fs.magic = FS_UFS1_MAGIC ∧ fs.maxbsize ≠ fs.bsize then
    let fs := fs.setMaxbsize fs.bsize
    let fs := fs.setTime (signExtend fs.oldTime)
    let fs := fs.setSize (signExtend fs.oldSize)
    let fs := fs.setDsize (signExtend fs.oldDsize)
    let fs := fs.setCsaddr (signExtend fs.oldCsaddr)
    -- `fs_cstotal` from `fs_old_cstotal`
    let fs : Sb := fs.write64 1008 (signExtend (fs.read32 192))
    let fs : Sb := fs.write64 1016 (signExtend (fs.read32 196))
    let fs : Sb := fs.write64 1024 (signExtend (fs.read32 200))
    fs.write64 1032 (signExtend (fs.read32 204))
  else fs

/-- The masks and the file size of an inode format before 4.4BSD. -/
def Sb.oldInodes (fs : Sb) : Sb :=
  if fs.magic = FS_UFS1_MAGIC ∧ fs.oldInodefmt < FS_44INODEFMT then
    let fs := fs.setMaxfilesize (2 ^ 31 - 1)
    let fs := fs.setQbmask (signExtend (2 ^ 32 - 1 - fs.bmask))
    fs.setQfmask (signExtend (2 ^ 32 - 1 - fs.fmask))
  else fs

/-- `ffs_oldfscompat_read(fs, ump, sblockloc)`, with `debug.bigcgs`: the superblock, and
`um_savedmaxfilesize`, which was `saved`. -/
def ffsOldfscompatRead (bigcgs : Bool) (saved : Nat) (fs : Sb) (sblockloc : Nat) : Sb × Nat :=
  let fs := fs.moveFlags sblockloc
  let fs := fs.widen
  let fs := fs.oldInodes
  let (fs, saved) :=
    if fs.magic = FS_UFS1_MAGIC then
      let maxfilesize := (0x80000000 * signExtend fs.bsize + (2 ^ 64 - 1)) % 2 ^ 64
      (if maxfilesize < fs.maxfilesize then fs.setMaxfilesize maxfilesize else fs, fs.maxfilesize)
    else (fs, saved)
  let fs := if fs.avgfilesize = 0 then fs.setAvgfilesize AVFILESIZ else fs
  let fs := if fs.avgfpdir = 0 then fs.setAvgfpdir AFPDIR else fs
  let fs := if bigcgs then (fs.setSaveCgsize fs.cgsize).setCgsize fs.bsize else fs
  (fs, saved)

namespace Mountfs

def EPERM : Nat := 1

/-- What is allocated on the way. -/
inductive Obj where
  /-- The buffer for the superblock at a place of the device, and the one for a piece of the
  summary table. -/
  | sb (loc : Nat)
  | buf (i : Nat)
  | si | csp | ump | compat | mntLock | ihashLock | vgetCritical | vallocCritical | umLock | trimTq | trimhash
  deriving DecidableEq, Repr

/-- The device, the mount point, and what the rest of the kernel answers. -/
structure Request where
  dev : Mem
  /-- The error of a read at a place of the device, or 0. -/
  readErr : Nat → Nat
  devblocksize : Nat
  /-- `MNT_RDONLY`, `MNT_ROOTFS`, `vfs_isforce` and `FREEBSD_MNT_UNTRUSTED` -/
  rdonly : Bool
  rootfs : Bool
  force : Bool
  untrusted : Bool
  /-- `vnode_specrdev(devvp)` -/
  specrdev : Nat
  mntonname : List UInt8
  /-- `vfs_getvfs` knows a mount with this `f_fsid`; `vfs_getnewfsid` makes another. -/
  getvfs : Nat × Nat → Bool
  newfsid : Nat × Nat
  /-- `DK_FEATURE_UNMAP`, when `VNOP_IOCTL` works. -/
  features : Option Bool
  bigcgs : Bool
  /-- `softdep_mount`; without `SOFTUPDATES` it returns 0. -/
  softdepMount : Nat
  timeSeconds : Nat

/-- `um_fstype`, and which `ffs_balloc` goes with it. -/
inductive Fstype where
  | ufs1
  | ufs2
  deriving DecidableEq, Repr

/-- `struct ufsmount` -/
structure Ufsmount (τ : Type*) where
  devbsize : Nat
  mountp : Bool
  compat : Bsdmount τ
  /-- `um_compat->mnt_lock` -/
  mntLock : Bool
  dev : Option Nat
  ihashLock : Bool
  devvp : Bool
  fstype : Fstype
  /-- `um_fs` -/
  fs : Option Obj
  nindir : Nat
  bptrtodb : Nat
  seqinc : Nat
  /-- `um_lock` -/
  lock : Bool
  fsckpid : Int
  savedmaxfilesize : Nat
  /-- `UM_CANDELETE` -/
  candelete : Bool
  trimTq : Bool
  trimhash : Bool
  vgetCritical : Bool
  vallocCritical : Bool
  /-- The file system id in `um_fsfail_task`. -/
  fsfailTask : Option (Nat × Nat)
  balloc : Option Fstype
  /-- `um_blkatoff` to `um_snapgone`, assigned together. -/
  ops : Bool
  /-- `um_check_blkno` -/
  checkBlkno : Bool
  deriving DecidableEq, Repr

/-- What `ffs_mountfs` works on. The fields from `fsprivate` on are those of the mount. -/
structure State (τ : Type*) where
  heap : Heap Obj
  /-- The local `fs`: its place on the device, and what is in it. -/
  fs : Option (Nat × Sb)
  csp : Mem
  ump : Option (Ufsmount τ)
  dev : Mem
  fsprivate : Option Obj
  fsid : Nat × Nat
  maxsymlen : Nat
  isLocal : Bool
  iosize : Nat

inductive Outcome (τ : Type*) where
  | ret (error : Nat) (s : State τ)
  | panic

/-! ### `ffs_sbget` with its memory -/

variable (q : Request)

/-- The loop over `sblock_try`. `ffs_use_bread` leaves its buffer behind when it fails. -/
def search [SysParam] : List Nat → Heap Obj → ReadResult (Nat × Sb) × Heap Obj
  | [], h => (.error ENOENT, h)
  | loc :: locs, h =>
      let h := h.alloc (.sb loc)
      let r := if q.readErr loc ≠ 0 then .error (q.readErr loc) else readsuper .kernel q.dev loc false (!q.rootfs)
      match r with
      | .error e =>
          let h := h.free (.sb loc)
          if e = ENOENT then search locs h else (.error e, h)
      | .panic => (.panic, h)
      | .ignored fs => (.ignored (loc, fs), h)
      | .ok fs => (.ok (loc, fs), h)

/-- The loop over the summary table. -/
def readPieces (loc : Nat) (fs : Sb) : List Nat → Nat → Mem → Heap Obj → ReadResult Mem × Heap Obj
  | [], _, csp, h => (.ok csp, h)
  | i :: is, space, csp, h =>
      let h := h.alloc (.buf i)
      if q.readErr (fs.pieceLoc i) ≠ 0 then
        let h := h.free (.buf i)
        let h := h.free .csp
        let h := h.free .si
        (.error (q.readErr (fs.pieceLoc i)), h.free (.sb loc))
      else
        let buf := readfunc .kernel q.dev (fs.pieceLoc i)
        readPieces loc fs is (space + fs.pieceSize i) (csp.copy space buf 0 (fs.pieceSize i)) (h.free (.buf i))

/-- What `ffs_sbget` brings. -/
structure Got where
  loc : Nat
  fs : Sb
  csp : Mem

def readSummary (loc : Nat) (fs : Sb) (h : Heap Obj) : ReadResult Got × Heap Obj :=
  let h := h.alloc .si
  let h := h.alloc .csp
  let (r, h) := readPieces q loc fs fs.pieces 0 (fun _ => 0) h
  (r.map fun csp => ⟨loc, fs, csp⟩, h)

/-- `ffs_sbget` at `STDSB`, or at `STDSB_NOHASHFAIL` for the root file system. -/
def ffsSbget [SysParam] (h : Heap Obj) : ReadResult Got × Heap Obj :=
  match search q sblockTry h with
  | (.error e, h) => (.error e, h)
  | (.panic, h) => (.panic, h)
  | (.ignored (loc, fs), h) => readSummary q loc fs h
  | (.ok (loc, fs), h) => readSummary q loc fs h

/-! ### `ffs_mountfs` -/

variable {τ : Type*}

def start : State τ where
  heap := .empty
  fs := none
  csp := fun _ => 0
  ump := none
  dev := q.dev
  fsprivate := none
  fsid := (0, 0)
  maxsymlen := 0
  isLocal := false
  iosize := 0

/-- `out:` -/
def out (error : Nat) (s : State τ) : Outcome τ :=
  let h := s.heap
  let h :=
    match s.fs with
    | some (loc, _) => ((h.free .csp).free .si).free (.sb loc)
    | none => h
  match s.ump with
  | some ump =>
      let h := if ump.mntLock then h.free .mntLock else h
      let h := h.free .compat
      let h := if ump.ihashLock then h.free .ihashLock else h
      let h := if ump.vgetCritical then h.free .vgetCritical else h
      let h := if ump.vallocCritical then h.free .vallocCritical else h
      let h := h.free .umLock
      .ret error { s with heap := h.free .ump, fsprivate := none }
  | none => .ret error { s with heap := h }

/-- `FS_UNCLEAN` says whether the file system was clean. -/
def markUnclean (fs : Sb) : Sb :=
  let fs := fs.setFlags (fs.flags &&& (0xffffffff - FS_UNCLEAN))
  if fs.clean = 0 then fs.setFlags (fs.flags ||| FS_UNCLEAN) else fs

/-- A file system that is not clean is mounted for reading, by force, or with soft updates. -/
def denied (fs : Sb) : Bool :=
  fs.clean = 0 && !(q.rdonly || q.force ||
    (fs.flags &&& (FS_SUJ ||| FS_NEEDSFSCK) = 0 && fs.flags &&& FS_DOSOFTDEP ≠ 0))

def clearPending (fs : Sb) : Sb :=
  if fs.pendingblocks ≠ 0 ∨ fs.pendinginodes ≠ 0 then (fs.setPendingblocks 0).setPendinginodes 0 else fs

def gjournal (fs : Sb) : Bool := fs.flags &&& FS_GJOURNAL ≠ 0

/-- `struct bsdmount` with zeros. -/
def newBsdmount : Bsdmount τ := ⟨false, false, false, 0, none, 0, 0, 0, 0⟩

/-- `UM_CANDELETE` -/
def canDelete (fs : Sb) : Bool := fs.flags &&& FS_TRIM ≠ 0 && q.features == some true

/-- `struct ufsmount` is allocated with zeros; these are its fields at the end. -/
def newUfsmount (loc : Nat) (fs : Sb) (saved : Nat) : Ufsmount τ where
  devbsize := 0
  mountp := true
  compat := newBsdmount
  mntLock := false
  dev := some q.specrdev
  ihashLock := true
  devvp := true
  fstype := if fs.magic = FS_UFS1_MAGIC then .ufs1 else .ufs2
  fs := some (.sb loc)
  nindir := fs.nindir
  bptrtodb := fs.fsbtodbShift
  seqinc := fs.frag
  lock := true
  fsckpid := 0
  savedmaxfilesize := saved
  candelete := canDelete q fs
  trimTq := canDelete q fs
  trimhash := canDelete q fs
  vgetCritical := true
  vallocCritical := true
  fsfailTask := none
  balloc := some (if fs.magic = FS_UFS1_MAGIC then .ufs1 else .ufs2)
  ops := true
  checkBlkno := q.untrusted

/-- From the allocation of `struct ufsmount` to the place where the read-write mount parts. -/
def build (g : Got) (fs : Sb) (h : Heap Obj) : State τ × Sb × Ufsmount τ :=
  let h := ((((h.alloc .ump).alloc .compat).alloc .ihashLock).alloc .vgetCritical).alloc .vallocCritical
  let h := h.alloc .umLock
  let (fs, saved) := ffsOldfscompatRead q.bigcgs 0 fs fs.sblockloc
  let fs := fs.setRonly q.rdonly
  let h := if canDelete q fs then (h.alloc .trimTq).alloc .trimhash else h
  let ump : Ufsmount τ := newUfsmount q g.loc fs saved
  let fsid := if fs.id.1 = 0 ∨ fs.id.2 = 0 ∨ q.getvfs fs.id = true then q.newfsid else fs.id
  let fs := fs.setFsmnt q.mntonname
  let s :=
    { (start q : State τ) with
      heap := h
      fs := some (g.loc, fs)
      csp := g.csp
      ump := some ump
      fsprivate := some .ump
      fsid
      maxsymlen := fs.maxsymlinklen
      isLocal := true
      iosize := fs.bsize }
  (s, fs, ump)

/-- What the superblock code keeps of a mount. -/
def Ufsmount.sb (bigcgs : Bool) (ump : Ufsmount τ) : SbMount := ⟨ump.devbsize, bigcgs, ump.savedmaxfilesize⟩

/-- The end: `um_fsfail_task`. -/
def finish (s : State τ) (ump : Ufsmount τ) : Outcome τ :=
  .ret 0 { s with ump := some { ump with fsfailTask := some s.fsid } }

/-- With a superblock. -/
def mountSb (g : Got) (h : Heap Obj) : Outcome τ :=
  let fs := markUnclean g.fs
  if denied q fs then out EPERM { start q with heap := h, fs := some (g.loc, fs), csp := g.csp }
  else
    let fs := clearPending fs
    if gjournal fs then
      -- returns without `out`
      .ret EINVAL { start q with heap := h, fs := some (g.loc, fs), csp := g.csp }
    else
      let (s, fs, ump) := build q g fs h
      if q.rdonly then finish s ump
      else
        let fs := fs.setMtime q.timeSeconds
        let s := { s with fs := some (g.loc, fs) }
        if fs.flags &&& FS_DOSOFTDEP ≠ 0 ∧ q.softdepMount ≠ 0 then out q.softdepMount s
        else
          let fs := (fs.setFmod 1).setClean 0
          match ffsSbupdate (ump.sb q.bigcgs) fs g.csp q.timeSeconds q.dev with
          | none => .panic
          | some dev => finish { s with fs := some (g.loc, fs), dev } ump

/-- `ffs_mountfs(devvp, mp, context)` -/
def ffsMountfs [SysParam] : Outcome τ :=
  -- a remainder by 0
  if q.devblocksize = 0 then .panic
  else if SBLOCKSIZE % q.devblocksize ≠ 0 then out EINVAL (start q)
  else
    match ffsSbget q .empty with
    | (.error e, h) => out e { start q with heap := h }
    | (.panic, _) => .panic
    | (.ignored g, h) => mountSb q g h
    | (.ok g, h) => mountSb q g h

/-! ### What others do with a mount -/

/-- `vfs_op_enter`: `none` where it takes a null lock, or panics. -/
def vfsOpEnter (ump : Ufsmount τ) : Option (Bsdmount τ) := if ump.mntLock then ump.compat.opEnter else none

/-- `btodb(size, ump->um_devbsize)`, the blocks that `ffs_alloc`, `ffs_realloccg`,
`ffs_balloc` and `ffs_truncate` add to `i_blocks` or take from it. -/
def delta (ump : Ufsmount τ) (size : Nat) : Option Nat := (ump.sb false).btodb size

end Mountfs

end UfsX.Ffs
