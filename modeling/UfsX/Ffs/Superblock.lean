import UfsX.Compat.Param
import UfsX.Ffs.Cgroup
import Mathlib.Data.Int.Bitwise

/-!
# `UfsX.Ffs.Superblock`: reading and writing the superblock

`ffs_sbget`, `readsuper`, `ffs_sbput` and `ffs_calc_sbhash` are the same code in the kernel
and in libufs. Each host brings a function that reads and one that writes: `use_pread` and
`use_pwrite`, or `ffs_use_bread` and `ffs_use_bwrite`. `sbput` and `ffs_sbupdate` call
`ffs_sbput`.

A superblock is the memory of `struct fs`, and so are the device and the summary table. All
reads and writes succeed. Soft updates and the arrays behind the summary table are left out.
-/

set_option autoImplicit false

namespace UfsX.Ffs

open UfsX.Lib UfsX.Compat

def SBLOCK_FLOPPY : Nat := 0
def SBLOCK_UFS1 : Nat := 8192
def SBLOCK_UFS2 : Nat := 65536
def SBLOCK_PIGGY : Nat := 262144
def SBLOCKSIZE : Nat := 8192
def MINBSIZE : Nat := 4096

/-- What the source takes from the system's `sys/param.h`. -/
class SysParam where
  MAXBSIZE : Nat
  powerof2 : MAXBSIZE.isPowerOfTwo
  minbsize_le : MINBSIZE ≤ MAXBSIZE
  le : MAXBSIZE ≤ 2 ^ 20

theorem macos_powerof2 : (2 ^ 20).isPowerOfTwo := ⟨20, rfl⟩

theorem macos_minbsize_le : MINBSIZE ≤ 2 ^ 20 := by decide

/-- `sys/param.h` of macOS. -/
@[reducible] def SysParam.macos : SysParam := ⟨2 ^ 20, macos_powerof2, macos_minbsize_le, le_rfl⟩

def FS_UFS1_MAGIC : Nat := 0x011954
def FS_UFS2_MAGIC : Nat := 0x19540119
def FS_BAD_MAGIC : Nat := 0x19960408

def FS_NEEDSFSCK : Nat := 0x4
def FS_FLAGS_UPDATED : Nat := 0x80
def FS_METACKHASH : Nat := 0x200
def FS_SUPPORTED : Nat := 0x00FFFFFF
def CK_SUPERBLOCK : Nat := 0x1
def CK_SUPPORTED : Nat := 0x7

def STDSB : Int := -1
def STDSB_NOHASHFAIL : Int := -2

def ENOENT : Nat := 2
def EINVAL : Nat := 22
def ESTALE : Nat := 70

def sizeofFs : Nat := 1376

/-! ### `struct fs` -/

/-- `struct fs` in memory. -/
abbrev Sb : Type := Mem

namespace Sb

variable (fs : Sb)

def sblkno : Nat := fs.read32 8
def oldCgoffset : Int := toI32 (fs.read32 24)
def oldCgmask : Int := toI32 (fs.read32 28)
def ncg : Nat := fs.read32 44
def bsize : Nat := fs.read32 48
def fsize : Nat := fs.read32 52
def frag : Nat := fs.read32 56
def fsbtodbShift : Nat := fs.read32 100
def sbsize : Int := toI32 (fs.read32 104)
def cssize : Nat := fs.read32 156
def fpg : Nat := fs.read32 188
def oldFlags : Nat := (fs 211).toNat
def si : Nat := fs.read64 848
def sblockactualloc : Nat := fs.read64 992
def sblockloc : Nat := fs.read64 1000
def csaddr : Nat := fs.read64 1096
def saveCgsize : Nat := fs.read32 1204
def ckhash : Nat := fs.read32 1304
def metackhash : Nat := fs.read32 1308
def flags : Nat := fs.read32 1312
def magic : Nat := fs.read32 1372

def setOldTime (v : Nat) : Sb := fs.write32 32 v
def setCgsize (v : Nat) : Sb := fs.write32 160 v
def setFmod (v : UInt8) : Sb := fs.write8 208 v
def setSi (v : Nat) : Sb := fs.write64 848 v
def setSblockactualloc (v : Nat) : Sb := fs.write64 992 v
def setSblockloc (v : Nat) : Sb := fs.write64 1000 v
def setTime (v : Nat) : Sb := fs.write64 1072 v
def setSaveCgsize (v : Nat) : Sb := fs.write32 1204 v
def setCkhash (v : Nat) : Sb := fs.write32 1304 v
def setMetackhash (v : Nat) : Sb := fs.write32 1308 v
def setFlags (v : Nat) : Sb := fs.write32 1312 v
def setMaxfilesize (v : Nat) : Sb := fs.write64 1328 v

/-- `fsbtodb(fs, b)` -/
def fsbtodb (b : Int) : Int := toI32 (toI32 b * 2 ^ fs.fsbtodbShift)

/-- `cgsblock(fs, c)` -/
def cgsblock (c : Nat) : Int :=
  if fs.magic = FS_UFS2_MAGIC then fs.fpg * c + fs.sblkno
  else fs.fpg * c + fs.oldCgoffset * Int.land c (Int.lnot fs.oldCgmask) + fs.sblkno

/-- The values of `i` in the loops over the summary table. -/
def pieces : List Nat :=
  let blks := (fs.cssize + (fs.fsize - 1)) / fs.fsize
  (List.range ((blks + (fs.frag - 1)) / fs.frag)).map (· * fs.frag)

/-- `size` in these loops. -/
def pieceSize (i : Nat) : Nat :=
  let blks := (fs.cssize + (fs.fsize - 1)) / fs.fsize
  if blks < i + fs.frag then (blks - i) * fs.fsize else fs.bsize

/-- `dbtob(fsbtodb(fs, fs->fs_csaddr + i), DEV_BSIZE)` -/
def pieceLoc (i : Nat) : Nat := (dbtob (fs.fsbtodb (fs.csaddr + i)) DEV_BSIZE).toNat

/-- The CRC-32C of the superblock with `fs_ckhash` zeroed. -/
def crc : Nat := calculateCrc32c 0xffffffff ((fs.setCkhash 0).readBytes 0 fs.sbsize.toNat)

end Sb

/-- `ffs_calc_sbhash(fs)` -/
def ffsCalcSbhash (fs : Sb) : Nat := if fs.metackhash &&& CK_SUPERBLOCK = 0 then fs.ckhash else fs.crc

/-! ### Reading -/

/-- Where the code runs. -/
inductive Host where
  /-- libufs: `panic` does nothing. -/
  | user
  | kernel
  deriving DecidableEq, Repr

inductive ReadResult (α : Type) where
  | error (e : Nat)
  | panic
  /-- A return of 0 after a check-hash that is not the one calculated. -/
  | ignored (a : α)
  | ok (a : α)

def ReadResult.map {α β : Type} (f : α → β) : ReadResult α → ReadResult β
  | .error e => .error e
  | .panic => .panic
  | .ignored a => .ignored (f a)
  | .ok a => .ok (f a)

/-- `use_pread`, and `ffs_use_bread` with its blocks of 512 bytes. -/
def readfunc (host : Host) (dev : Mem) (loc : Nat) : Mem :=
  match host with
  | .user => fun x => dev (loc + x)
  | .kernel => fun x => dev (((btodb loc DEV_BSIZE).toNat + x / DEV_BSIZE) * DEV_BSIZE + x % DEV_BSIZE)

/-- What `readsuper` asks of a superblock before it looks at the hash. -/
def Acceptable [SysParam] (fs : Sb) (sblockloc : Nat) (isaltsblk : Bool) : Prop :=
  ((fs.magic = FS_UFS1_MAGIC ∧ (isaltsblk = true ∨ sblockloc ≤ SBLOCK_UFS1)) ∨
      (fs.magic = FS_UFS2_MAGIC ∧ (isaltsblk = true ∨ sblockloc = fs.sblockloc))) ∧
    1 ≤ fs.ncg ∧ MINBSIZE ≤ fs.bsize ∧ fs.bsize ≤ SysParam.MAXBSIZE ∧
    (sizeofFs + (DEV_BSIZE - 1)) / DEV_BSIZE * DEV_BSIZE ≤ fs.bsize ∧ fs.sbsize ≤ SBLOCKSIZE

instance [SysParam] (fs : Sb) (sblockloc : Nat) (isaltsblk : Bool) :
    Decidable (Acceptable fs sblockloc isaltsblk) :=
  inferInstanceAs (Decidable (_ ∧ _))

/-- `readsuper` clears what this kernel does not maintain. -/
def Sb.mask (fs : Sb) : Sb :=
  let fs := if fs.flags &&& FS_METACKHASH = 0 then fs.setMetackhash 0 else fs
  let fs := fs.setMetackhash (fs.metackhash &&& CK_SUPPORTED)
  fs.setFlags (fs.flags &&& FS_SUPPORTED)

/-- `readsuper(devfd, fsp, sblockloc, isaltsblk, chkhash, readfunc)` -/
def readsuper [SysParam] (host : Host) (dev : Mem) (sblockloc : Nat) (isaltsblk chkhash : Bool) : ReadResult Sb :=
  let fs : Sb := readfunc host dev sblockloc
  if fs.magic = FS_BAD_MAGIC then .error EINVAL
  else if Acceptable fs sblockloc isaltsblk then
    let fs := fs.mask
    if fs.ckhash ≠ ffsCalcSbhash fs then
      if chkhash then .error ESTALE
      else .ignored ((fs.setFlags (fs.flags ||| FS_NEEDSFSCK)).setFmod 1)
    else .ok ((fs.setSblockactualloc sblockloc).setSi 0)
  else
    match host with
    | .user => .error ENOENT
    | .kernel => .panic

def sblockTry : List Nat := [SBLOCK_UFS2, SBLOCK_UFS1, SBLOCK_FLOPPY, SBLOCK_PIGGY]

/-- The loop of `ffs_sbget` over `sblock_try`. -/
def searchSuper [SysParam] (host : Host) (dev : Mem) (chkhash : Bool) : List Nat → ReadResult Sb
  | [] => .error ENOENT
  | loc :: locs =>
      match readsuper host dev loc false chkhash with
      | .error e => if e = ENOENT then searchSuper host dev chkhash locs else .error e
      | r => r

/-- The loop of `ffs_sbget` over the summary table. -/
def getPieces (host : Host) (dev : Mem) (fs : Sb) : List Nat → Nat → Mem → Mem
  | [], _, csp => csp
  | i :: is, space, csp =>
      let buf := readfunc host dev (fs.pieceLoc i)
      getPieces host dev fs is (space + fs.pieceSize i) (csp.copy space buf 0 (fs.pieceSize i))

/-- `ffs_sbget(devfd, fsp, altsblock, filltype, readfunc)`: the superblock and the summary
table. The address of the table, `fs_si`, stays 0 here. -/
def ffsSbget [SysParam] (host : Host) (dev : Mem) (altsblock : Int) : ReadResult (Sb × Mem) :=
  let r :=
    if 0 ≤ altsblock then readsuper host dev altsblock.toNat true false
    else searchSuper host dev (decide (altsblock ≠ STDSB_NOHASHFAIL)) sblockTry
  r.map fun fs => (fs, getPieces host dev fs fs.pieces 0 fun _ => 0)

/-! ### Writing -/

/-- A function that writes `size` bytes of `buf` at `loc`; `none` is a crash. -/
abbrev Writefunc : Type := Nat → Mem → Nat → Mem → Option Mem

/-- `use_pwrite` -/
def usePwrite : Writefunc := fun loc buf size dev => some (dev.copy loc buf 0 size)

/-- The loop of `ffs_sbput` over the summary table. -/
def putPieces (write : Writefunc) (fs : Sb) (csp : Mem) : List Nat → Nat → Mem → Option Mem
  | [], _, dev => some dev
  | i :: is, space, dev => do
      let dev ← write (fs.pieceLoc i) (fun x => csp (space + x)) (fs.pieceSize i) dev
      putPieces write fs csp is (space + fs.pieceSize i) dev

/-- `ffs_sbput(devfd, fs, loc, writefunc)` at time `now`: the superblock in memory, and the
device. -/
def ffsSbput (host : Host) (write : Writefunc) (fs : Sb) (csp : Option Mem) (loc now : Nat) (dev : Mem) :
    Option (Sb × Mem) := do
  let dev ←
    match csp with
    | some csp => putPieces write fs csp fs.pieces 0 dev
    | none => some dev
  let fs := fs.setFmod 0
  let fs := fs.setTime now
  match host with
  | .user =>
      let si := fs.si
      let fs := fs.setSi 0
      let fs := fs.setCkhash (ffsCalcSbhash fs)
      let dev ← write loc fs fs.sbsize.toNat dev
      some (fs.setSi si, dev)
  | .kernel =>
      let fs := fs.setCkhash (ffsCalcSbhash fs)
      let dev ← write loc fs fs.sbsize.toNat dev
      some (fs, dev)

/-- The loop of `sbput` over the copies; `now` says when each is written. -/
def sbputCopies (now : Nat → Nat) : List Nat → Sb → Mem → Option Mem
  | [], _, dev => some dev
  | i :: is, fs, dev => do
      let loc := (dbtob (fs.fsbtodb (fs.cgsblock i)) DEV_BSIZE).toNat
      let (fs, dev) ← ffsSbput .user usePwrite (fs.setSblockactualloc loc) none loc (now (i + 1)) dev
      sbputCopies now is fs dev

/-- `sbput(devfd, fs, numaltwrite)` -/
def sbput (fs : Sb) (csp : Mem) (numaltwrite : Nat) (now : Nat → Nat) (dev : Mem) : Option Mem := do
  let (fs, dev) ← ffsSbput .user usePwrite fs (some csp) fs.sblockactualloc (now 0) dev
  sbputCopies now (List.range numaltwrite) fs dev

/-- What the kernel keeps for a superblock. -/
structure SbMount where
  /-- `um_devbsize` -/
  devbsize : Nat
  /-- `debug.bigcgs` -/
  bigcgs : Bool
  /-- `um_savedmaxfilesize` -/
  savedmaxfilesize : Nat

/-- A division by `um_devbsize`. -/
def SbMount.btodb (ump : SbMount) (loc : Nat) : Option Nat :=
  if ump.devbsize = 0 then none else some (Compat.btodb loc ump.devbsize).toNat

/-- `ffs_oldfscompat_write(fs, ump)` -/
def ffsOldfscompatWrite (ump : SbMount) (fs : Sb) : Sb :=
  let fs :=
    if fs.magic = FS_UFS1_MAGIC then
      let fs := fs.setOldTime (fs.read64 1072 % 2 ^ 32)
      -- `fs_old_cstotal` from `fs_cstotal`
      let fs : Sb := fs.write32 192 (fs.read64 1008 % 2 ^ 32)
      let fs : Sb := fs.write32 196 (fs.read64 1016 % 2 ^ 32)
      let fs : Sb := fs.write32 200 (fs.read64 1024 % 2 ^ 32)
      let fs : Sb := fs.write32 204 (fs.read64 1032 % 2 ^ 32)
      fs.setMaxfilesize ump.savedmaxfilesize
    else fs
  if ump.bigcgs then
    let fs := fs.setCgsize fs.saveCgsize
    fs.setSaveCgsize 0
  else fs

/-- `ffs_use_bwrite` corrects `fs_sblockloc` in a file system that is not updated. -/
def Sb.correct (fs : Sb) : Sb :=
  if fs.oldFlags &&& FS_FLAGS_UPDATED = 0 then
    let fs := if fs.magic = FS_UFS1_MAGIC ∧ fs.sblockloc ≠ SBLOCK_UFS1 then fs.setSblockloc SBLOCK_UFS1 else fs
    if fs.magic = FS_UFS2_MAGIC ∧ fs.sblockloc ≠ SBLOCK_UFS2 then fs.setSblockloc SBLOCK_UFS2 else fs
  else fs

/-- What `ffs_use_bwrite` puts into the buffer of the superblock. -/
def Sb.image (ump : SbMount) (fs : Sb) : Sb :=
  let fs := ffsOldfscompatWrite ump fs.correct
  let fs := fs.setSi 0
  fs.setCkhash (ffsCalcSbhash fs)

/-- `ffs_use_bwrite`, for a superblock that says `fs_sblockloc = sblockloc`. The device has
blocks of 512 bytes. -/
def ffsUseBwrite (ump : SbMount) (sblockloc : Nat) : Writefunc := fun loc buf size dev => do
  let blk ← ump.btodb loc
  if loc ≠ sblockloc then some (dev.copy (blk * DEV_BSIZE) buf 0 size)
  else some (dev.copy (blk * DEV_BSIZE) (Sb.image ump buf) 0 (Sb.sbsize buf).toNat)

/-- `ffs_sbupdate(ump, waitfor, suspended)`: the device. -/
def ffsSbupdate (ump : SbMount) (fs : Sb) (csp : Mem) (now : Nat) (dev : Mem) : Option Mem := do
  let _ ← ump.btodb fs.sblockloc
  let (_, dev) ← ffsSbput .kernel (ffsUseBwrite ump fs.sblockloc) fs (some csp) fs.sblockloc now dev
  some dev

/-- `um_devbsize` after `ffs_mountfs`, which allocates `struct ufsmount` with zeros: nothing
assigns it. -/
def umDevbsize : Nat := 0

end UfsX.Ffs
