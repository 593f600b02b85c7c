import UfsX.Ufs.Inode

/-!
# `UfsX.Ffs.Write`: writing to a regular file

`ffs_write` of `ffs_vnops.c` for a vnode of type `VREG`. The function goes over the
request once to find the file position after it, tells the unified buffer cache the
new size and hands the data to `cluster_write`.

`cluster_write`, `ffs_truncate` and `ffs_update` come in as functions on the file, the
first with the remaining length of the request. A file's contents are the bytes at the
disk addresses of its blocks. Offsets and lengths are 64-bit signed numbers, as are the
local variables `filepos`, `resid` and `ubc_resid`.
-/

set_option autoImplicit false

namespace UfsX.Ffs.Write

open UfsX.Lib UfsX.Ufs

/-- A regular file with the disk under it. -/
structure File where
  ip : Inode
  /-- `di_size` -/
  diSize : Nat
  /-- The pointers in indirect blocks. -/
  ind : Int → Int → Nat → Int
  /-- The bytes of a fragment address. -/
  disk : Int → Nat → UInt8
  /-- The size that the buffer cache knows. -/
  ubcSize : Int
  /-- `ISUID` or `ISGID` in `i_mode`. -/
  setid : Bool
  /-- `APPEND` in `i_flags`. -/
  append : Bool
  size_lt : ip.size < 2 ^ 63

/-- The disk address of a block of the file. -/
def File.addr (fs : Fs) (vp : File) (lbn : Nat) : Int := bptr fs.nindir vp.ind vp.ip lbn

/-- What a read of one byte of the file gets. -/
def File.byte (fs : Fs) (vp : File) (x : Nat) : UInt8 :=
  if vp.addr fs (x / fs.bsize) = 0 then 0 else vp.disk (vp.addr fs (x / fs.bsize)) (x % fs.bsize)

/-- The flags of a request. -/
structure Ioflag where
  /-- `FREEBSD_IO_EXT` -/
  ext : Bool
  append : Bool
  sync : Bool
  unit : Bool
  deriving DecidableEq, Repr

structure Uio where
  offset : Int
  resid : Int
  /-- The bytes of the request. -/
  data : Nat → UInt8

/-- The zero-fill flags handed to `cluster_write`. -/
structure Fill where
  head : Bool
  tail : Bool
  headOffset : Int
  tailOffset : Int
  deriving DecidableEq, Repr

/-- What `ffs_write` calls, and the user it runs for. -/
structure Env where
  /-- `cluster_write(vp, uio, oldEOF, newEOF, headOff, tailOff, flags)`: the error, the
  file and what is left of the request. -/
  clusterWrite : File → Uio → Int → Int → Fill → Int × File × Uio
  /-- `ffs_truncate(vp, length)` -/
  truncate : File → Nat → File
  /-- `ffs_update(vp, 1)` -/
  update : File → Int × File
  /-- `ffs_fsfail_cleanup` -/
  fsfail : Bool
  /-- `kauth_cred_issuser` of the caller's credential. -/
  superuser : Bool

/-- How a call ends. -/
inductive Result where
  | ret (error : Int) (vp : File) (uio : Uio)
  | panic

def EPERM : Int := 1
def ENXIO : Int := 6
def EFBIG : Int := 27

/-! ### The position after the request -/

/-- The variables of the loop that looks for the end of the request. -/
structure Scan where
  ubcResid : Int
  resid : Int
  filepos : Int
  xfersize : Int
  deriving DecidableEq, Repr

/-- One round of the loop. The assignment to `size`, which nothing reads, is left out. -/
def scanStep (fs : Fs) (s : Scan) : Scan :=
  let blkoffset := s.filepos % fs.bsize
  let xfersize := if s.ubcResid < fs.bsize - blkoffset then s.ubcResid else fs.bsize - blkoffset
  { s with
    xfersize
    filepos := toI64 (s.filepos + xfersize)
    resid := toI64 (s.resid - xfersize) }

/-- `for (;ubc_resid > 0;)`, at most `fuel` rounds of it. -/
def scan (fs : Fs) : Nat → Scan → Option Scan
  | 0, s => if 0 < s.ubcResid then none else some s
  | fuel + 1, s => if 0 < s.ubcResid then scan fs fuel (scanStep fs s) else some s

/-! ### `ffs_write` -/

/-- The flags and offsets for `cluster_write`. -/
def fill (fs : Fs) (offset : Int) (s : Scan) : Fill :=
  let head := decide (offset % fs.bsize < fs.bsize ∧ s.filepos ≤ s.xfersize)
  let tail := decide (s.xfersize < fs.bsize)
  { head, tail
    headOffset := if head then offset % fs.bsize else 0
    tailOffset := if tail then toI32 s.filepos else 0 }

/-- What follows the write itself; `resid` is the local variable. -/
def finish (env : Env) (ioflag : Ioflag) (osize : Nat) (resid error : Int) (vp : File) (uio : Uio) : Result :=
  let vp := if vp.setid ∧ uio.resid < resid ∧ env.superuser then { vp with setid := false } else vp
  if error ≠ 0 then
    if ioflag.unit then
      .ret error (env.truncate vp osize) { uio with offset := uio.offset - resid - uio.resid, resid }
    else .ret error vp uio
  else if uio.resid < resid ∧ ioflag.sync then
    let (error, vp) := env.update vp
    .ret (if env.fsfail then ENXIO else error) vp uio
  else .ret 0 vp uio

/-- From the check of the size on, where `uio` has the offset to write at. -/
def writeAt (env : Env) (fs : Fs) (maxfilesize : UInt64) (ioflag : Ioflag) (fuel : Nat) (vp : File) (uio : Uio) :
    Option Result :=
  if uio.resid < 0 ∨ uio.offset < 0 then some .panic
  else if maxfilesize.toNat < toU64 (uio.offset + uio.resid) then some (.ret EFBIG vp uio)
  else
    (scan fs fuel { ubcResid := uio.resid, resid := uio.resid, filepos := uio.offset, xfersize := fs.bsize }).map
      fun s =>
        let osize := vp.ip.size
        let (error, vp, uio) :=
          env.clusterWrite { vp with ubcSize := s.filepos } uio osize s.filepos (fill fs uio.offset s)
        finish env ioflag osize s.resid error vp uio

/-- `ffs_write` on a regular file, with at most `fuel` rounds of its loop. -/
def ffsWrite (env : Env) (fs : Fs) (maxfilesize : UInt64) (ioflag : Ioflag) (fuel : Nat) (vp : File) (uio : Uio) :
    Option Result :=
  if ioflag.ext then some .panic
  else
    let uio := if ioflag.append then { uio with offset := vp.ip.size } else uio
    if vp.append ∧ uio.offset ≠ vp.ip.size then some (.ret EPERM vp uio)
    else writeAt env fs maxfilesize ioflag fuel vp uio

end UfsX.Ffs.Write
