import UfsX.Lib.Heap
import UfsX.Ufs.Inode

/-!
# `UfsX.Ffs.Read`: reading a directory or a symbolic link

`ffs_read` of `ffs_vnops.c` for a vnode that is not of type `VREG`, with `ffs_read_hole`, without
`FREEBSD_IO_EXT`. `bread` is part of the file: it answers for a logical block with a buffer,
with `EJUSTRETURN` for a hole, or with another error, and only the first of these leaves a
buffer to release. `uiomove` moves what fits.

The array `zero` of `ffs_read_hole` has the size of the transfer and is on the stack; what is
there before it is cleared is part of the call. `memset` clears `sizeof(xfersize)` bytes, which
is 8. The mark for the access time is left out.
-/

set_option autoImplicit false

namespace UfsX.Ffs.Read

open UfsX.Lib UfsX.Ufs

/-- What `bread` comes to. -/
inductive Bread where
  /-- A buffer, with `buf_resid` and its bytes. -/
  | buffer (resid : Nat) (data : Nat → UInt8)
  /-- `EJUSTRETURN` -/
  | hole
  | error (e : Nat)

/-- A directory or a symbolic link. -/
structure File where
  fs : Fs
  ip : Inode
  /-- `fs_maxfilesize` -/
  maxfilesize : Nat
  /-- `bread(vp, n)` for a number of the type `daddr64_t`. -/
  bread : Int → Bread
  size_lt : ip.size < 2 ^ 63

/-- The request: where it stands, what is left of it, what has been delivered, and the buffers
that were obtained and released, named by the offset they were needed for. -/
structure Uio where
  offset : Nat
  resid : Nat
  out : List UInt8
  bufs : Heap Nat

/-- `uiomove(src, n, uio)` -/
def uiomove (src : Nat → UInt8) (n : Nat) (uio : Uio) : Uio :=
  let n := min n uio.resid
  { uio with offset := uio.offset + n, resid := uio.resid - n, out := uio.out ++ (List.range n).map src }

/-- How `ffs_read` returns. -/
inductive Result where
  | ret (error : Nat) (uio : Uio)
  /-- `buf_brelse` of a null pointer. -/
  | crash

def EOVERFLOW : Nat := 84

/-- `sizeof(xfersize)` -/
def sizeofLong : Nat := 8

/-- The array `zero`, over stack bytes `stack`. -/
def zeroArray (stack : Nat → UInt8) : Nat → UInt8 := fun i => if i < sizeofLong then 0 else stack i

/-- The loop of `ffs_read_hole`, at most `fuel` rounds of it. -/
def readHole (zero : Nat → UInt8) : Nat → Nat → Uio → Option Uio
  | 0, xfersize, uio => if 0 < xfersize then none else some uio
  | fuel + 1, xfersize, uio =>
      if 0 < xfersize then
        let tlen := min xfersize uio.resid
        readHole zero fuel (xfersize - tlen) (uiomove zero xfersize uio)
      else some uio

/-- The size of the transfer at the position of `uio`. -/
def xfersize (f : File) (uio : Uio) : Nat :=
  min (min (f.fs.bsize - uio.offset % f.fs.bsize) uio.resid) (f.ip.size - uio.offset)

/-- The loop of `ffs_read`. `stack` has what is on the stack when the hole at an offset is
filled. -/
def readLoop (f : File) (stack : Nat → Nat → UInt8) : Nat → Uio → Option Result
  | 0, _ => none
  | fuel + 1, uio =>
      if uio.resid = 0 then some (.ret 0 uio)
      else if f.ip.size ≤ uio.offset then some (.ret 0 uio)
      else
        let lbn := uio.offset / f.fs.bsize
        let blkoffset := uio.offset % f.fs.bsize
        let n := xfersize f uio
        -- the block number is narrowed to an `int`
        match f.bread (toI32 lbn) with
        | .error _ => some .crash
        | .hole => (readHole (zeroArray (stack uio.offset)) fuel n uio).bind (readLoop f stack fuel)
        | .buffer resid data =>
            let bp := uio.offset
            let uio := { uio with bufs := uio.bufs.alloc bp }
            let size : Int := blksize f.fs f.ip lbn - resid
            if size = 0 ∧ size < n then some (.ret 0 { uio with bufs := uio.bufs.free bp })
            else
              let n := if size < n then size.toNat else n
              let uio := uiomove (fun i => data (blkoffset + i)) n uio
              readLoop f stack fuel { uio with bufs := uio.bufs.free bp }

/-- `ffs_read`, with at most `fuel` rounds of each loop. -/
def ffsRead (f : File) (stack : Nat → Nat → UInt8) (fuel : Nat) (uio : Uio) : Option Result :=
  if uio.resid = 0 then some (.ret 0 uio)
  else if uio.offset < f.ip.size ∧ f.maxfilesize ≤ uio.offset then some (.ret EOVERFLOW uio)
  else readLoop f stack fuel uio

end UfsX.Ffs.Read
