import UfsX.Ffs.Write

/-!
# `UfsX.Ffs.WriteUndo`: writes that fail part way

`ffs_write` and `ffs_extwrite` of `ffs_vnops.c` with the request and the size that they leave
behind: `i_size`, or `di_extsize` for the attribute area. A request is an offset and a residual
count. `UFS_BALLOC` and `uiomove` may fail at any block, and so may `cluster_write`; the other
functions that are called do not fail. There are no soft updates.

`ffs_truncate` is the part that is reached from here: the data of a file or of a symbolic link
whose size is the old one or a larger one, and the attribute area, which takes at least one
device block when it is not empty.
-/

set_option autoImplicit false

namespace UfsX.Ffs.WriteUndo

open UfsX.Lib UfsX.Ufs
open UfsX.Ffs.Write (Ioflag Scan scan)

def EPERM : Nat := 1
def EFBIG : Nat := 27

/-- What happens at a block. -/
structure Round where
  /-- `UFS_BALLOC`, and by how much it makes the file longer when it fills up a fragment. -/
  ballocErr : Nat
  grown : Nat
  /-- `uiomove`; when it fails it has moved some bytes, but not all. -/
  moveErr : Nat
  moved : Nat

/-- The bytes that `uiomove` moves out of `xfersize`. -/
def Round.bytes (r : Round) (xfersize : Nat) : Nat := if r.moveErr = 0 then xfersize else min r.moved (xfersize - 1)

/-- The error at a block, 0 for none. -/
def Round.error (r : Round) : Nat := if r.ballocErr ≠ 0 then r.ballocErr else r.moveErr

structure Env where
  /-- By logical block. -/
  rounds : Nat → Round
  /-- `cluster_write`: the error, and the bytes that it takes from the request. -/
  clusterErr : Nat
  clusterMoved : Nat

inductive Vtype where
  | vreg
  | vlnk
  | other
  deriving DecidableEq, Repr

structure File where
  vtype : Vtype
  /-- `i_size` -/
  size : Nat
  /-- `APPEND` in `i_flags`. -/
  append : Bool
  /-- A symbolic link shorter than `vfs_maxsymlen`, or without data blocks, when it is truncated. -/
  shortlink : Bool
  /-- `di_extsize` -/
  extsize : Nat

/-- What is left of a request, in terms of `uio_offset` and `uio_resid`. -/
structure Req where
  offset : Int
  resid : Int
  deriving DecidableEq, Repr

inductive Result where
  | ret (error : Nat) (size : Nat) (uio : Req)
  | panic
  deriving DecidableEq, Repr

/-- `sblksize(fs, size, lbn)` -/
def sblksize (fs : Fs) (size lbn : Nat) : Nat :=
  if ndaddr ≤ lbn ∨ (lbn + 1) * fs.bsize ≤ size then fs.bsize else fs.fragroundup (fs.blkoff size)

/-- The loop over the blocks of a request, with at most `fuel` rounds: the error, the size, and
how much has been moved and is left. -/
def transfer (fs : Fs) (rounds : Nat → Round) : Nat → Nat → Nat → Nat → Option (Nat × Nat × Nat × Nat)
  | 0, _, _, _ => none
  | fuel + 1, size, offset, resid =>
      if resid = 0 then some (0, size, offset, resid)
      else
        let lbn := offset / fs.bsize
        let r := rounds lbn
        let xfersize := min (fs.bsize - offset % fs.bsize) resid
        let size := size + r.grown
        if r.ballocErr ≠ 0 then some (r.ballocErr, size, offset, resid)
        else
          let size := max size (offset + xfersize)
          let xfersize := min (sblksize fs size lbn) xfersize
          let n := r.bytes xfersize
          if r.moveErr ≠ 0 ∨ xfersize = 0 then some (r.moveErr, size, offset + n, resid - n)
          else transfer fs rounds fuel size (offset + n) (resid - n)

/-! ### `ffs_write` -/

/-- `ffs_truncate(vp, osize, FREEBSD_IO_NORMAL)` -/
def truncateNormal (vp : File) (osize : Nat) : Nat := if vp.vtype = .vlnk ∧ vp.shortlink then 0 else osize

/-- The end of `ffs_write`; `resid` is the local variable. -/
def finish (vp : File) (ioflag : Ioflag) (resid : Int) (error size : Nat) (uio : Req) : Result :=
  if error ≠ 0 ∧ ioflag.unit then .ret error (truncateNormal vp vp.size) ⟨uio.offset - resid - uio.resid, resid⟩
  else .ret error size uio

/-- `ffs_write` from the check of the size on. -/
def writeAt (env : Env) (fs : Fs) (maxfilesize : UInt64) (ioflag : Ioflag) (fuel : Nat) (vp : File) (o n : Nat) :
    Option Result :=
  if maxfilesize.toNat < toU64 (o + n) then some (.ret EFBIG vp.size ⟨o, n⟩)
  else if vp.vtype = .vreg then
    (scan fs fuel { ubcResid := n, resid := n, filepos := o, xfersize := fs.bsize }).map fun s =>
      let moved := min env.clusterMoved n
      finish vp ioflag s.resid env.clusterErr vp.size ⟨o + moved, n - moved⟩
  else
    (transfer fs env.rounds fuel vp.size o n).map fun (error, size, offset, resid) =>
      finish vp ioflag n error size ⟨offset, resid⟩

/-- `ffs_write` of `n` bytes at offset `o`. -/
def ffsWrite (env : Env) (fs : Fs) (maxfilesize : UInt64) (ioflag : Ioflag) (fuel : Nat) (vp : File) (o n : Nat) :
    Option Result :=
  if ioflag.ext then some .panic
  else
    match vp.vtype with
    | .vreg =>
        let o := if ioflag.append then vp.size else o
        if vp.append ∧ o ≠ vp.size then some (.ret EPERM vp.size ⟨o, n⟩)
        else writeAt env fs maxfilesize ioflag fuel vp o n
    | .vlnk => writeAt env fs maxfilesize ioflag fuel vp o n
    | .other => some .panic

/-! ### `ffs_extwrite` -/

/-- `ffs_truncate(vp, length, FREEBSD_IO_EXT)`; there is no result for the panic "partial trunc of
extdata". -/
def truncateExt (extsize length : Nat) : Option Nat :=
  if 0 < extsize then if length ≠ 0 then none else some 0 else some extsize

/-- The end of `ffs_extwrite`. -/
def finishExt (vp : File) (ioflag : Ioflag) (resid : Int) (error extsize : Nat) (uio : Req) : Result :=
  if error ≠ 0 ∧ ioflag.unit then
    match truncateExt extsize vp.extsize with
    | none => .panic
    | some extsize => .ret error extsize ⟨uio.offset - (resid - uio.resid), resid⟩
  else .ret error extsize uio

/-- `ffs_extwrite` of `n` bytes at offset `o`. -/
def ffsExtwrite (env : Env) (fs : Fs) (ioflag : Ioflag) (fuel : Nat) (vp : File) (o n : Nat) : Option Result :=
  let o := if ioflag.append then vp.extsize else o
  if nxaddr * fs.bsize < o + n then some (.ret EFBIG vp.extsize ⟨o, n⟩)
  else
    (transfer fs env.rounds fuel vp.extsize o n).map fun (error, extsize, offset, resid) =>
      finishExt vp ioflag n error extsize ⟨offset, resid⟩

end UfsX.Ffs.WriteUndo
