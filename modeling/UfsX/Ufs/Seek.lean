import UfsX.Ufs.Bmap

/-!
# `UfsX.Ufs.Seek`: the two seek routines of `ufs_bmap.c`

`ufs_bmap_seekdata` looks for data in the tree of indirect blocks and skips whole
subtrees that are not there. `ufs_bmap_seekhole` asks the block map for one block
after the other, and answers both questions.

On macOS `daddr_t` has 32 bits, which the second routine keeps a block number and
a device block in. Its `bnp` is not set before the first answer of the block map,
so the value it starts with is an argument here; of the 8 bytes that the block map
stores there, the variable has the low 4. A call of `vnode_getattr` is taken to
succeed, `va_iosize` is `fs_bsize`, and the vnode can be locked.
-/

set_option autoImplicit false

namespace UfsX.Ufs

open UfsX.Lib
open UfsX.Ffs (Fs)

/-! ### `ufs_bmap_seekdata` -/

section Seekdata

variable (nindir : Nat)

/-- `lbn_count` -/
def lbnCount : Nat → Nat
  | 0 => 1
  | level + 1 => lbnCount level * nindir

/-- The loop that adds up the levels below `num`. -/
def seekBase : Nat → Nat → Nat
  | 0, nextbn => nextbn
  | num1 + 1, nextbn => seekBase num1 (nextbn + lbnCount nindir (num1 + 1))

/-- The scan of an indirect block from slot `off` on, with `left` slots to go: the
first pointer that is not zero and its slot. -/
def seekScan (blk : Nat → Int) : Nat → Nat → Int × Nat
  | 0, off => (0, off)
  | left + 1, off => if blk off ≠ 0 then (blk off, off) else seekScan blk left (off + 1)

/-- The loop over the indirect blocks of the path: what is left of `num`, and
`nextbn`. It ends early where a scan moved on, since the rest of the path is for
another block then. -/
def seekWalk (readindir : Int → Int → Except Errno (Nat → Int)) : Int → List Indir → Nat → Except Errno (Nat × Nat)
  | _, [], nextbn => .ok (0, nextbn)
  | daddr, ap :: rest, nextbn =>
      if daddr = 0 then .ok (rest.length + 1, nextbn)
      else
        match readindir ap.lbn daddr with
        | .error e => .error e
        | .ok blk =>
            let (daddr, off) := seekScan blk (nindir - ap.off) ap.off
            let nextbn := nextbn + off * lbnCount nindir rest.length
            if off ≠ ap.off then .ok (rest.length + 1, nextbn)
            else seekWalk readindir daddr rest nextbn

/-- The outer loop from block `bn` on. The result is the block it ends at, and
`none` when `fuel` rounds are not enough. -/
def seekLoop (readindir : Int → Int → Except Errno (Nat → Int)) (ip : Inode) (numblks : Nat) :
    Nat → Nat → Option (Except Errno Nat)
  | 0, _ => none
  | fuel + 1, bn =>
      if numblks ≤ bn then some (.ok bn)
      else if bn < ndaddr then
        if ip.db bn ≠ 0 then some (.ok bn) else seekLoop readindir ip numblks fuel (bn + 1)
      else
        match ufsGetlbns nindir bn with
        | .error e => some (.error e)
        | .ok [] => none
        | .ok (ap :: rest) =>
            let nextbn := seekBase nindir (rest.length - 1) ndaddr
            if ip.ib ap.off = 0 then
              seekLoop readindir ip numblks fuel (nextbn + lbnCount nindir rest.length)
            else
              match seekWalk nindir readindir (ip.ib ap.off) rest nextbn with
              | .error e => some (.error e)
              -- a data block was found
              | .ok (0, nextbn) => some (.ok nextbn)
              | .ok (_ + 1, nextbn) => seekLoop readindir ip numblks fuel nextbn

end Seekdata

/-- `ufs_bmap_seekdata`: the new value of `*offp`. The sizes stay far below 2^63. -/
def ufsBmapSeekdata (fs : Fs) (readindir : Int → Int → Except Errno (Nat → Int)) (vreg : Bool) (ip : Inode)
    (fuel : Nat) (off : Int) : Option (Except Errno Int) :=
  if vreg = false ∨ ip.snapshot then some (.error .einval)
  else if off < 0 ∨ off ≥ ip.size then some (.error .enxio)
  else
    let numblks := (ip.size + (fs.bsize - 1)) / fs.bsize
    match seekLoop fs.nindir readindir ip numblks fuel (off.toNat / fs.bsize) with
    | none => none
    | some (.error e) => some (.error e)
    | some (.ok bn) =>
        if numblks ≤ bn then some (.error .enxio)
        else some (.ok (if off < (bn * fs.bsize : Nat) then (bn * fs.bsize : Nat) else off))

/-! ### `ufs_bmap_seekhole` -/

/-- `FSIOC_FIOSEEKHOLE` and `FSIOC_FIOSEEKDATA` -/
inductive SeekCmd where
  | hole
  | data
  deriving DecidableEq, Repr

section Seekhole

variable (bmap : Int → Except Errno Int) (cmd : SeekCmd) (bsize size : Nat) (off : Int)

/-- The `goto unlock` with an offset that was found, or an error of the last call
of the block map. -/
def seekFound (error : Option Errno) (noff : Int) : Except Errno Int :=
  match error with
  | some e => .error e
  | none => .ok noff

/-- The loop of `ufs_bmap_seekhole`. Every error of the block map other than
`EOPNOTSUPP` leaves `bnp` as it was. -/
def seekholeLoop : Nat → Int → Int → Int → Option Errno → Option (Except Errno Int)
  | 0, _, _, _, _ => none
  | fuel + 1, noff, bn, bnp, error =>
      if noff < size then
        let (error, bnp) :=
          match bmap noff with
          | .error e => (some e, bnp)
          | .ok blkno => (none, toI32 blkno)
        if error = some .eopnotsupp then some (.error .enotty)
        else if (bnp = -1 ∧ cmd = .hole) ∨ (bnp ≠ -1 ∧ cmd = .data) then
          let noff := toI64 (bn * bsize)
          some (seekFound error (if noff < off then off else noff))
        else seekholeLoop fuel (noff + (bsize - noff % bsize)) (toI32 (bn + 1)) bnp error
      else if cmd = .data then some (.error .enxio)
      else some (seekFound error (if noff > size then size else noff))

end Seekhole

/-- What `ufs_bmap` stores in `*a_bpn` in a call without `a_run` and `a_poff`. -/
def ufsBmapBlock (fs : Fs) (args : BmapArgs) (readindir : Int → Int → Except Errno (Nat → Int)) (ip : Inode)
    (foffset : Int) : Except Errno Int :=
  match ufsBmaparray fs args readindir ip (fs.lblkno foffset) with
  | .error e => .error e
  | .ok r => .ok r.bnp

/-- `ufs_bmap_seekhole`: the new value of `*off`. The first test compares with an
unsigned size, and the first block number is that of an offset cut to 32 bits. -/
def ufsBmapSeekhole (fs : Fs) (bmap : Int → Except Errno Int) (vreg : Bool) (size : Nat) (cmd : SeekCmd) (bnp : Int)
    (fuel : Nat) (off : Int) : Option (Except Errno Int) :=
  if vreg = false then some (.error .enotty)
  else if toU64 off ≥ size then some (.error .enxio)
  else seekholeLoop bmap cmd fs.bsize size off fuel off (toI32 (toU64 (toI32 off) / fs.bsize)) bnp none

end UfsX.Ufs
