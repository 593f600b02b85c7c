import UfsX.Ffs.Update
import UfsX.Libufs.Block

/-!
# `UfsX.Libufs.Inode`: `getinode` and `putinode`

`inode.c` of libufs. A `uufsd` keeps one block of inodes in memory. `d_inomin` and
`d_inomax` say which inodes are in it, in 32 bits; `getinode` calculates with `ino_t`,
which has 64.

The device is seen as a function from byte offsets to the dinodes that stand there. All
offsets are multiples of the size of a dinode. A read or a write of a block succeeds as a
whole or fails as a whole; a failed write leaves the device as it is.
-/

set_option autoImplicit false

namespace UfsX.Libufs

open UfsX.Lib UfsX.Ffs
open UfsX.Ufs (fsbtodb)

/-- `sizeof(struct ufs1_dinode)` and `sizeof(struct ufs2_dinode)` -/
def dinodeSize (fs : Fs) : Nat :=
  match fs.magic with
  | .ufs1 => 128
  | .ufs2 => 256

/-- A dinode of zero bytes. -/
def zeroDinode (fs : Fs) : Dinode where
  mode := 0
  nlink := 0
  size := 0
  flags := 0
  gen := 0
  uid := 0
  gid := 0
  ckhash := 0
  rest := List.replicate (dinodeSize fs - 32) 0

/-- The part of `struct uufsd` that the two functions use, and the device. -/
structure Uufsd where
  /-- The device, by byte offset. -/
  dev : Int → Dinode
  /-- `d_inoblock` -/
  inoblock : Option InoBlock
  inomin : Nat
  inomax : Nat
  /-- `d_dp`, as an index into the block. -/
  dp : Nat

/-- The byte offset of the block with inode `inum`. -/
def inoOffset (fs : Fs) (inum : Nat) : Int := blockOffset fs (fsbtodb fs (fs.inoToFsba inum))

/-- `bread` of a block of inodes; a failed one fills the buffer with zeros. -/
def breadInodes (fs : Fs) (readOk : Bool) (dev : Int → Dinode) (offset : Int) : InoBlock :=
  if readOk then fun k => dev (offset + k * dinodeSize fs) else fun _ => zeroDinode fs

/-- `bwrite` of a block of inodes. -/
def bwriteInodes (fs : Fs) (block : InoBlock) (dev : Int → Dinode) (offset : Int) : Int → Dinode :=
  fun o =>
    let k := (o - offset) / dinodeSize fs
    if 0 ≤ k ∧ k < fs.inopb ∧ o = offset + k * dinodeSize fs then block k.toNat else dev o

/-- `getinode` from the label `gotit` on. A pointer behind the block has no value, and the
result is `none` then. -/
def gotit (mp : InodeMount) (d : Uufsd) (block : InoBlock) (inum : Nat) (min : Int) :
    Option (Option Dinode × Uufsd) :=
  let dp := (toU64 (inum - min)).toNat
  if mp.fs.inopb ≤ dp then none
  else
    let d := { d with inoblock := some block, dp }
    if mp.fs.magic = .ufs2 ∧ mp.ffsVerifyDinodeCkhash (block dp) = false then some (none, d)
    else some (some (block dp), d)

/-- `getinode(disk, dp, inum)`: the dinode, or nothing for a return of -1. `ncg` groups of
`ipg` inodes; `readOk` says whether a read succeeds. -/
def getinode (mp : InodeMount) (readOk : Bool) (d : Uufsd) (inum : Nat) : Option (Option Dinode × Uufsd) :=
  let fs := mp.fs
  if fs.ipg * fs.ncg ≤ inum then some (none, d)
  else
    let block := d.inoblock.getD fun _ => zeroDinode fs
    if d.inomin ≤ inum ∧ inum < d.inomax then gotit mp d block inum d.inomin
    else
      let block := breadInodes fs readOk d.dev (inoOffset fs inum)
      let min := toU64 (toI32 inum - (inum % fs.inopb : Nat))
      gotit mp { d with inomin := (toU32 min).toNat, inomax := (toU32 (toI32 min + fs.inopb)).toNat } block inum min

/-- `putinode(disk)`: whether it returns 0. -/
def putinode (mp : InodeMount) (writeOk : Bool) (d : Uufsd) : Bool × Uufsd :=
  match d.inoblock with
  | none => (false, d)
  | some block =>
      let block := Function.update block d.dp (mp.dinodeOut (block d.dp))
      let d := { d with inoblock := some block }
      if writeOk then (true, { d with dev := bwriteInodes mp.fs block d.dev (inoOffset mp.fs d.inomin) })
      else (false, d)

/-- The caller stores through the pointer that `getinode` has handed out. -/
def storeDinode (d : Uufsd) (dip : Dinode) : Uufsd :=
  { d with inoblock := d.inoblock.map fun block => Function.update block d.dp dip }

/-- `ufs_disk_fillout`: no block is in memory. -/
def fillout (dev : Int → Dinode) : Uufsd where
  dev := dev
  inoblock := none
  inomin := 0
  inomax := 0
  dp := 0

end UfsX.Libufs
