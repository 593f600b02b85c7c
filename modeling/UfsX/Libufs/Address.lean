import UfsX.Compat.Param
import UfsX.Libufs.Inode

/-!
# `UfsX.Libufs.Address`: the byte offsets that `newfs`, libufs and the kernel calculate

Every program starts from a fragment number and ends at a byte of the device. `newfs` goes
through its own `d_bsize`, which is the real sector size; libufs through the one that
`sbread` finds; `cgget`, `cgput`, `sbput` and `initcg` through formulas of their own; and the
kernel through blocks of `DEV_BSIZE` bytes.
-/

set_option autoImplicit false

namespace UfsX.Libufs

open UfsX.Lib UfsX.Compat UfsX.Ffs
open UfsX.Ufs (fsbtodb)

section Libufs

variable (fs : Fs)

/-- `offset` in `cgget`: a product of `int`s. -/
def cggetOffset (cg : Nat) : Int := toI32 (fsbtodb fs (fs.cgtod cg) * dBsize fs)

/-- `offset` in `cgput`. Its cast makes the product one of 64 bits. -/
def cgputOffset (cg : Nat) : Int := fsbtodb fs (fs.cgtod cg) * dBsize fs

/-- Where `sbput` writes the copy of the superblock in group `i`. -/
def sbputOffset (i : Nat) : Int := dbtob (fsbtodb fs (fs.cgsblock i)) DEV_BSIZE

/-- Where the kernel reads fragment `f`. -/
def kernelOffset (f : Int) : Int := fsbtodb fs f * DEV_BSIZE

/-- Where `ffs_use_bread` reads piece `i` of what is at `loc`. -/
def useBreadOffset (loc : Int) (i : Nat) : Int := (btodb loc DEV_BSIZE + i) * DEV_BSIZE

end Libufs

/-- The part of the variables of `newfs` that take part in addresses, once `mkfs` has set up
the superblock. `newfs` replaces any other sector size by `DEV_BSIZE` and multiplies the size
by their quotient; a smaller sector leaves no size. -/
structure Newfs where
  fs : Fs
  /-- `realsectorsize` -/
  realsectorsize : Nat
  /-- `part_ofs`, the start of the partition in the label of an image file. -/
  partOfs : Nat
  sector_ge : DEV_BSIZE ≤ realsectorsize
  sector_lt : realsectorsize < 2 ^ 31
  partOfs_lt : partOfs < 2 ^ 32
  fsize_ge : DEV_BSIZE ≤ fs.fsize
  /-- `ilog2(fs_fsize / sectorsize)` -/
  fsbtodb_eq : fs.fsbtodb = Nat.log2 (fs.fsize / DEV_BSIZE)
  cgoffset_eq : fs.oldCgoffset = 0
  /-- `mkfs` gives up when not even the inodes of a group fit. -/
  size_ge : 2 ≤ fs.size

namespace Newfs

variable (n : Newfs)

/-- `fs_sblockloc`: `SBLOCK_UFS1` or `SBLOCK_UFS2` -/
def sblockloc : Int :=
  match n.fs.magic with
  | .ufs1 => 8192
  | .ufs2 => 65536

/-- `bread` and `bwrite` with the `d_bsize` of `mkfs`: `realsectorsize`. -/
def bwriteOffset (blockno : Int) : Int := toI64 (blockno * n.realsectorsize)

/-- `wtfs(fsbtodb(&sblock, f), ..)` -/
def wtfsOffset (f : Int) : Int := n.bwriteOffset (n.partOfs + fsbtodb n.fs f)

/-- `alloc` and `iput` read the header of the first group. -/
def allocOffset : Int := n.bwriteOffset (n.partOfs + fsbtodb n.fs (n.fs.cgtod 0))

/-- `putinode` and `getinode` as `iput` calls them. -/
def iputOffset (ino : Nat) : Int := n.bwriteOffset (fsbtodb n.fs (n.fs.inoToFsba ino))

/-- Where `initcg` writes the copy of the superblock. -/
def initcgOffset (cylno : Nat) : Int := dbtobLong (fsbtodb n.fs (n.fs.cgsblock cylno)) n.realsectorsize

end Newfs

end UfsX.Libufs
