import UfsX.Lib.Bitmap
import UfsX.Lib.CInt
import UfsX.Ffs.Tables
import Mathlib.Data.Int.Bitwise

/-!
# `UfsX.Ffs.Fs`: the superblock, the cylinder group and the macros of `fs.h`

`Fs` holds the superblock fields that never change while the file system is
mounted, together with what `mkfs` and the superblock check promise about
them. `State` holds what does change: the summary totals, the in-core cylinder
summary `fs_csp`, `fs_maxcluster`, and the cylinder groups.

The fields drop the source's `fs_` and `cg_` prefixes. Sizes that the source
stores twice, once as a number and once as a shift (`fs_frag` and
`fs_fragshift`, `fs_fsize` and `fs_fshift`, `fs_bsize` and `fs_bshift`), are
stored here as the shift alone, so that they cannot disagree. The macros of
`fs.h` say in their comments which division or remainder they calculate with
shifts and masks; the definitions below are these divisions and remainders.

A cylinder group's bit maps and arrays are fields of `Cg`. The source keeps
them behind byte offsets in the same block (`cg_freeoff` and so on).
`fs_active` (used while a snapshot is taken), the time stamps and the
check-hash of a group do not take part in block allocation and are left out.
-/

set_option autoImplicit false

namespace UfsX.Ffs

open UfsX.Lib

/-- `fs_magic`: the on-disk format. -/
inductive Magic where
  | ufs1
  | ufs2
  deriving DecidableEq, Repr

/-- The superblock fields that are fixed while the file system is mounted. -/
structure Fs where
  magic : Magic
  /-- log2 of `fs_frag`, the number of fragments in a block. -/
  fragshift : Nat
  /-- log2 of `fs_fsize`, the size of a fragment in bytes. -/
  fshift : Nat
  /-- Shift from fragment addresses to device block addresses. -/
  fsbtodb : Nat
  /-- Size of the file system in fragments. -/
  size : Nat
  /-- Number of cylinder groups. -/
  ncg : Nat
  /-- Fragments in a cylinder group. -/
  fpg : Nat
  /-- Inodes in a cylinder group. -/
  ipg : Nat
  /-- Offsets of the superblock copy, the group block, the inode blocks and
  the first data block in a cylinder group. -/
  sblkno : Nat
  cblkno : Nat
  iblkno : Nat
  dblkno : Nat
  /-- Fragments reserved for metadata after the inode blocks. -/
  metaspace : Nat
  /-- UFS1 rotational offset of the group's metadata. -/
  oldCgoffset : Int
  oldCgmask : Int
  /-- Size of the cluster summary array; 0 when there is none. -/
  contigsumsize : Nat
  /-- Number of data fragments, for the free-space reserve. -/
  dsize : Nat
  /-- Minimum percentage of free fragments. -/
  minfree : Nat
  /-- Pointers in an indirect block. -/
  nindir : Nat
  /-- Inodes in a block. -/
  inopb : Nat
  fragshift_le : fragshift ≤ 3
  /-- `MAXBSIZE` of `sys/param.h` is 1 MiB at most. -/
  bshift_le : fshift + fragshift ≤ 20
  fpg_pos : 0 < fpg
  frag_dvd_fpg : 2 ^ fragshift ∣ fpg
  ncg_pos : 0 < ncg
  ncg_lt : ncg < 2 ^ 32
  ipg_pos : 0 < ipg
  inopb_pos : 0 < inopb
  /-- A UFS1 superblock keeps the size in 32 bits. -/
  size_lt : magic = .ufs1 → size < 2 ^ 31
  fsbtodb_le : fsbtodb ≤ fshift
  four_le_nindir : 4 ≤ nindir
  nindir_le : 4 * nindir ≤ 2 ^ (fshift + fragshift)

namespace Fs

variable (fs : Fs)

/-- Fragments in a block. -/
def frag : Nat := 2 ^ fs.fragshift

/-- Size of a fragment in bytes. -/
def fsize : Nat := 2 ^ fs.fshift

/-- Size of a block in bytes. -/
def bsize : Nat := 2 ^ (fs.fshift + fs.fragshift)

def numfrags (loc : Nat) : Nat := loc / fs.fsize

def fragstoblks (frags : Nat) : Nat := frags / fs.frag

def blkstofrags (blks : Nat) : Nat := blks * fs.frag

def fragnum (fsb : Nat) : Nat := fsb % fs.frag

def blknum (fsb : Nat) : Nat := fsb - fsb % fs.frag

/-- Logical block of a byte offset; the arithmetic shift rounds down. -/
def lblkno (loc : Int) : Int := loc / fs.bsize

def blkoff (loc : Nat) : Nat := loc % fs.bsize

def lblktosize (blk : Nat) : Nat := blk * fs.bsize

def fragroundup (size : Nat) : Nat := (size + (fs.fsize - 1)) / fs.fsize * fs.fsize

/-- Cylinder group of a fragment address. -/
def dtog (d : Nat) : Nat := d / fs.fpg

/-- Offset of a fragment address in its cylinder group. -/
def dtogd (d : Nat) : Nat := d % fs.fpg

/-- First fragment of a cylinder group. -/
def cgbase (c : Nat) : Nat := fs.fpg * c

/-- Start of a group's metadata. The group number is a C `int` here, since
`ffs_alloccgblk` passes a truncated one. -/
def cgstart (c : Int) : Int :=
  match fs.magic with
  | .ufs2 => fs.fpg * c
  | .ufs1 => fs.fpg * c + fs.oldCgoffset * Int.land c (Int.lnot fs.oldCgmask)

def cgsblock (c : Int) : Int := fs.cgstart c + fs.sblkno

def cgtod (c : Int) : Int := fs.cgstart c + fs.cblkno

def cgimin (c : Int) : Int := fs.cgstart c + fs.iblkno

def cgdmin (c : Int) : Int := fs.cgstart c + fs.dblkno

def cgmeta (c : Int) : Int := fs.cgdmin c

def cgdata (c : Int) : Int := fs.cgdmin c + fs.metaspace

theorem frag_pos : 0 < fs.frag := Nat.two_pow_pos _

theorem fsize_pos : 0 < fs.fsize := Nat.two_pow_pos _

@[simp] theorem fragstoblks_mul (b : Nat) : fs.fragstoblks (b * fs.frag) = b :=
  Nat.mul_div_cancel _ fs.frag_pos

theorem bsize_eq : fs.bsize = fs.frag * fs.fsize := by
  rw [bsize, frag, fsize, Nat.pow_add, Nat.mul_comm]

theorem fragOk : FragOk fs.frag := by
  have h := fs.fragshift_le
  unfold FragOk frag
  rcases (by omega : fs.fragshift = 0 ∨ fs.fragshift = 1 ∨ fs.fragshift = 2 ∨ fs.fragshift = 3)
    with h | h | h | h <;> simp [h]

/-- The number of blocks in a cylinder group's map. -/
def nblk : Nat := fs.fpg / fs.frag

theorem nblk_mul_frag : fs.nblk * fs.frag = fs.fpg := Nat.div_mul_cancel fs.frag_dvd_fpg

/-- The bytes of a cylinder group's free map, `howmany(fs_fpg, NBBY)`. -/
def mapBytes : Nat := (fs.fpg + 7) / 8

end Fs

/-- `struct csum`. -/
@[ext] structure Csum where
  ndir : Int
  nbfree : Int
  nifree : Int
  nffree : Int
  deriving DecidableEq, Repr

/-- `struct cg`: the header fields and maps that allocation reads or writes. -/
structure Cg where
  cgx : Nat
  /-- Number of fragments in this group; the last group may be short. -/
  ndblk : Nat
  cs : Csum
  rotor : Nat
  frotor : Nat
  irotor : Nat
  frsum : Nat → Int
  blksfree : Bitmap
  nclusterblks : Nat
  clustersum : Nat → Int
  clustersfree : Bitmap
  inosused : Bitmap
  niblk : Nat
  initediblk : Nat

/-- What a function does with the UFS lock and with cylinder-group buffers. -/
inductive Event where
  | lock
  | unlock
  | getcg (cg : Nat)
  | brelse (cg : Nat)
  | brelseNull
  | bdwrite (cg : Nat)
  /-- The buffer of the inode block that starts at index `i` of a group. -/
  | getino (cg i : Nat)
  | inoWrite (cg i : Nat)
  | inoRelse (cg i : Nat)
  deriving DecidableEq, Repr

/-- The changing part of a mounted file system. -/
structure State where
  /-- `fs_cstotal` -/
  cstotal : Csum
  /-- `fs_cs(fs, cg)` -/
  csp : Nat → Csum
  maxcluster : Nat → Int
  fmod : Bool
  cgs : Nat → Cg
  /-- Lock and buffer operations so far, latest first. -/
  log : List Event

/-- The panics of the allocation code. -/
inductive Panic where
  /-- "ffs_alloccg: map corrupted" -/
  | mapCorrupted
  /-- "ffs_alloccg: block not in map" -/
  | blockNotInMap
  /-- "ffs_alloccg: size(%d) != rsize(%d)" -/
  | sizeMismatch
  /-- "ffs_clusteralloc: map mismatch" -/
  | clusterMapMismatch
  /-- "ffs_clusteralloc: allocated out of group" -/
  | clusterOutOfGroup
  /-- "ffs_clusteralloc: lost block" -/
  | clusterLostBlock
  /-- "ffs_blkfree_cg: freeing free block" -/
  | freeingFreeBlock
  /-- "ffs_blkfree_cg: freeing free frag" -/
  | freeingFreeFrag
  /-- An access at a negative index, which C leaves undefined. -/
  | wildAccess
  /-- "ffs_nodealloccg: map corrupted" -/
  | inodeMapCorrupted
  /-- "ffs_freefile: range" -/
  | inodeRange
  /-- "ffs_freefile: freeing free inode" -/
  | freeingFreeInode
  deriving DecidableEq, Repr

namespace State

/-- Record a lock or buffer operation. -/
def emit (s : State) (e : Event) : State := { s with log := e :: s.log }

/-- Replace one cylinder group. -/
def setCg (s : State) (cg : Nat) (c : Cg) : State :=
  { s with cgs := Function.update s.cgs cg c }

/-- Apply a change to one cylinder group. -/
def modCg (s : State) (cg : Nat) (f : Cg → Cg) : State := s.setCg cg (f (s.cgs cg))

/-- Add `d` to the number of free blocks in the summary of group `cg`, in
`fs_cstotal` and in `fs_cs(fs, cgx)`. -/
def addNbfree (s : State) (cg cgx : Nat) (d : Int) : State :=
  { s.modCg cg fun c => { c with cs := { c.cs with nbfree := c.cs.nbfree + d } } with
    cstotal := { s.cstotal with nbfree := s.cstotal.nbfree + d }
    csp := Function.update s.csp cgx { s.csp cgx with nbfree := (s.csp cgx).nbfree + d } }

/-- Add `d` to the number of free fragments in the same three places. -/
def addNffree (s : State) (cg cgx : Nat) (d : Int) : State :=
  { s.modCg cg fun c => { c with cs := { c.cs with nffree := c.cs.nffree + d } } with
    cstotal := { s.cstotal with nffree := s.cstotal.nffree + d }
    csp := Function.update s.csp cgx { s.csp cgx with nffree := (s.csp cgx).nffree + d } }

@[simp] theorem emit_cgs (s : State) (e : Event) : (s.emit e).cgs = s.cgs := rfl

@[simp] theorem emit_csp (s : State) (e : Event) : (s.emit e).csp = s.csp := rfl

@[simp] theorem emit_cstotal (s : State) (e : Event) : (s.emit e).cstotal = s.cstotal := rfl

@[simp] theorem emit_maxcluster (s : State) (e : Event) :
    (s.emit e).maxcluster = s.maxcluster := rfl

@[simp] theorem setCg_cgs (s : State) (cg : Nat) (c : Cg) :
    (s.setCg cg c).cgs = Function.update s.cgs cg c := rfl

@[simp] theorem setCg_csp (s : State) (cg : Nat) (c : Cg) : (s.setCg cg c).csp = s.csp := rfl

@[simp] theorem setCg_cstotal (s : State) (cg : Nat) (c : Cg) :
    (s.setCg cg c).cstotal = s.cstotal := rfl

@[simp] theorem modCg_cgs (s : State) (cg : Nat) (f : Cg → Cg) :
    (s.modCg cg f).cgs = Function.update s.cgs cg (f (s.cgs cg)) := rfl

@[simp] theorem modCg_csp (s : State) (cg : Nat) (f : Cg → Cg) : (s.modCg cg f).csp = s.csp := rfl

@[simp] theorem modCg_cstotal (s : State) (cg : Nat) (f : Cg → Cg) :
    (s.modCg cg f).cstotal = s.cstotal := rfl

end State

end UfsX.Ffs
