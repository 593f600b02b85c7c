import UfsX.Lib.CInt
import UfsX.Lib.Radix
import UfsX.Ffs.Fs

/-!
# `UfsX.Ufs.Inode`: the in-core inode and its block pointers

`Inode` holds the fields of the in-core inode and of its dinode that mapping,
growing and shrinking a file read or write. A pointer is a fragment address,
0 for a block that is not there.

The source reads the dinode through `DIP`, which picks the UFS1 or the UFS2
field, and writes it through `DIP_SET` or directly. A read needs no conversion;
the writes convert to the type of the field, and `DIP_SET` always to that of
the UFS1 field.
-/

set_option autoImplicit false

namespace UfsX.Ufs

open UfsX.Lib
open UfsX.Ffs (Fs)

/-- Direct pointers in an inode, `UFS_NDADDR`. -/
def ndaddr : Nat := 12

/-- Indirect pointers in an inode, `UFS_NIADDR`. -/
def niaddr : Nat := 3

/-- External attribute pointers in an inode, `UFS_NXADDR`. -/
def nxaddr : Nat := 2

/-- The error numbers the modelled functions return. -/
inductive Errno where
  | enoent
  | eio
  | enxio
  | efbig
  | einval
  | enospc
  | edquot
  | estale
  | enotty
  | eopnotsupp
  deriving DecidableEq, Repr

/-- How a call ends. -/
inductive Outcome (α : Type) where
  | ok (a : α)
  | error (e : Errno)
  | panic
  deriving DecidableEq, Repr

/-- The in-core inode with its dinode. -/
structure Inode where
  /-- `SF_SNAPSHOT` in `i_flags`. -/
  snapshot : Bool
  size : Nat
  /-- `di_blocks`, in device blocks. -/
  blocks : Int
  db : Nat → Int
  ib : Nat → Int
  extb : Nat → Int

/-- The size of logical block `lbn` of a file, the macro `blksize`. -/
def blksize (fs : Fs) (ip : Inode) (lbn : Int) : Nat :=
  if (ndaddr : Int) ≤ lbn ∨ (lbn + 1) * fs.bsize ≤ ip.size then fs.bsize
  else fs.fragroundup (fs.blkoff ip.size)

/-- Device block of a fragment address, the macro `blkptrtodb`: a shift of a 64-bit number. -/
def blkptrtodb (fs : Fs) (b : Int) : Int := toI64 (b * 2 ^ fs.fsbtodb)

/-- The address of a fragment, or 0: its device block has 64 bits. -/
structure AddrOk (fs : Fs) (b : Int) : Prop where
  nonneg : 0 ≤ b
  lt : b * 2 ^ fs.fsbtodb < 2 ^ 63

theorem addrOk_zero (fs : Fs) : AddrOk fs 0 := ⟨le_rfl, by simp⟩

theorem AddrOk.blkptrtodb_eq {fs : Fs} {b : Int} (h : AddrOk fs b) : blkptrtodb fs b = b * 2 ^ fs.fsbtodb := by
  have hnonneg : 0 ≤ b * 2 ^ fs.fsbtodb := Int.mul_nonneg h.nonneg (Int.pow_nonneg (by decide))
  exact toI64_eq_self (by omega) h.lt

theorem AddrOk.blkptrtodb_pos {fs : Fs} {b : Int} (h : AddrOk fs b) (hb : 0 < b) : 0 < blkptrtodb fs b := by
  rw [h.blkptrtodb_eq]
  exact Int.mul_pos hb (Int.pow_pos (by decide))

theorem AddrOk.eq_zero {fs : Fs} {b : Int} (h : AddrOk fs b) (hb : blkptrtodb fs b = 0) : b = 0 := by
  by_contra hne
  have hpos := h.blkptrtodb_pos (by have := h.nonneg; omega)
  omega

/-- The macro `fsbtodb`. On macOS its cast to `daddr_t` is one to 32 bits, and
so is the shift. -/
def fsbtodb (fs : Fs) (b : Int) : Int := toI32 (toI32 b * 2 ^ fs.fsbtodb)

/-- The macro `dbtofsb`, an arithmetic shift. -/
def dbtofsb (fs : Fs) (b : Int) : Int := b / 2 ^ fs.fsbtodb

/-- The part of `struct ufsmount` that growing and shrinking a file reads. -/
structure Ump where
  fs : Fs
  /-- `um_devbsize`, the size of a device block. -/
  devbsize : Nat
  /-- `um_check_blkno` is set. -/
  untrusted : Bool
  /-- The mount is asynchronous, `DOINGASYNC`. -/
  async : Bool
  devbsize_pos : 0 < devbsize
  devbsize_dvd : devbsize ∣ fs.fsize

/-- The macro `btodb`. -/
def btodb (mp : Ump) (bytes : Nat) : Nat := bytes / mp.devbsize

/-- Conversion to the type of a dinode's pointers. -/
def ptrCast (fs : Fs) (b : Int) : Int :=
  match fs.magic with
  | .ufs1 => toI32 b
  | .ufs2 => b

/-- Conversion to the type of a dinode's `di_blocks`. -/
def blocksCast (fs : Fs) (n : Int) : Int :=
  match fs.magic with
  | .ufs1 => toU32 n
  | .ufs2 => toU64 n

/-- `DIP_SET(ip, i_blocks, n)`. The macro converts the value to the type of
the UFS1 field in both formats. -/
def Inode.setBlocks (ip : Inode) (n : Int) : Inode := { ip with blocks := toU32 n }

/-- The logical number of the indirect block of height `h` (1 when it points to
data) whose first data block is `first`: the negated address of that data
block, and one less for every further level. -/
def metaLbn (h first : Nat) : Int := -((first : Int) + h - 1)

/-- The pointer of logical block `lbn`, where `ind lbn daddr` holds the
pointers of the indirect block with logical number `lbn` at address `daddr`. -/
def bptr (nindir : Nat) (ind : Int → Int → Nat → Int) (ip : Inode) (lbn : Nat) : Int :=
  let node := fun h first => ind (metaLbn h first)
  if lbn < ndaddr then ip.db lbn
  else if lbn < ndaddr + nindir then
    Radix.lookup nindir node 1 ndaddr (ip.ib 0) (lbn - ndaddr)
  else if lbn < ndaddr + nindir + nindir ^ 2 then
    Radix.lookup nindir node 2 (ndaddr + nindir) (ip.ib 1) (lbn - (ndaddr + nindir))
  else if lbn < ndaddr + nindir + nindir ^ 2 + nindir ^ 3 then
    Radix.lookup nindir node 3 (ndaddr + nindir + nindir ^ 2) (ip.ib 2)
      (lbn - (ndaddr + nindir + nindir ^ 2))
  else 0

end UfsX.Ufs
