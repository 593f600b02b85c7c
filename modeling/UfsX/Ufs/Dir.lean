import UfsX.Lib.Mem

/-!
# `UfsX.Ufs.Dir`: directory entries

A directory is a file of `DIRBLKSIZ`-byte blocks, each of them tiled by records
(`struct direct`): an inode number (0 for a free record), the length of the record,
a file type, the length of the name, and the name. The accessors read the fields of
the record at a byte offset. In the old format (`OFSFMT`) the type and the length of
the name are swapped, on a little-endian machine.
-/

set_option autoImplicit false

namespace UfsX.Ufs

open UfsX.Lib

def DIRBLKSIZ : Nat := 512
def MAXDIRSIZE : Nat := 0x7fffffff
def UFS_MAXNAMLEN : Nat := 255
/-- The inode number of a whiteout. -/
def UFS_WINO : Nat := 1
def DT_WHT : Nat := 14

/-- `DIRECTSIZ`: header, name and a null byte, rounded up to four bytes. -/
def directsiz (namlen : Nat) : Nat := (8 + namlen + 1 + 3) / 4 * 4

def howmany (x y : Nat) : Nat := (x + (y - 1)) / y

/-- `roundup2(x, DIRBLKSIZ)` -/
def roundupBlk (x : Nat) : Nat := (x + (DIRBLKSIZ - 1)) / DIRBLKSIZ * DIRBLKSIZ

/-! ### The fields of the record at an offset -/

section Fields

variable (ofs : Bool) (data : Mem) (o : Nat)

def dIno : Nat := data.read32 o

def dReclen : Nat := data.read16 (o + 4)

def dType : Nat := (data (if ofs then o + 7 else o + 6)).toNat

def dNamlen : Nat := (data (if ofs then o + 6 else o + 7)).toNat

def dName : List UInt8 := data.readBytes (o + 8) (dNamlen ofs data o)

/-- The macro `DIRSIZ`. -/
def dirsiz : Nat := directsiz (dNamlen ofs data o)

def setReclen (reclen : Nat) : Mem := data.write16 (o + 4) reclen

def setIno (ino : Nat) : Mem := data.write32 o ino

end Fields

/-- A `struct direct` that `ufs_makedirentry` has filled in. -/
structure Direct where
  ino : Nat
  type : Nat
  name : List UInt8
  deriving DecidableEq, Repr

/-- The bytes of the structure, with its `d_reclen`. The bytes after the name are
zero. -/
def Direct.bytes (ofs : Bool) (d : Direct) (reclen : Nat) : Mem := fun x =>
  if x < 4 then Mem.byteOf d.ino x
  else if x < 6 then Mem.byteOf reclen (x - 4)
  else if x = 6 then UInt8.ofNat (if ofs then d.name.length else d.type)
  else if x = 7 then UInt8.ofNat (if ofs then d.type else d.name.length)
  else d.name.getD (x - 8) 0

end UfsX.Ufs
