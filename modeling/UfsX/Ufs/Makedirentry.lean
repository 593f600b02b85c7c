import UfsX.Ufs.Dir

/-!
# `UfsX.Ufs.Makedirentry`: a record is made, and checked

`ufs_makedirentry` and `ufs_dirbadentry` (`ufs_lookup.c`), byte by byte on a little-endian
machine. A `struct direct` is the memory from its address on.
-/

set_option autoImplicit false

namespace UfsX.Ufs

open UfsX.Lib

/-- `SAVENAME`, "obselete" -/
def SAVENAME : UInt32 := 0

def DIR_ROUNDUP : Nat := 4

/-- `IFTODT` -/
def iftodt (mode : UInt16) : UInt16 := (mode &&& 0o170000) >>> 12

/-- What `ufs_makedirentry` is given: of the inode, of the component name, and
`vfs_maxsymlen` of the mount. A name has 1 to 255 bytes, none of them zero. -/
structure EntryArgs where
  iNumber : UInt32
  iMode : UInt16
  cnFlags : UInt32
  cnName : List UInt8
  name_pos : 0 < cnName.length
  name_le : cnName.length ≤ UFS_MAXNAMLEN
  name_ne : 0 ∉ cnName
  maxsymlen : Int

namespace EntryArgs

variable (args : EntryArgs)

/-- `OFSFMT` -/
def ofs : Bool := args.maxsymlen ≤ 0

/-- `DIRECTSIZ` of the name. -/
def size : Nat := directsiz args.cnName.length

end EntryArgs

/-- The stores to `d_ino`, `d_namlen` and `d_name`. -/
def nameStores (args : EntryArgs) (newdirp : Mem) : Mem :=
  let namelen := args.cnName.length
  let newdirp := newdirp.write32 0 args.iNumber.toNat
  let newdirp := newdirp.write8 7 (UInt8.ofNat namelen)
  -- `namelen & ~(DIR_ROUNDUP - 1)`
  let newdirp := newdirp.write32 (8 + namelen / DIR_ROUNDUP * DIR_ROUNDUP) 0
  newdirp.copy 8 (fun i => args.cnName.getD i 0) 0 namelen

/-- The stores to `d_type`, after which the two bytes are swapped in the old format. -/
def typeStores (args : EntryArgs) (newdirp : Mem) : Mem :=
  if 0 < args.maxsymlen then newdirp.write8 6 (UInt8.ofNat (iftodt args.iMode).toNat)
  else
    let newdirp := newdirp.write8 6 0
    let tmp := newdirp 7
    let newdirp := newdirp.write8 7 (newdirp 6)
    newdirp.write8 6 tmp

/-- The first assertion of `ufs_makedirentry`, which the callers model from here. -/
def nameSaved (savename cnFlags : UInt32) : Bool := cnFlags &&& savename ≠ 0

/-- `ufs_makedirentry`, where `savename` is the flag of the first assertion. `none` is a
panic. -/
def ufsMakedirentry (savename : UInt32) (args : EntryArgs) (newdirp : Mem) : Option Mem :=
  if args.cnFlags &&& savename = 0 then none
  else if UFS_MAXNAMLEN < args.cnName.length then none
  else some (typeStores args (nameStores args newdirp))

/-- `ufs_dirbadentry` -/
def ufsDirbadentry (ofs : Bool) (ep : Mem) (entryoffsetinblock : Nat) : Nat :=
  let namlen := dNamlen ofs ep 0
  if dReclen ep 0 % 4 ≠ 0 ∨ DIRBLKSIZ - entryoffsetinblock % DIRBLKSIZ < dReclen ep 0 ∨
      dReclen ep 0 < dirsiz ofs ep 0 ∨ UFS_MAXNAMLEN < namlen then 1
  else if dIno ep 0 = 0 then 0
  -- no byte of the name is zero, and the one after it is
  else if 0 ∈ dName ofs ep 0 then 1
  else if ep (8 + namlen) ≠ 0 then 1
  else 0

end UfsX.Ufs
