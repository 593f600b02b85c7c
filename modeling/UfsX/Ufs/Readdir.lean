import UfsX.Ufs.Dir
import UfsX.Ufs.Inode

/-!
# `UfsX.Ufs.Readdir`: listing a directory

`ufs_readdir` of `ufs_lookup.c`, which goes over a directory block by block and in a block record
by record. The buffer of a block comes from `ffs_blkatoff`: its number is that of the logical
block, and its size, `buf_size` as well as `buf_count`, is the `blksize` that was asked for.
Reads and `uiomove` do not fail. The entries have a seek offset (`__DARWIN_64_BIT_INO_T`).

`lookup_enter` and `lookup_leave`, which keep other calls out, are left out.
-/

set_option autoImplicit false

namespace UfsX.Ufs.Readdir

open UfsX.Lib UfsX.Ufs
open UfsX.Ffs (Fs)

def eio : Nat := 5
def einval : Nat := 22
/-- `EJUSTRETURN`, which is −2 in the source. -/
def ejustreturn : Nat := 2 ^ 32 - 2

/-- `offsetof(struct direct, d_name)` -/
def nameOff : Nat := 8

/-- What a call is made on. -/
structure Arg where
  fs : Fs
  ip : Inode
  /-- The bytes of the directory's blocks. -/
  data : Mem
  /-- `vfs_maxsymlen` is 0: the old format. -/
  ofs : Bool
  /-- `i_effnlink` -/
  effnlink : Nat
  /-- `offsetof(struct dirent, d_name)` -/
  direntOff : Nat

/-- `GENERIC_DIRSIZ` of a name of this length. -/
def genericDirsiz (direntOff namlen : Nat) : Nat := (direntOff + namlen + 1 + 7) / 8 * 8

/-- A `struct dirent`. -/
structure Dirent where
  fileno : Nat
  /-- `d_seekoff`, the offset of the next entry. -/
  seekoff : Nat
  type : Nat
  name : List UInt8
  deriving DecidableEq, Repr

/-- The variables of the two loops. -/
structure State where
  offset : Nat
  /-- `dp`, as an index in the buffer. -/
  dp : Nat
  /-- `uio_resid` -/
  resid : Nat
  /-- What has gone to the caller. -/
  out : List Dirent
  error : Nat
  deriving DecidableEq, Repr

section Loops

variable (arg : Arg) (startoffset startresid : Nat)

/-- The entry for the record at `p`. -/
def direntAt (offset p : Nat) : Dirent where
  fileno := dIno arg.data p
  seekoff := offset + dReclen arg.data p
  type := dType arg.ofs arg.data p
  name := dName arg.ofs arg.data p

/-- The loop over the records of a buffer, with at most `fuel` rounds. The buffer holds the bytes
from `base` on, and ends with index `readcnt`. -/
def entryLoop (base readcnt : Nat) : Nat → State → Option State
  | 0, _ => none
  | fuel + 1, s =>
      if s.error ≠ 0 ∨ s.resid = 0 ∨ readcnt ≤ s.dp then some s
      else
        let p := base + s.dp
        let reclen := dReclen arg.data p
        if reclen ≤ nameOff ∨ readcnt < s.dp + reclen then some { s with error := eio }
        else if reclen < nameOff + dNamlen arg.ofs arg.data p then some { s with error := eio }
        else if s.offset < startoffset ∨ dIno arg.data p = 0 then
          entryLoop base readcnt fuel { s with offset := s.offset + reclen, dp := s.dp + reclen }
        else
          let dstdp := direntAt arg s.offset p
          let size := genericDirsiz arg.direntOff dstdp.name.length
          if s.resid < size then
            some { s with error := if s.resid = startresid then einval else ejustreturn }
          else
            entryLoop base readcnt fuel
              { s with
                offset := s.offset + reclen
                dp := s.dp + reclen
                resid := s.resid - size
                out := s.out ++ [dstdp] }

/-- One round of the loop over the blocks, from offset `s.offset`. -/
def blockRound (fuel : Nat) (s : State) : Option State :=
  let lbn := s.offset / arg.fs.bsize
  let bufSize := blksize arg.fs arg.ip lbn
  let bOffset := lbn * bufSize
  let readcnt := if arg.ip.size < bOffset + bufSize then arg.ip.size - bOffset else bufSize
  let skipcnt := (s.offset - bOffset) / DIRBLKSIZ * DIRBLKSIZ
  entryLoop arg startoffset startresid (lbn * arg.fs.bsize) readcnt fuel
    { s with offset := bOffset + skipcnt, dp := skipcnt }

/-- The loop over the blocks. -/
def blockLoop : Nat → State → Option State
  | 0, _ => none
  | fuel + 1, s =>
      if s.error ≠ 0 ∨ s.resid = 0 ∨ arg.ip.size ≤ s.offset then some s
      else (blockRound arg startoffset startresid fuel s).bind (blockLoop fuel)

end Loops

/-- How a call returns. `eofflag` is what is stored to `a_eofflag`, if anything is. -/
structure Result where
  error : Nat
  out : List Dirent
  offset : Int
  eofflag : Option Bool
  deriving DecidableEq, Repr

/-- `ufs_readdir` with room for `resid` bytes. -/
def ufsReaddir (arg : Arg) (fuel : Nat) (offset : Int) (resid : Nat) : Option Result :=
  if offset < 0 then some ⟨einval, [], offset, none⟩
  else if arg.effnlink = 0 then some ⟨0, [], offset, none⟩
  else
    (blockLoop arg offset.toNat resid fuel ⟨offset.toNat, 0, resid, [], 0⟩).map fun s =>
      let error := if s.error = ejustreturn then 0 else s.error
      ⟨error, s.out, s.offset, if error = 0 then some (arg.ip.size ≤ s.offset) else none⟩

end UfsX.Ufs.Readdir
