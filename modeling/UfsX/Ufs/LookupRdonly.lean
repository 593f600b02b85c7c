import UfsX.Ufs.Lookup
import UfsX.Ufs.Inode

/-!
# `UfsX.Ufs.LookupRdonly`: the linear search on a read-only mount

The linear search of `ufs_lookup_ino` for the last component of a path, on a mount where
`ufs_dirbad` does no more than log. The contents of a directory are arbitrary: for each logical
block, the memory from its buffer on, which is what a record at the end of the buffer is
read from too. Reads do not fail, the name cache has no entry for the name, the directory has not
been removed, and access is granted.

`f_iosize` is `fs_bsize`. The offsets of the records that are looked at are kept in `reads`. What
comes after `found`, where `i_size` may be put right and a vnode is made, is left out.
-/

set_option autoImplicit false

namespace UfsX.Ufs.LookupRdonly

open UfsX.Lib UfsX.Ufs
open UfsX.Ffs (Fs)

/-- What is searched. -/
structure Arg where
  fs : Fs
  /-- `OFSFMT(vdp)`, which is that `vfs_maxsymlen` is 0. -/
  ofs : Bool
  /-- `buf_dataptr` of the buffer of a logical block. -/
  buf : Nat → Mem
  /-- `i_size` -/
  size : Nat
  /-- It is the size of a file, an `off_t`. -/
  size_lt : size < 2 ^ 63
  /-- `MINBSIZE` is a multiple of `DIRBLKSIZ`. -/
  bsize_dvd : DIRBLKSIZ ∣ fs.bsize
  dirchk : Bool
  nameiop : Nameiop
  /-- `cn_nameptr` and `cn_namelen` -/
  name : List UInt8
  /-- `DOWHITEOUT` in `cn_flags`. -/
  dowhiteout : Bool

/-- The variables of the search. -/
structure Scan where
  ioffset : Nat
  entryoffsetinblock : Nat
  /-- The logical block of `bp`. -/
  bp : Nat
  prevoff : Nat
  enduseful : Int
  slot : Slot
  reads : List Nat

/-- How the search loop ends. -/
inductive ScanEnd where
  /-- At a record with the name. -/
  | entry (scan : Scan)
  /-- At the end of the search. -/
  | nothing (scan : Scan)

/-- What `ufs_lookup_ino` returns: `EJUSTRETURN` with the place for a new entry, `ENOENT`, or 0 with
the inode number of the entry. -/
inductive Found where
  | ejustreturn (offset count endoff : Int)
  | enoent
  | found (ino : Nat)
  deriving DecidableEq, Repr

section Record

variable (arg : Arg)

/-- `ufs_dirbadentry`, for the record at index `o` of a buffer. -/
def dirbadentry (m : Mem) (o : Nat) : Bool :=
  if dReclen m o % 4 ≠ 0 ∨ DIRBLKSIZ - o % DIRBLKSIZ < dReclen m o ∨ dReclen m o < dirsiz arg.ofs m o ∨
      UFS_MAXNAMLEN < dNamlen arg.ofs m o then true
  else if dIno m o = 0 then false
  else decide (0 ∈ dName arg.ofs m o) || m (o + 8 + dNamlen arg.ofs m o) ≠ 0

/-- "mangled entry" -/
def mangled (m : Mem) (o : Nat) : Bool :=
  dReclen m o = 0 || decide (DIRBLKSIZ - o % DIRBLKSIZ < dReclen m o) || (arg.dirchk && dirbadentry arg m o)

/-- The record has the name. -/
def hasName (m : Mem) (o : Nat) : Bool := dIno m o ≠ 0 && dName arg.ofs m o = arg.name

/-- `DT_WHT` in a new-format directory. -/
def isWhiteout (m : Mem) (o : Nat) : Bool := !arg.ofs && dType arg.ofs m o = DT_WHT

end Record

/-- At the start of a directory block, free space is counted anew. -/
def resetSlot (slot : Slot) (entryoffsetinblock : Nat) : Slot :=
  if slot.status = .none ∧ entryoffsetinblock % DIRBLKSIZ = 0 then { slot with offset := .none, freespace := 0 } else slot

/-- The slot after a record with `size` bytes to spare. -/
def takeSlot (slot : Slot) (slotneeded ioffset reclen : Nat) (size : Int) : Slot :=
  if slot.status = .found ∨ size ≤ 0 then slot
  else if slotneeded ≤ size then { slot with status := .found, offset := some ioffset, size := reclen }
  else if slot.status = .none then
    let slotoffset := slot.offset.getD ioffset
    let freespace := slot.freespace + size.toNat
    if slotneeded ≤ freespace then
      { status := .compact, offset := some slotoffset, freespace, size := ioffset + reclen - slotoffset }
    else { slot with offset := some slotoffset, freespace }
  else slot

/-- The search loop, with at most `fuel` rounds. -/
def scanLoop (arg : Arg) (endsearch : Int) : Nat → Scan → Option ScanEnd
  | 0, _ => none
  | fuel + 1, scan =>
      if scan.ioffset < endsearch then
        let bp := if scan.ioffset % arg.fs.bsize = 0 then scan.ioffset / arg.fs.bsize else scan.bp
        let eo := if scan.ioffset % arg.fs.bsize = 0 then 0 else scan.entryoffsetinblock
        let slot := resetSlot scan.slot eo
        let m := arg.buf bp
        let reads := scan.reads ++ [bp * arg.fs.bsize + eo]
        if mangled arg m eo then
          let i := DIRBLKSIZ - eo % DIRBLKSIZ
          scanLoop arg endsearch fuel
            { scan with ioffset := scan.ioffset + i, entryoffsetinblock := eo + i, bp, slot, reads }
        else
          let reclen := dReclen m eo
          let size : Int := if dIno m eo = 0 then reclen else reclen - dirsiz arg.ofs m eo
          let slot := takeSlot slot (directsiz arg.name.length) scan.ioffset reclen size
          if hasName arg m eo then some (.entry { scan with entryoffsetinblock := eo, bp, slot, reads })
          else
            scanLoop arg endsearch fuel
              { ioffset := scan.ioffset + reclen
                entryoffsetinblock := eo + reclen
                bp
                prevoff := scan.ioffset
                enduseful := if dIno m eo = 0 then scan.enduseful else scan.ioffset + reclen
                slot
                reads }
      else some (.nothing scan)

/-- From `notfound` on, when the search is over. -/
def notfound (arg : Arg) (iswhiteout : Bool) (scan : Scan) : Found :=
  if arg.nameiop = .create ∨ arg.nameiop = .rename ∨ arg.nameiop = .delete ∧ arg.dowhiteout ∧ iswhiteout then
    match scan.slot.status, scan.slot.offset with
    | .none, _ | _, .none =>
        let offset := toI32 (roundupBlk arg.size)
        .ejustreturn offset 0 offset
    | _, some slotoffset =>
        if arg.nameiop = .delete then
          .ejustreturn slotoffset (if slotoffset % DIRBLKSIZ = 0 then 0 else slotoffset - scan.prevoff)
            (roundupBlk scan.enduseful.toNat)
        else
          .ejustreturn slotoffset scan.slot.size (roundupBlk (max scan.enduseful (slotoffset + scan.slot.size)).toNat)
  else .enoent

/-- The end of a search. A whiteout with the name is no entry; its place is the slot. -/
def scanResult (arg : Arg) : ScanEnd → Found × List Nat
  | .nothing scan => (notfound arg false scan, scan.reads)
  | .entry scan =>
      let m := arg.buf scan.bp
      let eo := scan.entryoffsetinblock
      if isWhiteout arg m eo then
        (notfound arg true { scan with
          slot := ⟨.found, some scan.ioffset, dReclen m eo, scan.slot.freespace⟩
          enduseful := toI32 arg.size }, scan.reads)
      else (.found (dIno m eo), scan.reads)

/-- The slot before the search. -/
def slotInit (arg : Arg) : Slot := ⟨if arg.nameiop = .create ∨ arg.nameiop = .rename then .none else .found, .none, 0, 0⟩

/-- The search with the cached `i_diroff`: from there to the end, and then from the beginning. -/
def search (arg : Arg) (fuel : Nat) (idiroff : Int) : Option ScanEnd :=
  let endsearch := toI32 (roundupBlk arg.size)
  if arg.nameiop ≠ .lookup ∨ idiroff = 0 ∨ toU64 idiroff ≥ arg.size then
    scanLoop arg endsearch fuel ⟨0, 0, 0, 0, 0, slotInit arg, []⟩
  else
    let o := idiroff.toNat
    (scanLoop arg endsearch fuel ⟨o, o % arg.fs.bsize, o / arg.fs.bsize, o, 0, slotInit arg, []⟩).bind fun
      | .entry scan => some (.entry scan)
      | .nothing scan => scanLoop arg idiroff fuel { scan with ioffset := 0 }

/-- What the linear search comes to, and the offsets of the records that it looks at. -/
def linear (arg : Arg) (fuel : Nat) (idiroff : Int) : Option (Found × List Nat) := (search arg fuel idiroff).map (scanResult arg)

end UfsX.Ufs.LookupRdonly
