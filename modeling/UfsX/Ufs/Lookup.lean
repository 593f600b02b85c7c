import UfsX.Lib.CInt
import UfsX.Ufs.Dirhash

/-!
# `UfsX.Ufs.Lookup`: looking names up, entering and removing them

`ufs_lookup_ino` searches a directory for a name, with the hash table or by a scan,
and for `CREATE` and `RENAME` looks for a place for a new entry at the same time. It
leaves what it found in the inode of the directory: `i_offset`, `i_count` and
`i_endoff`. `ufs_direnter` and `ufs_dirremove` take it from there.

The contents of a directory are an ideal byte array: blocks are read and written, the
file grows and shrinks as asked. The name cache has no entry for the name, access is
granted, and the directory is on a writable mount, where `ufs_dirbad` panics. Panics,
failed assertions, loops that do not end and a new block at a negative offset are
`none`. `dirchk` is off.
-/

set_option autoImplicit false

namespace UfsX.Ufs

open UfsX.Lib

inductive Nameiop where
  | lookup
  | create
  | delete
  | rename
  deriving DecidableEq, Repr

/-- The inode of a directory, and its contents. `doff_t` has 32 bits. -/
structure Dir where
  data : Mem
  size : Nat
  offset : Int
  count : Int
  endoff : Int
  diroff : Int
  dirhash : Option Dirhash

/-- `slotstatus` -/
inductive SlotStatus where
  | none
  | compact
  | found
  deriving DecidableEq, Repr

/-- A place for a new entry. No offset is -1. -/
structure Slot where
  status : SlotStatus
  offset : Option Nat
  size : Nat
  freespace : Nat
  deriving DecidableEq, Repr

/-- The variables of the search loop. -/
structure Scan where
  ioffset : Nat
  prevoff : Nat
  enduseful : Nat
  slot : Slot
  deriving DecidableEq, Repr

/-- The slot after a record with `size` bytes to spare. At the start of a directory
block, free space is counted anew. -/
def Slot.step (slot : Slot) (slotneeded ioffset reclen size : Nat) : Slot :=
  let slot :=
    if slot.status = .none ∧ ioffset % DIRBLKSIZ = 0 then { slot with offset := .none, freespace := 0 }
    else slot
  if slot.status = .found ∨ size = 0 then slot
  else if slotneeded ≤ size then { slot with status := .found, offset := some ioffset, size := reclen }
  else if slot.status = .none then
    let slotoffset := slot.offset.getD ioffset
    let freespace := slot.freespace + size
    if slotneeded ≤ freespace then
      { slot with
        status := .compact
        offset := some slotoffset
        freespace := freespace
        size := ioffset + reclen - slotoffset }
    else { slot with offset := some slotoffset, freespace := freespace }
  else slot

/-- How the search loop ends. -/
inductive ScanEnd where
  /-- At a record with the name. -/
  | entry (scan : Scan)
  /-- At the end of the search. -/
  | nothing (scan : Scan)

/-- The search loop. -/
def scanLoop (ofs : Bool) (data : Mem) (name : List UInt8) (slotneeded : Nat) (endsearch : Int) :
    Nat → Scan → Option ScanEnd
  | 0, _ => none
  | fuel + 1, scan =>
      if scan.ioffset < endsearch then
        let o := scan.ioffset
        let reclen := dReclen data o
        -- "mangled entry"
        if reclen = 0 ∨ reclen > DIRBLKSIZ - o % DIRBLKSIZ then none
        else
          let size := if dIno data o = 0 then reclen else reclen - dirsiz ofs data o
          let slot := scan.slot.step slotneeded o reclen size
          if dIno data o ≠ 0 ∧ dName ofs data o = name then some (.entry { scan with slot := slot })
          else
            scanLoop ofs data name slotneeded endsearch fuel
              { ioffset := o + reclen
                prevoff := o
                enduseful := if dIno data o = 0 then scan.enduseful else o + reclen
                slot := slot }
      else some (.nothing scan)

/-- What `ufs_lookup_ino` returns: `EJUSTRETURN`, `ENOENT`, or 0 with the inode
number of the entry. -/
inductive Found where
  | ejustreturn
  | enoent
  | found (ino : Nat)
  deriving DecidableEq, Repr

namespace Dir

variable (d : Dir)

/-- From `notfound` on, when the search is over. -/
def notfound (nameiop : Nameiop) (slot : Slot) (enduseful : Int) : Found × Dir :=
  if nameiop = .create ∨ nameiop = .rename then
    match slot.status, slot.offset with
    | .none, _ | _, .none =>
        let offset := toI32 (roundupBlk d.size)
        (.ejustreturn, { d with offset := offset, count := 0, endoff := offset })
    | _, some slotoffset =>
        let slotend : Int := slotoffset + slot.size
        let enduseful := if enduseful < slotend then slotend else enduseful
        (.ejustreturn, { d with
          offset := slotoffset
          count := slot.size
          endoff := roundupBlk enduseful.toNat })
  else (.enoent, d)

/-- From `found` on, for the last component: remember where the entry is. -/
def found (ofs : Bool) (nameiop : Nameiop) (offset : Nat) (prevoff : Int) : Option (Found × Dir) :=
  -- "i_size too small"
  if offset + dirsiz ofs d.data offset > d.size then none
  else
    let ino := dIno d.data offset
    match nameiop with
    | .lookup => some (.found ino, { d with diroff := (offset / DIRBLKSIZ * DIRBLKSIZ : Nat) })
    | .delete =>
        some (.found ino, { d with
          offset := offset
          count := if offset % DIRBLKSIZ = 0 then 0 else offset - prevoff })
    | .rename => some (.found ino, { d with offset := offset })
    | .create => some (.found ino, d)

/-- A whiteout with the name: its place is the slot. -/
def isWhiteout (ofs : Bool) (offset : Nat) : Bool := !ofs && dType ofs d.data offset = DT_WHT

/-- The end of a search, at an entry or at none. -/
def scanResult (ofs : Bool) (nameiop : Nameiop) : ScanEnd → Option (Found × Dir)
  | .nothing scan => some (d.notfound nameiop scan.slot scan.enduseful)
  | .entry scan =>
      if d.isWhiteout ofs scan.ioffset then
        some (d.notfound nameiop
          { scan.slot with
            status := .found
            offset := some scan.ioffset
            size := dReclen d.data scan.ioffset }
          (toI32 d.size))
      else d.found ofs nameiop scan.ioffset scan.prevoff

/-- The slot before the search. -/
def slotInit (nameiop : Nameiop) : Slot :=
  ⟨if nameiop = .create ∨ nameiop = .rename then .none else .found, .none, 0, 0⟩

/-- The linear search, with the slot found so far. `LOOKUP` begins where the last one
ended, and then searches the beginning. -/
def search (ofs : Bool) (nameiop : Nameiop) (name : List UInt8) (slot : Slot) : Option ScanEnd :=
  let slotneeded := directsiz name.length
  let endsearch := toI32 (roundupBlk d.size)
  let loop (endsearch : Int) (scan : Scan) :=
    scanLoop ofs d.data name slotneeded endsearch (d.size + DIRBLKSIZ + 1) scan
  if nameiop ≠ .lookup ∨ d.diroff = 0 ∨ d.diroff ≥ d.size then loop endsearch ⟨0, 0, 0, slot⟩
  else
    (loop endsearch ⟨d.diroff.toNat, d.diroff.toNat, 0, slot⟩).bind fun
      | .entry scan => some (.entry scan)
      | .nothing scan => loop d.diroff { scan with ioffset := 0 }

def linear (ofs : Bool) (nameiop : Nameiop) (name : List UInt8) (slot : Slot) : Option (Found × Dir) :=
  (d.search ofs nameiop name slot).bind (d.scanResult ofs nameiop)

/-- `ufs_lookup_ino` for the last component of a path. -/
def ufsLookupIno (fnv : List UInt8 → Nat) (ofs : Bool) (nameiop : Nameiop) (name : List UInt8) :
    Option (Found × Dir) :=
  match d.dirhash with
  | none => d.linear ofs nameiop name (slotInit nameiop)
  | some dh =>
      -- look for a free slot if one is needed
      let free : Option (Slot × Int) :=
        if nameiop = .create ∨ nameiop = .rename then
          match ufsdirhashFindfree dh d.data (directsiz name.length) with
          | none => none
          | some none => some (slotInit nameiop, toI32 d.size)
          | some (some (slotoffset, slotsize)) =>
              some (⟨.compact, some slotoffset, slotsize, 0⟩,
                if dh.enduseful < 0 then toI32 d.size else dh.enduseful)
        else some (slotInit nameiop, toI32 d.size)
      match free with
      | none => none
      | some (slot, enduseful) =>
          match ufsdirhashLookup fnv dh d.data d.size name (nameiop = .delete) with
          | none => none
          | some (.enoent, dh) => some ({ d with dirhash := some dh }.notfound nameiop slot enduseful)
          | some (.found offset prevoff, dh) =>
              let d := { d with dirhash := some dh }
              if d.isWhiteout ofs offset then
                some (d.notfound nameiop ⟨.found, some offset, dReclen d.data offset, 0⟩
                  (toI32 d.size))
              else d.found ofs nameiop offset prevoff
          | some (.ejustreturn, dh) => { d with dirhash := some dh }.linear ofs nameiop name slot

end Dir

/-! ### `ufs_direnter` -/

/-- An operation on the hash table, if there is one. -/
def withHash (dirhash : Option Dirhash) (f : Dirhash → Option (Option Dirhash)) :
    Option (Option Dirhash) :=
  match dirhash with
  | none => some none
  | some dh => f dh

/-- The variables of the loop that compacts a slot. `ep` and `loc` are relative to
the slot. -/
structure Compact where
  data : Mem
  dirhash : Option Dirhash
  ep : Nat
  dsize : Nat
  spacefree : Nat
  loc : Nat

/-- The loop: the records of the slot, `base` to `base + count`, move together. -/
def compactLoop (fnv : List UInt8 → Nat) (ofs : Bool) (base count : Nat) :
    Nat → Compact → Option Compact
  | 0, _ => none
  | fuel + 1, c =>
      if c.loc < count then
        let nep := c.loc
        -- trim the existing slot
        let data := setReclen c.data (base + c.ep) c.dsize
        let ep := c.ep + c.dsize
        let reclen := dReclen data (base + nep)
        if dIno data (base + nep) = 0 then
          -- an unused entry in the middle of the block
          compactLoop fnv ofs base count fuel
            { c with
              data := setIno data (base + ep) 0
              ep := ep
              dsize := 0
              spacefree := c.spacefree + reclen
              loc := nep + reclen }
        else
          let dsize := dirsiz ofs data (base + nep)
          match withHash c.dirhash
              (·.move fnv (dName false data (base + nep)) (base + nep) (base + ep)) with
          | none => none
          | some dirhash =>
              compactLoop fnv ofs base count fuel
                { data := data.copy (base + ep) data (base + nep) dsize
                  dirhash := dirhash
                  ep := ep
                  dsize := dsize
                  spacefree := c.spacefree + (reclen - dsize)
                  loc := nep + reclen }
      else some c

namespace Dir

variable (d : Dir)

/-- The end of `ufs_direnter`: shorten the directory, except for a rename. The
comparison with the size is unsigned, so that a negative offset is behind the end. -/
def shorten (isrename : Bool) : Option Dir :=
  if !isrename ∧ d.endoff ≠ 0 ∧ 0 ≤ d.endoff ∧ d.endoff < d.size then
    match withHash d.dirhash (·.dirtrunc d.endoff.toNat) with
    | none => none
    | some dirhash => some { d with size := d.endoff.toNat, dirhash := dirhash }
  else some d

/-- A new entry in a new block. The new block is cleared. -/
def enterNewblk (fnv : List UInt8 → Nat) (ofs : Bool) (dirp : Direct) : Option Dir :=
  -- "ufs_direnter: newblk"
  if d.offset % DIRBLKSIZ ≠ 0 ∨ d.offset < 0 then none
  else
    let base := d.offset.toNat
    let size := toU64 (toI32 (d.offset + DIRBLKSIZ))
    let data := d.data.zero base DIRBLKSIZ
    let data := data.copy base (dirp.bytes ofs DIRBLKSIZ) 0 (directsiz dirp.name.length)
    match withHash d.dirhash (·.newblk base) with
    | none => none
    | some dirhash =>
        match withHash dirhash (·.add fnv dirp.name base) with
        | none => none
        | some dirhash =>
            some { d with
              data := data
              size := size.toNat
              endoff := toI32 size
              dirhash := dirhash }

/-- The record at `ep` gives its place to the new entry: it is unused, or a whiteout
with the name. -/
def unusedFor (ofs : Bool) (dirp : Direct) (data : Mem) (ep : Nat) : Bool :=
  -- `dirp->d_namlen`
  let n := if ofs then dirp.type else dirp.name.length
  dIno data ep = 0
    ∨ (dIno data ep = UFS_WINO ∧ dNamlen ofs data ep = n ∧ data.readBytes (ep + 8) n = dirp.name.take n)

/-- After the loop: the new entry goes behind the last record of the slot, or in its
place if that record is unused. -/
def enterCompacted (fnv : List UInt8 → Nat) (ofs : Bool) (dirp : Direct) (base : Nat) (c : Compact) :
    Option Dir :=
  let newentrysize := directsiz dirp.name.length
  let ep := base + c.ep
  let unused := unusedFor ofs dirp c.data ep
  -- "ufs_direnter: compact1", "ufs_direnter: compact2"
  if (unused ∧ c.spacefree + c.dsize < newentrysize) ∨ (¬ unused ∧ c.spacefree < newentrysize) then
    none
  else
    let newreclen := if unused then c.spacefree + c.dsize else c.spacefree
    let data := if unused then c.data else setReclen c.data ep c.dsize
    let ep := if unused then ep else ep + c.dsize
    let hash :=
      if dIno data ep = 0 ∨ newreclen = c.spacefree then withHash c.dirhash (·.add fnv dirp.name ep)
      else some c.dirhash
    match hash with
    | none => none
    | some dirhash =>
        some { d with
          data := data.copy ep (dirp.bytes ofs newreclen) 0 newentrysize
          dirhash := dirhash }

/-- A new entry in the slot that the lookup has found. -/
def enterSlot (fnv : List UInt8 → Nat) (ofs : Bool) (dirp : Direct) (isrename : Bool) : Option Dir :=
  let base := d.offset.toNat
  let count := d.count.toNat
  let d := { d with size := if base + count > d.size then base + count else d.size }
  let reclen := dReclen d.data base
  let dsize := if dIno d.data base = 0 then 0 else dirsiz ofs d.data base
  match compactLoop fnv ofs base count (count + 1) ⟨d.data, d.dirhash, 0, dsize, reclen - dsize, reclen⟩ with
  | none => none
  | some c =>
      match d.enterCompacted fnv ofs dirp base c with
      | none => none
      | some d => d.shorten isrename

/-- `ufs_direnter` -/
def ufsDirenter (fnv : List UInt8 → Nat) (ofs : Bool) (dirp : Direct) (isrename : Bool) : Option Dir :=
  if d.count = 0 then d.enterNewblk fnv ofs dirp else d.enterSlot fnv ofs dirp isrename

/-- `ufs_dirremove`, for an entry of inode `ino`. The record is cleared, and its space
goes to the record before it. -/
def ufsDirremove (fnv : List UInt8 → Nat) (ino : Nat) : Option Dir :=
  let ep := (d.offset - d.count).toNat
  let rep := if d.count = 0 then ep else ep + dReclen d.data ep
  match withHash d.dirhash (·.remove fnv (dName false d.data rep) d.offset.toNat) with
  | none => none
  | some dirhash =>
      -- "ip does not match dirent ino"
      if dIno d.data rep ≠ ino then none
      else
        let data := d.data.zero (rep + 8) (d.data (rep + 7)).toNat
        let data := setIno (data.zero (rep + 6) 2) rep 0
        let data :=
          if d.count = 0 then data
          else setReclen (setReclen data ep (dReclen data ep + dReclen data rep)) rep 0
        some { d with data := data, dirhash := dirhash }

def EIDRM : Nat := 90

/-- `ufs_dirrewrite` of the entry at `i_offset`, which the look-up has found to be for inode
`oino`: the error, and the directory. The block is read and written without an error. -/
def ufsDirrewrite (ofs : Bool) (oino newinum newtype : Nat) : Nat × Dir :=
  let ep := d.offset.toNat
  if (d.data (ep + 7)).toNat = 2 ∧ d.data (ep + 9) = 46 ∧ d.data (ep + 8) = 46 ∧ dIno d.data ep ≠ oino then
    (EIDRM, d)
  else
    let data := setIno d.data ep newinum
    let data := if ofs then data else data.write8 (ep + 6) (UInt8.ofNat newtype)
    (0, { d with data := data })

end Dir

/-! ### The links of the inode -/

/-- What `ufs_dirremove` reads and writes of the inode that loses a name. -/
structure Unlinked where
  number : Nat
  effnlink : BitVec 32
  nlink : BitVec 16
  /-- `di_nlink` -/
  dinlink : BitVec 16

/-- `ufs_dirremove` without soft updates and without `DOWHITEOUT`, where `UFS_BLKATOFF` returns
`blkatoff`: the error, the directory and the inode. The block is written without an error. -/
def ufsDirremoveLinks (fnv : List UInt8 → Nat) (d : Dir) (ip : Unlinked) (blkatoff : Nat) :
    Option (Nat × Dir × Unlinked) :=
  let ip := { ip with effnlink := ip.effnlink - 1, nlink := ip.nlink - 1, dinlink := ip.nlink - 1 }
  if blkatoff ≠ 0 then
    some (blkatoff, d, { ip with effnlink := ip.effnlink + 1, nlink := ip.nlink + 1, dinlink := ip.nlink + 1 })
  else (d.ufsDirremove fnv ip.number).map fun d => (0, d, ip)

end UfsX.Ufs
