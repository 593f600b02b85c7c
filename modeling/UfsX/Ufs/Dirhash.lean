import UfsX.Ufs.Dir

/-!
# `UfsX.Ufs.Dirhash`: the hash table of a directory

`Dirhash` maps names to the offsets of their records: an open-addressing table of
offsets, where a removed entry leaves a mark (`DIRHASH_DEL`) that is cleaned up when
an empty slot follows it. It also counts the free words of each directory block.

`fnv` stands for `fnv_32_buf` over the name and then over the address of the
structure, which does not change as long as the structure lives.

A function gives `none` where the source panics, fails an assertion or never ends.
The operations that can free the hash give `some none` then. Offsets in a directory are
of type `doff_t`, of 32 bits: the table is built from the first 2 GiB, and the other
functions are for directories that are shorter.
-/

set_option autoImplicit false

namespace UfsX.Ufs

open UfsX.Lib

def DIRHASH_EMPTY : Int := -1
def DIRHASH_DEL : Int := -2
def DIRALIGN : Nat := 4
def DH_NFSTATS : Nat := directsiz (UFS_MAXNAMLEN + 1) / DIRALIGN
def DH_NBLKOFF : Nat := 256

/-- `BLKFREE2IDX` -/
def blkfree2idx (n : Nat) : Nat := if n > DH_NFSTATS then DH_NFSTATS else n

structure Dirhash where
  /-- `DH_ENTRY` -/
  entry : Nat → Int
  narrays : Nat
  hlen : Nat
  hused : Int
  /-- Free words of each block, an array of `u_int8_t`. -/
  blkfree : Nat → Nat
  nblk : Nat
  dirblks : Nat
  firstfree : Nat → Int
  seqoff : Int

def wrapincr (val limit : Nat) : Nat := if val + 1 = limit then 0 else val + 1

def wrapdecr (val limit : Nat) : Nat := if val = 0 then limit - 1 else val - 1

namespace Dirhash

variable (dh : Dirhash)

def setEntry (slot : Nat) (v : Int) : Dirhash :=
  { dh with entry := Function.update dh.entry slot v }

/-- `ufsdirhash_hash` -/
def hash (fnv : List UInt8 → Nat) (name : List UInt8) : Nat := fnv name % dh.hlen

/-- A loop over the slots from `slot` on, that ends at the first entry with
`stop`. -/
def probe (stop : Int → Bool) : Nat → Nat → Option Nat
  | 0, _ => none
  | fuel + 1, slot =>
      if stop (dh.entry slot) then some slot else probe stop fuel (wrapincr slot dh.hlen)

/-- `ufsdirhash_adjfree` -/
def adjfree (offset : Nat) (diff : Int) : Option Dirhash :=
  let block := offset / DIRBLKSIZ
  if block < dh.nblk ∧ block < dh.dirblks then
    let ofidx := blkfree2idx (dh.blkfree block)
    let free := (((dh.blkfree block : Int) + diff.tdiv DIRALIGN) % 256).toNat
    let nfidx := blkfree2idx free
    let blkfree := Function.update dh.blkfree block free
    if ofidx = nfidx then some { dh with blkfree := blkfree }
    else
      -- removing: the next block that has as much
      let firstfree :=
        if dh.firstfree ofidx = block then
          let next := (List.range' (block + 1) (dh.dirblks - (block + 1))).find?
            fun i => blkfree2idx (blkfree i) = ofidx
          Function.update dh.firstfree ofidx (next.elim (-1) fun i => (i : Int))
        else dh.firstfree
      let firstfree :=
        if firstfree nfidx > block ∨ firstfree nfidx = -1 then
          Function.update firstfree nfidx block
        else firstfree
      some { dh with blkfree := blkfree, firstfree := firstfree }
  else none

/-- `ufsdirhash_findslot` -/
def findslot (fnv : List UInt8 → Nat) (name : List UInt8) (offset : Nat) : Option Nat :=
  if dh.hused < dh.hlen then
    match dh.probe (fun e => e = offset ∨ e = DIRHASH_EMPTY) dh.hlen (dh.hash fnv name) with
    | none => none
    | some slot => if dh.entry slot = offset then some slot else none
  else none

/-- The second loop of `ufsdirhash_delslot`: backwards over deleted slots, and then the
assertion. -/
def cleanBack : Nat → Nat → Dirhash → Option Dirhash
  | 0, _, _ => none
  | fuel + 1, i, dh =>
      if dh.entry i = DIRHASH_DEL then
        cleanBack fuel (wrapdecr i dh.hlen)
          { dh.setEntry i DIRHASH_EMPTY with hused := dh.hused - 1 }
      else if 0 ≤ dh.hused then some dh
      else none

/-- `ufsdirhash_delslot` -/
def delslot (slot : Nat) : Option Dirhash :=
  let dh := dh.setEntry slot DIRHASH_DEL
  match dh.probe (fun e => e ≠ DIRHASH_DEL) (dh.hlen + 1) slot with
  | none => none
  | some i =>
      if dh.entry i = DIRHASH_EMPTY then cleanBack (dh.hlen + 1) (wrapdecr i dh.hlen) dh
      else some dh

/-- `ufsdirhash_add` -/
def add (fnv : List UInt8 → Nat) (name : List UInt8) (offset : Nat) : Option (Option Dirhash) :=
  if offset < dh.dirblks * DIRBLKSIZ then
    if dh.hused ≥ dh.hlen * 3 / 4 then some none
    else
      match dh.probe (fun e => e < 0) dh.hlen (dh.hash fnv name) with
      | none => none
      | some slot =>
          let hused := if dh.entry slot = DIRHASH_EMPTY then dh.hused + 1 else dh.hused
          let dh := { dh.setEntry slot offset with hused := hused }
          (dh.adjfree offset (-(directsiz name.length : Int))).map some
  else none

/-- `ufsdirhash_remove` -/
def remove (fnv : List UInt8 → Nat) (name : List UInt8) (offset : Nat) : Option (Option Dirhash) :=
  if offset < dh.dirblks * DIRBLKSIZ then
    match dh.findslot fnv name offset with
    | none => none
    | some slot =>
        match dh.delslot slot with
        | none => none
        | some dh => (dh.adjfree offset (directsiz name.length)).map some
  else none

/-- `ufsdirhash_move` -/
def move (fnv : List UInt8 → Nat) (name : List UInt8) (oldoff newoff : Nat) : Option (Option Dirhash) :=
  if oldoff < dh.dirblks * DIRBLKSIZ ∧ newoff < dh.dirblks * DIRBLKSIZ then
    match dh.findslot fnv name oldoff with
    | none => none
    | some slot => some (some (dh.setEntry slot newoff))
  else none

/-- `ufsdirhash_newblk` -/
def newblk (offset : Nat) : Option (Option Dirhash) :=
  if offset = dh.dirblks * DIRBLKSIZ then
    let block := offset / DIRBLKSIZ
    if block ≥ dh.nblk then some none
    else
      some (some { dh with
        dirblks := block + 1
        blkfree := Function.update dh.blkfree block (DIRBLKSIZ / DIRALIGN)
        firstfree :=
          if dh.firstfree DH_NFSTATS = -1 then Function.update dh.firstfree DH_NFSTATS block
          else dh.firstfree })
  else none

/-- `ufsdirhash_dirtrunc` -/
def dirtrunc (offset : Nat) : Option (Option Dirhash) :=
  if offset ≤ dh.dirblks * DIRBLKSIZ then
    let block := howmany offset DIRBLKSIZ
    if block < dh.nblk / 8 ∧ dh.narrays > 1 then some none
    else
      let firstfree :=
        if dh.firstfree DH_NFSTATS ≥ block then Function.update dh.firstfree DH_NFSTATS (-1)
        else dh.firstfree
      if ∃ i < dh.dirblks, block ≤ i ∧ dh.blkfree i ≠ DIRBLKSIZ / DIRALIGN then none
      else if ∃ i < DH_NFSTATS, firstfree i ≥ block then none
      else some (some { dh with firstfree := firstfree, dirblks := block })
  else none

/-- `ufsdirhash_enduseful` -/
def enduseful : Int :=
  if dh.blkfree (dh.dirblks - 1) ≠ DIRBLKSIZ / DIRALIGN then -1
  else
    -- the last block that is not free
    match (List.range dh.dirblks).reverse.find? fun i => dh.blkfree i ≠ DIRBLKSIZ / DIRALIGN with
    | none => 0
    | some i => ((i + 1) * DIRBLKSIZ : Nat)

/-- The loop of `ufsdirhash_getprev`, at offset `i` of the block. -/
def getprevLoop (data : Mem) (blkoff entrypos : Nat) : Nat → Nat → Nat → Int
  | 0, _, _ => -1
  | fuel + 1, i, prevoff =>
      if i < entrypos then
        let reclen := dReclen data (blkoff + i)
        if reclen = 0 ∨ i + reclen > entrypos then -1
        else getprevLoop data blkoff entrypos fuel (i + reclen) (blkoff + i)
      else prevoff

/-- `ufsdirhash_getprev` -/
def getprev (data : Mem) (offset : Nat) : Int :=
  let blkoff := offset / DIRBLKSIZ * DIRBLKSIZ
  let entrypos := offset % DIRBLKSIZ
  if entrypos = 0 then -1 else getprevLoop data blkoff entrypos (entrypos + 1) 0 blkoff

end Dirhash

/-! ### `ufsdirhash_build` -/

/-- The loop over the entries of the directory. `none` is a corrupted directory, or a
loop that does not end. -/
def buildLoop (fnv : List UInt8 → Nat) (data : Mem) (size : Nat) :
    Nat → Nat → Dirhash → Option Dirhash
  | 0, _, _ => none
  | fuel + 1, pos, dh =>
      -- from 2 GiB on `pos` is negative, which `i_size` is compared with as unsigned
      if pos < size ∧ pos < 2147483648 then
        let reclen := dReclen data pos
        if reclen = 0 ∨ reclen > DIRBLKSIZ - pos % DIRBLKSIZ then none
        else if dIno data pos = 0 then buildLoop fnv data size fuel (pos + reclen) dh
        else
          match dh.probe (fun e => e = DIRHASH_EMPTY) dh.hlen (dh.hash fnv (dName false data pos)) with
          | none => none
          | some slot =>
              let dh := { dh.setEntry slot pos with hused := dh.hused + 1 }
              match dh.adjfree pos (-(dirsiz false data pos : Int)) with
              | none => none
              | some dh => buildLoop fnv data size fuel (pos + reclen) dh
      else some dh

/-- The table before the first entry. -/
def buildInit (size : Nat) : Dirhash :=
  let nslots := (size / directsiz 1 * 3 + 1) / 2
  let narrays := howmany nslots DH_NBLKOFF
  let dirblocks := howmany size DIRBLKSIZ
  { entry := fun _ => DIRHASH_EMPTY
    narrays := narrays
    hlen := narrays * DH_NBLKOFF
    hused := 0
    blkfree := fun _ => DIRBLKSIZ / DIRALIGN
    nblk := (dirblocks * 3 + 1) / 2
    dirblks := dirblocks
    firstfree := fun i => if i = DH_NFSTATS then 0 else -1
    seqoff := -1 }

/-- A build for which there is memory. -/
def ufsdirhashBuild (fnv : List UInt8 → Nat) (data : Mem) (size : Nat) : Option Dirhash :=
  -- "ufsdirhash_build size"
  if size < DIRBLKSIZ then none else buildLoop fnv data size (size + 1) 0 (buildInit size)

/-! ### `ufsdirhash_lookup` -/

/-- How a lookup ends. -/
inductive HashLookup where
  | found (offset : Nat) (prevoff : Int)
  | enoent
  /-- The directory is corrupted: the caller searches for itself. -/
  | ejustreturn
  deriving DecidableEq, Repr

/-- The walk along a chain. With `seq`, a name that does not match ends it
(`none` inside), and the search begins again without the shortcut. -/
def lookupChain (dh : Dirhash) (data : Mem) (size : Nat) (name : List UInt8) (wantprev seq : Bool) :
    Nat → Nat → Option (Option HashLookup)
  | 0, _ => none
  | fuel + 1, slot =>
      let e := dh.entry slot
      if e = DIRHASH_EMPTY then some (some .enoent)
      else if e = DIRHASH_DEL then
        lookupChain dh data size name wantprev seq fuel (wrapincr slot dh.hlen)
      else if e < 0 ∨ e ≥ size then none
      else
        let offset := e.toNat
        let reclen := dReclen data offset
        if reclen = 0 ∨ reclen > DIRBLKSIZ - offset % DIRBLKSIZ then some (some .ejustreturn)
        else if dNamlen false data offset = name.length
            ∧ data.readBytes (offset + 8) name.length = name then
          if wantprev ∧ offset % DIRBLKSIZ ≠ 0 then
            let prevoff := Dirhash.getprev data offset
            if prevoff = -1 then some (some .ejustreturn) else some (some (.found offset prevoff))
          else some (some (.found offset offset))
        else if seq then some none
        else lookupChain dh data size name wantprev seq fuel (wrapincr slot dh.hlen)

/-- The slot that holds `seqoff`, in the chain of the name. -/
def seqSlot (dh : Dirhash) (slot : Nat) : Option (Option Nat) :=
  match dh.probe (fun e => e = DIRHASH_EMPTY ∨ e = dh.seqoff) dh.hlen slot with
  | none => none
  | some i => some (if dh.entry i = dh.seqoff then some i else none)

/-- The walk from the slot of the name, by the shortcut first. -/
def lookupWalk (fnv : List UInt8 → Nat) (dh : Dirhash) (data : Mem) (size : Nat) (name : List UInt8)
    (wantprev : Bool) : Option (Option HashLookup) :=
  let slot := dh.hash fnv name
  let chain (seq : Bool) (slot : Nat) := lookupChain dh data size name wantprev seq dh.hlen slot
  if dh.seqoff ≠ -1 then
    match seqSlot dh slot with
    | none => none
    | some none => chain false slot
    | some (some i) =>
        match chain true i with
        | some none => chain false slot
        | r => r
  else chain false slot

/-- `ufsdirhash_lookup`, with the previous offset when it is asked for. -/
def ufsdirhashLookup (fnv : List UInt8 → Nat) (dh : Dirhash) (data : Mem) (size : Nat)
    (name : List UInt8) (wantprev : Bool) : Option (HashLookup × Dirhash) :=
  match lookupWalk fnv dh data size name wantprev with
  | none | some none => none
  | some (some r) =>
      match r with
      | .found offset _ => some (r, { dh with seqoff := offset + dirsiz false data offset })
      | _ => some (r, dh)

/-! ### `ufsdirhash_findfree` -/

/-- The first entry with free space, from offset `i` of the block at `pos`. -/
def findfreeFirst (data : Mem) (pos : Nat) : Nat → Nat → Option Nat
  | 0, _ => none
  | fuel + 1, i =>
      if i < DIRBLKSIZ then
        let reclen := dReclen data (pos + i)
        if reclen = 0 then none
        else if dIno data (pos + i) = 0 ∨ reclen > dirsiz false data (pos + i) then some i
        else findfreeFirst data pos fuel (i + reclen)
      else some i

/-- The end of the range of entries with enough space together, and the space. -/
def findfreeRange (data : Mem) (pos slotneeded : Nat) : Nat → Nat → Nat → Option (Nat × Nat)
  | 0, _, _ => none
  | fuel + 1, i, freebytes =>
      if i < DIRBLKSIZ ∧ freebytes < slotneeded then
        let reclen := dReclen data (pos + i)
        if reclen = 0 then none
        else
          let used := if dIno data (pos + i) = 0 then 0 else dirsiz false data (pos + i)
          findfreeRange data pos slotneeded fuel (i + reclen) (freebytes + reclen - used)
      else some (i, freebytes)

/-- `ufsdirhash_findfree`: where the slot starts, and its size; `some none` is -1. -/
def ufsdirhashFindfree (dh : Dirhash) (data : Mem) (slotneeded : Nat) : Option (Option (Nat × Nat)) :=
  let first := howmany slotneeded DIRALIGN
  match (List.range' first (DH_NFSTATS + 1 - first)).find? fun i => dh.firstfree i ≠ -1 with
  | none => some none
  | some idx =>
      let dirblock := (dh.firstfree idx).toNat
      if dirblock < dh.nblk ∧ dh.blkfree dirblock ≥ first then
        let pos := dirblock * DIRBLKSIZ
        match findfreeFirst data pos (DIRBLKSIZ + 1) 0 with
        | none => some none
        | some i =>
            if i > DIRBLKSIZ then some none
            else
              match findfreeRange data pos slotneeded (DIRBLKSIZ + 1) i 0 with
              | none => some none
              | some (j, freebytes) =>
                  if j > DIRBLKSIZ then some none
                  else if freebytes < slotneeded then none
                  else some (some (pos + i, pos + j - (pos + i)))
      else none

end UfsX.Ufs
