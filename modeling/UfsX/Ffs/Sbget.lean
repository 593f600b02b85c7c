import UfsX.Ffs.Superblock
import UfsX.Lib.Heap

/-!
# `UfsX.Ffs.Sbget`: the superblock, from reads and allocations that may fail

`readsuper` and `ffs_sbget` (`ffs_subr.c`) once more. In `UfsX.Ffs.Superblock` every read
and every allocation succeeds; here each has a result of its own, and what is allocated and
freed is kept in a `Heap`.

The sizes and counts are C `int`s. `none` stands for a call that does not return: a panic, a
division by zero, an overflow of an `int`, a hash over memory outside the buffer, or a loop
that has used its rounds up. Where on the device a piece of the summary is read from, and
what it holds, is left out.
-/

set_option autoImplicit false

namespace UfsX.Ffs.Sbget

open UfsX.Lib

def ENOSPC : Nat := 28

/-- An error number. -/
abbrev Failure : Type := { error : Nat // error ≠ 0 }

/-! ### `readsuper` -/

/-- What `readfunc` gives for a location of the superblock: an error, with or without a
buffer, or the bytes. -/
inductive SbRead where
  | failed (error : Failure) (buf : Bool)
  | ok (fs : Sb)

def SbRead.hasBuf : SbRead → Bool
  | .failed _ buf => buf
  | .ok _ => true

/-- `ffs_calc_sbhash` stays in the buffer: `fs_sbsize` is no longer than it, but may be
negative. -/
def HashInside (fs : Sb) : Prop := fs.metackhash &&& CK_SUPERBLOCK ≠ 0 → 0 ≤ fs.sbsize

instance (fs : Sb) : Decidable (HashInside fs) := inferInstanceAs (Decidable (_ → _))

/-- `readsuper`, with what the read gives. -/
def readsuperOn [SysParam] (host : Host) (read : SbRead) (sblockloc : Nat) (isaltsblk chkhash : Bool) :
    Option (ReadResult Sb) :=
  match read with
  | .failed error _ => some (.error error)
  | .ok fs =>
      if fs.magic = FS_BAD_MAGIC then some (.error EINVAL)
      else if Acceptable fs sblockloc isaltsblk then
        let fs := fs.mask
        if ¬ HashInside fs then none
        else if fs.ckhash ≠ ffsCalcSbhash fs then
          if chkhash then some (.error ESTALE)
          else some (.ignored ((fs.setFlags (fs.flags ||| FS_NEEDSFSCK)).setFmod 1))
        else some (.ok ((fs.setSblockactualloc sblockloc).setSi 0))
      else
        match host with
        | .user => some (.error ENOENT)
        | .kernel => none

/-! ### The search -/

/-- What is allocated. -/
inductive SbObj where
  /-- The buffer of the superblock at a location. -/
  | sb (loc : Nat)
  | si
  /-- The block of the three arrays. -/
  | csp
  /-- The buffer of a piece of the summary. -/
  | buf (k : Nat)
  deriving DecidableEq, Repr

/-- What the reads of the four locations give. -/
abbrev Disk : Type := Nat → SbRead

def freeSb (read : SbRead) (loc : Nat) (heap : Heap SbObj) : Heap SbObj :=
  if read.hasBuf then heap.free (.sb loc) else heap

def allocSb (read : SbRead) (loc : Nat) (heap : Heap SbObj) : Heap SbObj :=
  if read.hasBuf then heap.alloc (.sb loc) else heap

/-- The loop of `ffs_sbget` over `sblock_try`: an error, or a superblock and where it is. -/
def searchLoop [SysParam] (host : Host) (disk : Disk) (chkhash : Bool) :
    List Nat → Heap SbObj → Option (Except Nat (Nat × Sb) × Heap SbObj)
  | [], heap => some (.error ENOENT, heap)
  | loc :: locs, heap =>
      let heap := allocSb (disk loc) loc heap
      match readsuperOn host (disk loc) loc false chkhash with
      | none => none
      | some .panic => none
      | some (.ignored fs) => some (.ok (loc, fs), heap)
      | some (.ok fs) => some (.ok (loc, fs), heap)
      | some (.error error) =>
          let heap := freeSb (disk loc) loc heap
          if error = ENOENT then searchLoop host disk chkhash locs heap
          else some (.error error, heap)

/-! ### The summary information -/

/-- What `readfunc` gives for a piece of the summary. -/
inductive PieceRead where
  | failed (error : Failure) (buf : Bool)
  | ok
  deriving DecidableEq

/-- What the allocations and the reads behind the superblock give. -/
structure Outcomes where
  si : Bool
  space : Bool
  piece : Nat → PieceRead

section Fields

variable (fs : Sb)

def cssize : Int := toI32 (fs.read32 156)
def bsize : Int := toI32 (fs.read32 48)
def fsize : Int := toI32 (fs.read32 52)
def frag : Int := toI32 (fs.read32 56)
def contigsumsize : Int := toI32 (fs.read32 1316)

/-- `size`, when the three arrays are allocated. -/
def blockSize : Int :=
  let size := cssize fs
  let size := if 0 < contigsumsize fs then toI32 (size + 4 * fs.ncg) else size
  toI32 (size + fs.ncg)

end Fields

/-- The quotient in `howmany`, rounded up if it is positive. -/
def roundedUp (x y : Int) : Int := if x.tmod y = 0 then x.tdiv y else x.tdiv y + 1

/-- `howmany(x, y)` of `int`s. -/
def howmany (x y : Int) : Option Int :=
  if y = 0 ∨ (x = -2 ^ 31 ∧ y = -1) then none else some (roundedUp x y)

/-- Memory that is written to, or that an array takes: an offset in the block, and a number
of bytes. -/
abbrev Extent : Type := Int × Int

/-- The variables of the summary loop, after `k` pieces. `space` is an offset in the block. -/
structure LoopState where
  i : Int
  space : Int
  k : Nat
  reads : List Int
  stores : List Extent
  heap : Heap SbObj

/-- `size` of the piece at `i`. -/
def pieceSize (fs : Sb) (blks i : Int) : Option Int := do
  let next ← i32 (i + frag fs)
  if blks < next then i32 ((blks - i) * fsize fs) else some (bsize fs)

/-- The summary loop, with at most `fuel` rounds: the error of a read, or 0. -/
def summaryLoop (fs : Sb) (blks : Int) (read : Nat → PieceRead) :
    Nat → LoopState → Option (Nat × LoopState)
  | 0, _ => none
  | fuel + 1, s =>
      if s.i < blks then do
        let size ← pieceSize fs blks s.i
        let s := { s with reads := s.reads ++ [size] }
        match read s.k with
        | .failed error buf =>
            let heap := if buf then (s.heap.alloc (.buf s.k)).free (.buf s.k) else s.heap
            some (error, { s with heap })
        | .ok =>
            let next ← i32 (s.i + frag fs)
            summaryLoop fs blks read fuel
              { s with
                i := next
                space := s.space + size
                k := s.k + 1
                stores := s.stores ++ [(s.space, size)]
                heap := (s.heap.alloc (.buf s.k)).free (.buf s.k) }
      else some (0, s)

/-- How `ffs_sbget` ends, once it has found a superblock. `arrays` are `fs_csp`,
`fs_maxcluster` if there are clusters, and `fs_contigdirs`, each with `fs_ncg` entries. -/
structure Load where
  error : Nat
  block : Int
  reads : List Int
  stores : List Extent
  arrays : List Extent
  heap : Heap SbObj

/-- The stores to `fs_maxcluster`, if there are clusters, and to `fs_contigdirs`. The
counter of the first loop is an `int`. -/
def setArrays (fs : Sb) (space : Int) : Option (List Extent × List Extent) :=
  let dirs : Int := toU64 (toI32 fs.ncg)
  if 0 < contigsumsize fs then do
    let _ ← i32 fs.ncg
    some ([(space, 4 * fs.ncg), (space + 4 * fs.ncg, dirs)],
      [(0, 16 * fs.ncg), (space, 4 * fs.ncg), (space + 4 * fs.ncg, fs.ncg)])
  else some ([(space, dirs)], [(0, 16 * fs.ncg), (space, fs.ncg)])

/-- `ffs_sbget` behind the search. No allocation of a negative `int`, which is one of more
than `2 ^ 63` bytes, succeeds. -/
def loadSummary (fs : Sb) (loc : Nat) (out : Outcomes) (fuel : Nat) (heap : Heap SbObj) :
    Option Load := do
  let blks ← howmany (cssize fs) (fsize fs)
  let block := blockSize fs
  if out.si = false then some ⟨ENOSPC, block, [], [], [], heap.free (.sb loc)⟩
  else
    let heap := heap.alloc .si
    if out.space = false ∨ block < 0 then
      some ⟨ENOSPC, block, [], [], [], (heap.free .si).free (.sb loc)⟩
    else do
      let heap := heap.alloc .csp
      let (error, s) ← summaryLoop fs blks out.piece fuel ⟨0, 0, 0, [], [], heap⟩
      if error ≠ 0 then
        some ⟨error, block, s.reads, s.stores, [],
          ((s.heap.free .csp).free .si).free (.sb loc)⟩
      else do
        let (stores, arrays) ← setArrays fs s.space
        some ⟨0, block, s.reads, s.stores ++ stores, arrays, s.heap⟩

/-! ### The call -/

/-- The end of a call: an error or the superblock, and what has been written and freed. -/
structure SbgetEnd where
  result : Except Nat Sb
  block : Int
  stores : List Extent
  heap : Heap SbObj

/-- `ffs_sbget(devfd, fsp, STDSB, ...)` -/
def sbget [SysParam] (host : Host) (disk : Disk) (out : Outcomes) (fuel : Nat) : Option SbgetEnd := do
  let (found, heap) ← searchLoop host disk true sblockTry .empty
  match found with
  | .error error => some ⟨.error error, 0, [], heap⟩
  | .ok (loc, fs) =>
      let load ← loadSummary fs loc out fuel heap
      if load.error ≠ 0 then some ⟨.error load.error, load.block, load.stores, load.heap⟩
      else some ⟨.ok fs, load.block, load.stores, load.heap⟩

end UfsX.Ffs.Sbget
