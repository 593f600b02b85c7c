import UfsX.Lib.CInt
import UfsX.Ffs.Alloc
import UfsX.Ufs.Inode

/-!
# `UfsX.Ffs.Trim`: freeing blocks through TRIM

On a disk that can delete, `ffs_blkfree` does not free a block at once. It puts the
block in a trim request; `ffs_blkfree_sendtrim` tells the disk and queues a task,
and the task gives the blocks to `ffs_blkfree_cg`. The blocks of one file deletion
carry a key from `ffs_blkrelease_start`; neighbours among them are joined in one
request, which waits in the trim hash until the next block is no neighbour or
`ffs_blkrelease_finish` is called.

`dotrimcons` is an argument of each call, since it can be set at any time. A call
is one step: calls with different keys work on different requests, and what they
share is changed under the UFS lock. `none` is a failed assertion. Block numbers
and sizes are natural numbers: a request is never longer than the disk. The
dependency lists of soft updates are left out.
-/

set_option autoImplicit false

namespace UfsX.Ffs

open UfsX.Lib UfsX.Ufs

def NOTRIM_KEY : Nat := 1
def SINGLETON_KEY : Nat := 2
def FIRST_VALID_KEY : Nat := 3

/-- `struct trim_blkreq`: a block to free. -/
structure TrimBlkreq where
  bno : Nat
  size : Nat
  deriving DecidableEq, Repr

/-- `struct ffs_blkfree_trim_params`: a trim request. -/
structure TrimParams where
  blklist : List TrimBlkreq
  inum : Nat
  bno : Nat
  size : Nat
  key : Nat
  deriving DecidableEq, Repr

/-- `dk_extent_t` -/
structure DkExtent where
  offset : Int
  length : Nat
  deriving DecidableEq, Repr

/-- A call of `ffs_blkfree_cg`. -/
structure CgFree where
  bno : Nat
  size : Nat
  inum : Nat
  deriving DecidableEq, Repr

/-- What `ffs_blkfree` reads: the superblock, `UM_CANDELETE`, the type of the
device vnode, and whether a snapshot claims a block. -/
structure TrimMount where
  fs : Fs
  candelete : Bool
  devvp : Vtype
  snapblkfree : Nat → Nat → Nat → Bool

structure TrimState where
  /-- The chains of `um_trimhash`. Only the entries of one key are told apart, so
  that one list serves for all of them. -/
  trimhash : List TrimParams
  inflight : Int
  inflightBlks : Int
  total : Int
  totalBlks : Int
  masterkey : Nat
  /-- The tasks that wait in `um_trim_tq`. -/
  tq : List TrimParams
  /-- The extents that the disk was told to unmap. -/
  unmaps : List DkExtent
  /-- The calls of `ffs_blkfree_cg`. -/
  cgfrees : List CgFree

/-- What `trim_lookup` is asked to do. -/
inductive AllocType where
  | new
  | old
  | replace
  | done
  | single
  deriving DecidableEq, Repr

namespace TrimState

variable (s : TrimState)

def find (key : Nat) : Option TrimParams := s.trimhash.find? fun tp => tp.key = key

/-- `LIST_REMOVE` of the request that was found. -/
def unhash (key : Nat) : TrimState :=
  { s with trimhash := s.trimhash.eraseP fun tp => tp.key = key }

/-- A change of the request that was found. -/
def store (tp : TrimParams) : TrimState :=
  { s with trimhash := s.trimhash.map fun tp' => if tp'.key = tp.key then tp else tp' }

/-- `LIST_INSERT_HEAD` -/
def hash (tp : TrimParams) : TrimState := { s with trimhash := tp :: s.trimhash }

end TrimState

/-- `trim_lookup`: look a request up, and make one where that is asked for. -/
def trimLookup (s : TrimState) (bno size inum key : Nat) (alloctype : AllocType) :
    Option (TrimParams × TrimState) :=
  let ntp : TrimParams := ⟨[], inum, bno, size, key⟩
  match alloctype with
  | .single => some (ntp, s)
  | .new => if FIRST_VALID_KEY ≤ key ∧ s.find key = none then some (ntp, s.hash ntp) else none
  | .old =>
      if FIRST_VALID_KEY ≤ key then
        match s.find key with
        | none => none
        | some tp => some (tp, s)
      else none
  | .replace =>
      if FIRST_VALID_KEY ≤ key then
        match s.find key with
        | none => none
        | some _ => some (ntp, (s.unhash key).hash ntp)
      else none
  | .done =>
      if FIRST_VALID_KEY ≤ key then
        match s.find key with
        | none => none
        | some tp => some (tp, s.unhash key)
      else none

/-- `ffs_blkfree_sendtrim`: tell the disk, and queue the task. -/
def ffsBlkfreeSendtrim (fs : Fs) (s : TrimState) (tp : TrimParams) : TrimState :=
  let frags := fs.numfrags tp.size
  { s with
    total := toU64 (s.total + 1)
    inflight := toU32 (s.inflight + 1)
    inflightBlks := toU32 (s.inflightBlks + frags)
    totalBlks := toU64 (s.totalBlks + frags)
    unmaps := s.unmaps ++ [⟨toU64 (fsbtodb fs tp.bno), tp.size⟩]
    tq := s.tq ++ [tp] }

/-- `ffs_blkfree_trim_task`: free the blocks of a request. -/
def ffsBlkfreeTrimTask (fs : Fs) (s : TrimState) (tp : TrimParams) : TrimState :=
  { s with
    cgfrees := s.cgfrees ++ tp.blklist.map fun blkelm => ⟨blkelm.bno, blkelm.size, tp.inum⟩
    inflight := toU32 (s.inflight - 1)
    inflightBlks := toU32 (s.inflightBlks - fs.numfrags tp.size) }

/-- The loop of `ffs_blkrelease_start`: count up to a valid key. The counter has 64
bits; `fuel` bounds the number of keys that are not valid. -/
def nextKey : Nat → Nat → Nat × Nat
  | 0, masterkey => (masterkey, (masterkey + 1) % 2 ^ 64)
  | fuel + 1, masterkey =>
      if masterkey < FIRST_VALID_KEY then nextKey fuel ((masterkey + 1) % 2 ^ 64)
      else (masterkey, (masterkey + 1) % 2 ^ 64)

def ffsBlkreleaseStart (m : TrimMount) (dotrimcons : Bool) (s : TrimState) (inum : Nat) :
    Option (Nat × TrimState) :=
  if !m.candelete || !dotrimcons then some (SINGLETON_KEY, s)
  else
    let (key, masterkey) := nextKey FIRST_VALID_KEY s.masterkey
    match trimLookup { s with masterkey := masterkey } 0 0 inum key .new with
    | none => none
    | some (_, s) => some (key, s)

def ffsBlkreleaseFinish (m : TrimMount) (dotrimcons : Bool) (s : TrimState) (key : Nat) :
    Option TrimState :=
  if !m.candelete || !dotrimcons then some s
  else if key = SINGLETON_KEY then some s
  else
    match trimLookup s 0 0 0 key .done with
    | none => none
    | some (tp, s) => if tp.size = 0 then some s else some (ffsBlkfreeSendtrim m.fs s tp)

/-- `ffs_blkfree`, from where the block belongs to a request with a key. -/
def blkfreeKeyed (fs : Fs) (s : TrimState) (bno size inum key : Nat) : Option TrimState :=
  let blkelm : TrimBlkreq := ⟨bno, size⟩
  match trimLookup s bno size inum key .old with
  | none => none
  | some (tp, s) =>
      if tp.size = 0 then
        some (s.store { tp with bno := bno, size := size, blklist := blkelm :: tp.blklist })
      else if bno + fs.numfrags size = tp.bno then
        some (s.store
          { tp with blklist := blkelm :: tp.blklist, bno := bno, size := tp.size + size })
      else if bno = tp.bno + fs.numfrags tp.size then
        some (s.store { tp with blklist := tp.blklist ++ [blkelm], size := tp.size + size })
      else
        match trimLookup s bno size inum key .replace with
        | none => none
        | some (ntp, s) =>
            some (ffsBlkfreeSendtrim fs (s.store { ntp with blklist := blkelm :: ntp.blklist }) tp)

def ffsBlkfree (m : TrimMount) (s : TrimState) (bno size inum key : Nat) : Option TrimState :=
  if m.devvp = .vchr && m.snapblkfree bno size inum then some s
  else if key = NOTRIM_KEY || !m.candelete || m.devvp = .vreg then
    some { s with cgfrees := s.cgfrees ++ [⟨bno, size, inum⟩] }
  else if key = SINGLETON_KEY then
    match trimLookup s bno size inum key .single with
    | none => none
    | some (tp, s) =>
        some (ffsBlkfreeSendtrim m.fs s { tp with blklist := ⟨bno, size⟩ :: tp.blklist })
  else blkfreeKeyed m.fs s bno size inum key

end UfsX.Ffs
