import UfsX.Ffs.Balloc
import UfsX.Ffs.Blkpref
import UfsX.Ffs.Hashalloc
import UfsX.Lib.Heap
import UfsX.Ufs.Quota

/-!
# `UfsX.Ffs.AllocQuota`: `ffs_alloc` and `ffs_realloccg` with `QUOTA`

Here both are given down to the maps of the groups, with the charge, the lock and the
buffers; `UfsX.Ffs.Balloc` has what their callers see. Both are entered with the UFS lock
held. Both run once, and when there is no space once more after `softdep_request_cleanup`.

The mount has no soft updates, so that function does no more than drop the lock and write
the inode: `others` is what the other threads do to the file system in the meantime.
`ffs_blkfree` has no TRIM request to make and no snapshot to ask, and is `ffs_blkfree_cg`.
The messages, and the checks of `INVARIANTS`, are left out.
-/

set_option autoImplicit false

namespace UfsX.Ffs.Quota

open UfsX.Lib UfsX.Ufs

def FS_OPTTIME : Nat := 0
def FS_OPTSPACE : Nat := 1

/-- A file that gets space, the file system, and the file's buffers by the pass that
obtained them. -/
structure AllocState where
  st : State
  ip : Inode
  /-- `i_dquot` -/
  dquots : Dquots
  /-- `fs_optim` -/
  optim : Nat
  bufs : Heap Nat

/-- The arguments, and what the calls that are made come to. What is asked for in each
pass has the number of the pass first. -/
structure AllocCall where
  quota : QuotaCall
  /-- `i_number` -/
  inumber : Nat
  /-- `IO_BUFLOCKED` -/
  buflocked : Bool
  /-- The file system is being torn down, `ffs_fsfail_cleanup_locked`. -/
  fsfail : Bool
  others : State → State
  /-- The error of `ffs_getcg`, by try of `ffs_hashalloc`; in `ffs_fragextend`; and in
  `ffs_blkfree`. -/
  gerr : Nat → Nat → Nat
  extGerr : Nat → Nat
  freeGerr : Nat → Nat
  /-- `bread` of the old fragment. -/
  readErr : Nat → Option Errno
  /-- `buf_blkno` of its buffer. -/
  blkno : Nat → Int
  /-- The type of `um_devvp`. -/
  devvp : Vtype

/-- How a pass ends: with a result, or at `nospace` with the lock held, and with the
buffer of this number. -/
inductive Pass where
  | done (r : Except Errno Nat)
  | nospace (bp : Option Nat)

/-- The panics and the other traps on the way. -/
inductive Trap where
  | alloc (p : Panic)
  /-- "ffs_realloccg: bad bprev" -/
  | badBprev
  /-- "ffs_realloccg: lbprev out of range" -/
  | lbprevRange
  /-- "ffs_realloccg: bad blockno" -/
  | badBlockno
  /-- "ffs_realloccg: bad optim" -/
  | badOptim
  deriving DecidableEq, Repr

namespace AllocState

variable (f : AllocState)

/-- A lock operation. -/
def emit (e : Event) : AllocState := { f with st := f.st.emit e }

/-- `chkdq`, which is called without the UFS lock. -/
def chkdq (c : AllocCall) (change : Int) (force : Bool) : Option Errno × AllocState :=
  let (error, dquots) := Ufs.chkdq c.quota f.dquots change force
  (error, { f with dquots := dquots })

/-- `DIP_SET(ip, i_blocks, DIP(ip, i_blocks) + delta)` -/
def addBlocks (delta : Nat) : AllocState := { f with ip := f.ip.setBlocks (f.ip.blocks + delta) }

/-- `buf_brelse`, if there is a buffer. -/
def brelse (bp : Option Nat) : AllocState :=
  match bp with
  | none => f
  | some k => { f with bufs := f.bufs.free k }

/-- Restore user's disk quota because allocation failed. The type of `btodb` is `u_int`,
and so is the negative number. -/
def giveBack (c : AllocCall) (n : Nat) : AllocState :=
  (((f.emit .unlock).chkdq c (toU32 (-n)) true).2).emit .lock

end AllocState

variable (mp : Ump)

/-- `freespace(fs, fs->fs_minfree)` -/
def freespace (s : State) : Int :=
  s.cstotal.nbfree * mp.fs.frag + s.cstotal.nffree - (mp.fs.dsize * mp.fs.minfree / 100 : Nat)

/-- The group that a search starts from. -/
def startGroup (c : AllocCall) (bpref : Nat) : Nat :=
  if bpref = 0 then mp.fs.inoToCg c.inumber else (toU32 (toI32 (mp.fs.dtog bpref))).toNat

/-- A preference behind the end is none. -/
def checkPref (bpref : Nat) : Nat := if mp.fs.size ≤ bpref then 0 else bpref

/-- `softdep_request_cleanup` -/
def softdepRequestCleanup (c : AllocCall) (f : AllocState) : AllocState :=
  { f with st := (c.others (f.st.emit .unlock)).emit .lock }

/-- The end without space. -/
def noSpace (c : AllocCall) (bp : Option Nat) (f : AllocState) : Except Errno Nat × AllocState :=
  (.error (if c.fsfail then .enxio else .enospc), (f.brelse bp).emit .unlock)

/-- Both functions: `pass` is run once, and a second time when it finds no space, unless
the caller holds a buffer. `reclaim` is what is done before `softdep_request_cleanup`. -/
def withRetry (c : AllocCall) (reclaim : Option Nat → AllocState → AllocState)
    (pass : Nat → AllocState → Except Trap (Pass × AllocState)) (f : AllocState) :
    Except Trap (Except Errno Nat × AllocState) :=
  match pass 0 f with
  | .error t => .error t
  | .ok (.done r, f) => .ok (r, f)
  | .ok (.nospace bp, f) =>
      if c.buflocked then .ok (noSpace c bp f)
      else
        match pass 1 (softdepRequestCleanup c (reclaim bp f)) with
        | .error t => .error t
        | .ok (.done r, f) => .ok (r, f)
        | .ok (.nospace bp, f) => .ok (noSpace c bp f)

/-- `ffs_hashalloc` for a block, and what becomes of the file system. -/
def hashalloc (c : AllocCall) (k : Nat) (f : AllocState) (cg bpref size rsize : Nat) : Except Trap (Nat × AllocState) :=
  match ffsHashalloc mp.fs (blockAllocator mp.fs (c.gerr k) size rsize) f.st cg bpref with
  | .error p => .error (.alloc p)
  | .ok (bno, st) => .ok (bno, { f with st := st })

/-! ### `ffs_alloc` -/

/-- The tests for space before the search. -/
def noBlocks (size : Nat) (s : State) : Prop :=
  (size = mp.fs.bsize ∧ s.cstotal.nbfree = 0) ∨ freespace mp s - mp.fs.numfrags size < 0

instance (size : Nat) (s : State) : Decidable (noBlocks mp size s) := inferInstanceAs (Decidable (_ ∨ _))

/-- From the label `retry` on. -/
def allocPass (c : AllocCall) (bpref size k : Nat) (f : AllocState) : Except Trap (Pass × AllocState) :=
  let n := btodb mp size
  match (f.emit .unlock).chkdq c n false with
  | (some e, f) => .ok (.done (.error e), f)
  | (none, f) =>
      let f := f.emit .lock
      if noBlocks mp size f.st then .ok (.nospace none, f.giveBack c n)
      else
        let bpref := checkPref mp bpref
        match hashalloc mp c k f (startGroup mp c bpref) bpref size size with
        | .error t => .error t
        | .ok (bno, f) =>
            if bno ≠ 0 then .ok (.done (.ok bno), f.addBlocks n)
            else .ok (.nospace none, f.giveBack c n)

/-- `ffs_alloc`: allocate a block in the file system. -/
def ffsAlloc (c : AllocCall) (bpref size : Nat) (f : AllocState) : Except Trap (Except Errno Nat × AllocState) :=
  withRetry c (fun bp f => f.brelse bp) (allocPass mp c bpref size) f

/-! ### `ffs_realloccg` -/

/-- The choice between exact fragments and whole blocks: the size to search for, and the
new `fs_optim`. -/
def chooseRequest (s : State) (optim nsize : Nat) : Except Trap (Nat × Nat) :=
  if optim = FS_OPTSPACE then
    if mp.fs.minfree ≤ 5 ∨ (mp.fs.dsize * mp.fs.minfree / (2 * 100) : Nat) < s.cstotal.nffree then .ok (nsize, optim)
    else .ok (nsize, FS_OPTTIME)
  else if optim = FS_OPTTIME then
    if s.cstotal.nffree < ((mp.fs.dsize : Int) * ((mp.fs.minfree : Int) - 2)).tdiv 100 then .ok (mp.fs.bsize, optim)
    else .ok (mp.fs.bsize, FS_OPTSPACE)
  else .error .badOptim

/-- Allocate a new disk location, and free the old one. -/
def realloccgMove (c : AllocCall) (cg bprev bpref osize nsize k : Nat) (f : AllocState) : Except Trap (Pass × AllocState) :=
  let n := btodb mp (nsize - osize)
  match chooseRequest mp f.st f.optim nsize with
  | .error t => .error t
  | .ok (request, optim) =>
      match hashalloc mp c k { f with optim := optim } cg (checkPref mp bpref) request nsize with
      | .error t => .error t
      | .ok (bno, f) =>
          if bno ≠ 0 then
            match ffsBlkfreeCg mp.fs f.st c.devvp (c.freeGerr k) bprev osize with
            | .error p => .error (.alloc p)
            | .ok st => .ok (.done (.ok bno), { f with st := st }.addBlocks n)
          else .ok (.nospace (some k), f.giveBack c n)

/-- The pass from the second `UFS_LOCK` on, with the old fragment in buffer `k`. -/
def realloccgExtend (c : AllocCall) (bprev bpref osize nsize k : Nat) (f : AllocState) : Except Trap (Pass × AllocState) :=
  -- Check for extension in the existing location.
  let cg := (toU32 (toI32 (mp.fs.dtog bprev))).toNat
  let (bno, st) := ffsFragextend mp.fs f.st (c.extGerr k) cg bprev osize nsize
  let f := { f with st := st }
  if bno ≠ 0 then
    if c.blkno k ≠ fsbtodb mp.fs bno then .error .badBlockno
    else .ok (.done (.ok bno), f.addBlocks (btodb mp (nsize - osize)))
  else realloccgMove mp c cg bprev bpref osize nsize k f

/-- From the label `retry` on. A buffer that a failing `bread` leaves behind is not
released: `breadn_flags` looks at the caller's pointer, which is null, and not at its own. -/
def realloccgPass (c : AllocCall) (lbprev : Int) (bprev bpref osize nsize k : Nat) (f : AllocState) :
    Except Trap (Pass × AllocState) :=
  if freespace mp f.st - mp.fs.numfrags (nsize - osize) < 0 then .ok (.nospace none, f)
  else if bprev = 0 then .error .badBprev
  else
    let f := { f.emit .unlock with bufs := f.bufs.alloc k }
    match c.readErr k with
    | some e => .ok (.done (.error e), f)
    | none =>
        if c.blkno k = lbprev ∧ ndaddr ≤ lbprev then .error .lbprevRange
        else
          match f.chkdq c (btodb mp (nsize - osize)) false with
          | (some e, f) => .ok (.done (.error e), f.brelse (some k))
          | (none, f) => realloccgExtend mp c bprev bpref osize nsize k (f.emit .lock)

/-- `ffs_realloccg`: reallocate a fragment to a bigger size. -/
def ffsRealloccg (c : AllocCall) (lbprev : Int) (bprev bpref osize nsize : Nat) (f : AllocState) :
    Except Trap (Except Errno Nat × AllocState) :=
  withRetry c (fun bp f => ((f.emit .unlock).brelse bp).emit .lock)
    (realloccgPass mp c lbprev bprev bpref osize nsize) f

end UfsX.Ffs.Quota
