import UfsX.Ufs.Inode

/-!
# `UfsX.Ffs.Syncvnode`: writing a vnode's dirty buffers

`ffs_syncvnode` of `ffs_vnops.c` with its two callbacks, over the buffers of one
vnode. `buf_iterate` calls its callback once for every buffer that is dirty and
unlocked, with the buffer locked, and the value that the callback returns says whether
`buf_iterate` releases the buffer. A write succeeds, releases the buffer and leaves it
clean; `vnode_waitforwrites` has nothing to wait for then.

A buffer's private data is there or not, and holds the flags of `b_vflags`. Soft
updates are compiled out, so the dependency list in the private data stays empty.
`ffs_update` comes in as the value it returns.
-/

set_option autoImplicit false

namespace UfsX.Ffs.Syncvnode

open UfsX.Ufs (ndaddr niaddr)

def BV_SCANNED : Nat := 0x0100000
def BX_VFLAGMASK : Nat := 0xFF00000

structure Buf where
  lblkno : Int
  /-- `b_vflags` of the private data, where there are such data. -/
  bpriv : Option Nat
  /-- `B_DELWRI` -/
  delwri : Bool
  locked : Bool
  /-- Ghost: the pass numbers at which the running call has written the buffer. -/
  writes : List Nat
  deriving DecidableEq, Repr

/-- `buf_vflags(bp) & BV_SCANNED` -/
def scanned (vflags : Nat) : Bool := (vflags &&& BX_VFLAGMASK) &&& BV_SCANNED ≠ 0

/-- `buf_setvflags(bp, BV_SCANNED)` -/
def setScanned (vflags : Nat) : Nat := vflags ||| (BV_SCANNED &&& BX_VFLAGMASK)

def Buf.write (bp : Buf) (passes : Nat) : Buf :=
  { bp with delwri := false, locked := false, writes := passes :: bp.writes }

/-- `lbn_level`; a logical number that is no block's has level -1. -/
def lbnLevel (lbn : Int) : Int :=
  if 0 ≤ lbn then 0
  else if lbn % 4 = 0 then 0
  else if lbn % 4 = 2 then 2
  else if lbn % 4 = 3 then 1
  else -1

/-! ### `buf_iterate` -/

/-- What a callback of `buf_iterate` returns. -/
inductive Ret where
  | returned
  | returnedDone
  | claimed
  | claimedDone
  deriving DecidableEq, Repr

/-- `buf_iterate` calls `buf_brelse` on the buffer. -/
def Ret.releases : Ret → Bool
  | .returned | .returnedDone => true
  | .claimed | .claimedDone => false

def Ret.done : Ret → Bool
  | .returnedDone | .claimedDone => true
  | .returned | .claimed => false

/-- `buf_iterate` with `BUF_SKIP_LOCKED | BUF_SCAN_DIRTY`; `none` is a panic of the
callback. -/
def bufIterate {α : Type} (callout : α → Buf → Option (α × Buf × Ret)) :
    α → List Buf → Option (α × List Buf)
  | arg, [] => some (arg, [])
  | arg, bp :: bps =>
      if bp.delwri && !bp.locked then
        match callout arg { bp with locked := true } with
        | none => none
        | some (arg', bp', ret) =>
            let bp'' := if ret.releases then { bp' with locked := false } else bp'
            if ret.done then some (arg', bp'' :: bps)
            else (bufIterate callout arg' bps).map fun r => (r.1, bp'' :: r.2)
      else (bufIterate callout arg bps).map fun r => (r.1, bp :: r.2)

/-! ### The callbacks -/

/-- `struct sync_iterate_args`. -/
structure SyncArgs where
  abort : Bool
  /-- `MNT_WAIT` -/
  waitfor : Bool
  /-- `NO_INO_UPDT` -/
  noInoUpdt : Bool
  /-- `DATA_ONLY` -/
  dataOnly : Bool
  passes : Nat
  wait : Bool
  lbn : Int
  error : Int
  deriving DecidableEq, Repr

/-- `ffs_syncvnode_callback` -/
def callback (ap : SyncArgs) (bp : Buf) : Option (SyncArgs × Buf × Ret) :=
  match bp.bpriv with
  | none => some (ap, bp, .claimed)
  | some vflags =>
      if scanned vflags then some (ap, bp, .claimed)
      else
        let bp := { bp with bpriv := some (setScanned vflags) }
        if ap.waitfor ∧ bp.lblkno ≤ -(ndaddr : Int) ∧ (ap.passes ≤ lbnLevel bp.lblkno ∨ ap.dataOnly) then
          some (ap, bp, .claimed)
        -- "syncing truncated data"
        else if ap.lbn < bp.lblkno then none
        -- "not dirty"
        else if ¬ bp.delwri then none
        else if ap.wait then some ({ ap with error := 0 }, bp.write ap.passes, .returned)
        else some (ap, bp.write ap.passes, .returned)

/-- `ffs_syncvnode_scan_databufs` -/
def scanDatabufs (stillDirty : Bool) (bp : Buf) : Option (Bool × Buf × Ret) :=
  if -(ndaddr : Int) < bp.lblkno then some (true, bp, .claimed) else some (stillDirty, bp, .claimedDone)

/-! ### `ffs_syncvnode` -/

/-- What one round from the label `loop` on comes to. -/
inductive Round where
  | again (ap : SyncArgs) (bufs : List Buf)
  | ret (error : Int) (bufs : List Buf)
  | panic
  deriving DecidableEq, Repr

/-- The value returned when the rounds are over. The inode's flags are looked up in
`i_flags`, `sizemod` says whether one of `IN_SIZEMOD` and `IN_IBLKDATA` is set there. -/
def finish (ap : SyncArgs) (sizemod : Bool) (update : Int) : Int :=
  if ¬ ap.dataOnly then (if ¬ ap.noInoUpdt then update else 0)
  else if sizemod then update else 0

/-- The end of a round, where `stillDirty` has been found. -/
def switchPass (ap : SyncArgs) (sizemod : Bool) (update : Int) (stillDirty : Bool) (bufs : List Buf) : Round :=
  if stillDirty then
    if ¬ ap.wait then .again { ap with wait := true } bufs
    else if ap.passes + 1 < niaddr + 2 then .again { ap with wait := false, passes := ap.passes + 1 } bufs
    else .ret (finish ap sizemod update) bufs
  else .ret (finish ap sizemod update) bufs

/-- `vnode_hasdirtyblks` -/
def hasdirtyblks (bufs : List Buf) : Bool := bufs.any (·.delwri)

def round (sizemod : Bool) (update : Int) (ap : SyncArgs) (bufs : List Buf) : Round :=
  match bufIterate callback { ap with error := 0 } bufs with
  | none => .panic
  | some (ap, bufs) =>
      if ap.abort then .ret ap.error bufs
      else if ¬ ap.waitfor then .ret (if ap.noInoUpdt then 0 else update) bufs
      else if ¬ hasdirtyblks bufs then .ret (finish ap sizemod update) bufs
      else if ¬ ap.dataOnly then switchPass ap sizemod update true bufs
      else
        match bufIterate scanDatabufs false bufs with
        | none => .panic
        | some (stillDirty, bufs) => switchPass ap sizemod update stillDirty bufs

/-- Rounds until the call is over, at most `fuel` of them. -/
def rounds (sizemod : Bool) (update : Int) : Nat → SyncArgs → List Buf → Option Round
  | 0, _, _ => none
  | fuel + 1, ap, bufs =>
      match round sizemod update ap bufs with
      | .again ap bufs => rounds sizemod update fuel ap bufs
      | r => some r

/-- `ffs_syncvnode` on a file of `size` bytes, with at most `fuel` passes over the
buffers. -/
def ffsSyncvnode (fuel : Nat) (fs : Fs) (size : Nat) (sizemod : Bool) (update : Int)
    (waitfor noInoUpdt dataOnly : Bool) (bufs : List Buf) : Option Round :=
  rounds sizemod update fuel
    { abort := false, waitfor, noInoUpdt, dataOnly, passes := 0, wait := false,
      lbn := fs.lblkno (size + fs.bsize - 1), error := 0 }
    (bufs.map fun bp => { bp with writes := [] })

end UfsX.Ffs.Syncvnode
