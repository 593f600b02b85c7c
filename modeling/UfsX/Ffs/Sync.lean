import UfsX.Lib.Loop

/-!
# `UfsX.Ffs.Sync`: writing a file system back

`ffs_sync` of `ffs_vfsops.c` for `MNT_WAIT`, `MNT_NOWAIT` and `MNT_SUSPEND`, with its
callback `ffs_sync_cb`. A pass goes over the vnodes, flushes the device and decides whether
it goes back to the label `loop`. What a pass finds and what the functions return that it
calls comes in from outside, pass by pass.

`allerror` is set to 0 once, before the first pass. `um_flags` takes part with
`UM_FSFAIL_CLEANUP`, which `ffs_fsfail_cleanup` and the functions called set, and nobody
clears. Soft updates are compiled out: `softdep_flushworklist` and `softdep_check_suspend`
are the stubs.
-/

set_option autoImplicit false

namespace UfsX.Ffs.Sync

open UfsX.Lib

def ERECYCLE : Int := -5
def ENXIO : Int := 6
def EAGAIN : Int := 35

/-- The error returned by a function that is called, and whether it has set
`UM_FSFAIL_CLEANUP`. -/
structure Result where
  error : Int
  cleans : Bool
  deriving DecidableEq, Repr

structure Vnode where
  /-- `vnode_isrecycled` -/
  recycled : Bool
  /-- One of `IN_ACCESS`, `IN_CHANGE`, `IN_MODIFIED` and `IN_UPDATE`. -/
  changed : Bool
  /-- `vnode_hasdirtyblks` -/
  dirty : Bool
  /-- The last call of `ffs_syncvnode`, which is called until it does not ask for more. -/
  sync : Result
  last : sync.error ≠ ERECYCLE

/-- `ffs_sync_cb` calls `ffs_syncvnode`. -/
def Vnode.synced (v : Vnode) : Bool := !v.recycled && (v.changed || v.dirty)

/-- What a pass finds. -/
structure Pass where
  vnodes : List Vnode
  /-- `VNOP_FSYNC` of the device. -/
  flush : Result
  /-- `ffs_sbupdate` after it, for soft updates. -/
  softdepUpdate : Result
  /-- `mnt_secondary_writes` and `mnt_secondary_accwrites` when the pass begins, and the
  second one later. -/
  secondaryWrites : Int
  secondaryAccwrites : Int
  accwritesNow : Int
  /-- The device has dirty buffers after the flush. -/
  deviceDirty : Bool
  /-- `fs_fmod` in the end, and `ffs_sbupdate`. -/
  fmod : Bool
  sbupdate : Result

inductive Waitfor where
  | wait
  | nowait
  | suspend
  deriving DecidableEq, Repr

/-- `MNT_SUSPEND` is turned into `MNT_WAIT`. -/
def Waitfor.waits : Waitfor → Bool
  | .nowait => false
  | _ => true

structure Mount where
  /-- `fs_fmod`, `fs_ronly` and `um_fsckpid`. -/
  fmod : Bool
  ronly : Bool
  fsckpid : Int
  /-- `MOUNTEDSOFTDEP` -/
  softdep : Bool
  /-- `UM_FSFAIL_CLEANUP` -/
  cleanup : Bool

structure State where
  error : Int
  allerror : Int
  cleanup : Bool
  deriving DecidableEq, Repr

namespace State

variable (s : State)

/-- A call, whose error is kept in `error`. -/
def call (r : Result) : State := { s with error := r.error, cleanup := s.cleanup || r.cleans }

/-- `if (ffs_fsfail_cleanup(ump, allerror)) allerror = 0;` -/
def fsfailCleanup : State :=
  let cleanup := s.cleanup || s.allerror = ENXIO
  { s with cleanup, allerror := if cleanup then 0 else s.allerror }

/-- `if (error != 0) allerror = error;` -/
def keepError : State := { s with allerror := if s.error ≠ 0 then s.error else s.allerror }

end State

/-- `ffs_sync_cb`. Here `error` stands for `args.error`. -/
def ffsSyncCb (s : State) (v : Vnode) : State := if v.synced then s.call v.sync else s

/-- `softdep_flushworklist`: the error and `count`. -/
def softdepFlushworklist : Int × Int := (0, 0)

/-- `softdep_check_suspend`, which waits until `mnt_secondary_writes` is 0. -/
def softdepCheckSuspend (p : Pass) : Int :=
  if p.deviceDirty ∨ p.secondaryWrites ≠ 0 ∨ p.secondaryAccwrites ≠ p.accwritesNow then EAGAIN else 0

structure Done where
  error : Int
  cleanup : Bool
  /-- `MNTK_SUSPEND2` and `MNTK_SUSPENDED` have been set. -/
  suspended : Bool
  deriving DecidableEq, Repr

/-- The vnodes and what follows for `MNT_WAIT`. -/
def syncVnodes (waitfor : Waitfor) (s : State) (p : Pass) : State :=
  let s := p.vnodes.foldl ffsSyncCb { s with error := 0 }
  if waitfor.waits then
    let s := { s with error := softdepFlushworklist.1 }.keepError
    s.fsfailCleanup
  else s

/-- The flush of the device. -/
def flushDevice (m : Mount) (s : State) (p : Pass) : State :=
  let s := s.call p.flush
  let s := if m.softdep ∧ (s.error = 0 ∨ s.error = EAGAIN) then s.call p.softdepUpdate else s
  s.keepError.fsfailCleanup

/-- The superblock in the end. -/
def writeSuper (s : State) (p : Pass) (suspended : Bool) : Done :=
  let s := if p.fmod then (s.call p.sbupdate).keepError else s
  let s := s.fsfailCleanup
  ⟨s.allerror, s.cleanup, suspended⟩

/-- From the label `loop` to the next jump there, or to the end. -/
def pass (m : Mount) (waitfor : Waitfor) (s : State) (p : Pass) : State ⊕ Done :=
  let s := syncVnodes waitfor s p
  if waitfor.waits ∧ s.allerror = 0 ∧ softdepFlushworklist.2 ≠ 0 then .inl s
  else
    let s := flushDevice m s p
    if s.allerror = 0 ∧ waitfor.waits then .inl s
    else if waitfor = .suspend ∧ softdepCheckSuspend p ≠ 0 then .inl s
    else .inr (writeSuper s p (waitfor = .suspend))

/-- "modification on read-only filesystem" -/
def Mount.panics (m : Mount) : Bool := m.fmod && m.ronly && m.fsckpid == 0

/-- `ffs_sync` with at most `fuel` passes: the number of the last pass, and the result. -/
def ffsSync (fuel : Nat) (m : Mount) (waitfor : Waitfor) (p : Nat → Pass) : Option (Nat × Done) :=
  if m.panics then none else loop (pass m waitfor) p fuel 0 ⟨0, 0, m.cleanup⟩

end UfsX.Ffs.Sync
