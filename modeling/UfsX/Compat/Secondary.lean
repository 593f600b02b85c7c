import UfsX.Compat.Suspend
import UfsX.Lib.Calls

/-!
# `UfsX.Compat.Secondary`: the locks and counts of single calls

The functions of `vfs_vnops.c`, `ffs_suspend.c` and `ufs_inode.c` that take the mount
interlock, followed through one call by thread `t`. What the other threads do
meanwhile comes in from outside: whenever the call gets the interlock, an argument
says what it finds there, and the results of functions of the system are arguments
too. A list of such arguments that runs out is a call that still waits.

A mount is a value of `μ`, a pointer to one an `Option μ`, and a vnode is named by its
mount. Snapshots and soft updates are compiled out.
-/

set_option autoImplicit false

namespace UfsX.Compat

open UfsX.Lib UfsX.Lib.Call

/-- What a call holds and has changed: the mount interlock, `ffs_susp_lock`,
`mnt_ref` and `mnt_secondary_writes`. -/
structure Held where
  ilock : Bool
  suspLock : Bool
  refs : Int
  secondaries : Int
  deriving DecidableEq, Repr

def EWOULDBLOCK : Int := 35
def EALREADY : Int := 37

/-- `MNT_ILOCK` -/
def mntIlock : Call Held Unit := do
  let h ← get
  if h.ilock then crash else modify fun h => { h with ilock := true }

/-- `MNT_IUNLOCK` -/
def mntIunlock : Call Held Unit := do
  let h ← get
  if h.ilock then modify fun h => { h with ilock := false } else crash

section Mounts

variable {μ τ : Type} [DecidableEq μ] [DecidableEq τ]

def vfsRef : Option μ → Call Held Unit
  | none => crash
  | some _ => do
      mntIlock
      modify fun h => { h with refs := h.refs + 1 }
      mntIunlock

def vfsRel : Option μ → Call Held Unit
  | none => crash
  | some _ => do
      mntIlock
      modify fun h => { h with refs := h.refs - 1 }
      mntIunlock

/-- `vfs_op_enter`, which finds `m`. -/
def vfsOpEnter (m : Bsdmount τ) : Call Held Unit := do
  mntIlock
  require m.opEnter.isSome
  mntIunlock

/-- `vfs_op_exit_locked` -/
def vfsOpExitLocked (m : Bsdmount τ) : Call Held Unit := require m.opExit.isSome

def vfsOpExit (m : Bsdmount τ) : Call Held Unit := do
  mntIlock
  vfsOpExitLocked m
  mntIunlock

/-! ### Secondary writes -/

/-- `V_NOWAIT` and `V_MNTREF` -/
structure SecondaryFlags where
  nowait : Bool
  mntref : Bool
  deriving DecidableEq, Repr

/-- The mount each time the loop gets the interlock, and what `msleep` returns if it
comes to that. -/
abbrev Wakes (τ : Type) := List (Bsdmount τ × Int)

/-- From the label `retry` on. -/
def secondaryRetry (vpNull : Bool) (mp : μ) (flags : SecondaryFlags) : Wakes τ → Call Held Int
  | [] => stop
  | (m, err) :: wakes => do
      mntIlock
      if vpNull ∧ ¬ flags.mntref then modify fun h => { h with refs := h.refs + 1 }
      if ¬ m.suspended ∧ ¬ m.suspend2 then
        modify fun h => { h with secondaries := h.secondaries + 1 }
        pure 0
      else if flags.nowait then
        modify fun h => { h with refs := h.refs - 1 }
        mntIunlock
        pure EWOULDBLOCK
      else
        -- `msleep` with `PDROP`
        mntIunlock
        vfsRel (some mp)
        if err = 0 then secondaryRetry vpNull mp flags wakes else pure err

/-- `vn_start_secondary_write`, with `*mpp` on return. `VTOI` is taken of the vnode
first of all. For a vnode, `vfs_ref` is called with the local `mp`, which is still
null. -/
def vnStartSecondaryWrite (vp : Option μ) (flags : SecondaryFlags) (wakes : Wakes τ) :
    Call Held (Int × Option μ) :=
  match vp with
  | none => crash
  | some vmp => do
      require (flags.mntref = false)
      let mp : Option μ := none
      vfsRef mp
      let err ← secondaryRetry false vmp flags wakes
      pure (err, some vmp)

/-- `vn_finished_secondary_write`, which finds `m`. -/
def vnFinishedSecondaryWrite (mp : Option μ) (m : Bsdmount τ) : Call Held Unit :=
  match mp with
  | none => pure ()
  | some _ => do
      mntIlock
      modify fun h => { h with secondaries := h.secondaries - 1 }
      require (0 ≤ m.secondaryWrites - 1)
      mntIunlock

/-- `process_deferred_inactive`, which is `VFS_SUSP_CLEAN`. The walk over the vnodes
takes no interlock. -/
def processDeferredInactive (mp : μ) (wakes : Wakes τ) (m : Bsdmount τ) : Call Held Unit := do
  let vp : Option μ := none
  let _ ← vnStartSecondaryWrite vp ⟨false, false⟩ wakes
  vnFinishedSecondaryWrite (some mp) m

/-! ### Resuming and suspending -/

/-- What `vfs_write_resume` finds at its interlock, in `VFS_SUSP_CLEAN`, and at
`vfs_op_exit`. -/
structure ResumeEnv (τ : Type) where
  mount : Bsdmount τ
  wakes : Wakes τ
  clean : Bsdmount τ
  opExit : Bsdmount τ

/-- `VR_START_WRITE` and `VR_NO_SUSPCLR` -/
structure ResumeFlags where
  startWrite : Bool
  noSuspclr : Bool
  deriving DecidableEq, Repr

/-- `vfs_write_resume`. On a mount that is not suspended, `VR_START_WRITE` ends in
`vn_start_write_refed`, which leaves the interlock to its caller. -/
def vfsWriteResume (t : τ) (mp : Option μ) (flags : ResumeFlags) (env : ResumeEnv τ) :
    Call Held Unit :=
  match mp with
  | none => pure ()
  | some mp => do
      mntIlock
      if env.mount.suspend then
        require (env.mount.suspOwner = some t)
        if flags.startWrite then modify fun h => { h with refs := h.refs + 1 }
        mntIunlock
        if ¬ flags.noSuspclr then processDeferredInactive mp env.wakes env.clean
        vfsOpExit env.opExit
      else if flags.startWrite then modify fun h => { h with refs := h.refs + 1 }
      else mntIunlock

/-- What `vfs_write_suspend` finds: at `vfs_op_enter`, at the interlock and after each
sleep, and what `VFS_SYNC` returns. -/
structure SuspendEnv (τ : Type) where
  opEnter : Bsdmount τ
  entry : Bsdmount τ
  wakes : List (Bsdmount τ)
  /-- `vfs_isforce` and `vfs_isunmount` -/
  forced : Bool
  sync : Int
  resume : ResumeEnv τ

/-- The loop that waits for another suspension to end. It gives the mount with which
it goes on. -/
def suspendWait (m : Bsdmount τ) : List (Bsdmount τ) → Call Held (Bsdmount τ)
  | [] => if m.suspend then stop else pure m
  | m' :: wakes =>
      if m.suspend then do
        -- `msleep`
        mntIunlock
        mntIlock
        suspendWait m' wakes
      else pure m

/-- `vfs_write_suspend` on a mount. -/
def vfsWriteSuspend (t : τ) (mp : μ) (skip : Bool) (env : SuspendEnv τ) : Call Held Int := do
  vfsOpEnter env.opEnter
  mntIlock
  if env.entry.suspOwner = some t then
    vfsOpExitLocked env.entry
    mntIunlock
    pure EALREADY
  else
    let m ← suspendWait env.entry env.wakes
    if skip ∧ env.forced then
      vfsOpExitLocked m
      mntIunlock
      pure 16
    else
      -- with or without the sleep on `mnt_writeopcount`
      mntIunlock
      if env.sync ≠ 0 then
        vfsWriteResume t (some mp) ⟨false, false⟩ env.resume
      pure env.sync

/-- The fast path of `vn_start_write`, which finds `m`. -/
def vnStartWrite (m : Bsdmount τ) : Call Held Unit := require (m.suspend = false)

/-- `vn_finished_write`, which finds `m`. -/
def vnFinishedWrite (m : Bsdmount τ) : Call Held Unit := do
  mntIlock
  if m.vfsOps = 0 then
    require (m.suspend = false)
    mntIunlock
  else
    require (0 ≤ m.writeopcount - 1)
    mntIunlock

/-- What one turn of the loop in `vfs_write_suspend_umnt` finds. -/
structure UmntEnv (τ : Type) where
  finished : Bsdmount τ
  suspend : SuspendEnv τ
  check : Bsdmount τ
  start : Bsdmount τ

/-- The loop after `vfs_write_suspend` has returned `err`. `next` is the next turn. -/
def umntCheck (env : UmntEnv τ) (next : Call Held Int) (err : Int) : Call Held Int :=
  if err ≠ 0 then do
    vnStartWrite env.start
    pure err
  else do
    mntIlock
    if env.check.suspended then
      mntIunlock
      pure 0
    else
      mntIunlock
      vnStartWrite env.start
      next

def umntLoop (t : τ) (mp : μ) : List (UmntEnv τ) → Call Held Int
  | [] => stop
  | env :: rest => do
      vnFinishedWrite env.finished
      let err ← vfsWriteSuspend t mp false env.suspend
      umntCheck env (umntLoop t mp rest) err

/-- `vfs_write_suspend_umnt` -/
def vfsWriteSuspendUmnt (t : τ) (mp : Option μ) (owner : Option τ) (envs : List (UmntEnv τ)) :
    Call Held Int :=
  match mp with
  | none => pure 22
  | some mp => do
      require (owner ≠ some t)
      umntLoop t mp envs

/-! ### `ffs_susp_ioctl` -/

/-- What `ffs_susp_ioctl` finds. -/
structure IoctlEnv (μ τ : Type) where
  /-- The mount of the vnode. -/
  mp0 : μ
  /-- `vfs_getvfs` -/
  getvfs : Option μ
  /-- `vfs_busy` -/
  busy : Int
  /-- `UM_WRITESUSPENDED` -/
  writeSuspended : Bool
  /-- The process of the context is the caller. -/
  contextOk : Bool
  authorize : Int
  suspend : SuspendEnv τ
  /-- At the assertion of `ffs_susp_dtor`. -/
  dtor : Bsdmount τ
  /-- `ffs_reload` -/
  reload : Int
  /-- In `vfs_set_susupendowner`. -/
  ownerEnter : Bsdmount τ
  owner : Bsdmount τ
  ownerExit : Bsdmount τ
  resume : ResumeEnv τ

inductive IoctlCommand where
  | ufsSuspend
  | ufsResume
  deriving DecidableEq, Repr

/-- `lck_rw_lock_exclusive(ffs_susp_lock)` -/
def suspLockExclusive : Call Held Unit := do
  let h ← get
  if h.suspLock then crash else modify fun h => { h with suspLock := true }

def suspUnlockExclusive : Call Held Unit := do
  let h ← get
  if h.suspLock then modify fun h => { h with suspLock := false } else crash

/-- `ffs_susp_suspend` -/
def ffsSuspSuspend (t : τ) (mp : μ) (env : IoctlEnv μ τ) : Call Held Int :=
  if env.writeSuspended then pure 16
  else do
    require (env.contextOk = true)
    if env.authorize ≠ 0 then pure env.authorize
    else vfsWriteSuspend t mp true env.suspend

/-- `vfs_set_susupendowner` -/
def vfsSetSuspendOwner (t : τ) (env : IoctlEnv μ τ) : Call Held Unit := do
  vfsOpEnter env.ownerEnter
  mntIlock
  if env.owner.suspOwner = some t then
    vfsOpExitLocked env.owner
    mntIunlock
  else
    mntIunlock
    vfsOpExit env.ownerExit

/-- `ffs_susp_dtor` -/
def ffsSuspDtor (t : τ) (mp : μ) (env : IoctlEnv μ τ) : Call Held Int :=
  if ¬ env.writeSuspended then pure 2
  else do
    require (env.dtor.suspend = true)
    if env.reload ≠ 0 then pure env.reload
    else
      vfsSetSuspendOwner t env
      vfsWriteResume t (some mp) ⟨false, false⟩ env.resume
      pure 0

def ffsSuspIoctl (t : τ) (command : IoctlCommand) (env : IoctlEnv μ τ) : Call Held Int := do
  suspLockExclusive
  match command with
  | .ufsSuspend =>
      if env.getvfs ≠ none ∧ env.getvfs ≠ some env.mp0 then pure 2
      else
        -- `vfs_busy_bsd` takes a reference, and it is dropped at once
        vfsRef (some env.mp0)
        vfsRel (some env.mp0)
        if env.busy ≠ 0 then
          suspUnlockExclusive
          pure env.busy
        else
          let err ← ffsSuspSuspend t env.mp0 env
          suspUnlockExclusive
          pure err
  | .ufsResume => ffsSuspDtor t env.mp0 env

/-! ### `ufs_inactive` -/

/-- What one turn of the loop in `ufs_inactive` finds: the interlocks of the two
calls, and the suspend bits of `mnt_flag`. -/
structure InactiveTry (τ : Type) where
  nowait : Wakes τ
  wait : Wakes τ
  flagSuspended : Bool

/-- What `ufs_inactive` reads. -/
structure InactiveEnv (μ τ : Type) where
  vmp : μ
  iMode : Nat
  iNlink : Int
  rdonly : Bool
  /-- `VN_IS_DOOMED` -/
  doomed : Bool
  first : InactiveTry τ
  tries : List (InactiveTry τ)
  /-- `i_flag` where it is tested: `IN_ACCESS`, and one of `IN_CHANGE`, `IN_UPDATE`
  and `IN_MODIFIED`. -/
  inAccess : Bool
  inDirty : Bool
  accessWakes : Wakes τ

/-- From the label `loop`. `none` is the return with `VI_NEEDINACT`; otherwise the
value of `mp`. -/
def inactiveLoop (vmp : μ) (doomed : Bool) (tr : InactiveTry τ) :
    List (InactiveTry τ) → Call Held (Option (Option μ)) := fun rest => do
  let (err, mp) ← vnStartSecondaryWrite (some vmp) ⟨true, false⟩ tr.nowait
  if err ≠ 0 then
    if doomed then
      let (_, mp) ← vnStartSecondaryWrite (some vmp) ⟨false, false⟩ tr.wait
      pure (some mp)
    else if ¬ tr.flagSuspended then
      match rest with
      | [] => stop
      | tr' :: rest => inactiveLoop vmp doomed tr' rest
    else pure none
  else pure (some mp)

/-- The end of `ufs_inactive`: the time stamps. The inode is truncated and freed
before, which takes no interlock. -/
def inactiveUpdate (env : InactiveEnv μ τ) (mp : Option μ) : Call Held Unit :=
  if env.inAccess ∧ ¬ env.inDirty ∧ mp = none then do
    let _ ← vnStartSecondaryWrite (some env.vmp) ⟨true, false⟩ env.accessWakes
  else pure ()

def ufsInactive (env : InactiveEnv μ τ) : Call Held Unit :=
  if env.iMode = 0 then pure ()
  else if env.iNlink ≤ 0 ∧ ¬ env.rdonly then do
    match ← inactiveLoop env.vmp env.doomed env.first env.tries with
    | none => pure ()
    | some mp => inactiveUpdate env mp
  else inactiveUpdate env none

end Mounts

end UfsX.Compat
