import UfsX.Compat.Secondary

/-!
# `UfsX.Ufs.Inactive`: the last release of an inode

`ufs_inactive` of `ufs_inode.c` on one inode, step by step, while others suspend and resume
the file system. How `vn_start_secondary_write` comes out is a parameter `start`:
`vnStart` is the function of `vfs_vnops.c`, and the results about the suspend flags hold for
other values of the parameter too.

Soft updates and quotas are compiled out. `mnt_flag` takes part with the question whether
one of the bits `MNTK_SUSPEND2` and `MNTK_SUSPENDED` is set there, which `ufs_inactive` asks
of this word and not of `mnt_kern_flag`.
-/

set_option autoImplicit false

namespace UfsX.Ufs.Inactive

open UfsX.Lib UfsX.Compat

structure Inode where
  number : Nat
  mode : Nat
  nlink : Int
  effnlink : Int
  size : Nat
  /-- `di_extsize`, 0 for UFS1. -/
  extsize : Nat
  blocks : Nat
  /-- `i_flag`: `IN_ACCESS`, and one of `IN_CHANGE`, `IN_UPDATE` and `IN_MODIFIED`. -/
  access : Bool
  changed : Bool
  /-- `VI_NEEDINACT` -/
  needinact : Bool
  deriving DecidableEq, Repr

/-- What `vn_start_secondary_write` comes to. -/
inductive Start where
  | crash
  | waits
  | ret (err : Int)
  deriving DecidableEq, Repr

/-- The label `loop`; waiting because of `VN_IS_DOOMED`; the test of `mnt_flag`; from the
truncation on; the time stamps. -/
inductive Pc where
  | idle
  | loop
  | wait
  | check
  | finish
  | update
  | panicked
  deriving DecidableEq, Repr

structure State (τ : Type*) where
  mount : Bsdmount τ
  /-- `mnt_flag & (MNTK_SUSPEND2 | MNTK_SUSPENDED)` -/
  flagSuspended : Bool
  /-- `VN_IS_DOOMED` -/
  doomed : Bool
  rdonly : Bool
  ip : Inode
  pc : Pc
  /-- The local `mp` is null. -/
  mpNull : Bool
  /-- The calls of `UFS_VFREE`: number and mode. -/
  vfrees : List (Nat × Nat)
  recycled : Bool
  /-- A call has asked `vn_start_secondary_write` while the file system was not suspended. -/
  ran : Bool
  deriving DecidableEq

/-- What a step is told: the value of `msleep`, and of `UFS_TRUNCATE`. -/
structure Env where
  msleep : Int
  truncate : Int

variable {τ : Type}

/-- The file system is suspended for secondary writes. -/
def suspended (m : Bsdmount τ) : Bool := m.suspended || m.suspend2

/-- `vn_start_secondary_write(vp, &mp, V_NOWAIT)`, or with `V_WAIT`. -/
def vnStart (m : Bsdmount τ) (nowait : Bool) (msleep : Int) : Start :=
  match vnStartSecondaryWrite (some ()) ⟨nowait, false⟩ [(m, msleep)] ⟨false, false, 0, 0⟩ with
  | .ret (err, _) _ => .ret err
  | .stop => .waits
  | .crash => .crash

namespace State

variable (start : Bsdmount τ → Bool → Int → Start) (s : State τ) (env : Env)

/-- `ufs_inactive` is called. -/
def call : State τ :=
  if s.ip.mode = 0 then { s with recycled := s.recycled || !s.ip.needinact }
  else if s.ip.nlink ≤ 0 ∧ ¬ s.rdonly then { s with mpNull := true, pc := .loop }
  else { s with mpNull := true, pc := .finish }

/-- A call of `vn_start_secondary_write`, and where it goes on with the error `err`. -/
def startWrite (nowait : Bool) (next : Int → Pc) : Option (State τ) :=
  match start s.mount nowait env.msleep with
  | .crash => some { s with ran := s.ran || !suspended s.mount, pc := .panicked }
  | .waits => none
  | .ret err => some { s with ran := s.ran || !suspended s.mount, mpNull := false, pc := next err }

/-- `UFS_TRUNCATE` to nothing, with the extended attributes. -/
def truncate : State τ :=
  if s.ip.effnlink ≤ 0 ∧ s.ip.size + s.ip.extsize ≠ 0 ∧ ¬ s.rdonly ∧ env.truncate = 0 then
    { s with ip := { s.ip with size := 0, extsize := 0, blocks := 0, changed := true } }
  else s

/-- The mode, and `UFS_VFREE`. -/
def vfree : State τ :=
  if s.ip.nlink ≤ 0 ∧ s.ip.mode ≠ 0 ∧ ¬ s.rdonly ∧ ¬ s.ip.needinact then
    { s with ip := { s.ip with mode := 0, changed := true },
             vfrees := (s.ip.number, s.ip.mode) :: s.vfrees }
  else s

/-- From the label `out` on. -/
def out : State τ :=
  { s with recycled := s.recycled || (s.ip.mode = 0 && !s.ip.needinact), pc := .idle }

def step : Option (State τ) :=
  match s.pc with
  | .idle | .panicked => none
  | .loop => s.startWrite start env true fun err => if err = 0 then .finish else if s.doomed then .wait else .check
  | .wait => s.startWrite start env false fun _ => .finish
  | .check =>
      if ¬ s.flagSuspended then some { s with pc := .loop }
      else some { s with ip := { s.ip with needinact := true }, pc := .idle }
  | .finish => some { (s.truncate env).vfree with pc := .update }
  | .update =>
      if s.ip.access ∨ s.ip.changed then
        if ¬ s.ip.changed ∧ s.mpNull then
          match start s.mount true env.msleep with
          | .crash => some { s with pc := .panicked }
          | .waits => none
          | .ret err =>
              if err ≠ 0 then some { s with ip := { s.ip with access := false } }.out
              -- `UFS_UPDATE`
              else some { s with ip := { s.ip with access := false, changed := false } }.out
        else some { s with ip := { s.ip with access := false, changed := false } }.out
      else some s.out

end State

/-- A call, a step of the call, and what others do to the file system meanwhile. -/
inductive Next (start : Bsdmount τ → Bool → Int → Start) (s : State τ) : State τ → Prop where
  | call (h : s.pc = .idle) : Next start s s.call
  | step (env : Env) {s' : State τ} (h : s.step start env = some s') : Next start s s'
  /-- `vfs_write_suspend` of thread `t`, up to the end of `VFS_SYNC`. -/
  | writeSuspend (t : τ) (h : s.mount.suspend = false) : Next start s
      { s with mount := { s.mount with suspend := true, suspend2 := true, suspended := true, suspOwner := some t } }
  /-- `vfs_write_resume` -/
  | writeResume (h : s.mount.suspend = true) : Next start s { s with mount := s.mount.unsuspend }
  | doom : Next start s { s with doomed := true }

end UfsX.Ufs.Inactive
