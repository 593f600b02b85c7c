import UfsX.Lib.Run
import UfsX.Lib.Threads
import Mathlib.Data.List.Basic

/-!
# `UfsX.Compat.Suspend`: write suspension (`freebsd/compat/vfs_vnops.c`)

`Bsdmount` is the part of `struct bsdmount` that the suspension works with. The
threads of the system share one of them. A region that the mount interlock
protects is one step, and it needs the interlock to be free; `msleep` drops the
interlock in the step that goes to sleep. The fast path of `vn_start_write` takes
no interlock.

`next` gives `none` where a thread has to wait or panics. `MPASS` and `ASSERT` do
not stop a thread here: what they demand is for the caller to respect.
-/

set_option autoImplicit false

namespace UfsX.Compat

open UfsX.Lib

/-- `struct bsdmount`. The first three fields are bits of `mnt_kern_flag`. -/
structure Bsdmount (τ : Type*) where
  /-- `MNTK_SUSPEND` -/
  suspend : Bool
  /-- `MNTK_SUSPEND2` -/
  suspend2 : Bool
  /-- `MNTK_SUSPENDED` -/
  suspended : Bool
  mntRef : Int
  suspOwner : Option τ
  vfsOps : Int
  secondaryWrites : Int
  secondaryAccwrites : Int
  writeopcount : Int
  deriving DecidableEq, Repr

namespace Bsdmount

variable {τ : Type*} (m : Bsdmount τ)

/-- `vfs_op_enter`. It panics on counts that make no sense. -/
def opEnter : Option (Bsdmount τ) :=
  if m.vfsOps + 1 > 1 then some { m with vfsOps := m.vfsOps + 1 }
  else if m.mntRef ≤ 0 ∨ m.writeopcount < 0 then none
  else some { m with vfsOps := m.vfsOps + 1 }

/-- `vfs_op_exit_locked` -/
def opExit : Option (Bsdmount τ) :=
  if m.vfsOps ≤ 0 then none else some { m with vfsOps := m.vfsOps - 1 }

/-- What `vfs_write_resume` does to a suspended mount. -/
def unsuspend : Bsdmount τ :=
  { m with suspend := false, suspend2 := false, suspended := false, suspOwner := none }

end Bsdmount

/-- The flags `V_NOWAIT` and `V_XSLEEP` of `vn_start_write`. `V_WAIT` has no bit
that is looked at. -/
structure StartFlags where
  nowait : Bool
  xsleep : Bool
  deriving DecidableEq, Repr

/-- What `vn_start_write` is called with: the mount, or a vnode of it. With a
vnode, `mpp` says whether `*mpp` was set to the mount already. -/
inductive Target where
  | mount
  | vnode (mpp : Bool)
  deriving DecidableEq, Repr

/-- Where a thread is. `td` is the owner that `vfs_write_suspend` was asked for,
`skip` is `VS_SKIP_UNMOUNT`. -/
inductive Pc (τ : Type*) where
  | idle
  /-- `vn_start_write` on the slow path: woken, asleep on `mnt_flag`, or
  interrupted by a signal. -/
  | startLoop (nowait : Bool)
  | startAsleep (nowait : Bool)
  | startIntr
  /-- `vfs_write_suspend` after `vfs_op_enter`, woken from the sleep on
  `mnt_flag`, asleep there. -/
  | susp (td : Option τ) (skip : Bool)
  | suspLoop (td : Option τ) (skip : Bool)
  | suspAsleep (td : Option τ) (skip : Bool)
  /-- Asleep on `mnt_writeopcount`, and in `VFS_SYNC`. -/
  | suspCount (owner : τ)
  | suspSync (owner : τ)
  /-- Before the last `vfs_op_exit` of `vfs_write_resume`. -/
  | opExit
  deriving DecidableEq, Repr

/-- `wakeup(&bmp->mnt_flag)` -/
def Pc.wakeFlag {τ : Type*} : Pc τ → Pc τ
  | .startAsleep nowait => .startLoop nowait
  | .suspAsleep td skip => .suspLoop td skip
  | p => p

/-- `wakeup(&bmp->mnt_writeopcount)` -/
def Pc.wakeCount {τ : Type*} : Pc τ → Pc τ
  | .suspCount owner => .suspSync owner
  | p => p

/-- The last four fields only record what has happened. -/
structure State (τ : Type*) where
  mount : Bsdmount τ
  /-- `mnt_lock`, when a thread has returned with it. -/
  lock : Option τ
  /-- `vfs_isunmount` and `vfs_isforce` -/
  isunmount : Bool
  isforce : Bool
  pc : τ → Pc τ
  /-- The write operations in progress that got the mount back in `*mpp`. -/
  ops : List τ
  /-- Those that got a null pointer. -/
  nulls : List τ
  /-- The owner of a suspension: `vfs_write_suspend` has returned 0, and the owner
  has not called `vfs_write_resume`. -/
  window : Option τ
  /-- Threads that `vn_start_write` let through against the suspension of another
  thread. -/
  intruders : List τ

/-- What happens next. `run` lets a thread go on; `err` is the result of `VFS_SYNC`
when it comes to that. -/
inductive Act (τ : Type*) where
  | startWrite (t : τ) (target : Target) (flags : StartFlags)
  | finishedWrite (t : τ)
  /-- `vn_finished_write(NULL)` -/
  | finishedNull (t : τ)
  | writeSuspend (t : τ) (td : Option τ) (skip : Bool)
  /-- `vfs_write_resume`, with `VR_START_WRITE` or without. -/
  | writeResume (t : τ) (start : Bool)
  | run (t : τ) (err : Int)
  | signal (t : τ)
  | unmount (isunmount isforce : Bool)

variable {τ : Type*} [DecidableEq τ]

namespace State

variable (s : State τ) (t : τ)

def goto (p : Pc τ) : State τ := { s with pc := Function.update s.pc t p }

/-- `vn_start_write` returns 0. -/
def granted : State τ :=
  { s with intruders := if s.window = none ∨ s.window = some t then s.intruders else t :: s.intruders }

/-- The number of write operations that were started and are not finished. -/
def inProgress : Nat := s.ops.length + s.nulls.length

/-! ### `vn_start_write` -/

/-- The loop of the slow path, with the interlock. Only `V_XSLEEP` leads here, so
that the reference is dropped on every way out and nothing is counted. -/
def startLoop (nowait : Bool) : State τ :=
  let s' := { s with mount := { s.mount with mntRef := s.mount.mntRef - 1 } }
  if s.mount.suspend then
    if nowait then s'.goto t .idle
    else s.goto t (.startAsleep nowait)
  else (s'.granted t).goto t .idle

/-- `vn_start_write_refed` for a caller without the interlock. -/
def startRefed (flags : StartFlags) : Option (State τ) :=
  if flags.xsleep then
    if s.lock = none then
      if s.mount.suspOwner = some t then
        some (({ s with mount := { s.mount with mntRef := s.mount.mntRef - 1 } }.granted t).goto t .idle)
      else some (s.startLoop t flags.nowait)
    else none
  else some { s.granted t with
    ops := t :: s.ops, mount := { s.mount with writeopcount := s.mount.writeopcount + 1 } }

/-- `vn_start_write`. A vnode of a mount that is not being unmounted, and one for
which `*mpp` is not set, gives a null pointer and success. -/
def startWrite (target : Target) (flags : StartFlags) : Option (State τ) :=
  match target with
  | .mount => s.startRefed t flags
  | .vnode mpp =>
      if s.isunmount && mpp then s.startRefed t flags
      else if flags.xsleep then some (s.granted t)
      else some { s.granted t with nulls := t :: s.nulls }

/-! ### `vn_finished_write` -/

/-- `vn_finished_write`. A negative count makes it panic. -/
def finishedWrite : Option (State τ) :=
  if s.lock = none ∧ t ∈ s.ops then
    let c := s.mount.writeopcount - 1
    let s' := { s with ops := s.ops.erase t, mount := { s.mount with writeopcount := c } }
    if s.mount.vfsOps = 0 then some s'
    else if c < 0 then none
    else if s.mount.suspend ∧ c = 0 then some { s' with pc := fun u => (s.pc u).wakeCount }
    else some s'
  else none

/-! ### `vfs_write_resume` and `vfs_write_suspend` -/

/-- The region of `vfs_write_resume` for a suspended mount. `vfs_op_exit` follows. -/
def resumeSuspended (start : Bool) : State τ :=
  let pc := fun u => (s.pc u).wakeCount.wakeFlag
  let m := s.mount.unsuspend
  if start then
    { s with
      pc := Function.update pc t .opExit
      ops := t :: s.ops
      mount := { m with mntRef := m.mntRef + 1, writeopcount := m.writeopcount + 1 } }
  else { s with pc := Function.update pc t .opExit, mount := m }

/-- `vfs_write_resume`. On a mount that is not suspended, `VR_START_WRITE` goes
through the slow path of `vn_start_write_refed`, which counts nothing and does not
drop the interlock of its caller. -/
def writeResume (start : Bool) : Option (State τ) :=
  if s.lock = none then
    let s := { s with window := if s.window = some t then none else s.window }
    if s.mount.suspend then some (s.resumeSuspended t start)
    else if start then
      some { s with
        lock := some t, ops := t :: s.ops, mount := { s.mount with mntRef := s.mount.mntRef + 1 } }
    else some s
  else none

/-- `vfs_write_suspend`, from the loop on, with the interlock. -/
def suspLoop (td : Option τ) (skip : Bool) : Option (State τ) :=
  if s.mount.suspend then some (s.goto t (.suspAsleep td skip))
  else if skip ∧ s.isforce ∧ s.isunmount then
    s.mount.opExit.map fun m => { s with mount := m }.goto t .idle
  else
    let owner := td.getD t
    let s' := { s with mount := { s.mount with suspend := true, suspOwner := some owner } }
    if s.mount.writeopcount > 0 then some (s'.goto t (.suspCount owner))
    else some (s'.goto t (.suspSync owner))

/-- The rest of `vfs_write_suspend` after `vfs_op_enter`. `EALREADY` for the owner. -/
def susp (td : Option τ) (skip : Bool) : Option (State τ) :=
  if s.mount.suspOwner = some t then
    s.mount.opExit.map fun m => { s with mount := m }.goto t .idle
  else s.suspLoop t td skip

/-- `VFS_SYNC` has returned `err`. On an error the suspension is taken back. -/
def synced (owner : τ) (err : Int) : Option (State τ) :=
  if err = 0 then
    some ({ s with
      window := some owner
      mount := { s.mount with suspend2 := true, suspended := true } }.goto t .idle)
  else if s.lock = none then
    if s.mount.suspend then some (s.resumeSuspended t false) else some (s.goto t .idle)
  else none

/-- A thread goes on where it is. -/
def run (err : Int) : Option (State τ) :=
  match s.pc t with
  | .suspSync owner => s.synced t owner err
  | p =>
      if s.lock = none then
        match p with
        | .startLoop nowait => some (s.startLoop t nowait)
        | .startIntr =>
            some ({ s with mount := { s.mount with mntRef := s.mount.mntRef - 1 } }.goto t .idle)
        | .susp td skip => s.susp t td skip
        | .suspLoop td skip => s.suspLoop t td skip
        | .opExit => s.mount.opExit.map fun m => { s with mount := m }.goto t .idle
        | _ => none
      else none

end State

def next (s : State τ) : Act τ → Option (State τ)
  | .startWrite t target flags => if s.pc t = .idle then s.startWrite t target flags else none
  | .finishedWrite t => if s.pc t = .idle then s.finishedWrite t else none
  | .finishedNull t =>
      if s.pc t = .idle ∧ t ∈ s.nulls then some { s with nulls := s.nulls.erase t } else none
  | .writeSuspend t td skip =>
      if s.pc t = .idle ∧ s.lock = none then
        s.mount.opEnter.map fun m => { s with mount := m }.goto t (.susp td skip)
      else none
  | .writeResume t start => if s.pc t = .idle then s.writeResume t start else none
  | .run t err => s.run t err
  | .signal t =>
      match s.pc t with
      | .startAsleep _ => some (s.goto t .startIntr)
      | _ => none
  | .unmount isunmount isforce => some { s with isunmount := isunmount, isforce := isforce }

/-- A step that meets the condition `P`. -/
def Next (P : State τ → Act τ → Prop) (s s' : State τ) : Prop := ∃ a, P s a ∧ next s a = some s'

/-- A mount nobody uses yet, with a reference and an interlock. `ffs_mountfs` leaves the count
at 0 and the interlock unallocated; a call on such a mount is not looked at here. -/
def State.init : State τ where
  mount := ⟨false, false, false, 1, none, 0, 0, 0, 0⟩
  lock := none
  isunmount := false
  isforce := false
  pc _ := .idle
  ops := []
  nulls := []
  window := none
  intruders := []

end UfsX.Compat
