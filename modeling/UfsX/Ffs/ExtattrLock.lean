import UfsX.Lib.Threads
import Mathlib.Data.List.Basic

/-!
# `UfsX.Ffs.ExtattrLock`: the shared area of extended attributes

`ffs_lock_ea` and `ffs_unlock_ea` build a lock out of the inode lock, two bits of `i_flag`
and the address of `i_ea_refs` to sleep on. Under it `ffs_open_ea` and `ffs_close_ea` count
in `i_ea_refs` who has the area open.

The threads of a system share one inode. A step takes or drops the inode lock, tests or
changes a flag, goes to sleep, wakes the sleepers, or is one of the places that read or
change the area and the count. `msleep` is called without a mutex, so that a thread goes to
sleep with the inode lock. `step` gives `none` for a thread that waits for the inode lock,
sleeps, or has nothing to do.
-/

set_option autoImplicit false

namespace UfsX.Ffs.ExtattrLock

open UfsX.Lib

/-- Who has called `ffs_lock_ea`: `ffs_open_ea`, or `ffs_close_ea` with `commit`. -/
inductive Caller where
  | openEa
  | closeEa (commit : Bool)
  deriving DecidableEq, Repr

/-- What a thread does next. -/
inductive Pc where
  | idle
  /-- The area is open. -/
  | opened
  /-- `ffs_lock_ea`: take the inode lock, test `IN_EA_LOCKED`, set `IN_EA_LOCKWAIT` and
  sleep, or set `IN_EA_LOCKED` and drop the inode lock. -/
  | lock (c : Caller)
  | lockTest (c : Caller)
  | lockSetWait (c : Caller)
  | lockSleep (c : Caller)
  | asleep (c : Caller)
  | lockSet (c : Caller)
  | lockUnlock (c : Caller)
  /-- `ffs_open_ea`: test the area, read it, count. -/
  | openTest
  | openRead
  | openCount
  /-- `ffs_close_ea`: test the area, write it, count. -/
  | closeTest (commit : Bool)
  | closeWrite
  | closeCount
  /-- `ffs_unlock_ea`: take the inode lock, test `IN_EA_LOCKWAIT` and wake, clear both
  flags, drop the inode lock. `opens` says whether the caller has the area open then. -/
  | unlock (opens : Bool)
  | unlockTest (opens : Bool)
  | unlockWakeup (opens : Bool)
  | unlockClear (opens : Bool)
  | unlockUnlock (opens : Bool)
  deriving DecidableEq, Repr

/-- The inode lock is held. -/
def Pc.inLock : Pc → Bool
  | .lockTest _ | .lockSetWait _ | .lockSleep _ | .asleep _ | .lockSet _ | .lockUnlock _
  | .unlockTest _ | .unlockWakeup _ | .unlockClear _ | .unlockUnlock _ => true
  | _ => false

/-- Between `ffs_lock_ea` and `ffs_unlock_ea`. -/
def Pc.inside : Pc → Bool
  | .openTest | .openRead | .openCount | .closeTest _ | .closeWrite | .closeCount => true
  | _ => false

structure State (τ : Type*) where
  /-- The inode lock, exclusive. -/
  lock : Option τ
  /-- `IN_EA_LOCKED` -/
  eaLocked : Bool
  /-- `IN_EA_LOCKWAIT` -/
  eaLockwait : Bool
  /-- `i_ea_refs` -/
  refs : Int
  /-- `i_ea_area` is not null. -/
  area : Bool
  pc : τ → Pc
  /-- The threads whose `ffs_open_ea` has succeeded and that have not closed yet. -/
  opens : List τ

/-- What `ffs_rdextattr` finds: whether it fails, and whether `malloc` gives it a null
pointer, which `_MALLOC` does for the `di_extsize` of 0. -/
structure Read where
  fails : Bool
  null : Bool
  deriving DecidableEq, Repr

variable {τ : Type*} [DecidableEq τ]

namespace State

variable (s : State τ) (t : τ)

def goto (p : Pc) : State τ := { s with pc := Function.update s.pc t p }

def acquire (p : Pc) : Option (State τ) :=
  if s.lock = none then some { s.goto t p with lock := some t } else none

def release (p : Pc) : State τ := { s.goto t p with lock := none }

/-- What is between `ffs_lock_ea` and the caller. -/
def entered : Caller → Pc
  | .openEa => .openTest
  | .closeEa commit => .closeTest commit

/-- Wake those that sleep on `i_ea_refs`. They go on in the loop of `ffs_lock_ea`. -/
def wakeAsleep : State τ :=
  { s with pc := fun u => match s.pc u with | .asleep c => .lockTest c | p => p }

/-- The next step of thread `t`. -/
def step (r : Read) : Option (State τ) :=
  match s.pc t with
  | .idle => none
  | .opened => none
  | .lock c => s.acquire t (.lockTest c)
  | .lockTest c => some (s.goto t (if s.eaLocked then .lockSetWait c else .lockSet c))
  | .lockSetWait c => some ({ s with eaLockwait := true }.goto t (.lockSleep c))
  | .lockSleep c => some (s.goto t (.asleep c))
  | .asleep _ => none
  | .lockSet c => some ({ s with eaLocked := true }.goto t (.lockUnlock c))
  | .lockUnlock c => some (s.release t (entered c))
  | .openTest => some (s.goto t (if s.area then .openCount else .openRead))
  | .openRead =>
      if r.fails then some (s.goto t (.unlock false))
      else some ({ s with area := !r.null }.goto t .openCount)
  | .openCount => some ({ s with refs := s.refs + 1, opens := t :: s.opens }.goto t (.unlock true))
  | .closeTest commit =>
      if s.area then some (s.goto t (if commit then .closeWrite else .closeCount))
      else some ({ s with opens := s.opens.erase t }.goto t (.unlock false))
  | .closeWrite => some (s.goto t .closeCount)
  | .closeCount =>
      let s' := { s with refs := s.refs - 1, opens := s.opens.erase t }
      if s.refs - 1 = 0 then some ({ s' with area := false }.goto t (.unlock false))
      else some (s'.goto t (.unlock false))
  | .unlock opens => s.acquire t (.unlockTest opens)
  | .unlockTest opens => some (s.goto t (if s.eaLockwait then .unlockWakeup opens else .unlockClear opens))
  | .unlockWakeup opens => some (s.wakeAsleep.goto t (.unlockClear opens))
  | .unlockClear opens =>
      some ({ s with eaLocked := false, eaLockwait := false }.goto t (.unlockUnlock opens))
  | .unlockUnlock opens => some (s.release t (if opens then .opened else .idle))

end State

/-- A thread takes a step, or calls one of the functions. `P` restricts the steps. -/
inductive Next (P : State τ → τ → Read → Prop) (s : State τ) : State τ → Prop where
  | step (t : τ) (r : Read) {s' : State τ} (hP : P s t r) (h : s.step t r = some s') : Next P s s'
  | callOpen (t : τ) (h : s.pc t = .idle) : Next P s (s.goto t (.lock .openEa))
  | callClose (t : τ) (commit : Bool) (h : s.pc t = .opened) :
      Next P s (s.goto t (.lock (.closeEa commit)))

/-- Nobody has the area open. -/
def init : State τ := ⟨none, false, false, 0, false, fun _ => .idle, []⟩

end UfsX.Ffs.ExtattrLock
