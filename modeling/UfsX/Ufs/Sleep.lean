import UfsX.Lib.Threads
import Mathlib.Data.List.Basic

/-!
# `UfsX.Ufs.Sleep`: the three wait protocols

Three places of the file system put a thread to sleep until another one is
through: the list of inode numbers that are being allocated
(`ffs_ialloc_critical.cpp`), the lookup flag of a directory (`lookup_enter` and
`lookup_leave`), and the allocation flag of an inode in the hash table
(`ufs_hash_get` and `inode_wakeup`).

Each protocol is a system of threads. A step of a thread takes or drops a lock,
tests or changes a flag or the list, goes to sleep, or wakes the sleepers.
`msleep` without a mutex only goes to sleep; with a mutex it drops the mutex in
the same step. A wakeup reaches the threads that sleep already. `step` gives
`none` for a thread that has to wait for a lock, sleeps, has nothing to do, or
fails an assertion.
-/

set_option autoImplicit false

namespace UfsX.Ufs

open UfsX.Lib

/-! ### `ialloc_critical_wait` and `ialloc_critical_leave` -/

namespace Critical

/-- `struct Node` -/
structure Node where
  id : Nat
  ino : Nat
  waiters : Nat
  deriving DecidableEq, Repr

/-- What a thread does next. -/
inductive Pc where
  | idle
  /-- `ialloc_critical_wait`: take the lock, look for the number, count the
  waiter, drop the lock, sleep. -/
  | wait (ino : Nat)
  | waitTest (ino : Nat)
  | waitCount (id ino : Nat)
  | waitUnlock (id ino : Nat)
  | waitSleep (id ino : Nat)
  | asleep (id ino : Nat)
  /-- The number is not there. -/
  | waitEnd
  /-- `ialloc_critical_enter` -/
  | enter (ino : Nat)
  | enterTest (ino : Nat)
  | enterUnlock (ino : Nat)
  /-- The inode is being allocated. -/
  | inside (ino : Nat)
  /-- `ialloc_critical_leave` -/
  | leave (ino : Nat)
  | leaveTest (ino : Nat)
  | leaveWakeup (id ino : Nat)
  | leaveRemove (ino : Nat)
  | leaveUnlock
  deriving DecidableEq, Repr

/-- The lock of the list is held. -/
def Pc.inLock : Pc → Bool
  | .waitTest _ | .waitCount _ _ | .waitUnlock _ _ | .waitEnd | .enterTest _ | .enterUnlock _
  | .leaveTest _ | .leaveWakeup _ _ | .leaveRemove _ | .leaveUnlock => true
  | _ => false

structure State (τ : Type*) where
  lock : Option τ
  list : List Node
  /-- A node that is made gets this number. -/
  next : Nat
  pc : τ → Pc

/-- `node->waiters += 1` -/
def countWaiter (list : List Node) (id : Nat) : List Node :=
  list.map fun n => if n.id = id then { n with waiters := n.waiters + 1 } else n

variable {τ : Type*} [DecidableEq τ]

namespace State

variable (s : State τ) (t : τ)

def goto (p : Pc) : State τ := { s with pc := Function.update s.pc t p }

def acquire (p : Pc) : Option (State τ) :=
  if s.lock = none then some { s.goto t p with lock := some t } else none

def release (p : Pc) : State τ := { s.goto t p with lock := none }

/-- `ino_exists` -/
def find (ino : Nat) : Option Node := s.list.find? fun n => n.ino = ino

/-- The next step of thread `t`. -/
def step : Option (State τ) :=
  match s.pc t with
  | .idle => none
  | .wait ino => s.acquire t (.waitTest ino)
  | .waitTest ino =>
      match s.find ino with
      | some n => some (s.goto t (.waitCount n.id ino))
      | none => some (s.goto t .waitEnd)
  | .waitCount id ino =>
      some ({ s with list := countWaiter s.list id }.goto t (.waitUnlock id ino))
  | .waitUnlock id ino => some (s.release t (.waitSleep id ino))
  | .waitSleep id ino => some (s.goto t (.asleep id ino))
  | .asleep _ _ => none
  | .waitEnd => some (s.release t .idle)
  | .enter ino => s.acquire t (.enterTest ino)
  | .enterTest ino =>
      if (s.find ino).isSome then none
      else some ({ s with list := s.list ++ [(⟨s.next, ino, 0⟩ : Node)], next := s.next + 1 }.goto t
        (.enterUnlock ino))
  | .enterUnlock ino => some (s.release t (.inside ino))
  | .inside _ => none
  | .leave ino => s.acquire t (.leaveTest ino)
  | .leaveTest ino =>
      match s.find ino with
      | some n =>
          some (s.goto t (if n.waiters > 0 then .leaveWakeup n.id ino else .leaveRemove ino))
      | none => none
  | .leaveWakeup id ino =>
      some ({ s with pc := wakeAll (.asleep id ino) .idle s.pc }.goto t (.leaveRemove ino))
  | .leaveRemove ino =>
      some ({ s with list := s.list.eraseP fun n => n.ino = ino }.goto t .leaveUnlock)
  | .leaveUnlock => some (s.release t .idle)

end State

/-- A thread takes a step, or calls one of the functions. `P` restricts the
steps. -/
inductive Next (P : State τ → τ → Prop) (s : State τ) : State τ → Prop where
  | step (t : τ) {s' : State τ} (hP : P s t) (h : s.step t = some s') : Next P s s'
  | callWait (t : τ) (ino : Nat) (h : s.pc t = .idle) : Next P s (s.goto t (.wait ino))
  | callEnter (t : τ) (ino : Nat) (h : s.pc t = .idle) : Next P s (s.goto t (.enter ino))
  | callLeave (t : τ) (ino : Nat) (h : s.pc t = .inside ino) : Next P s (s.goto t (.leave ino))

/-- The list is empty, and nobody does anything. -/
def init : State τ := ⟨none, [], 0, fun _ => .idle⟩

end Critical

/-! ### `lookup_enter` and `lookup_leave` -/

namespace Lookup

/-- What a thread does next with a directory. -/
inductive Pc where
  | idle
  /-- `lookup_enter`: take the inode lock, test `INL_LOOK`, set
  `INL_WAIT_LOOKUP`, drop the lock, sleep. -/
  | enter
  | enterTest
  | enterSetWait
  | enterUnlock
  | enterSleep
  | asleep
  | enterSetLook
  /-- The lookup itself, which keeps the inode lock. -/
  | inside
  /-- `lookup_leave`: clear `INL_LOOK`, test `INL_WAIT_LOOKUP`, clear it, wake,
  drop the lock. -/
  | leaveClear
  | leaveTest
  | leaveClearWait
  | leaveWakeup
  | leaveUnlock
  /-- Other uses of the inode lock. -/
  | other
  | otherLocked
  deriving DecidableEq, Repr

def Pc.inLock : Pc → Bool
  | .enterTest | .enterSetWait | .enterUnlock | .enterSetLook | .inside | .leaveClear
  | .leaveTest | .leaveClearWait | .leaveWakeup | .leaveUnlock | .otherLocked => true
  | _ => false

structure State (τ : Type*) where
  /-- The inode lock, exclusive. -/
  lock : Option τ
  /-- `INL_LOOK` -/
  look : Bool
  /-- `INL_WAIT_LOOKUP` -/
  waitLookup : Bool
  pc : τ → Pc

variable {τ : Type*} [DecidableEq τ]

namespace State

variable (s : State τ) (t : τ)

def goto (p : Pc) : State τ := { s with pc := Function.update s.pc t p }

def acquire (p : Pc) : Option (State τ) :=
  if s.lock = none then some { s.goto t p with lock := some t } else none

def release (p : Pc) : State τ := { s.goto t p with lock := none }

/-- The next step of thread `t`. -/
def step : Option (State τ) :=
  match s.pc t with
  | .idle => none
  | .enter => s.acquire t .enterTest
  | .enterTest => some (s.goto t (if s.look then .enterSetWait else .enterSetLook))
  | .enterSetWait => some ({ s with waitLookup := true }.goto t .enterUnlock)
  | .enterUnlock => some (s.release t .enterSleep)
  | .enterSleep => some (s.goto t .asleep)
  | .asleep => none
  | .enterSetLook => some ({ s with look := true }.goto t .inside)
  | .inside => some (s.goto t .leaveClear)
  | .leaveClear => some ({ s with look := false }.goto t .leaveTest)
  | .leaveTest => some (s.goto t (if s.waitLookup then .leaveClearWait else .leaveUnlock))
  | .leaveClearWait => some ({ s with waitLookup := false }.goto t .leaveWakeup)
  | .leaveWakeup => some ({ s with pc := wakeAll .asleep .enter s.pc }.goto t .leaveUnlock)
  | .leaveUnlock => some (s.release t .idle)
  | .other => s.acquire t .otherLocked
  | .otherLocked => some (s.release t .idle)

end State

inductive Next (s : State τ) : State τ → Prop where
  | step (t : τ) {s' : State τ} (h : s.step t = some s') : Next s s'
  | callEnter (t : τ) (h : s.pc t = .idle) : Next s (s.goto t .enter)
  | callOther (t : τ) (h : s.pc t = .idle) : Next s (s.goto t .other)

def init : State τ := ⟨none, false, false, fun _ => .idle⟩

end Lookup

/-! ### `ufs_hash_get` and `inode_wakeup` -/

namespace HashWait

/-- What a thread that looks for the inode does next: take the lock of the hash
table, test `INL_ALLOC`, set `INL_WAIT_ALLOC`, sleep and drop the lock. -/
inductive Pc where
  | idle
  | get
  | getTest
  | getSetWait
  | getSleep
  | asleep
  | getUnlock
  deriving DecidableEq, Repr

/-- What the thread that makes the inode does next. `vget_rel` takes the inode
out of the table before it calls `inode_wakeup`. -/
inductive Maker where
  | new
  | insert
  | insertLocked
  | insertUnlock
  | load
  | remove
  | removeLocked
  | removeUnlock
  /-- `inode_wakeup`: clear `INL_ALLOC`, test `INL_WAIT_ALLOC`, clear it,
  wake. -/
  | wakeClear
  | wakeTest
  | wakeClearWait
  | wakeup
  | done
  deriving DecidableEq, Repr

/-- One inode. `INL_TRANSIT` is never set. The lock of the hash table is held by
a getter, or by the maker. -/
structure State (τ : Type*) where
  lock : Option (Option τ)
  /-- The inode is in the table. -/
  hashed : Bool
  /-- `INL_ALLOC` -/
  alloc : Bool
  /-- `INL_WAIT_ALLOC` -/
  waitAlloc : Bool
  maker : Maker
  pc : τ → Pc

variable {τ : Type*} [DecidableEq τ]

namespace State

variable (s : State τ)

def goto (t : τ) (p : Pc) : State τ := { s with pc := Function.update s.pc t p }

/-- The next step of a getter. -/
def step (t : τ) : Option (State τ) :=
  match s.pc t with
  | .idle => none
  | .get => if s.lock = none then some { s.goto t .getTest with lock := some (some t) } else none
  | .getTest => some (s.goto t (if s.hashed && s.alloc then .getSetWait else .getUnlock))
  | .getSetWait => some ({ s with waitAlloc := true }.goto t .getSleep)
  | .getSleep => some { s.goto t .asleep with lock := none }
  | .asleep => none
  | .getUnlock => some { s.goto t .idle with lock := none }

/-- The next step of the maker. `fail` says whether the inode can be loaded. -/
def make (fail : Bool) : Option (State τ) :=
  match s.maker with
  | .new => some { s with alloc := true, maker := .insert }
  | .insert => if s.lock = none then some { s with lock := some none, maker := .insertLocked } else none
  | .insertLocked => some { s with hashed := true, maker := .insertUnlock }
  | .insertUnlock => some { s with lock := none, maker := .load }
  | .load => some { s with maker := if fail then .remove else .wakeClear }
  | .remove => if s.lock = none then some { s with lock := some none, maker := .removeLocked } else none
  | .removeLocked => some { s with hashed := false, maker := .removeUnlock }
  | .removeUnlock => some { s with lock := none, maker := .wakeClear }
  | .wakeClear => some { s with alloc := false, maker := .wakeTest }
  | .wakeTest => some { s with maker := if s.waitAlloc then .wakeClearWait else .done }
  | .wakeClearWait => some { s with waitAlloc := false, maker := .wakeup }
  | .wakeup => some { s with pc := wakeAll .asleep .get s.pc, maker := .done }
  | .done => none

end State

/-- A thread takes a step, or calls `ufs_hash_get`. `P` restricts the steps of
the maker. -/
inductive Next (P : State τ → Prop) (s : State τ) : State τ → Prop where
  | step (t : τ) {s' : State τ} (h : s.step t = some s') : Next P s s'
  | make (fail : Bool) {s' : State τ} (hP : P s) (h : s.make fail = some s') : Next P s s'
  | callGet (t : τ) (h : s.pc t = .idle) : Next P s (s.goto t .get)

def init : State τ := ⟨none, false, false, false, .new, fun _ => .idle⟩

end HashWait

end UfsX.Ufs
