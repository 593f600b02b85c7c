import UfsX.Lib.RwLock
import Mathlib.Data.Nat.Digits.Defs
import Mathlib.Data.Finset.Basic

/-!
# `UfsX.Ufs.InodeLock`: the inode lock

`ffs_inode_lock.cpp` wraps a reader-writer lock of the system and keeps three
records of its own next to it: the exclusive owner, the number of readers, and a
dictionary with the threads that read. A function says from these records which
lock of the system it releases.

Threads are identified by their number. `InodeLock` holds the records, `Sys` the
records together with the lock of the system.
-/

set_option autoImplicit false

namespace UfsX.Ufs

open UfsX.Lib

/-- `struct inode_lock`, without the lock of the system and `lock_flags`, which
nothing uses. The dictionary is the set of its keys. -/
structure InodeLock where
  rdcount : Int
  owner : Option Nat
  readers : Finset (List Nat)

/-- The ways to stop. -/
inductive LockPanic where
  /-- "Unspecified lock request." -/
  | unspecified
  /-- "Attempting to unlock Inode lock, not read or write owned!" -/
  | notOwned
  /-- A failed assertion. -/
  | assertion
  deriving DecidableEq, Repr

/-- `lock_type_t`, the bits that `inode_lock_lock` tests. -/
structure LockType where
  exclusive : Bool
  shared : Bool
  nowait : Bool
  deriving DecidableEq, Repr

/-- `tid_string`: the characters of a decimal number, highest digit first. -/
def tidString (num : Nat) : List Nat := ((Nat.digits 10 num).map (· + 0x30)).reverse

namespace InodeLock

variable (lock : InodeLock) (t : Nat)

def hasReadlock : Bool := tidString t ∈ lock.readers

def setReadlock : InodeLock := { lock with readers := insert (tidString t) lock.readers }

def clearReadlock : Except LockPanic InodeLock :=
  if tidString t ∈ lock.readers then
    .ok { lock with readers := lock.readers.erase (tidString t) }
  else .error .assertion

/-- `inode_lock_new` -/
def new : InodeLock := ⟨0, none, ∅⟩

/-- `inode_lock_owned` -/
def owned : Option Hold :=
  if lock.owner = some t then some .exclusive
  else if lock.hasReadlock t then some .shared
  else none

/-- `inode_lock_lock`, where `ret` says whether the lock of the system has been
taken. The records do not depend on it. -/
def lockLock (type : LockType) (ret : Bool) : Except LockPanic (Bool × InodeLock) :=
  if type.exclusive then .ok (ret, { lock with owner := some t })
  else if type.shared then
    .ok (ret, { lock with rdcount := lock.rdcount + 1 }.setReadlock t)
  else .error .unspecified

/-- `inode_lock_unlock`, with the kind of lock that it releases. -/
def unlock : Except LockPanic (Hold × InodeLock) :=
  if lock.owner = some t then .ok (.exclusive, { lock with owner := none })
  else if lock.rdcount > 0 then do
    let lock ← { lock with rdcount := lock.rdcount - 1 }.clearReadlock t
    .ok (.shared, lock)
  else .error .notOwned

/-- `inode_lock_upgrade`. What the system says about the upgrade is not looked
at. -/
def upgrade : Except LockPanic InodeLock :=
  if lock.hasReadlock t ∧ lock.rdcount > 0 then
    { lock with owner := some t, rdcount := lock.rdcount - 1 }.clearReadlock t
  else .error .assertion

/-- `inode_lock_downgrade` -/
def downgrade : Except LockPanic InodeLock :=
  if lock.owner = some t then
    .ok ({ lock with owner := none, rdcount := lock.rdcount + 1 }.setReadlock t)
  else .error .assertion

end InodeLock

/-- The lock of the system that a request asks for. -/
def LockType.hold (type : LockType) : Hold := if type.exclusive then .exclusive else .shared

/-- An inode lock at work. -/
structure Sys where
  lock : InodeLock
  impl : RwLock Nat

/-- One operation by thread `t`. `granted` says whether a request, or an
upgrade, got the lock of the system. -/
inductive LockOp where
  | lock (t : Nat) (type : LockType) (granted : Bool)
  | unlock (t : Nat)
  | upgrade (t : Nat) (granted : Bool)
  | downgrade (t : Nat)

namespace LockOp

/-- The lock of the system can answer so, and the caller may make the call: a
request that waits is granted in the end, an unlock is by a holder, an upgrade
by a shared holder and a downgrade by the exclusive one. -/
def Legal (s : Sys) : LockOp → Prop
  | .lock t type granted => (type.exclusive = true ∨ type.shared = true)
      ∧ (granted = false → type.nowait = true)
      ∧ (granted = true → (s.impl.lock t type.hold).isSome = true)
  | .unlock t => (s.impl.held t).isSome = true
  | .upgrade t granted => t ∈ s.impl.shared
      ∧ ((if granted then s.impl.upgrade t else s.impl.upgradeLost t).isSome = true)
  | .downgrade t => s.impl.excl = some t

/-- Carry an operation out. A lock of the system that cannot answer so, or that
is released by a thread that does not hold it, is left as it is. -/
def exec (s : Sys) : LockOp → Except LockPanic Sys
  | .lock t type granted => do
      let (ret, l) ← s.lock.lockLock t type granted
      .ok ⟨l, if ret then (s.impl.lock t type.hold).getD s.impl else s.impl⟩
  | .unlock t => do
      let (kind, l) ← s.lock.unlock t
      .ok ⟨l, (s.impl.unlock t kind).getD s.impl⟩
  | .upgrade t granted => do
      let l ← s.lock.upgrade t
      .ok ⟨l, (if granted then s.impl.upgrade t else s.impl.upgradeLost t).getD s.impl⟩
  | .downgrade t => do
      let l ← s.lock.downgrade t
      .ok ⟨l, (s.impl.downgrade t).getD s.impl⟩

end LockOp

end UfsX.Ufs
