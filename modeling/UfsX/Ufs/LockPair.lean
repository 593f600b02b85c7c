import UfsX.Ufs.InodeLock

/-!
# `UfsX.Ufs.LockPair`: two inode locks at once

`inode_lock_lockpair` and `inode_lock_unlockpair` (`ffs_inode_lock.cpp`). An inode is its
address, and the locks are a map from addresses.
-/

set_option autoImplicit false

namespace UfsX.Ufs

abbrev Locks := Nat → Sys

/-- The ways to stop. -/
inductive PairPanic where
  /-- "%p already owns one inode" -/
  | alreadyOwns
  | lock (panic : LockPanic)
  deriving DecidableEq, Repr

/-- `inode_lock_lock`. A `bool` that becomes an `int`: 1 says that the lock has been
taken. -/
def inodeLockLock (locks : Locks) (t ip : Nat) (type : LockType) (granted : Bool) :
    Except PairPanic (Nat × Locks) :=
  match LockOp.exec (locks ip) (.lock t type granted) with
  | .ok s => .ok (granted.toNat, Function.update locks ip s)
  | .error panic => .error (.lock panic)

/-- `inode_lock_unlock` -/
def inodeLockUnlock (locks : Locks) (t ip : Nat) : Except PairPanic Locks :=
  match LockOp.exec (locks ip) (.unlock t) with
  | .ok s => .ok (Function.update locks ip s)
  | .error panic => .error (.lock panic)

section Pair

variable (locks : Locks) (t : Nat)

/-- The second request of `inode_lock_lockpair`. -/
def lockLast (first last : Nat) (type : LockType) (granted : Bool) :
    Except PairPanic (Nat × Locks) := do
  let (error, locks) ← inodeLockLock locks t last type granted
  if error ≠ 0 then do
    let locks ← inodeLockUnlock locks t first
    .ok (error, locks)
  else .ok (0, locks)

/-- Both requests, in the order in which they are made. -/
def lockInOrder (first last : Nat) (type : LockType) (granted₁ granted₂ : Bool) :
    Except PairPanic (Nat × Locks) := do
  let (error, locks) ← inodeLockLock locks t first type granted₁
  if error ≠ 0 then .ok (error, locks) else lockLast locks t first last type granted₂

/-- `inode_lock_lockpair`, where `granted₁` and `granted₂` say what the locks of the system
answer, in the order in which they are asked. -/
def inodeLockLockpair (ip1 ip2 : Nat) (type : LockType) (granted₁ granted₂ : Bool) :
    Except PairPanic (Nat × Locks) :=
  if type.exclusive ∧ ((locks ip2).lock.owner = some t ∨ (locks ip1).lock.owner = some t) then
    .error .alreadyOwns
  else if ip1 = ip2 then inodeLockLock locks t ip1 type granted₁
  else if ip1 < ip2 then lockInOrder locks t ip1 ip2 type granted₁ granted₂
  else lockInOrder locks t ip2 ip1 type granted₁ granted₂

end Pair

/-- `inode_lock_unlockpair` -/
def inodeLockUnlockpair (locks : Locks) (t ip1 ip2 : Nat) : Except PairPanic Locks := do
  let locks ← inodeLockUnlock locks t ip1
  if ip2 ≠ ip1 then inodeLockUnlock locks t ip2 else .ok locks

end UfsX.Ufs
