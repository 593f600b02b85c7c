import Mathlib.Data.List.Basic
import Mathlib.Logic.Function.Basic

/-!
# `UfsX.Ffs.Vget`: `ffs_vgetf`

Threads get in-core inodes by their number. `ffs_vgetf` looks the number up in the
hash table, waits while another thread makes the inode (`um_vget_critical`), and
otherwise makes it: it enters the number in the critical list, allocates the inode,
puts it in the hash table, leaves the critical list, reads the inode from disk and
gives it a vnode.

Each of these calls is one step. Between two of them, any other thread can take
steps. What the rest of the kernel answers is the `Answer` of a step: whether the
vnode is still alive, memory is there, the inode can be read.
-/

set_option autoImplicit false

namespace UfsX.Ffs.Vget

/-- An in-core inode of the mount, with `INL_ALLOC`. `id` stands for its address. -/
structure Inode where
  id : Nat
  number : Nat
  alloc : Bool
  deriving DecidableEq, Repr

/-- What a thread does next. `replace` is `FFSV_REPLACE`. -/
inductive Pc where
  | idle
  /-- `ufs_hash_get` -/
  | hashGet (ino : Nat) (replace : Bool)
  /-- `ialloc_is_critical` -/
  | isCritical (ino : Nat) (replace : Bool)
  /-- `ialloc_critical_wait` -/
  | criticalWait (ino : Nat) (replace : Bool)
  | asleep (ino : Nat) (replace : Bool)
  /-- `ialloc_critical_enter` -/
  | criticalEnter (ino : Nat)
  /-- `malloc` -/
  | malloc (ino : Nat)
  /-- `ialloc_critical_leave`, with no inode -/
  | criticalLeaveFail (ino : Nat)
  /-- `ufs_hash_insert` -/
  | hashInsert (ino : Nat)
  /-- `ialloc_critical_leave` -/
  | criticalLeave (ino id : Nat)
  /-- Reading the inode and getting a vnode. -/
  | load (ino id : Nat)
  /-- The call has returned the vnode of an inode. -/
  | returned (ino id : Nat)
  /-- The call has returned an error. -/
  | failed
  deriving DecidableEq, Repr

/-- What the rest of the kernel answers: it works, the vnode has changed its
identity, or there is an error. -/
inductive Answer where
  | ok
  | again
  | error
  deriving DecidableEq, Repr

structure State (τ : Type*) where
  /-- The hash chains; a new inode goes to the front. -/
  chain : List Inode
  /-- `um_vget_critical` -/
  critical : List Nat
  /-- The next address. -/
  next : Nat
  /-- An assertion has failed. -/
  panic : Bool
  pc : τ → Pc

/-- A thread that can call `ffs_vgetf`. -/
def Pc.free : Pc → Bool
  | .idle | .returned _ _ | .failed => true
  | _ => false

namespace State

variable {τ : Type*} [DecidableEq τ] (s : State τ) (t : τ)

def goto (p : Pc) : State τ := { s with pc := Function.update s.pc t p }

/-- The inode that `ufs_hash_get` meets first. -/
def find (ino : Nat) : Option Inode := s.chain.find? fun ip => ip.number = ino

/-- `ialloc_critical_leave` asserts that the number is there. -/
def criticalLeave (ino : Nat) (p : Pc) : State τ :=
  if ino ∈ s.critical then { s.goto t p with critical := s.critical.erase ino }
  else { s with panic := true }

/-- `inode_wakeup` clears `INL_ALLOC`. -/
def inodeWakeup (id : Nat) : State τ :=
  { s with chain := s.chain.map fun ip => if ip.id = id then { ip with alloc := false } else ip }

/-- `vget_rel` takes the inode off its chain. -/
def vgetRel (id : Nat) : State τ := { s with chain := s.chain.eraseP fun ip => ip.id = id }

/-- The next step of thread `t`, for an answer of the kernel. There is none after
an assertion has failed, and while the thread waits for `INL_ALLOC`. -/
def step (a : Answer) : Option (State τ) :=
  if s.panic then none
  else
    match s.pc t with
    | .idle | .returned _ _ | .failed => none
    | .hashGet ino replace =>
        match s.find ino with
        | none => some (s.goto t (.isCritical ino replace))
        | some ip =>
            if ip.alloc then none
            else
              match a with
              | .again => some s
              | .error => some (s.goto t .failed)
              | .ok =>
                  -- `FFSV_REPLACE` puts the vnode back and goes on
                  if replace then some (s.goto t (.isCritical ino replace))
                  else some (s.goto t (.returned ino ip.id))
    | .isCritical ino replace =>
        if ino ∈ s.critical then some (s.goto t (.criticalWait ino replace))
        else some (s.goto t (.criticalEnter ino))
    | .criticalWait ino replace =>
        if ino ∈ s.critical then some (s.goto t (.asleep ino replace))
        else some (s.goto t (.hashGet ino replace))
    -- a wakeup ends the sleep, or a signal (`PCATCH`)
    | .asleep ino replace => some (s.goto t (.hashGet ino replace))
    | .criticalEnter ino =>
        if ino ∈ s.critical then some { s with panic := true }
        else some { s.goto t (.malloc ino) with critical := s.critical ++ [ino] }
    | .malloc ino =>
        match a with
        | .error => some (s.goto t (.criticalLeaveFail ino))
        | _ => some (s.goto t (.hashInsert ino))
    | .criticalLeaveFail ino => some (s.criticalLeave t ino .failed)
    | .hashInsert ino =>
        some { s.goto t (.criticalLeave ino s.next) with
          chain := ⟨s.next, ino, true⟩ :: s.chain
          next := s.next + 1 }
    | .criticalLeave ino id => some (s.criticalLeave t ino (.load ino id))
    | .load ino id =>
        match a with
        | .error => some ((s.vgetRel id).goto t .failed)
        | _ => some ((s.inodeWakeup id).goto t (.returned ino id))

end State

/-- Nothing is in core, and nobody does anything. -/
def init {τ : Type*} : State τ := ⟨[], [], 0, false, fun _ => .idle⟩

end UfsX.Ffs.Vget
