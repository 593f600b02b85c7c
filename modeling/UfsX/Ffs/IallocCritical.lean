import Mathlib.Logic.Function.Basic
import Mathlib.Data.List.Basic

/-!
# `UfsX.Ffs.IallocCritical`: the critical list and its nodes

`ffs_ialloc_critical.cpp` keeps the inode numbers that are being allocated in an `OSArray`
of `Node`s. A node is created with one reference, and the array takes another one
(`setObject`), which `removeObject` drops; the elements behind it move up. `release` drops a
reference, and calls `free` with the last one; `free` can be called directly too.

A node is named by its address, and an address is not used again. How threads wait for
each other here is in `UfsX.Ufs.Sleep`. An assertion that fails gives `none`.
-/

set_option autoImplicit false

namespace UfsX.Ffs.IallocCritical

/-- `struct Node`. `id` stands for its address. -/
structure Node where
  id : Nat
  ino : UInt64
  waiters : Int
  deriving DecidableEq, Repr

/-- The list of a `struct ialloc_critical`, and what has become of the nodes. -/
structure Crit where
  /-- `ic_list` -/
  list : List Node
  /-- The references to a node. -/
  refs : Nat → Nat
  /-- The nodes whose `free` has run, latest first. -/
  freed : List Nat
  /-- The next address. -/
  next : Nat

namespace Crit

variable (crit : Crit)

/-- `Node::free` -/
def free (id : Nat) : Crit := { crit with freed := id :: crit.freed }

/-- `OSObject::release` -/
def release (id : Nat) : Crit :=
  let refs := crit.refs id - 1
  let crit := { crit with refs := Function.update crit.refs id refs }
  if refs = 0 then crit.free id else crit

/-- `OSArray::setObject` -/
def setObject (node : Node) : Crit :=
  { crit with
    list := crit.list ++ [node]
    refs := Function.update crit.refs node.id (crit.refs node.id + 1) }

/-- `OSArray::removeObject` -/
def removeObject (index : Nat) : Crit :=
  match crit.list[index]? with
  | none => crit
  | some node => { crit with list := crit.list.eraseIdx index }.release node.id

end Crit

/-- The loop of `ino_exists`, from index `i` on: the node and its index. -/
def existsLoop (list : List Node) (ino : UInt64) (i : Nat) : Option (Node × Nat) :=
  if h : i < list.length then
    if list[i].ino = ino then some (list[i], i) else existsLoop list ino (i + 1)
  else none
termination_by list.length - i

/-- `ino_exists(list, ino, nodep, index)`, with `*nodep` and `*index` when it is true. -/
def inoExists (list : List Node) (ino : UInt64) : Option (Node × Nat) := existsLoop list ino 0

/-- `ino_insert(list, ino)` -/
def inoInsert (crit : Crit) (ino : UInt64) : Crit :=
  let node : Node := ⟨crit.next, ino, 0⟩
  { crit with refs := Function.update crit.refs node.id 1, next := crit.next + 1 }.setObject node

/-- `ino_remove(list, ino)` -/
def inoRemove (crit : Crit) (ino : UInt64) : Crit :=
  match inoExists crit.list ino with
  | none => crit
  | some (node, index) => (crit.removeObject index).release node.id

/-- `ialloc_critical_enter(crit, ino)` -/
def iallocCriticalEnter (crit : Crit) (ino : UInt64) : Option Crit :=
  if (inoExists crit.list ino).isSome then none else some (inoInsert crit ino)

/-- `ialloc_critical_wait(crit, ino)`, up to the sleep. -/
def iallocCriticalWait (crit : Crit) (ino : UInt64) : Crit :=
  match inoExists crit.list ino with
  | none => crit
  | some (node, index) => { crit with list := crit.list.set index { node with waiters := node.waiters + 1 } }

/-- `ialloc_critical_leave(crit, ino)`. The `wakeup` of the waiters leaves the list as it is. -/
def iallocCriticalLeave (crit : Crit) (ino : UInt64) : Option Crit :=
  if (inoExists crit.list ino).isSome then some (inoRemove crit ino) else none

/-- The loop of `ialloc_critical_free`, from index `i` on. -/
def freeLoop (crit : Crit) (i : Nat) : Crit :=
  if h : i < crit.list.length then freeLoop ((crit.removeObject i).free crit.list[i].id) (i + 1) else crit
termination_by crit.list.length - i
decreasing_by
  have hgone : ((crit.removeObject i).free crit.list[i].id).list = crit.list.eraseIdx i := by
    simp only [Crit.removeObject, List.getElem?_eq_getElem h, Crit.release, Crit.free]
    split <;> rfl
  rw [hgone, List.length_eraseIdx_of_lt h]
  omega

/-- `OSArray::free`: the array drops its references. -/
def listFree (crit : Crit) : Crit :=
  crit.list.foldl (fun crit node => crit.release node.id) { crit with list := [] }

/-- `ialloc_critical_free(crit)`: the list as the loop leaves it, and the nodes in the end. -/
def iallocCriticalFree (crit : Crit) : List Node × Crit :=
  let crit := freeLoop crit 0
  (crit.list, listFree crit)

/-! ### Sequences of calls -/

inductive Op where
  | enter (ino : UInt64)
  | wait (ino : UInt64)
  | leave (ino : UInt64)
  deriving DecidableEq, Repr

def Op.exec (crit : Crit) : Op → Option Crit
  | .enter ino => iallocCriticalEnter crit ino
  | .wait ino => some (iallocCriticalWait crit ino)
  | .leave ino => iallocCriticalLeave crit ino

/-- `ialloc_critical_new()` -/
def iallocCriticalNew : Crit := ⟨[], fun _ => 0, [], 0⟩

end UfsX.Ffs.IallocCritical
