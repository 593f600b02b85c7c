import Mathlib.Logic.Function.Basic

/-!
# `UfsX.Compat.TaskQueue`: the task queue over an IOKit event source

`IOTaskQueue.cpp`: `taskqueue_enqueue`, `taskqueue_drain` and `taskqueue_drain_all` over
the class `IOTaskQueue` with its methods `enqueueTask`, `delTask` and `checkForWork`.

Pointers are numbers. A `struct task` belongs to the caller; `taskqueue_enqueue` makes an
`IOTask` of its own from it, and leaves in `ta_priv` a pointer to the `struct task`
itself. `delTask` takes that pointer for one to an `IOTask`. The field `flag` of an
`IOTask` lies behind the last byte of a `struct task`, so `delTask` reads the word that
the caller has there; when that word says that the task is on a queue, `TAILQ_REMOVE`
writes through the other fields of the `struct task`, and C leaves open what follows.

The work loop of IOKit calls `checkForWork` again as long as the last call returned true or
`signalWorkAvailable` was called since it began. `taskqueue_enqueue` is three steps for
the other threads: the `IOTask` is filled in, put on the list, and the loop is signalled.
-/

set_option autoImplicit false

namespace UfsX.Compat.TaskQueue

/-- What a pointer that is used as an `IOTask *` points at. -/
inductive Pointer where
  | iotask (id : Nat)
  | task (t : Nat)
  deriving DecidableEq, Repr

/-- `struct task` -/
structure Task where
  func : Nat
  context : Nat
  /-- `ta_priv`, which `TASK_INIT` does not write. -/
  priv : Option Pointer
  deriving DecidableEq, Repr

structure IOTask where
  id : Nat
  func : Nat
  arg : Nat
  /-- `TASK_ONQUEUE` in `flag`. -/
  onqueue : Bool
  deriving DecidableEq, Repr

/-- `class IOTaskQueue` -/
structure Queue where
  /-- `isEnabled` of the event source. -/
  enabled : Bool
  currentTask : Option Nat
  worklist : List IOTask
  deriving DecidableEq, Repr

/-- `TAILQ_NEXT` of the element with this address. -/
def tailqNext (l : List IOTask) (id : Nat) : Option IOTask := (l.dropWhile fun e => e.id != id).tail.head?

/-- `checkForWork`: what it returns, the task whose function it calls, and the queue. -/
def checkForWork (q : Queue) : Bool × Option IOTask × Queue :=
  if q.enabled = false then (false, none, q)
  else
    match q.currentTask with
    | none =>
        match q.worklist.head? with
        | none => (false, none, q)
        | some e => (true, some e, { q with currentTask := some e.id })
    | some cur =>
        match tailqNext q.worklist cur with
        | none => (true, none, { q with currentTask := none })
        | some e => (true, some e, { q with currentTask := some e.id })

/-- `delTask`. `word` is what follows a `struct task`. The result is `none` when the list
is cut through the fields of a `struct task`. -/
def delTask (q : Queue) (p : Pointer) (word : Nat) : Option Queue :=
  match p with
  | .task _ => if word % 2 = 0 then some q else none
  | .iotask id =>
      if q.worklist.any fun e => e.id == id && e.onqueue then
        some { q with worklist := q.worklist.filter fun e => e.id != id }
      else some q

/-- `enqueueTask` up to the unlock. -/
def enqueueTask (q : Queue) (e : IOTask) : Queue :=
  if e.onqueue then q else { q with worklist := q.worklist ++ [{ e with onqueue := true }] }

/-! ### The system -/

/-- A call of `taskqueue_enqueue`: the `IOTask` it made, and the task it was called with as
`TASK_INIT` had left it. -/
structure Entry where
  id : Nat
  task : Nat
  func : Nat
  context : Nat
  deriving DecidableEq, Repr

/-- The queue with its users. `entered`, `executed` and `drained` record what has happened,
in order. -/
structure St where
  tasks : Nat → Task
  queue : Queue
  nextId : Nat
  /-- The threads that are about to call `enqueueTask`. -/
  filled : List (Entry × IOTask)
  /-- The threads that are about to call `signalWorkAvailable`. -/
  signals : Nat
  workToDo : Bool
  /-- What `checkForWork` returned last. -/
  more : Bool
  /-- The calls that have put their task on the queue. -/
  entered : List Entry
  /-- The tasks whose functions were called, with function and argument. -/
  executed : List (Nat × Nat × Nat)
  /-- The tasks that were drained before they had started. -/
  drained : List Nat
  /-- Memory was overwritten through a wrong pointer. -/
  corrupt : Bool

inductive Act where
  /-- `TASK_INIT` -/
  | init (t func context : Nat)
  | fill (t : Nat)
  | insert (e : Entry × IOTask)
  | signal
  | drain (t word : Nat)
  | drainAll
  /-- The work loop calls `checkForWork`. -/
  | work
  deriving DecidableEq, Repr

/-- The tasks that have not started. -/
def St.unstarted (s : St) : List Entry := s.entered.filter fun e => (s.executed.map (·.1)).all (· != e.id)

/-- One step of a thread; `none` when it cannot be made. -/
def step (s : St) : Act → Option St
  | .init t func context =>
      some { s with tasks := Function.update s.tasks t { s.tasks t with func, context } }
  | .fill t =>
      let task := s.tasks t
      some { s with
        tasks := Function.update s.tasks t { task with priv := some (.task t) }
        nextId := s.nextId + 1
        filled := (⟨s.nextId, t, task.func, task.context⟩, ⟨s.nextId, task.func, task.context, false⟩) :: s.filled }
  | .insert e =>
      if e ∈ s.filled then
        some { s with
          queue := enqueueTask s.queue e.2
          filled := s.filled.erase e
          signals := s.signals + 1
          entered := s.entered ++ [e.1] }
      else none
  | .signal => if 0 < s.signals then some { s with signals := s.signals - 1, workToDo := true } else none
  | .drain t word =>
      match (s.tasks t).priv.bind fun p => delTask s.queue p word with
      | none => some { s with corrupt := true }
      | some queue =>
          some { s with
            queue
            drained := s.drained ++ ((s.unstarted.filter fun e => e.task == t).map (·.id)) }
  | .drainAll => some { s with drained := s.drained ++ s.unstarted.map (·.id) }
  | .work =>
      if s.more || s.workToDo then
        let (more, e, queue) := checkForWork s.queue
        some { s with
          queue, more
          workToDo := false
          executed := s.executed ++ e.toList.map fun e => (e.id, e.func, e.arg) }
      else none

/-- A new queue, added to a work loop. -/
def start : St where
  tasks := fun _ => ⟨0, 0, none⟩
  queue := ⟨true, none, []⟩
  nextId := 0
  filled := []
  signals := 0
  workToDo := false
  more := false
  entered := []
  executed := []
  drained := []
  corrupt := false

end UfsX.Compat.TaskQueue
