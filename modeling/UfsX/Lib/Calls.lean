import Mathlib.Tactic.Basic

/-!
# `UfsX.Lib.Calls`: calls that may not return

A call runs on a state `σ`. It returns a value and a state; or it stops, because an
assertion does not hold or because it waits for something that has not happened yet;
or it crashes, because it uses a pointer to nothing or waits for a lock that it has
itself.

`wp c Q s` says that the call `c`, started in `s`, does not crash and that `Q` holds
where it returns. The rules compute it exactly: each is an equivalence.
-/

set_option autoImplicit false

namespace UfsX.Lib

inductive Outcome (σ α : Type*) where
  | ret (a : α) (s : σ)
  | stop
  | crash
  deriving DecidableEq, Repr

/-- A call on a state `σ` with a result `α`. -/
def Call (σ α : Type) : Type := σ → Outcome σ α

namespace Call

variable {σ α β : Type}

instance : Monad (Call σ) where
  pure a := fun s => .ret a s
  bind x f := fun s =>
    match x s with
    | .ret a s' => f a s'
    | .stop => .stop
    | .crash => .crash

def stop : Call σ α := fun _ => .stop

def crash : Call σ α := fun _ => .crash

/-- `ASSERT`, `MPASS` and the panics on a count that makes no sense. -/
def require (p : Prop) [Decidable p] : Call σ Unit := if p then pure () else stop

def get : Call σ σ := fun s => .ret s s

def modify (f : σ → σ) : Call σ Unit := fun s => .ret () (f s)

/-- The call does not crash, and `Q` holds where it returns. -/
def wp (c : Call σ α) (Q : α → σ → Prop) (s : σ) : Prop :=
  match c s with
  | .ret a s' => Q a s'
  | .stop => True
  | .crash => False

variable {Q : α → σ → Prop} {s : σ}

@[simp] theorem wp_pure (a : α) : wp (pure a : Call σ α) Q s ↔ Q a s := Iff.rfl

@[simp] theorem wp_bind {R : β → σ → Prop} (c : Call σ α) (f : α → Call σ β) :
    wp (c >>= f) R s ↔ wp c (fun a => wp (f a) R) s := by
  simp only [wp, bind]
  cases c s <;> rfl

@[simp] theorem wp_stop : wp (stop : Call σ α) Q s ↔ True := Iff.rfl

@[simp] theorem wp_crash : wp (crash : Call σ α) Q s ↔ False := Iff.rfl

@[simp] theorem wp_require {p : Prop} [Decidable p] {R : Unit → σ → Prop} :
    wp (require p) R s ↔ (p → R () s) := by
  unfold require
  by_cases hp : p
  · simp [hp]
  · simp [hp]

@[simp] theorem wp_modify {R : Unit → σ → Prop} (f : σ → σ) : wp (modify f) R s ↔ R () (f s) :=
  Iff.rfl

@[simp] theorem wp_get {R : σ → σ → Prop} : wp get R s ↔ R s s := Iff.rfl

@[simp] theorem wp_ite {p : Prop} [Decidable p] (c d : Call σ α) :
    wp (if p then c else d) Q s ↔ (p → wp c Q s) ∧ (¬ p → wp d Q s) := by
  by_cases hp : p
  · simp [hp]
  · simp [hp]

end Call

end UfsX.Lib
