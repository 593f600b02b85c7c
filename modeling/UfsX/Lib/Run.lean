import Mathlib.Logic.Relation

/-!
# `UfsX.Lib.Run`: invariants of a step relation

A run is a chain of steps, `Relation.ReflTransGen`. What one step preserves, a
run preserves. Where an event has one outcome, a run is a list of events, and `Each` says
that something holds of every event in the state it comes to.

Calls give answers. `answers_of_simulation` says that a program gives the answers of its
specification, to any number of calls, if it gives each of them right where the two states
correspond.
-/

set_option autoImplicit false

namespace UfsX.Lib

open Relation

variable {σ : Type*} {step : σ → σ → Prop} {s s' : σ}

/-- An invariant that every step keeps holds wherever a run ends. -/
theorem invariant_of_run (inv : σ → Prop) (hstep : ∀ {a b}, inv a → step a b → inv b) (h : inv s)
    (hrun : ReflTransGen step s s') : inv s' := by
  induction hrun with
  | refl => exact h
  | tail _ hlast ih => exact hstep ih hlast

/-- The moves of a list, one after the other. -/
def moves {α : Type*} (move : σ → α → Option σ) : List α → σ → Option σ
  | [], s => some s
  | a :: as, s => (move s a).bind (moves move as)

theorem run_of_moves {α : Type*} (move : σ → α → Option σ)
    (hmove : ∀ {a s s'}, move s a = some s' → step s s') (as : List α)
    (h : moves move as s = some s') : ReflTransGen step s s' := by
  induction as generalizing s with
  | nil =>
      obtain rfl : s = s' := Option.some.inj h
      exact .refl
  | cons a as ih =>
      obtain ⟨s₁, hfirst, hrest⟩ := Option.bind_eq_some_iff.mp h
      exact .head (hmove hfirst) (ih hrest)

/-! ### Events with one outcome -/

section Each

variable {α : Type*} (next : σ → α → σ) (P Q : σ → α → Prop)

/-- `P` holds of every event in the state that it comes to. -/
def Each : List α → σ → Prop
  | [], _ => True
  | a :: as, s => P s a ∧ Each as (next s a)

variable {next P Q}

theorem each_congr (h : ∀ s a, P s a ↔ Q s a) (as : List α) : Each next P as s ↔ Each next Q as s := by
  induction as generalizing s with
  | nil => exact Iff.rfl
  | cons a as ih => exact and_congr (h s a) ih

/-- What every event keeps that `P` holds of, the run keeps. -/
theorem invariant_of_each (inv : σ → Prop) (hnext : ∀ {s a}, inv s → P s a → inv (next s a)) {as : List α}
    (h : inv s) (heach : Each next P as s) : inv (as.foldl next s) := by
  induction as generalizing s with
  | nil => exact h
  | cons a as ih => exact ih (hnext h heach.1) heach.2

end Each

/-! ### Answers -/

section Answers

variable {α ρ τ : Type*}

/-- The answers to calls, one after the other, of a program that may fail. -/
def answers (exec : α → σ → Option (ρ × σ)) : List α → σ → Option (List ρ × σ)
  | [], s => some ([], s)
  | a :: as, s => (exec a s).bind fun q => (answers exec as q.2).map fun q' => (q.1 :: q'.1, q'.2)

/-- The answers that a specification gives. -/
def specAnswers (spec : α → τ → ρ × τ) : List α → τ → List ρ × τ
  | [], t => ([], t)
  | a :: as, t =>
      let q := spec a t
      let q' := specAnswers spec as q.2
      (q.1 :: q'.1, q'.2)

variable {exec : α → σ → Option (ρ × σ)} {spec : α → τ → ρ × τ} {P : α → Prop}

/-- `R n` relates two states that correspond and have room for `n` calls. -/
theorem answers_of_simulation (R : Nat → σ → τ → Prop)
    (hstep : ∀ {n a s t}, P a → R (n + 1) s t → ∃ s', exec a s = some ((spec a t).1, s') ∧ R n s' (spec a t).2)
    {as : List α} (hP : ∀ a ∈ as, P a) {t : τ} (h : R as.length s t) :
    ∃ s', answers exec as s = some ((specAnswers spec as t).1, s') ∧ R 0 s' (specAnswers spec as t).2 := by
  induction as generalizing s t with
  | nil => exact ⟨s, rfl, h⟩
  | cons a as ih =>
      obtain ⟨s₁, hexec, hnext⟩ := hstep (hP a List.mem_cons_self) h
      obtain ⟨s₂, hrest, hend⟩ := ih (fun b hb => hP b (List.mem_cons_of_mem a hb)) hnext
      refine ⟨s₂, ?_, hend⟩
      rw [answers, hexec, Option.bind_some, hrest, Option.map_some]
      rfl

end Answers

end UfsX.Lib
