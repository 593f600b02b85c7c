import Mathlib.Tactic.Basic

/-!
# `UfsX.Lib.Loop`: loops that read a stream

A loop whose rounds are told from outside what they find: round `k` reads `p k`. A round
goes on with a new state or comes to a result. `loop` runs a bounded number of rounds and
gives the result with the number of the last round.

Two rules: what holds at the result (`loop_post`), and when there is one
(`exists_loop`).
-/

set_option autoImplicit false

namespace UfsX.Lib

variable {σ π ρ : Type*}

/-- At most `fuel` rounds, from round `k` on. -/
def loop (step : σ → π → σ ⊕ ρ) (p : Nat → π) (fuel k : Nat) (s : σ) : Option (Nat × ρ) :=
  match fuel with
  | 0 => none
  | fuel + 1 =>
      match step s (p k) with
      | .inl s => loop step p fuel (k + 1) s
      | .inr r => some (k, r)

variable {step : σ → π → σ ⊕ ρ} {p : Nat → π} {fuel k : Nat} {s : σ}

/-- What every round keeps holds in the round that comes to the result. -/
theorem loop_post (inv : Nat → σ → Prop) (hstep : ∀ i a b, inv i a → step a (p i) = .inl b → inv (i + 1) b)
    (h : inv k s) {j : Nat} {r : ρ} (hloop : loop step p fuel k s = some (j, r)) :
    ∃ a, k ≤ j ∧ inv j a ∧ step a (p j) = .inr r := by
  induction fuel generalizing k s with
  | zero => cases hloop
  | succ fuel ih =>
      rw [loop] at hloop
      split at hloop
      case h_1 b hb =>
        obtain ⟨a, hle, ha, hr⟩ := ih (hstep k s b h hb) hloop
        exact ⟨a, by omega, ha, hr⟩
      case h_2 r' hr' =>
        obtain ⟨rfl, rfl⟩ := Prod.mk.inj (Option.some.inj hloop)
        exact ⟨s, Nat.le_refl _, h, hr'⟩

/-- A loop that goes on at most up to round `j` has a result. -/
theorem exists_loop (inv : Nat → σ → Prop) {j : Nat} (hkj : k ≤ j)
    (hstep : ∀ i a b, k ≤ i → i < j → inv i a → step a (p i) = .inl b → inv (i + 1) b)
    (hlast : ∀ a, inv j a → ∃ r, step a (p j) = .inr r) (h : inv k s) :
    ∃ fuel r, loop step p fuel k s = some r := by
  obtain ⟨d, rfl⟩ := Nat.exists_eq_add_of_le hkj
  induction d generalizing k s with
  | zero =>
      obtain ⟨r, hr⟩ := hlast s h
      exact ⟨1, (k, r), by rw [loop, show step s (p k) = .inr r from hr]⟩
  | succ d ih =>
      cases hs : step s (p k) with
      | inr r => exact ⟨1, (k, r), by rw [loop, hs]⟩
      | inl b =>
          have hsum : k + 1 + d = k + (d + 1) := by omega
          rw [← hsum] at hlast
          obtain ⟨fuel, r, hr⟩ := ih (hstep k s b (Nat.le_refl _) (by omega) h hs) (by omega)
            (fun i a b hki hi => hstep i a b (by omega) (by omega)) hlast
          exact ⟨fuel + 1, r, by rw [loop, hs]; exact hr⟩

end UfsX.Lib
