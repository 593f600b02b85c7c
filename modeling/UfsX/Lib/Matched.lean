import Mathlib.Tactic.Basic
import Mathlib.Data.List.Basic

/-!
# `UfsX.Lib.Matched`: every open has its close

A trace of events, some of which open something and some of which close it. `Matched` says
that every close has an open before it that is still open, and that nothing is left open.
-/

set_option autoImplicit false

namespace UfsX.Lib

inductive Role where
  | opens
  | closes
  | other
  deriving DecidableEq, Repr

variable {ε : Type*} (role : ε → Role)

/-- With `n` opens before it, a trace closes all of them. -/
def MatchedFrom : Nat → List ε → Prop
  | n, [] => n = 0
  | n, e :: rest =>
      match role e with
      | .opens => MatchedFrom (n + 1) rest
      | .closes => 0 < n ∧ MatchedFrom (n - 1) rest
      | .other => MatchedFrom n rest

def Matched (trace : List ε) : Prop := MatchedFrom role 0 trace

variable {role} {n : Nat} {e : ε} {trace rest : List ε}

theorem matchedFrom_opens (h : role e = .opens) :
    MatchedFrom role n (e :: rest) ↔ MatchedFrom role (n + 1) rest := by
  simp only [MatchedFrom, h]

theorem matchedFrom_closes (h : role e = .closes) :
    MatchedFrom role (n + 1) (e :: rest) ↔ MatchedFrom role n rest := by
  simp only [MatchedFrom, h, Nat.succ_pos, true_and, Nat.add_sub_cancel]

theorem matchedFrom_other (h : role e = .other) :
    MatchedFrom role n (e :: rest) ↔ MatchedFrom role n rest := by
  simp only [MatchedFrom, h]

/-- Events that neither open nor close can be left out. -/
theorem matchedFrom_append_other (h : ∀ e ∈ trace, role e = .other) :
    MatchedFrom role n (trace ++ rest) ↔ MatchedFrom role n rest := by
  induction trace with
  | nil => exact Iff.rfl
  | cons e trace ih =>
      rw [List.cons_append, matchedFrom_other (h e (by simp))]
      exact ih fun e he => h e (List.mem_cons_of_mem _ he)

/-- A trace that neither opens nor closes is matched. -/
theorem matched_of_other (h : ∀ e ∈ trace, role e = .other) : Matched role trace := by
  have hnil : MatchedFrom role 0 ([] : List ε) := rfl
  rw [← matchedFrom_append_other h, List.append_nil] at hnil
  exact hnil

/-- A matched trace between others is matched on its own. -/
theorem matchedFrom_append (h : MatchedFrom role n trace) (k : Nat) :
    MatchedFrom role (n + k) (trace ++ rest) ↔ MatchedFrom role k rest := by
  induction trace generalizing n with
  | nil =>
      have hn : n = 0 := h
      rw [hn, Nat.zero_add]
      exact Iff.rfl
  | cons e trace ih =>
      rw [List.cons_append]
      cases hrole : role e with
      | opens =>
          rw [matchedFrom_opens hrole] at h ⊢
          rw [Nat.add_right_comm]
          exact ih h
      | closes =>
          simp only [MatchedFrom, hrole] at h ⊢
          rw [show n + k - 1 = n - 1 + k by omega, ih h.2]
          have hpos : 0 < n + k := by omega
          exact and_iff_right hpos
      | other =>
          rw [matchedFrom_other hrole] at h ⊢
          exact ih h

/-- A close with nothing open. -/
theorem not_matchedFrom_closes (h : role e = .closes) : ¬ MatchedFrom role 0 (e :: rest) := by
  simp only [MatchedFrom, h, Nat.lt_irrefl, false_and, not_false_iff]

end UfsX.Lib
