import Mathlib.Tactic.Basic
import Mathlib.Data.List.Pairwise
import Mathlib.Data.List.Basic

/-!
# `UfsX.Lib.Tiles`: pieces one behind the other

A piece is where it starts and how long it is. Pieces that tile a range are in order,
disjoint, and cover the range and nothing else.
-/

set_option autoImplicit false

namespace UfsX.Lib

/-- The pieces follow one another from `lo` to `hi`. -/
def Tiles : List (Int × Int) → Int → Int → Prop
  | [], lo, hi => lo = hi
  | p :: pieces, lo, hi => p.1 = lo ∧ 0 < p.2 ∧ Tiles pieces (lo + p.2) hi

namespace Tiles

variable {pieces : List (Int × Int)} {lo hi : Int}

theorem le (h : Tiles pieces lo hi) : lo ≤ hi := by
  induction pieces generalizing lo with
  | nil => exact Int.le_of_eq h
  | cons p pieces ih =>
      have hrest := ih h.2.2
      have hpos := h.2.1
      omega

theorem start_ge (h : Tiles pieces lo hi) : ∀ p ∈ pieces, lo ≤ p.1 := by
  induction pieces generalizing lo with
  | nil => simp
  | cons p pieces ih =>
      have hfirst := h.1
      have hpos := h.2.1
      have hrest := ih h.2.2
      intro q hq
      rcases List.mem_cons.mp hq with rfl | hq
      · omega
      · have := hrest q hq
        omega

/-- No piece begins before those ahead of it have ended. -/
theorem pairwise (h : Tiles pieces lo hi) : pieces.Pairwise fun p q => p.1 + p.2 ≤ q.1 := by
  induction pieces generalizing lo with
  | nil => exact List.Pairwise.nil
  | cons p pieces ih =>
      rw [List.pairwise_cons]
      refine ⟨?_, ih h.2.2⟩
      intro q hq
      rw [h.1]
      exact h.2.2.start_ge q hq

theorem length_pos (h : Tiles pieces lo hi) : ∀ p ∈ pieces, 0 < p.2 := by
  induction pieces generalizing lo with
  | nil => simp
  | cons p pieces ih =>
      intro q hq
      rcases List.mem_cons.mp hq with rfl | hq
      · exact h.2.1
      · exact ih h.2.2 q hq

/-- The pieces cover the range. -/
theorem cover (h : Tiles pieces lo hi) (x : Int) :
    (∃ p ∈ pieces, p.1 ≤ x ∧ x < p.1 + p.2) ↔ lo ≤ x ∧ x < hi := by
  induction pieces generalizing lo with
  | nil =>
      have heq : lo = hi := h
      simp only [List.not_mem_nil, false_and, exists_false, false_iff]
      omega
  | cons p pieces ih =>
      have hfirst := h.1
      have hpos := h.2.1
      have hle := h.2.2.le
      simp only [List.mem_cons, exists_eq_or_imp, ih h.2.2]
      omega

end Tiles

end UfsX.Lib
