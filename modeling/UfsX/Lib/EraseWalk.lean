import Mathlib.Data.List.Nodup

/-!
# `UfsX.Lib.EraseWalk`: a list that shrinks while it is walked

A loop over the indices of a list takes the element at its index out, and goes on with the
next index. What was behind the element has moved up by then, so that the loop passes over
every second element: `eraseWalk_append` says which ones are left and which ones are taken.

`eraseIdx_eq_filter` is about a single removal, by a key that no other element has.
-/

set_option autoImplicit false

namespace UfsX.Lib

variable {α κ : Type*}

/-- The elements at the even places. -/
def evens : List α → List α
  | [] => []
  | [a] => [a]
  | a :: _ :: l => a :: evens l

/-- The elements at the odd places. -/
def odds : List α → List α
  | [] => []
  | [_] => []
  | _ :: b :: l => b :: odds l

theorem length_odds : ∀ l : List α, (odds l).length = l.length / 2
  | [] => by simp [odds]
  | [_] => by simp [odds]
  | _ :: _ :: l => by
      have ih := length_odds l
      simp only [odds, List.length_cons, ih]
      omega

/-- Every second element is passed over, so nothing is left of a list with one element at most. -/
theorem odds_eq_nil_iff {l : List α} : odds l = [] ↔ l.length ≤ 1 := by
  rw [← List.length_eq_zero_iff, length_odds]
  omega

/-- Take the element at index `i` out and go on with index `i + 1`: what is left, and
what was taken. -/
def eraseWalk (l : List α) (i : Nat) : List α × List α :=
  if h : i < l.length then
    let r := eraseWalk (l.eraseIdx i) (i + 1)
    (r.1, l[i] :: r.2)
  else (l, [])
termination_by l.length - i
decreasing_by
  rw [List.length_eraseIdx_of_lt h]
  omega

theorem eraseWalk_append : ∀ pre rest : List α,
    eraseWalk (pre ++ rest) pre.length = (pre ++ odds rest, evens rest)
  | pre, [] => by
      rw [eraseWalk, dif_neg (by simp)]
      rfl
  | pre, [a] => by
      have hgone : (pre ++ [a]).eraseIdx pre.length = pre := by
        simp [List.eraseIdx_append_of_length_le]
      rw [eraseWalk, dif_pos (by simp), hgone, eraseWalk, dif_neg (by omega)]
      simp [odds, evens]
  | pre, a :: b :: l => by
      -- `b` has moved to the place of `a`, and is passed over
      have hnext := eraseWalk_append (pre ++ [b]) l
      rw [List.length_append, List.length_singleton, List.append_assoc, List.singleton_append] at hnext
      have hgone : (pre ++ a :: b :: l).eraseIdx pre.length = pre ++ b :: l := by
        simp [List.eraseIdx_append_of_length_le]
      rw [eraseWalk, dif_pos (by simp), hgone, hnext]
      simp [odds, evens]

/-- The whole list is walked. -/
theorem eraseWalk_zero (l : List α) : eraseWalk l 0 = (odds l, evens l) := eraseWalk_append [] l

/-- Where the keys are different, taking one element out is a filter. -/
theorem eraseIdx_eq_filter [DecidableEq κ] {key : α → κ} {l : List α} {i : Nat} {a : α}
    (hnodup : (l.map key).Nodup) (ha : l[i]? = some a) :
    l.eraseIdx i = l.filter fun b => key b ≠ key a := by
  obtain ⟨hi, rfl⟩ := List.getElem?_eq_some_iff.mp ha
  induction l generalizing i with
  | nil => cases hi
  | cons b l ih =>
      rw [List.map_cons, List.nodup_cons] at hnodup
      cases i with
      | zero =>
          have hne : ∀ c ∈ l, key c ≠ key b := by
            intro c hc heq
            exact hnodup.1 (heq ▸ List.mem_map_of_mem hc)
          have hall : l.filter (fun c => key c ≠ key b) = l :=
            List.filter_eq_self.mpr fun c hc => decide_eq_true (hne c hc)
          simp only [List.eraseIdx_cons_zero, List.getElem_cons_zero, ne_eq, not_true_eq_false,
            decide_false, Bool.false_eq_true, not_false_eq_true, List.filter_cons_of_neg]
          exact hall.symm
      | succ i =>
          have hlt : i < l.length := Nat.lt_of_succ_lt_succ hi
          have hne : key b ≠ key l[i] := by
            intro heq
            exact hnodup.1 (heq ▸ List.mem_map_of_mem (List.getElem_mem hlt))
          have hrest := ih hnodup.2 hlt (List.getElem?_eq_getElem hlt)
          rw [List.eraseIdx_cons_succ, hrest, List.getElem_cons_succ, List.filter_cons, if_pos (decide_eq_true hne)]

end UfsX.Lib
