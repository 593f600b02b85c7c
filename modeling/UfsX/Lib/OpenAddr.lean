import Mathlib.Data.Finset.Card
import Mathlib.Data.Nat.Find
import Mathlib.Order.Interval.Finset.Nat

/-!
# `UfsX.Lib.OpenAddr`: open addressing with linear probing

A table of `n` slots, of which some hold the value `e`: they are empty. A search
begins at some slot and goes on to the next, round the end, until it comes to an empty
one. `Reach` says that it comes to slot `i` before that.

What is not empty may be changed to anything that is not empty (`Reach.update`), and a
slot before an empty one may be emptied (`Reach.clear`): no search that is still
needed goes through it.
-/

set_option autoImplicit false

namespace UfsX.Lib

variable {α : Type}

/-- A search from slot `s` comes to slot `i`. -/
def Reach (t : Nat → α) (e : α) (n s i : Nat) : Prop :=
  ∃ k, k < n ∧ (s + k) % n = i ∧ ∀ j, j < k → t ((s + j) % n) ≠ e

/-- The slots that are not empty. -/
def occupied [DecidableEq α] (t : Nat → α) (e : α) (n : Nat) : Finset Nat := (Finset.range n).filter fun i => t i ≠ e

section Reach

variable {t : Nat → α} {e v : α} {n s i c : Nat}

theorem Reach.lt (h : Reach t e n s i) : i < n := by
  obtain ⟨k, hk, rfl, -⟩ := h
  exact Nat.mod_lt _ (by omega)

theorem Reach.update (h : Reach t e n s i) (hv : v ≠ e) : Reach (Function.update t c v) e n s i := by
  obtain ⟨k, hk, hi, hpath⟩ := h
  refine ⟨k, hk, hi, fun j hj => ?_⟩
  by_cases hc : (s + j) % n = c
  · rw [hc, Function.update_self]
    exact hv
  · rw [Function.update_of_ne hc]
    exact hpath j hj

theorem Reach.clear (h : Reach t e n s i) (hnext : t ((c + 1) % n) = e) (hi : t i ≠ e) :
    Reach (Function.update t c e) e n s i := by
  obtain ⟨k, hk, hki, hpath⟩ := h
  refine ⟨k, hk, hki, fun j hj => ?_⟩
  by_cases hc : (s + j) % n = c
  · -- the search would have to go through the empty slot, or end there
    exfalso
    have hstep : (s + (j + 1)) % n = (c + 1) % n := by
      rw [← hc, Nat.mod_add_mod, Nat.add_assoc]
    by_cases hlast : j + 1 = k
    · rw [hlast, hki] at hstep
      exact hi (by rw [hstep]; exact hnext)
    · exact hpath (j + 1) (by omega) (by rw [hstep]; exact hnext)
  · rw [Function.update_of_ne hc]
    exact hpath j hj

/-- A search for some kind of slot finds the first one. -/
theorem exists_first (P : Nat → Prop) (hs : s < n) (hi : i < n) (hP : P i) :
    ∃ k, k < n ∧ P ((s + k) % n) ∧ ∀ j, j < k → ¬ P ((s + j) % n) := by
  classical
  have hex : ∃ k, P ((s + k) % n) := by
    refine ⟨n + i - s, ?_⟩
    rw [show s + (n + i - s) = i + n from by omega, Nat.add_mod_right, Nat.mod_eq_of_lt hi]
    exact hP
  have hlt : Nat.find hex < n := by
    by_contra hge
    have hback := Nat.find_spec hex
    refine Nat.find_min hex (m := Nat.find hex - n) (by omega) ?_
    rw [← Nat.add_mod_right, show s + (Nat.find hex - n) + n = s + Nat.find hex from by omega]
    exact hback
  exact ⟨Nat.find hex, hlt, Nat.find_spec hex, fun j hj => Nat.find_min hex hj⟩

end Reach

section Occupied

variable [DecidableEq α] {t : Nat → α} {e v : α} {n c : Nat}

theorem mem_occupied {i : Nat} : i ∈ occupied t e n ↔ i < n ∧ t i ≠ e := by
  simp [occupied]

theorem exists_empty (h : (occupied t e n).card < n) : ∃ i, i < n ∧ t i = e := by
  by_contra hno
  have hall : occupied t e n = Finset.range n := by
    refine Finset.filter_true_of_mem fun i hi he => hno ⟨i, Finset.mem_range.mp hi, he⟩
  rw [hall, Finset.card_range] at h
  exact lt_irrefl _ h

/-- A value goes to some slot. -/
theorem occupied_update (hc : c < n) (hv : v ≠ e) :
    occupied (Function.update t c v) e n = insert c (occupied t e n) := by
  ext i
  rw [Finset.mem_insert, mem_occupied, mem_occupied]
  by_cases hi : i = c
  · subst hi
    simp [hc, hv]
  · simp [hi]

/-- A slot is emptied. -/
theorem occupied_clear : occupied (Function.update t c e) e n = (occupied t e n).erase c := by
  ext i
  rw [Finset.mem_erase, mem_occupied, mem_occupied]
  by_cases hi : i = c
  · subst hi
    simp
  · simp [hi]

end Occupied

end UfsX.Lib
