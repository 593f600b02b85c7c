import Mathlib.Algebra.Group.Defs
import Mathlib.Tactic.Linarith

/-!
# `UfsX.Lib.RefCount`: the references that one call adds and drops

Objects carry references of several kinds. `Refs` is what a call has added to each of
them since it started, less what it has dropped.
-/

set_option autoImplicit false

namespace UfsX.Lib

/-- References added, by kind and object; negative where more were dropped. -/
abbrev Refs (κ ι : Type*) : Type _ := κ → ι → Int

namespace Refs

variable {κ ι : Type*} [DecidableEq κ] [DecidableEq ι] {l : Refs κ ι} {k k' : κ} {x y : ι}

def none : Refs κ ι := fun _ _ => 0

/-- One reference of kind `k` more on `x`. -/
def get (k : κ) (x : ι) (l : Refs κ ι) : Refs κ ι :=
  fun k' y => l k' y + if k' = k ∧ y = x then 1 else 0

/-- One reference of kind `k` less on `x`. -/
def drop (k : κ) (x : ι) (l : Refs κ ι) : Refs κ ι :=
  fun k' y => l k' y - if k' = k ∧ y = x then 1 else 0

/-- The same, unless there is no object. -/
def dropOpt (k : κ) (x : Option ι) (l : Refs κ ι) : Refs κ ι :=
  match x with
  | .none => l
  | some x => l.drop k x

@[simp] theorem drop_get (k : κ) (x : ι) (l : Refs κ ι) : (l.get k x).drop k x = l := by
  funext k' y
  unfold drop get
  exact Int.add_sub_cancel ..

theorem get_of_ne (h : k' ≠ k) : (l.get k x) k' y = l k' y := by
  unfold get
  rw [if_neg fun hk => h hk.1, Int.add_zero]

theorem drop_of_ne (h : k' ≠ k) : (l.drop k x) k' y = l k' y := by
  unfold drop
  rw [if_neg fun hk => h hk.1, Int.sub_zero]

theorem dropOpt_of_ne {x : Option ι} (h : k' ≠ k) : (l.dropOpt k x) k' y = l k' y := by
  cases x with
  | none => rfl
  | some x => exact drop_of_ne h

theorem drop_self : (l.drop k x) k x = l k x - 1 := by
  unfold drop
  rw [if_pos ⟨rfl, rfl⟩]

theorem drop_le : (l.drop k x) k' y ≤ l k' y := by
  unfold drop
  split
  · omega
  · omega

theorem dropOpt_le {x : Option ι} : (l.dropOpt k x) k' y ≤ l k' y := by
  cases x with
  | none => exact Int.le_refl _
  | some x => exact drop_le

end Refs

end UfsX.Lib
