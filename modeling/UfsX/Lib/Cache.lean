import Mathlib.Logic.Function.Basic
import Mathlib.Data.Option.Basic

/-!
# `UfsX.Lib.Cache`: a cache of a table that changes

A cache has values for some of the keys of a table. It agrees with the table up to the
entries that `excused` allows: those that somebody is about to set right. An entry that
nobody is about to set right has the value of the table.
-/

set_option autoImplicit false

namespace UfsX.Lib

abbrev Cache (κ ν : Type*) : Type _ := κ → Option ν

namespace Cache

variable {κ ν : Type*}

def empty : Cache κ ν := fun _ => none

def enter [DecidableEq κ] (c : Cache κ ν) (k : κ) (v : ν) : Cache κ ν := Function.update c k (some v)

/-- Remove the entries with the property `p`. -/
def forget (c : Cache κ ν) (p : κ → ν → Bool) : Cache κ ν := fun k => (c k).filter fun v => ¬ p k v

def AgreesUpTo (excused : κ → ν → Prop) (c : Cache κ ν) (table : κ → ν) : Prop :=
  ∀ k v, c k = some v → v = table k ∨ excused k v

def Agrees (c : Cache κ ν) (table : κ → ν) : Prop := ∀ k v, c k = some v → v = table k

variable {c : Cache κ ν} {table table' : κ → ν} {excused excused' : κ → ν → Prop} {p : κ → ν → Bool} {k : κ} {v : ν}

theorem forget_eq_some : c.forget p k = some v ↔ c k = some v ∧ p k v = false := by
  simp [forget, Option.filter_eq_some_iff]

theorem agrees_empty : Agrees empty table := by
  intro k v h
  cases h

theorem Agrees.upTo (h : Agrees c table) : AgreesUpTo excused c table := fun k v hv => .inl (h k v hv)

theorem AgreesUpTo.agrees (h : AgreesUpTo excused c table) (hno : ∀ k v, ¬ excused k v) : Agrees c table :=
  fun k v hv => (h k v hv).resolve_right (hno k v)

theorem AgreesUpTo.mono (h : AgreesUpTo excused c table) (hsub : ∀ k v, excused k v → excused' k v) :
    AgreesUpTo excused' c table := fun k v hv => (h k v hv).imp_right (hsub k v)

/-- An entry with the value of the table; what was under the key is no longer excused. -/
theorem AgreesUpTo.enter [DecidableEq κ] (h : AgreesUpTo excused c table) (hv : v = table k)
    (hsub : ∀ k' w, k' ≠ k → excused k' w → excused' k' w) : AgreesUpTo excused' (c.enter k v) table := by
  intro k' w hw
  unfold Cache.enter at hw
  by_cases hk : k' = k
  · subst hk
    rw [Function.update_self] at hw
    exact .inl ((Option.some.inj hw).symm.trans hv)
  · rw [Function.update_of_ne hk] at hw
    exact (h k' w hw).imp_right (hsub k' w hk)

/-- The entries that go need no excuse any more. -/
theorem AgreesUpTo.forget (h : AgreesUpTo excused c table)
    (hsub : ∀ k v, excused k v → p k v = true ∨ excused' k v) : AgreesUpTo excused' (c.forget p) table := by
  intro k v hv
  obtain ⟨hold, hkeep⟩ := forget_eq_some.mp hv
  refine (h k v hold).imp_right fun he => (hsub k v he).resolve_left fun hp => ?_
  rw [hkeep] at hp
  cases hp

/-- The table changes at one key. -/
theorem AgreesUpTo.update [DecidableEq κ] (h : AgreesUpTo excused c table)
    (hk : ∀ w, c k = some w → w = v ∨ excused k w) : AgreesUpTo excused c (Function.update table k v) := by
  intro k' w hw
  by_cases hkey : k' = k
  · subst hkey
    rw [Function.update_self]
    exact hk w hw
  · rw [Function.update_of_ne hkey]
    exact h k' w hw

end Cache

end UfsX.Lib
