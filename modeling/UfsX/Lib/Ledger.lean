import Mathlib.Data.List.Basic

/-!
# `UfsX.Lib.Ledger`: the locks that one call takes and drops

A call keeps a ledger: the locks it has taken, those it has upgraded, and what went
wrong. Taking a lock it has already, dropping one it has not taken, and dropping the
lock of a null pointer are faults, and a fault is never taken back. `Balanced` is a
ledger that is settled: nothing is left taken or upgraded, and nothing went wrong.
-/

set_option autoImplicit false

namespace UfsX.Lib

inductive LockFault where
  /-- The call holds the lock exclusively. -/
  | relock
  /-- The call has not taken the lock. -/
  | notTaken
  /-- There is no object to unlock. -/
  | null
  deriving DecidableEq, Repr

structure Ledger (ι : Type*) where
  taken : List ι
  upgraded : List ι
  faults : List LockFault
  deriving DecidableEq, Repr

namespace Ledger

variable {ι : Type*} [DecidableEq ι]

def empty : Ledger ι := ⟨[], [], []⟩

/-- Take a lock exclusively. -/
def lock (x : ι) (l : Ledger ι) : Ledger ι :=
  if x ∈ l.taken then { l with faults := .relock :: l.faults } else { l with taken := x :: l.taken }

/-- Drop a lock. `none` is a null pointer. -/
def unlock (x : Option ι) (l : Ledger ι) : Ledger ι :=
  match x with
  | none => { l with faults := .null :: l.faults }
  | some x =>
      if x ∈ l.taken then { l with taken := l.taken.erase x }
      else { l with faults := .notTaken :: l.faults }

/-- Turn a shared lock of the caller into an exclusive one. -/
def upgrade (x : ι) (l : Ledger ι) : Ledger ι := { l with upgraded := x :: l.upgraded }

/-- Nothing went wrong. -/
def Sound (l : Ledger ι) : Prop := l.faults = []

def Balanced (l : Ledger ι) : Prop := l.taken = [] ∧ l.upgraded = [] ∧ l.Sound

instance (l : Ledger ι) : Decidable l.Sound := inferInstanceAs (Decidable (_ = _))

instance (l : Ledger ι) : Decidable l.Balanced := inferInstanceAs (Decidable (_ ∧ _ ∧ _))

variable {l : Ledger ι}

omit [DecidableEq ι] in
theorem balanced_empty : (empty : Ledger ι).Balanced := ⟨rfl, rfl, rfl⟩

/-- A fault is not taken back by a later operation. -/
theorem Sound.of_lock {x : ι} (h : (l.lock x).Sound) : l.Sound := by
  unfold lock at h
  split at h
  · cases h
  · exact h

theorem Sound.of_unlock {x : Option ι} (h : (l.unlock x).Sound) : l.Sound := by
  cases x with
  | none => cases h
  | some x =>
      simp only [unlock] at h
      split at h
      · exact h
      · cases h

end Ledger

end UfsX.Lib
