import Mathlib.Data.Multiset.AddSub

/-!
# `UfsX.Lib.RwLock`: a reader-writer lock

The lock is held exclusively by one thread, or shared by any number of holds; a
thread may have several shared holds. Both at once cannot be built. An operation
is one step and gives `none` where a thread would have to wait, or has no
business.
-/

set_option autoImplicit false

namespace UfsX.Lib

/-- How a lock is held. -/
inductive Hold where
  | exclusive
  | shared
  deriving DecidableEq, Repr

structure RwLock (τ : Type*) where
  excl : Option τ
  shared : Multiset τ
  apart : excl = none ∨ shared = 0

namespace RwLock

variable {τ : Type*}

section Lemmas

variable {l : RwLock τ} {t : τ}

/-- A thread with a shared hold finds no exclusive holder. -/
theorem excl_none (h : t ∈ l.shared) : l.excl = none :=
  l.apart.resolve_right fun h0 => by
    rw [h0] at h
    exact Multiset.notMem_zero t h

theorem shared_zero (h : l.excl = some t) : l.shared = 0 :=
  l.apart.resolve_left fun h0 => by
    rw [h0] at h
    cases h

end Lemmas

variable [DecidableEq τ]

/-- Nobody holds the lock. -/
def free : RwLock τ := ⟨none, 0, Or.inl rfl⟩

/-- What thread `t` holds. -/
def held (l : RwLock τ) (t : τ) : Option Hold :=
  if l.excl = some t then some .exclusive else if t ∈ l.shared then some .shared else none

def lockExclusive (l : RwLock τ) (t : τ) : Option (RwLock τ) :=
  if l.excl = none ∧ l.shared = 0 then some ⟨some t, 0, Or.inr rfl⟩ else none

def lockShared (l : RwLock τ) (t : τ) : Option (RwLock τ) :=
  if l.excl = none then some ⟨none, t ::ₘ l.shared, Or.inl rfl⟩ else none

/-- Take the lock. -/
def lock (l : RwLock τ) (t : τ) : Hold → Option (RwLock τ)
  | .exclusive => l.lockExclusive t
  | .shared => l.lockShared t

def unlockExclusive (l : RwLock τ) (t : τ) : Option (RwLock τ) :=
  if l.excl = some t then some ⟨none, l.shared, Or.inl rfl⟩ else none

def unlockShared (l : RwLock τ) (t : τ) : Option (RwLock τ) :=
  if t ∈ l.shared then
    some ⟨l.excl, l.shared.erase t, l.apart.imp_right fun h => by rw [h, Multiset.erase_zero]⟩
  else none

/-- Give one hold of a kind up. -/
def unlock (l : RwLock τ) (t : τ) : Hold → Option (RwLock τ)
  | .exclusive => l.unlockExclusive t
  | .shared => l.unlockShared t

/-- From shared to exclusive, when no other hold is left. -/
def upgrade (l : RwLock τ) (t : τ) : Option (RwLock τ) :=
  if l.shared = {t} then some ⟨some t, 0, Or.inr rfl⟩ else none

/-- From shared to exclusive, when another holder is at the same: the hold is
lost. -/
def upgradeLost (l : RwLock τ) (t : τ) : Option (RwLock τ) :=
  if l.shared = {t} then none else l.unlockShared t

/-- From exclusive to shared. -/
def downgrade (l : RwLock τ) (t : τ) : Option (RwLock τ) :=
  if l.excl = some t then some ⟨none, {t}, Or.inl rfl⟩ else none

section Lemmas

variable {l l' : RwLock τ} {t : τ}

theorem lockExclusive_eq (h : l.lockExclusive t = some l') :
    l.excl = none ∧ l.shared = 0 ∧ l'.excl = some t ∧ l'.shared = 0 := by
  unfold lockExclusive at h
  split at h
  · next hfree =>
      obtain rfl := Option.some.inj h
      exact ⟨hfree.1, hfree.2, rfl, rfl⟩
  · cases h

omit [DecidableEq τ] in
theorem lockShared_eq (h : l.lockShared t = some l') :
    l.excl = none ∧ l'.excl = none ∧ l'.shared = t ::ₘ l.shared := by
  unfold lockShared at h
  split at h
  · next hfree =>
      obtain rfl := Option.some.inj h
      exact ⟨hfree, rfl, rfl⟩
  · cases h

theorem unlockExclusive_eq (h : l.unlockExclusive t = some l') : l.excl = some t ∧ l'.excl = none := by
  unfold unlockExclusive at h
  split at h
  · next hown =>
      obtain rfl := Option.some.inj h
      exact ⟨hown, rfl⟩
  · cases h

theorem unlockShared_eq (h : l.unlockShared t = some l') :
    t ∈ l.shared ∧ l'.excl = l.excl ∧ l'.shared = l.shared.erase t := by
  unfold unlockShared at h
  split at h
  · next hmem =>
      obtain rfl := Option.some.inj h
      exact ⟨hmem, rfl, rfl⟩
  · cases h

theorem upgrade_eq (h : l.upgrade t = some l') :
    l.shared = {t} ∧ l'.excl = some t ∧ l'.shared = 0 := by
  unfold upgrade at h
  split at h
  · next hone =>
      obtain rfl := Option.some.inj h
      exact ⟨hone, rfl, rfl⟩
  · cases h

theorem upgradeLost_eq (h : l.upgradeLost t = some l') :
    t ∈ l.shared ∧ l'.excl = l.excl ∧ l'.shared = l.shared.erase t := by
  unfold upgradeLost at h
  split at h
  · cases h
  · exact unlockShared_eq h

theorem downgrade_eq (h : l.downgrade t = some l') :
    l.excl = some t ∧ l'.excl = none ∧ l'.shared = {t} := by
  unfold downgrade at h
  split at h
  · next hown =>
      obtain rfl := Option.some.inj h
      exact ⟨hown, rfl, rfl⟩
  · cases h

end Lemmas

/-! ### What other threads leave alone

A thread that has the lock exclusively has it until it gives it up itself. -/

section Others

variable {l l' : RwLock τ} {t u : τ} {hold : Hold} (hexcl : l.excl = some t)
include hexcl

theorem lock_others (h : l.lock u hold = some l') : l'.excl = some t := by
  have hnone : l.excl = none := by
    cases hold with
    | exclusive => exact (lockExclusive_eq h).1
    | shared => exact (lockShared_eq h).1
  rw [hnone] at hexcl
  cases hexcl

theorem upgrade_others (h : l.upgrade u = some l') : l'.excl = some t := by
  have hmem : u ∈ l.shared := by
    rw [(upgrade_eq h).1]
    exact Multiset.mem_singleton_self u
  rw [excl_none hmem] at hexcl
  cases hexcl

variable (hne : t ≠ u)
include hne

theorem unlock_others (h : l.unlock u hold = some l') : l'.excl = some t := by
  cases hold with
  | exclusive =>
      have hown := (unlockExclusive_eq h).1
      exact absurd (Option.some.inj (hexcl.symm.trans hown)) hne
  | shared => rwa [(unlockShared_eq h).2.1]

theorem downgrade_others (h : l.downgrade u = some l') : l'.excl = some t :=
  absurd (Option.some.inj (hexcl.symm.trans (downgrade_eq h).1)) hne

end Others

end RwLock

end UfsX.Lib
