import Mathlib.Logic.Function.Basic

/-!
# `UfsX.Lib.Threads`: threads, a mutex and sleeping

A system of threads is described by a program counter for each thread, of some
type `π`. A mutex is the thread that holds it, or nobody. `Excludes` says that
the mutex is held exactly by the thread whose program counter is in the locked
region. `wakeAll` is a wakeup: it moves every thread that sleeps on an object,
and no other.
-/

set_option autoImplicit false

namespace UfsX.Lib

variable {τ π : Type*} [DecidableEq τ]

/-- The thread in the locked region is the one that holds the mutex. -/
def Excludes (inLock : π → Bool) (lock : Option τ) (pc : τ → π) : Prop :=
  ∀ t, inLock (pc t) = true ↔ lock = some t

/-- Wake the threads that are at `asleep`; they go on at `next`. -/
def wakeAll [DecidableEq π] (asleep next : π) (pc : τ → π) : τ → π := fun t =>
  if pc t = asleep then next else pc t

/-- A property of one thread's program counter, after thread `t` has gone to
`p`. -/
theorem update_cases {pc : τ → π} {t u : τ} {p : π} (Q : π → Prop)
    (h : Q (Function.update pc t p u)) : (u = t ∧ Q p) ∨ (u ≠ t ∧ Q (pc u)) := by
  by_cases hu : u = t
  · rw [hu, Function.update_self] at h
    exact Or.inl ⟨hu, h⟩
  · rw [Function.update_of_ne hu] at h
    exact Or.inr ⟨hu, h⟩

namespace Excludes

variable {inLock : π → Bool} {lock : Option τ} {pc : τ → π} {t u : τ} {p : π}

omit [DecidableEq τ] in
theorem unique (h : Excludes inLock lock pc) (ht : inLock (pc t) = true)
    (hu : inLock (pc u) = true) : t = u :=
  Option.some.inj (((h t).mp ht).symm.trans ((h u).mp hu))

theorem acquire (h : Excludes inLock none pc) (hp : inLock p = true) :
    Excludes inLock (some t) (Function.update pc t p) := by
  intro u
  by_cases hu : u = t
  · rw [hu, Function.update_self]
    exact iff_of_true hp rfl
  · rw [Function.update_of_ne hu, h u]
    exact iff_of_false (fun hno => by cases hno) fun hno => hu (Option.some.inj hno).symm

theorem release (h : Excludes inLock lock pc) (ht : inLock (pc t) = true) (hp : inLock p = false) :
    Excludes inLock none (Function.update pc t p) := by
  intro u
  by_cases hu : u = t
  · rw [hu, Function.update_self, hp]
    exact iff_of_false (fun hno => by cases hno) fun hno => by cases hno
  · rw [Function.update_of_ne hu]
    exact iff_of_false (fun hin => hu (h.unique hin ht)) fun hno => by cases hno

/-- A step inside the locked region, or outside of it. -/
theorem keep (h : Excludes inLock lock pc) (hp : inLock p = inLock (pc t)) :
    Excludes inLock lock (Function.update pc t p) := by
  intro u
  by_cases hu : u = t
  · rw [hu, Function.update_self, hp, h t]
  · rw [Function.update_of_ne hu, h u]

omit [DecidableEq τ] in
/-- Threads that move without entering or leaving the region. -/
theorem congr {pc' : τ → π} (h : Excludes inLock lock pc) (hsame : ∀ t, inLock (pc' t) = inLock (pc t)) :
    Excludes inLock lock pc' := by
  intro u
  rw [hsame u, h u]

omit [DecidableEq τ] in
theorem wake [DecidableEq π] {asleep next : π} (h : Excludes inLock lock pc)
    (hp : inLock next = inLock asleep) : Excludes inLock lock (wakeAll asleep next pc) := by
  intro u
  unfold wakeAll
  by_cases hu : pc u = asleep
  · rw [if_pos hu, hp, ← hu, h u]
  · rw [if_neg hu, h u]

end Excludes

omit [DecidableEq τ] in
/-- After a wakeup, nobody sleeps on the object. -/
theorem wakeAll_ne [DecidableEq π] {asleep next : π} (hne : next ≠ asleep) (pc : τ → π) (t : τ) :
    wakeAll asleep next pc t ≠ asleep := by
  unfold wakeAll
  by_cases ht : pc t = asleep
  · rwa [if_pos ht]
  · rwa [if_neg ht]

omit [DecidableEq τ] in
/-- A thread that is somewhere after a wakeup was there before, or was woken. -/
theorem wakeAll_eq [DecidableEq π] {asleep next p : π} {pc : τ → π} {t : τ}
    (h : wakeAll asleep next pc t = p) (hp : p ≠ next) : pc t = p := by
  unfold wakeAll at h
  by_cases ht : pc t = asleep
  · rw [if_pos ht] at h
    exact absurd h.symm hp
  · rwa [if_neg ht] at h

end UfsX.Lib
