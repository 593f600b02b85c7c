import Mathlib.Data.List.Count

/-!
# `UfsX.Lib.Heap`: what one call allocates and frees

A heap of named objects remembers every allocation and every release. `counts` says how
often an object was allocated and freed, and `Settled` that each of the two happened once,
or neither. The simp set computes `counts` through a sequence of operations.

`Owes` names the objects that are still to be freed, in the order of a stack; all others are
settled. `Owes.alloc` and `Owes.free` carry it through a call.
-/

set_option autoImplicit false

namespace UfsX.Lib

structure Heap (ι : Type*) where
  allocs : List ι
  frees : List ι
  deriving DecidableEq, Repr

namespace Heap

variable {ι : Type*}

def empty : Heap ι := ⟨[], []⟩

def alloc (x : ι) (h : Heap ι) : Heap ι := { h with allocs := x :: h.allocs }

def free (x : ι) (h : Heap ι) : Heap ι := { h with frees := x :: h.frees }

variable [DecidableEq ι]

/-- How often an object was allocated, and how often it was freed. -/
def counts (h : Heap ι) (x : ι) : Nat × Nat := (h.allocs.count x, h.frees.count x)

/-- The object was freed exactly once, if it was allocated at all. -/
def Settled (h : Heap ι) (x : ι) : Prop := h.counts x = (0, 0) ∨ h.counts x = (1, 1)

@[simp] theorem counts_empty (x : ι) : (empty : Heap ι).counts x = (0, 0) := rfl

@[simp] theorem counts_alloc (h : Heap ι) (x y : ι) :
    (h.alloc y).counts x = ((h.counts x).1 + if y = x then 1 else 0, (h.counts x).2) := by
  simp only [counts, alloc, List.count_cons, beq_iff_eq]

@[simp] theorem counts_free (h : Heap ι) (x y : ι) :
    (h.free y).counts x = ((h.counts x).1, (h.counts x).2 + if y = x then 1 else 0) := by
  simp only [counts, free, List.count_cons, beq_iff_eq]

theorem counts_alloc_of_ne {h : Heap ι} {x y : ι} (hne : y ≠ x) : (h.alloc y).counts x = h.counts x := by
  rw [counts_alloc, if_neg hne, Nat.add_zero]

theorem counts_free_of_ne {h : Heap ι} {x y : ι} (hne : y ≠ x) : (h.free y).counts x = h.counts x := by
  rw [counts_free, if_neg hne, Nat.add_zero]

theorem Settled.alloc_of_ne {h : Heap ι} {x y : ι} (hx : h.Settled x) (hne : y ≠ x) : (h.alloc y).Settled x := by
  rwa [Settled, counts_alloc_of_ne hne]

theorem Settled.free_of_ne {h : Heap ι} {x y : ι} (hx : h.Settled x) (hne : y ≠ x) : (h.free y).Settled x := by
  rwa [Settled, counts_free_of_ne hne]

/-- An object that is allocated and not freed is settled by freeing it. -/
theorem settled_free {h : Heap ι} {x : ι} (hx : h.counts x = (1, 0)) : (h.free x).Settled x := by
  right
  rw [counts_free, hx, if_pos rfl]

/-- The objects `xs` are still to be freed. -/
def Owes (h : Heap ι) (xs : List ι) : Prop := (∀ x ∈ xs, h.counts x = (1, 0)) ∧ ∀ x, x ∉ xs → h.Settled x

section Owes

variable {h : Heap ι} {x : ι} {xs : List ι}

theorem owes_empty : Owes (empty : Heap ι) [] := by
  constructor
  · intro x hx
    cases hx
  · exact fun _ _ => Or.inl rfl

theorem Owes.settled (ho : h.Owes []) (x : ι) : h.Settled x := ho.2 x List.not_mem_nil

/-- An object that is new is owed. -/
theorem Owes.alloc (ho : h.Owes xs) (hnew : h.counts x = (0, 0)) : (h.alloc x).Owes (x :: xs) := by
  constructor
  · intro y hy
    by_cases heq : x = y
    · rw [← heq, counts_alloc, hnew, if_pos rfl]
    · rw [counts_alloc_of_ne heq]
      exact ho.1 y ((List.mem_cons.mp hy).resolve_left (Ne.symm heq))
  · intro y hy
    rw [List.mem_cons, not_or] at hy
    exact (ho.2 y hy.2).alloc_of_ne (Ne.symm hy.1)

/-- An object that is owed once is settled by freeing it. -/
theorem Owes.free (ho : h.Owes (x :: xs)) (hx : x ∉ xs) : (h.free x).Owes xs := by
  constructor
  · intro y hy
    have hne : x ≠ y := fun heq => hx (heq ▸ hy)
    rw [counts_free_of_ne hne]
    exact ho.1 y (List.mem_cons_of_mem x hy)
  · intro y hy
    by_cases heq : x = y
    · rw [← heq]
      exact settled_free (ho.1 x List.mem_cons_self)
    · refine (ho.2 y ?_).free_of_ne heq
      rw [List.mem_cons, not_or]
      exact ⟨Ne.symm heq, hy⟩

end Owes

end Heap

end UfsX.Lib
