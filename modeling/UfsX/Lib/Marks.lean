import Mathlib.Data.BitVec

/-!
# `UfsX.Lib.Marks`: a word of marks

A word of which bits are set and cleared by masks. `getLsbD_run` says of a bit what the
last change that touched it did.
-/

set_option autoImplicit false

namespace UfsX.Lib.Marks

/-- A change of the word. -/
inductive Change (w : Nat) where
  | set (mask : BitVec w)
  | clear (mask : BitVec w)
  deriving DecidableEq, Repr

variable {w : Nat}

def Change.apply (word : BitVec w) : Change w → BitVec w
  | .set mask => word ||| mask
  | .clear mask => word &&& ~~~mask

/-- The change sets bit `i`. -/
def Change.Sets (i : Nat) : Change w → Prop
  | .set mask => mask.getLsbD i = true
  | .clear _ => False

/-- The change clears bit `i`. -/
def Change.Clears (i : Nat) : Change w → Prop
  | .set _ => False
  | .clear mask => mask.getLsbD i = true

def run (word : BitVec w) (changes : List (Change w)) : BitVec w :=
  changes.foldl Change.apply word

/-- Bit `i` has been set, and not been cleared since. -/
def Marked (i : Nat) (changes : List (Change w)) : Prop :=
  ∃ before change after, changes = before ++ change :: after ∧ change.Sets i ∧
    ∀ later ∈ after, ¬ later.Clears i

theorem not_marked_nil (i : Nat) : ¬ Marked i ([] : List (Change w)) := by
  rintro ⟨before, change, after, h, -, -⟩
  simp at h

/-- A later change marks the bit, or leaves the mark of those before it. -/
theorem marked_append_iff (i : Nat) (changes : List (Change w)) (change : Change w) :
    Marked i (changes ++ [change]) ↔ change.Sets i ∨ (Marked i changes ∧ ¬ change.Clears i) := by
  constructor
  · rintro ⟨before, marking, after, h, hsets, hkept⟩
    -- the mark is the last change, or one before it
    rcases List.eq_nil_or_concat after with rfl | ⟨after', last, rfl⟩
    · left
      have hlast := (List.append_inj' h rfl).2
      simp only [List.cons.injEq, and_true] at hlast
      rw [hlast]
      exact hsets
    · right
      rw [List.concat_eq_append] at h hkept
      have hsplit : changes ++ [change] = (before ++ marking :: after') ++ [last] := by
        rw [h, List.append_assoc, List.cons_append]
      have hparts := List.append_inj' hsplit rfl
      simp only [List.cons.injEq, and_true] at hparts
      obtain ⟨hchanges, rfl⟩ := hparts
      refine ⟨⟨before, marking, after', hchanges, hsets, ?_⟩, ?_⟩
      · intro later hlater
        exact hkept later (List.mem_append_left _ hlater)
      · exact hkept change (by simp)
  · rintro (hsets | ⟨⟨before, marking, after, h, hsets, hkept⟩, hlast⟩)
    · exact ⟨changes, change, [], rfl, hsets, by simp⟩
    · refine ⟨before, marking, after ++ [change], by rw [h]; simp, hsets, ?_⟩
      intro later hlater
      rcases List.mem_append.mp hlater with hin | hin
      · exact hkept later hin
      · rw [List.mem_singleton] at hin
        rw [hin]
        exact hlast

theorem run_append (word : BitVec w) (changes : List (Change w)) (change : Change w) :
    run word (changes ++ [change]) = change.apply (run word changes) := by
  simp only [run, List.foldl_append, List.foldl_cons, List.foldl_nil]

/-- In a word that starts as zero, the bits are the marks. -/
theorem getLsbD_run (changes : List (Change w)) (i : Nat) :
    (run 0#w changes).getLsbD i = true ↔ Marked i changes := by
  induction changes using List.reverseRecOn with
  | nil =>
      show (0#w).getLsbD i = true ↔ _
      simp [not_marked_nil]
  | append_singleton changes change ih =>
      rw [run_append, marked_append_iff, ← ih]
      cases change with
      | set mask =>
          simp only [Change.apply, Change.Sets, Change.Clears, BitVec.getLsbD_or]
          rw [Bool.or_eq_true]
          tauto
      | clear mask =>
          simp only [Change.apply, Change.Sets, Change.Clears, BitVec.getLsbD_and,
            BitVec.getLsbD_not]
          -- a bit of the word is one below its width
          have hlt : (run 0#w changes).getLsbD i = true → i < w := BitVec.lt_of_getLsbD
          cases hrun : (run 0#w changes).getLsbD i with
          | false => simp
          | true => simp [hlt hrun]

/-- A word that is only set inside `field` has no bit outside it. -/
theorem run_and_field (field : BitVec w) (changes : List (Change w))
    (h : ∀ mask, .set mask ∈ changes → mask &&& field = mask) :
    run 0#w changes &&& field = run 0#w changes := by
  induction changes using List.reverseRecOn with
  | nil => exact BitVec.zero_and
  | append_singleton changes change ih =>
      have hchanges : run 0#w changes &&& field = run 0#w changes :=
        ih fun mask hin => h mask (List.mem_append_left _ hin)
      rw [run_append]
      cases change with
      | set mask =>
          have hmask : mask &&& field = mask := h mask (by simp)
          show (run 0#w changes ||| mask) &&& field = run 0#w changes ||| mask
          rw [BitVec.and_comm, BitVec.and_or_distrib_left, BitVec.and_comm field,
            BitVec.and_comm field, hchanges, hmask]
      | clear mask =>
          show run 0#w changes &&& ~~~mask &&& field = run 0#w changes &&& ~~~mask
          rw [BitVec.and_assoc, BitVec.and_comm (~~~mask), ← BitVec.and_assoc, hchanges]

end UfsX.Lib.Marks
