import Mathlib.Data.Finset.Card
import Mathlib.Data.Finset.Image
import Mathlib.Dynamics.PeriodicPts.Defs
import Mathlib.Logic.Function.Iterate

/-!
# `UfsX.Lib.ParentTree`: trees given by parent pointers

`Reaches f x r` says that following `f` from `x` leads to `r`, and `Avoids f i x r`
that it does so before it comes to `i`. A `ParentTree` is a set of nodes, each with a
parent and a label below it, from all of which the root is reached. `addLeaf`,
`removeLeaf` and `move` are the ways to change one; `move` asks that the way up from
the new parent avoids the node that moves.
-/

set_option autoImplicit false

namespace UfsX.Lib

variable {ι ν : Type*} {f f' : ι → ι} {x r i : ι}

def Reaches (f : ι → ι) (x r : ι) : Prop := ∃ n, f^[n] x = r

def Avoids (f : ι → ι) (i x r : ι) : Prop := ∃ n, f^[n] x = r ∧ ∀ k < n, f^[k] x ≠ i

theorem Reaches.refl : Reaches f r r := ⟨0, rfl⟩

theorem Reaches.head (h : Reaches f (f x) r) : Reaches f x r := by
  obtain ⟨n, hn⟩ := h
  exact ⟨n + 1, hn⟩

/-- A function that differs at one point leads to the same place, if it does so from
that point. -/
theorem Reaches.redirect {S : Set ι} (h : Reaches f x r) (hS : ∀ x ∈ S, f x ∈ S)
    (heq : ∀ x ∈ S, x ≠ i → f' x = f x) (hi : Reaches f' i r) (hx : x ∈ S) : Reaches f' x r := by
  obtain ⟨n, hn⟩ := h
  induction n generalizing x with
  | zero => exact ⟨0, hn⟩
  | succ n ih =>
      by_cases hxi : x = i
      · exact hxi ▸ hi
      · refine .head ?_
        rw [heq x hx hxi]
        exact ih (hS x hx) hn

theorem Avoids.of_eq (h : x = r) : Avoids f i x r := ⟨0, h, fun k hk => absurd hk (Nat.not_lt_zero k)⟩

theorem Avoids.head (hx : x ≠ i) (h : Avoids f i (f x) r) : Avoids f i x r := by
  obtain ⟨n, hn, hne⟩ := h
  refine ⟨n + 1, hn, fun k hk => ?_⟩
  cases k with
  | zero => exact hx
  | succ k => exact hne k (by omega)

/-- What happens at `i` does not matter on a way that avoids it. -/
theorem Avoids.reaches (heq : ∀ x, x ≠ i → f' x = f x) (h : Avoids f i x r) : Reaches f' x r := by
  obtain ⟨n, hn, hne⟩ := h
  induction n generalizing x with
  | zero => exact ⟨0, hn⟩
  | succ n ih =>
      refine .head ?_
      rw [heq x (hne 0 (by omega))]
      exact ih hn fun k hk => hne (k + 1) (by omega)

/-- Where the end is a fixed point, only the end comes back to itself. -/
theorem iterate_ne_self (hr : f r = r) (h : Reaches f x r) (hx : x ≠ r) {n : Nat} (hn : 0 < n) :
    f^[n] x ≠ x := by
  intro hback
  obtain ⟨m, hm⟩ := h
  apply hx
  have hmul : m ≤ m * n := Nat.le_mul_of_pos_right m hn
  have hfix : f^[m * n] x = x := Function.IsPeriodicPt.const_mul (f := f) hback m
  calc x = f^[m * n] x := hfix.symm
    _ = f^[m * n - m] (f^[m] x) := by rw [← Function.iterate_add_apply, Nat.sub_add_cancel hmul]
    _ = r := by rw [hm, Function.iterate_fixed hr]

/-- The way from a parent avoids the child. -/
theorem Avoids.of_parent (hr : f r = r) (h : Reaches f x r) (hx : x ≠ r) : Avoids f x (f x) r := by
  obtain ⟨n, hn⟩ := h
  cases n with
  | zero => exact absurd hn hx
  | succ n =>
      refine ⟨n, hn, fun k _ hk => ?_⟩
      exact iterate_ne_self hr ⟨n + 1, hn⟩ hx (Nat.succ_pos k) hk

/-- The end is reached in fewer steps than there are points. -/
theorem Reaches.exists_lt_card [DecidableEq ι] {S : Finset ι} (hS : ∀ x ∈ S, f x ∈ S) (hx : x ∈ S)
    (h : Reaches f x r) : ∃ n < S.card, f^[n] x = r := by
  classical
  refine ⟨Nat.find h, ?_, Nat.find_spec h⟩
  have hmem : ∀ k, f^[k] x ∈ S := by
    intro k
    induction k with
    | zero => exact hx
    | succ k ih =>
        rw [Function.iterate_succ_apply']
        exact hS _ ih
  -- two equal points on the way would give a shorter way
  have hinj : Set.InjOn (fun k => f^[k] x) (Finset.range (Nat.find h + 1)) := by
    intro a ha b hb hab
    simp only [Finset.coe_range, Set.mem_Iio] at ha hb
    by_contra hne
    wlog hlt : a < b generalizing a b with hsym
    · exact hsym hab.symm hb ha (Ne.symm hne) (by omega)
    refine Nat.find_min h (m := Nat.find h - (b - a)) (by omega) ?_
    have hsplit : Nat.find h - (b - a) = (Nat.find h - b) + a := by omega
    have hend := Nat.find_spec h
    rw [hsplit, Function.iterate_add_apply]
    rw [← Nat.sub_add_cancel (show b ≤ Nat.find h by omega), Function.iterate_add_apply] at hend
    exact (congrArg _ hab).trans hend
  have hcard := Finset.card_le_card_of_injOn (s := Finset.range (Nat.find h + 1)) (t := S) _
    (fun k _ => hmem k) hinj
  rw [Finset.card_range] at hcard
  omega

/-! ### Trees -/

/-- `label d` is the name of `d` below its parent `up d`. -/
structure ParentTree (ι ν : Type*) where
  root : ι
  nodes : Set ι
  up : ι → ι
  label : ι → ν
  root_mem : root ∈ nodes
  up_root : up root = root
  up_mem : ∀ d ∈ nodes, up d ∈ nodes
  reach : ∀ d ∈ nodes, Reaches up d root

namespace ParentTree

variable (t : ParentTree ι ν)

/-- No node but the root is above itself. -/
theorem not_own_ancestor {d : ι} (hd : d ∈ t.nodes) (hne : d ≠ t.root) {n : Nat} (hn : 0 < n) :
    t.up^[n] d ≠ d :=
  iterate_ne_self t.up_root (t.reach d hd) hne hn

theorem up_ne {d : ι} (hd : d ∈ t.nodes) (hne : d ≠ t.root) : t.up d ≠ d :=
  t.not_own_ancestor hd hne Nat.one_pos

variable [DecidableEq ι] {t}

/-- A new node below `d`. -/
def addLeaf (t : ParentTree ι ν) {d : ι} (i : ι) (l : ν) (hd : d ∈ t.nodes) (hi : i ∉ t.nodes) :
    ParentTree ι ν where
  root := t.root
  nodes := insert i t.nodes
  up := Function.update t.up i d
  label := Function.update t.label i l
  root_mem := .inr t.root_mem
  up_root := by
    rw [Function.update_of_ne (ne_of_mem_of_not_mem t.root_mem hi), t.up_root]
  up_mem := by
    rintro c (rfl | hc)
    · rw [Function.update_self]
      exact .inr hd
    · rw [Function.update_of_ne (ne_of_mem_of_not_mem hc hi)]
      exact .inr (t.up_mem c hc)
  reach := by
    have hold : ∀ c ∈ t.nodes, Reaches (Function.update t.up i d) c t.root := fun c hc =>
      (t.reach c hc).redirect t.up_mem
        (fun x hx _ => Function.update_of_ne (ne_of_mem_of_not_mem hx hi) _ _) .refl hc
    rintro c (rfl | hc)
    · refine .head ?_
      rw [Function.update_self]
      exact hold d hd
    · exact hold c hc

/-- A node without children goes. -/
def removeLeaf (t : ParentTree ι ν) {x : ι} (hx : x ≠ t.root) (hleaf : ∀ c ∈ t.nodes, t.up c ≠ x) :
    ParentTree ι ν where
  root := t.root
  nodes := t.nodes \ {x}
  up := t.up
  label := t.label
  root_mem := ⟨t.root_mem, fun h => hx h.symm⟩
  up_root := t.up_root
  up_mem := fun d hd => ⟨t.up_mem d hd.1, hleaf d hd.1⟩
  reach := fun d hd => t.reach d hd.1

/-- A node gets another parent, or another name. -/
def move (t : ParentTree ι ν) {i p : ι} (l : ν) (hi : i ≠ t.root) (hp : p ∈ t.nodes)
    (havoid : Avoids t.up i p t.root) : ParentTree ι ν where
  root := t.root
  nodes := t.nodes
  up := Function.update t.up i p
  label := Function.update t.label i l
  root_mem := t.root_mem
  up_root := by rw [Function.update_of_ne (Ne.symm hi), t.up_root]
  up_mem := by
    intro d hd
    by_cases hdi : d = i
    · rw [hdi, Function.update_self]
      exact hp
    · rw [Function.update_of_ne hdi]
      exact t.up_mem d hd
  reach := by
    have hmoved : Reaches (Function.update t.up i p) i t.root := by
      refine .head ?_
      rw [Function.update_self]
      exact havoid.reaches fun x hx => Function.update_of_ne hx _ _
    exact fun d hd => (t.reach d hd).redirect t.up_mem
      (fun x _ hx => Function.update_of_ne hx _ _) hmoved hd

end ParentTree

end UfsX.Lib
