import Mathlib.Algebra.Group.Defs
import Mathlib.Algebra.Order.Group.Nat
import Mathlib.Data.Nat.ModEq
import Mathlib.Tactic.Ring

/-!
# `UfsX.Lib.Radix`: trees of pointer blocks

A tree of height `h` over blocks of `N` pointers: a pointer to a subtree of
height `h + 1` leads to a block whose slot `i` is the pointer to the `i`-th
subtree of height `h`. Null pointers stand for missing subtrees. `lookup`
follows the pointers to one leaf.

The blocks are given by a function `node` of the block's height, of the index
of its first leaf and of its address, so the same definition serves a tree
whose blocks are named by position and one whose blocks are named by address.
-/

set_option autoImplicit false

namespace UfsX.Lib.Radix

variable {A : Type} [Zero A] [DecidableEq A]

/-- The pointer to leaf `k` of a subtree of height `h`, whose first leaf has
index `first` and to which `a` points. -/
def lookup (N : Nat) (node : Nat → Nat → A → Nat → A) : Nat → Nat → A → Nat → A
  | 0, _, a, _ => a
  | h + 1, first, a, k =>
      if a = 0 then 0
      else lookup N node h (first + k / N ^ h * N ^ h) (node (h + 1) first a (k / N ^ h)) (k % N ^ h)

variable {N : Nat} {node : Nat → Nat → A → Nat → A}

theorem lookup_null (h first k : Nat) : lookup N node h first 0 k = 0 := by
  cases h with
  | zero => rfl
  | succ h => exact if_pos rfl

theorem lookup_succ {a : A} (ha : a ≠ 0) (h first k : Nat) :
    lookup N node (h + 1) first a k =
      lookup N node h (first + k / N ^ h * N ^ h) (node (h + 1) first a (k / N ^ h))
        (k % N ^ h) :=
  if_neg ha

/-- What holds of null, of the root pointer and of every slot holds of every
pointer found. -/
theorem lookup_mem {P : A → Prop} (h0 : P 0) (hnode : ∀ h first a i, P (node h first a i))
    {a : A} (ha : P a) (h first k : Nat) : P (lookup N node h first a k) := by
  induction h generalizing first a k with
  | zero => exact ha
  | succ h ih =>
      rw [lookup]
      split
      · exact h0
      · exact ih (hnode _ _ _ _) _ _

/-- The digit of weight `N ^ h`, read off a number reduced to its low digits. -/
theorem mod_pow_div (b h : Nat) : b % N ^ (h + 1) / N ^ h = b / N ^ h % N := by
  rw [Nat.pow_succ, Nat.mod_mul_right_div_self]

theorem mod_pow_mod (b h : Nat) : b % N ^ (h + 1) % N ^ h = b % N ^ h :=
  Nat.mod_mod_of_dvd _ ⟨N, Nat.pow_succ N h⟩

/-- A step inside a block of leaves carries into no higher digit. -/
theorem mod_pow_add_lt {b j : Nat} (hj : b % N + j < N) (h : Nat) :
    b % N ^ (h + 1) + j < N ^ (h + 1) := by
  have hN : 0 < N := by omega
  have hlt : b / N % N ^ h + 1 ≤ N ^ h := Nat.mod_lt _ (Nat.pow_pos hN)
  have hmul : N * (b / N % N ^ h) + N ≤ N * N ^ h := by
    calc N * (b / N % N ^ h) + N = N * (b / N % N ^ h + 1) := by rw [Nat.mul_succ]
      _ ≤ N * N ^ h := Nat.mul_le_mul_left N hlt
  rw [Nat.pow_succ', Nat.mod_mul]
  omega

theorem add_div_pow {b j : Nat} (hj : b % N + j < N) (h : Nat) :
    (b + j) / N ^ (h + 1) = b / N ^ (h + 1) := by
  have hlt := mod_pow_add_lt hj h
  have hj' : j < N ^ (h + 1) := Nat.lt_of_le_of_lt (Nat.le_add_left _ _) hlt
  rw [Nat.add_div_eq_of_add_mod_lt (by rwa [Nat.mod_eq_of_lt hj']), Nat.div_eq_of_lt hj',
    Nat.add_zero]

theorem add_mod_pow {b j : Nat} (hj : b % N + j < N) (h : Nat) :
    (b + j) % N ^ (h + 1) = b % N ^ (h + 1) + j := by
  have hlt := mod_pow_add_lt hj h
  have hj' : j < N ^ (h + 1) := Nat.lt_of_le_of_lt (Nat.le_add_left _ _) hlt
  rw [Nat.add_mod, Nat.mod_eq_of_lt hj', Nat.mod_eq_of_lt hlt]

/-- Leaves of one block are found below the same subtree at every level. -/
theorem lookup_add {a : A} (ha : a ≠ 0) {b j : Nat} (hj : b % N + j < N) (h first : Nat) :
    lookup N node (h + 2) first a (b % N ^ (h + 2) + j) =
      lookup N node (h + 1) (first + b / N ^ (h + 1) % N * N ^ (h + 1))
        (node (h + 2) first a (b / N ^ (h + 1) % N)) (b % N ^ (h + 1) + j) := by
  have hb : b % N ^ (h + 2) % N = b % N :=
    Nat.mod_mod_of_dvd _ (dvd_pow_self N (by omega))
  have hdiv : (b % N ^ (h + 2) + j) / N ^ (h + 1) = b / N ^ (h + 1) % N := by
    rw [add_div_pow (by rwa [hb]), mod_pow_div]
  have hmod : (b % N ^ (h + 2) + j) % N ^ (h + 1) = b % N ^ (h + 1) + j := by
    rw [add_mod_pow (by rwa [hb]), mod_pow_mod]
  rw [lookup_succ ha, hdiv, hmod]

/-- The leaf block itself. -/
theorem lookup_one {a : A} (ha : a ≠ 0) (first k : Nat) :
    lookup N node 1 first a k = node 1 first a k := by
  rw [lookup_succ ha, Nat.pow_zero, Nat.div_one]
  rfl

/-! ### Positions in a tree -/

/-- The block of height `h'` whose first leaf is `first'` belongs to the
subtree of height `h` whose first leaf is `first`. -/
def Below (N h first h' first' : Nat) : Prop :=
  h' ≤ h ∧ ∃ m, first' = first + m * N ^ h' ∧ (m + 1) * N ^ h' ≤ N ^ h

theorem below_self (N h first : Nat) : Below N h first h first :=
  ⟨Nat.le_refl h, 0, by simp, by simp⟩

theorem Below.trans {h first h' first' h'' first'' : Nat} (h1 : Below N h first h' first')
    (h2 : Below N h' first' h'' first'') : Below N h first h'' first'' := by
  obtain ⟨hle, m, rfl, hm⟩ := h1
  obtain ⟨hle', m', rfl, hm'⟩ := h2
  have hpow : N ^ h' = N ^ (h' - h'') * N ^ h'' := by
    rw [← Nat.pow_add, Nat.sub_add_cancel hle']
  refine ⟨Nat.le_trans hle' hle, m * N ^ (h' - h'') + m', ?_, ?_⟩
  · rw [Nat.add_mul, Nat.mul_assoc, ← hpow, Nat.add_assoc]
  · calc (m * N ^ (h' - h'') + m' + 1) * N ^ h'' = m * N ^ h' + (m' + 1) * N ^ h'' := by
          rw [hpow]; ring
      _ ≤ m * N ^ h' + N ^ h' := Nat.add_le_add_left hm' _
      _ = (m + 1) * N ^ h' := by ring
      _ ≤ N ^ h := hm

theorem below_child {h q : Nat} (hq : q < N) (first : Nat) :
    Below N (h + 1) first h (first + q * N ^ h) :=
  ⟨Nat.le_succ h, q, rfl, by
    rw [Nat.pow_succ']
    exact Nat.mul_le_mul_right _ hq⟩

/-- What belongs to a child belongs to its parent. -/
theorem Below.of_child {h first q h' first' : Nat} (hq : q < N)
    (hb : Below N h (first + q * N ^ h) h' first') : Below N (h + 1) first h' first' :=
  (below_child hq first).trans hb

/-- The leaves of a block of the subtree are leaves of the subtree. -/
theorem Below.range {h first h' first' : Nat} (hb : Below N h first h' first') :
    first ≤ first' ∧ first' + N ^ h' ≤ first + N ^ h := by
  obtain ⟨-, m, rfl, hm⟩ := hb
  rw [Nat.add_mul, Nat.one_mul] at hm
  omega

/-- A lookup reads the blocks of its own subtree only. -/
theorem lookup_congr {node' : Nat → Nat → A → Nat → A} {h first : Nat}
    (heq : ∀ h' first', 1 ≤ h' → Below N h first h' first' → node' h' first' = node h' first')
    (a : A) {k : Nat} (hk : k < N ^ h) : lookup N node' h first a k = lookup N node h first a k := by
  induction h generalizing first a k with
  | zero => rfl
  | succ h ih =>
      by_cases ha : a = 0
      · rw [ha, lookup_null, lookup_null]
      · have hq : k / N ^ h < N := Nat.div_lt_of_lt_mul (by rwa [← Nat.pow_succ])
        have hpos : 0 < N ^ h := Nat.pos_of_ne_zero fun h0 => by
          rw [Nat.pow_succ, h0, Nat.zero_mul] at hk
          omega
        rw [lookup_succ ha, lookup_succ ha, heq _ _ (by omega) (below_self N (h + 1) first)]
        exact ih (fun h' first' h1 hb => heq h' first' h1 (hb.of_child hq)) _ (Nat.mod_lt _ hpos)

/-- Leaves below other slots do not notice what happens below slot `q`. -/
theorem lookup_other {node' : Nat → Nat → A → Nat → A} {h first q : Nat} {a : A} {k : Nat}
    (hk : k < N ^ (h + 1)) (hq : k / N ^ h ≠ q)
    (hslot : ∀ i, i ≠ q → node' (h + 1) first a i = node (h + 1) first a i)
    (hsub : ∀ i h' first', i < N → i ≠ q → 1 ≤ h' → Below N h (first + i * N ^ h) h' first' →
      node' h' first' = node h' first') :
    lookup N node' (h + 1) first a k = lookup N node (h + 1) first a k := by
  by_cases ha : a = 0
  · rw [ha, lookup_null, lookup_null]
  · have hlt : k / N ^ h < N := Nat.div_lt_of_lt_mul (by rwa [← Nat.pow_succ])
    have hpos : 0 < N ^ h := Nat.pos_of_ne_zero fun h0 => by
      rw [Nat.pow_succ, h0, Nat.zero_mul] at hk
      omega
    rw [lookup_succ ha, lookup_succ ha, hslot _ hq]
    exact lookup_congr (fun h' first' h1 hb => hsub _ h' first' hlt hq h1 hb) _ (Nat.mod_lt _ hpos)

/-- Below a block of null pointers there is nothing. -/
theorem lookup_cleared {h first : Nat} {a : A} (hz : ∀ i, node (h + 1) first a i = 0) (k : Nat) :
    lookup N node (h + 1) first a k = 0 := by
  rw [lookup, hz, lookup_null, ite_self]

/-! ### The path to a leaf -/

/-- The first leaf of the block of height `j` on the path to leaf `rel` of a
tree whose first leaf is `base`. -/
def pathFirst (N base rel j : Nat) : Nat := base + rel / N ^ j * N ^ j

theorem pathFirst_succ (base rel j : Nat) :
    pathFirst N base rel j = pathFirst N base rel (j + 1) + rel / N ^ j % N * N ^ j := by
  have hdiv : rel / N ^ j = N * (rel / N ^ (j + 1)) + rel / N ^ j % N := by
    rw [Nat.pow_succ, ← Nat.div_div_eq_div_mul, Nat.div_add_mod]
  unfold pathFirst
  conv_lhs => rw [hdiv]
  rw [Nat.pow_succ]
  ring

theorem pathFirst_top {base rel H : Nat} (h : rel < N ^ H) : pathFirst N base rel H = base := by
  rw [pathFirst, Nat.div_eq_of_lt h, Nat.zero_mul, Nat.add_zero]

/-- The blocks of the path belong to one another. -/
theorem below_pathFirst (hN : 0 < N) (base rel : Nat) {j H : Nat} (hj : j ≤ H) :
    Below N H (pathFirst N base rel H) j (pathFirst N base rel j) := by
  induction H with
  | zero =>
      obtain rfl : j = 0 := Nat.le_zero.mp hj
      exact below_self _ _ _
  | succ H ih =>
      rcases Nat.lt_or_ge j (H + 1) with h | h
      · have hb := ih (by omega)
        rw [pathFirst_succ base rel H] at hb
        exact hb.of_child (Nat.mod_lt _ hN)
      · obtain rfl : j = H + 1 := by omega
        exact below_self _ _ _

end UfsX.Lib.Radix
