import Mathlib.Data.Nat.Basic
import Mathlib.Logic.Function.Basic
import Mathlib.Tactic.IntervalCases

/-!
# `UfsX.Lib.Bitmap`: byte-addressed bit maps

A map is a function from byte index to byte, and bit `i` is bit `i % 8` of
byte `i / 8`, the convention of the `isset` / `setbit` / `clrbit` macros of
`sys/param.h`. The lemmas read a bit back after each update, so that later
proofs never unfold a byte.

`getLsbD_byte` goes the other way, from a byte of the map to its bits, for a
scan that looks a whole byte up in a table. The `mask` lemmas are for a loop
that carries a byte and a one-bit mask along.
-/

set_option autoImplicit false

namespace UfsX.Lib

/-- A bit map stored as bytes. Bytes past the end of the real object are
whatever the memory holds there; no lemma reads them. -/
abbrev Bitmap := Nat → BitVec 8

namespace Bitmap

/-- Bit `i` of the map. -/
def isset (m : Bitmap) (i : Nat) : Bool := (m (i / 8)).getLsbD (i % 8)

/-- `isclr` is the negation of `isset`. -/
def isclr (m : Bitmap) (i : Nat) : Bool := !m.isset i

/-- Set bit `i`. -/
def setbit (m : Bitmap) (i : Nat) : Bitmap :=
  Function.update m (i / 8) (m (i / 8) ||| (1#8 <<< (i % 8)))

/-- Clear bit `i`. -/
def clrbit (m : Bitmap) (i : Nat) : Bitmap :=
  Function.update m (i / 8) (m (i / 8) &&& ~~~(1#8 <<< (i % 8)))

/-- The single-bit mask `1 << k` has bit `j` exactly at `j = k`. -/
theorem getLsbD_one_shiftLeft (k j : Nat) (hj : j < 8) :
    (1#8 <<< k).getLsbD j = decide (j = k) := by
  rw [BitVec.getLsbD_shiftLeft]
  by_cases h : j = k
  · subst h
    simp [hj]
  · by_cases hlt : j < k
    · simp [h, hlt]
    · have h1 : ¬ (j - k = 0) := by omega
      simp [h, BitVec.getLsbD_one, h1]

/-- Setting bit `i` turns on bit `i` and leaves every other bit. -/
@[simp] theorem isset_setbit (m : Bitmap) (i j : Nat) :
    (m.setbit i).isset j = (decide (j = i) || m.isset j) := by
  unfold isset setbit
  by_cases hb : j / 8 = i / 8
  · rw [hb, Function.update_self, BitVec.getLsbD_or,
      getLsbD_one_shiftLeft _ _ (Nat.mod_lt _ (by decide)), Bool.or_comm]
    congr 1
    exact decide_eq_decide.mpr (by omega)
  · rw [Function.update_of_ne hb]
    have hne : j ≠ i := fun h => hb (by rw [h])
    simp [hne]

/-- Clearing bit `i` turns off bit `i` and leaves every other bit. -/
@[simp] theorem isset_clrbit (m : Bitmap) (i j : Nat) :
    (m.clrbit i).isset j = (!decide (j = i) && m.isset j) := by
  unfold isset clrbit
  by_cases hb : j / 8 = i / 8
  · rw [hb, Function.update_self, BitVec.getLsbD_and, BitVec.getLsbD_not,
      getLsbD_one_shiftLeft _ _ (Nat.mod_lt _ (by decide)), Bool.and_comm]
    have hlt : j % 8 < 8 := Nat.mod_lt _ (by decide)
    have hdec : decide (j % 8 = i % 8) = decide (j = i) :=
      decide_eq_decide.mpr (by omega)
    simp [hlt, hdec]
  · rw [Function.update_of_ne hb]
    have hne : j ≠ i := fun h => hb (by rw [h])
    simp [hne]

/-- Set the `n` bits from `i` on, lowest first, the way the source's loops
do. -/
def setRange (m : Bitmap) (i : Nat) : Nat → Bitmap
  | 0 => m
  | n + 1 => (setRange m i n).setbit (i + n)

/-- Clear the `n` bits from `i` on, lowest first. -/
def clrRange (m : Bitmap) (i : Nat) : Nat → Bitmap
  | 0 => m
  | n + 1 => (clrRange m i n).clrbit (i + n)

@[simp] theorem isset_setRange (m : Bitmap) (i n j : Nat) :
    (m.setRange i n).isset j = (decide (i ≤ j ∧ j < i + n) || m.isset j) := by
  induction n with
  | zero =>
      have hno : ¬ (i ≤ j ∧ j < i + 0) := by omega
      rw [setRange, decide_eq_false hno, Bool.false_or]
  | succ n ih =>
      rw [setRange, isset_setbit, ih, ← Bool.or_assoc]
      congr 1
      by_cases hj : j = i + n
      · subst hj
        simp
      · have hiff : (i ≤ j ∧ j < i + n) ↔ (i ≤ j ∧ j < i + (n + 1)) := by omega
        simp [hj, hiff]

@[simp] theorem isset_clrRange (m : Bitmap) (i n j : Nat) :
    (m.clrRange i n).isset j = (!decide (i ≤ j ∧ j < i + n) && m.isset j) := by
  induction n with
  | zero =>
      have hno : ¬ (i ≤ j ∧ j < i + 0) := by omega
      rw [clrRange, decide_eq_false hno, Bool.not_false, Bool.true_and]
  | succ n ih =>
      rw [clrRange, isset_clrbit, ih, ← Bool.and_assoc]
      congr 1
      by_cases hj : j = i + n
      · subst hj
        simp
      · have hiff : (i ≤ j ∧ j < i + n) ↔ (i ≤ j ∧ j < i + (n + 1)) := by omega
        simp [hj, hiff]

/-- Bit `j` of byte `i` is bit `8 * i + j` of the map. -/
theorem getLsbD_byte (m : Bitmap) (i j : Nat) (hj : j < 8) :
    (m i).getLsbD j = m.isset (8 * i + j) := by
  unfold isset
  rw [show (8 * i + j) / 8 = i from by omega, show (8 * i + j) % 8 = j from by omega]

/-! ### Walking a map bit by bit

A loop over consecutive bits keeps the current byte and a one-bit mask, and
fetches the next byte after bit 7. -/

/-- Testing the mask of bit `i` in its byte reads the bit. -/
theorem and_mask_beq_zero (m : Bitmap) (i : Nat) :
    (m (i / 8) &&& (1#8 <<< (i % 8)) == 0#8) = !m.isset i := by
  have hlt : i % 8 < 8 := Nat.mod_lt _ (by decide)
  rw [Bool.eq_iff_iff, beq_iff_eq, Bool.not_eq_true']
  constructor
  · intro h
    have hbit := congrArg (fun x => BitVec.getLsbD x (i % 8)) h
    simp only [BitVec.getLsbD_and, BitVec.getLsbD_zero, getLsbD_one_shiftLeft _ _ hlt,
      decide_true, Bool.and_true] at hbit
    exact hbit
  · intro h
    refine BitVec.eq_of_getLsbD_eq fun j hj => ?_
    rw [BitVec.getLsbD_and, getLsbD_one_shiftLeft _ _ hj, BitVec.getLsbD_zero]
    by_cases hji : j = i % 8
    · rw [hji, show (m (i / 8)).getLsbD (i % 8) = false from h, Bool.false_and]
    · rw [decide_eq_false hji, Bool.and_false]

/-- Inside a byte the mask moves up by one. -/
theorem mask_up {i : Nat} (h : i &&& 7 ≠ 7) :
    (i + 1) / 8 = i / 8 ∧ 1#8 <<< (i % 8) <<< 1 = 1#8 <<< ((i + 1) % 8) := by
  rw [show i &&& 7 = i % 8 from Nat.and_two_pow_sub_one_eq_mod i 3] at h
  refine ⟨by omega, ?_⟩
  rw [← BitVec.shiftLeft_add, show (i + 1) % 8 = i % 8 + 1 from by omega]

/-- After the last bit of a byte the mask starts again. -/
theorem mask_up_wrap {i : Nat} (h : ¬ i &&& 7 ≠ 7) :
    (i + 1) / 8 = i / 8 + 1 ∧ 1#8 = 1#8 <<< ((i + 1) % 8) := by
  rw [show i &&& 7 = i % 8 from Nat.and_two_pow_sub_one_eq_mod i 3] at h
  refine ⟨by omega, ?_⟩
  rw [show (i + 1) % 8 = 0 from by omega]
  rfl

/-- Inside a byte the mask moves down by one. -/
theorem mask_down {i : Nat} (h : i &&& 7 ≠ 0) :
    (i - 1) / 8 = i / 8 ∧ 1#8 <<< (i % 8) >>> 1 = 1#8 <<< ((i - 1) % 8) := by
  rw [show i &&& 7 = i % 8 from Nat.and_two_pow_sub_one_eq_mod i 3] at h
  refine ⟨by omega, ?_⟩
  rw [show (i - 1) % 8 = i % 8 - 1 from by omega]
  have hlt : i % 8 < 8 := Nat.mod_lt _ (by decide)
  generalize i % 8 = r at h hlt
  interval_cases r <;> first | exact absurd rfl h | rfl

/-- Below the first bit of a byte the mask starts again at the top. -/
theorem mask_down_wrap {i : Nat} (h : ¬ i &&& 7 ≠ 0) (hi : 0 < i) :
    (i - 1) / 8 = i / 8 - 1 ∧ 0x80#8 = 1#8 <<< ((i - 1) % 8) := by
  rw [show i &&& 7 = i % 8 from Nat.and_two_pow_sub_one_eq_mod i 3] at h
  refine ⟨by omega, ?_⟩
  rw [show (i - 1) % 8 = 7 from by omega]
  rfl

/-- The map with the given bits. -/
def ofFun (g : Nat → Bool) : Bitmap := fun i =>
  BitVec.ofBoolListLE [g (8 * i), g (8 * i + 1), g (8 * i + 2), g (8 * i + 3), g (8 * i + 4),
    g (8 * i + 5), g (8 * i + 6), g (8 * i + 7)]

@[simp] theorem isset_ofFun (g : Nat → Bool) (i : Nat) : (ofFun g).isset i = g i := by
  have hlt : i % 8 < 8 := Nat.mod_lt _ (by decide)
  have hdiv : 8 * (i / 8) + i % 8 = i := Nat.div_add_mod i 8
  unfold isset ofFun
  rw [BitVec.getLsbD_ofBoolListLE]
  generalize i % 8 = r at hlt hdiv
  generalize i / 8 = q at hdiv
  subst hdiv
  interval_cases r <;> rfl

end Bitmap

end UfsX.Lib
