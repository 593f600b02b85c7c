import Mathlib.Data.Int.Basic
import Mathlib.Tactic.Ring

/-!
# `UfsX.Lib.CInt`: conversions between C integer types

A C value is modelled by the integer it denotes, and a conversion to a fixed
width by the integer the converted value denotes: reduction modulo `2 ^ w`
into the unsigned range, or into the signed range (two's complement).

The lemmas say when a conversion loses nothing, which is what a proof about
a narrowing assignment needs, and when it does. Where the question is whether an
operation overflows at all, its result is an `Option`.
-/

set_option autoImplicit false

namespace UfsX.Lib

/-- Conversion to `uint32_t`. -/
def toU32 (x : Int) : Int := x % 2 ^ 32

/-- Conversion to `uint64_t`. -/
def toU64 (x : Int) : Int := x % 2 ^ 64

/-- Conversion to `int32_t`. -/
def toI32 (x : Int) : Int := Int.bmod x (2 ^ 32)

/-- Conversion to `int64_t`. -/
def toI64 (x : Int) : Int := Int.bmod x (2 ^ 64)

theorem toU32_eq_self {x : Int} (h0 : 0 ≤ x) (h1 : x < 2 ^ 32) : toU32 x = x :=
  Int.emod_eq_of_lt h0 h1

theorem toU64_eq_self {x : Int} (h0 : 0 ≤ x) (h1 : x < 2 ^ 64) : toU64 x = x :=
  Int.emod_eq_of_lt h0 h1

theorem toI32_eq_self {x : Int} (h0 : -2 ^ 31 ≤ x) (h1 : x < 2 ^ 31) : toI32 x = x := by
  unfold toI32
  rw [Int.bmod_def]
  split <;> omega

theorem toI32_bounds (x : Int) : -2 ^ 31 ≤ toI32 x ∧ toI32 x < 2 ^ 31 := by
  unfold toI32
  rw [Int.bmod_def]
  split <;> omega

theorem toI64_eq_self {x : Int} (h0 : -2 ^ 63 ≤ x) (h1 : x < 2 ^ 63) : toI64 x = x := by
  unfold toI64
  rw [Int.bmod_def]
  split <;> omega

/-- Going through `int32_t` does not change the low 32 bits. -/
theorem toU32_toI32 (x : Int) : toU32 (toI32 x) = toU32 x := Int.bmod_emod

theorem toI32_toI32_mul (x y : Int) : toI32 (toI32 x * y) = toI32 (x * y) := Int.bmod_mul_bmod

theorem toU32_toU32_mul (x y : Int) : toU32 (toU32 x * y) = toU32 (x * y) := by
  unfold toU32
  rw [Int.mul_emod, Int.emod_emod_of_dvd x (Int.dvd_refl _), ← Int.mul_emod]

theorem toU32_lt (x : Int) : toU32 x < 2 ^ 32 := Int.emod_lt_of_pos _ (by decide)

/-! ### Operations that must not overflow -/

/-- A value of type `int32_t`, `none` when it is not one. -/
def i32 (x : Int) : Option Int := if -2 ^ 31 ≤ x ∧ x < 2 ^ 31 then some x else none

/-- A value of type `int64_t`, `none` when it is not one. -/
def i64 (x : Int) : Option Int := if -2 ^ 63 ≤ x ∧ x < 2 ^ 63 then some x else none

/-- Division of `int64_t` values, which rounds towards 0. -/
def div64 (x y : Int) : Option Int := if y = 0 then none else i64 (x.tdiv y)

/-- Remainder of `int64_t` values. -/
def mod64 (x y : Int) : Option Int := if y = 0 then none else i64 (x.tmod y)

theorem i32_eq_some {x : Int} (h0 : -2 ^ 31 ≤ x) (h1 : x < 2 ^ 31) : i32 x = some x := if_pos ⟨h0, h1⟩

theorem i64_eq_some {x : Int} (h0 : -2 ^ 63 ≤ x) (h1 : x < 2 ^ 63) : i64 x = some x := if_pos ⟨h0, h1⟩

theorem div64_natCast {m n : Nat} (hn : 0 < n) (hm : m < 2 ^ 63) : div64 (m : Int) (n : Int) = some ((m / n : Nat) : Int) := by
  have hle : m / n ≤ m := Nat.div_le_self m n
  rw [div64, if_neg (by omega), ← Int.ofNat_tdiv]
  generalize m / n = q at hle ⊢
  exact i64_eq_some (by omega) (by omega)

theorem mod64_natCast {m n : Nat} (hn : 0 < n) (hm : m < 2 ^ 63) : mod64 (m : Int) (n : Int) = some ((m % n : Nat) : Int) := by
  have hle : m % n ≤ m := Nat.mod_le m n
  rw [mod64, if_neg (by omega), ← Int.ofNat_tmod]
  generalize m % n = r at hle ⊢
  exact i64_eq_some (by omega) (by omega)

end UfsX.Lib
