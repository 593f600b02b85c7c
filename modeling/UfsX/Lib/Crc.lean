import Mathlib.Data.List.TakeDrop
import Mathlib.Data.Nat.Bitwise
import Mathlib.Logic.Function.Iterate

/-!
# `UfsX.Lib.Crc`: the shift register of a cyclic redundancy check

The register is a number of `w` bits, lowest bit first, and `poly` the polynomial without its
first term, also lowest bit first. `shift` is one step without input. It is linear over
exclusive or (`shift_xor`), so that a table of the shifts of each byte gives the shifts of a
number (`shifts_split`), and it can be undone if the last bit of `poly` is set (`shift_inj`).

`feed` is the register after a message. A bit of the message comes in at the lowest bit, and
`n` bits one after the other are the same as all of them at once before `n` shifts
(`feed_eq`). Two messages that differ in a burst of at most `w` bits thus leave different
registers (`feed_burst`). So do two that differ in an odd number of bits, if an odd number of
bits of `poly` is set (`parity_feed`).
-/

set_option autoImplicit false

namespace UfsX.Lib.Crc

/-- A sum without carries. -/
theorem two_pow_mul_xor (i a : Nat) {b : Nat} (hb : b < 2 ^ i) : 2 ^ i * a ^^^ b = 2 ^ i * a + b := by
  refine Nat.eq_of_testBit_eq fun j => ?_
  rw [Nat.testBit_xor, Nat.testBit_two_pow_mul_add a hb, Nat.testBit_two_pow_mul]
  by_cases hj : j < i
  · simp [hj, Nat.not_le_of_lt hj]
  · have hlow : b.testBit j = false :=
      Nat.testBit_lt_two_pow (Nat.lt_of_lt_of_le hb (Nat.pow_le_pow_right (by decide) (by omega)))
    simp [hj, hlow, Nat.le_of_not_lt hj]

section Shift

variable (poly : Nat)

def shift (c : Nat) : Nat := if c % 2 = 1 then (c >>> 1) ^^^ poly else c >>> 1

/-- `n` shifts. -/
def shifts (n : Nat) (c : Nat) : Nat := (shift poly)^[n] c

@[simp] theorem shifts_zero (c : Nat) : shifts poly 0 c = c := rfl

theorem shifts_succ (n c : Nat) : shifts poly (n + 1) c = shifts poly n (shift poly c) := rfl

theorem shifts_add (m n c : Nat) : shifts poly (m + n) c = shifts poly m (shifts poly n c) :=
  Function.iterate_add_apply ..

theorem shift_xor (a b : Nat) : shift poly (a ^^^ b) = shift poly a ^^^ shift poly b := by
  have hmod : (a ^^^ b) % 2 = a % 2 ^^^ b % 2 := Nat.xor_mod_two_pow (n := 1)
  unfold shift
  rw [hmod, Nat.shiftRight_xor_distrib]
  rcases Nat.mod_two_eq_zero_or_one a with ha | ha <;> rcases Nat.mod_two_eq_zero_or_one b with hb | hb
  · simp [ha, hb]
  · simp [ha, hb, Nat.xor_assoc]
  · simp [ha, hb, Nat.xor_comm, Nat.xor_left_comm]
  · simp [ha, hb, Nat.xor_comm, Nat.xor_left_comm]

theorem shifts_xor (n a b : Nat) : shifts poly n (a ^^^ b) = shifts poly n a ^^^ shifts poly n b := by
  induction n generalizing a b with
  | zero => rfl
  | succ n ih => rw [shifts_succ, shifts_succ, shifts_succ, shift_xor, ih]

theorem shift_two_mul (c : Nat) : shift poly (2 * c) = c := by
  unfold shift
  rw [if_neg (by omega), Nat.shiftRight_one, Nat.mul_div_cancel_left c (by decide)]

/-- Bits that do not reach the lowest place come out as they are. -/
theorem shifts_mul_two_pow (n c : Nat) : shifts poly n (2 ^ n * c) = c := by
  induction n with
  | zero => rw [Nat.pow_zero, Nat.one_mul, shifts_zero]
  | succ n ih => rw [shifts_succ, Nat.pow_succ', Nat.mul_assoc, shift_two_mul, ih]

/-- The lowest `n` bits are shifted out, and the others come down. -/
theorem shifts_split (n c : Nat) : shifts poly n c = shifts poly n (c % 2 ^ n) ^^^ (c >>> n) := by
  have hsplit : c = c % 2 ^ n ^^^ 2 ^ n * (c >>> n) := by
    rw [Nat.xor_comm, Nat.shiftRight_eq_div_pow, two_pow_mul_xor n _ (Nat.mod_lt c (Nat.two_pow_pos n))]
    exact (Nat.div_add_mod c (2 ^ n)).symm
  calc shifts poly n c = shifts poly n (c % 2 ^ n ^^^ 2 ^ n * (c >>> n)) := by rw [← hsplit]
    _ = shifts poly n (c % 2 ^ n) ^^^ (c >>> n) := by rw [shifts_xor, shifts_mul_two_pow]

end Shift

/-! ### Registers of `w` bits -/

section Width

variable {poly w : Nat}

theorem shift_lt (hpoly : poly < 2 ^ w) {c : Nat} (hc : c < 2 ^ w) : shift poly c < 2 ^ w := by
  have hhalf : c >>> 1 < 2 ^ w := Nat.lt_of_le_of_lt (Nat.shiftRight_le ..) hc
  unfold shift
  split
  · exact Nat.xor_lt_two_pow hhalf hpoly
  · exact hhalf

/-- Nothing but zero is shifted to zero: an odd number brings in the last bit of `poly`. -/
theorem shift_eq_zero (htop : 2 ^ (w - 1) ≤ poly) {c : Nat} (hc : c < 2 ^ w) (h : shift poly c = 0) : c = 0 := by
  unfold shift at h
  rw [Nat.shiftRight_one] at h
  split at h
  case isTrue hodd =>
    have heq := Nat.xor_eq_zero_iff.mp h
    cases w with
    | zero => omega
    | succ w =>
        rw [Nat.pow_succ] at hc
        rw [Nat.add_sub_cancel] at htop
        omega
  case isFalse heven => omega

theorem shift_inj (htop : 2 ^ (w - 1) ≤ poly) {a b : Nat} (ha : a < 2 ^ w) (hb : b < 2 ^ w)
    (h : shift poly a = shift poly b) : a = b := by
  refine Nat.xor_eq_zero_iff.mp (shift_eq_zero htop (Nat.xor_lt_two_pow ha hb) ?_)
  rw [shift_xor, h, Nat.xor_self]

theorem shifts_inj (hpoly : poly < 2 ^ w) (htop : 2 ^ (w - 1) ≤ poly) (n : Nat) {a b : Nat} (ha : a < 2 ^ w)
    (hb : b < 2 ^ w) (h : shifts poly n a = shifts poly n b) : a = b := by
  induction n generalizing a b with
  | zero => exact h
  | succ n ih => exact shift_inj htop ha hb (ih (shift_lt hpoly ha) (shift_lt hpoly hb) h)

end Width

/-! ### Messages -/

/-- The number with these bits, lowest first. -/
def ofBits : List Bool → Nat
  | [] => 0
  | b :: bits => b.toNat ^^^ 2 * ofBits bits

theorem ofBits_cons (b : Bool) (bits : List Bool) : ofBits (b :: bits) = b.toNat ^^^ 2 * ofBits bits := rfl

theorem bit_xor (b : Bool) (n : Nat) : b.toNat ^^^ 2 * n = 2 * n + b.toNat := by
  rw [Nat.xor_comm]
  exact two_pow_mul_xor 1 n (Bool.toNat_lt b)

theorem ofBits_lt (bits : List Bool) : ofBits bits < 2 ^ bits.length := by
  induction bits with
  | nil => decide
  | cons b bits ih =>
      have hb := Bool.toNat_lt b
      rw [ofBits_cons, bit_xor, List.length_cons, Nat.pow_succ]
      omega

theorem ofBits_inj {bits bits' : List Bool} (hlen : bits.length = bits'.length) (h : ofBits bits = ofBits bits') :
    bits = bits' := by
  induction bits generalizing bits' with
  | nil => exact (List.length_eq_zero_iff.mp hlen.symm).symm
  | cons b bits ih =>
      cases bits' with
      | nil => exact absurd hlen (Nat.succ_ne_zero _)
      | cons b' bits' =>
          rw [ofBits_cons, ofBits_cons, bit_xor, bit_xor] at h
          have hb := Bool.toNat_lt b
          have hb' := Bool.toNat_lt b'
          have hhead : b = b' := by
            have hnat : b.toNat = b'.toNat := by omega
            revert hnat
            cases b <;> cases b' <;> decide
          rw [hhead, ih (Nat.succ.inj hlen) (by omega)]

/-- The lowest `n` bits of a number. -/
theorem ofBits_testBit (n x : Nat) : ofBits ((List.range n).map x.testBit) = x % 2 ^ n := by
  induction n generalizing x with
  | zero => exact (Nat.mod_one x).symm
  | succ n ih =>
      have hrest : (List.range n).map (x.testBit ∘ Nat.succ) = (List.range n).map (x / 2).testBit :=
        List.map_congr_left fun i _ => Nat.testBit_succ x i
      have hlow : (x.testBit 0).toNat = x % 2 := by
        rw [Nat.testBit_zero]
        rcases Nat.mod_two_eq_zero_or_one x with h | h
        · rw [h]; rfl
        · rw [h]; rfl
      rw [List.range_succ_eq_map, List.map_cons, List.map_map, hrest]
      rw [ofBits_cons, bit_xor, ih, hlow, Nat.pow_succ', Nat.mod_mul]
      exact Nat.add_comm ..

section Feed

variable (poly : Nat)

/-- The register after a message. -/
def feed (c : Nat) (bits : List Bool) : Nat := bits.foldl (fun c b => shift poly (c ^^^ b.toNat)) c

theorem feed_append (c : Nat) (bits bits' : List Bool) :
    feed poly c (bits ++ bits') = feed poly (feed poly c bits) bits' := List.foldl_append

theorem feed_eq (c : Nat) (bits : List Bool) : feed poly c bits = shifts poly bits.length (c ^^^ ofBits bits) := by
  induction bits generalizing c with
  | nil => exact (Nat.xor_zero c).symm
  | cons b bits ih =>
      have hshift : shift poly (c ^^^ b.toNat) ^^^ ofBits bits = shift poly (c ^^^ ofBits (b :: bits)) := by
        rw [ofBits_cons, ← Nat.xor_assoc, shift_xor poly (c ^^^ b.toNat), shift_two_mul]
      show feed poly (shift poly (c ^^^ b.toNat)) bits = shifts poly bits.length (shift poly (c ^^^ ofBits (b :: bits)))
      rw [ih, hshift]

variable {poly} {w : Nat}

theorem feed_lt (hpoly : poly < 2 ^ w) (hw : 0 < w) {c : Nat} (hc : c < 2 ^ w) (bits : List Bool) :
    feed poly c bits < 2 ^ w := by
  induction bits generalizing c with
  | nil => exact hc
  | cons b bits ih =>
      have hb : b.toNat < 2 ^ w := Nat.lt_of_lt_of_le (Bool.toNat_lt b) (Nat.le_self_pow hw.ne' 2)
      exact ih (shift_lt hpoly (Nat.xor_lt_two_pow hc hb))

/-- The same bits behind different registers. -/
theorem feed_inj (hpoly : poly < 2 ^ w) (htop : 2 ^ (w - 1) ≤ poly) (hw : 0 < w) (bits : List Bool) {c c' : Nat}
    (hc : c < 2 ^ w) (hc' : c' < 2 ^ w) (h : feed poly c bits = feed poly c' bits) : c = c' := by
  induction bits generalizing c c' with
  | nil => exact h
  | cons b bits ih =>
      have hb : b.toNat < 2 ^ w := Nat.lt_of_lt_of_le (Bool.toNat_lt b) (Nat.le_self_pow hw.ne' 2)
      have hx := Nat.xor_lt_two_pow hc hb
      have hx' := Nat.xor_lt_two_pow hc' hb
      exact Nat.xor_left_injective (shift_inj htop hx hx' (ih (shift_lt hpoly hx) (shift_lt hpoly hx') h))

/-- A burst is seen. -/
theorem feed_burst (hpoly : poly < 2 ^ w) (htop : 2 ^ (w - 1) ≤ poly) (hw : 0 < w) {c : Nat} (hc : c < 2 ^ w)
    (pre post : List Bool) {mid mid' : List Bool} (hlen : mid.length = mid'.length) (hle : mid.length ≤ w)
    (h : feed poly c (pre ++ mid ++ post) = feed poly c (pre ++ mid' ++ post)) : mid = mid' := by
  have hpre := feed_lt hpoly hw hc pre
  simp only [feed_append] at h
  have hmid := feed_inj hpoly htop hw post (feed_lt hpoly hw hpre mid) (feed_lt hpoly hw hpre mid') h
  have hbits : ofBits mid < 2 ^ w := Nat.lt_of_lt_of_le (ofBits_lt mid) (Nat.pow_le_pow_right (by decide) hle)
  have hbits' : ofBits mid' < 2 ^ w :=
    Nat.lt_of_lt_of_le (ofBits_lt mid') (Nat.pow_le_pow_right (by decide) (hlen ▸ hle))
  rw [feed_eq poly _ mid, feed_eq poly _ mid', ← hlen] at hmid
  exact ofBits_inj hlen (Nat.xor_right_injective
    (shifts_inj hpoly htop mid.length (Nat.xor_lt_two_pow hpre hbits) (Nat.xor_lt_two_pow hpre hbits') hmid))

/-- Two messages of one length that differ at most in `w` bits from `p` on, and leave the same
register, are the same. -/
theorem feed_window (hpoly : poly < 2 ^ w) (htop : 2 ^ (w - 1) ≤ poly) (hw : 0 < w) {c : Nat} (hc : c < 2 ^ w)
    {bits bits' : List Bool} (hlen : bits.length = bits'.length) (p : Nat)
    (hsame : ∀ i, i < p ∨ p + w ≤ i → bits[i]? = bits'[i]?)
    (h : feed poly c bits = feed poly c bits') : bits = bits' := by
  have hcut (l : List Bool) : l = l.take p ++ (l.drop p).take w ++ l.drop (p + w) := by
    rw [List.append_assoc, ← List.drop_drop, List.take_append_drop, List.take_append_drop]
  have hpre : bits.take p = bits'.take p := by
    refine List.ext_getElem? fun i => ?_
    rw [List.getElem?_take, List.getElem?_take]
    split
    case isTrue hlt => exact hsame i (Or.inl hlt)
    case isFalse => rfl
  have hpost : bits.drop (p + w) = bits'.drop (p + w) := by
    refine List.ext_getElem? fun i => ?_
    rw [List.getElem?_drop, List.getElem?_drop]
    exact hsame _ (Or.inr (by omega))
  have hmid : (bits.drop p).take w = (bits'.drop p).take w := by
    rw [hcut bits, hcut bits', hpre, hpost] at h
    refine feed_burst hpoly htop hw hc _ _ ?_ (List.length_take_le ..) h
    rw [List.length_take, List.length_take, List.length_drop, List.length_drop, hlen]
  rw [hcut bits, hcut bits', hpre, hmid, hpost]

end Feed

/-! ### Parity

If an odd number of bits of `poly` is set, a shift keeps the parity of the register, and every bit
of a message that is set changes it. -/

/-- Whether an odd number of bits is set. -/
def parity (n : Nat) : Bool := if n = 0 then false else n.testBit 0 ^^ parity (n / 2)

theorem parity_zero : parity 0 = false := by
  rw [parity, if_pos rfl]

theorem parity_div (n : Nat) : parity n = (n.testBit 0 ^^ parity (n / 2)) := by
  by_cases hn : n = 0
  · rw [hn, Nat.zero_testBit, Nat.zero_div, Bool.false_xor]
  · rw [parity, if_neg hn]

theorem parity_xor (a b : Nat) : parity (a ^^^ b) = (parity a ^^ parity b) := by
  induction a using Nat.strongRecOn generalizing b with
  | ind a ih =>
      by_cases ha : a = 0
      · rw [ha, Nat.zero_xor, parity_zero, Bool.false_xor]
      · have hdiv : (a ^^^ b) / 2 = a / 2 ^^^ b / 2 := Nat.xor_div_two_pow (n := 1)
        rw [parity_div (a ^^^ b), parity_div a, parity_div b, Nat.testBit_xor, hdiv, ih (a / 2) (by omega)]
        cases a.testBit 0 <;> cases b.testBit 0 <;> cases parity (a / 2) <;> cases parity (b / 2) <;> rfl

theorem parity_bit (b : Bool) : parity b.toNat = b := by
  rw [parity_div]
  cases b <;> exact congrArg _ parity_zero

theorem parity_two_mul (n : Nat) : parity (2 * n) = parity n := by
  rw [parity_div, Nat.mul_div_cancel_left n (by decide), Nat.testBit_zero, Nat.mul_mod_right]
  exact Bool.false_xor _

theorem parity_two_pow_mul (k n : Nat) : parity (2 ^ k * n) = parity n := by
  induction k with
  | zero => rw [Nat.pow_zero, Nat.one_mul]
  | succ k ih => rw [Nat.pow_succ', Nat.mul_assoc, parity_two_mul, ih]

theorem parity_ofBits_cons (b : Bool) (bits : List Bool) :
    parity (ofBits (b :: bits)) = (b ^^ parity (ofBits bits)) := by
  rw [ofBits_cons, parity_xor, parity_bit, parity_two_mul]

theorem parity_ofBits_append (bits bits' : List Bool) :
    parity (ofBits (bits ++ bits')) = (parity (ofBits bits) ^^ parity (ofBits bits')) := by
  induction bits with
  | nil =>
      show _ = (parity 0 ^^ _)
      rw [parity_zero, Bool.false_xor, List.nil_append]
  | cons b bits ih => rw [List.cons_append, parity_ofBits_cons, parity_ofBits_cons, ih, Bool.xor_assoc]

section Odd

variable {poly : Nat} (hodd : parity poly = true)
include hodd

theorem parity_shift (c : Nat) : parity (shift poly c) = parity c := by
  have hbit : c.testBit 0 = decide (c % 2 = 1) := Nat.testBit_zero c
  rw [parity_div c, hbit]
  unfold shift
  rw [Nat.shiftRight_one]
  split
  case isTrue hc => rw [parity_xor, hodd, decide_eq_true hc, Bool.xor_comm]
  case isFalse hc => rw [decide_eq_false hc, Bool.false_xor]

theorem parity_feed (c : Nat) (bits : List Bool) : parity (feed poly c bits) = (parity c ^^ parity (ofBits bits)) := by
  induction bits generalizing c with
  | nil =>
      show parity c = (parity c ^^ parity 0)
      rw [parity_zero, Bool.xor_false]
  | cons b bits ih =>
      show parity (feed poly (shift poly (c ^^^ b.toNat)) bits) = _
      rw [ih, parity_shift hodd, parity_xor, parity_bit, parity_ofBits_cons, Bool.xor_assoc]

end Odd

/-- Two messages with the same places, bit by bit: the parities differ as often as the bits do. -/
theorem parity_diff (f g : Nat → Bool) (places : List Nat) :
    (parity (ofBits (places.map f)) ^^ parity (ofBits (places.map g)))
      = decide ((places.countP fun i => f i != g i) % 2 = 1) := by
  induction places with
  | nil => exact congrArg₂ _ parity_zero parity_zero
  | cons i places ih =>
      rw [List.map_cons, List.map_cons, parity_ofBits_cons, parity_ofBits_cons, List.countP_cons]
      rw [show ((f i ^^ parity (ofBits (places.map f))) ^^ (g i ^^ parity (ofBits (places.map g))))
        = ((f i ^^ g i) ^^ (parity (ofBits (places.map f)) ^^ parity (ofBits (places.map g)))) from by
          rw [Bool.xor_assoc, Bool.xor_left_comm (parity _), ← Bool.xor_assoc], ih]
      have hodd (n : Nat) : decide ((n + 1) % 2 = 1) = !decide (n % 2 = 1) := by
        rw [← decide_not]
        exact decide_eq_decide.mpr (by omega)
      cases f i <;> cases g i <;> simp [hodd]

end UfsX.Lib.Crc
