import UfsX.Proofs.InodeLock
import UfsX.Ufs.TidString

/-!
# `UfsX.Proofs.TidString`: a thread id is written in decimal

The first loop leaves the digits in the scratch array, the lowest one first
(`digitLoop_spec`), and the second copies them back in the other order
(`copyLoop_spec`). So the buffer holds the decimal number and zeros
(`tidString_eq`), and the number can be read back from the key, which makes the keys of two
threads different (`tidString_decimal`).

An id that is not positive would get the empty key.
-/

set_option autoImplicit false

namespace UfsX.Proofs.TidString

open UfsX.Ufs.TidString

/-- The decimal representation of a number, without leading zeros. -/
structure IsDecimal (num : Nat) (key : List UInt8) : Prop where
  digits : ∀ c ∈ key, 0x30 ≤ c.toNat ∧ c.toNat ≤ 0x39
  value : key.foldl (fun v c => 10 * v + (c.toNat - 0x30)) 0 = num
  noLeadingZero : key.head? ≠ some 0x30

/-! ### The digits -/

/-- The character of a digit. -/
def char (d : Nat) : UInt8 := UInt8.ofNat (d + 0x30)

theorem char_toNat {d : Nat} (hd : d < 10) : (char d).toNat = d + 0x30 := by
  show (d + 0x30) % 2 ^ 8 = d + 0x30
  omega

/-- The digits, lowest first. -/
def low (num : Nat) : List UInt8 := (Nat.digits 10 num).map char

theorem low_zero : low 0 = [] := rfl

theorem low_of_pos {num : Nat} (h : 0 < num) : low num = char (num % 10) :: low (num / 10) := by
  simp only [low, Nat.digits_def' (by decide : 1 < 10) h, List.map_cons]

theorem length_low {num : Nat} (h : num < 2 ^ 63) : (low num).length ≤ 19 := by
  have hpow : (Nat.digits 10 num).length ≤ 19 :=
    (Nat.digits_length_le_iff (by decide) num).mpr (by omega)
  simpa only [low, List.length_map] using hpow

theorem isDecimal_low (num : Nat) (h : 0 < num) : IsDecimal num (low num).reverse where
  digits := by
    intro c hc
    obtain ⟨d, hd, rfl⟩ := List.mem_map.mp (List.mem_reverse.mp hc)
    have hlt := Nat.digits_lt_base (by decide) hd
    rw [char_toNat hlt]
    omega
  value := by
    -- the fold over the reversed digits is `Nat.ofDigits`
    have hfold : ∀ ds : List Nat, (∀ d ∈ ds, d < 10) →
        (ds.map char).reverse.foldl (fun v c => 10 * v + (c.toNat - 0x30)) 0 = Nat.ofDigits 10 ds := by
      intro ds
      induction ds with
      | nil =>
          intro _
          rfl
      | cons d ds ih =>
          intro hds
          have hd := hds d List.mem_cons_self
          have htail := ih fun d' hd' => hds d' (List.mem_cons_of_mem _ hd')
          simp only [List.map_cons, List.reverse_cons, List.foldl_append, htail, List.foldl_cons,
            List.foldl_nil, char_toNat hd, Nat.add_sub_cancel, Nat.ofDigits_cons]
          simp [Nat.add_comm]
    rw [low, hfold _ fun d hd => Nat.digits_lt_base (by decide) hd, Nat.ofDigits_digits]
  noLeadingZero := by
    -- the first character is the highest digit
    intro hhead
    have hne : Nat.digits 10 num ≠ [] := Nat.digits_ne_nil_iff_ne_zero.mpr h.ne'
    have hlast := Nat.getLast_digit_ne_zero 10 h.ne'
    have hlt := Nat.digits_lt_base (by decide) (List.getLast_mem hne)
    rw [List.head?_reverse, low, List.getLast?_map, List.getLast?_eq_some_getLast hne,
      Option.map_some] at hhead
    have hnat := congrArg UInt8.toNat (Option.some.inj hhead)
    rw [char_toNat hlt] at hnat
    have h48 : (0x30 : UInt8).toNat = 0x30 := rfl
    omega

/-- No two numbers have the same decimal representation. -/
theorem IsDecimal.unique {num num' : Nat} {key : List UInt8} (h : IsDecimal num key) (h' : IsDecimal num' key) :
    num = num' := h.value.symm.trans h'.value

theorem IsDecimal.ne_zero {num : Nat} {key : List UInt8} (h : IsDecimal num key) : ∀ c ∈ key, c ≠ 0 := by
  intro c hc hzero
  have hdigit := h.digits c hc
  rw [hzero] at hdigit
  exact absurd hdigit.1 (by decide)

/-! ### The loops -/

/-- A store at the first zero behind what has been written. -/
theorem store_next (pre : List UInt8) (k : Nat) (v : UInt8) :
    store (pre ++ List.replicate (k + 1) 0) pre.length v = some (pre ++ [v] ++ List.replicate k 0) := by
  rw [store, if_pos (by simp)]
  simp [List.replicate_succ]

theorem digitLoop_spec (num : Nat) (pre : List UInt8) (k : Nat) (hk : (low num).length ≤ k) :
    digitLoop num pre.length pre.length (pre ++ List.replicate k 0)
      = some (((pre ++ low num).length : Int), (pre ++ low num).length,
          pre ++ low num ++ List.replicate (k - (low num).length) 0) := by
  induction num using Nat.strong_induction_on generalizing pre k with
  | _ num ih =>
      by_cases h : 0 < num
      · rw [low_of_pos h, List.length_cons] at hk
        obtain ⟨j, rfl⟩ : ∃ j, k = j + 1 := ⟨k - 1, by omega⟩
        -- `%` and `/` of C are those of `Nat`, since the number is positive
        have hdigit : UInt8.ofNat (((num : Int).tmod 10).toNat + 0x30) = char (num % 10) := by
          rw [Int.tmod_eq_emod_of_nonneg (by omega)]
          rfl
        have hdiv : (num : Int).tdiv 10 = ((num / 10 : Nat) : Int) := by
          rw [Int.tdiv_eq_ediv_of_nonneg (by omega)]
          rfl
        have hrest := ih (num / 10) (by omega) (pre ++ [char (num % 10)]) j (by omega)
        rw [List.length_append, List.length_singleton] at hrest
        rw [digitLoop, if_pos (by omega), hdigit, store_next, hdiv]
        simp only [Option.bind_eq_bind, Option.bind_some]
        rw [← Nat.cast_succ, hrest, low_of_pos h]
        simp [List.append_assoc]
      · obtain rfl : num = 0 := by omega
        rw [digitLoop, if_neg (by omega), low_zero]
        simp

/-- What stands behind the digits in the scratch array is not read. -/
theorem copyLoop_spec (ds rest done : List UInt8) (k : Nat) (hk : ds.length ≤ k) :
    copyLoop (ds ++ rest) ds.length (ds.length - 1) done.length (done ++ List.replicate k 0)
      = some (done ++ ds.reverse ++ List.replicate (k - ds.length) 0) := by
  induction ds using List.reverseRecOn generalizing rest done k with
  | nil => simp [copyLoop]
  | append_singleton ds d ih =>
      rw [List.length_append, List.length_singleton] at hk
      obtain ⟨j, rfl⟩ : ∃ j, k = j + 1 := ⟨k - 1, by omega⟩
      -- `s` is at the highest digit that has not been copied
      have hload : load (ds ++ [d] ++ rest) (ds.length : Int) = some d := by
        rw [load, if_pos (by omega)]
        simp
      have hrest := ih ([d] ++ rest) (done ++ [d]) j (by omega)
      simp only [List.length_append, List.length_singleton] at hrest
      rw [List.length_append, List.length_singleton, copyLoop]
      push_cast
      rw [add_sub_cancel_right, hload]
      simp only [Option.bind_eq_bind, Option.bind_some, store_next]
      rw [← Nat.cast_succ, List.append_assoc ds, hrest]
      simp [List.append_assoc]

/-! ### The keys -/

section Keys

variable {t u : Int64}

theorem toInt_lt (t : Int64) : t.toInt.toNat < 2 ^ 63 := by
  have hlt := Int64.toInt_lt t
  omega

/-- The buffer holds the decimal number, and zeros. -/
theorem tidString_eq (ht : 0 < t.toInt) :
    tidString (List.replicate 32 0) t
      = some ((low t.toInt.toNat).reverse ++ List.replicate (32 - (low t.toInt.toNat).length) 0) := by
  have hlen := length_low (toInt_lt t)
  have hnat : t.toInt = (t.toInt.toNat : Int) := (Int.toNat_of_nonneg ht.le).symm
  have hdigits := digitLoop_spec t.toInt.toNat [] 32 (by omega)
  have hcopy := copyLoop_spec (low t.toInt.toNat) (List.replicate (32 - (low t.toInt.toNat).length) 0) [] 32
    (by omega)
  rw [List.nil_append, List.nil_append, ← hnat] at hdigits
  rw [tidString, show digitLoop t.toInt 0 0 (List.replicate 32 0) = _ from hdigits]
  exact hcopy

theorem readerKey_eq (ht : 0 < t.toInt) : readerKey t = some (low t.toInt.toNat).reverse := by
  have hne := (isDecimal_low t.toInt.toNat (by omega)).ne_zero
  rw [readerKey, tidString_eq ht, Option.map_some, cString, List.takeWhile_append_of_pos]
  · simp
  · intro c hc
    exact decide_eq_true (hne c hc)

theorem readerKey_ne (ht : 0 < t.toInt) (hu : 0 < u.toInt) (hne : t ≠ u) : readerKey t ≠ readerKey u := by
  intro heq
  rw [readerKey_eq ht, readerKey_eq hu] at heq
  have hkey := Option.some.inj heq
  have hdt := isDecimal_low t.toInt.toNat (by omega)
  have hdu := isDecimal_low u.toInt.toNat (by omega)
  rw [hkey] at hdt
  have hnum := hdt.unique hdu
  exact hne (Int64.toInt_inj.mp (by omega))

end Keys

/-- The buffer of a thread with a positive id holds its decimal number without leading
zeros, and at least one zero behind it. Two threads have different keys, and neither sets or
clears the other's. -/
theorem tidString_decimal (t : Int64) (ht : 0 < t) :
    (∃ key, tidString (List.replicate 32 0) t = some (key ++ List.replicate (32 - key.length) 0)
        ∧ key.length < 32 ∧ IsDecimal t.toInt.toNat key ∧ readerKey t = some key)
      ∧ ∀ u : Int64, 0 < u → t ≠ u → readerKey t ≠ readerKey u ∧ ∀ lock,
          (∀ lock', setReadlock lock t = some lock' → hasReadlock lock' u = hasReadlock lock u)
          ∧ ∀ lock', clearReadlock lock t = some lock' → hasReadlock lock' u = hasReadlock lock u := by
  have htpos : 0 < t.toInt := Int64.lt_iff_toInt_lt.mp ht
  constructor
  · have hlen := length_low (toInt_lt t)
    refine ⟨(low t.toInt.toNat).reverse, ?_, ?_, isDecimal_low _ (by omega), readerKey_eq htpos⟩
    · rw [tidString_eq htpos, List.length_reverse]
    · rw [List.length_reverse]
      omega
  · intro u hu hne
    have hupos : 0 < u.toInt := Int64.lt_iff_toInt_lt.mp hu
    have hkeys := readerKey_ne htpos hupos hne
    refine ⟨hkeys, ?_⟩
    -- the key of `t` alone comes or goes
    intro lock
    rw [readerKey_eq htpos, readerKey_eq hupos] at hkeys
    have hkey : (low u.toInt.toNat).reverse ≠ (low t.toInt.toNat).reverse := by
      intro heq
      exact hkeys (congrArg some heq.symm)
    constructor
    · intro lock' hset
      rw [setReadlock, readerKey_eq htpos] at hset
      obtain rfl := Option.some.inj hset
      simp only [hasReadlock, readerKey_eq hupos, Option.bind_eq_bind, Option.bind_some,
        Finset.mem_insert, hkey, false_or]
    · intro lock' hclear
      rw [clearReadlock, readerKey_eq htpos] at hclear
      simp only [Option.bind_eq_bind, Option.bind_some] at hclear
      split at hclear
      · obtain rfl := Option.some.inj hclear
        simp only [hasReadlock, readerKey_eq hupos, Option.bind_eq_bind, Option.bind_some,
          Finset.mem_erase, ne_eq, hkey, not_false_eq_true, true_and]
      · cases hclear

/-- Threads 704512 and 70451. -/
theorem tidString_decimal_six :
    (∃ key, tidString (List.replicate 32 0) 704512 = some (key ++ List.replicate (32 - key.length) 0)
        ∧ key.length < 32 ∧ IsDecimal 704512 key ∧ readerKey 704512 = some key)
      ∧ readerKey 704512 ≠ readerKey 70451 :=
  have h := tidString_decimal 704512 (by decide)
  ⟨h.1, (h.2 70451 (by decide) (by decide)).1⟩

end UfsX.Proofs.TidString
