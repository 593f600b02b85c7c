import Mathlib.Data.List.Basic
import Mathlib.Order.Lattice

/-!
# `UfsX.Lib.First`: the first one of a kind

`IsFirst P n v` says that `v` is the least number below `n` with the property `P`, and
-1 when there is none. The lemmas say how `v` changes with `P` and with `n`: when a
number gains or loses the property, and when numbers are added or cut off at the end.

`circle n start` is the numbers below `n` from `start` on, as on a circle. What a search finds
there is the nearest one ahead (`find?_circle`). `better` keeps the best one so far
(`foldl_better`).
-/

set_option autoImplicit false

namespace UfsX.Lib

/-- The least number below `n` with `P`, or -1. -/
def IsFirst (P : Nat → Prop) (n : Nat) (v : Int) : Prop :=
  (v = -1 ∧ ∀ b, b < n → ¬ P b)
    ∨ ∃ b : Nat, b < n ∧ v = b ∧ P b ∧ ∀ b', b' < b → ¬ P b'

namespace IsFirst

variable {P P' : Nat → Prop} {n b : Nat} {v : Int}

theorem congr (h : IsFirst P n v) (hP : ∀ b, b < n → (P' b ↔ P b)) : IsFirst P' n v := by
  obtain ⟨hv, hno⟩ | ⟨b, hb, hv, hyes, hmin⟩ := h
  · exact .inl ⟨hv, fun b hb => mt (hP b hb).mp (hno b hb)⟩
  · exact .inr ⟨b, hb, hv, (hP b hb).mpr hyes, fun b' hb' => mt (hP b' (by omega)).mp (hmin b' hb')⟩

/-- A number that has the property, the first one apart. -/
theorem block (h : IsFirst P n v) (hv : v ≠ -1) : ∃ b : Nat, b < n ∧ v = b ∧ P b := by
  obtain ⟨hno, -⟩ | ⟨b, hb, hvb, hyes, -⟩ := h
  · exact absurd hno hv
  · exact ⟨b, hb, hvb, hyes⟩

theorem none_of_eq (h : IsFirst P n (-1)) : ∀ b, b < n → ¬ P b := by
  obtain ⟨-, hno⟩ | ⟨b, -, hv, -, -⟩ := h
  · exact hno
  · omega

/-- Another number than the first one loses the property. -/
theorem erase_other (h : IsFirst P n v) (hP : ∀ i, P' i ↔ P i ∧ i ≠ b) (hv : v ≠ b) :
    IsFirst P' n v := by
  obtain ⟨hv', hno⟩ | ⟨i, hi, hvi, hyes, hmin⟩ := h
  · exact .inl ⟨hv', fun i hi hi' => hno i hi ((hP i).mp hi').1⟩
  · refine .inr ⟨i, hi, hvi, (hP i).mpr ⟨hyes, ?_⟩, fun j hj hj' => hmin j hj ((hP j).mp hj').1⟩
    rintro rfl
    exact hv hvi

/-- The first one loses it: the next one is looked for behind it. -/
theorem erase_first {p : Nat → Bool} (h : IsFirst P n b) (hP : ∀ i, P' i ↔ P i ∧ i ≠ b)
    (hp : ∀ i, p i = true ↔ P' i) :
    IsFirst P' n (((List.range' (b + 1) (n - (b + 1))).find? p).elim (-1) fun i => (i : Int)) := by
  -- nobody before `b` has it
  have hbefore : ∀ i, i ≤ b → ¬ P' i := by
    intro i hi hi'
    obtain ⟨hyes, hne⟩ := (hP i).mp hi'
    obtain ⟨hno, -⟩ | ⟨j, -, hbj, -, hmin⟩ := h
    · omega
    · exact hmin i (by omega) hyes
  cases hfind : (List.range' (b + 1) (n - (b + 1))).find? p with
  | none =>
      refine .inl ⟨rfl, fun i hi hi' => ?_⟩
      rw [List.find?_eq_none] at hfind
      by_cases hle : i ≤ b
      · exact hbefore i hle hi'
      · exact hfind i (List.mem_range'_1.mpr (by omega)) ((hp i).mpr hi')
  | some i =>
      rw [List.find?_range'_eq_some, List.mem_range'_1] at hfind
      obtain ⟨hyes, hrange, hmin⟩ := hfind
      refine .inr ⟨i, by omega, rfl, (hp i).mp hyes, fun j hj hj' => ?_⟩
      by_cases hle : j ≤ b
      · exact hbefore j hle hj'
      · have hno := hmin j (by omega) hj
        rw [(hp j).mpr hj'] at hno
        cases hno

/-- A number gains the property. -/
theorem insert (h : IsFirst P n v) (hb : b < n) (hP : ∀ i, P' i ↔ P i ∨ i = b) :
    IsFirst P' n (if v > b ∨ v = -1 then (b : Int) else v) := by
  obtain ⟨rfl, hno⟩ | ⟨i, hi, rfl, hyes, hmin⟩ := h
  · rw [if_pos (.inr rfl)]
    refine .inr ⟨b, hb, rfl, (hP b).mpr (.inr rfl), fun j hj hj' => ?_⟩
    obtain hj' | rfl := (hP j).mp hj'
    · exact hno j (by omega) hj'
    · exact Nat.lt_irrefl _ hj
  · by_cases hlt : b < i
    · rw [if_pos (.inl (by omega))]
      refine .inr ⟨b, hb, rfl, (hP b).mpr (.inr rfl), fun j hj hj' => ?_⟩
      obtain hj' | rfl := (hP j).mp hj'
      · exact hmin j (by omega) hj'
      · exact Nat.lt_irrefl _ hj
    · rw [if_neg (by omega)]
      refine .inr ⟨i, hi, rfl, (hP i).mpr (.inl hyes), fun j hj hj' => ?_⟩
      obtain hj' | rfl := (hP j).mp hj'
      · exact hmin j hj hj'
      · exact hlt hj

/-- One more number, which does not have it. -/
theorem snoc_not (h : IsFirst P n v) (hP : ∀ i, i < n → (P' i ↔ P i)) (hn : ¬ P' n) :
    IsFirst P' (n + 1) v := by
  obtain ⟨hv, hno⟩ | ⟨i, hi, hv, hyes, hmin⟩ := h.congr hP
  · refine .inl ⟨hv, fun j hj hj' => ?_⟩
    obtain hj | rfl := Nat.lt_succ_iff_lt_or_eq.mp hj
    · exact hno j hj hj'
    · exact hn hj'
  · exact .inr ⟨i, by omega, hv, hyes, hmin⟩

/-- One more number, which has it. -/
theorem snoc (h : IsFirst P n v) (hP : ∀ i, i < n → (P' i ↔ P i)) (hn : P' n) :
    IsFirst P' (n + 1) (if v = -1 then (n : Int) else v) := by
  obtain ⟨rfl, hno⟩ | ⟨i, hi, rfl, hyes, hmin⟩ := h.congr hP
  · rw [if_pos rfl]
    exact .inr ⟨n, Nat.lt_succ_self n, rfl, hn, hno⟩
  · rw [if_neg (by omega)]
    exact .inr ⟨i, by omega, rfl, hyes, hmin⟩

/-- The numbers from `k` on are cut off. -/
theorem take {k : Nat} (h : IsFirst P n v) (hk : k ≤ n) :
    IsFirst P k (if v ≥ k then -1 else v) := by
  obtain ⟨rfl, hno⟩ | ⟨i, hi, rfl, hyes, hmin⟩ := h
  · rw [if_neg (by omega)]
    exact .inl ⟨rfl, fun j hj => hno j (by omega)⟩
  · by_cases hge : k ≤ i
    · rw [if_pos (by omega)]
      exact .inl ⟨rfl, fun j hj => hmin j (by omega)⟩
    · rw [if_neg (by omega)]
      exact .inr ⟨i, by omega, rfl, hyes, hmin⟩

end IsFirst

/-! ### Around a circle -/

section Circle

variable {n start i : Nat}

/-- The numbers below `n`, from `start` on. -/
def circle (n start : Nat) : List Nat := List.range' start (n - start) ++ List.range start

/-- How far `i` is ahead of `start`. -/
def ahead (n start i : Nat) : Nat := (i + (n - start)) % n

theorem mem_circle (h : start ≤ n) : i ∈ circle n start ↔ i < n := by
  unfold circle
  rw [List.mem_append, List.mem_range'_1, List.mem_range]
  omega

theorem circle_eq (h : start < n) : circle n start = (List.range n).map fun d => (start + d) % n := by
  have hcut : List.range n = List.range (n - start) ++ (List.range start).map (n - start + ·) := by
    rw [← List.range_add, Nat.sub_add_cancel h.le]
  have hfirst : (List.range (n - start)).map (fun d => (start + d) % n) = List.range' start (n - start) := by
    rw [List.range'_eq_map_range]
    refine List.map_congr_left fun d hd => Nat.mod_eq_of_lt ?_
    have := List.mem_range.mp hd
    omega
  have hsecond : (List.range start).map ((fun d => (start + d) % n) ∘ (n - start + ·)) = List.range start := by
    refine (List.map_congr_left fun d hd => ?_).trans (List.map_id _)
    have hlt := List.mem_range.mp hd
    show (start + (n - start + d)) % n = d
    rw [show start + (n - start + d) = n + d by omega, Nat.add_mod_left, Nat.mod_eq_of_lt (by omega)]
  rw [hcut, List.map_append, List.map_map, hfirst, hsecond]
  rfl

theorem add_ahead (h : start < n) (hi : i < n) : (start + ahead n start i) % n = i := by
  unfold ahead
  rw [Nat.add_mod_mod, show start + (i + (n - start)) = n + i by omega, Nat.add_mod_left, Nat.mod_eq_of_lt hi]

theorem ahead_add {d : Nat} (h : start < n) (hd : d < n) : ahead n start ((start + d) % n) = d := by
  unfold ahead
  rw [Nat.mod_add_mod, show start + d + (n - start) = n + d by omega, Nat.add_mod_left, Nat.mod_eq_of_lt hd]

/-- The first one of a kind is the nearest one ahead. -/
theorem find?_circle {p : Nat → Bool} (h : start < n) (hfind : (circle n start).find? p = some i) :
    i < n ∧ p i = true ∧ ∀ j < n, p j = true → ahead n start i ≤ ahead n start j := by
  rw [circle_eq h, List.find?_map, Option.map_eq_some_iff] at hfind
  obtain ⟨d, hd, rfl⟩ := hfind
  rw [List.find?_range_eq_some] at hd
  obtain ⟨hyes, hlt, hmin⟩ := hd
  have hlt := List.mem_range.mp hlt
  refine ⟨Nat.mod_lt _ (Nat.zero_lt_of_lt h), hyes, fun j hj hpj => ?_⟩
  rw [ahead_add h hlt]
  by_contra hless
  have hno := hmin (ahead n start j) (Nat.lt_of_not_le hless)
  rw [Function.comp_apply, add_ahead h hj, hpj] at hno
  cases hno

theorem find?_circle_none {p : Nat → Bool} (h : start ≤ n) :
    (circle n start).find? p = none ↔ ∀ j < n, p j = false := by
  rw [List.find?_eq_none]
  constructor
  · intro hno j hj
    exact Bool.eq_false_of_not_eq_true (hno j ((mem_circle h).mpr hj))
  · intro hno j hj hpj
    rw [hno j ((mem_circle h).mp hj)] at hpj
    cases hpj

end Circle

/-! ### The best one so far -/

section Best

variable {α κ : Type*} [LinearOrder κ] (key : α → κ) (ok : α → Bool)

/-- `a` takes the place of the best one so far, if it has less. -/
def better (best : α × κ) (a : α) : α × κ := if key a < best.2 ∧ ok a = true then (a, key a) else best

/-- What the search for the best one returns. -/
structure Best (l : List α) (start best : α × κ) : Prop where
  le : ∀ a ∈ l, ok a = true → best.2 ≤ key a
  le_start : best.2 ≤ start.2
  found : best = start ∨ best.1 ∈ l ∧ ok best.1 = true ∧ key best.1 = best.2 ∧ best.2 < start.2

theorem foldl_better (l : List α) (start : α × κ) : Best key ok l start (l.foldl (better key ok) start) := by
  induction l generalizing start with
  | nil => exact ⟨fun a ha => absurd ha List.not_mem_nil, le_refl _, .inl rfl⟩
  | cons a l ih =>
      obtain ⟨hle, hle_start, hfound⟩ := ih (better key ok start a)
      rw [List.foldl_cons]
      by_cases ha : key a < start.2 ∧ ok a = true
      · have hbetter : better key ok start a = (a, key a) := if_pos ha
        rw [hbetter] at hle hle_start hfound ⊢
        refine ⟨?_, hle_start.trans ha.1.le, .inr ?_⟩
        · intro b hb hok
          rcases List.mem_cons.mp hb with rfl | hb
          · exact hle_start
          · exact hle b hb hok
        · rcases hfound with heq | ⟨hmem, hok, hkey, hlt⟩
          · rw [heq]
            exact ⟨List.mem_cons_self, ha.2, rfl, ha.1⟩
          · exact ⟨List.mem_cons_of_mem a hmem, hok, hkey, hlt.trans ha.1⟩
      · have hsame : better key ok start a = start := if_neg ha
        rw [hsame] at hle hle_start hfound ⊢
        refine ⟨?_, hle_start, ?_⟩
        · intro b hb hok
          rcases List.mem_cons.mp hb with rfl | hb
          · exact hle_start.trans (not_lt.mp fun hlt => ha ⟨hlt, hok⟩)
          · exact hle b hb hok
        · rcases hfound with heq | ⟨hmem, hrest⟩
          · exact .inl heq
          · exact .inr ⟨List.mem_cons_of_mem a hmem, hrest⟩

end Best

end UfsX.Lib
