import Mathlib.Algebra.BigOperators.Group.Finset.Basic
import Mathlib.Algebra.BigOperators.Ring.Finset
import Mathlib.Order.Interval.Finset.Nat

/-!
# `UfsX.Lib.Runs`: counting maximal runs of set bits

`IsRun g n p k` says that the bits `p .. p + k - 1` of the first `n` bits of
`g` are a maximal run: all set, with a clear bit or an end of the range on
either side. `runs g n k` counts the maximal runs of exactly `k` bits, and
`cappedRuns g n c k` counts them by length capped at `c`, so that
`cappedRuns g n c c` is the number of runs of at least `c` bits.

Free-space summaries keep these counts incrementally. The one fact they rest
on is `runs_clear`: clearing a set bit replaces the run through it by what is
left of it on either side. `runsLeft` and `runsRight` name those two parts.
Everything else (splitting, merging, shortening a run from its low end) is
that lemma read in one direction or the other.
-/

set_option autoImplicit false

namespace UfsX.Lib

open Finset

/-- The bits `p .. p + k - 1` are a maximal run among the first `n` bits. -/
def IsRun (g : Nat → Bool) (n p k : Nat) : Prop :=
  0 < k ∧ p + k ≤ n ∧ (∀ j < k, g (p + j) = true) ∧
    (p = 0 ∨ g (p - 1) = false) ∧ (p + k = n ∨ g (p + k) = false)

instance (g : Nat → Bool) (n p k : Nat) : Decidable (IsRun g n p k) :=
  inferInstanceAs (Decidable (_ ∧ _ ∧ (∀ j < k, _) ∧ _ ∧ _))

/-- The number of maximal runs of exactly `k` bits among the first `n`. -/
def runs (g : Nat → Bool) (n k : Nat) : Nat :=
  ((range n).filter fun p => IsRun g n p k).card

/-- The number of maximal runs whose length, capped at `c`, is `k`. -/
def cappedRuns (g : Nat → Bool) (n c k : Nat) : Nat :=
  ∑ j ∈ (Icc 1 n).filter (fun j => min j c = k), runs g n j

/-- The number of set bits directly below `x`. -/
def runLeft (g : Nat → Bool) : Nat → Nat
  | 0 => 0
  | x + 1 => if g x then runLeft g x + 1 else 0

/-- The number of set bits from `x` on, looking at `m` bits at most. -/
def runRight (g : Nat → Bool) (x : Nat) : Nat → Nat
  | 0 => 0
  | m + 1 => if g x then runRight g (x + 1) m + 1 else 0

theorem runLeft_le (g : Nat → Bool) (x : Nat) : runLeft g x ≤ x := by
  induction x with
  | zero => simp [runLeft]
  | succ x ih =>
      rw [runLeft]
      split <;> omega

theorem runRight_le (g : Nat → Bool) (x m : Nat) : runRight g x m ≤ m := by
  induction m generalizing x with
  | zero => simp [runRight]
  | succ m ih =>
      have h := ih (x + 1)
      rw [runRight]
      split <;> omega

/-- Every bit of the left part is set. -/
theorem runLeft_set (g : Nat → Bool) (x : Nat) :
    ∀ j, x - runLeft g x ≤ j → j < x → g j = true := by
  induction x with
  | zero => intro j _ hj; omega
  | succ x ih =>
      intro j hlo hhi
      rw [runLeft] at hlo
      by_cases hg : g x = true
      · rw [if_pos hg] at hlo
        by_cases hjx : j = x
        · rw [hjx, hg]
        · exact ih j (by have := runLeft_le g x; omega) (by omega)
      · rw [if_neg hg] at hlo
        omega

/-- The left part is maximal: it starts at `0` or after a clear bit. -/
theorem runLeft_stop (g : Nat → Bool) (x : Nat) :
    x - runLeft g x = 0 ∨ g (x - runLeft g x - 1) = false := by
  induction x with
  | zero => exact Or.inl rfl
  | succ x ih =>
      rw [runLeft]
      by_cases hg : g x = true
      · rw [if_pos hg, show x + 1 - (runLeft g x + 1) = x - runLeft g x from by omega]
        exact ih
      · rw [if_neg hg]
        right
        simpa using hg

/-- Every bit of the right part is set. -/
theorem runRight_set (g : Nat → Bool) (x m : Nat) :
    ∀ j, x ≤ j → j < x + runRight g x m → g j = true := by
  induction m generalizing x with
  | zero => intro j hlo hhi; simp only [runRight] at hhi; omega
  | succ m ih =>
      intro j hlo hhi
      rw [runRight] at hhi
      by_cases hg : g x = true
      · rw [if_pos hg] at hhi
        by_cases hjx : j = x
        · rw [hjx, hg]
        · exact ih (x + 1) j (by omega) (by omega)
      · rw [if_neg hg] at hhi
        omega

/-- The right part is maximal: it uses up its bits or ends at a clear bit. -/
theorem runRight_stop (g : Nat → Bool) (x m : Nat) :
    runRight g x m = m ∨ g (x + runRight g x m) = false := by
  induction m generalizing x with
  | zero => exact Or.inl rfl
  | succ m ih =>
      rw [runRight]
      by_cases hg : g x = true
      · rw [if_pos hg]
        rcases ih (x + 1) with h | h
        · exact Or.inl (by omega)
        · right
          rw [show x + (runRight g (x + 1) m + 1) = x + 1 + runRight g (x + 1) m from by omega]
          exact h
      · rw [if_neg hg]
        right
        simpa using hg

theorem runLeft_congr {g g' : Nat → Bool} {x : Nat} (h : ∀ i < x, g i = g' i) :
    runLeft g x = runLeft g' x := by
  induction x with
  | zero => rfl
  | succ x ih =>
      rw [runLeft, runLeft, h x (Nat.lt_succ_self x), ih fun i hi => h i (by omega)]

theorem runRight_congr {g g' : Nat → Bool} {x m : Nat} (h : ∀ i, x ≤ i → g i = g' i) :
    runRight g x m = runRight g' x m := by
  induction m generalizing x with
  | zero => rfl
  | succ m ih =>
      rw [runRight, runRight, h x (Nat.le_refl x), ih fun i hi => h i (by omega)]

/-- Looking at fewer bits cuts the right part off. -/
theorem runRight_min (g : Nat → Bool) (x a b : Nat) :
    runRight g x (min a b) = min a (runRight g x b) := by
  induction b generalizing x a with
  | zero => simp [runRight]
  | succ b ih =>
      cases a with
      | zero => simp [runRight]
      | succ a =>
          rw [Nat.add_min_add_right, runRight, runRight, ih (x + 1) a]
          split <;> omega

/-- A maximal run is determined by where it starts. -/
theorem IsRun.unique {g : Nat → Bool} {n p k k' : Nat} (h : IsRun g n p k)
    (h' : IsRun g n p k') : k = k' := by
  obtain ⟨_, hle, hset, _, hend⟩ := h
  obtain ⟨_, hle', hset', _, hend'⟩ := h'
  rcases Nat.lt_trichotomy k k' with hlt | heq | hgt
  · rcases hend with he | he
    · omega
    · rw [hset' k hlt] at he
      exact absurd he (by decide)
  · exact heq
  · rcases hend' with he | he
    · omega
    · rw [hset k' hgt] at he
      exact absurd he (by decide)

/-- Two bit strings that agree below `n` have the same maximal runs. -/
theorem isRun_congr {g g' : Nat → Bool} {n : Nat} (h : ∀ i < n, g i = g' i) (p k : Nat) :
    IsRun g n p k ↔ IsRun g' n p k := by
  have hdir : ∀ (a b : Nat → Bool), (∀ i < n, a i = b i) → IsRun a n p k → IsRun b n p k := by
    intro a b hab hr
    obtain ⟨hk, hle, hset, hlo, hhi⟩ := hr
    refine ⟨hk, hle, fun j hj => ?_, ?_, ?_⟩
    · rw [← hab (p + j) (by omega)]
      exact hset j hj
    · rcases hlo with hlo | hlo
      · exact Or.inl hlo
      · right
        rw [← hab (p - 1) (by omega)]
        exact hlo
    · rcases hhi with hhi | hhi
      · exact Or.inl hhi
      · by_cases he : p + k = n
        · exact Or.inl he
        · right
          rw [← hab (p + k) (by omega)]
          exact hhi
  exact ⟨hdir g g' h, hdir g' g fun i hi => (h i hi).symm⟩

theorem runs_congr {g g' : Nat → Bool} {n : Nat} (h : ∀ i < n, g i = g' i) (k : Nat) :
    runs g n k = runs g' n k := by
  unfold runs
  congr 1
  exact filter_congr fun p _ => isRun_congr h p k

/-! ### Clearing one bit

`x` is a set bit, `L` and `R` are the set bits directly below and above it.
The run through `x` starts at `x - L` and has `L + R + 1` bits. -/

section Clear

variable {g g' : Nat → Bool} {n x : Nat}

/-- The run through a set bit `x`. -/
theorem isRun_through (hx : x < n) (hgx : g x = true) :
    IsRun g n (x - runLeft g x) (runLeft g x + runRight g (x + 1) (n - (x + 1)) + 1) := by
  have hL := runLeft_le g x
  have hR := runRight_le g (x + 1) (n - (x + 1))
  refine ⟨by omega, by omega, fun j hj => ?_, runLeft_stop g x, ?_⟩
  · rcases Nat.lt_trichotomy (x - runLeft g x + j) x with hlt | heq | hgt
    · exact runLeft_set g x _ (by omega) hlt
    · rw [heq, hgx]
    · exact runRight_set g (x + 1) (n - (x + 1)) _ (by omega) (by omega)
  · rcases runRight_stop g (x + 1) (n - (x + 1)) with h | h
    · exact Or.inl (by omega)
    · right
      rw [show x - runLeft g x + (runLeft g x + runRight g (x + 1) (n - (x + 1)) + 1)
        = x + 1 + runRight g (x + 1) (n - (x + 1)) from by omega]
      exact h

/-- Set bits side by side are part of a run. -/
theorem exists_isRun_of_set {p m : Nat} (hm : 0 < m) (hle : p + m ≤ n) (hset : ∀ j < m, g (p + j) = true) :
    ∃ q k, IsRun g n q k ∧ m ≤ k := by
  have hp : g p = true := hset 0 hm
  refine ⟨_, _, isRun_through (by omega : p < n) hp, ?_⟩
  have hL := runLeft_le g p
  rcases runRight_stop g (p + 1) (n - (p + 1)) with hend | hclear
  · omega
  · -- the first clear bit above `p` comes after the last of the `m`
    by_contra hlt
    have hin := hset (1 + runRight g (p + 1) (n - (p + 1))) (by omega)
    rw [show p + (1 + runRight g (p + 1) (n - (p + 1))) = p + 1 + runRight g (p + 1) (n - (p + 1)) from by omega,
      hclear] at hin
    exact Bool.false_ne_true hin

/-- What is left of the run below the cleared bit. -/
theorem isRun_left (hx : x < n) (hg' : g' x = false) (hsame : ∀ i, i ≠ x → g' i = g i)
    (hL : 0 < runLeft g x) : IsRun g' n (x - runLeft g x) (runLeft g x) := by
  have hle := runLeft_le g x
  refine ⟨hL, by omega, fun j hj => ?_, ?_, ?_⟩
  · rw [hsame _ (by omega)]
    exact runLeft_set g x _ (by omega) (by omega)
  · rcases runLeft_stop g x with h | h
    · exact Or.inl h
    · right
      rw [hsame _ (by omega)]
      exact h
  · right
    rw [show x - runLeft g x + runLeft g x = x from by omega]
    exact hg'

/-- What is left of the run above the cleared bit. -/
theorem isRun_right (hx : x < n) (hg' : g' x = false) (hsame : ∀ i, i ≠ x → g' i = g i)
    (hR : 0 < runRight g (x + 1) (n - (x + 1))) :
    IsRun g' n (x + 1) (runRight g (x + 1) (n - (x + 1))) := by
  have hle := runRight_le g (x + 1) (n - (x + 1))
  refine ⟨hR, by omega, fun j hj => ?_, ?_, ?_⟩
  · rw [hsame _ (by omega)]
    exact runRight_set g (x + 1) (n - (x + 1)) _ (by omega) (by omega)
  · right
    rw [Nat.add_sub_cancel]
    exact hg'
  · rcases runRight_stop g (x + 1) (n - (x + 1)) with h | h
    · exact Or.inl (by omega)
    · right
      rw [hsame _ (by omega)]
      exact h

/-- A run that starts below the run through `x`, or above `x + 1`, does not
reach `x` and is a run before and after. -/
theorem isRun_elsewhere (hsame : ∀ i, i ≠ x → g' i = g i) {p : Nat}
    (hp : p < x - runLeft g x ∨ x + 1 < p) (k : Nat) : IsRun g n p k ↔ IsRun g' n p k := by
  -- A run starting below stops at the clear bit that bounds the run through `x`.
  have hshort : ∀ h : Nat → Bool, (∀ i, i ≠ x → h i = g i) → IsRun h n p k →
      p < x - runLeft g x → p + k < x := by
    intro h hh hr hlt
    rcases runLeft_stop g x with h0 | h0
    · omega
    · by_contra hcon
      have hset := hr.2.2.1 (x - runLeft g x - 1 - p) (by omega)
      rw [show p + (x - runLeft g x - 1 - p) = x - runLeft g x - 1 from by omega,
        hh _ (by omega), h0] at hset
      exact absurd hset (by decide)
  have hdir : ∀ a b : Nat → Bool, (∀ i, i ≠ x → a i = g i) → (∀ i, i ≠ x → b i = g i) →
      IsRun a n p k → IsRun b n p k := by
    intro a b ha hb hr
    have hshort' := hshort a ha hr
    obtain ⟨hk, hle, hset, hlo, hhi⟩ := hr
    have hab : ∀ i, i ≠ x → a i = b i := fun i hi => by rw [ha i hi, hb i hi]
    refine ⟨hk, hle, fun j hj => ?_, ?_, ?_⟩
    · rw [← hab (p + j) (by rcases hp with hp | hp <;> [have := hshort' hp; skip] <;> omega)]
      exact hset j hj
    · rcases hlo with hlo | hlo
      · exact Or.inl hlo
      · right
        rw [← hab (p - 1) (by omega)]
        exact hlo
    · rcases hhi with hhi | hhi
      · exact Or.inl hhi
      · right
        rw [← hab (p + k) (by rcases hp with hp | hp <;> [have := hshort' hp; skip] <;> omega)]
        exact hhi
  exact ⟨hdir g g' (fun _ _ => rfl) hsame, hdir g' g hsame (fun _ _ => rfl)⟩

/-- No run starts strictly inside the run through `x` (after its first bit,
up to `x + 1`) before the bit is cleared. -/
theorem not_isRun_inside (hgx : g x = true) {p : Nat} (hlo : x - runLeft g x < p)
    (hhi : p ≤ x + 1) (k : Nat) : ¬ IsRun g n p k := by
  intro hr
  rcases hr.2.2.2.1 with h | h
  · omega
  · by_cases hpx : p = x + 1
    · subst hpx
      rw [Nat.add_sub_cancel, hgx] at h
      exact absurd h (by decide)
    · rw [runLeft_set g x (p - 1) (by omega) (by omega)] at h
      exact absurd h (by decide)

/-- After the bit is cleared no run starts inside what was left of the run
below it, nor at `x` itself. -/
theorem not_isRun_inside' (hg' : g' x = false) (hsame : ∀ i, i ≠ x → g' i = g i) {p : Nat}
    (hlo : x - runLeft g x < p ∨ p = x) (hhi : p ≤ x) (k : Nat) : ¬ IsRun g' n p k := by
  intro hr
  by_cases hpx : p = x
  · have h := hr.2.2.1 0 hr.1
    rw [Nat.add_zero, hpx, hg'] at h
    exact absurd h (by decide)
  · rcases hr.2.2.2.1 with h | h
    · omega
    · rw [hsame _ (by omega), runLeft_set g x (p - 1) (by omega) (by omega)] at h
      exact absurd h (by decide)

/-- The run indicator at one start position, before and after the bit is
cleared. Only the starts `x - L` and `x + 1` change. -/
theorem indicator_clear (hx : x < n) (hgx : g x = true) (hg' : g' x = false)
    (hsame : ∀ i, i ≠ x → g' i = g i) {k : Nat} (hk : 0 < k) (p : Nat) :
    (if IsRun g n p k then 1 else 0)
        + (if p = x - runLeft g x ∧ k = runLeft g x then 1 else 0)
        + (if p = x + 1 ∧ k = runRight g (x + 1) (n - (x + 1)) then 1 else 0)
      = (if IsRun g' n p k then 1 else 0)
        + (if p = x - runLeft g x ∧ k = runLeft g x + runRight g (x + 1) (n - (x + 1)) + 1
            then 1 else 0) := by
  have hL := runLeft_le g x
  by_cases hout : p < x - runLeft g x ∨ x + 1 < p
  · have h1 : p ≠ x - runLeft g x := by omega
    have h2 : p ≠ x + 1 := by omega
    simp only [h1, h2, false_and, if_false, isRun_elsewhere hsame hout k]
  by_cases hp1 : p = x + 1
  · subst hp1
    have h1 : x + 1 ≠ x - runLeft g x := by omega
    have hr : IsRun g' n (x + 1) k ↔ k = runRight g (x + 1) (n - (x + 1)) := by
      constructor
      · intro h
        by_cases hR : 0 < runRight g (x + 1) (n - (x + 1))
        · exact h.unique (isRun_right hx hg' hsame hR)
        · rcases runRight_stop g (x + 1) (n - (x + 1)) with hs | hs
          · have := h.2.1
            omega
          · have hset := h.2.2.1 0 hk
            rw [show runRight g (x + 1) (n - (x + 1)) = 0 from by omega, Nat.add_zero] at hs
            rw [Nat.add_zero, hsame _ (by omega), hs] at hset
            exact absurd hset (by decide)
      · rintro rfl
        exact isRun_right hx hg' hsame hk
    simp only [not_isRun_inside hgx (by omega) (Nat.le_refl _) k, h1, hr, false_and, true_and,
      if_false]
    omega
  by_cases hps : p = x - runLeft g x
  · subst hps
    have hr : IsRun g n (x - runLeft g x) k ↔
        k = runLeft g x + runRight g (x + 1) (n - (x + 1)) + 1 := by
      constructor
      · exact fun h => h.unique (isRun_through hx hgx)
      · rintro rfl
        exact isRun_through hx hgx
    have hr' : IsRun g' n (x - runLeft g x) k ↔ k = runLeft g x := by
      constructor
      · intro h
        by_cases h0 : 0 < runLeft g x
        · exact h.unique (isRun_left hx hg' hsame h0)
        · exact absurd h (not_isRun_inside' hg' hsame (Or.inr (by omega)) (by omega) k)
      · rintro rfl
        exact isRun_left hx hg' hsame hk
    simp only [hr, hr', hp1, false_and, true_and, if_false]
    omega
  · have hin : ¬ IsRun g n p k := not_isRun_inside hgx (by omega) (by omega) k
    have hin' : ¬ IsRun g' n p k :=
      not_isRun_inside' hg' hsame (Or.inl (by omega)) (by omega) k
    simp only [hin, hin', hp1, hps, false_and, if_false]

theorem runs_eq_sum (h : Nat → Bool) (m k : Nat) :
    runs h m k = ∑ p ∈ range m, if IsRun h m p k then 1 else 0 := by
  rw [runs, card_filter]

theorem sum_indicator_start {q : Nat} (hq : q < n) (P : Prop) [Decidable P] :
    (∑ p ∈ range n, if p = q ∧ P then 1 else 0) = if P then 1 else 0 := by
  by_cases hP : P
  · simp [hP, hq]
  · simp [hP]

/-- Clearing a set bit replaces the run through it by the two parts that are
left of it. -/
theorem runs_clear (hx : x < n) (hgx : g x = true) (hg' : g' x = false)
    (hsame : ∀ i, i ≠ x → g' i = g i) {k : Nat} (hk : 0 < k) :
    runs g n k + (if k = runLeft g x then 1 else 0)
        + (if k = runRight g (x + 1) (n - (x + 1)) then 1 else 0)
      = runs g' n k
        + (if k = runLeft g x + runRight g (x + 1) (n - (x + 1)) + 1 then 1 else 0) := by
  have hL := runLeft_le g x
  have hR := runRight_le g (x + 1) (n - (x + 1))
  have hsum := sum_congr rfl fun p (_ : p ∈ range n) => indicator_clear hx hgx hg' hsame hk p
  simp only [sum_add_distrib, ← runs_eq_sum] at hsum
  have hstart : x - runLeft g x < n := by omega
  rw [sum_indicator_start hstart, sum_indicator_start hstart] at hsum
  by_cases hlast : x + 1 < n
  · rw [sum_indicator_start hlast] at hsum
    exact hsum
  · have hR0 : k ≠ runRight g (x + 1) (n - (x + 1)) := by omega
    simp only [hR0, and_false, if_false, sum_const_zero] at hsum ⊢
    exact hsum

/-- `runs_clear` for lengths capped at `c`. -/
theorem cappedRuns_clear (hx : x < n) (hgx : g x = true) (hg' : g' x = false)
    (hsame : ∀ i, i ≠ x → g' i = g i) {c k : Nat} (hk : 0 < k) :
    cappedRuns g n c k + (if k = min (runLeft g x) c then 1 else 0)
        + (if k = min (runRight g (x + 1) (n - (x + 1))) c then 1 else 0)
      = cappedRuns g' n c k
        + (if k = min (runLeft g x + runRight g (x + 1) (n - (x + 1)) + 1) c then 1 else 0) := by
  have hL := runLeft_le g x
  have hR := runRight_le g (x + 1) (n - (x + 1))
  have hpick : ∀ q, q ≤ n → (∑ j ∈ (Icc 1 n).filter (fun j => min j c = k),
      if j = q then 1 else 0) = if k = min q c then 1 else 0 := by
    intro q hq
    rw [sum_ite_eq' ((Icc 1 n).filter fun j => min j c = k) q fun _ => 1]
    by_cases hm : k = min q c
    · rw [if_pos hm, if_pos (by rw [mem_filter, mem_Icc]; omega)]
    · rw [if_neg hm, if_neg (by rw [mem_filter]; omega)]
  have hsum := sum_congr rfl fun j (hj : j ∈ (Icc 1 n).filter fun j => min j c = k) =>
    runs_clear hx hgx hg' hsame (k := j) (by rw [mem_filter, mem_Icc] at hj; omega)
  simp only [sum_add_distrib] at hsum
  rw [hpick _ (by omega), hpick _ (by omega), hpick _ (by omega)] at hsum
  exact hsum

end Clear

/-! ### Shortening a run from its low end -/

/-- Seen from its first bit, a maximal run has nothing below and `k - 1` bits
above. -/
theorem IsRun.parts {g : Nat → Bool} {n p k : Nat} (h : IsRun g n p k) :
    runLeft g p = 0 ∧ runRight g (p + 1) (n - (p + 1)) + 1 = k := by
  have hgp : g p = true := h.2.2.1 0 h.1
  have hL : runLeft g p = 0 := by
    cases p with
    | zero => rfl
    | succ p =>
        rcases h.2.2.2.1 with hlo | hlo
        · omega
        · rw [Nat.add_sub_cancel] at hlo
          rw [runLeft, hlo]
          rfl
  have hthrough := isRun_through (n := n) (show p < n from by have := h.1; have := h.2.1; omega) hgp
  rw [hL, Nat.sub_zero, Nat.zero_add] at hthrough
  exact ⟨hL, hthrough.unique h⟩

/-- Clearing the first `r` bits of a maximal run of `k₀` bits leaves a run of
`k₀ - r` bits. -/
theorem runs_shorten {g : Nat → Bool} {n p k₀ : Nat} (h : IsRun g n p k₀) :
    ∀ {r : Nat}, r ≤ k₀ → ∀ g' : Nat → Bool,
      (∀ i, g' i = (!decide (p ≤ i ∧ i < p + r) && g i)) →
      (r < k₀ → IsRun g' n (p + r) (k₀ - r)) ∧
      ∀ {k : Nat}, 0 < k →
        runs g n k + (if k = k₀ - r then 1 else 0) = runs g' n k + (if k = k₀ then 1 else 0) := by
  intro r
  induction r with
  | zero =>
      intro _ g' hg'
      have hsame : g' = g := funext fun i => by
        have hno : ¬ (p ≤ i ∧ i < p + 0) := by omega
        rw [hg' i, decide_eq_false hno, Bool.not_false, Bool.true_and]
      subst hsame
      exact ⟨fun _ => h, fun _ => rfl⟩
  | succ r ih =>
      intro hr g' hg'
      -- One more bit: `g₁` has the first `r` bits cleared, `g'` also bit `p + r`.
      obtain ⟨hrun, hcount⟩ := ih (by omega) (fun i => !decide (p ≤ i ∧ i < p + r) && g i)
        fun _ => rfl
      have hrun := hrun (by omega)
      obtain ⟨hL, hR⟩ := hrun.parts
      have hle := hrun.2.1
      have hx : p + r < n := by omega
      have hset := hrun.2.2.1 0 hrun.1
      have hclr : g' (p + r) = false := by
        rw [hg', decide_eq_true (show p ≤ p + r ∧ p + r < p + (r + 1) from by omega)]
        rfl
      have hsame : ∀ i, i ≠ p + r →
          g' i = (fun i => !decide (p ≤ i ∧ i < p + r) && g i) i := by
        intro i hi
        have hiff : (p ≤ i ∧ i < p + (r + 1)) ↔ (p ≤ i ∧ i < p + r) := by omega
        rw [hg' i, decide_eq_decide.mpr hiff]
      refine ⟨fun hlt => ?_, fun {k} hk => ?_⟩
      · have hright := isRun_right (g := fun i => !decide (p ≤ i ∧ i < p + r) && g i)
          hx hclr hsame (by omega)
        rw [show p + (r + 1) = p + r + 1 from by omega,
          show k₀ - (r + 1) = k₀ - r - 1 from by omega]
        rwa [show runRight (fun i => !decide (p ≤ i ∧ i < p + r) && g i) (p + r + 1)
          (n - (p + r + 1)) = k₀ - r - 1 from by omega] at hright
      · have hc := runs_clear (g := fun i => !decide (p ≤ i ∧ i < p + r) && g i)
          hx hset hclr hsame hk
        have hprev := hcount hk
        rw [hL, show runRight (fun i => !decide (p ≤ i ∧ i < p + r) && g i) (p + r + 1)
          (n - (p + r + 1)) = k₀ - (r + 1) from by omega] at hc
        rw [show 0 + (k₀ - (r + 1)) + 1 = k₀ - r from by omega] at hc
        have hk0 : ¬ k = 0 := by omega
        rw [if_neg hk0] at hc
        omega

/-! ### Counting from a position on

A scan from low to high that skips a run once it has counted it. -/

/-- The number of maximal runs of exactly `k` bits that start at `q` or
later. -/
def runsFrom (g : Nat → Bool) (n k q : Nat) : Nat :=
  ((range n).filter fun p => q ≤ p ∧ IsRun g n p k).card

section From

variable {g : Nat → Bool} {n k q : Nat}

theorem runsFrom_zero : runsFrom g n k 0 = runs g n k := by
  simp [runsFrom, runs]

/-- A run of `k` bits no longer fits. -/
theorem runsFrom_end (hq : n < q + k) : runsFrom g n k q = 0 := by
  rw [runsFrom, card_eq_zero, filter_eq_empty_iff]
  rintro p - ⟨hp, hr⟩
  have := hr.2.1
  omega

/-- Moving the position past starts that are no runs changes nothing. -/
theorem runsFrom_skip {q' : Nat} (hle : q ≤ q') (hno : ∀ p, q ≤ p → p < q' → ¬ IsRun g n p k) :
    runsFrom g n k q = runsFrom g n k q' := by
  unfold runsFrom
  congr 1
  refine filter_congr fun p _ => ?_
  constructor
  · rintro ⟨hp, hr⟩
    exact ⟨by by_contra hlt; exact hno p hp (by omega) hr, hr⟩
  · rintro ⟨hp, hr⟩
    exact ⟨by omega, hr⟩

/-- Counting the run that starts at `q` itself. -/
theorem runsFrom_step (h : IsRun g n q k) : runsFrom g n k q = runsFrom g n k (q + 1) + 1 := by
  have hin : q ∈ range n := by
    have := h.1
    have := h.2.1
    exact mem_range.mpr (by omega)
  have hsplit : (range n).filter (fun p => q ≤ p ∧ IsRun g n p k)
      = insert q ((range n).filter fun p => q + 1 ≤ p ∧ IsRun g n p k) := by
    ext p
    simp only [mem_insert, mem_filter]
    constructor
    · rintro ⟨hp, hle, hr⟩
      by_cases hpq : p = q
      · exact Or.inl hpq
      · exact Or.inr ⟨hp, by omega, hr⟩
    · rintro (rfl | ⟨hp, hle, hr⟩)
      · exact ⟨hin, Nat.le_refl _, h⟩
      · exact ⟨hp, by omega, hr⟩
  rw [runsFrom, hsplit, card_insert_of_notMem (by simp), runsFrom]

/-- After a run the scan may go on behind the clear bit that ends it. -/
theorem runsFrom_of_isRun (h : IsRun g n q k) :
    runsFrom g n k q = runsFrom g n k (q + k + 1) + 1 := by
  rw [runsFrom_step h]
  congr 1
  refine runsFrom_skip (by omega) fun p hlo hhi hr => ?_
  by_cases hend : p = q + k
  · subst hend
    rcases h.2.2.2.2 with he | he
    · have := hr.1
      have := hr.2.1
      omega
    · have hset := hr.2.2.1 0 hr.1
      rw [Nat.add_zero, he] at hset
      exact absurd hset (by decide)
  · rcases hr.2.2.2.1 with h0 | h0
    · omega
    · have hset := h.2.2.1 (p - 1 - q) (by omega)
      rw [show q + (p - 1 - q) = p - 1 from by omega, h0] at hset
      exact absurd hset (by decide)

end From

/-! ### Counting from the left

A loop that goes through the bits carries the length of the run that it is in, and counts a
run when it comes to its end. -/

section FromLeft

variable {g : Nat → Bool} {n k : Nat}

/-- A clear bit behind the range belongs to no run. -/
theorem runs_succ_of_clear (hg : g n = false) (hk : 0 < k) : runs g (n + 1) k = runs g n k := by
  have hiff (p : Nat) : IsRun g (n + 1) p k ↔ IsRun g n p k := by
    constructor
    · rintro ⟨hpos, hle, hset, hlo, hhi⟩
      have hne : p + k ≠ n + 1 := by
        intro heq
        have hlast := hset (k - 1) (by omega)
        rw [show p + (k - 1) = n from by omega, hg] at hlast
        cases hlast
      refine ⟨hpos, by omega, hset, hlo, ?_⟩
      exact Or.inr (hhi.resolve_left hne)
    · rintro ⟨hpos, hle, hset, hlo, hhi⟩
      refine ⟨hpos, by omega, hset, hlo, Or.inr ?_⟩
      rcases hhi with hend | hclr
      · rw [hend, hg]
      · exact hclr
  unfold runs
  congr 1
  ext p
  simp only [mem_filter, mem_range, hiff]
  constructor
  · rintro ⟨-, hrun⟩
    have := hrun.2.1
    exact ⟨by omega, hrun⟩
  · rintro ⟨hp, hrun⟩
    exact ⟨by omega, hrun⟩

/-- The run that ends where the range does is one more than those before it. -/
theorem runs_eq_add_runLeft (hk : 0 < k) :
    runs g n k = runs g (n - runLeft g n) k + if runLeft g n = k then 1 else 0 := by
  have hle := runLeft_le g n
  have hset := runLeft_set g n
  have hstop := runLeft_stop g n
  generalize runLeft g n = run at hle hset hstop
  have hiff (p : Nat) : IsRun g n p k ↔ IsRun g (n - run) p k ∨ (p = n - run ∧ run = k) := by
    constructor
    · rintro ⟨hpos, hend, hall, hlo, hhi⟩
      -- a run does not go across the clear bit in front of the last one
      have hside : p + k ≤ n - run ∨ n - run ≤ p := by
        by_contra hacross
        rcases hstop with hzero | hclr
        · omega
        · have hin := hall (n - run - 1 - p) (by omega)
          rw [show p + (n - run - 1 - p) = n - run - 1 from by omega, hclr] at hin
          cases hin
      rcases hside with hleft | hright
      · left
        refine ⟨hpos, hleft, hall, hlo, ?_⟩
        by_cases hrun : run = 0
        · rw [hrun, Nat.sub_zero]
          exact hhi
        · exact Or.inr (hhi.resolve_left (by omega))
      · right
        have hstart : p = n - run := by
          by_contra hne
          have hbefore := hset (p - 1) (by omega) (by omega)
          rcases hlo with hzero | hclr
          · omega
          · rw [hbefore] at hclr
            cases hclr
        have hstops : p + k = n := by
          by_contra hne
          have hafter := hset (p + k) (by omega) (by omega)
          rcases hhi with hlast | hclr
          · exact hne hlast
          · rw [hafter] at hclr
            cases hclr
        exact ⟨hstart, by omega⟩
    · rintro (⟨hpos, hend, hall, hlo, hhi⟩ | ⟨rfl, rfl⟩)
      · refine ⟨hpos, by omega, hall, hlo, ?_⟩
        rcases hhi with hlast | hclr
        · -- the bit in front of the last run is not in one
          have hbit := hall (k - 1) (by omega)
          rw [show p + (k - 1) = n - run - 1 from by omega] at hbit
          rcases hstop with hzero | hclr
          · omega
          · rw [hbit] at hclr
            cases hclr
        · exact Or.inr hclr
      · refine ⟨hk, by omega, ?_, hstop, Or.inl (by omega)⟩
        intro j hj
        exact hset _ (by omega) (by omega)
  by_cases hrun : run = k
  · have hdisj : ¬ IsRun g (n - run) (n - run) k := by
      rintro ⟨-, hend, -⟩
      omega
    have hfilter : ((range n).filter fun p => IsRun g n p k)
        = insert (n - run) ((range (n - run)).filter fun p => IsRun g (n - run) p k) := by
      ext p
      simp only [mem_filter, mem_range, mem_insert, hiff, hrun, and_true]
      constructor
      · rintro ⟨-, hin | hlast⟩
        · have := hin.2.1
          exact Or.inr ⟨by omega, hin⟩
        · exact Or.inl hlast
      · rintro (hlast | ⟨hp, hin⟩)
        · exact ⟨by omega, Or.inr hlast⟩
        · exact ⟨by omega, Or.inl hin⟩
    rw [if_pos hrun, runs, runs, hfilter, card_insert_of_notMem]
    simp only [mem_filter, not_and]
    exact fun _ => hdisj
  · rw [if_neg hrun, Nat.add_zero, runs, runs]
    congr 1
    ext p
    simp only [mem_filter, mem_range, hiff, hrun, and_false, or_false]
    constructor
    · rintro ⟨-, hin⟩
      have := hin.2.1
      exact ⟨by omega, hin⟩
    · rintro ⟨hp, hin⟩
      exact ⟨by omega, hin⟩

/-- Longer runs than the range there are none. -/
theorem runs_of_lt (h : n < k) : runs g n k = 0 := by
  rw [runs, card_eq_zero, filter_eq_empty_iff]
  intro p _ hrun
  have := hrun.2.1
  omega

theorem cappedRuns_of_le {N c : Nat} (h : n ≤ N) :
    cappedRuns g n c k = ∑ j ∈ (Icc 1 N).filter (fun j => min j c = k), runs g n j := by
  unfold cappedRuns
  refine sum_subset (filter_subset_filter _ (Icc_subset_Icc_right h)) ?_
  intro j hj hout
  simp only [mem_filter, mem_Icc] at hj hout
  exact runs_of_lt (by omega)

theorem cappedRuns_succ_of_clear {c : Nat} (hg : g n = false) :
    cappedRuns g (n + 1) c k = cappedRuns g n c k := by
  rw [cappedRuns_of_le (g := g) (Nat.le_succ n), cappedRuns]
  refine sum_congr rfl ?_
  intro j hj
  simp only [mem_filter, mem_Icc] at hj
  exact runs_succ_of_clear hg (by omega)

/-- The same with lengths capped. -/
theorem cappedRuns_eq_add_runLeft {c : Nat} (hrun : 0 < runLeft g n) :
    cappedRuns g n c k = cappedRuns g (n - runLeft g n) c k + if min (runLeft g n) c = k then 1 else 0 := by
  have hle := runLeft_le g n
  have hone : (∑ j ∈ (Icc 1 n).filter (fun j => min j c = k), if runLeft g n = j then 1 else 0)
      = if min (runLeft g n) c = k then 1 else 0 := by
    rw [sum_ite_eq]
    refine if_congr ?_ rfl rfl
    simp only [mem_filter, mem_Icc]
    constructor
    · intro h
      exact h.2
    · intro h
      exact ⟨⟨hrun, hle⟩, h⟩
  rw [cappedRuns_of_le (g := g) (Nat.sub_le n (runLeft g n)), cappedRuns, ← hone, ← sum_add_distrib]
  refine sum_congr rfl ?_
  intro j hj
  simp only [mem_filter, mem_Icc] at hj
  exact runs_eq_add_runLeft (by omega)

theorem cappedRuns_zero {c : Nat} : cappedRuns g 0 c k = 0 := by
  simp [cappedRuns]

end FromLeft

end UfsX.Lib
