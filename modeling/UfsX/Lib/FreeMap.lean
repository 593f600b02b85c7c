import UfsX.Lib.Bitmap
import UfsX.Lib.Runs

/-!
# `UfsX.Lib.FreeMap`: the summaries of a free map

A free map has a bit for each fragment, and `frag` fragments are a block. Its summaries are
the number of blocks that are entirely free, the number of free fragments in the other
blocks, and the number of maximal runs of free fragments in these, by length. Each is the sum
over the blocks of a weight of the bits of the block.

`Counted` says that given numbers are the summaries of a map. A change in one block moves
them by what the weights of that block move (`Counted.change`). `Counted.freeBlock`,
`Counted.freeFrags` and `Counted.allocFront` are the changes that leave an interval of the
block free.
-/

set_option autoImplicit false

namespace UfsX.Lib.FreeMap

open Finset

variable (frag : Nat)

/-- The bits of block `b`. -/
def block (m : Bitmap) (b : Nat) : Nat → Bool := fun j => m.isset (b * frag + j)

/-- All fragments of a block are free. -/
def whole (g : Nat → Bool) : Bool := decide (∀ j < frag, g j = true)

/-- The free fragments of a block that is not entirely free. -/
def fragCount (g : Nat → Bool) : Nat :=
  if whole frag g then 0 else ((range frag).filter fun j => g j = true).card

/-- The maximal runs of `k` free fragments in a block that is not entirely free. -/
def fragRuns (k : Nat) (g : Nat → Bool) : Nat := if whole frag g then 0 else runs g frag k

/-- The sum of a weight over the first `n` blocks. -/
def blockSum (w : (Nat → Bool) → Nat) (n : Nat) (m : Bitmap) : Nat :=
  ∑ b ∈ range n, w (block frag m b)

def freeBlocks (n : Nat) (m : Bitmap) : Nat := blockSum frag (fun g => (whole frag g).toNat) n m

def freeFrags (n : Nat) (m : Bitmap) : Nat := blockSum frag (fragCount frag) n m

def freeRuns (n : Nat) (m : Bitmap) (k : Nat) : Nat := blockSum frag (fragRuns frag k) n m

/-- The numbers are the summaries of the first `n` blocks of a map. -/
structure Counted (n : Nat) (m : Bitmap) (blocks frags : Int) (sizes : Nat → Int) : Prop where
  blocks : blocks = freeBlocks frag n m
  frags : frags = freeFrags frag n m
  sizes : ∀ k, 0 < k → k < frag → sizes k = freeRuns frag n m k

variable {frag}

/-! ### The weights -/

theorem whole_iff (g : Nat → Bool) : whole frag g = true ↔ ∀ j < frag, g j = true :=
  decide_eq_true_iff

theorem whole_congr {g g' : Nat → Bool} (h : ∀ j < frag, g j = g' j) : whole frag g = whole frag g' := by
  rw [Bool.eq_iff_iff, whole_iff, whole_iff]
  exact forall₂_congr fun j hj => by rw [h j hj]

theorem fragCount_congr {g g' : Nat → Bool} (h : ∀ j < frag, g j = g' j) :
    fragCount frag g = fragCount frag g' := by
  unfold fragCount
  rw [whole_congr h, filter_congr fun j hj => by rw [h j (mem_range.mp hj)]]

theorem fragRuns_congr {k : Nat} {g g' : Nat → Bool} (h : ∀ j < frag, g j = g' j) :
    fragRuns frag k g = fragRuns frag k g' := by
  unfold fragRuns
  rw [whole_congr h, runs_congr h]

section Interval

variable {g : Nat → Bool} {a e : Nat}

/-- The free fragments of the block are `a .. e - 1`. -/
def Interval (frag a e : Nat) (g : Nat → Bool) : Prop :=
  e ≤ frag ∧ ∀ j < frag, g j = true ↔ a ≤ j ∧ j < e

theorem whole_interval (h : Interval frag a e g) (hfrag : 0 < frag) :
    whole frag g = decide (a = 0 ∧ e = frag) := by
  obtain ⟨he, hg⟩ := h
  rw [whole, decide_eq_decide]
  constructor
  · intro hall
    have hfirst := (hg 0 hfrag).mp (hall 0 hfrag)
    have hlast := (hg (frag - 1) (by omega)).mp (hall _ (by omega))
    omega
  · rintro ⟨rfl, rfl⟩ j hj
    exact (hg j hj).mpr ⟨Nat.zero_le j, hj⟩

theorem fragCount_interval (h : Interval frag a e g) (hpart : ¬ (a = 0 ∧ e = frag)) (hfrag : 0 < frag) :
    fragCount frag g = e - a := by
  have hw : whole frag g = false := by
    rw [whole_interval h hfrag, decide_eq_false hpart]
  obtain ⟨he, hg⟩ := h
  rw [fragCount, hw, if_neg Bool.false_ne_true, ← Nat.card_Ico]
  congr 1
  ext j
  simp only [mem_filter, mem_range, mem_Ico]
  constructor
  · rintro ⟨hj, hfree⟩
    exact (hg j hj).mp hfree
  · intro hin
    have hj : j < frag := by omega
    exact ⟨hj, (hg j hj).mpr hin⟩

theorem isRun_interval (h : Interval frag a e g) {p k : Nat} (hk : 0 < k) :
    IsRun g frag p k ↔ p = a ∧ p + k = e := by
  obtain ⟨he, hg⟩ := h
  constructor
  · rintro ⟨-, hend, hall, hlo, hhi⟩
    have hfirst := (hg p (by omega)).mp (by simpa using hall 0 hk)
    have hlast := (hg (p + (k - 1)) (by omega)).mp (hall (k - 1) (by omega))
    constructor
    · by_contra hne
      have hbefore := (hg (p - 1) (by omega)).mpr ⟨by omega, by omega⟩
      rcases hlo with hzero | hclr
      · omega
      · rw [hbefore] at hclr
        cases hclr
    · by_contra hne
      have hafter := (hg (p + k) (by omega)).mpr ⟨by omega, by omega⟩
      rcases hhi with hfull | hclr
      · omega
      · rw [hafter] at hclr
        cases hclr
  · rintro ⟨rfl, rfl⟩
    refine ⟨hk, he, ?_, ?_, ?_⟩
    · intro j hj
      exact (hg _ (by omega)).mpr ⟨by omega, by omega⟩
    · rcases Nat.eq_zero_or_pos p with hzero | hpos
      · exact Or.inl hzero
      · right
        rw [Bool.eq_false_iff]
        intro hset
        have := (hg (p - 1) (by omega)).mp hset
        omega
    · rcases Nat.eq_or_lt_of_le he with hfull | hlt
      · exact Or.inl hfull
      · right
        rw [Bool.eq_false_iff]
        intro hset
        have := (hg (p + k) hlt).mp hset
        omega

theorem fragRuns_interval (h : Interval frag a e g) {k : Nat} (hk : 0 < k) (hkf : k < frag) :
    fragRuns frag k g = if e - a = k then 1 else 0 := by
  have hw := whole_interval h (by omega)
  have hruns : runs g frag k = if e - a = k then 1 else 0 := by
    have he := h.1
    rw [runs]
    by_cases hlen : e - a = k
    · rw [if_pos hlen, card_eq_one]
      refine ⟨a, ?_⟩
      ext p
      simp only [mem_filter, mem_range, mem_singleton, isRun_interval h hk]
      omega
    · rw [if_neg hlen, card_eq_zero, filter_eq_empty_iff]
      intro p _ hrun
      have := (isRun_interval h hk).mp hrun
      omega
  rw [fragRuns, hw]
  by_cases hfull : a = 0 ∧ e = frag
  · rw [decide_eq_true hfull, if_pos rfl, if_neg (by omega)]
  · rw [decide_eq_false hfull, if_neg Bool.false_ne_true, hruns]

end Interval

/-! ### Changes in one block -/

section Change

variable {n b₀ : Nat} {m m' : Bitmap} {blocks frags blocks' frags' : Int} {sizes sizes' : Nat → Int}

/-- Two maps agree outside block `b₀`. -/
def SameOutside (frag b₀ : Nat) (m m' : Bitmap) : Prop :=
  ∀ i, ¬ (b₀ * frag ≤ i ∧ i < b₀ * frag + frag) → m'.isset i = m.isset i

theorem SameOutside.block (h : SameOutside frag b₀ m m') {b : Nat} (hb : b ≠ b₀) :
    ∀ j < frag, block frag m' b j = block frag m b j := by
  intro j hj
  refine h _ fun hin => hb ?_
  -- two blocks that share a fragment are the same block
  have h1 : (b * frag + j) / frag = b := by
    rw [Nat.mul_comm, Nat.mul_add_div (by omega), Nat.div_eq_of_lt hj, Nat.add_zero]
  have h2 : (b * frag + j) / frag = b₀ := by
    refine Nat.div_eq_of_lt_le hin.1 ?_
    rw [Nat.add_mul, Nat.one_mul]
    exact hin.2
  rw [← h1, h2]

/-- A sum over the blocks changes by the weight of the block. -/
theorem blockSum_change {w : (Nat → Bool) → Nat}
    (hw : ∀ {g g' : Nat → Bool}, (∀ j < frag, g j = g' j) → w g = w g') (hb : b₀ < n)
    (hsame : ∀ b, b ≠ b₀ → ∀ j < frag, block frag m' b j = block frag m b j) :
    blockSum frag w n m' + w (block frag m b₀) = blockSum frag w n m + w (block frag m' b₀) := by
  unfold blockSum
  rw [← add_sum_erase _ _ (mem_range.mpr hb), ← add_sum_erase (range n)
    (fun b => w (block frag m b)) (mem_range.mpr hb)]
  have hrest : ∑ b ∈ (range n).erase b₀, w (block frag m' b)
      = ∑ b ∈ (range n).erase b₀, w (block frag m b) :=
    sum_congr rfl fun b hb' => hw (hsame b (ne_of_mem_erase hb'))
  rw [hrest]
  omega

theorem Counted.change (h : Counted frag n m blocks frags sizes) (hb : b₀ < n)
    (hsame : SameOutside frag b₀ m m')
    (hblocks : blocks' + (whole frag (block frag m b₀)).toNat = blocks + (whole frag (block frag m' b₀)).toNat)
    (hfrags : frags' + fragCount frag (block frag m b₀) = frags + fragCount frag (block frag m' b₀))
    (hsizes : ∀ k, 0 < k → k < frag → sizes' k + fragRuns frag k (block frag m b₀)
      = sizes k + fragRuns frag k (block frag m' b₀)) :
    Counted frag n m' blocks' frags' sizes' := by
  have hout := fun b (hne : b ≠ b₀) => hsame.block hne
  refine ⟨?_, ?_, ?_⟩
  · have hsum := blockSum_change (w := fun g => (whole frag g).toNat)
      (fun hg => congrArg Bool.toNat (whole_congr hg)) hb hout
    have hold := h.blocks
    unfold freeBlocks at hold ⊢
    omega
  · have hsum := blockSum_change (w := fragCount frag) fragCount_congr hb hout
    have hold := h.frags
    unfold freeFrags at hold ⊢
    omega
  · intro k hk hkf
    have hsum := blockSum_change (w := fragRuns frag k) fragRuns_congr hb hout
    have hold := h.sizes k hk hkf
    have hmove := hsizes k hk hkf
    unfold freeRuns at hold ⊢
    omega

theorem interval_empty (h : ∀ j < frag, block frag m b₀ j = false) : Interval frag 0 0 (block frag m b₀) := by
  refine ⟨Nat.zero_le frag, ?_⟩
  intro j hj
  rw [h j hj]
  simp

/-- A block of which nothing was free is freed as a whole. -/
theorem Counted.freeBlock (h : Counted frag n m blocks frags sizes) (hb : b₀ < n) (hfrag : 0 < frag)
    (hclear : ∀ j < frag, block frag m b₀ j = false)
    (hset : ∀ i, m'.isset i = (decide (b₀ * frag ≤ i ∧ i < b₀ * frag + frag) || m.isset i)) :
    Counted frag n m' (blocks + 1) frags sizes := by
  have hold := interval_empty hclear
  have hnew : Interval frag 0 frag (block frag m' b₀) := by
    refine ⟨le_rfl, ?_⟩
    intro j hj
    rw [block, hset, decide_eq_true (by omega), Bool.true_or]
    simp [hj]
  refine h.change hb ?_ ?_ ?_ ?_
  · intro i hi
    rw [hset, decide_eq_false hi, Bool.false_or]
  · rw [whole_interval hold hfrag, whole_interval hnew hfrag, decide_eq_false (by omega)]
    simp
  · have hwhole : whole frag (block frag m' b₀) = true := by
      rw [whole_interval hnew hfrag, decide_eq_true ⟨rfl, rfl⟩]
    rw [fragCount_interval hold (by omega) hfrag, fragCount, hwhole, if_pos rfl]
  · intro k hk hkf
    rw [fragRuns_interval hold hk hkf, fragRuns_interval hnew hk hkf, if_neg (by omega), if_neg (by omega)]

/-- Of a block of which nothing was free a part is freed. -/
theorem Counted.freeFrags {a e : Nat} (h : Counted frag n m blocks frags sizes) (hb : b₀ < n)
    (hlt : a < e) (he : e ≤ frag) (hpart : ¬ (a = 0 ∧ e = frag))
    (hclear : ∀ j < frag, block frag m b₀ j = false)
    (hset : ∀ i, m'.isset i = (decide (b₀ * frag + a ≤ i ∧ i < b₀ * frag + e) || m.isset i)) :
    Counted frag n m' blocks (frags + (e - a)) (Function.update sizes (e - a) (sizes (e - a) + 1)) := by
  have hold := interval_empty hclear
  have hnew : Interval frag a e (block frag m' b₀) := by
    refine ⟨he, ?_⟩
    intro j hj
    have hclr : m.isset (b₀ * frag + j) = false := hclear j hj
    rw [block, hset, hclr, Bool.or_false, decide_eq_true_iff]
    omega
  have hfrag : 0 < frag := by omega
  refine h.change hb ?_ ?_ ?_ ?_
  · intro i hi
    rw [hset, decide_eq_false (by omega), Bool.false_or]
  · rw [whole_interval hold hfrag, whole_interval hnew hfrag, decide_eq_false hpart,
      decide_eq_false (by omega)]
  · rw [fragCount_interval hold (by omega) hfrag, fragCount_interval hnew hpart hfrag]
    omega
  · intro k hk hkf
    rw [fragRuns_interval hold hk hkf, fragRuns_interval hnew hk hkf, if_neg (by omega)]
    by_cases hlen : e - a = k
    · rw [hlen, Function.update_self, if_pos rfl]
      simp
    · rw [Function.update_of_ne (Ne.symm hlen), if_neg hlen]

/-- The first fragments of a block that was free are allocated, and the rest stays. -/
theorem Counted.allocFront {a : Nat} (h : Counted frag n m blocks frags sizes) (hb : b₀ < n)
    (hpos : 0 < a) (ha : a ≤ frag) (hfree : ∀ j < frag, block frag m b₀ j = true)
    (hset : ∀ i, m'.isset i = (!decide (b₀ * frag ≤ i ∧ i < b₀ * frag + a) && m.isset i)) :
    Counted frag n m' (blocks - 1) (frags + (frag - a))
      (if a = frag then sizes else Function.update sizes (frag - a) (sizes (frag - a) + 1)) := by
  have hfrag : 0 < frag := by omega
  have hold : Interval frag 0 frag (block frag m b₀) := by
    refine ⟨le_rfl, ?_⟩
    intro j hj
    rw [hfree j hj]
    simp [hj]
  have hnew : Interval frag a frag (block frag m' b₀) := by
    refine ⟨le_rfl, ?_⟩
    intro j hj
    have hbit : m.isset (b₀ * frag + j) = true := hfree j hj
    rw [block, hset, hbit, Bool.and_true, Bool.not_eq_true', decide_eq_false_iff_not]
    omega
  have hpart : ¬ (a = 0 ∧ frag = frag) := by omega
  have hwhole : whole frag (block frag m b₀) = true := by
    rw [whole_interval hold hfrag, decide_eq_true ⟨rfl, rfl⟩]
  refine h.change hb ?_ ?_ ?_ ?_
  · intro i hi
    rw [hset, decide_eq_false (by omega), Bool.not_false, Bool.true_and]
  · rw [hwhole, whole_interval hnew hfrag, decide_eq_false hpart]
    simp
  · rw [fragCount_interval hnew hpart hfrag, fragCount, hwhole, if_pos rfl]
    omega
  · intro k hk hkf
    rw [fragRuns_interval hold hk hkf, fragRuns_interval hnew hk hkf, if_neg (by omega : frag - 0 ≠ k)]
    by_cases hlen : frag - a = k
    · rw [if_neg (by omega : a ≠ frag), hlen, Function.update_self, if_pos rfl]
      simp
    · rw [if_neg hlen]
      split
      · rfl
      · rw [Function.update_of_ne (Ne.symm hlen)]

theorem blockSum_extend {w : (Nat → Bool) → Nat} {N : Nat} (hle : n ≤ N)
    (hzero : ∀ b, n ≤ b → b < N → w (block frag m b) = 0) : blockSum frag w N m = blockSum frag w n m := by
  have hsub : range n ⊆ range N := range_subset_range.mpr hle
  refine (sum_subset hsub fun b hb hnot => ?_).symm
  rw [mem_range] at hb hnot
  exact hzero b (not_lt.mp hnot) hb

/-- Blocks of which nothing is free add nothing. -/
theorem Counted.extend {N : Nat} (h : Counted frag n m blocks frags sizes) (hfrag : 0 < frag) (hle : n ≤ N)
    (hclear : ∀ b, n ≤ b → b < N → ∀ j < frag, block frag m b j = false) :
    Counted frag N m blocks frags sizes := by
  have hint (b : Nat) (hb : n ≤ b) (hbN : b < N) : Interval frag 0 0 (block frag m b) :=
    interval_empty (hclear b hb hbN)
  refine ⟨?_, ?_, ?_⟩
  · have hsum := blockSum_extend (w := fun g => (whole frag g).toNat) hle fun b hb hbN => by
      rw [whole_interval (hint b hb hbN) hfrag, decide_eq_false (by omega), Bool.toNat_false]
    rw [h.blocks]
    exact congrArg _ hsum.symm
  · have hsum := blockSum_extend (w := fragCount frag) hle fun b hb hbN =>
      fragCount_interval (hint b hb hbN) (by omega) hfrag
    rw [h.frags]
    exact congrArg _ hsum.symm
  · intro k hk hkf
    have hsum := blockSum_extend (w := fragRuns frag k) hle fun b hb hbN => by
      rw [fragRuns_interval (hint b hb hbN) hk hkf, if_neg (by omega)]
    rw [h.sizes k hk hkf]
    exact congrArg _ hsum.symm

/-- Nothing is free, and nothing is counted. -/
theorem counted_empty (hfrag : 0 < frag) (hclear : ∀ i, m.isset i = false) : Counted frag n m 0 0 fun _ => 0 := by
  have hnone : Counted frag 0 m 0 0 fun _ => 0 := ⟨rfl, rfl, fun _ _ _ => rfl⟩
  exact hnone.extend hfrag (Nat.zero_le n) fun _ _ _ _ _ => hclear _

/-- Two maps that differ in one fragment have not the same summaries. -/
theorem Counted.not_flipped {j₀ : Nat} (h : Counted frag n m blocks frags sizes) (hb : b₀ < n) (hj : j₀ < frag)
    (hflip : ∀ i, m'.isset i = if i = b₀ * frag + j₀ then !m.isset i else m.isset i) :
    ¬ Counted frag n m' blocks frags sizes := by
  intro h'
  have hout (b : Nat) (hne : b ≠ b₀) : ∀ j < frag, block frag m' b j = block frag m b j := by
    have hsame : SameOutside frag b₀ m m' := by
      intro i hi
      rw [hflip, if_neg (by omega)]
    exact hsame.block hne
  have hblocks := blockSum_change (w := fun g => (whole frag g).toNat)
    (fun hg => congrArg Bool.toNat (whole_congr hg)) hb hout
  have hfrags := blockSum_change (w := fragCount frag) fragCount_congr hb hout
  have heq := h.blocks.symm.trans h'.blocks
  have heq' := h.frags.symm.trans h'.frags
  unfold freeBlocks at heq
  unfold FreeMap.freeFrags at heq'
  -- the block has the same weights in both
  have hwhole : whole frag (block frag m b₀) = whole frag (block frag m' b₀) := by
    have hnat : (whole frag (block frag m b₀)).toNat = (whole frag (block frag m' b₀)).toNat := by omega
    revert hnat
    cases whole frag (block frag m b₀) <;> cases whole frag (block frag m' b₀) <;> decide
  have hcount : fragCount frag (block frag m b₀) = fragCount frag (block frag m' b₀) := by omega
  have hbit : block frag m' b₀ j₀ = !block frag m b₀ j₀ := (hflip _).trans (if_pos rfl)
  have hother {j : Nat} (hne : j ≠ j₀) : block frag m' b₀ j = block frag m b₀ j :=
    (hflip _).trans (if_neg (by omega))
  cases hw : whole frag (block frag m b₀) with
  | true =>
      rw [hw, eq_comm] at hwhole
      rw [(whole_iff _).mp hwhole j₀ hj, (whole_iff _).mp hw j₀ hj] at hbit
      cases hbit
  | false =>
      rw [hw, eq_comm] at hwhole
      unfold fragCount at hcount
      rw [hw, hwhole, if_neg Bool.false_ne_true, if_neg Bool.false_ne_true] at hcount
      -- the counts differ by the one fragment
      have hmem (g : Nat → Bool) : ((range frag).filter fun j => g j = true).card
          = (((range frag).erase j₀).filter fun j => g j = true).card + (g j₀).toNat := by
        conv_lhs => rw [← insert_erase (mem_range.mpr hj), filter_insert]
        cases hg : g j₀ with
        | true => rw [if_pos rfl, card_insert_of_notMem (by simp), Bool.toNat_true]
        | false => rw [if_neg Bool.false_ne_true, Bool.toNat_false, Nat.add_zero]
      have hrest : ((range frag).erase j₀).filter (fun j => block frag m' b₀ j = true)
          = ((range frag).erase j₀).filter fun j => block frag m b₀ j = true :=
        filter_congr fun j hj' => by rw [hother (ne_of_mem_erase hj')]
      rw [hmem, hmem, hrest, hbit] at hcount
      cases hb₀ : block frag m b₀ j₀ with
      | true =>
          rw [hb₀] at hcount
          simp at hcount
      | false =>
          rw [hb₀] at hcount
          simp at hcount

end Change

end UfsX.Lib.FreeMap
