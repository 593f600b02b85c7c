import UfsX.Lib.Runs
import Mathlib.Data.Nat.Bitwise
import Mathlib.Tactic.IntervalCases

/-!
# `UfsX.Ffs.Tables`: the fragment tables of `ffs_tables.c`

`around` and `inside` are the patterns for `(map & around) == inside`, and
`fragtbl` says for a byte of the free map which fragment sizes it offers. The
tables are data of the source, copied entry by entry.

`fragMatch_iff` gives the pattern test its meaning: it recognises a maximal
run. `fragtbl_spec` does the same for `fragtbl`, by one pass over all 256
entries of each table. Searches and summaries use these two facts and never
look at an entry again.
-/

set_option autoImplicit false

namespace UfsX.Ffs

open UfsX.Lib

/-- Bit patterns for identifying fragments in the block map. -/
def around (k : Nat) : Nat := [0x3, 0x7, 0xf, 0x1f, 0x3f, 0x7f, 0xff, 0x1ff, 0x3ff].getD k 0

/-- Bit patterns for identifying fragments in the block map. -/
def inside (k : Nat) : Nat := [0x0, 0x2, 0x6, 0xe, 0x1e, 0x3e, 0x7e, 0xfe, 0x1fe].getD k 0

/-- The table for `fs_frag` of 1, 2 and 4. -/
def fragtbl124 : List Nat :=
  [0x00, 0x16, 0x16, 0x2a, 0x16, 0x16, 0x26, 0x4e,
   0x16, 0x16, 0x16, 0x3e, 0x2a, 0x3e, 0x4e, 0x8a,
   0x16, 0x16, 0x16, 0x3e, 0x16, 0x16, 0x36, 0x5e,
   0x16, 0x16, 0x16, 0x3e, 0x3e, 0x3e, 0x5e, 0x9e,
   0x16, 0x16, 0x16, 0x3e, 0x16, 0x16, 0x36, 0x5e,
   0x16, 0x16, 0x16, 0x3e, 0x3e, 0x3e, 0x5e, 0x9e,
   0x2a, 0x3e, 0x3e, 0x2a, 0x3e, 0x3e, 0x2e, 0x6e,
   0x3e, 0x3e, 0x3e, 0x3e, 0x2a, 0x3e, 0x6e, 0xaa,
   0x16, 0x16, 0x16, 0x3e, 0x16, 0x16, 0x36, 0x5e,
   0x16, 0x16, 0x16, 0x3e, 0x3e, 0x3e, 0x5e, 0x9e,
   0x16, 0x16, 0x16, 0x3e, 0x16, 0x16, 0x36, 0x5e,
   0x16, 0x16, 0x16, 0x3e, 0x3e, 0x3e, 0x5e, 0x9e,
   0x26, 0x36, 0x36, 0x2e, 0x36, 0x36, 0x26, 0x6e,
   0x36, 0x36, 0x36, 0x3e, 0x2e, 0x3e, 0x6e, 0xae,
   0x4e, 0x5e, 0x5e, 0x6e, 0x5e, 0x5e, 0x6e, 0x4e,
   0x5e, 0x5e, 0x5e, 0x7e, 0x6e, 0x7e, 0x4e, 0xce,
   0x16, 0x16, 0x16, 0x3e, 0x16, 0x16, 0x36, 0x5e,
   0x16, 0x16, 0x16, 0x3e, 0x3e, 0x3e, 0x5e, 0x9e,
   0x16, 0x16, 0x16, 0x3e, 0x16, 0x16, 0x36, 0x5e,
   0x16, 0x16, 0x16, 0x3e, 0x3e, 0x3e, 0x5e, 0x9e,
   0x16, 0x16, 0x16, 0x3e, 0x16, 0x16, 0x36, 0x5e,
   0x16, 0x16, 0x16, 0x3e, 0x3e, 0x3e, 0x5e, 0x9e,
   0x3e, 0x3e, 0x3e, 0x3e, 0x3e, 0x3e, 0x3e, 0x7e,
   0x3e, 0x3e, 0x3e, 0x3e, 0x3e, 0x3e, 0x7e, 0xbe,
   0x2a, 0x3e, 0x3e, 0x2a, 0x3e, 0x3e, 0x2e, 0x6e,
   0x3e, 0x3e, 0x3e, 0x3e, 0x2a, 0x3e, 0x6e, 0xaa,
   0x3e, 0x3e, 0x3e, 0x3e, 0x3e, 0x3e, 0x3e, 0x7e,
   0x3e, 0x3e, 0x3e, 0x3e, 0x3e, 0x3e, 0x7e, 0xbe,
   0x4e, 0x5e, 0x5e, 0x6e, 0x5e, 0x5e, 0x6e, 0x4e,
   0x5e, 0x5e, 0x5e, 0x7e, 0x6e, 0x7e, 0x4e, 0xce,
   0x8a, 0x9e, 0x9e, 0xaa, 0x9e, 0x9e, 0xae, 0xce,
   0x9e, 0x9e, 0x9e, 0xbe, 0xaa, 0xbe, 0xce, 0x8a]

/-- The table for `fs_frag` of 8. -/
def fragtbl8 : List Nat :=
  [0x00, 0x01, 0x01, 0x02, 0x01, 0x01, 0x02, 0x04,
   0x01, 0x01, 0x01, 0x03, 0x02, 0x03, 0x04, 0x08,
   0x01, 0x01, 0x01, 0x03, 0x01, 0x01, 0x03, 0x05,
   0x02, 0x03, 0x03, 0x02, 0x04, 0x05, 0x08, 0x10,
   0x01, 0x01, 0x01, 0x03, 0x01, 0x01, 0x03, 0x05,
   0x01, 0x01, 0x01, 0x03, 0x03, 0x03, 0x05, 0x09,
   0x02, 0x03, 0x03, 0x02, 0x03, 0x03, 0x02, 0x06,
   0x04, 0x05, 0x05, 0x06, 0x08, 0x09, 0x10, 0x20,
   0x01, 0x01, 0x01, 0x03, 0x01, 0x01, 0x03, 0x05,
   0x01, 0x01, 0x01, 0x03, 0x03, 0x03, 0x05, 0x09,
   0x01, 0x01, 0x01, 0x03, 0x01, 0x01, 0x03, 0x05,
   0x03, 0x03, 0x03, 0x03, 0x05, 0x05, 0x09, 0x11,
   0x02, 0x03, 0x03, 0x02, 0x03, 0x03, 0x02, 0x06,
   0x03, 0x03, 0x03, 0x03, 0x02, 0x03, 0x06, 0x0a,
   0x04, 0x05, 0x05, 0x06, 0x05, 0x05, 0x06, 0x04,
   0x08, 0x09, 0x09, 0x0a, 0x10, 0x11, 0x20, 0x40,
   0x01, 0x01, 0x01, 0x03, 0x01, 0x01, 0x03, 0x05,
   0x01, 0x01, 0x01, 0x03, 0x03, 0x03, 0x05, 0x09,
   0x01, 0x01, 0x01, 0x03, 0x01, 0x01, 0x03, 0x05,
   0x03, 0x03, 0x03, 0x03, 0x05, 0x05, 0x09, 0x11,
   0x01, 0x01, 0x01, 0x03, 0x01, 0x01, 0x03, 0x05,
   0x01, 0x01, 0x01, 0x03, 0x03, 0x03, 0x05, 0x09,
   0x03, 0x03, 0x03, 0x03, 0x03, 0x03, 0x03, 0x07,
   0x05, 0x05, 0x05, 0x07, 0x09, 0x09, 0x11, 0x21,
   0x02, 0x03, 0x03, 0x02, 0x03, 0x03, 0x02, 0x06,
   0x03, 0x03, 0x03, 0x03, 0x02, 0x03, 0x06, 0x0a,
   0x03, 0x03, 0x03, 0x03, 0x03, 0x03, 0x03, 0x07,
   0x02, 0x03, 0x03, 0x02, 0x06, 0x07, 0x0a, 0x12,
   0x04, 0x05, 0x05, 0x06, 0x05, 0x05, 0x06, 0x04,
   0x05, 0x05, 0x05, 0x07, 0x06, 0x07, 0x04, 0x0c,
   0x08, 0x09, 0x09, 0x0a, 0x09, 0x09, 0x0a, 0x0c,
   0x10, 0x11, 0x11, 0x12, 0x20, 0x21, 0x40, 0x80]

/-- `fragtbl[frag]`; the entries for other values of `frag` are null. -/
def fragtbl (frag : Nat) : List Nat :=
  if frag = 8 then fragtbl8 else if frag = 1 ∨ frag = 2 ∨ frag = 4 then fragtbl124 else []

/-- `(blk & field) == subfield`, with `blk` already shifted left by one. -/
def fragMatch (blk field subfield : Nat) : Bool := Nat.beq (Nat.land blk field) subfield

/-! ### The pattern test -/

theorem around_eq {k : Nat} (hk : k ≤ 8) : around k = 2 ^ (k + 2) - 1 := by
  interval_cases k <;> rfl

theorem inside_eq {k : Nat} (hk : k ≤ 8) : inside k = (2 ^ k - 1) <<< 1 := by
  interval_cases k <;> rfl

/-- Bit by bit, the pattern test looks at the bits `pos .. pos + k + 1` of the
shifted block and asks the middle `k` of them to be set and the two others to
be clear. -/
theorem land_around_eq_inside_iff (blk pos : Nat) {k : Nat} (hk8 : k ≤ 8) :
    Nat.land (blk <<< 1) (around k <<< pos) = inside k <<< pos ↔
      ∀ i, pos ≤ i → i < pos + k + 2 →
        (decide (1 ≤ i) && blk.testBit (i - 1)) = decide (pos + 1 ≤ i ∧ i < pos + 1 + k) := by
  have hland : ∀ a b : Nat, Nat.land a b = a &&& b := fun _ _ => rfl
  rw [around_eq hk8, inside_eq hk8]
  constructor
  · intro h i hlo hhi
    have hi := congrArg (fun x => x.testBit i) h
    simp only [hland, Nat.testBit_and, Nat.testBit_shiftLeft, Nat.testBit_two_pow_sub_one,
      ge_iff_le, hlo, decide_true, Bool.true_and, show i - pos < k + 2 from by omega,
      Bool.and_true] at hi
    rw [hi, ← Bool.decide_and]
    exact decide_eq_decide.mpr (by omega)
  · intro h
    refine Nat.eq_of_testBit_eq fun i => ?_
    simp only [hland, Nat.testBit_and, Nat.testBit_shiftLeft, Nat.testBit_two_pow_sub_one,
      ge_iff_le]
    by_cases hin : pos ≤ i ∧ i < pos + k + 2
    · rw [h i hin.1 hin.2, decide_eq_true hin.1,
        decide_eq_true (show i - pos < k + 2 from by omega), Bool.true_and, Bool.true_and,
        Bool.and_true, ← Bool.decide_and]
      exact decide_eq_decide.mpr (by omega)
    · by_cases hlo : pos ≤ i
      · rw [decide_eq_false (show ¬ i - pos < k + 2 from by omega),
          decide_eq_false (show ¬ i - pos - 1 < k from by omega)]
        simp only [Bool.and_false]
      · rw [decide_eq_false hlo]
        simp only [Bool.false_and, Bool.and_false]

/-- The pattern test at position `pos` of a block of `frag` bits recognises a
maximal run of `k` fragments that starts at `pos`. The left shift by one puts
a zero below the block, and the block has no bit at or above `frag`, so both
ends of the block count as clear. -/
theorem fragMatch_iff {frag blk k pos : Nat} (hblk : blk < 2 ^ frag) (hk : 0 < k) (hk8 : k ≤ 8)
    (hpos : pos + k ≤ frag) :
    fragMatch (blk <<< 1) (around k <<< pos) (inside k <<< pos) = true
      ↔ IsRun blk.testBit frag pos k := by
  rw [fragMatch, Nat.beq_eq, land_around_eq_inside_iff blk pos hk8]
  constructor
  · intro h
    refine ⟨hk, hpos, fun j hj => ?_, ?_, ?_⟩
    · have hi := h (pos + j + 1) (by omega) (by omega)
      simpa [show pos + 1 ≤ pos + j + 1 ∧ pos + j + 1 < pos + 1 + k from by omega] using hi
    · by_cases h0 : pos = 0
      · exact Or.inl h0
      · right
        have hi := h pos (Nat.le_refl _) (by omega)
        rwa [decide_eq_true (show 1 ≤ pos from by omega), Bool.true_and,
          decide_eq_false (show ¬ (pos + 1 ≤ pos ∧ pos < pos + 1 + k) from by omega)] at hi
    · right
      have hi := h (pos + k + 1) (by omega) (by omega)
      rwa [decide_eq_true (show 1 ≤ pos + k + 1 from by omega), Bool.true_and,
        decide_eq_false (show ¬ (pos + 1 ≤ pos + k + 1 ∧ pos + k + 1 < pos + 1 + k) from by omega),
        Nat.add_sub_cancel] at hi
  · rintro ⟨-, -, hset, hlo, hhi⟩ i hi1 hi2
    by_cases hmid : pos + 1 ≤ i ∧ i < pos + 1 + k
    · have hs := hset (i - 1 - pos) (by omega)
      rw [show pos + (i - 1 - pos) = i - 1 from by omega] at hs
      rw [hs, decide_eq_true (show 1 ≤ i from by omega), decide_eq_true hmid]
      rfl
    · rw [decide_eq_false hmid]
      by_cases hp : i = pos
      · subst hp
        rcases hlo with h0 | h0
        · rw [decide_eq_false (show ¬ 1 ≤ i from by omega), Bool.false_and]
        · rw [h0, Bool.and_false]
      · have htop : i - 1 = pos + k := by omega
        rcases hhi with he | he
        · rw [htop, he, Nat.testBit_lt_two_pow hblk, Bool.and_false]
        · rw [htop, he, Bool.and_false]

/-! ### The fragment tables -/

/-- The pattern test for size `k` succeeds somewhere in a block. -/
def blockOffers (frag blk k : Nat) : Bool :=
  (List.range (Nat.sub (Nat.succ frag) k)).any fun pos =>
    fragMatch (Nat.shiftLeft blk 1) (Nat.shiftLeft (around k) pos) (Nat.shiftLeft (inside k) pos)

/-- Block `q` of a byte, the value `blkmap` extracts. -/
def byteBlock (frag byte q : Nat) : Nat :=
  Nat.mod (Nat.shiftRight byte (Nat.mul q frag)) (Nat.pow 2 frag)

/-- One table entry says for each size whether some block of the byte offers
it. -/
def entryOk (frag byte entry : Nat) : Bool :=
  (List.range frag).all fun k =>
    Nat.beq (Nat.land (Nat.shiftRight entry (Nat.add k (Nat.mod frag 8))) 1) 1
      == (List.range (8 / frag)).any fun q =>
        blockOffers frag (byteBlock frag byte q) (Nat.succ k)

/-- All entries of a table, in order. -/
def tableOk (frag : Nat) : Nat → List Nat → Bool
  | _, [] => true
  | byte, e :: es => entryOk frag byte e && tableOk frag (Nat.succ byte) es

/-- The four legal values of `fs_frag`. -/
def FragOk (frag : Nat) : Prop := frag = 1 ∨ frag = 2 ∨ frag = 4 ∨ frag = 8

theorem FragOk.le {frag : Nat} (h : FragOk frag) : 0 < frag ∧ frag ≤ 8 := by
  rcases h with rfl | rfl | rfl | rfl <;> decide

/-- Blocks do not straddle bytes. -/
theorem FragOk.dvd {frag : Nat} (h : FragOk frag) : 8 / frag * frag = 8 := by
  rcases h with rfl | rfl | rfl | rfl <;> rfl

theorem tableOk_fragtbl {frag : Nat} (h : FragOk frag) :
    tableOk frag 0 (fragtbl frag) = true ∧ (fragtbl frag).length = 256 := by
  rcases h with rfl | rfl | rfl | rfl
  all_goals exact ⟨by decide +kernel, by decide +kernel⟩

/-- Every entry of a checked table is correct for its byte. -/
theorem entryOk_of_tableOk {frag : Nat} : ∀ {byte : Nat} {es : List Nat},
    tableOk frag byte es = true → ∀ i < es.length, entryOk frag (byte + i) (es.getD i 0) = true := by
  intro byte es
  induction es generalizing byte with
  | nil => intro _ i hi; exact absurd hi (Nat.not_lt_zero _)
  | cons e es ih =>
      intro h i hi
      rw [tableOk, Bool.and_eq_true] at h
      cases i with
      | zero => exact h.1
      | succ i =>
          have hrec := ih h.2 i (Nat.lt_of_succ_lt_succ hi)
          rwa [Nat.succ_add_eq_add_succ] at hrec

/-- A block offers size `k` exactly when it has a maximal run of `k`
fragments. -/
theorem blockOffers_iff {frag blk k : Nat} (hfrag : FragOk frag) (hblk : blk < 2 ^ frag)
    (hk : 0 < k) (hkf : k ≤ frag) :
    blockOffers frag blk k = true ↔ ∃ p, IsRun blk.testBit frag p k := by
  have hle := hfrag.le
  have hrange : ∀ p, p < Nat.sub (Nat.succ frag) k ↔ p + k ≤ frag := fun p => by
    show p < frag + 1 - k ↔ p + k ≤ frag
    omega
  simp only [blockOffers, List.any_eq_true, List.mem_range, hrange]
  constructor
  · rintro ⟨p, hpk, hm⟩
    exact ⟨p, (fragMatch_iff hblk hk (by omega) hpk).mp hm⟩
  · rintro ⟨p, hrun⟩
    exact ⟨p, hrun.2.1, (fragMatch_iff hblk hk (by omega) hrun.2.1).mpr hrun⟩

/-- The bit of a `fragtbl` entry for size `k` is set exactly when one of the
byte's blocks has a maximal run of exactly `k` fragments. -/
theorem fragtbl_spec {frag byte k : Nat} (hfrag : FragOk frag) (hbyte : byte < 256)
    (hk : 0 < k) (hkf : k ≤ frag) :
    ((fragtbl frag).getD byte 0).testBit (k - 1 + frag % 8) = true
      ↔ ∃ q < 8 / frag, ∃ p, IsRun (byteBlock frag byte q).testBit frag p k := by
  obtain ⟨htab, hlen⟩ := tableOk_fragtbl hfrag
  have hentry := entryOk_of_tableOk htab byte (by omega)
  rw [Nat.zero_add, entryOk, List.all_eq_true] at hentry
  have hk' := hentry (k - 1) (List.mem_range.mpr (by omega))
  rw [beq_iff_eq, show Nat.succ (k - 1) = k from by omega] at hk'
  have hblk : ∀ q, byteBlock frag byte q < 2 ^ frag := fun q =>
    Nat.mod_lt _ (Nat.two_pow_pos frag)
  have htest : ((fragtbl frag).getD byte 0).testBit (k - 1 + frag % 8)
      = Nat.beq (Nat.land (Nat.shiftRight ((fragtbl frag).getD byte 0)
          (Nat.add (k - 1) (Nat.mod frag 8))) 1) 1 := by
    rw [Bool.eq_iff_iff, Nat.beq_eq, Nat.testBit_eq_decide_div_mod_eq, decide_eq_true_eq,
      ← Nat.shiftRight_eq_div_pow, ← Nat.and_one_is_mod]
    rfl
  rw [htest, hk', List.any_eq_true]
  constructor
  · rintro ⟨q, hq, hoff⟩
    exact ⟨q, List.mem_range.mp hq, (blockOffers_iff hfrag (hblk q) hk hkf).mp hoff⟩
  · rintro ⟨q, hq, hrun⟩
    exact ⟨q, List.mem_range.mpr hq, (blockOffers_iff hfrag (hblk q) hk hkf).mpr hrun⟩

end UfsX.Ffs
