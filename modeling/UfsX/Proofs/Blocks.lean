import UfsX.Ffs.Subr

/-!
# `UfsX.Proofs.Blocks`: the block operations, bit by bit

`ffs_isblock` and its relatives are written as a `switch` over `fs_frag`, one
byte expression per case. `ffsIsblock_iff`, `ffsIsfreeblock_iff`,
`isset_ffsClrblock`, `isset_ffsSetblock` and `testBit_blkmap` say once what
they mean: block `b` is the `fs_frag` bits from `b * fs_frag` on. Later proofs
see bits only.

The four cases of each `switch` are one expression in disguise. The byte that
holds block `b` is `blkByte`, and the mask is `blkMask`.
-/

set_option autoImplicit false

namespace UfsX.Proofs

open UfsX.Lib UfsX.Ffs

variable (fs : Fs)

/-- The byte that holds block `b`. -/
def blkByte (b : Nat) : Nat := b * fs.frag / 8

/-- The mask of block `b` in its byte. -/
def blkMask (b : Nat) : BitVec 8 := BitVec.ofNat 8 (2 ^ fs.frag - 1) <<< (b * fs.frag % 8)

/-- A block lies inside one byte. -/
theorem block_in_byte (b : Nat) : b * fs.frag % 8 + fs.frag ≤ 8 := by
  rcases fs.fragOk with h | h | h | h <;> rw [h] <;> omega

theorem getLsbD_blkMask (b j : Nat) (hj : j < 8) :
    (blkMask fs b).getLsbD j
      = decide (b * fs.frag % 8 ≤ j ∧ j < b * fs.frag % 8 + fs.frag) := by
  rw [blkMask, BitVec.getLsbD_shiftLeft, BitVec.getLsbD_ofNat, Nat.testBit_two_pow_sub_one,
    decide_eq_true hj, Bool.true_and]
  by_cases hlo : b * fs.frag % 8 ≤ j
  · rw [decide_eq_false (by omega : ¬ j < b * fs.frag % 8),
      decide_eq_true (by omega : j - b * fs.frag % 8 < 8), Bool.not_false, Bool.true_and,
      Bool.true_and]
    exact decide_eq_decide.mpr (by omega)
  · rw [decide_eq_true (by omega : j < b * fs.frag % 8), Bool.not_true, Bool.false_and]
    exact (decide_eq_false (by omega)).symm

/-- The byte index and the mask that the source writes for each `fs_frag` are
the byte of the block's first bit and `blkMask`. -/
theorem blkMask_of_frag (b : Nat) :
    (fs.frag = 8 → b = blkByte fs b ∧ 0xff#8 = blkMask fs b) ∧
    (fs.frag = 4 → b >>> 1 = blkByte fs b ∧
      0x0f#8 <<< ((b &&& 0x1) <<< 2) = blkMask fs b) ∧
    (fs.frag = 2 → b >>> 2 = blkByte fs b ∧
      0x03#8 <<< ((b &&& 0x3) <<< 1) = blkMask fs b) ∧
    (fs.frag = 1 → b >>> 3 = blkByte fs b ∧ 0x01#8 <<< (b &&& 0x7) = blkMask fs b) := by
  unfold blkMask blkByte
  refine ⟨fun h => ?_, fun h => ?_, fun h => ?_, fun h => ?_⟩ <;> rw [h]
  · refine ⟨by omega, ?_⟩
    rw [show b * 8 % 8 = 0 from by omega]
    rfl
  · rw [Nat.shiftRight_eq_div_pow, Nat.shiftLeft_eq,
      show b &&& 0x1 = b % 2 from Nat.and_two_pow_sub_one_eq_mod b 1,
      show b * 4 % 8 = b % 2 * 4 from by omega]
    exact ⟨by omega, rfl⟩
  · rw [Nat.shiftRight_eq_div_pow, Nat.shiftLeft_eq,
      show b &&& 0x3 = b % 4 from Nat.and_two_pow_sub_one_eq_mod b 2,
      show b * 2 % 8 = b % 4 * 2 from by omega]
    exact ⟨by omega, rfl⟩
  · rw [Nat.shiftRight_eq_div_pow, Nat.mul_one,
      show b &&& 0x7 = b % 8 from Nat.and_two_pow_sub_one_eq_mod b 3]
    exact ⟨rfl, rfl⟩

theorem ffsIsblock_eq (cp : Bitmap) (b : Nat) :
    ffsIsblock fs cp b = ((cp (blkByte fs b) &&& blkMask fs b) == blkMask fs b) := by
  obtain ⟨h8, h4, h2, h1⟩ := blkMask_of_frag fs b
  unfold ffsIsblock
  rcases fs.fragOk with h | h | h | h <;> simp only [h]
  · simp only [h1 h]
  · simp only [h2 h]
  · simp only [h4 h]
  · obtain ⟨hb, hm⟩ := h8 h
    rw [← hb, ← hm]
    exact congrArg (· == 0xff#8) (BitVec.and_allOnes (x := cp b)).symm

theorem ffsIsfreeblock_eq (cp : Bitmap) (b : Nat) :
    ffsIsfreeblock fs cp b = ((cp (blkByte fs b) &&& blkMask fs b) == 0#8) := by
  obtain ⟨h8, h4, h2, h1⟩ := blkMask_of_frag fs b
  unfold ffsIsfreeblock
  rcases fs.fragOk with h | h | h | h <;> simp only [h]
  · simp only [h1 h]
  · simp only [h2 h]
  · simp only [h4 h]
  · obtain ⟨hb, hm⟩ := h8 h
    rw [← hb, ← hm]
    exact congrArg (· == 0#8) (BitVec.and_allOnes (x := cp b)).symm

theorem ffsClrblock_eq (cp : Bitmap) (b : Nat) :
    ffsClrblock fs cp b = Function.update cp (blkByte fs b)
      (cp (blkByte fs b) &&& ~~~(blkMask fs b)) := by
  obtain ⟨h8, h4, h2, h1⟩ := blkMask_of_frag fs b
  unfold ffsClrblock
  rcases fs.fragOk with h | h | h | h <;> simp only [h]
  · simp only [h1 h]
  · simp only [h2 h]
  · simp only [h4 h]
  · obtain ⟨hb, hm⟩ := h8 h
    rw [← hb, ← hm, show ~~~(0xff#8) = 0#8 from by decide, BitVec.and_zero]

theorem ffsSetblock_eq (cp : Bitmap) (b : Nat) :
    ffsSetblock fs cp b = Function.update cp (blkByte fs b)
      (cp (blkByte fs b) ||| blkMask fs b) := by
  obtain ⟨h8, h4, h2, h1⟩ := blkMask_of_frag fs b
  unfold ffsSetblock
  rcases fs.fragOk with h | h | h | h <;> simp only [h]
  · simp only [h1 h]
  · simp only [h2 h]
  · simp only [h4 h]
  · obtain ⟨hb, hm⟩ := h8 h
    rw [← hb, ← hm]
    exact congrArg (Function.update cp b) (BitVec.or_allOnes (x := cp b)).symm

/-! ### Blocks as bits -/

/-- The bits of block `b`. -/
def blkBits (m : Bitmap) (b : Nat) : Nat → Bool := fun j => m.isset (b * fs.frag + j)

/-- Bit `j` of the byte of block `b`, for a `j` inside the mask, is a bit of the
block. -/
theorem getLsbD_blockByte (m : Bitmap) (b j : Nat) (hj : j < 8) :
    (m (blkByte fs b)).getLsbD j = m.isset (b * fs.frag - b * fs.frag % 8 + j) := by
  rw [Bitmap.getLsbD_byte _ _ _ hj, blkByte]
  congr 1
  omega

theorem ffsIsblock_iff (m : Bitmap) (b : Nat) :
    ffsIsblock fs m b = true ↔ ∀ j < fs.frag, blkBits fs m b j = true := by
  have hin := block_in_byte fs b
  rw [ffsIsblock_eq, beq_iff_eq]
  constructor
  · intro h j hj
    have hbit := congrArg (fun x => BitVec.getLsbD x (b * fs.frag % 8 + j)) h
    simp only [BitVec.getLsbD_and] at hbit
    rw [getLsbD_blkMask fs b _ (by omega), decide_eq_true (by omega), Bool.and_true,
      getLsbD_blockByte fs m b _ (by omega)] at hbit
    rwa [show b * fs.frag - b * fs.frag % 8 + (b * fs.frag % 8 + j) = b * fs.frag + j
      from by omega] at hbit
  · intro h
    refine BitVec.eq_of_getLsbD_eq fun j hj => ?_
    rw [BitVec.getLsbD_and, getLsbD_blkMask fs b _ hj, getLsbD_blockByte fs m b _ hj]
    by_cases hm : b * fs.frag % 8 ≤ j ∧ j < b * fs.frag % 8 + fs.frag
    · have hset := h (j - b * fs.frag % 8) (by omega)
      rw [blkBits, show b * fs.frag + (j - b * fs.frag % 8)
        = b * fs.frag - b * fs.frag % 8 + j from by omega] at hset
      rw [hset, Bool.true_and]
    · rw [decide_eq_false hm, Bool.and_false]

theorem ffsIsfreeblock_iff (m : Bitmap) (b : Nat) :
    ffsIsfreeblock fs m b = true ↔ ∀ j < fs.frag, blkBits fs m b j = false := by
  have hin := block_in_byte fs b
  rw [ffsIsfreeblock_eq, beq_iff_eq]
  constructor
  · intro h j hj
    have hbit := congrArg (fun x => BitVec.getLsbD x (b * fs.frag % 8 + j)) h
    simp only [BitVec.getLsbD_and, BitVec.getLsbD_zero] at hbit
    rw [getLsbD_blkMask fs b _ (by omega), decide_eq_true (by omega), Bool.and_true,
      getLsbD_blockByte fs m b _ (by omega)] at hbit
    rwa [show b * fs.frag - b * fs.frag % 8 + (b * fs.frag % 8 + j) = b * fs.frag + j
      from by omega] at hbit
  · intro h
    refine BitVec.eq_of_getLsbD_eq fun j hj => ?_
    rw [BitVec.getLsbD_and, getLsbD_blkMask fs b _ hj, getLsbD_blockByte fs m b _ hj,
      BitVec.getLsbD_zero]
    by_cases hm : b * fs.frag % 8 ≤ j ∧ j < b * fs.frag % 8 + fs.frag
    · have hclr := h (j - b * fs.frag % 8) (by omega)
      rw [blkBits, show b * fs.frag + (j - b * fs.frag % 8)
        = b * fs.frag - b * fs.frag % 8 + j from by omega] at hclr
      rw [hclr, Bool.false_and]
    · rw [decide_eq_false hm, Bool.and_false]

/-- The mask of block `b`, read at the bit of fragment `i`. -/
theorem getLsbD_blkMask_of_byte (b i : Nat) (hbyte : i / 8 = blkByte fs b) :
    (blkMask fs b).getLsbD (i % 8) = decide (b * fs.frag ≤ i ∧ i < b * fs.frag + fs.frag) := by
  have hin := block_in_byte fs b
  rw [blkByte] at hbyte
  rw [getLsbD_blkMask fs b _ (Nat.mod_lt _ (by decide))]
  exact decide_eq_decide.mpr (by omega)

theorem isset_ffsClrblock (m : Bitmap) (b i : Nat) :
    (ffsClrblock fs m b).isset i
      = (!decide (b * fs.frag ≤ i ∧ i < b * fs.frag + fs.frag) && m.isset i) := by
  have hin := block_in_byte fs b
  rw [ffsClrblock_eq]
  unfold Bitmap.isset
  by_cases hbyte : i / 8 = blkByte fs b
  · rw [hbyte, Function.update_self, BitVec.getLsbD_and, BitVec.getLsbD_not,
      getLsbD_blkMask_of_byte fs b i hbyte, decide_eq_true (Nat.mod_lt _ (by decide) : i % 8 < 8),
      Bool.true_and, Bool.and_comm]
  · rw [Function.update_of_ne hbyte, decide_eq_false (by unfold blkByte at hbyte; omega), Bool.not_false, Bool.true_and]

theorem isset_ffsSetblock (m : Bitmap) (b i : Nat) :
    (ffsSetblock fs m b).isset i
      = (decide (b * fs.frag ≤ i ∧ i < b * fs.frag + fs.frag) || m.isset i) := by
  have hin := block_in_byte fs b
  rw [ffsSetblock_eq]
  unfold Bitmap.isset
  by_cases hbyte : i / 8 = blkByte fs b
  · rw [hbyte, Function.update_self, BitVec.getLsbD_or, getLsbD_blkMask_of_byte fs b i hbyte,
      Bool.or_comm]
  · rw [Function.update_of_ne hbyte, decide_eq_false (by unfold blkByte at hbyte; omega), Bool.false_or]

theorem blkmap_eq (m : Bitmap) (loc : Nat) :
    blkmap fs m loc = (m (loc / 8)).toNat >>> (loc % 8) % 2 ^ fs.frag := by
  have hmask : 0xff >>> (8 - fs.frag) = 2 ^ fs.frag - 1 := by
    rcases fs.fragOk with h | h | h | h <;> rw [h] <;> rfl
  rw [blkmap, hmask, Nat.and_two_pow_sub_one_eq_mod]

theorem blkmap_lt (m : Bitmap) (loc : Nat) : blkmap fs m loc < 2 ^ fs.frag := by
  rw [blkmap_eq]
  exact Nat.mod_lt _ (Nat.two_pow_pos _)

/-- `blkmap` reads the bits of a block. -/
theorem testBit_blkmap (m : Bitmap) (b j : Nat) (hj : j < fs.frag) :
    (blkmap fs m (b * fs.frag)).testBit j = blkBits fs m b j := by
  have hin := block_in_byte fs b
  rw [blkmap_eq, Nat.testBit_mod_two_pow, decide_eq_true hj, Bool.true_and,
    Nat.testBit_shiftRight]
  have hbit := getLsbD_blockByte fs m b (b * fs.frag % 8 + j) (by omega)
  rw [show b * fs.frag - b * fs.frag % 8 + (b * fs.frag % 8 + j) = b * fs.frag + j
    from by omega] at hbit
  exact hbit

end UfsX.Proofs
