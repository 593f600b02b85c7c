import UfsX.Ffs.Subr
import UfsX.Proofs.Blocks

/-!
# `UfsX.Proofs.Fragacct`: `ffs_fragacct` counts maximal runs

`ffsFragacct_apply`: adding a block's map with weight `cnt` adds to each
`fraglist[k]` with `0 < k < fs_frag` the number of maximal runs of `k`
fragments in the block, times `cnt`, and leaves the other entries alone.

The inner loop walks the block from low to high and skips a run once it has
counted it; `runsFrom` of the library is what such a walk has still to count.
The `fragtbl` test before it only saves work: when it fails there is no run of
that size.
-/

set_option autoImplicit false

namespace UfsX.Proofs

open UfsX.Lib UfsX.Ffs

variable (fs : Fs)

/-- The inner loop, from start position `q` on: it counts the runs that start
at `q` or later. -/
theorem fragacctScan_eq {blk siz : Nat} (cnt : Int) (hblk : blk < 2 ^ fs.frag) (hsiz : 0 < siz)
    (hsiz8 : siz ≤ 8) : ∀ (fuel q : Nat) (fraglist : Nat → Int), fs.frag + 1 ≤ fuel + (q + siz) →
    fragacctScan fs (blk <<< 1) siz cnt fuel (q + siz) (around siz <<< q) (inside siz <<< q)
        fraglist
      = Function.update fraglist siz
          (fraglist siz + cnt * runsFrom blk.testBit fs.frag siz q) := by
  intro fuel
  induction fuel with
  | zero =>
      intro q fraglist hfuel
      rw [fragacctScan, runsFrom_end (by omega)]
      simp
  | succ fuel ih =>
      intro q fraglist hfuel
      rw [fragacctScan]
      by_cases hpos : q + siz ≤ fs.frag
      · rw [if_pos hpos]
        by_cases hm : fragMatch (blk <<< 1) (around siz <<< q) (inside siz <<< q) = true
        · -- A match is a run that starts at `q`; the loop goes on behind it.
          have hrun := (fragMatch_iff hblk hsiz hsiz8 hpos).mp hm
          rw [if_pos hm, ← Nat.shiftLeft_add, ← Nat.shiftLeft_add, ← Nat.shiftLeft_add,
            ← Nat.shiftLeft_add, ← Nat.add_assoc q siz 1,
            show q + siz + siz + 1 = q + siz + 1 + siz from by omega,
            ih (q + siz + 1) _ (by omega), Function.update_self, Function.update_idem,
            runsFrom_of_isRun hrun]
          congr 1
          push_cast
          ring
        · have hno : ¬ IsRun blk.testBit fs.frag q siz := fun hrun =>
            hm ((fragMatch_iff hblk hsiz hsiz8 hpos).mpr hrun)
          rw [if_neg hm, ← Nat.shiftLeft_add, ← Nat.shiftLeft_add,
            show q + siz + 1 = q + 1 + siz from by omega, ih (q + 1) _ (by omega),
            ← runsFrom_skip (q := q) (by omega)]
          intro p hlo hhi
          rwa [show p = q from by omega]
      · rw [if_neg hpos, runsFrom_end (by omega)]
        simp

/-- When the table entry of a block has no bit for `siz`, the block has no run
of that size. -/
theorem runs_eq_zero_of_fragtbl {blk siz : Nat} (hblk : blk < 2 ^ fs.frag) (hsiz : 0 < siz)
    (hlt : siz ≤ fs.frag)
    (htbl : ((fragtbl fs.frag).getD blk 0 <<< 1) &&& (1 <<< (siz + fs.frag % 8)) = 0) :
    runs blk.testBit fs.frag siz = 0 := by
  have hpow : 2 ^ fs.frag ≤ 256 := by
    rcases fs.fragOk with h | h | h | h <;> rw [h] <;> decide
  have hfrag := fs.fragOk.le
  have hclear : ((fragtbl fs.frag).getD blk 0).testBit (siz - 1 + fs.frag % 8) = false := by
    rw [Nat.one_shiftLeft, Nat.and_two_pow, Nat.mul_eq_zero] at htbl
    rcases htbl with h | h
    · rw [Bool.toNat_eq_zero, Nat.testBit_shiftLeft,
        decide_eq_true (by omega : siz + fs.frag % 8 ≥ 1), Bool.true_and] at h
      rwa [show siz - 1 + fs.frag % 8 = siz + fs.frag % 8 - 1 from by omega]
    · exact absurd h (Nat.two_pow_pos _).ne'
  rw [runs, Finset.card_eq_zero, Finset.filter_eq_empty_iff]
  intro p _ hrun
  have hspec := (fragtbl_spec fs.fragOk (show blk < 256 from by omega) hsiz hlt).mpr
    ⟨0, Nat.div_pos hfrag.2 hfrag.1, p, by
      have hb : byteBlock fs.frag blk 0 = blk := by
        show (blk >>> (0 * fs.frag)) % 2 ^ fs.frag = blk
        rw [Nat.zero_mul, Nat.shiftRight_zero, Nat.mod_eq_of_lt hblk]
      rwa [hb]⟩
  rw [hclear] at hspec
  exact absurd hspec (by decide)

/-- One size of the outer loop. -/
theorem fragacctSizes_succ {blk : Nat} (cnt : Int) (hblk : blk < 2 ^ fs.frag) {siz : Nat}
    (hsiz : 0 < siz) (hlt : siz < fs.frag) (fuel : Nat) (fraglist : Nat → Int) :
    fragacctSizes fs blk cnt (fuel + 1) siz fraglist
      = fragacctSizes fs blk cnt fuel (siz + 1)
          (Function.update fraglist siz
            (fraglist siz + cnt * runs blk.testBit fs.frag siz)) := by
  have hfrag := fs.fragOk.le
  rw [fragacctSizes, if_pos hlt]
  by_cases htbl : ((fragtbl fs.frag).getD blk 0 <<< 1) &&& (1 <<< (siz + fs.frag % 8)) = 0
  · rw [if_pos htbl, runs_eq_zero_of_fragtbl fs hblk hsiz (by omega) htbl]
    simp
  · have hscan := fragacctScan_eq fs cnt hblk hsiz (by omega) (fs.frag + 1) 0 fraglist (by omega)
    rw [Nat.zero_add, Nat.shiftLeft_zero, Nat.shiftLeft_zero, runsFrom_zero] at hscan
    rw [if_neg htbl, hscan]

/-- The outer loop from `siz` on updates the sizes `siz .. fs_frag - 1`. -/
theorem fragacctSizes_apply {blk : Nat} (cnt : Int) (hblk : blk < 2 ^ fs.frag) :
    ∀ (fuel siz : Nat) (fraglist : Nat → Int), 0 < siz → fs.frag ≤ fuel + siz → ∀ k,
      fragacctSizes fs blk cnt fuel siz fraglist k
        = if siz ≤ k ∧ k < fs.frag then fraglist k + cnt * runs blk.testBit fs.frag k
          else fraglist k := by
  intro fuel
  induction fuel with
  | zero =>
      intro siz fraglist _ hfuel k
      rw [fragacctSizes, if_neg (by omega)]
  | succ fuel ih =>
      intro siz fraglist hsiz hfuel k
      by_cases hlt : siz < fs.frag
      · rw [fragacctSizes_succ fs cnt hblk hsiz hlt, ih _ _ (by omega) (by omega)]
        by_cases hk : k = siz
        · subst hk
          rw [Function.update_self, if_neg (by omega), if_pos (by omega)]
        · rw [Function.update_of_ne hk]
          exact if_congr (by omega) rfl rfl
      · rw [fragacctSizes, if_neg hlt, if_neg (by omega)]

/-- `ffs_fragacct` adds `cnt` for each maximal run that is shorter than a
block. -/
theorem ffsFragacct_apply {blk : Nat} (hblk : blk < 2 ^ fs.frag) (fraglist : Nat → Int)
    (cnt : Int) (k : Nat) :
    ffsFragacct fs blk fraglist cnt k
      = if 0 < k ∧ k < fs.frag then fraglist k + cnt * runs blk.testBit fs.frag k
        else fraglist k :=
  fragacctSizes_apply fs cnt hblk fs.frag 1 fraglist (by decide) (by omega) k

/-- `ffs_fragacct` of the block at fragment `b * fs_frag` of a map. -/
theorem ffsFragacct_blkmap (m : Bitmap) (b : Nat) (fraglist : Nat → Int) (cnt : Int) {k : Nat}
    (hk : 0 < k) (hlt : k < fs.frag) :
    ffsFragacct fs (blkmap fs m (b * fs.frag)) fraglist cnt k
      = fraglist k + cnt * runs (blkBits fs m b) fs.frag k := by
  rw [ffsFragacct_apply fs (blkmap_lt fs m _), if_pos ⟨hk, hlt⟩,
    runs_congr fun i hi => testBit_blkmap fs m b i hi]

end UfsX.Proofs
