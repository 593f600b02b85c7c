import UfsX.Ffs.Subr
import UfsX.Proofs.Blocks

/-!
# `UfsX.Proofs.Clusteracct`: the cluster summary stays a run count

`ffs_clusteracct` is told that one block became free or used. It flips the
block's bit in the cluster map, measures the free blocks on either side, and
corrects three entries of `cg_clustersum`.

`SumOk` says that the summary counts the maximal runs of the map by length,
with everything from `fs_contigsumsize` on in the last entry.
`ffsClusteracct_alloc` and `ffsClusteracct_free` say that the update keeps it.
Both are `cappedRuns_clear`, read forwards and backwards.
-/

set_option autoImplicit false

namespace UfsX.Proofs

open UfsX.Lib UfsX.Ffs

variable (fs : Fs)

/-! ### The two searches -/

theorem clusterForw_eq (m : Bitmap) : ∀ left i : Nat,
    clusterForw m left i (m (i / 8)) (1#8 <<< (i % 8)) (i / 8 + 1) = runRight m.isset i left := by
  intro left
  induction left with
  | zero => intro i; rfl
  | succ left ih =>
      intro i
      rw [clusterForw, runRight, Bitmap.and_mask_beq_zero]
      cases hset : m.isset i with
      | false => rfl
      | true =>
          simp only [Bool.not_true, Bool.false_eq_true, if_false, if_true]
          by_cases h7 : i &&& 7 ≠ 7
          · obtain ⟨hbyte, hbit⟩ := Bitmap.mask_up h7
            rw [if_pos h7, hbit, ← hbyte, ih]
          · obtain ⟨hbyte, hbit⟩ := Bitmap.mask_up_wrap h7
            rw [if_neg h7, hbit, ← hbyte, ih]

theorem clusterBack_eq (m : Bitmap) : ∀ left i : Nat, left ≤ i →
    clusterBack m left i (m ((i - 1) / 8)) (1#8 <<< ((i - 1) % 8)) ((i - 1) / 8)
      = min (runLeft m.isset i) left := by
  intro left
  induction left with
  | zero => intro i _; rw [clusterBack, Nat.min_zero]
  | succ left ih =>
      intro i hle
      obtain ⟨i, rfl⟩ : ∃ j, i = j + 1 := ⟨i - 1, by omega⟩
      rw [clusterBack, runLeft, Nat.add_sub_cancel, Bitmap.and_mask_beq_zero]
      cases hset : m.isset i with
      | false => simp
      | true =>
          simp only [Bool.not_true, Bool.false_eq_true, if_false, if_true]
          by_cases h0 : i &&& 7 ≠ 0
          · obtain ⟨hbyte, hbit⟩ := Bitmap.mask_down h0
            rw [if_pos h0, hbit, ← hbyte, ih i (by omega)]
            omega
          · rw [if_neg h0]
            -- Below block 0 there is nothing left to look at.
            cases left with
            | zero => rw [clusterBack]; omega
            | succ left =>
                obtain ⟨hbyte, hbit⟩ := Bitmap.mask_down_wrap h0 (by omega)
                rw [hbit, ← hbyte, ih i (by omega)]
                omega

/-- The searches find the free blocks on either side, up to
`fs_contigsumsize` of them. -/
theorem clusterSpan_eq (c : Cg) (m : Bitmap) (b : Nat) :
    clusterSpan fs c m b
      = (min fs.contigsumsize (runRight m.isset (b + 1) (c.nclusterblks - (b + 1))),
         min (runLeft m.isset b) fs.contigsumsize) := by
  have hL := runLeft_le m.isset b
  rw [clusterSpan, clusterForw_eq, clusterBack_eq m _ _ (Nat.min_le_left _ _),
    show min (b + 1 + fs.contigsumsize) c.nclusterblks - (b + 1)
      = min fs.contigsumsize (c.nclusterblks - (b + 1)) from by omega, runRight_min,
    show min (runLeft m.isset b) (min b fs.contigsumsize)
      = min (runLeft m.isset b) fs.contigsumsize from by omega]

/-! ### The summary -/

/-- `cg_clustersum` counts the maximal runs of the first `n` bits of `g` by
length, capped at `fs_contigsumsize`. -/
def SumOk (sum : Nat → Int) (g : Nat → Bool) (n : Nat) : Prop :=
  ∀ k, 0 < k → k ≤ fs.contigsumsize → sum k = cappedRuns g n fs.contigsumsize k

/-- The three corrections of `ffs_clusteracct`, entry by entry. -/
def clusterDelta (back forw : Nat) (cnt : Int) (k : Nat) : Int :=
  (if k = min (back + forw + 1) fs.contigsumsize then cnt else 0)
    - (if k = back then cnt else 0) - (if k = forw then cnt else 0)

/-- A guarded correction, read at a non-zero entry. -/
theorem guarded_update_apply (sum : Nat → Int) (i : Nat) (cnt : Int) {k : Nat} (hk : 0 < k) :
    (if i > 0 then Function.update sum i (sum i - cnt) else sum) k
      = sum k - (if k = i then cnt else 0) := by
  by_cases hi : k = i
  · subst hi
    rw [if_pos hk, Function.update_self, if_pos rfl]
  · rw [if_neg hi, Int.sub_zero]
    split
    · exact Function.update_of_ne hi _ _
    · rfl

/-- What `ffs_clusteracct` leaves behind: the map with one bit flipped, the
summary with the corrections, and a new `fs_maxcluster`. -/
theorem ffsClusteracct_eq (s : State) (cg b : Nat) (cnt : Int) (hc : fs.contigsumsize ≠ 0) :
    ∃ (sum : Nat → Int) (mx : Nat → Int),
      ffsClusteracct fs s cg b cnt
        = { s.setCg cg { s.cgs cg with
              clustersfree := if cnt > 0 then (s.cgs cg).clustersfree.setbit b
                else (s.cgs cg).clustersfree.clrbit b
              clustersum := sum } with maxcluster := mx } ∧
      ∀ k, 0 < k → sum k = (s.cgs cg).clustersum k
        + clusterDelta fs
            (clusterSpan fs (s.cgs cg) (if cnt > 0 then (s.cgs cg).clustersfree.setbit b
              else (s.cgs cg).clustersfree.clrbit b) b).2
            (clusterSpan fs (s.cgs cg) (if cnt > 0 then (s.cgs cg).clustersfree.setbit b
              else (s.cgs cg).clustersfree.clrbit b) b).1 cnt k := by
  rcases hspan : clusterSpan fs (s.cgs cg) (if cnt > 0 then (s.cgs cg).clustersfree.setbit b
    else (s.cgs cg).clustersfree.clrbit b) b with ⟨forw, back⟩
  simp only [ffsClusteracct, if_neg hc, hspan]
  refine ⟨_, _, rfl, fun k hk => ?_⟩
  unfold clusterDelta
  rw [guarded_update_apply _ _ _ hk, guarded_update_apply _ _ _ hk, Function.update_apply]
  by_cases hi : k = min (back + forw + 1) fs.contigsumsize
  · rw [if_pos hi, if_pos hi, ← hi]
    omega
  · rw [if_neg hi, if_neg hi]
    omega

/-- The summary after the flip, given that the map with the bit set is `g` and
with the bit clear `g'`. -/
theorem clusterDelta_alloc {g g' : Nat → Bool} {n b k : Nat} (hb : b < n) (hg : g b = true)
    (hg' : g' b = false) (hsame : ∀ i, i ≠ b → g' i = g i) (hk : 0 < k) :
    (cappedRuns g n fs.contigsumsize k : Int)
        + clusterDelta fs (min (runLeft g b) fs.contigsumsize)
            (min fs.contigsumsize (runRight g (b + 1) (n - (b + 1)))) (-1) k
      = cappedRuns g' n fs.contigsumsize k := by
  have hclear := cappedRuns_clear hb hg hg' hsame (c := fs.contigsumsize) hk
  rw [clusterDelta, Nat.min_comm fs.contigsumsize (runRight _ _ _),
    show min (min (runLeft g b) fs.contigsumsize
        + min (runRight g (b + 1) (n - (b + 1))) fs.contigsumsize + 1) fs.contigsumsize
      = min (runLeft g b + runRight g (b + 1) (n - (b + 1)) + 1) fs.contigsumsize from by omega]
  split_ifs at hclear ⊢ <;> omega

/-- Allocating a free block: the cluster map loses the bit and the summary
follows. -/
theorem ffsClusteracct_alloc (s : State) (cg b : Nat) (hc : fs.contigsumsize ≠ 0)
    (hb : b < (s.cgs cg).nclusterblks) (hset : (s.cgs cg).clustersfree.isset b = true)
    (hsum : SumOk fs (s.cgs cg).clustersum (s.cgs cg).clustersfree.isset
      (s.cgs cg).nclusterblks) :
    ∃ (sum : Nat → Int) (mx : Nat → Int),
      ffsClusteracct fs s cg b (-1)
        = { s.setCg cg { s.cgs cg with
              clustersfree := (s.cgs cg).clustersfree.clrbit b
              clustersum := sum } with maxcluster := mx } ∧
      SumOk fs sum ((s.cgs cg).clustersfree.clrbit b).isset (s.cgs cg).nclusterblks := by
  obtain ⟨sum, mx, heq, hval⟩ := ffsClusteracct_eq fs s cg b (-1) hc
  rw [if_neg (by decide)] at heq hval
  refine ⟨sum, mx, heq, fun k hk hkc => ?_⟩
  have hsame : ∀ i, i ≠ b → ((s.cgs cg).clustersfree.clrbit b).isset i
      = (s.cgs cg).clustersfree.isset i := fun i hi => by simp [hi]
  rw [hval k hk, hsum k hk hkc, clusterSpan_eq]
  rw [runLeft_congr fun i hi => hsame i (by omega),
    runRight_congr fun i hi => hsame i (by omega)]
  exact clusterDelta_alloc fs hb hset (by simp) hsame hk

/-- Freeing a used block: the cluster map gains the bit and the summary
follows. -/
theorem ffsClusteracct_free (s : State) (cg b : Nat) (hc : fs.contigsumsize ≠ 0)
    (hb : b < (s.cgs cg).nclusterblks) (hclr : (s.cgs cg).clustersfree.isset b = false)
    (hsum : SumOk fs (s.cgs cg).clustersum (s.cgs cg).clustersfree.isset
      (s.cgs cg).nclusterblks) :
    ∃ (sum : Nat → Int) (mx : Nat → Int),
      ffsClusteracct fs s cg b 1
        = { s.setCg cg { s.cgs cg with
              clustersfree := (s.cgs cg).clustersfree.setbit b
              clustersum := sum } with maxcluster := mx } ∧
      SumOk fs sum ((s.cgs cg).clustersfree.setbit b).isset (s.cgs cg).nclusterblks := by
  obtain ⟨sum, mx, heq, hval⟩ := ffsClusteracct_eq fs s cg b 1 hc
  rw [if_pos (by decide)] at heq hval
  refine ⟨sum, mx, heq, fun k hk hkc => ?_⟩
  have hsame : ∀ i, i ≠ b → (s.cgs cg).clustersfree.isset i
      = ((s.cgs cg).clustersfree.setbit b).isset i := fun i hi => by simp [hi]
  have halloc := clusterDelta_alloc fs (g := ((s.cgs cg).clustersfree.setbit b).isset) hb
    (by simp) hclr hsame hk
  rw [hval k hk, hsum k hk hkc, clusterSpan_eq]
  -- The corrections of a free are those of an allocation with the sign changed.
  have hneg : ∀ back forw, clusterDelta fs back forw (-1) k = -clusterDelta fs back forw 1 k := by
    intro back forw
    unfold clusterDelta
    split_ifs <;> omega
  rw [hneg] at halloc
  simp only
  omega

end UfsX.Proofs
