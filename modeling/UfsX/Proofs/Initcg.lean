import UfsX.Lib.FreeMap
import UfsX.Newfs.Initcg
import UfsX.Proofs.Consistent
import UfsX.Proofs.Geometry

/-!
# `UfsX.Proofs.Initcg`: a group as it is built, and the first directories

`initcg` frees the fragments of a group interval by interval: the blocks in front of the
superblock, the fragments in front of the first whole block for data, the blocks, and the
fragments behind the last one. Each of its loops keeps the maps and the counts in step
(`Filled`), so `initcg_built` says of the whole group what is free in it, and that its
summaries are what one would count.

The clusters are counted last, by a loop that carries the run that it is in.
`countClusters_eq` says that it counts the runs.

`fsinit` takes a fragment for a directory from the first free block of group 0, and gives
the rest of that block back. `Taken` says what the group is after some directories, `Made`
what the whole file system is; `alloc_made` and `iput_made` are the steps. The map of the
clusters follows, but the counts of the clusters stay what `initcg` has made them:
`Taken.clustersum` is the same for every number of directories.
-/

set_option autoImplicit false

namespace UfsX.Proofs.Initcg

open UfsX.Lib UfsX.Ffs UfsX.Newfs UfsX.Proofs.Mkfs

variable {s : Super} {φ k n : Nat} {acg : Cg} {P : Nat → Prop}

/-! ### Blocks of the map

The functions of `newfs` are those of the kernel, for a number of fragments. -/

/-- A file system with `2 ^ k` fragments in a block. -/
def shiftFs (k : Nat) (hk : k ≤ 3) : Fs :=
  { tinyFs with
    fragshift := k
    fragshift_le := hk
    bshift_le := (Nat.add_le_add_left hk 13).trans (by decide)
    frag_dvd_fpg := Nat.pow_dvd_pow 2 (hk.trans (by decide) : k ≤ 4)
    nindir_le := Nat.pow_le_pow_right Nat.two_pos (Nat.le_add_right 13 k) }

theorem isset_setblock (h : Shape s φ k) (m : Bitmap) (b i : Nat) :
    (setblock s.frag m b).isset i = (decide (b * s.frag ≤ i ∧ i < b * s.frag + s.frag) || m.isset i) := by
  rw [h.frag]
  exact isset_ffsSetblock (shiftFs k h.frag_le) m b i

theorem isset_clrblock (h : Shape s φ k) (m : Bitmap) (b i : Nat) :
    (clrblock s.frag m b).isset i = (!decide (b * s.frag ≤ i ∧ i < b * s.frag + s.frag) && m.isset i) := by
  rw [h.frag]
  exact isset_ffsClrblock (shiftFs k h.frag_le) m b i

theorem isblock_eq_whole (h : Shape s φ k) (m : Bitmap) (b : Nat) :
    isblock s.frag m b = FreeMap.whole s.frag (FreeMap.block s.frag m b) := by
  rw [h.frag]
  exact ffsIsblock_eq_whole (shiftFs k h.frag_le) m b

/-! ### What the loops leave alone -/

/-- A group without what the loops change. -/
def rest (acg : Cg) : Cg :=
  { acg with
    blksfree := fun _ => 0
    clustersfree := fun _ => 0
    frsum := fun _ => 0
    cs := { acg.cs with nbfree := 0, nffree := 0 } }

@[simp] theorem rest_freeBlock (s : Super) (acg : Cg) (b : Nat) : rest (freeBlock s acg b) = rest acg := rfl

@[simp] theorem rest_countFrags (acg : Cg) (size : Nat) : rest (countFrags acg size) = rest acg := rfl

@[simp] theorem rest_freeFragments (acg : Cg) (d n : Nat) : rest (freeFragments acg d n) = rest acg := by
  induction n generalizing acg d with
  | zero => rfl
  | succ n ih =>
      rw [freeFragments, ih]
      rfl

theorem ndblk_of_rest {acg acg' : Cg} (h : rest acg' = rest acg) : acg'.ndblk = acg.ndblk := by
  have hndblk : (rest acg').ndblk = (rest acg).ndblk := by rw [h]
  exact hndblk

/-! ### The maps and the counts -/

/-- The free fragments of a group are those with `P`, and its summaries are those of the
first `n` blocks of its map. -/
structure Filled (s : Super) (n : Nat) (P : Nat → Prop) (acg : Cg) : Prop where
  bits : ∀ i, acg.blksfree.isset i = true ↔ P i
  counted : FreeMap.Counted s.frag n acg.blksfree acg.cs.nbfree acg.cs.nffree acg.frsum
  clusters : 0 < s.contigsumsize →
    ∀ b, acg.clustersfree.isset b = FreeMap.whole s.frag (FreeMap.block s.frag acg.blksfree b)

theorem Filled.congr {P' : Nat → Prop} (hf : Filled s n P acg) (hP : ∀ i, P i ↔ P' i) : Filled s n P' acg :=
  ⟨fun i => (hf.bits i).trans (hP i), hf.counted, hf.clusters⟩

theorem Filled.clear (hf : Filled s n P acg) {i : Nat} (hi : ¬ P i) : acg.blksfree.isset i = false :=
  Bool.eq_false_iff.mpr fun hset => hi ((hf.bits i).mp hset)

/-- In a block of which a fragment was not free before and none outside is freed, the rest
of the clusters stays. -/
theorem whole_of_outside {m m' : Bitmap} {b₀ : Nat} (hsame : FreeMap.SameOutside s.frag b₀ m m') {b : Nat}
    (hb : b ≠ b₀) :
    FreeMap.whole s.frag (FreeMap.block s.frag m' b) = FreeMap.whole s.frag (FreeMap.block s.frag m b) :=
  FreeMap.whole_congr (hsame.block hb)

theorem filled_freeBlock (h : Shape s φ k) (hf : Filled s n P acg) {b : Nat} (hb : b < n)
    (hclear : ∀ i, P i → ¬ (b * s.frag ≤ i ∧ i < b * s.frag + s.frag)) :
    Filled s n (fun i => P i ∨ b * s.frag ≤ i ∧ i < b * s.frag + s.frag) (freeBlock s acg b) := by
  have hset := isset_setblock h acg.blksfree b
  have hclr : ∀ j < s.frag, FreeMap.block s.frag acg.blksfree b j = false := by
    intro j hj
    exact hf.clear fun hP => hclear _ hP ⟨Nat.le_add_right .., by omega⟩
  refine ⟨?_, hf.counted.freeBlock hb h.frag_pos hclr hset, ?_⟩
  · intro i
    show (setblock s.frag acg.blksfree b).isset i = true ↔ _
    rw [hset, Bool.or_eq_true, decide_eq_true_iff, hf.bits, or_comm]
  · intro hc b'
    show (if 0 < s.contigsumsize then acg.clustersfree.setbit b else acg.clustersfree).isset b'
      = FreeMap.whole s.frag (FreeMap.block s.frag (setblock s.frag acg.blksfree b) b')
    rw [if_pos hc, Bitmap.isset_setbit]
    by_cases hbb : b' = b
    · have hall : FreeMap.whole s.frag (FreeMap.block s.frag (setblock s.frag acg.blksfree b) b) = true := by
        rw [FreeMap.whole_iff]
        intro j hj
        rw [FreeMap.block, hset, decide_eq_true ⟨Nat.le_add_right .., by omega⟩, Bool.true_or]
      rw [hbb, hall, decide_eq_true rfl, Bool.true_or]
    · have hsame : FreeMap.SameOutside s.frag b acg.blksfree (setblock s.frag acg.blksfree b) := by
        intro i hi
        rw [hset, decide_eq_false hi, Bool.false_or]
      rw [decide_eq_false hbb, Bool.false_or, hf.clusters hc b', whole_of_outside hsame hbb]

/-! #### Fragments -/

theorem isset_freeFragments (acg : Cg) (d n i : Nat) :
    (freeFragments acg d n).blksfree.isset i = (decide (d ≤ i ∧ i < d + n) || acg.blksfree.isset i) := by
  induction n generalizing acg d with
  | zero =>
      rw [freeFragments, decide_eq_false (by omega), Bool.false_or]
  | succ n ih =>
      rw [freeFragments, ih, Bitmap.isset_setbit, ← Bool.or_assoc, ← Bool.decide_or]
      congr 1
      exact decide_eq_decide.mpr (by omega)

theorem freeFragments_nffree (acg : Cg) (d n : Nat) : (freeFragments acg d n).cs.nffree = acg.cs.nffree + n := by
  induction n generalizing acg d with
  | zero => exact (add_zero _).symm
  | succ n ih =>
      rw [freeFragments, ih]
      push_cast
      ring

theorem freeFragments_kept (acg : Cg) (d n : Nat) :
    (freeFragments acg d n).cs.nbfree = acg.cs.nbfree ∧ (freeFragments acg d n).frsum = acg.frsum
      ∧ (freeFragments acg d n).clustersfree = acg.clustersfree := by
  induction n generalizing acg d with
  | zero => exact ⟨rfl, rfl, rfl⟩
  | succ n ih => exact ih ..

/-- A part of a block of which nothing was free is freed and counted. -/
theorem filled_freeFragments (h : Shape s φ k) (hf : Filled s n P acg) {b a e : Nat} (hb : b < n) (hlt : a < e)
    (he : e ≤ s.frag) (hpart : ¬ (a = 0 ∧ e = s.frag))
    (hclear : ∀ i, P i → ¬ (b * s.frag ≤ i ∧ i < b * s.frag + s.frag)) :
    Filled s n (fun i => P i ∨ b * s.frag + a ≤ i ∧ i < b * s.frag + e)
      (freeFragments (countFrags acg (e - a)) (b * s.frag + a) (e - a)) := by
  have hset (i : Nat) : (freeFragments (countFrags acg (e - a)) (b * s.frag + a) (e - a)).blksfree.isset i
      = (decide (b * s.frag + a ≤ i ∧ i < b * s.frag + e) || acg.blksfree.isset i) := by
    rw [isset_freeFragments, show b * s.frag + a + (e - a) = b * s.frag + e from by omega]
    rfl
  have hclr : ∀ j < s.frag, FreeMap.block s.frag acg.blksfree b j = false := by
    intro j hj
    exact hf.clear fun hP => hclear _ hP ⟨Nat.le_add_right .., by omega⟩
  have hnffree := freeFragments_nffree (countFrags acg (e - a)) (b * s.frag + a) (e - a)
  obtain ⟨hnbfree, hfrsum, hclusters⟩ := freeFragments_kept (countFrags acg (e - a)) (b * s.frag + a) (e - a)
  have hcounted := hf.counted.freeFrags hb hlt he hpart hclr hset
  refine ⟨?_, ?_, ?_⟩
  · intro i
    rw [hset, Bool.or_eq_true, decide_eq_true_iff, hf.bits, or_comm]
  · rw [hnbfree, hnffree, hfrsum]
    have hcast : ((e - a : Nat) : Int) = (e : Int) - a := by omega
    rw [hcast]
    exact hcounted
  · intro hc b'
    rw [hclusters]
    show acg.clustersfree.isset b' = _
    rw [hf.clusters hc b']
    by_cases hbb : b' = b
    · -- neither before nor after the block is free as a whole
      have hbefore : FreeMap.whole s.frag (FreeMap.block s.frag acg.blksfree b) = false := by
        rw [FreeMap.whole_interval (FreeMap.interval_empty hclr) h.frag_pos, decide_eq_false (by omega)]
      have hafter : FreeMap.Interval s.frag a e (FreeMap.block s.frag
          (freeFragments (countFrags acg (e - a)) (b * s.frag + a) (e - a)).blksfree b) := by
        refine ⟨he, ?_⟩
        intro j hj
        have hbit : acg.blksfree.isset (b * s.frag + j) = false := hclr j hj
        rw [FreeMap.block, hset, hbit, Bool.or_false, decide_eq_true_iff]
        omega
      rw [hbb, hbefore, FreeMap.whole_interval hafter h.frag_pos, decide_eq_false hpart]
    · have hsame : FreeMap.SameOutside s.frag b acg.blksfree
          (freeFragments (countFrags acg (e - a)) (b * s.frag + a) (e - a)).blksfree := by
        intro i hi
        rw [hset, decide_eq_false (by omega), Bool.false_or]
      exact (whole_of_outside hsame hbb).symm

/-! ### The loops over blocks -/

theorem lowerLoop_filled (h : Shape s φ k) {l b : Nat} (fuel : Nat) (hfuel : l - b ≤ fuel) (hb : b ≤ l) (hl : l ≤ n)
    (hf : Filled s n (fun i => i < b * s.frag) acg) :
    Filled s n (fun i => i < l * s.frag) (lowerLoop s (l * s.frag) fuel (b * s.frag) acg)
      ∧ (lowerLoop s (l * s.frag) fuel (b * s.frag) acg).cs.nbfree = acg.cs.nbfree + (l - b : Nat)
      ∧ (lowerLoop s (l * s.frag) fuel (b * s.frag) acg).cs.nffree = acg.cs.nffree
      ∧ rest (lowerLoop s (l * s.frag) fuel (b * s.frag) acg) = rest acg := by
  have hfrag := h.frag_pos
  induction fuel generalizing b acg with
  | zero =>
      obtain rfl : b = l := by omega
      rw [lowerLoop, Nat.sub_self]
      exact ⟨hf, (add_zero _).symm, rfl, rfl⟩
  | succ fuel ih =>
      rw [lowerLoop]
      by_cases hlt : b < l
      · have hmul : b * s.frag + s.frag = (b + 1) * s.frag := by rw [Nat.add_mul, Nat.one_mul]
        rw [if_pos (Nat.mul_lt_mul_of_pos_right hlt hfrag), Nat.mul_div_cancel _ hfrag, hmul]
        have hnext : Filled s n (fun i => i < (b + 1) * s.frag) (freeBlock s acg b) := by
          refine (filled_freeBlock h hf (by omega) fun i hi => by omega).congr fun i => ?_
          omega
        obtain ⟨hfilled, hnbfree, hnffree, hrest⟩ := ih (by omega) hlt hnext
        refine ⟨hfilled, ?_, hnffree, hrest⟩
        rw [hnbfree]
        show acg.cs.nbfree + 1 + ((l - (b + 1) : Nat) : Int) = _
        omega
      · obtain rfl : b = l := by omega
        rw [if_neg (Nat.lt_irrefl _), Nat.sub_self]
        exact ⟨hf, (add_zero _).symm, rfl, rfl⟩

theorem upperLoop_filled (h : Shape s φ k) {u b N : Nat} (fuel : Nat) (hN : acg.ndblk = N)
    (hfuel : N / s.frag - b ≤ fuel) (hb : b ≤ N / s.frag) (hn : N / s.frag ≤ n) (hu : u ≤ b * s.frag)
    (hP : ∀ i, P i → i < u) (hf : Filled s n (fun i => P i ∨ u ≤ i ∧ i < b * s.frag) acg) :
    (upperLoop s fuel (b * s.frag) acg).1 = N / s.frag * s.frag
      ∧ Filled s n (fun i => P i ∨ u ≤ i ∧ i < N / s.frag * s.frag) (upperLoop s fuel (b * s.frag) acg).2
      ∧ (upperLoop s fuel (b * s.frag) acg).2.cs.nbfree = acg.cs.nbfree + (N / s.frag - b : Nat)
      ∧ (upperLoop s fuel (b * s.frag) acg).2.cs.nffree = acg.cs.nffree
      ∧ rest (upperLoop s fuel (b * s.frag) acg).2 = rest acg := by
  have hfrag := h.frag_pos
  induction fuel generalizing b acg with
  | zero =>
      obtain rfl : b = N / s.frag := by omega
      rw [upperLoop, Nat.sub_self]
      exact ⟨rfl, hf, (add_zero _).symm, rfl, rfl⟩
  | succ fuel ih =>
      have hmul : b * s.frag + s.frag = (b + 1) * s.frag := by rw [Nat.add_mul, Nat.one_mul]
      have hiff : b * s.frag + s.frag ≤ N ↔ b < N / s.frag := by
        rw [hmul, ← Nat.le_div_iff_mul_le hfrag]
        exact Nat.succ_le_iff
      rw [upperLoop, hN]
      by_cases hlt : b < N / s.frag
      · rw [if_pos (hiff.mpr hlt), Nat.mul_div_cancel _ hfrag, hmul]
        have hnext : Filled s n (fun i => P i ∨ u ≤ i ∧ i < (b + 1) * s.frag) (freeBlock s acg b) := by
          refine (filled_freeBlock h hf (by omega) ?_).congr ?_
          · rintro i (hi | hi) hin
            · have := hP i hi
              omega
            · omega
          · intro i
            exact or_assoc.trans (or_congr_right (by omega))
        have hsize : (freeBlock s acg b).ndblk = N := hN
        have hb' : b + 1 ≤ N / s.frag := hlt
        obtain ⟨hend, hfilled, hnbfree, hnffree, hrest⟩ := ih hsize (by omega) hb' (by omega) hnext
        refine ⟨hend, hfilled, ?_, hnffree, hrest⟩
        rw [hnbfree]
        show acg.cs.nbfree + 1 + ((N / s.frag - (b + 1) : Nat) : Int) = _
        omega
      · obtain rfl : b = N / s.frag := by omega
        rw [if_neg (mt hiff.mp hlt), Nat.sub_self]
        exact ⟨rfl, hf, (add_zero _).symm, rfl, rfl⟩

/-! ### The edges of the data -/

theorem freeFront_filled (h : Shape s φ k) (hf : Filled s n P acg) {d : Nat} (hn : howmany d s.frag ≤ n)
    (hP : ∀ i, P i → i < d / s.frag * s.frag) :
    (freeFront s acg d).1 = howmany d s.frag * s.frag
      ∧ Filled s n (fun i => P i ∨ d ≤ i ∧ i < howmany d s.frag * s.frag) (freeFront s acg d).2
      ∧ (freeFront s acg d).2.cs.nbfree = acg.cs.nbfree
      ∧ (freeFront s acg d).2.cs.nffree = acg.cs.nffree + (howmany d s.frag * s.frag - d : Nat)
      ∧ rest (freeFront s acg d).2 = rest acg := by
  have hfrag := h.frag_pos
  have hsplit := Nat.div_add_mod' d s.frag
  have hlt := Nat.mod_lt d hfrag
  unfold freeFront
  simp only []
  by_cases hpart : d % s.frag = 0
  · have hround : howmany d s.frag * s.frag = d := roundup_of_dvd hfrag (Nat.dvd_of_mod_eq_zero hpart)
    rw [if_neg (not_not.mpr hpart), hround]
    refine ⟨rfl, hf.congr fun i => ?_, rfl, ?_, rfl⟩
    · rw [or_iff_left (by omega)]
    · show acg.cs.nffree = _
      omega
  · have hhow : howmany d s.frag = d / s.frag + 1 := by
      refine le_antisymm ((howmany_le_iff hfrag).mpr ?_) ((lt_howmany_iff hfrag).mpr ?_)
      · rw [Nat.add_mul]
        omega
      · omega
    have hround : howmany d s.frag * s.frag = d / s.frag * s.frag + s.frag := by
      rw [hhow, Nat.add_mul, Nat.one_mul]
    rw [if_pos hpart, hround]
    have hfilled := filled_freeFragments h hf (by omega : d / s.frag < n) hlt le_rfl (by omega) fun i hi => by
      have := hP i hi
      omega
    rw [hsplit] at hfilled
    refine ⟨by omega, hfilled, (freeFragments_kept ..).1, ?_, rest_freeFragments ..⟩
    rw [freeFragments_nffree, show s.frag - d % s.frag = d / s.frag * s.frag + s.frag - d from by omega]
    rfl

theorem freeBehind_filled (h : Shape s φ k) {N : Nat} (hN : acg.ndblk = N) (hn : n = howmany N s.frag)
    (hP : ∀ i, P i → i < N / s.frag * s.frag) (hf : Filled s n P acg) :
    Filled s n (fun i => P i ∨ N / s.frag * s.frag ≤ i ∧ i < N) (freeBehind acg (N / s.frag * s.frag))
      ∧ (freeBehind acg (N / s.frag * s.frag)).cs.nbfree = acg.cs.nbfree
      ∧ (freeBehind acg (N / s.frag * s.frag)).cs.nffree = acg.cs.nffree + (N % s.frag : Nat)
      ∧ rest (freeBehind acg (N / s.frag * s.frag)) = rest acg := by
  have hfrag := h.frag_pos
  have hsplit := Nat.div_add_mod' N s.frag
  have hlt := Nat.mod_lt N hfrag
  unfold freeBehind
  rw [hN]
  by_cases hpart : N / s.frag * s.frag < N
  · rw [if_pos hpart, show N - N / s.frag * s.frag = N % s.frag - 0 from by omega]
    have hb : N / s.frag < n := by
      rw [hn, lt_howmany_iff hfrag]
      exact hpart
    have hfilled := filled_freeFragments h hf hb (by omega : 0 < N % s.frag) hlt.le (by omega) fun i hi => by
      have := hP i hi
      omega
    rw [Nat.add_zero, hsplit] at hfilled
    refine ⟨hfilled, (freeFragments_kept ..).1, ?_, rest_freeFragments ..⟩
    rw [freeFragments_nffree]
    rfl
  · rw [if_neg hpart]
    refine ⟨hf.congr fun i => ?_, rfl, ?_, rfl⟩
    · rw [or_iff_left (by omega)]
    · rw [show N % s.frag = 0 from by omega]
      exact (add_zero _).symm

/-! ### The clusters -/

theorem countRun_eq (c run : Nat) (sump : Nat → Int) (j : Nat) :
    countRun c run sump j = sump j + (if min run c = j then 1 else 0 : Nat) := by
  have hcap : (if run > c then c else run) = min run c := by
    split <;> omega
  unfold countRun
  rw [hcap]
  by_cases hj : min run c = j
  · rw [hj, Function.update_self, if_pos rfl]
    rfl
  · rw [Function.update_of_ne (Ne.symm hj), if_neg hj]
    exact (add_zero _).symm

/-- The loop carries the run that it is in, and has counted those before. -/
theorem clusterLoop_eq (c : Nat) (m : Bitmap) (sump : Nat → Int) (n i : Nat) :
    clusterLoop c m n i (m (i / 8)) (i / 8 + 1) (1#8 <<< (i % 8)) (runLeft m.isset i)
        (fun j => sump j + (cappedRuns m.isset (i - runLeft m.isset i) c j : Nat))
      = (runLeft m.isset (i + n),
        fun j => sump j + (cappedRuns m.isset (i + n - runLeft m.isset (i + n)) c j : Nat)) := by
  induction n generalizing i with
  | zero => rfl
  | succ n ih =>
      have hstep : (if m (i / 8) &&& 1#8 <<< (i % 8) ≠ 0#8 then
            (runLeft m.isset i + 1, fun j => sump j + (cappedRuns m.isset (i - runLeft m.isset i) c j : Nat))
          else if runLeft m.isset i ≠ 0 then
            (0, countRun c (runLeft m.isset i)
              fun j => sump j + (cappedRuns m.isset (i - runLeft m.isset i) c j : Nat))
          else (runLeft m.isset i, fun j => sump j + (cappedRuns m.isset (i - runLeft m.isset i) c j : Nat)))
          = (runLeft m.isset (i + 1),
            fun j => sump j + (cappedRuns m.isset (i + 1 - runLeft m.isset (i + 1)) c j : Nat)) := by
        have hmask := Bitmap.and_mask_beq_zero m i
        cases hbit : m.isset i with
        | true =>
            rw [hbit, Bool.not_true, beq_eq_false_iff_ne] at hmask
            rw [if_pos hmask, runLeft, if_pos hbit, Nat.add_sub_add_right]
        | false =>
            rw [hbit, Bool.not_false, beq_iff_eq] at hmask
            have hend : runLeft m.isset (i + 1) = 0 := if_neg (Bool.eq_false_iff.mp hbit)
            rw [if_neg (not_not.mpr hmask), hend, Nat.sub_zero]
            by_cases hrun : runLeft m.isset i = 0
            · rw [if_neg (not_not.mpr hrun), hrun, Nat.sub_zero]
              congr 1
              funext j
              rw [cappedRuns_succ_of_clear hbit]
            · rw [if_pos hrun]
              congr 1
              funext j
              rw [countRun_eq, cappedRuns_succ_of_clear hbit, cappedRuns_eq_add_runLeft (Nat.pos_of_ne_zero hrun)]
              push_cast
              ring
      unfold clusterLoop
      rw [hstep]
      simp only []
      rw [show i + (n + 1) = i + 1 + n from by omega, ← ih (i + 1)]
      by_cases hwrap : i &&& 7 ≠ 7
      · obtain ⟨hbyte, hbit⟩ := Bitmap.mask_up hwrap
        rw [if_pos hwrap, hbyte, hbit]
      · obtain ⟨hbyte, hbit⟩ := Bitmap.mask_up_wrap hwrap
        rw [if_neg hwrap, hbyte, ← hbit]

/-- The runs are counted. -/
theorem countClusters_eq (c n : Nat) (m : Bitmap) (sump : Nat → Int) (j : Nat) :
    countClusters c n m sump j = sump j + (cappedRuns m.isset n c j : Nat) := by
  have hloop := clusterLoop_eq c m sump n 0
  rw [show (fun j => sump j + (cappedRuns m.isset (0 - runLeft m.isset 0) c j : Nat)) = sump from by
    funext j
    rw [Nat.zero_sub, cappedRuns_zero]
    exact add_zero _, Nat.zero_add n] at hloop
  have hloop' : clusterLoop c m n 0 (m 0) 1 1#8 0 sump
      = (runLeft m.isset n, fun j => sump j + (cappedRuns m.isset (n - runLeft m.isset n) c j : Nat)) := hloop
  unfold countClusters
  rw [hloop']
  simp only []
  by_cases hrun : runLeft m.isset n = 0
  · rw [if_neg (not_not.mpr hrun), hrun, Nat.sub_zero]
  · rw [if_pos hrun, countRun_eq, cappedRuns_eq_add_runLeft (Nat.pos_of_ne_zero hrun)]
    push_cast
    ring

/-! ### The group -/

section Group

variable {g : Geometry} {c : Nat}

/-- What is free in a new group: the blocks in front of the superblock, which group 0 keeps
for the boot blocks, and what is behind the metadata. -/
def FreeAt (g : Geometry) (c i : Nat) : Prop := (0 < c ∧ i < g.super.sblkno) ∨ g.dupper c ≤ i ∧ i < g.groupSize c

/-- The block at which the whole blocks for data begin. -/
def firstBlock (g : Geometry) (c : Nat) : Nat := howmany (g.dupper c) g.super.frag

/-- The whole blocks of a group. -/
def lastBlock (g : Geometry) (c : Nat) : Nat := g.groupSize c / g.super.frag

/-- A new group. -/
structure Built (g : Geometry) (c : Nat) (acg : Cg) : Prop where
  filled : Filled g.super (howmany (g.groupSize c) g.super.frag) (FreeAt g c) acg
  ndblk : acg.ndblk = g.groupSize c
  nclusterblks : 0 < g.super.contigsumsize → acg.nclusterblks = lastBlock g c
  clustersum : 0 < g.super.contigsumsize → ∀ j, acg.clustersum j
    = (cappedRuns acg.clustersfree.isset (lastBlock g c) g.super.contigsumsize j : Nat)
  ndir : acg.cs.ndir = 0
  nbfree : acg.cs.nbfree
    = ((if 0 < c then g.super.sblkno / g.super.frag else 0) + (lastBlock g c - firstBlock g c) : Nat)
  nffree : acg.cs.nffree
    = ((firstBlock g c * g.super.frag - g.dupper c) + g.groupSize c % g.super.frag : Nat)
  nifree : acg.cs.nifree = g.ipg - if c = 0 then 2 else 0
  inosused : ∀ i, acg.inosused.isset i = decide (c = 0 ∧ i < 2)

variable (hw : Written g φ k)
include hw

theorem frag_dvd_dblkno : g.super.frag ∣ g.dblkno := by
  obtain ⟨q, hq⟩ := hw.inopb_dvd
  have hinodes : g.ipg / g.super.inopf = q * g.super.frag := by
    rw [hq, Nat.mul_comm]
    exact hw.shape.div_inopf q
  unfold Geometry.dblkno
  rw [hinodes]
  exact Nat.dvd_add hw.shape.frag_dvd (Nat.dvd_mul_left ..)

theorem sblkno_lt_dblkno : g.super.sblkno < g.dblkno := lt_of_lt_of_le hw.sblkno_lt (Nat.le_add_right ..)

theorem sblkno_le_dupper (c : Nat) : g.super.sblkno ≤ g.dupper c / g.super.frag * g.super.frag := by
  have hlt := sblkno_lt_dblkno hw
  obtain ⟨l, hl⟩ := hw.frag_dvd_sblkno
  rw [hl, Nat.mul_comm]
  refine Nat.mul_le_mul_right _ ((Nat.le_div_iff_mul_le hw.shape.frag_pos).mpr ?_)
  rw [Nat.mul_comm, ← hl]
  unfold Geometry.dupper
  split
  · omega
  · omega

omit hw in
theorem clear_isset (i : Nat) : Bitmap.isset (fun _ => 0) i = false := BitVec.getLsbD_zero

omit hw in
theorem whole_clear (h : Shape s φ k) (b : Nat) :
    FreeMap.whole s.frag (FreeMap.block s.frag (fun _ => 0) b) = false := by
  have hnone : FreeMap.Interval s.frag 0 0 (FreeMap.block s.frag (fun _ => 0) b) :=
    FreeMap.interval_empty fun j _ => clear_isset _
  rw [FreeMap.whole_interval hnone h.frag_pos]
  exact decide_eq_false fun hall => absurd h.frag_pos (by omega)

/-- The group before anything is freed in it. -/
def header (g : Geometry) (c : Nat) : Cg :=
  let acg := { g.emptyCg c with cs := { (g.emptyCg c).cs with nifree := (g.emptyCg c).cs.nifree + g.ipg } }
  if c = 0 then useInodes acg UFS_ROOTINO else acg

omit hw in
theorem header_cases (g : Geometry) (c : Nat) : (header g c).blksfree = (fun _ => 0) ∧ (header g c).clustersfree = (fun _ => 0)
    ∧ (header g c).frsum = (fun _ => 0) ∧ (header g c).clustersum = (fun _ => 0) ∧ (header g c).ndblk = g.groupSize c
    ∧ (header g c).nclusterblks = (g.emptyCg c).nclusterblks
    ∧ (header g c).cs = ⟨0, 0, g.ipg - if c = 0 then 2 else 0, 0⟩
    ∧ ∀ i, (header g c).inosused.isset i = decide (c = 0 ∧ i < 2) := by
  by_cases hc : c = 0
  · have hheader : header g c = useInodes { g.emptyCg c with
        cs := { (g.emptyCg c).cs with nifree := (g.emptyCg c).cs.nifree + g.ipg } } UFS_ROOTINO := if_pos hc
    rw [hheader, if_pos hc]
    refine ⟨rfl, rfl, rfl, rfl, rfl, rfl, ?_, ?_⟩
    · show (⟨0, 0, (0 : Int) + g.ipg - 1 - 1, 0⟩ : Csum) = _
      congr 1
      ring
    · intro i
      show Bitmap.isset (Bitmap.setbit (Bitmap.setbit (fun _ => 0) 0) 1) i = _
      rw [Bitmap.isset_setbit, Bitmap.isset_setbit, clear_isset, Bool.or_false, ← Bool.decide_or]
      exact decide_eq_decide.mpr (by omega)
  · have hheader : header g c = { g.emptyCg c with
        cs := { (g.emptyCg c).cs with nifree := (g.emptyCg c).cs.nifree + g.ipg } } := if_neg hc
    rw [hheader, if_neg hc]
    refine ⟨rfl, rfl, rfl, rfl, rfl, rfl, ?_, ?_⟩
    · show (⟨0, 0, (0 : Int) + g.ipg, 0⟩ : Csum) = _
      congr 1
      ring
    · intro i
      show Bitmap.isset (fun _ => 0) i = _
      rw [clear_isset, decide_eq_false (by omega)]

theorem filled_header (n : Nat) : Filled g.super n (fun _ => False) (header g c) := by
  obtain ⟨hblksfree, hclusters, hfrsum, -, -, -, hcs, -⟩ := header_cases g c
  refine ⟨?_, ?_, ?_⟩
  · intro i
    rw [hblksfree, clear_isset]
    simp
  · rw [hblksfree, hfrsum, hcs]
    exact FreeMap.counted_empty hw.shape.frag_pos clear_isset
  · intro _ b
    rw [hblksfree, hclusters, clear_isset, whole_clear hw.shape]

/-- The blocks in front of the superblock. -/
theorem lower_filled (hroom : firstBlock g c * g.super.frag ≤ g.groupSize c) :
    ∃ acg, (if c > 0 then lowerLoop g.super g.super.sblkno g.super.sblkno 0 (header g c) else header g c) = acg
      ∧ Filled g.super (howmany (g.groupSize c) g.super.frag) (fun i => 0 < c ∧ i < g.super.sblkno) acg
      ∧ acg.cs.nbfree = (if 0 < c then g.super.sblkno / g.super.frag else 0 : Nat)
      ∧ acg.cs.nffree = 0 ∧ rest acg = rest (header g c) := by
  obtain ⟨-, -, -, -, -, -, hcs, -⟩ := header_cases g c
  have hfrag := hw.shape.frag_pos
  have hempty : Filled g.super (howmany (g.groupSize c) g.super.frag) (fun i => i < 0 * g.super.frag) (header g c) := by
    refine (filled_header hw _).congr fun i => ?_
    rw [Nat.zero_mul]
    exact ⟨False.elim, Nat.not_lt_zero i⟩
  by_cases hc : 0 < c
  · obtain ⟨l, hl⟩ := hw.frag_dvd_sblkno
    have hmul : g.super.sblkno = l * g.super.frag := by rw [hl, Nat.mul_comm]
    have hll : l ≤ g.super.sblkno := by
      rw [hmul]
      exact Nat.le_mul_of_pos_right l hfrag
    have hln : l ≤ howmany (g.groupSize c) g.super.frag := by
      have hle := sblkno_le_dupper hw c
      have hup : g.dupper c ≤ firstBlock g c * g.super.frag := le_howmany_mul hfrag
      have hdiv := Nat.div_mul_le_self (g.dupper c) g.super.frag
      have hround := le_howmany_mul (x := g.groupSize c) hfrag
      refine Nat.le_of_mul_le_mul_right ?_ hfrag
      omega
    obtain ⟨hfilled, hnbfree, hnffree, hrest⟩ :=
      lowerLoop_filled hw.shape g.super.sblkno (by omega : l - 0 ≤ g.super.sblkno) (Nat.zero_le l) hln hempty
    rw [← hmul, Nat.zero_mul] at hfilled hnbfree hnffree hrest
    refine ⟨_, if_pos hc, hfilled.congr fun i => ?_, ?_, ?_, hrest⟩
    · rw [and_iff_right hc]
    · rw [hnbfree, hcs, if_pos hc, hmul, Nat.mul_div_cancel _ hfrag]
      exact zero_add _
    · rw [hnffree, hcs]
  · refine ⟨_, if_neg hc, hempty.congr fun i => ?_, ?_, ?_, rfl⟩
    · rw [Nat.zero_mul]
      omega
    · rw [hcs, if_neg hc]
      rfl
    · rw [hcs]

omit hw in
/-- `initcg` from the blocks in front of the superblock on. -/
theorem initcg_eq {acg : Cg}
    (hlower : (if c > 0 then lowerLoop g.super g.super.sblkno g.super.sblkno 0 (header g c) else header g c) = acg) :
    g.initcg c = sumClusters g.super (freeBehind
      (upperLoop g.super (freeFront g.super acg (g.dupper c)).2.ndblk (freeFront g.super acg (g.dupper c)).1
        (freeFront g.super acg (g.dupper c)).2).2
      (upperLoop g.super (freeFront g.super acg (g.dupper c)).2.ndblk (freeFront g.super acg (g.dupper c)).1
        (freeFront g.super acg (g.dupper c)).2).1) := by
  rw [← hlower]
  rfl

/-- All loops but the last: the group with its blocks and fragments freed. -/
theorem freed_filled (hroom : firstBlock g c * g.super.frag ≤ g.groupSize c) :
    ∃ acg, g.initcg c = sumClusters g.super acg
      ∧ Filled g.super (howmany (g.groupSize c) g.super.frag) (FreeAt g c) acg
      ∧ acg.cs.nbfree
        = ((if 0 < c then g.super.sblkno / g.super.frag else 0) + (lastBlock g c - firstBlock g c) : Nat)
      ∧ acg.cs.nffree
        = ((firstBlock g c * g.super.frag - g.dupper c) + g.groupSize c % g.super.frag : Nat)
      ∧ rest acg = rest (header g c) := by
  have hfrag := hw.shape.frag_pos
  have hsblkno := sblkno_le_dupper hw c
  have hdiv := Nat.div_mul_le_self (g.dupper c) g.super.frag
  have hup : g.dupper c ≤ firstBlock g c * g.super.frag := le_howmany_mul hfrag
  have hblocks : firstBlock g c ≤ lastBlock g c := (Nat.le_div_iff_mul_le hfrag).mpr hroom
  have hlast : lastBlock g c ≤ howmany (g.groupSize c) g.super.frag := Nat.div_le_div_right (Nat.le_add_right ..)
  have hlastmul : lastBlock g c * g.super.frag ≤ g.groupSize c := Nat.div_mul_le_self ..
  obtain ⟨acg₁, h₁, hf₁, hnb₁, hnf₁, hr₁⟩ := lower_filled hw hroom
  have hndblk₁ : acg₁.ndblk = g.groupSize c := (ndblk_of_rest hr₁).trans (header_cases g c).2.2.2.2.1
  obtain ⟨hfst₂, hf₂, hnb₂, hnf₂, hr₂⟩ := freeFront_filled hw.shape hf₁ (d := g.dupper c) (hblocks.trans hlast)
    fun i hi => by omega
  have hndblk₂ := (ndblk_of_rest hr₂).trans hndblk₁
  obtain ⟨hfst₃, hf₃, hnb₃, hnf₃, hr₃⟩ := upperLoop_filled hw.shape (u := g.dupper c) (g.groupSize c) hndblk₂
    ((Nat.sub_le ..).trans (Nat.div_le_self ..)) hblocks hlast hup (fun i hi => by omega) hf₂
  have hndblk₃ := (ndblk_of_rest hr₃).trans hndblk₂
  obtain ⟨hf₄, hnb₄, hnf₄, hr₄⟩ := freeBehind_filled hw.shape hndblk₃ rfl (fun i hi => by
    rcases hi with hi | hi
    · have hmul := Nat.mul_le_mul_right g.super.frag hblocks
      unfold lastBlock at hmul
      omega
    · exact hi.2) hf₃
  refine ⟨freeBehind (upperLoop g.super (g.groupSize c) (firstBlock g c * g.super.frag)
    (freeFront g.super acg₁ (g.dupper c)).2).2 (g.groupSize c / g.super.frag * g.super.frag), ?_, hf₄.congr ?_, ?_, ?_, ?_⟩
  · rw [initcg_eq h₁, hndblk₂, hfst₂]
    exact congrArg (fun d => sumClusters g.super (freeBehind _ d)) hfst₃
  · intro i
    have hmul := Nat.mul_le_mul_right g.super.frag hblocks
    unfold lastBlock at hmul hlastmul
    exact or_assoc.trans (or_congr_right (by omega))
  · rw [hnb₄, hnb₃, hnb₂, hnb₁]
    exact (Nat.cast_add ..).symm
  · rw [hnf₄, hnf₃, hnf₂, hnf₁, zero_add]
    exact (Nat.cast_add ..).symm
  · rw [hr₄, hr₃, hr₂, hr₁]

/-- A group with room for its metadata is built right. -/
theorem initcg_built (hroom : firstBlock g c * g.super.frag ≤ g.groupSize c) : Built g c (g.initcg c) := by
  obtain ⟨acg, hinit, hfilled, hnbfree, hnffree, hrest⟩ := freed_filled hw hroom
  obtain ⟨-, -, -, hsum, hndblk, hncl, hcs, hinosused⟩ := header_cases g c
  have hclusterblks : 0 < g.super.contigsumsize → acg.nclusterblks = lastBlock g c := by
    intro hc
    have heq : (rest acg).nclusterblks = (rest (header g c)).nclusterblks := by rw [hrest]
    exact (heq.trans hncl).trans (if_pos hc)
  have hsum' : acg.clustersum = fun _ => 0 := by
    have heq : (rest acg).clustersum = (rest (header g c)).clustersum := by rw [hrest]
    exact heq.trans hsum
  have hsame : sumClusters g.super acg = { acg with clustersum := (sumClusters g.super acg).clustersum } := by
    unfold sumClusters
    split
    · rfl
    · rfl
  rw [hinit, hsame]
  refine ⟨⟨hfilled.bits, hfilled.counted, hfilled.clusters⟩, (ndblk_of_rest hrest).trans hndblk, hclusterblks, ?_, ?_,
    hnbfree, hnffree, ?_, ?_⟩
  · intro hc j
    show (sumClusters g.super acg).clustersum j = _
    unfold sumClusters
    rw [if_pos hc]
    show countClusters _ _ _ _ j = _
    rw [countClusters_eq, hsum', hclusterblks hc]
    exact zero_add _
  · have heq : (rest acg).cs.ndir = (rest (header g c)).cs.ndir := by rw [hrest]
    exact heq.trans (congrArg Csum.ndir hcs)
  · have heq : (rest acg).cs.nifree = (rest (header g c)).cs.nifree := by rw [hrest]
    exact heq.trans (congrArg Csum.nifree hcs)
  · intro i
    have heq : (rest acg).inosused = (rest (header g c)).inosused := by rw [hrest]
    exact (congrArg (fun m => Bitmap.isset m i) heq).trans (hinosused i)

/-! #### Without room -/

omit hw in
theorem upperLoop_end {d : Nat} (fuel : Nat) (hend : acg.ndblk < d + s.frag) : upperLoop s fuel d acg = (d, acg) := by
  cases fuel with
  | zero => rfl
  | succ fuel => exact if_neg (by omega)

omit hw in
theorem freeBehind_nbfree (acg : Cg) (d : Nat) : (freeBehind acg d).cs.nbfree = acg.cs.nbfree := by
  unfold freeBehind
  split
  · exact (freeFragments_kept ..).1
  · rfl

omit hw in
theorem sumClusters_cs (s : Super) (acg : Cg) : (sumClusters s acg).cs = acg.cs := by
  unfold sumClusters
  split
  · rfl
  · rfl

omit hw in
/-- Where the data begins behind the end of the group, no block is freed. -/
theorem nbfree_of_noRoom (h : Shape s φ k) {d : Nat} (hroom : acg.ndblk < howmany d s.frag * s.frag)
    (hf : Filled s (howmany d s.frag) (fun _ => False) acg) :
    (sumClusters s (freeBehind
      (upperLoop s (freeFront s acg d).2.ndblk (freeFront s acg d).1 (freeFront s acg d).2).2
      (upperLoop s (freeFront s acg d).2.ndblk (freeFront s acg d).1 (freeFront s acg d).2).1)).cs.nbfree
      = acg.cs.nbfree := by
  obtain ⟨hfst, -, hnbfree, -, hrest⟩ := freeFront_filled h hf le_rfl fun i hi => hi.elim
  have hend : (freeFront s acg d).2.ndblk < (freeFront s acg d).1 + s.frag := by
    rw [ndblk_of_rest hrest, hfst]
    exact lt_of_lt_of_le hroom (Nat.le_add_right ..)
  rw [upperLoop_end _ hend, sumClusters_cs, freeBehind_nbfree, hnbfree]

/-- If the metadata of group 0 does not fit in it, no block of it is free. -/
theorem initcg_nbfree_of_noRoom (hroom : ¬ firstBlock g 0 * g.super.frag ≤ g.groupSize 0) :
    (g.initcg 0).cs.nbfree = 0 := by
  obtain ⟨-, -, -, -, hndblk, -, hcs, -⟩ := header_cases g 0
  rw [initcg_eq (if_neg (Nat.lt_irrefl 0)), nbfree_of_noRoom hw.shape (hndblk.trans_lt (not_le.mp hroom))
    (filled_header hw _), hcs]

end Group

variable {g : Geometry}

/-! ### Runs of blocks -/

theorem runLeft_of_interval {m : Bitmap} {a e : Nat} (hm : ∀ b, m.isset b = true ↔ a ≤ b ∧ b < e) (hle : a ≤ e) :
    runLeft m.isset e = e - a := by
  have hstop := runLeft_stop m.isset e
  have hset := runLeft_set m.isset e
  have hrun := runLeft_le m.isset e
  generalize runLeft m.isset e = run at hstop hset hrun
  have hlow : run ≤ e - a := by
    by_contra hlong
    have hbit := hset (e - run) (by omega) (by omega)
    have := (hm _).mp hbit
    omega
  by_contra hne
  rcases hstop with hzero | hclr
  · omega
  · have hbit : m.isset (e - run - 1) = true := (hm _).mpr ⟨by omega, by omega⟩
    rw [hbit] at hclr
    cases hclr

theorem cappedRuns_of_clear {m : Bitmap} {n : Nat} (hm : ∀ b < n, m.isset b = false) (c j : Nat) :
    cappedRuns m.isset n c j = 0 := by
  induction n with
  | zero => exact cappedRuns_zero
  | succ n ih =>
      rw [cappedRuns_succ_of_clear (hm n (Nat.lt_succ_self n))]
      exact ih fun b hb => hm b (Nat.lt_succ_of_lt hb)

/-- A map of one run has one count. -/
theorem cappedRuns_of_interval {m : Bitmap} {a e : Nat} (hm : ∀ b, m.isset b = true ↔ a ≤ b ∧ b < e) (hlt : a < e)
    (c j : Nat) : cappedRuns m.isset e c j = if min (e - a) c = j then 1 else 0 := by
  have hrun := runLeft_of_interval hm hlt.le
  have hnone : cappedRuns m.isset a c j = 0 := by
    refine cappedRuns_of_clear (fun b hb => ?_) c j
    rw [Bool.eq_false_iff]
    intro hset
    have := (hm b).mp hset
    omega
  rw [cappedRuns_eq_add_runLeft (by omega), hrun, show e - (e - a) = a from by omega, hnone, Nat.zero_add]

/-! ### The first free block -/

/-- `alloc` finds the first block that is free as a whole. -/
theorem findBlock_eq (h : Shape g.super φ k) {b t : Nat} (fuel : Nat) (hbt : b ≤ t) (hfuel : t < fuel + b)
    (hend : t * g.super.frag < acg.ndblk)
    (hbusy : ∀ b' < t, FreeMap.whole g.super.frag (FreeMap.block g.super.frag acg.blksfree b') = false)
    (hfree : FreeMap.whole g.super.frag (FreeMap.block g.super.frag acg.blksfree t) = true) :
    findBlock g acg fuel (b * g.super.frag) = some (t * g.super.frag) := by
  have hfrag := h.frag_pos
  induction fuel generalizing b with
  | zero => omega
  | succ fuel ih =>
      have hin : b * g.super.frag < acg.ndblk := lt_of_le_of_lt (Nat.mul_le_mul_right _ hbt) hend
      rw [findBlock, if_pos hin, Nat.mul_div_cancel _ hfrag, isblock_eq_whole h]
      rcases Nat.eq_or_lt_of_le hbt with rfl | hlt
      · rw [if_pos hfree]
      · rw [if_neg (Bool.eq_false_iff.mp (hbusy b hlt)), show b * g.super.frag + g.super.frag = (b + 1) * g.super.frag
          from by rw [Nat.add_mul, Nat.one_mul]]
        exact ih hlt (by omega)

/-! ### A fragment of a free block -/

/-- The group after `alloc` has taken the first fragment of block `b`. -/
def takeFragment (s : Super) (acg : Cg) (b : Nat) : Cg :=
  { acg with
    blksfree := (clrblock s.frag acg.blksfree b).setRange (b * s.frag + 1) (s.frag - 1)
    clustersfree := if s.contigsumsize > 0 then acg.clustersfree.clrbit b else acg.clustersfree
    frsum := if 1 = s.frag then acg.frsum
      else Function.update acg.frsum (s.frag - 1) (acg.frsum (s.frag - 1) + 1)
    cs := { acg.cs with
      ndir := acg.cs.ndir + 1
      nbfree := acg.cs.nbfree - 1
      nffree := acg.cs.nffree + (s.frag - 1) } }

theorem filled_takeFragment (h : Shape s φ k) (hf : Filled s n P acg) {b : Nat} (hb : b < n)
    (hfree : ∀ i, b * s.frag ≤ i → i < b * s.frag + s.frag → P i) :
    Filled s n (fun i => P i ∧ i ≠ b * s.frag) (takeFragment s acg b) := by
  have hfrag := h.frag_pos
  have hbits (j : Nat) (hj : j < s.frag) : FreeMap.block s.frag acg.blksfree b j = true :=
    (hf.bits _).mpr (hfree _ (Nat.le_add_right ..) (by omega))
  have hset (i : Nat) : (takeFragment s acg b).blksfree.isset i
      = (!decide (b * s.frag ≤ i ∧ i < b * s.frag + 1) && acg.blksfree.isset i) := by
    show ((clrblock s.frag acg.blksfree b).setRange (b * s.frag + 1) (s.frag - 1)).isset i = _
    rw [Bitmap.isset_setRange, isset_clrblock h]
    by_cases hin : b * s.frag ≤ i ∧ i < b * s.frag + s.frag
    · rw [(hf.bits i).mpr (hfree i hin.1 hin.2), decide_eq_true hin, Bool.not_true, Bool.false_and, Bool.or_false,
        Bool.and_true, ← decide_not]
      exact decide_eq_decide.mpr (by omega)
    · rw [decide_eq_false hin, decide_eq_false (by omega), decide_eq_false (by omega), Bool.false_or]
  refine ⟨?_, hf.counted.allocFront hb Nat.one_pos hfrag hbits hset, ?_⟩
  · intro i
    rw [hset, Bool.and_eq_true, Bool.not_eq_true', decide_eq_false_iff_not, hf.bits, and_comm]
    exact and_congr_right fun _ => by omega
  · intro hc b'
    show (if s.contigsumsize > 0 then acg.clustersfree.clrbit b else acg.clustersfree).isset b' = _
    rw [if_pos hc, Bitmap.isset_clrbit]
    by_cases hbb : b' = b
    · have hpart : FreeMap.whole s.frag (FreeMap.block s.frag (takeFragment s acg b).blksfree b) = false := by
        rw [Bool.eq_false_iff]
        intro hall
        have hfirst := (FreeMap.whole_iff _).mp hall 0 hfrag
        rw [FreeMap.block, hset, decide_eq_true (by omega)] at hfirst
        cases hfirst
      rw [hbb, hpart, decide_eq_true rfl, Bool.not_true, Bool.false_and]
    · have hsame : FreeMap.SameOutside s.frag b acg.blksfree (takeFragment s acg b).blksfree := by
        intro i hi
        rw [hset, decide_eq_false (by omega), Bool.not_false, Bool.true_and]
      rw [decide_eq_false hbb, Bool.not_false, Bool.true_and, hf.clusters hc b', whole_of_outside hsame hbb]

/-! ### Group 0 -/

/-- Group 0 with `j` directories, for `i` of which there is an inode. -/
structure Taken (g : Geometry) (j i : Nat) (acg : Cg) : Prop where
  filled : Filled g.super (howmany (g.groupSize 0) g.super.frag)
    (fun f => FreeAt g 0 f ∧ ∀ t < j, f ≠ (firstBlock g 0 + t) * g.super.frag) acg
  ndblk : acg.ndblk = g.groupSize 0
  nclusterblks : 0 < g.super.contigsumsize → acg.nclusterblks = lastBlock g 0
  clustersum : 0 < g.super.contigsumsize → ∀ l, acg.clustersum l
    = (if min (lastBlock g 0 - firstBlock g 0) g.super.contigsumsize = l then 1 else 0 : Nat)
  ndir : acg.cs.ndir = j
  nbfree : acg.cs.nbfree = (lastBlock g 0 - firstBlock g 0 : Nat) - j
  nffree : acg.cs.nffree
    = (firstBlock g 0 * g.super.frag - g.dupper 0 + g.groupSize 0 % g.super.frag : Nat) + j * ((g.super.frag : Int) - 1)
  nifree : acg.cs.nifree = g.ipg - 2 - i
  inosused : ∀ f, acg.inosused.isset f = decide (f < 2 + i)

section Group

variable {j i : Nat} (hw : Written g φ k)

theorem freeAt_zero (f : Nat) : FreeAt g 0 f ↔ g.dupper 0 ≤ f ∧ f < g.groupSize 0 :=
  or_iff_right fun h => absurd h.1 (Nat.lt_irrefl 0)

include hw

/-- A block of group 0 is free as a whole if no directory has taken of it. -/
theorem whole_iff_of_taken (hf : Filled g.super n (fun f => FreeAt g 0 f
      ∧ ∀ t < j, f ≠ (firstBlock g 0 + t) * g.super.frag) acg) (b : Nat) :
    FreeMap.whole g.super.frag (FreeMap.block g.super.frag acg.blksfree b) = true
      ↔ firstBlock g 0 + j ≤ b ∧ b < lastBlock g 0 := by
  have hfrag := hw.shape.frag_pos
  have hup : g.dupper 0 ≤ firstBlock g 0 * g.super.frag := le_howmany_mul hfrag
  have hlast : b < lastBlock g 0 ↔ b * g.super.frag + g.super.frag ≤ g.groupSize 0 := by
    rw [show b * g.super.frag + g.super.frag = (b + 1) * g.super.frag from by rw [Nat.add_mul, Nat.one_mul],
      ← Nat.le_div_iff_mul_le hfrag]
    exact Nat.succ_le_iff
  have hfirst : firstBlock g 0 ≤ b ↔ g.dupper 0 ≤ b * g.super.frag := howmany_le_iff hfrag
  rw [FreeMap.whole_iff, hlast]
  have hbit (f : Nat) := (hf.bits f).trans (and_congr_left' (freeAt_zero f))
  constructor
  · intro hall
    have h₀ := (hbit _).mp (hall 0 hfrag)
    have h₁ := (hbit _).mp (hall (g.super.frag - 1) (by omega))
    have hb := hfirst.mpr (by omega)
    refine ⟨?_, by omega⟩
    by_contra hlow
    refine h₀.2 (b - firstBlock g 0) (by omega) ?_
    rw [show firstBlock g 0 + (b - firstBlock g 0) = b from by omega, Nat.add_zero]
  · rintro ⟨hlow, hhigh⟩ l hl
    have hb := hfirst.mp (by omega)
    refine (hbit _).mpr ⟨by omega, ?_⟩
    intro t ht heq
    -- the fragment is in block `b`, behind those that have been taken
    have hmul : (firstBlock g 0 + t + 1) * g.super.frag ≤ b * g.super.frag := Nat.mul_le_mul_right _ (by omega)
    rw [Nat.add_mul, Nat.one_mul] at hmul
    omega

theorem taken_initcg (hroom : firstBlock g 0 < lastBlock g 0) : Taken g 0 0 (g.initcg 0) := by
  have hfrag := hw.shape.frag_pos
  have hb := initcg_built hw ((Nat.le_div_iff_mul_le hfrag).mp hroom.le)
  have hfilled : Filled g.super (howmany (g.groupSize 0) g.super.frag)
      (fun f => FreeAt g 0 f ∧ ∀ t < 0, f ≠ (firstBlock g 0 + t) * g.super.frag) (g.initcg 0) := by
    refine hb.filled.congr fun f => (and_iff_left ?_).symm
    exact fun t ht => absurd ht (Nat.not_lt_zero t)
  refine ⟨hfilled, hb.ndblk, hb.nclusterblks, ?_, hb.ndir, ?_, ?_, ?_, ?_⟩
  · intro hc l
    rw [hb.clustersum hc, cappedRuns_of_interval (a := firstBlock g 0) ?_ hroom]
    intro b
    rw [hb.filled.clusters hc, whole_iff_of_taken hw hfilled, Nat.add_zero]
  · rw [hb.nbfree, if_neg (Nat.lt_irrefl 0), Nat.zero_add]
    exact (sub_zero _).symm
  · rw [hb.nffree, Nat.cast_zero, zero_mul, add_zero]
  · rw [hb.nifree, if_pos rfl]
    push_cast
    ring
  · intro f
    rw [hb.inosused]
    exact decide_eq_decide.mpr (by omega)

theorem taken_takeFragment (ht : Taken g j i acg) (hroom : firstBlock g 0 + j < lastBlock g 0) :
    Taken g (j + 1) i (takeFragment g.super acg (firstBlock g 0 + j)) := by
  have hfrag := hw.shape.frag_pos
  have hlast : lastBlock g 0 ≤ howmany (g.groupSize 0) g.super.frag := Nat.div_le_div_right (Nat.le_add_right ..)
  have hwhole := (whole_iff_of_taken hw ht.filled (firstBlock g 0 + j)).mpr ⟨le_rfl, hroom⟩
  have hfilled := filled_takeFragment hw.shape ht.filled (lt_of_lt_of_le hroom hlast) fun f hlo hhi => by
    have hbit := (FreeMap.whole_iff _).mp hwhole (f - (firstBlock g 0 + j) * g.super.frag) (by omega)
    rw [FreeMap.block, show (firstBlock g 0 + j) * g.super.frag + (f - (firstBlock g 0 + j) * g.super.frag) = f
      from by omega] at hbit
    exact (ht.filled.bits f).mp hbit
  refine ⟨hfilled.congr fun f => ?_, ht.ndblk, ht.nclusterblks, ht.clustersum, ?_, ?_, ?_, ht.nifree, ht.inosused⟩
  · rw [and_assoc]
    refine and_congr_right fun _ => ?_
    constructor
    · rintro ⟨hbefore, hthis⟩ t ht'
      rcases Nat.lt_succ_iff_lt_or_eq.mp ht' with hlt | rfl
      · exact hbefore t hlt
      · exact hthis
    · intro hall
      exact ⟨fun t ht' => hall t (Nat.lt_succ_of_lt ht'), hall j (Nat.lt_succ_self j)⟩
  · show acg.cs.ndir + 1 = _
    rw [ht.ndir]
    push_cast
    ring
  · show acg.cs.nbfree - 1 = _
    rw [ht.nbfree]
    push_cast
    ring
  · show acg.cs.nffree + ((g.super.frag : Int) - 1) = _
    rw [ht.nffree]
    push_cast
    ring

omit hw in
theorem taken_useInode (ht : Taken g j i acg) :
    Taken g j (i + 1) { acg with
      cs := { acg.cs with nifree := acg.cs.nifree - 1 }, inosused := acg.inosused.setbit (2 + i) } := by
  refine ⟨⟨ht.filled.bits, ht.filled.counted, ht.filled.clusters⟩, ht.ndblk, ht.nclusterblks, ht.clustersum, ht.ndir,
    ht.nbfree, ht.nffree, ?_, ?_⟩
  · show acg.cs.nifree - 1 = _
    rw [ht.nifree]
    push_cast
    ring
  · intro f
    show (acg.inosused.setbit (2 + i)).isset f = _
    rw [Bitmap.isset_setbit, ht.inosused, ← Bool.decide_or]
    exact decide_eq_decide.mpr (by omega)

end Group

/-! ### The file system -/

/-- The file system with `j` directories, for `i` of which there is an inode. `acg` is group 0
as it has been written. -/
structure Made (g : Geometry) (j i : Nat) (fs : NewFs) (acg : Cg) : Prop where
  taken : Taken g j i acg
  csp : fs.csp 0 = acg.cs
  others : ∀ c, 0 < c → c < g.ncg → fs.cgs c = g.initcg c ∧ fs.csp c = (g.initcg c).cs
  cstotal : fs.cstotal
    = ⟨j, g.cstotal.nbfree - j, g.cstotal.nifree - i, g.cstotal.nffree + j * ((g.super.frag : Int) - 1)⟩

section Steps

variable {j i : Nat} {fs : NewFs} (hw : Written g φ k)

theorem cgwrite_cgs_zero (back : Cg → Cg) (fs : NewFs) (acg : Cg) : (cgwrite back fs acg).cgs 0 = back acg := by
  show Function.update fs.cgs 0 (back acg) 0 = back acg
  rw [Function.update_self]

include hw

theorem fsize_ne_bsize : g.super.fsize ≠ g.super.bsize ↔ g.super.frag ≠ 1 := by
  rw [hw.shape.fsize, hw.shape.bsize, hw.shape.frag, Nat.pow_add, not_iff_not]
  constructor
  · intro heq
    exact (Nat.eq_of_mul_eq_mul_left (Nat.two_pow_pos φ) ((Nat.mul_one _).trans heq)).symm
  · intro hone
    rw [hone, Nat.mul_one]

/-- What a directory changes in the summaries. -/
def dirCsum (s : Super) (cs : Csum) : Csum :=
  ⟨cs.ndir + 1, cs.nbfree - 1, cs.nifree, cs.nffree + ((s.frag : Int) - 1)⟩

theorem alloc_eq (back : Cg → Cg) (ht : Taken g j i (fs.cgs 0)) (hroom : firstBlock g 0 + j < lastBlock g 0) :
    alloc g back fs g.super.fsize = some (cgwrite back (addCsum fs (dirCsum g.super))
      (takeFragment g.super (fs.cgs 0) (firstBlock g 0 + j)), (firstBlock g 0 + j) * g.super.frag) := by
  have hfrag := hw.shape.frag_pos
  have hfsize : 0 < g.super.fsize := by
    rw [hw.shape.fsize]
    exact Nat.two_pow_pos φ
  have hone : howmany g.super.fsize g.super.fsize = 1 :=
    le_antisymm ((howmany_le_iff hfsize).mpr (Nat.one_mul _).ge) (howmany_pos hfsize hfsize)
  have hend : (firstBlock g 0 + j) * g.super.frag < (fs.cgs 0).ndblk := by
    rw [ht.ndblk]
    have hmul := (Nat.le_div_iff_mul_le hfrag).mp (Nat.succ_le_iff.mpr hroom)
    rw [Nat.succ_mul] at hmul
    omega
  have hle : firstBlock g 0 + j ≤ (firstBlock g 0 + j) * g.super.frag := Nat.le_mul_of_pos_right _ hfrag
  have hfind := findBlock_eq hw.shape ((fs.cgs 0).ndblk + 1) (Nat.zero_le (firstBlock g 0 + j)) (by omega) hend
    (fun b hb => Bool.eq_false_iff.mpr fun hall => by
      have := (whole_iff_of_taken hw ht.filled b).mp hall
      omega)
    ((whole_iff_of_taken hw ht.filled _).mpr ⟨le_rfl, hroom⟩)
  rw [Nat.zero_mul] at hfind
  have hnbfree : (fs.cgs 0).cs.nbfree ≠ 0 := by
    rw [ht.nbfree]
    omega
  unfold alloc
  simp only [if_neg hnbfree, hfind, Option.bind_eq_bind, Option.bind_some, Nat.mul_div_cancel _ hfrag, hone]
  by_cases hsmall : g.super.frag = 1
  · -- a fragment is a block, of which nothing is given back
    have hnothing (cs : Csum) : dirCsum g.super cs = { cs with nbfree := cs.nbfree - 1, ndir := cs.ndir + 1 } := by
      unfold dirCsum
      rw [hsmall, Nat.cast_one, sub_self, add_zero]
    have htake (acg : Cg) (b : Nat) : takeFragment g.super acg b = { acg with
        blksfree := clrblock g.super.frag acg.blksfree b
        clustersfree := if g.super.contigsumsize > 0 then acg.clustersfree.clrbit b else acg.clustersfree
        cs := dirCsum g.super acg.cs } := by
      unfold takeFragment
      rw [if_pos hsmall.symm, hsmall]
      unfold dirCsum
      rw [hsmall]
      rfl
    rw [if_neg (not_not.mpr (not_not.mp (mt (fsize_ne_bsize hw).mp (not_not.mpr hsmall)))), htake, hnothing,
      funext hnothing]
  · rw [if_pos ((fsize_ne_bsize hw).mpr hsmall)]
    unfold takeFragment
    rw [if_neg (Ne.symm hsmall)]
    simp only [addCsum, cgwrite, Function.update_self, Function.update_idem, Nat.cast_one]
    rfl

theorem alloc_made (back : Cg → Cg) (hm : Made g j i fs (fs.cgs 0)) (hroom : firstBlock g 0 + j < lastBlock g 0) :
    ∃ fs' d acg, alloc g back fs g.super.fsize = some (fs', d) ∧ Made g (j + 1) i fs' acg ∧ fs'.cgs 0 = back acg := by
  refine ⟨_, _, _, alloc_eq hw back hm.taken hroom, ⟨taken_takeFragment hw hm.taken hroom, ?_, ?_, ?_⟩,
    cgwrite_cgs_zero ..⟩
  · show Function.update fs.csp 0 (dirCsum g.super (fs.csp 0)) 0 = dirCsum g.super (fs.cgs 0).cs
    rw [Function.update_self, hm.csp]
  · intro c hc hlt
    show Function.update fs.cgs 0 _ c = _ ∧ Function.update fs.csp 0 _ c = _
    rw [Function.update_of_ne hc.ne', Function.update_of_ne hc.ne']
    exact hm.others c hc hlt
  · show dirCsum g.super fs.cstotal = _
    rw [hm.cstotal]
    unfold dirCsum
    congr 1
    · push_cast
      ring
    · push_cast
      ring

omit hw in
theorem iput_made (back : Cg → Cg) (hm : Made g j i fs (fs.cgs 0)) :
    ∃ acg, Made g j (i + 1) (iput back fs (UFS_ROOTINO + i)) acg
      ∧ (iput back fs (UFS_ROOTINO + i)).cgs 0 = back acg := by
  refine ⟨_, ⟨taken_useInode hm.taken, ?_, ?_, ?_⟩, cgwrite_cgs_zero back fs _⟩
  · show Function.update fs.csp 0 { fs.csp 0 with nifree := (fs.csp 0).nifree - 1 } 0 = _
    rw [Function.update_self, hm.csp]
  · intro c hc hlt
    show Function.update fs.cgs 0 _ c = _ ∧ Function.update fs.csp 0 _ c = _
    rw [Function.update_of_ne hc.ne', Function.update_of_ne hc.ne']
    exact hm.others c hc hlt
  · show { fs.cstotal with nifree := fs.cstotal.nifree - 1 } = (_ : Csum)
    rw [hm.cstotal]
    refine Csum.ext rfl rfl ?_ rfl
    show g.cstotal.nifree - i - 1 = g.cstotal.nifree - ((i + 1 : Nat) : Int)
    push_cast
    ring

end Steps

end UfsX.Proofs.Initcg
