import UfsX.Newfs.Mkfs
import Mathlib.Data.Nat.Log

/-!
# `UfsX.Proofs.Mkfs`: the geometry that `mkfs` chooses

The sizes of blocks and fragments are powers of two, whatever the options are, and `Shape`
says how the other sizes follow from their exponents. One step of each loop keeps a relation
between the size of a group and its inodes; where a loop ends, this is what is known of the
geometry. `Sound` is what holds of every geometry that is written, and `mkfs_wellFormed_iff`
says when it is well formed.
-/

set_option autoImplicit false

namespace UfsX.Proofs.Mkfs

open UfsX.Compat UfsX.Ffs UfsX.Newfs

/-! ### Rounding -/

variable {x x' y n : Nat}

theorem howmany_le_iff (hy : 0 < y) : howmany x y ≤ n ↔ x ≤ n * y := by
  unfold howmany
  rw [← Nat.lt_succ_iff, Nat.div_lt_iff_lt_mul hy, Nat.succ_mul]
  omega

theorem le_howmany_mul (hy : 0 < y) : x ≤ howmany x y * y := (howmany_le_iff hy).mp le_rfl

theorem lt_howmany_iff (hy : 0 < y) : n < howmany x y ↔ n * y < x := by
  rw [← not_le, howmany_le_iff hy, not_le]

theorem howmany_mono (hy : 0 < y) (h : x ≤ x') : howmany x y ≤ howmany x' y :=
  (howmany_le_iff hy).mpr (h.trans (le_howmany_mul hy))

theorem howmany_pos (hy : 0 < y) (hx : 0 < x) : 0 < howmany x y := (lt_howmany_iff hy).mpr (by omega)

theorem roundup_eq (x y : Nat) : roundup x y = howmany x y * y := rfl

theorem dvd_roundup (x y : Nat) : y ∣ roundup x y := Dvd.intro_left _ rfl

theorem le_roundup (hy : 0 < y) : x ≤ roundup x y := le_howmany_mul hy

theorem roundup_lt (hy : 0 < y) : roundup x y < x + y := by
  have h := Nat.div_mul_le_self (x + (y - 1)) y
  unfold roundup
  omega

theorem roundup_mono (hy : 0 < y) (h : x ≤ x') : roundup x y ≤ roundup x' y :=
  Nat.mul_le_mul_right y (howmany_mono hy h)

theorem roundup_of_dvd (hy : 0 < y) (h : y ∣ x) : roundup x y = x := by
  obtain ⟨k, rfl⟩ := h
  have hle : howmany (y * k) y ≤ k := (howmany_le_iff hy).mpr (Nat.mul_comm y k).le
  have hge := le_roundup (x := y * k) hy
  have hmul := Nat.mul_le_mul_right y hle
  rw [Nat.mul_comm k y] at hmul
  exact le_antisymm hmul hge

/-! ### Blocks and fragments -/

/-- A superblock whose fragments have `2 ^ φ` bytes, with `2 ^ k` of them in a block. -/
structure Shape (s : Super) (φ k : Nat) : Prop where
  fsize : s.fsize = 2 ^ φ
  bsize : s.bsize = 2 ^ (φ + k)
  fshift : s.fshift = φ
  frag : s.frag = 2 ^ k
  fragshift : s.fragshift = k
  fsbtodb : s.fsbtodb = φ - 9
  inopb : s.inopb * dinodeSize s.Oflag = s.bsize
  inopf : s.inopf * s.frag = s.inopb
  fsize_ge : 9 ≤ φ
  frag_le : k ≤ 3
  bsize_ge : 12 ≤ φ + k
  bsize_le : φ + k ≤ 20
  frag_dvd : s.frag ∣ s.iblkno
  frag_lt : s.frag < s.iblkno
  iblkno_le : s.iblkno ≤ 200
  contigsumsize_le : s.contigsumsize ≤ 16

theorem ite_pow_lt (a b : Nat) : (if 2 ^ a < 2 ^ b then 2 ^ b else 2 ^ a) = 2 ^ max a b := by
  split
  case isTrue h => rw [max_eq_right ((Nat.pow_lt_pow_iff_right Nat.one_lt_two).mp h).le]
  case isFalse h => rw [max_eq_left ((Nat.pow_le_pow_iff_right Nat.one_lt_two).mp (not_lt.mp h))]

theorem ite_pow_gt (a b : Nat) : (if 2 ^ a > 2 ^ b then 2 ^ b else 2 ^ a) = 2 ^ min a b := by
  split
  case isTrue h => rw [min_eq_right ((Nat.pow_lt_pow_iff_right Nat.one_lt_two).mp h).le]
  case isFalse h => rw [min_eq_left ((Nat.pow_le_pow_iff_right Nat.one_lt_two).mp (not_lt.mp h))]

/-- The sizes that are chosen, for powers of two. -/
theorem chooseSizes_pow (L : Limits) (j i : Nat) :
    ∃ φ k, chooseSizes L (2 ^ j) (2 ^ i) = (2 ^ φ, 2 ^ (φ + k)) ∧ 9 ≤ φ ∧ k ≤ 3 ∧ 12 ≤ φ + k ∧ φ + k ≤ 20
      ∧ (10 ≤ i → 10 ≤ φ) := by
  obtain ⟨m, hm⟩ := L.powerof2
  have hge : 2 ^ 12 ≤ 2 ^ m := hm ▸ L.minbsize_le
  have hle : 2 ^ m ≤ 2 ^ 20 := hm ▸ L.le
  have hm₁ : 12 ≤ m := (Nat.pow_le_pow_iff_right Nat.one_lt_two).mp hge
  have hm₂ : m ≤ 20 := (Nat.pow_le_pow_iff_right Nat.one_lt_two).mp hle
  have hdev : DEV_BSIZE = 2 ^ 9 := rfl
  have hmin : MINBSIZE = 2 ^ 12 := rfl
  have hfrag : MAXFRAG = 2 ^ 3 := rfl
  unfold chooseSizes
  simp only [hm, hdev, hmin, hfrag, ite_pow_lt, ite_pow_gt, ← Nat.pow_add]
  generalize hf : min (max i 9) m = f
  generalize hb : max (max (min j m) 12) f = b
  split
  case isTrue h =>
      have h := (Nat.pow_lt_pow_iff_right Nat.one_lt_two).mp h
      refine ⟨b - 3, 3, ?_, by omega, by omega, by omega, by omega, by omega⟩
      rw [Nat.sub_add_cancel (by omega), Nat.pow_div (by omega) (by omega)]
  case isFalse h =>
      have h := (Nat.pow_le_pow_iff_right Nat.one_lt_two).mp (not_lt.mp h)
      refine ⟨f, b - f, ?_, by omega, by omega, by omega, by omega, by omega⟩
      rw [Nat.add_sub_cancel' (by omega)]

theorem isPowerOfTwo_of_POWEROF2 (hn : 0 < n) (h : POWEROF2 n = true) : n.isPowerOfTwo :=
  (Nat.and_sub_one_eq_zero_iff_isPowerOfTwo hn.ne').mp (of_decide_eq_true h)

/-- The blocks in front of the inodes of a group. -/
theorem iblkno_bounds {loc φ k : Nat} (hloc : loc ≤ 65536) (hφ : 9 ≤ φ) (hk : k ≤ 3) :
    2 ^ k < roundup (howmany (loc + SBLOCKSIZE) (2 ^ φ)) (2 ^ k) + roundup (howmany SBLOCKSIZE (2 ^ φ)) (2 ^ k)
        + 2 ^ k
      ∧ roundup (howmany (loc + SBLOCKSIZE) (2 ^ φ)) (2 ^ k) + roundup (howmany SBLOCKSIZE (2 ^ φ)) (2 ^ k)
        + 2 ^ k ≤ 200 := by
  have hpos : 0 < 2 ^ k := Nat.two_pow_pos k
  have hφpos : 0 < 2 ^ φ := Nat.two_pow_pos φ
  have hk₈ : 2 ^ k ≤ 8 := Nat.pow_le_pow_right (by omega) hk
  have hφ₉ : 2 ^ 9 ≤ 2 ^ φ := Nat.pow_le_pow_right (by omega) hφ
  have hfirst : howmany (loc + SBLOCKSIZE) (2 ^ φ) ≤ 144 := by
    rw [howmany_le_iff hφpos]
    unfold SBLOCKSIZE
    omega
  have hsecond : howmany SBLOCKSIZE (2 ^ φ) ≤ 16 := by
    rw [howmany_le_iff hφpos]
    unfold SBLOCKSIZE
    omega
  have hsome : 0 < howmany SBLOCKSIZE (2 ^ φ) := howmany_pos hφpos (by decide)
  have hlt₁ := roundup_lt (x := howmany (loc + SBLOCKSIZE) (2 ^ φ)) hpos
  have hlt₂ := roundup_lt (x := howmany SBLOCKSIZE (2 ^ φ)) hpos
  have hge := le_roundup (x := howmany SBLOCKSIZE (2 ^ φ)) hpos
  omega

theorem shape_setup (L : Limits) (o : Options) (hb : POWEROF2 o.bsize = true) (hf : POWEROF2 o.fsize = true) :
    ∃ φ k, Shape (setup L o) φ k ∧ (1024 ≤ o.fsize → 10 ≤ φ) := by
  obtain ⟨j, hj⟩ := isPowerOfTwo_of_POWEROF2 o.bsize_pos hb
  obtain ⟨i, hi⟩ := isPowerOfTwo_of_POWEROF2 o.fsize_pos hf
  obtain ⟨φ, k, hsizes, hφ, hk, hge, hle, hten⟩ := chooseSizes_pow L j i
  have hfrag : 2 ^ (φ + k) >>> φ = 2 ^ k := by
    rw [Nat.shiftRight_eq_div_pow, Nat.pow_add, Nat.mul_div_cancel_left _ (Nat.two_pow_pos φ)]
  have hdev : Nat.log2 (2 ^ φ / DEV_BSIZE) = φ - 9 := by
    have : (2 : Nat) ^ φ / DEV_BSIZE = 2 ^ (φ - 9) := Nat.pow_div hφ (by omega)
    rw [this, Nat.log2_two_pow]
  have hloc : sblockloc o.Oflag ≤ 65536 := by cases o.Oflag <;> decide
  obtain ⟨d, hd, hd₁, hd₂⟩ : ∃ d, dinodeSize o.Oflag = 2 ^ d ∧ 7 ≤ d ∧ d ≤ 8 := by
    cases o.Oflag
    · exact ⟨7, rfl, by omega, by omega⟩
    · exact ⟨8, rfl, by omega, by omega⟩
  have hinopb : 2 ^ (φ + k) / dinodeSize o.Oflag = 2 ^ (φ + k - d) := by
    rw [hd]
    exact Nat.pow_div (by omega) (by omega)
  obtain ⟨hiblk₁, hiblk₂⟩ := iblkno_bounds hloc hφ hk
  have hsetup : setup L o = { (setup L o) with
      bsize := 2 ^ (φ + k), fsize := 2 ^ φ, fshift := φ, frag := 2 ^ k, fragshift := k, fsbtodb := φ - 9
      inopb := 2 ^ (φ + k - d)
      iblkno := roundup (howmany (sblockloc o.Oflag + SBLOCKSIZE) (2 ^ φ)) (2 ^ k)
        + roundup (howmany SBLOCKSIZE (2 ^ φ)) (2 ^ k) + 2 ^ k } := by
    simp only [setup, hi, hj, hsizes, Nat.log2_two_pow, hfrag, hdev, hinopb]
  refine ⟨φ, k, ?_, fun h => hten ?_⟩
  · rw [hsetup]
    exact
      { fsize := rfl, bsize := rfl, fshift := rfl, frag := rfl, fragshift := rfl, fsbtodb := rfl
        inopb := by
          show 2 ^ (φ + k - d) * dinodeSize o.Oflag = 2 ^ (φ + k)
          rw [hd, ← Nat.pow_add, Nat.sub_add_cancel (by omega)]
        inopf := by
          show 2 ^ (φ + k - d) >>> k * 2 ^ k = 2 ^ (φ + k - d)
          rw [Nat.shiftRight_eq_div_pow, Nat.pow_div (by omega) (by omega), ← Nat.pow_add,
            Nat.sub_add_cancel (by omega)]
        fsize_ge := hφ, frag_le := hk, bsize_ge := hge, bsize_le := hle
        frag_dvd := Nat.dvd_add (Nat.dvd_add (dvd_roundup ..) (dvd_roundup ..)) (dvd_refl _)
        frag_lt := hiblk₁, iblkno_le := hiblk₂
        contigsumsize_le := chooseContigsumsize_le o _ }
  · rw [hi] at h
    exact (Nat.pow_le_pow_iff_right Nat.one_lt_two).mp h

/-! ### Groups -/

theorem CGSIZE_mono {fpg fpg' ipg ipg' : Nat} (s : Super) (hfpg : fpg ≤ fpg') (hipg : ipg ≤ ipg') : s.CGSIZE fpg ipg ≤ s.CGSIZE fpg' ipg' := by
  have h₁ : howmany ipg 8 ≤ howmany ipg' 8 := howmany_mono (by omega) hipg
  have h₂ : howmany fpg 8 ≤ howmany fpg' 8 := howmany_mono (by omega) hfpg
  have h₃ : howmany (fpg >>> s.fragshift) 8 ≤ howmany (fpg' >>> s.fragshift) 8 := by
    rw [Nat.shiftRight_eq_div_pow, Nat.shiftRight_eq_div_pow]
    exact howmany_mono (by omega) (Nat.div_le_div_right hfpg)
  unfold Super.CGSIZE
  split
  case isTrue => omega
  case isFalse => omega

/-- The map of a group has a bit for each fragment. -/
theorem fpg_lt_CGSIZE (s : Super) (fpg ipg : Nat) : fpg < 8 * s.CGSIZE fpg ipg := by
  have hmap : fpg ≤ howmany fpg 8 * 8 := le_howmany_mul (by omega)
  unfold Super.CGSIZE
  omega

/-- The fragments that a block of inodes is for, or all there are. -/
def minfpg (s : Super) (fragsperinode : Nat) : Nat := min (fragsperinode * s.inopb) s.size

theorem group_fst (s : Super) (f : Nat) :
    (s.group f).1 = max (s.lastminfpg (s.ipg f (max (s.lastminfpg s.inopb) (minfpg s f)))) (minfpg s f) := by
  have hmin : (if f * s.inopb > s.size then s.size else f * s.inopb) = minfpg s f := by
    unfold minfpg
    grind
  have hmax : ∀ a b : Nat, (if a < b then b else a) = max a b := by
    intro a b
    grind
  simp only [Super.group, hmin, hmax]

theorem group_snd (s : Super) (f : Nat) : (s.group f).2 = s.ipg f (s.group f).1 := rfl

theorem ipg_eq_mul (s : Super) (f fpg : Nat) : ∃ q, s.ipg f fpg = q * s.inopb :=
  ⟨howmany (howmany fpg f) s.inopb, rfl⟩

namespace Shape

variable {s : Super} {φ k fragsperinode fpg fpg' ipg ipg' : Nat} (h : Shape s φ k)
include h

theorem frag_pos : 0 < s.frag := h.frag ▸ Nat.two_pow_pos k

theorem frag_le_eight : s.frag ≤ 8 := h.frag ▸ Nat.pow_le_pow_right (by omega) h.frag_le

theorem inopb_bounds : 16 ≤ s.inopb ∧ 128 * s.inopb ≤ s.bsize ∧ s.inopb ≤ 2 ^ 13 := by
  have hinopb := h.inopb
  have hge : 2 ^ 12 ≤ s.bsize := h.bsize ▸ Nat.pow_le_pow_right (by omega) h.bsize_ge
  have hle : s.bsize ≤ 2 ^ 20 := h.bsize ▸ Nat.pow_le_pow_right (by omega) h.bsize_le
  cases hO : s.Oflag with
  | ufs1 =>
      rw [hO] at hinopb
      simp only [dinodeSize] at hinopb
      omega
  | ufs2 =>
      rw [hO] at hinopb
      simp only [dinodeSize] at hinopb
      omega

theorem four_KB_le : 2 ^ 12 ≤ s.bsize := h.bsize ▸ Nat.pow_le_pow_right (by omega) h.bsize_ge

theorem inopf_pos : 0 < s.inopf := by
  refine Nat.pos_of_ne_zero fun hzero => ?_
  have hinopf := h.inopf
  rw [hzero, Nat.zero_mul] at hinopf
  have := h.inopb_bounds.1
  omega

/-- The inodes of a group fill whole blocks. -/
theorem div_inopf (q : Nat) : q * s.inopb / s.inopf = q * s.frag := by
  rw [← h.inopf, Nat.mul_comm s.inopf, ← Nat.mul_assoc, Nat.mul_div_cancel _ h.inopf_pos]

theorem lastminfpg_mul (q : Nat) : s.lastminfpg (q * s.inopb) = s.iblkno + q * s.frag := by
  unfold Super.lastminfpg
  rw [h.div_inopf]
  exact roundup_of_dvd h.frag_pos (Nat.dvd_add h.frag_dvd (Nat.dvd_mul_left ..))

theorem dblkno_le_lastminfpg (ipg : Nat) : s.iblkno + ipg / s.inopf ≤ s.lastminfpg ipg := le_roundup h.frag_pos

theorem ipg_mono (hf : 0 < fragsperinode) (hle : fpg ≤ fpg') : s.ipg fragsperinode fpg ≤ s.ipg fragsperinode fpg' :=
  roundup_mono (by have := h.inopb_bounds.1; omega) (howmany_mono hf hle)

/-- The smallest group has room for its superblock, its header and a block of inodes. -/
theorem le_group (hf : 0 < fragsperinode) : s.iblkno + s.frag ≤ (s.group fragsperinode).1 := by
  obtain ⟨q, hq⟩ := ipg_eq_mul s fragsperinode (max (s.lastminfpg s.inopb) (minfpg s fragsperinode))
  have hinopb := h.inopb_bounds.1
  have hroom : s.iblkno + s.frag = s.lastminfpg s.inopb := by
    have := h.lastminfpg_mul 1
    rw [Nat.one_mul, Nat.one_mul] at this
    exact this.symm
  have hpos : 0 < q * s.inopb := by
    rw [← hq]
    refine lt_of_lt_of_le (howmany_pos hf ?_) (le_roundup (by omega))
    have := h.frag_pos
    omega
  have hone : 1 ≤ q := Nat.pos_of_mul_pos_right hpos
  rw [group_fst, hq, h.lastminfpg_mul]
  exact (Nat.add_le_add_left (Nat.le_mul_of_pos_left _ hone) _).trans (le_max_left ..)

/-- The smallest group is in whole blocks, or the whole file system. -/
theorem frag_dvd_group :
    s.frag ∣ (s.group fragsperinode).1
      ∨ (s.group fragsperinode).1 = s.size ∧ s.size < fragsperinode * s.inopb := by
  rw [group_fst]
  rcases max_choice (s.lastminfpg (s.ipg fragsperinode (max (s.lastminfpg s.inopb) (minfpg s fragsperinode))))
    (minfpg s fragsperinode) with hmax | hmax
  · rw [hmax]
    exact .inl (dvd_roundup ..)
  · rw [hmax]
    unfold minfpg
    rcases le_or_gt (fragsperinode * s.inopb) s.size with hle | hgt
    · rw [min_eq_left hle, ← h.inopf, ← Nat.mul_assoc]
      exact .inl (Nat.dvd_mul_left ..)
    · rw [min_eq_right hgt.le]
      exact .inr ⟨rfl, hgt⟩

/-- With an inode for each fragment, a group is not much larger than its first blocks. -/
theorem group_one_le : (s.group 1).1 ≤ 320 + s.inopb := by
  obtain ⟨q, hq⟩ := ipg_eq_mul s 1 (max (s.lastminfpg s.inopb) (minfpg s 1))
  have hinopb := h.inopb_bounds.1
  have hiblkno := h.iblkno_le
  have hfrag := h.frag_le_eight
  have hmin : minfpg s 1 ≤ s.inopb := (min_le_left ..).trans_eq (Nat.one_mul _)
  have hfirst : s.lastminfpg s.inopb = s.iblkno + s.frag := by
    have := h.lastminfpg_mul 1
    rwa [Nat.one_mul, Nat.one_mul] at this
  have hone : ∀ x, howmany x 1 = x := fun x => by simp [howmany]
  have hlt : q * s.inopb < 208 + 2 * s.inopb := by
    rw [← hq]
    have := roundup_lt (x := howmany (max (s.lastminfpg s.inopb) (minfpg s 1)) 1) (by omega : 0 < s.inopb)
    rw [hone, hfirst] at this
    unfold Super.ipg
    rw [hone, hfirst]
    omega
  have hq₁₅ : q ≤ 15 := by
    by_contra hno
    have := Nat.mul_le_mul_right s.inopb (not_le.mp hno)
    omega
  have hblocks : q * s.frag ≤ 15 * 8 := Nat.mul_le_mul hq₁₅ hfrag
  rw [group_fst, hq, h.lastminfpg_mul]
  omega

/-- Such a group fits in a block. -/
theorem group_one_fits : s.CGSIZE (s.group 1).1 (s.group 1).2 < s.bsize := by
  obtain ⟨hinopb, hbsize, -⟩ := h.inopb_bounds
  have hfour := h.four_KB_le
  have hfpg := h.group_one_le
  have hipg : (s.group 1).2 < 320 + 2 * s.inopb := by
    rw [group_snd]
    have := roundup_lt (x := howmany (s.group 1).1 1) (by omega : 0 < s.inopb)
    have hone : howmany (s.group 1).1 1 = (s.group 1).1 := by simp [howmany]
    rw [hone] at this
    unfold Super.ipg
    rw [hone]
    omega
  have hcluster : (s.group 1).1 >>> s.fragshift ≤ (s.group 1).1 := Nat.shiftRight_le ..
  have hcpg : s.oldCpg ≤ 1 := by
    unfold Super.oldCpg
    split <;> omega
  have hsum := h.contigsumsize_le
  unfold Super.CGSIZE howmany
  split
  case isTrue => omega
  case isFalse => omega

end Shape

/-! ### The loops -/

variable {s : Super} {φ k f fpg ipg fuel density : Nat}

theorem densityLoop_ne_loops (h : Shape s φ k) (hfuel : density < fuel) : densityLoop s fuel density ≠ .loops := by
  induction fuel generalizing density with
  | zero => exact absurd hfuel (Nat.not_lt_zero _)
  | succ fuel ih =>
      unfold densityLoop
      simp only []
      split
      case isTrue => exact DensityEnd.noConfusion
      case isFalse =>
          split
          case isTrue => exact DensityEnd.noConfusion
          case isFalse hfull =>
              have hlarge : 1 < density >>> s.fshift := by
                by_contra hsmall
                rw [max_eq_right (not_lt.mp hsmall)] at hfull
                exact hfull h.group_one_fits
              have hpos : 0 < s.fsize := h.fsize ▸ Nat.two_pow_pos φ
              have hdensity : density ≠ 0 := by
                rintro rfl
                rw [Nat.zero_shiftRight] at hlarge
                omega
              exact ih (by omega)

/-- The density that is found. -/
theorem densityLoop_fits (hloop : densityLoop s fuel density = .fits f) :
    1 ≤ f ∧ s.minfragsperinode ≤ f ∧ s.CGSIZE (s.group f).1 (s.group f).2 < s.bsize := by
  induction fuel generalizing density with
  | zero => cases hloop
  | succ fuel ih =>
      unfold densityLoop at hloop
      simp only [] at hloop
      split at hloop
      case isTrue => cases hloop
      case isFalse hmin =>
          split at hloop
          case isTrue hfits =>
              cases hloop
              exact ⟨le_max_right .., not_lt.mp hmin, hfits⟩
          case isFalse => exact ih hloop

/-- A start is given up only when an inode must be for two fragments or more. -/
theorem two_le_of_restart {density' : Nat} (hloop : densityLoop s fuel density = .restart density') :
    2 ≤ s.minfragsperinode := by
  induction fuel generalizing density with
  | zero => cases hloop
  | succ fuel ih =>
      unfold densityLoop at hloop
      simp only [] at hloop
      split at hloop
      case isTrue hmin =>
          have := le_max_right (density >>> s.fshift) 1
          omega
      case isFalse =>
          split at hloop
          case isTrue => cases hloop
          case isFalse => exact ih hloop

/-- What is known of a group while the last one is looked at: one block less would fit, if
this one does not. -/
structure Grown (s : Super) (f fpg ipg : Nat) : Prop where
  pos : 0 < fpg
  blocks : s.frag ∣ fpg ∨ fpg = s.size
  ipg_le : ipg ≤ s.ipg f fpg
  le_ipg : s.ipg f (fpg - s.frag) ≤ ipg
  fits : s.CGSIZE fpg ipg ≤ s.bsize
    ∨ s.frag ≤ fpg ∧ s.CGSIZE (fpg - s.frag) (s.ipg f (fpg - s.frag)) < s.bsize

/-- What is known at the head of the loop that packs blocks into a group. -/
structure Growing (s : Super) (f fpg ipg : Nat) : Prop where
  room : s.frag < fpg
  blocks : s.frag ∣ fpg
  ipg_le : ipg ≤ s.ipg f fpg
  le_ipg : s.ipg f (fpg - s.frag) ≤ ipg
  fits : s.CGSIZE fpg (s.ipg f fpg) < s.bsize ∨ s.CGSIZE (fpg - s.frag) (s.ipg f (fpg - s.frag)) < s.bsize

namespace Growing

variable (h : Shape s φ k) (hf : 0 < f) (hg : Growing s f fpg ipg)
include h hf hg

omit h hf in
/-- The loop ends here. -/
theorem grown {ipg' : Nat} (hle : ipg' ≤ s.ipg f fpg) (hge : s.ipg f (fpg - s.frag) ≤ ipg') :
    Grown s f fpg ipg' where
  pos := Nat.zero_lt_of_lt hg.room
  blocks := .inl hg.blocks
  ipg_le := hle
  le_ipg := hge
  fits := by
    rcases hg.fits with hfits | hfits
    · exact .inl ((CGSIZE_mono s le_rfl hle).trans hfits.le)
    · exact .inr ⟨hg.room.le, hfits⟩

/-- The loop ends one block before. -/
theorem back : Grown s f (fpg - s.frag) (s.ipg f (fpg - s.frag)) where
  pos := Nat.sub_pos_of_lt hg.room
  blocks := .inl (Nat.dvd_sub hg.blocks (dvd_refl _))
  ipg_le := le_rfl
  le_ipg := h.ipg_mono hf (Nat.sub_le ..)
  fits := by
    left
    rcases hg.fits with hfits | hfits
    · exact (CGSIZE_mono s (Nat.sub_le ..) (h.ipg_mono hf (Nat.sub_le ..))).trans hfits.le
    · exact hfits.le

/-- The loop goes on with one block more. -/
theorem next (hfits : s.CGSIZE fpg (s.ipg f fpg) < s.bsize) :
    Growing s f (fpg + s.frag) (s.ipg f fpg) where
  room := Nat.lt_add_of_pos_left (Nat.zero_lt_of_lt hg.room)
  blocks := Nat.dvd_add hg.blocks (dvd_refl _)
  ipg_le := h.ipg_mono hf (Nat.le_add_right ..)
  le_ipg := by rw [Nat.add_sub_cancel]
  fits := .inr (by rwa [Nat.add_sub_cancel])

end Growing

theorem growLoop_grown {maxblkspercg fpg' ipg' : Nat} (h : Shape s φ k) (hf : 0 < f) (hg : Growing s f fpg ipg)
    (hloop : growLoop s f maxblkspercg fuel fpg ipg = some (fpg', ipg')) : Grown s f fpg' ipg' := by
  induction fuel generalizing fpg ipg with
  | zero => cases hloop
  | succ fuel ih =>
      have hself := hg.grown le_rfl (h.ipg_mono hf (Nat.sub_le ..))
      have hback := hg.back h hf
      unfold growLoop at hloop
      simp only [] at hloop
      split at hloop
      case isTrue =>
          split at hloop
          case isTrue =>
              split at hloop
              case isTrue =>
                  cases hloop
                  exact hself
              case isFalse =>
                  split at hloop
                  case isTrue hfits => exact ih (hg.next h hf hfits) hloop
                  case isFalse =>
                      split at hloop
                      case isTrue =>
                          cases hloop
                          exact hself
                      case isFalse =>
                          cases hloop
                          exact hback
          case isFalse =>
              cases hloop
              exact hback
      case isFalse =>
          cases hloop
          exact hg.grown hg.ipg_le hg.le_ipg

/-- A map larger than a block ends the loop. -/
theorem growLoop_ne_none {maxblkspercg : Nat} (h : Shape s φ k) (hfuel : 8 * s.bsize ≤ fuel + fpg) :
    growLoop s f maxblkspercg (fuel + 1) fpg ipg ≠ none := by
  induction fuel generalizing fpg ipg with
  | zero =>
      have hmap := fpg_lt_CGSIZE s fpg (s.ipg f fpg)
      have hfull : ¬ s.CGSIZE fpg (s.ipg f fpg) < s.bsize := by omega
      unfold growLoop
      grind
  | succ fuel ih =>
      have hmap := fpg_lt_CGSIZE s fpg (s.ipg f fpg)
      have hnext : growLoop s f maxblkspercg (fuel + 1) (fpg + s.frag) (s.ipg f fpg) ≠ none :=
        ih (by have := h.frag_pos; omega)
      unfold growLoop
      grind

/-- What is known after growing, from the smallest group on. -/
theorem grown_group {maxblkspercg fpg' ipg' : Nat} (h : Shape s φ k) (hf : 0 < f)
    (hfits : s.CGSIZE (s.group f).1 (s.group f).2 < s.bsize)
    (hloop : growLoop s f maxblkspercg (fuel + 1) (s.group f).1 (s.group f).2 = some (fpg', ipg')) :
    Grown s f fpg' ipg' := by
  have hroom : s.frag < (s.group f).1 := lt_of_lt_of_le h.frag_lt ((Nat.le_add_right ..).trans (h.le_group hf))
  have hmono := h.ipg_mono hf (Nat.sub_le (s.group f).1 s.frag)
  rcases h.frag_dvd_group with hblocks | ⟨hsize, hlt⟩
  · exact growLoop_grown h hf ⟨hroom, hblocks, le_rfl, hmono, .inl hfits⟩ hloop
  · -- the whole file system is one group, with one block of inodes
    have hipg : s.ipg f (s.group f).1 ≤ 0x7fff := by
      have hone : howmany (howmany (s.group f).1 f) s.inopb ≤ 1 := by
        rw [howmany_le_iff (by have := h.inopb_bounds; omega), Nat.one_mul, howmany_le_iff hf, hsize, Nat.mul_comm]
        exact hlt.le
      have hmul := Nat.mul_le_mul_right s.inopb hone
      have hinopb := h.inopb_bounds.2.2
      unfold Super.ipg
      rw [roundup_eq]
      omega
    have hgroups : s.size / (s.group f).1 < MINCYLGRPS := by
      rw [hsize, Nat.div_self (by omega)]
      decide
    have hsame : (fpg', ipg') = ((s.group f).1, (s.group f).2) := by
      unfold growLoop at hloop
      simp only [hgroups, hipg, or_true, if_true, group_snd] at hloop
      split at hloop
      case isTrue => exact (Option.some.inj hloop).symm
      case isFalse => exact (Option.some.inj hloop).symm
    obtain ⟨rfl, rfl⟩ := Prod.mk.inj hsame
    exact ⟨Nat.zero_lt_of_lt hroom, .inr hsize, le_rfl, hmono, .inl hfits.le⟩

/-- One block less in a group. -/
theorem Grown.shrink (h : Shape s φ k) (hf : 0 < f) (hg : Grown s f fpg ipg) (hblocks : s.frag ∣ fpg)
    (hpos : 0 < fpg - s.frag) : Grown s f (fpg - s.frag) (s.ipg f (fpg - s.frag)) where
  pos := hpos
  blocks := .inl (Nat.dvd_sub hblocks (dvd_refl _))
  ipg_le := le_rfl
  le_ipg := h.ipg_mono hf (Nat.sub_le ..)
  fits := by
    rcases hg.fits with hfits | ⟨-, hfits⟩
    · exact .inl ((CGSIZE_mono s (Nat.sub_le ..) hg.le_ipg).trans hfits)
    · exact .inl hfits.le

/-- What is known where the loop for the last group ends well. -/
structure Last (s : Super) (f fpg ipg ncg : Nat) : Prop where
  grown : Grown s f fpg ipg
  ncg_eq : ncg = howmany s.size fpg % 2 ^ 32
  size_ge : s.lastminfpg ipg ≤ s.size
  last : s.lastminfpg ipg ≤ s.size % fpg ∨ s.size % fpg = 0

theorem lastLoop_spec (fuel : Nat) (h : Shape s φ k) (hf : 0 < f) (hg : Grown s f fpg ipg) :
    match lastLoop s f fuel fpg ipg with
    | .ok fpg' ipg' ncg => Last s f fpg' ipg' ncg
    | .dividesByZero => ¬ s.frag ∣ s.size
    | .exit _ => True
    | .loops => fuel ≤ fpg := by
  induction fuel generalizing fpg ipg with
  | zero => exact Nat.zero_le _
  | succ fuel ih =>
      unfold lastLoop
      rw [if_neg hg.pos.ne']
      simp only []
      by_cases hsize : s.size < s.lastminfpg ipg
      · rw [if_pos hsize]
        trivial
      rw [if_neg hsize]
      by_cases hlast : s.size % fpg ≥ s.lastminfpg ipg ∨ s.size % fpg = 0
      · rw [if_pos hlast]
        exact ⟨hg, rfl, not_lt.mp hsize, hlast⟩
      rw [if_neg hlast]
      -- a group of the whole file system has no rest
      have hblocks : s.frag ∣ fpg := hg.blocks.resolve_right fun hwhole => hlast (.inr (by rw [hwhole, Nat.mod_self]))
      have hfrag := h.frag_pos
      have hle := Nat.le_of_dvd hg.pos hblocks
      rcases Nat.eq_zero_or_pos (fpg - s.frag) with hzero | hpos
      · have heq : fpg = s.frag := by omega
        rw [hzero]
        cases fuel with
        | zero => exact hg.pos
        | succ fuel =>
            show ¬ s.frag ∣ s.size
            rw [← heq]
            exact fun hdvd => hlast (.inr (Nat.mod_eq_zero_of_dvd hdvd))
      · have hrest := ih (hg.shrink h hf hblocks hpos)
        split at hrest
        case h_1 => exact hrest
        case h_2 => exact hrest
        case h_3 => trivial
        case h_4 => omega

/-! ### The geometry -/

/-- What holds of every geometry that is written. A map may be too large only where that of
a group with one block less is not; the last group has room for its own header, but no
data block is promised; and the inodes are counted without the last group, and without what
rounds those of a group up to a block. -/
structure Sound (g : Geometry) : Prop where
  fits : g.CGSIZE ≤ g.super.bsize ∨ g.super.frag ≤ g.fpg
    ∧ g.super.CGSIZE (g.fpg - g.super.frag) (g.super.ipg g.fragsperinode (g.fpg - g.super.frag)) < g.super.bsize
  blocks : g.super.frag ∣ g.fpg ∨ g.fpg = g.super.size ∧ g.ncg = 1
  groups : (∀ c < howmany g.super.size g.fpg, g.dblkno ≤ g.groupSize c)
    ∨ g.fpg ∣ g.super.size ∧ g.fpg < g.dblkno
  ncg_eq : g.ncg = howmany g.super.size g.fpg % 2 ^ 32
  inodes : (g.ncg - 1) * (g.ipg - g.super.inopb) < 2 ^ 32 - g.super.inopb

section Last

variable {ncg : Nat} (h : Shape s φ k) (hl : Last s f fpg ipg ncg)
include h hl

/-- Every group has room for its own header, unless all are too small. -/
theorem Last.groups : (∀ c < howmany s.size fpg, s.iblkno + ipg / s.inopf ≤ min fpg (s.size - c * fpg))
    ∨ fpg ∣ s.size ∧ fpg < s.iblkno + ipg / s.inopf := by
  have hpos := hl.grown.pos
  have hroom := h.dblkno_le_lastminfpg ipg
  have hsplit := Nat.div_add_mod' s.size fpg
  rcases hl.last with hlast | hlast
  · left
    intro c hc
    rw [lt_howmany_iff hpos] at hc
    have hmod := Nat.mod_lt s.size hpos
    have hle : c * fpg ≤ s.size / fpg * fpg :=
      Nat.mul_le_mul_right _ ((Nat.le_div_iff_mul_le hpos).mpr hc.le)
    omega
  · rcases Nat.lt_or_ge fpg (s.iblkno + ipg / s.inopf) with hsmall | hlarge
    · exact .inr ⟨Nat.dvd_of_mod_eq_zero hlast, hsmall⟩
    · left
      intro c hc
      rw [lt_howmany_iff hpos] at hc
      have hlt : c < s.size / fpg := by
        by_contra hno
        have := Nat.mul_le_mul_right fpg (not_lt.mp hno)
        omega
      have hle : (c + 1) * fpg ≤ s.size / fpg * fpg := Nat.mul_le_mul_right _ hlt
      rw [Nat.succ_mul] at hle
      omega

/-- Blocks of inodes are in proportion to the fragments. -/
theorem Last.inodes (hf : 1 ≤ f) (hmin : s.minfragsperinode ≤ f) :
    (ncg - 1) * (ipg - s.inopb) < 2 ^ 32 - s.inopb := by
  obtain ⟨hinopb, -, hinopb'⟩ := h.inopb_bounds
  have hpos := hl.grown.pos
  have hmaxinum : 0 < s.maxinum := by
    unfold Super.maxinum
    omega
  rcases Nat.eq_zero_or_pos (ncg - 1) with hone | hmany
  · rw [hone, Nat.zero_mul]
    exact hmaxinum
  -- the inodes of a group, but for a block of them, have their fragments in it
  have hipg : (ipg - s.inopb) * f ≤ fpg := by
    have hround := roundup_lt (x := howmany fpg f) (by omega : 0 < s.inopb)
    have hle : ipg < howmany fpg f + s.inopb := lt_of_le_of_lt hl.grown.ipg_le hround
    rcases Nat.eq_zero_or_pos (ipg - s.inopb) with hzero | hsome
    · rw [hzero, Nat.zero_mul]
      exact Nat.zero_le _
    · exact ((lt_howmany_iff hf).mp (by omega : ipg - s.inopb < howmany fpg f)).le
  -- and all groups but the last one are in the file system
  have hncg : (ncg - 1) * fpg < s.size := by
    have hle : ncg ≤ howmany s.size fpg := hl.ncg_eq.trans_le (Nat.mod_le ..)
    exact (lt_howmany_iff hpos).mp (by omega)
  have hsize : s.size < f * s.maxinum := by
    have hdiv : s.size < (1 + s.size / s.maxinum) * s.maxinum := by
      have := Nat.lt_div_mul_add hmaxinum (a := s.size)
      rw [Nat.add_mul, Nat.one_mul]
      omega
    exact lt_of_lt_of_le hdiv (Nat.mul_le_mul_right _ hmin)
  have hall : (ncg - 1) * (ipg - s.inopb) * f < s.maxinum * f :=
    calc
      (ncg - 1) * (ipg - s.inopb) * f = (ncg - 1) * ((ipg - s.inopb) * f) := Nat.mul_assoc ..
      _ ≤ (ncg - 1) * fpg := Nat.mul_le_mul_left _ hipg
      _ < s.size := hncg
      _ < f * s.maxinum := hsize
      _ = s.maxinum * f := Nat.mul_comm ..
  exact Nat.lt_of_mul_lt_mul_right hall

theorem Last.sound (hf : 1 ≤ f) (hmin : s.minfragsperinode ≤ f) : Sound ⟨s, f, fpg, ipg, ncg⟩ where
  fits := hl.grown.fits
  blocks := by
    refine hl.grown.blocks.imp_right fun hwhole => ⟨hwhole, ?_⟩
    have hone : howmany fpg fpg = 1 := by
      refine le_antisymm ((howmany_le_iff hl.grown.pos).mpr (Nat.one_mul _).ge) ?_
      exact howmany_pos hl.grown.pos hl.grown.pos
    show ncg = 1
    rw [hl.ncg_eq, ← hwhole, hone]
    rfl
  groups := hl.groups h
  ncg_eq := hl.ncg_eq
  inodes := hl.inodes h hf hmin

end Last

theorem sizeGroups_spec (maxblkspercg : Nat) (h : Shape s φ k) (hf : 1 ≤ f) (hmin : s.minfragsperinode ≤ f)
    (hfits : s.CGSIZE (s.group f).1 (s.group f).2 < s.bsize) :
    match sizeGroups s maxblkspercg f with
    | .writing g => Sound g ∧ g.super = s
    | .dividesByZero s' => s' = s ∧ ¬ s.frag ∣ s.size
    | .exit _ => True
    | .restart _ => False
    | .loops => False := by
  unfold sizeGroups
  simp only []
  cases hgrow : growLoop s f maxblkspercg (8 * s.bsize + 2) (s.group f).1 (s.group f).2 with
  | none => exact absurd hgrow (growLoop_ne_none h (by omega))
  | some r =>
      obtain ⟨fpg, ipg⟩ := r
      have hlast := lastLoop_spec (fpg + 1) h hf (grown_group h hf hfits hgrow)
      simp only []
      cases hl : lastLoop s f (fpg + 1) fpg ipg with
      | ok fpg' ipg' ncg =>
          rw [hl] at hlast
          exact ⟨hlast.sound h hf hmin, rfl⟩
      | exit code => trivial
      | dividesByZero =>
          rw [hl] at hlast
          exact ⟨rfl, hlast⟩
      | loops =>
          rw [hl] at hlast
          exact absurd hlast (Nat.not_succ_le_self _)

theorem pass_spec (L : Limits) (o : Options) :
    match pass L o with
    | .writing g => Sound g ∧ g.super = setup L (withDefaults L o)
        ∧ POWEROF2 o.bsize = true ∧ POWEROF2 o.fsize = true
    | .dividesByZero s => ¬ s.frag ∣ s.size
    | .exit _ => True
    | .restart o' => 2 ≤ (setup L (withDefaults L o)).minfragsperinode
        ∧ (∃ density, o' = restartOptions L (withDefaults L o) density)
        ∧ POWEROF2 o.bsize = true ∧ POWEROF2 o.fsize = true
    | .loops => False := by
  unfold Newfs.pass
  cases hb : POWEROF2 o.bsize with
  | false => trivial
  | true =>
      cases hf : POWEROF2 o.fsize with
      | false => trivial
      | true =>
          obtain ⟨φ, k, h, -⟩ := shape_setup L (withDefaults L o) hb hf
          simp only [Bool.true_eq_false, if_false]
          generalize hd : startDensity (withDefaults L o) (setup L (withDefaults L o)) = density
          cases hloop : densityLoop (setup L (withDefaults L o)) (density + 1) density with
          | loops => exact absurd hloop (densityLoop_ne_loops h (Nat.lt_succ_self _))
          | restart density' => exact ⟨two_le_of_restart hloop, ⟨density', rfl⟩, trivial, trivial⟩
          | fits f =>
              obtain ⟨hpos, hmin, hfits⟩ := densityLoop_fits hloop
              have hsizes := sizeGroups_spec (withDefaults L o).maxblkspercg h hpos hmin hfits
              simp only []
              cases hgroups : sizeGroups (setup L (withDefaults L o)) (withDefaults L o).maxblkspercg f with
              | writing g =>
                  rw [hgroups] at hsizes
                  exact ⟨hsizes.1, hsizes.2, trivial, trivial⟩
              | exit code => trivial
              | restart o' =>
                  rw [hgroups] at hsizes
                  exact hsizes.elim
              | dividesByZero s' =>
                  rw [hgroups] at hsizes
                  exact hsizes.1 ▸ hsizes.2
              | loops =>
                  rw [hgroups] at hsizes
                  exact hsizes.elim

/-- Each start leaves fewer fragments, once these have 1024 bytes. -/
def startsLeft (o : Options) : Nat := 10 - Nat.log2 o.fsize + Nat.log2 o.fssize

theorem log2_mono {a b : Nat} (h : a ≤ b) : Nat.log2 a ≤ Nat.log2 b := by
  rw [Nat.log2_eq_log_two, Nat.log2_eq_log_two]
  exact Nat.log_mono_right h

theorem startsLeft_lt {L : Limits} {o o' : Options} (hpass : pass L o = .restart o') : startsLeft o' < startsLeft o := by
  have hspec := pass_spec L o
  rw [hpass] at hspec
  obtain ⟨hmin, ⟨density, rfl⟩, hb, hf⟩ := hspec
  obtain ⟨φ, k, h, hten⟩ := shape_setup L (withDefaults L o) hb hf
  have hfsize : (restartOptions L (withDefaults L o) density).fsize = 2 * o.fsize := rfl
  have hsize : (restartOptions L (withDefaults L o) density).fssize = o.fssize >>> (φ - 9) := by
    rw [← h.fsbtodb]
    rfl
  have hsize' : (setup L (withDefaults L o)).size = o.fssize >>> (φ - 9) := hsize
  have hshift : o.fssize >>> (φ - 9) ≤ o.fssize := Nat.shiftRight_le ..
  unfold startsLeft
  rw [hfsize, hsize, Nat.log2_two_mul o.fsize_pos.ne']
  rcases Nat.lt_or_ge o.fsize 1024 with hsmall | hlarge
  · have hlog : Nat.log2 o.fsize < 10 := (Nat.log2_lt o.fsize_pos.ne').mpr hsmall
    have := log2_mono hshift
    omega
  · have hφ := hten hlarge
    -- there are so many fragments that the size is not 0
    have hsome : 0 < o.fssize >>> (φ - 9) := by
      rw [← hsize']
      refine Nat.pos_of_ne_zero fun hzero => ?_
      unfold Super.minfragsperinode at hmin
      rw [hzero, Nat.zero_div] at hmin
      omega
    have hhalf : 2 * (o.fssize >>> (φ - 9)) ≤ o.fssize := by
      rw [Nat.shiftRight_eq_div_pow]
      have hpow : 2 ^ 1 ≤ 2 ^ (φ - 9) := Nat.pow_le_pow_right (by omega) (by omega)
      have hmul := Nat.div_mul_le_self o.fssize (2 ^ (φ - 9))
      have := Nat.mul_le_mul_left (o.fssize / 2 ^ (φ - 9)) hpow
      omega
    have hlog := log2_mono hhalf
    rw [Nat.log2_two_mul hsome.ne'] at hlog
    omega

theorem passes_spec (L : Limits) (o : Options) (hfuel : startsLeft o < fuel) :
    match passes L fuel o with
    | .writing g => Sound g
    | .dividesByZero s => ¬ s.frag ∣ s.size
    | .exit _ => True
    | .restart _ => False
    | .loops => False := by
  induction fuel generalizing o with
  | zero => exact absurd hfuel (Nat.not_lt_zero _)
  | succ fuel ih =>
      have hspec := pass_spec L o
      unfold passes
      cases hpass : pass L o with
      | restart o' =>
          have := startsLeft_lt hpass
          exact ih o' (by omega)
      | writing g =>
          rw [hpass] at hspec
          exact hspec.1
      | exit code => trivial
      | dividesByZero s =>
          rw [hpass] at hspec
          exact hspec
      | loops =>
          rw [hpass] at hspec
          exact hspec

/-- Every start ends, and `mkfs` ends before the groups or with a sound geometry. Only a file
system that is not in whole blocks may end in a division by zero. Where the first start is
not given up, the size is the number of whole fragments. -/
theorem mkfs_sound (L : Limits) (o : Options) :
    match mkfs L o with
    | .writing g => Sound g
        ∧ ((∀ o', pass L o ≠ .restart o') → g.super.size = o.fssize * DEV_BSIZE / g.super.fsize)
    | .dividesByZero s => ¬ s.frag ∣ s.size
    | .exit _ => True
    | .restart _ => False
    | .loops => False := by
  unfold mkfs
  by_cases hsize : o.fssize = 0
  · rw [if_pos hsize]
    trivial
  rw [if_neg hsize]
  have hfuel : startsLeft o < Nat.log2 o.fssize + 12 := by
    unfold startsLeft
    omega
  have hspec := passes_spec L o hfuel
  cases hpasses : passes L (Nat.log2 o.fssize + 12) o with
  | writing g =>
      rw [hpasses] at hspec
      refine ⟨hspec, fun hno => ?_⟩
      have hpass := pass_spec L o
      have hfirst : pass L o = .writing g := by
        unfold passes at hpasses
        cases hp : pass L o with
        | restart o' => exact absurd hp (hno o')
        | writing g' =>
            rw [hp] at hpasses
            exact hpasses
        | exit | dividesByZero | loops =>
            rw [hp] at hpasses
            cases hpasses
      rw [hfirst] at hpass
      obtain ⟨-, hsuper, hb, hf⟩ := hpass
      obtain ⟨φ, k, h, -⟩ := shape_setup L (withDefaults L o) hb hf
      have hdev : DEV_BSIZE = 2 ^ 9 := rfl
      have hshift : (setup L (withDefaults L o)).size = o.fssize >>> (setup L (withDefaults L o)).fsbtodb := rfl
      have hsplit : 2 ^ φ = 2 ^ 9 * 2 ^ (φ - 9) := by
        rw [← Nat.pow_add, Nat.add_sub_cancel' h.fsize_ge]
      rw [hsuper, hshift, h.fsbtodb, h.fsize, Nat.shiftRight_eq_div_pow, hdev, hsplit, Nat.mul_comm o.fssize,
        Nat.mul_div_mul_left _ _ (Nat.two_pow_pos 9)]
  | exit code => trivial
  | restart o' =>
      rw [hpasses] at hspec
      exact hspec
  | dividesByZero s =>
      rw [hpasses] at hspec
      exact hspec
  | loops =>
      rw [hpasses] at hspec
      exact hspec

/-! ### When the geometry is well formed -/

/-- What one would ask of a geometry: a map fits in a block, groups are in whole blocks, each
has a block of data at least, the inodes have 32-bit numbers, and no fragment is lost. -/
structure WellFormed (o : Options) (g : Geometry) : Prop where
  fits : g.CGSIZE ≤ g.super.bsize
  blocks : g.super.frag ∣ g.fpg
  groups : ∀ c < g.ncg, g.dblkno + g.super.frag ≤ g.groupSize c
  ncg_eq : g.ncg = howmany g.super.size g.fpg
  inodes : g.ncg * g.ipg ≤ 2 ^ 32
  size_eq : g.super.size = o.fssize * DEV_BSIZE / g.super.fsize

/-- The groups that the loop for the last group looks at, from `(fpg, ipg)` on. -/
inductive LooksAt (s : Super) (f : Nat) : Nat × Nat → Nat × Nat → Prop
  | here (fpg ipg : Nat) : LooksAt s f (fpg, ipg) (fpg, ipg)
  | shrunk {fpg ipg : Nat} {q : Nat × Nat} (hpos : fpg ≠ 0) (hroom : s.lastminfpg ipg ≤ s.size)
      (hrest : s.size % fpg ≠ 0) (hlast : s.size % fpg < s.lastminfpg ipg)
      (h : LooksAt s f (fpg - s.frag, s.ipg f (fpg - s.frag)) q) : LooksAt s f (fpg, ipg) q

/-- The loop ends with a group that passes its test. -/
def Taken (s : Super) (q : Nat × Nat) : Prop :=
  q.1 ≠ 0 ∧ s.lastminfpg q.2 ≤ s.size ∧ (s.lastminfpg q.2 ≤ s.size % q.1 ∨ s.size % q.1 = 0)

/-- No group is looked at after this one. -/
def Ends (s : Super) (q : Nat × Nat) : Prop := q.1 = 0 ∨ s.size < s.lastminfpg q.2 ∨ Taken s q

theorem LooksAt.unique {p q r : Nat × Nat} (hq : LooksAt s f p q) (hr : LooksAt s f p r) (hqe : Ends s q)
    (hre : Ends s r) : q = r := by
  have hgoes : ∀ {fpg ipg : Nat}, fpg ≠ 0 → s.lastminfpg ipg ≤ s.size → s.size % fpg ≠ 0 →
      s.size % fpg < s.lastminfpg ipg → ¬ Ends s (fpg, ipg) := by
    rintro fpg ipg hpos hroom hrest hlast (hzero | hsmall | ⟨-, -, htest⟩)
    · exact hpos hzero
    · exact absurd hsmall (not_lt.mpr hroom)
    · exact htest.elim (not_le.mpr hlast) hrest
  induction hq with
  | here fpg ipg =>
      cases hr with
      | here => rfl
      | shrunk hpos hroom hrest hlast => exact absurd hqe (hgoes hpos hroom hrest hlast)
  | shrunk hpos hroom hrest hlast _ ih =>
      cases hr with
      | here => exact absurd hre (hgoes hpos hroom hrest hlast)
      | shrunk _ _ _ _ h => exact ih h hqe

theorem Grown.shrink_fits (hg : Grown s f fpg ipg) :
    s.CGSIZE (fpg - s.frag) (s.ipg f (fpg - s.frag)) ≤ s.bsize := by
  rcases hg.fits with hfits | ⟨-, hfits⟩
  · exact (CGSIZE_mono s (Nat.sub_le ..) hg.le_ipg).trans hfits
  · exact hfits.le

/-- Only the first group may have a map that is too large, or no whole number of blocks. -/
theorem LooksAt.kept {p q : Nat × Nat} (h : Shape s φ k) (hf : 0 < f) (hg : Grown s f p.1 p.2) (hl : LooksAt s f p q)
    (hpos : q.1 ≠ 0) : (s.frag ∣ q.1 ↔ s.frag ∣ p.1) ∧ (q ≠ p → s.CGSIZE q.1 q.2 ≤ s.bsize) := by
  induction hl with
  | here fpg ipg => exact ⟨Iff.rfl, fun hne => absurd rfl hne⟩
  | @shrunk fpg ipg q hfpg _ hrest _ hl ih =>
      have hblocks : s.frag ∣ fpg :=
        hg.blocks.resolve_right fun hwhole : fpg = s.size => hrest (by rw [hwhole, Nat.mod_self])
      have hnext : 0 < fpg - s.frag := by
        refine Nat.pos_of_ne_zero fun hzero => hpos ?_
        cases hl with
        | here => exact hzero
        | shrunk hno => exact absurd hzero hno
      obtain ⟨hdvd, hfits⟩ := ih (hg.shrink h hf hblocks hnext) hpos
      refine ⟨hdvd.trans ⟨fun _ => hblocks, fun _ => Nat.dvd_sub hblocks (dvd_refl _)⟩, fun _ => ?_⟩
      by_cases heq : q = (fpg - s.frag, s.ipg f (fpg - s.frag))
      · rw [heq]
        exact hg.shrink_fits
      · exact hfits heq

/-- The last start from `o` on is made with `o'`. The starts before have shifted `fssize` by `n` bits. -/
inductive LastStart (L : Limits) : Options → Nat → Options → Prop
  | here {o : Options} (h : ∀ o', pass L o ≠ .restart o') : LastStart L o 0 o
  | again {o o' o'' : Options} {n : Nat} (h : pass L o = .restart o') (hlast : LastStart L o' n o'') :
      LastStart L o (n + (setup L (withDefaults L o)).fsbtodb) o''

theorem LastStart.unique {L : Limits} {o o' o'' : Options} {n m : Nat} (h : LastStart L o n o')
    (h' : LastStart L o m o'') : n = m ∧ o' = o'' := by
  induction h generalizing m with
  | here hno =>
      cases h' with
      | here => exact ⟨rfl, rfl⟩
      | again hpass => exact absurd hpass (hno _)
  | again hpass _ ih =>
      cases h' with
      | here hno => exact absurd hpass (hno _)
      | again hpass' hlast =>
          rw [hpass] at hpass'
          cases hpass'
          obtain ⟨rfl, rfl⟩ := ih hlast
          exact ⟨rfl, rfl⟩

theorem LastStart.fssize {L : Limits} {o o' : Options} {n : Nat} (h : LastStart L o n o') : o'.fssize = o.fssize >>> n := by
  induction h with
  | here => rfl
  | @again o o' o'' n hpass _ ih =>
      have hspec := pass_spec L o
      rw [hpass] at hspec
      obtain ⟨-, ⟨density, rfl⟩, -⟩ := hspec
      have hshift : (restartOptions L (withDefaults L o) density).fssize
        = o.fssize >>> (setup L (withDefaults L o)).fsbtodb := rfl
      rw [ih, hshift, ← Nat.shiftRight_add, Nat.add_comm]

/-- A start comes to the loop for the last group with the group `p`. -/
structure Packs (L : Limits) (o : Options) (s : Super) (f : Nat) (p : Nat × Nat) : Prop where
  bsize : POWEROF2 o.bsize = true
  fsize : POWEROF2 o.fsize = true
  super : s = setup L (withDefaults L o)
  density : densityLoop s (startDensity (withDefaults L o) s + 1) (startDensity (withDefaults L o) s) = .fits f
  grown : growLoop s f o.maxblkspercg (8 * s.bsize + 2) (s.group f).1 (s.group f).2 = some p

namespace Packs

variable {L : Limits} {o : Options} {p q : Nat × Nat}

theorem unique {s' : Super} {f' : Nat} (h : Packs L o s f p) (h' : Packs L o s' f' q) : s = s' ∧ f = f' ∧ p = q := by
  obtain ⟨-, -, rfl, hf, hp⟩ := h
  obtain ⟨-, -, rfl, hf', hq⟩ := h'
  rw [hf] at hf'
  cases hf'
  rw [hp] at hq
  exact ⟨rfl, rfl, Option.some.inj hq⟩

/-- What the loop for the last group starts with. -/
theorem spec (h : Packs L o s f p) : ∃ φ k, Shape s φ k ∧ 1 ≤ f ∧ Grown s f p.1 p.2 := by
  obtain ⟨hb, hfs, rfl, hf, hp⟩ := h
  obtain ⟨φ, k, hshape, -⟩ := shape_setup L (withDefaults L o) hb hfs
  obtain ⟨hpos, -, hfits⟩ := densityLoop_fits hf
  exact ⟨φ, k, hshape, hpos, grown_group hshape hpos hfits hp⟩

/-- What is left of the start is that loop. -/
theorem pass_eq (h : Packs L o s f p) : pass L o = match lastLoop s f (p.1 + 1) p.1 p.2 with
    | .ok fpg ipg ncg => .writing ⟨s, f, fpg, ipg, ncg⟩
    | .exit code => .exit code
    | .dividesByZero => .dividesByZero s
    | .loops => .loops := by
  obtain ⟨hb, hfs, rfl, hf, hp⟩ := h
  have hmax : (withDefaults L o).maxblkspercg = o.maxblkspercg := rfl
  simp only [Newfs.pass, hb, hfs, Bool.true_eq_false, if_false, hf]
  rewrite [sizeGroups, hmax]
  dsimp only
  rewrite [hp]
  rfl

end Packs

/-- What one would ask of `mkfs`: no division by zero, no endless loop, and a geometry that is
well formed where one is written. -/
def Meets (L : Limits) (o : Options) : Prop :=
  match mkfs L o with
  | .writing g => WellFormed o g
  | .exit _ => True
  | _ => False

/-- `MAXBSIZE` and `MAXPHYS` of macOS. -/
def macos : Limits := ⟨.macos, 2 ^ 17⟩

theorem bsize_32K_pos : 0 < 32768 := by decide

theorem bsize_4K_pos : 0 < 4096 := by decide

theorem contigsumsize_zero_le : 0 ≤ FS_MAXCONTIG := Nat.zero_le _

/-- The defaults of `newfs`. -/
def defaults (fssize : Nat) : Options :=
  ⟨fssize, .ufs2, 32768, 4096, 0, 0, 0x7fffffff, 0, 0, bsize_32K_pos, bsize_4K_pos, contigsumsize_zero_le⟩

def smallSuper : Super := ⟨.ufs2, 32768, 4096, 4, 12, 8, 3, 3, 48, 128, 24, 32, 40⟩

end UfsX.Proofs.Mkfs
