import UfsX.Ufs.Bmap
import Mathlib.Tactic.NormNum

/-!
# `UfsX.Proofs.CheckBlkno`: block numbers of untrusted file systems

`ffs_check_blkno` is exact on 64-bit numbers (`ffsCheckBlkno_iff`). `ufs_bmaparray` gives it
the low 32 bits of an entry: with the check it comes to what it comes to without, unless
the low half of some entry on the path is rejected (`ufsBmaparray_checked`).
-/

set_option autoImplicit false

namespace UfsX.Proofs.CheckBlkno

open UfsX.Lib UfsX.Ufs
open UfsX.Ffs (Fs)

variable {fs : Fs}

/-! ### What is asked for -/

/-- What every file system promises about its groups. The metadata of a group lie inside
it, the first data fragment of a group lies behind a block at least, and there are fewer
than 2^31 groups and fragments in a group. -/
structure Laid (fs : Fs) : Prop where
  ncg_lt : fs.ncg < 2 ^ 31
  fpg_lt : fs.fpg < 2 ^ 31
  size_le : fs.size ≤ fs.ncg * fs.fpg
  sblkno_le : fs.sblkno ≤ fs.dblkno
  frag_le : fs.frag ≤ fs.dblkno
  dblkno_lt : fs.dblkno < fs.fpg
  start_ge : ∀ g : Nat, g < fs.ncg → ((fs.fpg * g : Nat) : Int) ≤ fs.cgstart g
  dmin_le : ∀ g : Nat, g < fs.ncg → fs.cgdmin g ≤ (fs.fpg * g + fs.fpg : Nat)

/-- The `n` fragments from `daddr` on are data of one group: they lie after its inodes, or
in a group other than the first before its copy of the superblock. -/
def InData (fs : Fs) (daddr : Int) (n : Nat) : Prop :=
  0 ≤ daddr ∧ daddr + n ≤ fs.size ∧ ∃ g : Nat, g < fs.ncg
    ∧ ((fs.fpg * g : Nat) : Int) ≤ daddr ∧ daddr + n ≤ (fs.fpg * g + fs.fpg : Nat)
    ∧ (fs.cgdmin g ≤ daddr ∨ (g ≠ 0 ∧ daddr + n ≤ fs.cgsblock g))

def Accepts (fs : Fs) (daddr : Int) (n : Nat) : Prop :=
  (daddr = 0 ∨ daddr = 1 ∨ daddr = 2) ∨ InData fs daddr n

/-- The entries of indirect blocks that the loop reads on a path, if nothing is checked. -/
def bmapEntries (rd : Int → Int → Except Errno (Nat → Int)) (bn : Int) : Int → List Indir → List Int
  | _, [] => []
  | daddr, ap :: rest =>
      if daddr = 0 ∨ ap.lbn = bn then []
      else
        match rd ap.lbn daddr with
        | .error _ => []
        | .ok blk => blk ap.off :: bmapEntries rd bn (blk ap.off) rest

/-- The entries that `ufs_bmaparray` reads for block `bn`. -/
def indirEntries (fs : Fs) (rd : Int → Int → Except Errno (Nat → Int)) (ip : Inode) (bn : Int) : List Int :=
  match ufsGetlbns fs.nindir bn with
  | .ok (ap :: rest) => bmapEntries rd bn (ip.ib ap.off) rest
  | _ => []

/-- `ufs_bmaparray` returns no address that comes from an entry rejected, and if no entry
is to be rejected, the check changes nothing. -/
def Guarded (fs : Fs) (args : BmapArgs) (rd : Int → Int → Except Errno (Nat → Int)) (ip : Inode) (bn : Int) : Prop :=
  (∀ r, ufsBmaparray fs { args with untrusted := true } rd ip bn = .ok r →
      ∀ e ∈ indirEntries fs rd ip bn, Accepts fs e fs.frag)
    ∧ ((∀ e ∈ indirEntries fs rd ip bn, Accepts fs e fs.frag) →
      ufsBmaparray fs { args with untrusted := true } rd ip bn
        = ufsBmaparray fs { args with untrusted := false } rd ip bn)

/-! ### `ffs_check_blkno` -/

theorem toU64_le_two_iff {d : Int} (h0 : -2 ^ 63 ≤ d) (h1 : d < 2 ^ 63) :
    toU64 d ≤ 2 ↔ d = 0 ∨ d = 1 ∨ d = 2 := by
  unfold toU64
  omega

theorem numfrags_mul (fs : Fs) (n : Nat) : fs.numfrags (n * fs.fsize) = n :=
  Nat.mul_div_cancel n (Nat.two_pow_pos _)

/-- The group of a number inside the file system. -/
theorem group_eq (h : Laid fs) {d : Nat} (hd : d < fs.size) :
    toI32 ((d : Int).tdiv fs.fpg) = (d / fs.fpg : Nat) ∧ d / fs.fpg < fs.ncg := by
  have hlt : d / fs.fpg < fs.ncg := by
    rw [Nat.div_lt_iff_lt_mul fs.fpg_pos]
    exact Nat.lt_of_lt_of_le hd h.size_le
  have hncg := h.ncg_lt
  refine ⟨?_, hlt⟩
  rw [← Int.ofNat_tdiv]
  generalize d / fs.fpg = g at hlt ⊢
  exact toI32_eq_self (by omega) (by omega)

/-- The range test, for a number that is not negative. -/
theorem range_iff (h : Laid fs) (d : Nat) {n : Nat} (hn : 0 < n) :
    ((d : Int) + n ≤ fs.size
      ∧ ((0 < toI32 ((d : Int).tdiv fs.fpg) ∧ (d : Int) + n ≤ fs.cgsblock (toI32 ((d : Int).tdiv fs.fpg)))
        ∨ (fs.cgdmin (toI32 ((d : Int).tdiv fs.fpg)) ≤ d
          ∧ (d : Int) + n ≤ fs.fpg * toI32 ((d : Int).tdiv fs.fpg) + fs.fpg)))
      ↔ InData fs d n := by
  unfold InData
  rw [and_iff_right (Int.natCast_nonneg d)]
  refine and_congr_right fun hsize => ?_
  obtain ⟨hcg, hlt⟩ := group_eq h (d := d) (by omega)
  rw [hcg]
  have hbase : fs.fpg * (d / fs.fpg) ≤ d := Nat.mul_div_le d fs.fpg
  constructor
  · intro hor
    refine ⟨d / fs.fpg, hlt, by exact_mod_cast hbase, ?_, ?_⟩
    · rcases hor with ⟨-, hsb⟩ | ⟨-, hend⟩
      · -- the copy of the superblock lies inside the group
        have hdmin := h.dmin_le _ hlt
        have hle := h.sblkno_le
        unfold Fs.cgsblock at hsb
        unfold Fs.cgdmin at hdmin
        omega
      · exact_mod_cast hend
    · rcases hor with ⟨hpos, hsb⟩ | ⟨hmin, -⟩
      · exact .inr ⟨by omega, hsb⟩
      · exact .inl hmin
  · rintro ⟨g, hg, hge, hend, hor⟩
    -- `g` is the group of `d`
    obtain rfl : g = d / fs.fpg := by
      have hge' : fs.fpg * g ≤ d := by exact_mod_cast hge
      have hend' : d + n ≤ fs.fpg * g + fs.fpg := by exact_mod_cast hend
      symm
      rw [Nat.div_eq_iff fs.fpg_pos, Nat.mul_comm g]
      omega
    rcases hor with hmin | ⟨hne, hsb⟩
    · exact .inr ⟨hmin, by exact_mod_cast hend⟩
    · exact .inl ⟨Int.natCast_pos.mpr (Nat.pos_of_ne_zero hne), hsb⟩

/-- A negative number is rejected: it is a huge one if nothing else, and close to 0 it is
in front of the data of group 0. -/
theorem range_neg (h : Laid fs) {d : Int} {n : Nat} (hlow : -2 ^ 63 ≤ d) (hneg : d < 0) (hnf : n ≤ fs.frag) :
    ¬ (toU64 (d + n) ≤ fs.size
      ∧ ((0 < toI32 (d.tdiv fs.fpg) ∧ d + n ≤ fs.cgsblock (toI32 (d.tdiv fs.fpg)))
        ∨ (fs.cgdmin (toI32 (d.tdiv fs.fpg)) ≤ d ∧ d + n ≤ fs.fpg * toI32 (d.tdiv fs.fpg) + fs.fpg))) := by
  rintro ⟨hend, hor⟩
  -- a negative end is above this as an unsigned number
  have hsize : fs.size < 2 ^ 62 := by
    have hmul : fs.ncg * fs.fpg < 2 ^ 31 * 2 ^ 31 := Nat.mul_lt_mul_of_lt_of_lt h.ncg_lt h.fpg_lt
    have hle := h.size_le
    have hpow : (2 : Nat) ^ 31 * 2 ^ 31 = 2 ^ 62 := by norm_num
    omega
  have hnear : -(n : Int) ≤ d := by
    by_contra hfar
    unfold toU64 at hend
    omega
  have hfrag := h.frag_le
  have hdb := h.dblkno_lt
  -- the quotient goes to 0, so the group is 0
  have hzero : d.tdiv fs.fpg = 0 := by
    have hneg' : (-d).tdiv fs.fpg = 0 := Int.tdiv_eq_zero_of_lt (by omega) (by omega)
    rw [Int.neg_tdiv] at hneg'
    omega
  have hmin : (0 : Int) ≤ fs.cgdmin 0 := by
    have hstart := h.start_ge 0 fs.ncg_pos
    unfold Fs.cgdmin
    push_cast at hstart
    omega
  rw [hzero, toI32_eq_self (by omega) (by omega)] at hor
  -- group 0 has no data in front of its superblock, and its data start at 0 or later
  rcases hor with ⟨hno, -⟩ | ⟨hno, -⟩
  · exact absurd hno (by omega)
  · omega

/-- `ffs_check_blkno` is exact for 64-bit numbers. -/
theorem ffsCheckBlkno_iff (h : Laid fs) {d : Int} {n : Nat} (h0 : -2 ^ 63 ≤ d) (h1 : d < 2 ^ 63) (hn : 0 < n)
    (hnf : n ≤ fs.frag) : ffsCheckBlkno fs d (n * fs.fsize) = none ↔ Accepts fs d n := by
  have hfrag : fs.frag ≤ 8 := by
    have hpow : (2 : Nat) ^ fs.fragshift ≤ 2 ^ 3 := Nat.pow_le_pow_right (by decide) fs.fragshift_le
    exact hpow
  unfold ffsCheckBlkno
  rw [numfrags_mul]
  simp only [ite_eq_left_iff, reduceCtorEq, imp_false, not_not]
  unfold Accepts
  refine or_congr (toU64_le_two_iff h0 h1) ?_
  by_cases hneg : d < 0
  · exact iff_of_false (range_neg h h0 hneg hnf) fun hno => by have := hno.1; omega
  · obtain ⟨k, rfl⟩ := Int.eq_ofNat_of_zero_le (by omega : 0 ≤ d)
    rw [toU64_eq_self (by omega) (by omega)]
    exact range_iff h k hn

/-! ### `ufs_bmaparray` -/

section Walk

variable {args : BmapArgs} {rd : Int → Int → Except Errno (Nat → Int)} {bn : Int}

/-- The low half of `e` passes. -/
def LowPasses (fs : Fs) (e : Int) : Prop := ffsCheckBlkno fs (toI32 e) fs.bsize = none

instance : DecidablePred (LowPasses fs) := fun _ => inferInstanceAs (Decidable (_ = _))

theorem check_error {d : Int} {n : Nat} {e : Errno} (h : ffsCheckBlkno fs d n = some e) : e = .estale := by
  unfold ffsCheckBlkno at h
  dsimp only at h
  split at h
  · cases h
  · exact (Option.some.inj h).symm

/-- With the check the walk ends in `ESTALE`, or it goes on as without. -/
theorem bmapWalk_checked (daddr : Int) (path : List Indir) :
    bmapWalk fs { args with untrusted := true } rd bn daddr path
      = if ∀ e ∈ bmapEntries rd bn daddr path, LowPasses fs e then
          bmapWalk fs { args with untrusted := false } rd bn daddr path
        else .error .estale := by
  induction path generalizing daddr with
  | nil => exact (if_pos (by simp [bmapEntries])).symm
  | cons ap rest ih =>
      simp only [bmapWalk, bmapEntries]
      by_cases hend : daddr = 0 ∨ ap.lbn = bn
      · simp [if_pos hend]
      · simp only [if_neg hend]
        -- a transfer that fails, fails before the check
        cases hrd : rd ap.lbn daddr with
        | error e =>
            cases e
            all_goals simp
        | ok blk =>
            have hcheck : ufsCheckBlkno fs true (toI32 (blk ap.off)) = ffsCheckBlkno fs (toI32 (blk ap.off)) fs.bsize := rfl
            have hnone : ufsCheckBlkno fs false (toI32 (blk ap.off)) = none := rfl
            simp only [hcheck, hnone, List.forall_mem_cons]
            cases hlow : ffsCheckBlkno fs (toI32 (blk ap.off)) fs.bsize with
            | some e =>
                obtain rfl := check_error hlow
                have hno : ¬ LowPasses fs (blk ap.off) := by
                  unfold LowPasses
                  rw [hlow]
                  exact Option.some_ne_none _
                exact (if_neg fun hall => hno hall.1).symm
            | none =>
                simp only [show LowPasses fs (blk ap.off) from hlow, true_and]
                -- the last entry ends the walk
                by_cases hleaf : rest = [] ∧ blk ap.off ≠ 0
                · obtain ⟨rfl, hne⟩ := hleaf
                  simp [hne, bmapEntries, bmapRuns]
                · simp only [if_neg hleaf]
                  exact ih _

theorem ufsBmaparray_checked (ip : Inode) :
    ufsBmaparray fs { args with untrusted := true } rd ip bn
      = if ∀ e ∈ indirEntries fs rd ip bn, LowPasses fs e then
          ufsBmaparray fs { args with untrusted := false } rd ip bn
        else .error .estale := by
  unfold ufsBmaparray indirEntries
  cases ufsGetlbns fs.nindir bn with
  | error e => simp
  | ok path =>
      cases path with
      | nil => simp [bmapDirect, bmapRuns]
      | cons ap rest =>
          simp only [bmapWalk_checked]
          by_cases hall : ∀ e ∈ bmapEntries rd bn (ip.ib ap.off) rest, LowPasses fs e
          · simp only [if_pos hall]
          · simp only [if_neg hall]

/-- For every file system and every call on an untrusted mount: the check is exact for every
64-bit number, and `ufs_bmaparray` is guarded by it exactly if, where no transfer fails, the
low halves of the entries on the path all pass only when the entries all pass, and the
other way round. -/
theorem blkno_guarded (h : Laid fs) :
    (∀ (d : Int) (n : Nat), -2 ^ 63 ≤ d → d < 2 ^ 63 → 0 < n → n ≤ fs.frag →
      (ffsCheckBlkno fs d (n * fs.fsize) = none ↔ Accepts fs d n))
    ∧ ∀ (args : BmapArgs) (rd : Int → Int → Except Errno (Nat → Int)) (ip : Inode) (bn : Int),
      Guarded fs args rd ip bn ↔
        ((∃ r, ufsBmaparray fs { args with untrusted := false } rd ip bn = .ok r) →
          (∀ e ∈ indirEntries fs rd ip bn, Accepts fs (toI32 e) fs.frag) →
            ∀ e ∈ indirEntries fs rd ip bn, Accepts fs e fs.frag)
        ∧ (ufsBmaparray fs { args with untrusted := false } rd ip bn ≠ .error .estale →
          (∀ e ∈ indirEntries fs rd ip bn, Accepts fs e fs.frag) →
            ∀ e ∈ indirEntries fs rd ip bn, Accepts fs (toI32 e) fs.frag) := by
  refine ⟨fun d n h0 h1 hn hnf => ffsCheckBlkno_iff h h0 h1 hn hnf, fun args rd ip bn => ?_⟩
  -- the check sees the low half of an entry, which is a 64-bit number like any other
  have hlow (e : Int) : LowPasses fs e ↔ Accepts fs (toI32 e) fs.frag := by
    have hbounds := toI32_bounds e
    have hbsize : fs.bsize = fs.frag * fs.fsize := by
      unfold Fs.bsize Fs.frag Fs.fsize
      rw [Nat.pow_add, Nat.mul_comm]
    unfold LowPasses
    rw [hbsize]
    exact ffsCheckBlkno_iff h (by omega) (by omega) (Nat.two_pow_pos _) (Nat.le_refl _)
  have hall : (∀ e ∈ indirEntries fs rd ip bn, LowPasses fs e)
      ↔ ∀ e ∈ indirEntries fs rd ip bn, Accepts fs (toI32 e) fs.frag :=
    forall₂_congr fun e _ => hlow e
  unfold Guarded
  rw [ufsBmaparray_checked, ← hall]
  by_cases hpass : ∀ e ∈ indirEntries fs rd ip bn, LowPasses fs e
  · -- the check does not get in the way
    rw [if_pos hpass]
    refine and_congr ⟨fun hok ⟨r, hr⟩ _ => hok r hr, fun hok r hr => hok ⟨r, hr⟩ hpass⟩ ?_
    exact iff_of_true (fun _ => rfl) fun _ _ => hpass
  · -- the checked walk ends in `ESTALE`
    rw [if_neg hpass]
    refine and_congr (iff_of_true (fun r hr => ?_) fun _ hno => absurd hno hpass) ?_
    · cases hr
    · constructor
      · intro hsame hne hgood
        exact absurd (hsame hgood).symm hne
      · intro himp hgood
        by_contra hne
        exact hpass (himp (fun heq => hne heq.symm) hgood)

end Walk

/-! #### Two entries -/

/-- Groups of 64 fragments with the data from fragment 16 on, 2^32 fragments in all. -/
def largeFs : Fs where
  magic := .ufs2
  fragshift := 1
  fshift := 13
  fsbtodb := 4
  size := 2 ^ 32
  ncg := 2 ^ 26
  fpg := 64
  ipg := 64
  sblkno := 8
  cblkno := 10
  iblkno := 12
  dblkno := 16
  metaspace := 0
  oldCgoffset := 0
  oldCgmask := 0
  contigsumsize := 0
  dsize := 2 ^ 31
  minfree := 0
  nindir := 2048
  inopb := 64
  fragshift_le := by norm_num
  bshift_le := by norm_num
  fpg_pos := by norm_num
  frag_dvd_fpg := by norm_num
  ncg_pos := by norm_num
  ncg_lt := by norm_num
  ipg_pos := by norm_num
  inopb_pos := by norm_num
  size_lt := by simp
  fsbtodb_le := by norm_num
  four_le_nindir := by norm_num
  nindir_le := by norm_num

theorem laid_largeFs : Laid largeFs where
  ncg_lt := by norm_num [largeFs]
  fpg_lt := by norm_num [largeFs]
  size_le := by norm_num [largeFs]
  sblkno_le := by norm_num [largeFs]
  frag_le := by norm_num [largeFs, Fs.frag]
  dblkno_lt := by norm_num [largeFs]
  start_ge g _ := by simp [Fs.cgstart, largeFs]
  dmin_le g _ := by
    simp only [Fs.cgdmin, Fs.cgstart, largeFs]
    push_cast
    omega

/-- A file with one indirect block, at fragment 48. -/
def indirectInode : Inode where
  snapshot := false
  size := 13 * 16384
  blocks := 64
  db := fun _ => 48
  ib := fun i => if i = 0 then 48 else 0
  extb := fun _ => 0

def plainArgs : BmapArgs := ⟨false, false, 0, true, false⟩

/-- The indirect block is full of `e`. -/
def filledWith (e : Int) : Int → Int → Except Errno (Nat → Int) := fun _ _ => .ok fun _ => e

theorem entries_filledWith (e : Int) : indirEntries largeFs (filledWith e) indirectInode 12 = [e] := rfl

/-- Fragment 2^31 + 48 is 48 fragments into group 2^25. -/
theorem accepts_large : Accepts largeFs (2 ^ 31 + 48) 2 := by
  refine .inr ⟨by norm_num, by norm_num [largeFs], 2 ^ 25, by norm_num [largeFs], ?_, ?_, .inl ?_⟩
  all_goals norm_num [largeFs, Fs.cgdmin, Fs.cgstart]

/-- Fragment 2^32 + 48 lies behind the end. -/
theorem not_accepts_beyond : ¬ Accepts largeFs (2 ^ 32 + 48) 2 := by
  rintro (hmark | hdata)
  · norm_num at hmark
  · have hsize := hdata.2.1
    norm_num [largeFs] at hsize

theorem blkno_guarded_large : ffsCheckBlkno largeFs (2 ^ 31 + 48) (2 * largeFs.fsize) = none :=
  ((blkno_guarded laid_largeFs).1 (2 ^ 31 + 48) 2 (by norm_num) (by norm_num) (by norm_num)
    (by norm_num [largeFs, Fs.frag])).mpr accepts_large

/-- An entry behind the end whose low half is 48 is let through, and a good one beyond
2^31 is refused. -/
theorem not_guarded :
    Laid largeFs
      ∧ (ufsBmaparray largeFs plainArgs (filledWith (2 ^ 32 + 48)) indirectInode 12 = .ok ⟨(2 ^ 32 + 48) * 16, 0, 0⟩
        ∧ ¬ Accepts largeFs (2 ^ 32 + 48) 2
        ∧ ¬ Guarded largeFs plainArgs (filledWith (2 ^ 32 + 48)) indirectInode 12)
      ∧ ufsBmaparray largeFs plainArgs (filledWith (2 ^ 31 + 48)) indirectInode 12 = .error .estale
        ∧ Accepts largeFs (2 ^ 31 + 48) 2
        ∧ ¬ Guarded largeFs plainArgs (filledWith (2 ^ 31 + 48)) indirectInode 12 := by
  have hthrough : ufsBmaparray largeFs plainArgs (filledWith (2 ^ 32 + 48)) indirectInode 12
      = .ok ⟨(2 ^ 32 + 48) * 16, 0, 0⟩ := rfl
  have hrefused : ufsBmaparray largeFs plainArgs (filledWith (2 ^ 31 + 48)) indirectInode 12 = .error .estale := rfl
  refine ⟨laid_largeFs, ⟨hthrough, not_accepts_beyond, fun hno => ?_⟩, hrefused, accepts_large, fun hno => ?_⟩
  · have hbad := hno.1 _ hthrough (2 ^ 32 + 48) (by rw [entries_filledWith]; exact List.mem_singleton_self _)
    exact not_accepts_beyond hbad
  · have hgood : ∀ e ∈ indirEntries largeFs (filledWith (2 ^ 31 + 48)) indirectInode 12, Accepts largeFs e largeFs.frag := by
      rw [entries_filledWith]
      intro e he
      rw [List.mem_singleton.mp he]
      exact accepts_large
    have hsame := hno.2 hgood
    have hplain : ufsBmaparray largeFs { plainArgs with untrusted := false } (filledWith (2 ^ 31 + 48)) indirectInode 12
        = .ok ⟨(2 ^ 31 + 48) * 16, 0, 0⟩ := rfl
    rw [hplain] at hsame
    rw [show ufsBmaparray largeFs { plainArgs with untrusted := true } (filledWith (2 ^ 31 + 48)) indirectInode 12
      = .error .estale from hrefused] at hsame
    cases hsame

end UfsX.Proofs.CheckBlkno
