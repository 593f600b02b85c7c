import Mathlib.Tactic.LinearCombination
import UfsX.Proofs.Initcg

/-!
# `UfsX.Proofs.NewFs`: a new file system is consistent

`NewOk` says that a new file system is consistent: the parts of a group are in order, the
summaries of each group are what one counts in it, nothing of its metadata is free, and the
totals are the sums over the groups.

`newOk_iff` says when `mkfs` writes such a file system: when three products fit in their 32
bits, the maps of a group end in its block, and the clusters are not counted or group 0 has
more free blocks than are counted together. The last is because `fsinit` takes a block out
of the map of the clusters and leaves their counts.
-/

set_option autoImplicit false

namespace UfsX.Proofs.NewFs

open UfsX.Lib UfsX.Ffs UfsX.Newfs UfsX.Proofs.Mkfs UfsX.Proofs.Initcg Finset

variable {L : Limits} {o : Options} {g : Geometry} {φ k : Nat} {nflag : Bool}

/-! ### Consistency -/

section Spec

variable (g)

/-- The header and the maps of a group are in order, do not overlap, and end in `fs_cgsize`. Of
the counts of the clusters the first is not used; it overlaps with the map in front of it. -/
structure Layout : Prop where
  header : cgSpace ≤ g.offsets.iusedoff
  old : g.super.Oflag = .ufs1 → cgSpace ≤ g.offsets.oldBtotoff
    ∧ g.offsets.oldBtotoff + g.super.oldCpg * 4 ≤ g.offsets.oldBoff
    ∧ g.offsets.oldBoff + g.super.oldCpg * 2 ≤ g.offsets.iusedoff
  inosused : g.offsets.iusedoff + howmany g.ipg 8 ≤ g.offsets.freeoff
  blksfree : g.offsets.freeoff + howmany g.fpg 8 ≤ g.offsets.nextfreeoff
  clusters : g.super.contigsumsize ≠ 0 →
    g.offsets.freeoff + howmany g.fpg 8 ≤ g.offsets.clustersumoff + 4
      ∧ g.offsets.clustersumoff + (g.super.contigsumsize + 1) * 4 ≤ g.offsets.clusteroff
      ∧ g.offsets.clusteroff + howmany (g.fpg / g.super.frag) 8 ≤ g.offsets.nextfreeoff
  inside : g.offsets.nextfreeoff ≤ g.cgsize

/-- The fragments of group `c` that are not for data: its superblock, its header, its inodes,
and in group 0 the boot blocks and the summary. -/
def Reserved (c i : Nat) : Prop :=
  (g.super.sblkno ≤ i ∧ i < g.super.cblkno) ∨ (g.super.cblkno ≤ i ∧ i < g.super.iblkno)
    ∨ (g.super.iblkno ≤ i ∧ i < g.dblkno)
    ∨ c = 0 ∧ (i < g.super.sblkno ∨ g.dblkno ≤ i ∧ i < g.dblkno + g.csfrags)

instance (c i : Nat) : Decidable (Reserved g c i) := by
  unfold Reserved
  infer_instance

/-- The fragments for data. -/
def dataFrags (c : Nat) : Nat := ((range (g.groupSize c)).filter fun i => ¬ Reserved g c i).card

/-- The summaries of a group are what one counts in it. -/
structure GroupOk (c : Nat) (acg : Cg) : Prop where
  ndblk : acg.ndblk = g.groupSize c
  counted : FreeMap.Counted g.super.frag (howmany acg.ndblk g.super.frag) acg.blksfree acg.cs.nbfree acg.cs.nffree acg.frsum
  beyond : ∀ i, acg.ndblk ≤ i → i < howmany g.fpg 8 * 8 → acg.blksfree.isset i = false
  clusters : g.super.contigsumsize ≠ 0 → acg.nclusterblks = acg.ndblk / g.super.frag
    ∧ (∀ b < acg.nclusterblks, acg.clustersfree.isset b
        = FreeMap.whole g.super.frag (FreeMap.block g.super.frag acg.blksfree b))
    ∧ ∀ j, 0 < j → j ≤ g.super.contigsumsize → acg.clustersum j
        = cappedRuns (fun b => FreeMap.whole g.super.frag (FreeMap.block g.super.frag acg.blksfree b))
            acg.nclusterblks g.super.contigsumsize j
  nifree : acg.cs.nifree = ((range g.ipg).filter fun i => acg.inosused.isset i = false).card
  reserved : ∀ i, Reserved g c i → acg.blksfree.isset i = false

/-- A new file system is consistent. -/
structure NewOk (fs : NewFs) : Prop where
  layout : Layout g
  group : ∀ c < g.ncg, GroupOk g c (fs.cgs c)
  csp : ∀ c < g.ncg, fs.csp c = (fs.cgs c).cs
  ndir : fs.cstotal.ndir = ∑ c ∈ range g.ncg, (fs.cgs c).cs.ndir
  nbfree : fs.cstotal.nbfree = ∑ c ∈ range g.ncg, (fs.cgs c).cs.nbfree
  nifree : fs.cstotal.nifree = ∑ c ∈ range g.ncg, (fs.cgs c).cs.nifree
  nffree : fs.cstotal.nffree = ∑ c ∈ range g.ncg, (fs.cgs c).cs.nffree
  dsize : g.dsize = ∑ c ∈ range g.ncg, (dataFrags g c : Int)

/-! ### When it is -/

/-- A byte of a group that is behind its block, where there are inodes. -/
def Behind (off : Nat) : Prop := g.super.bsize ≤ off ∧ off < g.offsets.nextfreeoff

/-- What is on the disk differs from the group that was written in no byte of its block. -/
structure InBlock (back : Cg → Cg) : Prop where
  header : ∀ acg, { back acg with
    inosused := acg.inosused, blksfree := acg.blksfree,
    clustersum := acg.clustersum, clustersfree := acg.clustersfree } = acg
  inosused : ∀ acg j, ¬ Behind g (g.offsets.iusedoff + j) → (back acg).inosused j = acg.inosused j
  blksfree : ∀ acg j, ¬ Behind g (g.offsets.freeoff + j) → (back acg).blksfree j = acg.blksfree j
  clustersum : ∀ acg j, (∀ l < 4, ¬ Behind g (g.offsets.clustersumoff + 4 * j + l)) →
    (back acg).clustersum j = acg.clustersum j
  clustersfree : ∀ acg j, ¬ Behind g (g.offsets.clusteroff + j) → (back acg).clustersfree j = acg.clustersfree j

/-- The directories that `fsinit` makes. -/
def dirs (nflag : Bool) : Nat := if nflag then 1 else 2

/-- `mkfs` comes to its end: there are groups, their summaries fit in an `int32_t` of bytes, and
group 0 has a free block for each directory. -/
structure Completes (nflag : Bool) : Prop where
  ncg_pos : 0 < g.ncg
  cssize : g.ncg * csumSize ≤ g.cssize
  room : firstBlock g 0 + dirs nflag ≤ lastBlock g 0

/-- What is needed for the file system to be consistent. -/
structure Fits (nflag : Bool) : Prop where
  groups : howmany g.super.size g.fpg < 2 ^ 32
  inodes : g.ncg * g.ipg < 2 ^ 32
  metadata : g.ncg * (g.dblkno - g.super.sblkno) < 2 ^ 32
  map : g.offsets.nextfreeoff ≤ g.super.bsize
  clusters : g.super.contigsumsize = 0
    ∨ firstBlock g 0 + dirs nflag + g.super.contigsumsize ≤ lastBlock g 0

end Spec

/-! ### The layout of a group -/

theorem offsets_ordered (g : Geometry) :
    cgSpace ≤ g.offsets.iusedoff ∧ g.offsets.iusedoff ≤ cgSpace + g.super.oldCpg * 4 + g.super.oldCpg * 2
      ∧ g.offsets.freeoff = g.offsets.iusedoff + howmany g.ipg 8
      ∧ (g.super.Oflag = .ufs1 → g.offsets.oldBtotoff = cgSpace
        ∧ g.offsets.oldBoff = cgSpace + g.super.oldCpg * 4
        ∧ g.offsets.iusedoff = g.offsets.oldBoff + g.super.oldCpg * 2) := by
  unfold Geometry.offsets Geometry.iusedoff
  cases hO : g.super.Oflag with
  | ufs1 =>
      simp only []
      split
      all_goals exact ⟨by simp only []; omega, by simp only []; omega, rfl, fun _ => ⟨rfl, rfl, rfl⟩⟩
  | ufs2 =>
      simp only []
      split
      all_goals exact ⟨le_rfl, by simp only []; omega, rfl, fun h => by cases h⟩

theorem offsets_clusters (g : Geometry) (hc : 0 < g.super.contigsumsize) :
    g.offsets.clustersumoff = roundup (g.offsets.freeoff + howmany g.fpg 8) 4 - 4
      ∧ g.offsets.clusteroff = g.offsets.clustersumoff + (g.super.contigsumsize + 1) * 4
      ∧ g.offsets.nextfreeoff = g.offsets.clusteroff + howmany (g.fpg >>> g.super.fragshift) 8 := by
  unfold Geometry.offsets
  simp only [gt_iff_lt, if_pos hc, and_self]

theorem offsets_noClusters (g : Geometry) (hc : g.super.contigsumsize = 0) :
    g.offsets.nextfreeoff = g.offsets.freeoff + howmany g.fpg 8 := by
  unfold Geometry.offsets
  simp only [hc, gt_iff_lt, Nat.lt_irrefl, if_false]

theorem layout_ok (hw : Written g φ k) : Layout g := by
  obtain ⟨hlow, hhigh, hfree, hold⟩ := offsets_ordered g
  have hshift : g.fpg >>> g.super.fragshift = g.fpg / g.super.frag := by
    rw [hw.shape.fragshift, hw.shape.frag, Nat.shiftRight_eq_div_pow]
  have hfsize : 0 < g.super.fsize := by
    rw [hw.shape.fsize]
    exact Nat.two_pow_pos φ
  have hround : g.CGSIZE ≤ g.cgsize := le_roundup hfsize
  have hfpg : 0 < howmany g.fpg 8 := howmany_pos (by decide) hw.fpg_pos
  unfold Geometry.CGSIZE Super.CGSIZE at hround
  rw [hshift] at hround
  unfold cgSpace at hlow hhigh
  refine ⟨hlow, ?_, hfree.ge, ?_, ?_, ?_⟩
  · intro hO
    obtain ⟨h₁, h₂, h₃⟩ := hold hO
    exact ⟨h₁.ge, by omega, h₃.ge⟩
  all_goals
    rcases Nat.eq_zero_or_pos g.super.contigsumsize with hc | hc
    · have hnext := offsets_noClusters g hc
      rw [if_pos hc] at hround
      first
        | exact fun hne => absurd hc hne
        | omega
    · obtain ⟨hsum, hmap, hnext⟩ := offsets_clusters g hc
      rw [hshift] at hnext
      rw [if_neg hc.ne'] at hround
      have hup := le_roundup (x := g.offsets.freeoff + howmany g.fpg 8) (by decide : 0 < 4)
      have hdown := roundup_lt (x := g.offsets.freeoff + howmany g.fpg 8) (by decide : 0 < 4)
      first
        | exact fun _ => ⟨by omega, by omega, by omega⟩
        | omega

/-- Nothing is behind the block if the maps end in it. -/
theorem back_eq {back : Cg → Cg} (hb : InBlock g back) (hmap : g.offsets.nextfreeoff ≤ g.super.bsize) (acg : Cg) :
    back acg = acg := by
  have hnone (off : Nat) : ¬ Behind g off := by
    rintro ⟨hlo, hhi⟩
    omega
  have hheader := hb.header acg
  rw [← funext fun j => hb.inosused acg j (hnone _), ← funext fun j => hb.blksfree acg j (hnone _),
    ← funext fun j => hb.clustersum acg j fun _ _ => hnone _,
    ← funext fun j => hb.clustersfree acg j (hnone _)] at hheader
  exact hheader

/-! ### The sums over the groups -/

/-- The fragments of the first `m` groups. -/
def fragsUpTo (g : Geometry) (m : Nat) : Nat := min (m * g.fpg) g.super.size

theorem fragsUpTo_succ (g : Geometry) (m : Nat) : fragsUpTo g (m + 1) = fragsUpTo g m + g.groupSize m := by
  unfold fragsUpTo Geometry.groupSize
  rw [Nat.add_mul, Nat.one_mul]
  omega

theorem sum_groupSize (g : Geometry) (m : Nat) : ∑ c ∈ range m, g.groupSize c = fragsUpTo g m := by
  induction m with
  | zero =>
      unfold fragsUpTo
      rw [sum_range_zero, Nat.zero_mul, Nat.zero_min]
  | succ m ih => rw [sum_range_succ, ih, fragsUpTo_succ]

/-- Where a group ends, a block does, or the file system. -/
theorem fragsUpTo_cases (hw : Written g φ k) (m : Nat) :
    g.groupSize m = 0 ∨ g.super.frag ∣ fragsUpTo g m := by
  by_cases hend : m * g.fpg < g.super.size
  · right
    have hup : fragsUpTo g m = m * g.fpg := min_eq_left hend.le
    rw [hup]
    rcases hw.sound.blocks with hdvd | ⟨hwhole, -⟩
    · exact Dvd.dvd.mul_left hdvd m
    · rcases Nat.eq_zero_or_pos m with rfl | hm
      · rw [Nat.zero_mul]
        exact dvd_zero _
      · have := Nat.le_mul_of_pos_left g.fpg hm
        omega
  · left
    unfold Geometry.groupSize
    omega

theorem sum_lastBlock (hw : Written g φ k) (m : Nat) :
    ∑ c ∈ range m, lastBlock g c = fragsUpTo g m / g.super.frag
      ∧ ∑ c ∈ range m, g.groupSize c % g.super.frag = fragsUpTo g m % g.super.frag := by
  have hfrag := hw.shape.frag_pos
  induction m with
  | zero =>
      have hzero : fragsUpTo g 0 = 0 := by
        unfold fragsUpTo
        rw [Nat.zero_mul, Nat.zero_min]
      rw [sum_range_zero, sum_range_zero, hzero]
      exact ⟨(Nat.zero_div _).symm, (Nat.zero_mod _).symm⟩
  | succ m ih =>
      rw [sum_range_succ, sum_range_succ, ih.1, ih.2, fragsUpTo_succ]
      unfold lastBlock
      rcases fragsUpTo_cases hw m with hzero | ⟨q, hq⟩
      · rw [hzero, Nat.zero_div, Nat.zero_mod]
        exact ⟨rfl, rfl⟩
      · rw [hq, Nat.mul_add_div hfrag, Nat.mul_div_cancel_left _ hfrag, Nat.mul_add_mod, Nat.mul_mod_right,
          Nat.zero_add]
        exact ⟨rfl, rfl⟩

/-! ### The groups of a run that completes -/

section Run

variable (hw : Written g φ k) (hc : Completes g nflag)
include hw hc

omit hw hc in
theorem dirs_pos (nflag : Bool) : 0 < dirs nflag := by
  unfold dirs
  split <;> omega

theorem groups_of_completes {c : Nat} (hlt : c < g.ncg) : g.dblkno ≤ g.groupSize c := by
  have hfrag := hw.shape.frag_pos
  rcases hw.sound.groups with hall | ⟨-, hsmall⟩
  · refine hall c (lt_of_lt_of_le hlt ?_)
    rw [hw.sound.ncg_eq]
    exact Nat.mod_le _ _
  · -- group 0 has a free block
    have hdirs := dirs_pos nflag
    have hup : g.dupper 0 ≤ firstBlock g 0 * g.super.frag := le_howmany_mul hfrag
    have hdown : firstBlock g 0 * g.super.frag ≤ g.groupSize 0 :=
      (Nat.le_div_iff_mul_le hfrag).mp ((Nat.le_add_right ..).trans hc.room)
    have hsize : g.groupSize 0 ≤ g.fpg := Nat.min_le_left ..
    have hdupper : g.dupper 0 = g.dblkno + g.csfrags := if_pos rfl
    omega

theorem room_of_completes {c : Nat} (hlt : c < g.ncg) : firstBlock g c * g.super.frag ≤ g.groupSize c := by
  have hfrag := hw.shape.frag_pos
  rcases Nat.eq_zero_or_pos c with rfl | hpos
  · exact (Nat.le_div_iff_mul_le hfrag).mp ((Nat.le_add_right ..).trans hc.room)
  · have hdupper : g.dupper c = g.dblkno := if_neg hpos.ne'
    unfold firstBlock
    rw [hdupper]
    exact (roundup_of_dvd hfrag (frag_dvd_dblkno hw)).trans_le (groups_of_completes hw hc hlt)

/-- `fsinit` comes to its end. What the inodes have left of group 0 plays no part before it
is written for the last time. -/
theorem fsinit_made {back : Cg → Cg} {fs : NewFs} (hm : Made g 0 0 fs (fs.cgs 0))
    (hback : ∀ acg : Cg, acg.cs.nifree ≠ g.ipg - 2 - (dirs nflag : Int) → back acg = acg) :
    ∃ fs' acg, fsinit g back nflag fs = some fs' ∧ Made g (dirs nflag) (dirs nflag) fs' acg
      ∧ fs'.cgs 0 = back acg := by
  have hroom := hc.room
  have hdirs := dirs_pos nflag
  obtain ⟨fs₁, d₁, acg₁, halloc₁, hm₁, h₁⟩ := alloc_made hw back hm (by omega)
  have hsame₁ : fs₁.cgs 0 = acg₁ := by
    rw [h₁, hback acg₁]
    rw [hm₁.taken.nifree]
    omega
  rw [← hsame₁] at hm₁
  obtain ⟨acg₂, hm₂, h₂⟩ := iput_made back hm₁
  unfold fsinit
  rw [halloc₁]
  cases nflag with
  | true => exact ⟨_, acg₂, rfl, hm₂, h₂⟩
  | false =>
      have hdirs₂ : dirs false = 2 := rfl
      rw [hdirs₂] at hroom hback ⊢
      have hsame₂ : (iput back fs₁ (UFS_ROOTINO + 0)).cgs 0 = acg₂ := by
        rw [h₂, hback acg₂]
        rw [hm₂.taken.nifree]
        omega
      rw [← hsame₂] at hm₂
      obtain ⟨fs₃, d₃, acg₃, halloc₃, hm₃, h₃⟩ := alloc_made hw back hm₂ (by omega)
      have hsame₃ : fs₃.cgs 0 = acg₃ := by
        rw [h₃, hback acg₃]
        rw [hm₃.taken.nifree]
        omega
      rw [← hsame₃] at hm₃
      obtain ⟨acg₄, hm₄, h₄⟩ := iput_made back hm₃
      refine ⟨iput back fs₃ (UFS_ROOTINO + 1), acg₄, ?_, hm₄, h₄⟩
      show (alloc g back (iput back fs₁ (UFS_ROOTINO + 0)) g.super.fsize).bind _ = _
      rw [halloc₃]
      rfl

theorem writeFs_made (back : Cg → Cg)
    (hback : ∀ acg : Cg, acg.cs.nifree ≠ g.ipg - 2 - (dirs nflag : Int) → back acg = acg) :
    ∃ fs acg, writeFs g back nflag = some fs ∧ Made g (dirs nflag) (dirs nflag) fs acg ∧ fs.cgs 0 = back acg := by
  have hroom := hc.room
  have hdirs := dirs_pos nflag
  have hlayout := (layout_ok hw).inside
  have hcs := hc.cssize
  have hstart := taken_initcg hw (by omega)
  have hzero : back (g.initcg 0) = g.initcg 0 := by
    refine hback _ ?_
    rw [hstart.nifree]
    omega
  have hothers {c : Nat} (hpos : 0 < c) (hlt : c < g.ncg) : back (g.initcg c) = g.initcg c := by
    refine hback _ ?_
    rw [(initcg_built hw (room_of_completes hw hc hlt)).nifree, if_neg hpos.ne']
    omega
  -- for any groups, so that the kernel does not build them
  have hmade (cgs : Nat → Cg) (hcgs : cgs = g.initcg) :
      Made g 0 0 ⟨fun c => back (cgs c), fun c => (cgs c).cs, g.cstotal⟩ (back (cgs 0)) := by
    rw [hcgs, hzero, ← hcgs]
    refine ⟨hcgs ▸ hstart, rfl, ?_, ?_⟩
    · intro c hpos hlt
      rw [← hcgs]
      exact ⟨hcgs ▸ hothers hpos hlt, rfl⟩
    · rw [Nat.cast_zero, sub_zero, sub_zero, zero_mul, add_zero]
      rfl
  unfold writeFs
  rw [if_neg (by have := hc.ncg_pos; omega), if_neg (by omega)]
  exact fsinit_made hw hc (hmade _ rfl) hback

end Run

/-! ### A group -/

section Group

variable {c j : Nat} {acg : Cg} {P : Nat → Prop} (hw : Written g φ k)

/-- An interval is cut out of the fragments of a group. -/
theorem card_outside {a e n : Nat} (he : e ≤ n) :
    ((range n).filter fun i => ¬ (a ≤ i ∧ i < e)).card + (e - a) = n := by
  have hin : (range n).filter (fun i => a ≤ i ∧ i < e) = Ico a e := by
    ext i
    simp only [mem_filter, mem_range, mem_Ico]
    omega
  have hsplit := card_filter_add_card_filter_not (s := range n) fun i => a ≤ i ∧ i < e
  rw [hin, Nat.card_Ico, card_range] at hsplit
  omega

include hw

theorem reserved_iff (i : Nat) :
    Reserved g c i ↔ (if c = 0 then 0 else g.super.sblkno) ≤ i ∧ i < g.dupper c := by
  have h₁ := hw.sblkno_le
  have h₂ := hw.cblkno_lt
  have h₃ : g.super.iblkno ≤ g.dblkno := Nat.le_add_right ..
  unfold Reserved Geometry.dupper
  split
  case isTrue hc => omega
  case isFalse hc => omega

theorem not_reserved_of_free {i : Nat} (hfree : FreeAt g c i) : ¬ Reserved g c i := by
  rw [reserved_iff hw]
  rcases hfree with ⟨hc, hlow⟩ | hdata
  · rw [if_neg hc.ne']
    omega
  · omega

theorem dataFrags_eq (hsize : g.dupper c ≤ g.groupSize c) :
    dataFrags g c + g.dupper c = g.groupSize c + if c = 0 then 0 else g.super.sblkno := by
  have hcard := card_outside (a := if c = 0 then 0 else g.super.sblkno) hsize
  have hdata : dataFrags g c = ((range (g.groupSize c)).filter fun i =>
      ¬ ((if c = 0 then 0 else g.super.sblkno) ≤ i ∧ i < g.dupper c)).card := by
    unfold dataFrags
    simp only [reserved_iff hw]
  have hlow : (if c = 0 then 0 else g.super.sblkno) ≤ g.dupper c := by
    have hlt := sblkno_lt_dblkno hw
    unfold Geometry.dupper
    split <;> omega
  rw [hdata]
  omega

theorem groupOk_of_filled (hf : Filled g.super (howmany (g.groupSize c) g.super.frag) P acg)
    (hP : ∀ i, P i → FreeAt g c i) (hroom : g.dupper c ≤ g.groupSize c) (hndblk : acg.ndblk = g.groupSize c)
    (hncl : 0 < g.super.contigsumsize → acg.nclusterblks = lastBlock g c)
    (hsum : 0 < g.super.contigsumsize → ∀ j, 0 < j → j ≤ g.super.contigsumsize → acg.clustersum j
      = (cappedRuns acg.clustersfree.isset (lastBlock g c) g.super.contigsumsize j : Nat))
    (hnifree : acg.cs.nifree = ((range g.ipg).filter fun i => acg.inosused.isset i = false).card) :
    GroupOk g c acg := by
  refine ⟨hndblk, hndblk ▸ hf.counted, ?_, ?_, hnifree, ?_⟩
  · intro i hi _
    refine hf.clear fun hPi => ?_
    have hlt := sblkno_lt_dblkno hw
    have hdupper : g.dblkno ≤ g.dupper c := by
      unfold Geometry.dupper
      split <;> omega
    rcases hP i hPi with ⟨-, hlow⟩ | hdata
    · omega
    · omega
  · intro hc
    have hpos := Nat.pos_of_ne_zero hc
    have hmap : acg.clustersfree.isset = fun b => FreeMap.whole g.super.frag (FreeMap.block g.super.frag acg.blksfree b) :=
      funext (hf.clusters hpos)
    refine ⟨?_, fun b _ => hf.clusters hpos b, ?_⟩
    · rw [hncl hpos, hndblk]
      rfl
    · intro j hj hle
      rw [hsum hpos j hj hle, hmap, hncl hpos]
  · intro i hres
    exact hf.clear fun hPi => not_reserved_of_free hw (hP i hPi) hres

theorem groupOk_built (hpos : 0 < c) (hroom : firstBlock g c * g.super.frag ≤ g.groupSize c) (hb : Built g c acg) :
    GroupOk g c acg := by
  have hup : g.dupper c ≤ firstBlock g c * g.super.frag := le_howmany_mul hw.shape.frag_pos
  refine groupOk_of_filled hw hb.filled (fun i hi => hi) (by omega) hb.ndblk hb.nclusterblks
    (fun hc j _ _ => hb.clustersum hc j) ?_
  have hall : ((range g.ipg).filter fun i => acg.inosused.isset i = false) = range g.ipg := by
    refine filter_true_of_mem fun i _ => ?_
    rw [hb.inosused, decide_eq_false (by omega)]
  rw [hb.nifree, hall, card_range, if_neg hpos.ne']
  exact sub_zero _

theorem inopb_le_of_room (hroom : firstBlock g 0 < lastBlock g 0) : 16 ≤ g.ipg := by
  have hfrag := hw.shape.frag_pos
  have hup : g.dupper 0 ≤ firstBlock g 0 * g.super.frag := le_howmany_mul hfrag
  have hmul := (Nat.le_div_iff_mul_le hfrag).mp (Nat.succ_le_iff.mpr hroom)
  rw [Nat.succ_mul] at hmul
  have hsize : g.groupSize 0 ≤ g.fpg := Nat.min_le_left ..
  have hdupper : g.dupper 0 = g.dblkno + g.csfrags := if_pos rfl
  have hlt := sblkno_lt_dblkno hw
  exact hw.shape.inopb_bounds.1.trans (hw.inopb_le (by omega))

/-- Group 0 with its directories, if enough of its blocks are left. -/
theorem groupOk_taken (hroom : firstBlock g 0 + j ≤ lastBlock g 0) (hj : 0 < j) (hj2 : j ≤ 2)
    (hcl : g.super.contigsumsize = 0 ∨ firstBlock g 0 + j + g.super.contigsumsize ≤ lastBlock g 0)
    (ht : Taken g j j acg) : GroupOk g 0 acg := by
  have hfrag := hw.shape.frag_pos
  have hup : g.dupper 0 ≤ firstBlock g 0 * g.super.frag := le_howmany_mul hfrag
  have hdown : firstBlock g 0 * g.super.frag ≤ g.groupSize 0 :=
    (Nat.le_div_iff_mul_le hfrag).mp ((Nat.le_add_right ..).trans hroom)
  have hipg := inopb_le_of_room hw (by omega)
  refine groupOk_of_filled hw ht.filled (fun i hi => hi.1) (by omega) ht.ndblk ht.nclusterblks ?_ ?_
  · intro hc l _ _
    -- what is left of the run is still as long as the longest that is told apart
    have henough := hcl.resolve_left hc.ne'
    have hmap (b : Nat) : acg.clustersfree.isset b = true ↔ firstBlock g 0 + j ≤ b ∧ b < lastBlock g 0 := by
      rw [ht.filled.clusters hc]
      exact whole_iff_of_taken hw ht.filled b
    rw [ht.clustersum hc, cappedRuns_of_interval hmap (by omega), min_eq_right (by omega), min_eq_right (by omega)]
  · have hcard := card_outside (a := 0) (by omega : 2 + j ≤ g.ipg)
    have hfilter : ((range g.ipg).filter fun i => acg.inosused.isset i = false)
        = (range g.ipg).filter fun i => ¬ (0 ≤ i ∧ i < 2 + j) := by
      refine filter_congr fun i _ => ?_
      rw [ht.inosused, decide_eq_false_iff_not]
      omega
    rw [ht.nifree, hfilter]
    omega

end Group

/-! ### The totals -/

section Totals

variable {m j : Nat} {fs : NewFs} {acg : Cg} (hw : Written g φ k) (hc : Completes g nflag) (hm : g.ncg = m + 1)

theorem howmany_add_of_dvd {a x y : Nat} (hy : 0 < y) (ha : y ∣ a) : howmany (a + x) y = a / y + howmany x y := by
  obtain ⟨q, rfl⟩ := ha
  unfold howmany
  rw [Nat.add_assoc, Nat.mul_add_div hy, Nat.mul_div_cancel_left _ hy]

theorem firstBlock_pos_eq {c : Nat} (hpos : 0 < c) : firstBlock g c = howmany g.dblkno g.super.frag := by
  unfold firstBlock Geometry.dupper
  rw [if_neg hpos.ne']

include hw

theorem firstBlock_zero_eq :
    firstBlock g 0 = g.dblkno / g.super.frag + howmany g.csfrags g.super.frag := by
  unfold firstBlock Geometry.dupper
  rw [if_pos rfl]
  exact howmany_add_of_dvd hw.shape.frag_pos (frag_dvd_dblkno hw)

theorem firstBlock_succ_eq (c : Nat) : firstBlock g (c + 1) = g.dblkno / g.super.frag := by
  have hround := roundup_of_dvd hw.shape.frag_pos (frag_dvd_dblkno hw)
  rw [firstBlock_pos_eq (Nat.succ_pos c)]
  exact (Nat.div_eq_of_eq_mul_left hw.shape.frag_pos hround.symm).symm

include hc hm

omit hw hc in
/-- The groups but the first are as they were built. -/
theorem sum_groups (hmade : Made g j j fs acg) (f : Csum → Int) :
    ∑ c ∈ range g.ncg, f (fs.cgs c).cs = ∑ c ∈ range m, f (g.initcg (c + 1)).cs + f (fs.cgs 0).cs := by
  rw [hm, sum_range_succ']
  congr 1
  refine sum_congr rfl fun c hcm => ?_
  have hlt : c + 1 < g.ncg := by
    rw [mem_range] at hcm
    omega
  rw [(hmade.others _ (Nat.succ_pos c) hlt).1]

theorem built_of_mem {c : Nat} (hcm : c ∈ range m) : Built g (c + 1) (g.initcg (c + 1)) := by
  rw [mem_range] at hcm
  exact initcg_built hw (room_of_completes hw hc (by omega))

theorem firstBlock_le {c : Nat} (hcm : c ∈ range m) : firstBlock g (c + 1) ≤ lastBlock g (c + 1) := by
  rw [mem_range] at hcm
  exact (Nat.le_div_iff_mul_le hw.shape.frag_pos).mpr (room_of_completes hw hc (by omega))

theorem sum_ndir : ∑ c ∈ range m, (g.initcg (c + 1)).cs.ndir = 0 :=
  sum_eq_zero fun _ hcm => (built_of_mem hw hc hm hcm).ndir

theorem sum_nifree : ∑ c ∈ range m, (g.initcg (c + 1)).cs.nifree = m * (g.ipg : Int) := by
  have hterm : ∀ c ∈ range m, (g.initcg (c + 1)).cs.nifree = g.ipg := by
    intro c hcm
    rw [(built_of_mem hw hc hm hcm).nifree, if_neg (Nat.succ_ne_zero c), sub_zero]
  rw [sum_congr rfl hterm, sum_const, card_range, nsmul_eq_mul]

theorem sum_nbfree : ∑ c ∈ range m, (g.initcg (c + 1)).cs.nbfree + lastBlock g 0
    = m * ((g.super.sblkno / g.super.frag : Nat) : Int) + (fragsUpTo g g.ncg / g.super.frag : Nat)
      - m * ((g.dblkno / g.super.frag : Nat) : Int) := by
  have hterm : ∀ c ∈ range m, (g.initcg (c + 1)).cs.nbfree
      = ((g.super.sblkno / g.super.frag : Nat) : Int) - (g.dblkno / g.super.frag : Nat) + (lastBlock g (c + 1) : Nat) := by
    intro c hcm
    have hle := firstBlock_le hw hc hm hcm
    rw [(built_of_mem hw hc hm hcm).nbfree, if_pos (Nat.succ_pos c), Nat.cast_add, Nat.cast_sub hle,
      firstBlock_succ_eq hw]
    ring
  have hlast := (sum_lastBlock hw g.ncg).1
  rw [hm, sum_range_succ'] at hlast
  rw [sum_congr rfl hterm, sum_add_distrib, sum_const, card_range, nsmul_eq_mul, hm, ← hlast]
  push_cast
  ring

theorem sum_nffree : ∑ c ∈ range m, (g.initcg (c + 1)).cs.nffree + (g.groupSize 0 % g.super.frag : Nat)
    = (fragsUpTo g g.ncg % g.super.frag : Nat) := by
  have hterm : ∀ c ∈ range m, (g.initcg (c + 1)).cs.nffree = (g.groupSize (c + 1) % g.super.frag : Nat) := by
    intro c hcm
    have hdupper : g.dupper (c + 1) = g.dblkno := if_neg (Nat.succ_ne_zero c)
    have hmul := Nat.div_mul_cancel (frag_dvd_dblkno hw)
    rw [(built_of_mem hw hc hm hcm).nffree, firstBlock_succ_eq hw, hdupper, hmul, Nat.sub_self, Nat.zero_add]
  have hlast := (sum_lastBlock hw g.ncg).2
  rw [hm, sum_range_succ'] at hlast
  rw [sum_congr rfl hterm, hm, ← hlast]
  push_cast
  rfl

theorem sum_dataFrags : ∑ c ∈ range g.ncg, (dataFrags g c : Int)
    = fragsUpTo g g.ncg - g.ncg * (g.dblkno : Int) + m * (g.super.sblkno : Int) - g.csfrags := by
  have hfrag := hw.shape.frag_pos
  have hterm : ∀ c ∈ range m, (dataFrags g (c + 1) : Int)
      = (g.groupSize (c + 1) : Nat) + ((g.super.sblkno : Int) - g.dblkno) := by
    intro c hcm
    rw [mem_range] at hcm
    have hdupper : g.dupper (c + 1) = g.dblkno := if_neg (Nat.succ_ne_zero c)
    have hsize := groups_of_completes hw hc (by omega : c + 1 < g.ncg)
    have hdata := dataFrags_eq hw (hdupper.trans_le hsize)
    rw [hdupper, if_neg (Nat.succ_ne_zero c)] at hdata
    omega
  have hzero : (dataFrags g 0 : Int) = g.groupSize 0 - g.dblkno - g.csfrags := by
    have hdupper : g.dupper 0 = g.dblkno + g.csfrags := if_pos rfl
    have hup : g.dupper 0 ≤ firstBlock g 0 * g.super.frag := le_howmany_mul hfrag
    have hroom := room_of_completes hw hc hc.ncg_pos
    have hdata := dataFrags_eq hw (hup.trans hroom)
    rw [hdupper, if_pos rfl] at hdata
    omega
  have hlast := sum_groupSize g g.ncg
  rw [hm, sum_range_succ'] at hlast
  rw [hm, sum_range_succ', sum_congr rfl hterm, hzero, sum_add_distrib, sum_const, card_range, nsmul_eq_mul, ← hlast]
  push_cast
  ring

end Totals

/-! ### Against the superblock -/

section Superblock

variable {m j : Nat} {fs : NewFs} {acg : Cg} (hw : Written g φ k) (hc : Completes g nflag) (hm : g.ncg = m + 1)

theorem toU32_natCast_iff {x : Nat} : toU32 x = x ↔ x < 2 ^ 32 := by
  constructor
  · intro heq
    have := toU32_lt x
    omega
  · intro hlt
    exact toU32_eq_self (by omega) (by omega)

theorem toU32_natCast_le (x : Nat) : toU32 x ≤ x := by
  unfold toU32
  omega

include hw

/-- The groups cover the file system if their number has not been cut. -/
theorem fragsUpTo_ncg_iff : fragsUpTo g g.ncg = g.super.size ↔ howmany g.super.size g.fpg < 2 ^ 32 := by
  have hncg := hw.sound.ncg_eq
  have hcover : fragsUpTo g g.ncg = g.super.size ↔ howmany g.super.size g.fpg ≤ g.ncg := by
    rw [howmany_le_iff hw.fpg_pos]
    exact min_eq_right_iff
  rw [hcover]
  omega

theorem dsizeAll_eq : g.dsizeAll = g.super.size - g.super.sblkno
    - toU32 ((g.ncg * (g.dblkno - g.super.sblkno) : Nat) : Int) := by
  have hle := (sblkno_lt_dblkno hw).le
  unfold Geometry.dsizeAll
  rw [Nat.cast_mul, Nat.cast_sub hle]

include hc hm

theorem dsize_iff : g.dsize = ∑ c ∈ range g.ncg, (dataFrags g c : Int)
    ↔ howmany g.super.size g.fpg < 2 ^ 32 ∧ g.ncg * (g.dblkno - g.super.sblkno) < 2 ^ 32 := by
  have hle := (sblkno_lt_dblkno hw).le
  have hup : fragsUpTo g g.ncg ≤ g.super.size := Nat.min_le_right ..
  have hcut := toU32_natCast_le (g.ncg * (g.dblkno - g.super.sblkno))
  have hmeta : (g.ncg : Int) * g.dblkno
      = ((g.ncg * (g.dblkno - g.super.sblkno) : Nat) : Int) + m * (g.super.sblkno : Int) + g.super.sblkno := by
    rw [Nat.cast_mul, Nat.cast_sub hle, hm]
    push_cast
    ring
  unfold Geometry.dsize
  rw [dsizeAll_eq hw, sum_dataFrags hw hc hm, ← fragsUpTo_ncg_iff hw, ← toU32_natCast_iff, hmeta]
  omega

omit hw in
theorem nifree_iff (hw : Written g φ k) (hmade : Made g j j fs acg) (hzero : (fs.cgs 0).cs = acg.cs) :
    fs.cstotal.nifree = ∑ c ∈ range g.ncg, (fs.cgs c).cs.nifree ↔ g.ncg * g.ipg < 2 ^ 32 := by
  have hmul : (g.ncg * g.ipg : Nat) = m * g.ipg + g.ipg := by rw [hm, Nat.add_mul, Nat.one_mul]
  rw [sum_groups hm hmade Csum.nifree, hzero, sum_nifree hw hc hm, hmade.cstotal, hmade.taken.nifree,
    ← toU32_natCast_iff]
  show toU32 ((g.ncg : Int) * g.ipg) - (UFS_ROOTINO : Int) - j = _ ↔ _
  rw [← Nat.cast_mul, hmul]
  push_cast
  unfold UFS_ROOTINO
  omega

theorem nbfree_eq (hroom : firstBlock g 0 + j ≤ lastBlock g 0) (hsize : fragsUpTo g g.ncg = g.super.size)
    (hmeta : g.ncg * (g.dblkno - g.super.sblkno) < 2 ^ 32) (hmade : Made g j j fs acg)
    (hzero : (fs.cgs 0).cs = acg.cs) : fs.cstotal.nbfree = ∑ c ∈ range g.ncg, (fs.cgs c).cs.nbfree := by
  have hfrag := hw.shape.frag_pos
  have hsum := sum_nbfree hw hc hm
  have hlt := sblkno_lt_dblkno hw
  obtain ⟨l, hl⟩ := hw.frag_dvd_sblkno
  obtain ⟨d, hd⟩ := frag_dvd_dblkno hw
  have hll : g.super.sblkno / g.super.frag = l := by rw [hl, Nat.mul_div_cancel_left _ hfrag]
  have hdd : g.dblkno / g.super.frag = d := by rw [hd, Nat.mul_div_cancel_left _ hfrag]
  -- in whole blocks, the metadata can be taken off before or after the division
  have hblocks : g.dsizeAll / g.super.frag
      = ((g.super.size / g.super.frag : Nat) : Int) - (l + g.ncg * ((d : Int) - l)) := by
    have hall : g.dsizeAll = g.super.size + (g.super.frag : Int) * -(l + g.ncg * ((d : Int) - l)) := by
      rw [dsizeAll_eq hw, toU32_natCast_iff.mpr hmeta, Nat.cast_mul, Nat.cast_sub hlt.le, hl, hd]
      push_cast
      ring
    rw [hall, Int.add_mul_ediv_left _ _ (by omega)]
    push_cast
    ring
  have hncg : (g.ncg : Int) = m + 1 := by
    rw [hm]
    push_cast
    rfl
  rw [sum_groups hm hmade Csum.nbfree, hzero, hmade.cstotal, hmade.taken.nbfree]
  show g.dsizeAll / g.super.frag - (howmany g.csfrags g.super.frag : Int) - j = _
  rw [hll, hdd, hsize] at hsum
  rw [Nat.cast_sub (by omega : firstBlock g 0 ≤ lastBlock g 0), firstBlock_zero_eq hw, hblocks, hdd, hncg]
  push_cast at hsum ⊢
  linear_combination -hsum

theorem nffree_eq (hsize : fragsUpTo g g.ncg = g.super.size) (hmade : Made g j j fs acg)
    (hzero : (fs.cgs 0).cs = acg.cs) : fs.cstotal.nffree = ∑ c ∈ range g.ncg, (fs.cgs c).cs.nffree := by
  have hfrag := hw.shape.frag_pos
  have hsum := sum_nffree hw hc hm
  have hmul := Nat.div_mul_cancel (frag_dvd_dblkno hw)
  have hdupper : g.dupper 0 = g.dblkno + g.csfrags := if_pos rfl
  -- the fragments between the summary and the next block
  have hfront : firstBlock g 0 * g.super.frag - g.dupper 0
      = if g.csfrags % g.super.frag > 0 then g.super.frag - g.csfrags % g.super.frag else 0 := by
    have hsplit := Nat.div_add_mod' g.csfrags g.super.frag
    have hmod := Nat.mod_lt g.csfrags hfrag
    rw [firstBlock_zero_eq hw, Nat.add_mul, hmul, hdupper, Nat.add_sub_add_left]
    rcases Nat.eq_zero_or_pos (g.csfrags % g.super.frag) with hpart | hpart
    · rw [if_neg (by omega), show howmany g.csfrags g.super.frag * g.super.frag = g.csfrags from
        roundup_of_dvd hfrag (Nat.dvd_of_mod_eq_zero hpart), Nat.sub_self]
    · have hhow : howmany g.csfrags g.super.frag = g.csfrags / g.super.frag + 1 := by
        refine le_antisymm ((howmany_le_iff hfrag).mpr ?_) ((lt_howmany_iff hfrag).mpr ?_)
        · rw [Nat.add_mul]
          omega
        · omega
      rw [if_pos hpart, hhow, Nat.add_mul, Nat.one_mul]
      omega
  have htotal : g.cstotal.nffree = ((g.super.size % g.super.frag : Nat) : Int)
      + (firstBlock g 0 * g.super.frag - g.dupper 0 : Nat) := by
    rw [hfront]
    rfl
  rw [sum_groups hm hmade Csum.nffree, hzero, hmade.cstotal, hmade.taken.nffree]
  show g.cstotal.nffree + j * ((g.super.frag : Int) - 1) = _
  rw [hsize] at hsum
  rw [htotal, Nat.cast_add]
  linear_combination -hsum

theorem ndir_eq (hmade : Made g j j fs acg) (hzero : (fs.cgs 0).cs = acg.cs) :
    fs.cstotal.ndir = ∑ c ∈ range g.ncg, (fs.cgs c).cs.ndir := by
  rw [sum_groups hm hmade Csum.ndir, hzero, hmade.cstotal, hmade.taken.ndir, sum_ndir hw hc hm, zero_add]

end Superblock

/-! ### The directories and the counts of the clusters -/

section Exact

variable {j : Nat} {fs : NewFs} {acg : Cg} (hw : Written g φ k)
include hw

/-- What `fsinit` leaves in the counts of the clusters is right if as many blocks are left as
are counted together. -/
theorem clusters_of_groupOk (hroom : firstBlock g 0 + j ≤ lastBlock g 0) (hj : 0 < j) (ht : Taken g j j acg)
    (hok : GroupOk g 0 acg) :
    g.super.contigsumsize = 0 ∨ firstBlock g 0 + j + g.super.contigsumsize ≤ lastBlock g 0 := by
  rcases Nat.eq_zero_or_pos g.super.contigsumsize with hzero | hc
  · exact .inl hzero
  right
  obtain ⟨hncl, hmap, hsum⟩ := hok.clusters hc.ne'
  have hset (b : Nat) : acg.clustersfree.isset b = true ↔ firstBlock g 0 + j ≤ b ∧ b < lastBlock g 0 := by
    rw [ht.filled.clusters hc]
    exact whole_iff_of_taken hw ht.filled b
  have hone := hsum (min (lastBlock g 0 - firstBlock g 0) g.super.contigsumsize) (by omega) (by omega)
  rw [ht.clustersum hc, if_pos rfl, ← funext (ht.filled.clusters hc), ht.nclusterblks hc] at hone
  rcases Nat.eq_or_lt_of_le hroom with hnone | hsome
  · -- all blocks have been taken, and a run is still counted
    rw [cappedRuns_of_clear fun b hb => Bool.eq_false_iff.mpr fun hb' => by
      have := (hset b).mp hb'
      omega] at hone
    cases hone
  · rw [cappedRuns_of_interval hset hsome] at hone
    split at hone
    · omega
    · cases hone

/-- Where the maps end in their block, consistency is four conditions. -/
theorem newOk_iff_of_made (hc : Completes g nflag) (hmade : Made g (dirs nflag) (dirs nflag) fs acg)
    (hzero : fs.cgs 0 = acg) :
    NewOk g fs ↔ howmany g.super.size g.fpg < 2 ^ 32 ∧ g.ncg * g.ipg < 2 ^ 32
      ∧ g.ncg * (g.dblkno - g.super.sblkno) < 2 ^ 32
      ∧ (g.super.contigsumsize = 0 ∨ firstBlock g 0 + dirs nflag + g.super.contigsumsize ≤ lastBlock g 0) := by
  have hdirs := dirs_pos nflag
  have hdirs' : dirs nflag ≤ 2 := by
    unfold dirs
    split <;> omega
  have hncg := hc.ncg_pos
  obtain ⟨m, hm⟩ : ∃ m, g.ncg = m + 1 := ⟨g.ncg - 1, by omega⟩
  have hcs : (fs.cgs 0).cs = acg.cs := by rw [hzero]
  constructor
  · intro hok
    obtain ⟨hgroups, hmeta⟩ := (dsize_iff hw hc hm).mp hok.dsize
    have hfirst := hok.group 0 hc.ncg_pos
    rw [hzero] at hfirst
    exact ⟨hgroups, (nifree_iff hc hm hw hmade hcs).mp hok.nifree, hmeta,
      clusters_of_groupOk hw hc.room hdirs hmade.taken hfirst⟩
  · rintro ⟨hgroups, hinodes, hmeta, hclusters⟩
    have hsize := (fragsUpTo_ncg_iff hw).mpr hgroups
    refine ⟨layout_ok hw, ?_, ?_, ndir_eq hw hc hm hmade hcs, nbfree_eq hw hc hm hc.room hsize hmeta hmade hcs,
      (nifree_iff hc hm hw hmade hcs).mpr hinodes, nffree_eq hw hc hm hsize hmade hcs,
      (dsize_iff hw hc hm).mpr ⟨hgroups, hmeta⟩⟩
    · intro c hlt
      rcases Nat.eq_zero_or_pos c with rfl | hpos
      · rw [hzero]
        exact groupOk_taken hw hc.room hdirs hdirs' hclusters hmade.taken
      · rw [(hmade.others c hpos hlt).1]
        exact groupOk_built hw hpos (room_of_completes hw hc hlt) (initcg_built hw (room_of_completes hw hc hlt))
    · intro c hlt
      rcases Nat.eq_zero_or_pos c with rfl | hpos
      · rw [hmade.csp, hcs]
      · rw [(hmade.others c hpos hlt).1, (hmade.others c hpos hlt).2]

end Exact

/-! ### A group that is larger than its block -/

section Map

variable (hw : Written g φ k)

/-- Flip the first bit of byte `b`. -/
def flipBit (m : Bitmap) (b : Nat) : Bitmap := Function.update m b (m b ^^^ 1#8)

theorem isset_flipBit (m : Bitmap) (b i : Nat) : (flipBit m b).isset i = if i = 8 * b then !m.isset i else m.isset i := by
  unfold flipBit Bitmap.isset
  by_cases hbyte : i / 8 = b
  · rw [hbyte, Function.update_self, BitVec.getLsbD_xor]
    by_cases hi : i = 8 * b
    · rw [if_pos hi, show i % 8 = 0 from by omega]
      exact Bool.xor_true _
    · have hone : (1#8).getLsbD (i % 8) = false := by
        rw [BitVec.getLsbD_one, decide_eq_false (by omega : ¬ i % 8 = 0), Bool.and_false]
      rw [if_neg hi, hone, Bool.xor_false]
  · rw [Function.update_of_ne hbyte, if_neg (by omega)]

/-- When a group has all its directories, the inodes behind its block spoil the last byte of its
last map. -/
def spoil (g : Geometry) (nflag : Bool) (acg : Cg) : Cg :=
  if acg.cs.nifree = g.ipg - 2 - (dirs nflag : Int) then
    if g.super.contigsumsize > 0 then
      { acg with clustersfree := flipBit acg.clustersfree (howmany (g.fpg / g.super.frag) 8 - 1) }
    else { acg with blksfree := flipBit acg.blksfree (howmany g.fpg 8 - 1) }
  else acg

include hw

theorem nextfreeoff_le_CGSIZE : g.offsets.nextfreeoff + 9 ≤ g.CGSIZE := by
  obtain ⟨hlow, hhigh, hfree, -⟩ := offsets_ordered g
  unfold Geometry.CGSIZE Super.CGSIZE
  unfold cgSpace at hlow hhigh
  rcases Nat.eq_zero_or_pos g.super.contigsumsize with hc | hc
  · have hnext := offsets_noClusters g hc
    rw [if_pos hc]
    omega
  · obtain ⟨hsum, hmap, hnext⟩ := offsets_clusters g hc
    have hdown := roundup_lt (x := g.offsets.freeoff + howmany g.fpg 8) (by decide : 0 < 4)
    have hup := le_roundup (x := g.offsets.freeoff + howmany g.fpg 8) (by decide : 0 < 4)
    have hpos : 0 < howmany g.fpg 8 := howmany_pos (by decide) hw.fpg_pos
    rw [if_neg hc.ne']
    omega

theorem inBlock_spoil (hmap : g.super.bsize < g.offsets.nextfreeoff) (nflag : Bool) : InBlock g (spoil g nflag) := by
  have hshift : g.fpg >>> g.super.fragshift = g.fpg / g.super.frag := by
    rw [hw.shape.fragshift, hw.shape.frag, Nat.shiftRight_eq_div_pow]
  have hfpg : 0 < howmany g.fpg 8 := howmany_pos (by decide) hw.fpg_pos
  have hcases (acg : Cg) : spoil g nflag acg = acg
      ∨ 0 < g.super.contigsumsize ∧ spoil g nflag acg
        = { acg with clustersfree := flipBit acg.clustersfree (howmany (g.fpg / g.super.frag) 8 - 1) }
      ∨ g.super.contigsumsize = 0
        ∧ spoil g nflag acg = { acg with blksfree := flipBit acg.blksfree (howmany g.fpg 8 - 1) } := by
    unfold spoil
    split
    · split
      case isTrue hc => exact .inr (.inl ⟨hc, rfl⟩)
      case isFalse hc => exact .inr (.inr ⟨by omega, rfl⟩)
    · exact .inl rfl
  refine ⟨fun acg => ?_, fun acg j _ => ?_, fun acg j hj => ?_, fun acg j _ => ?_, fun acg j hj => ?_⟩
  all_goals
    rcases hcases acg with heq | ⟨hc, heq⟩ | ⟨hc, heq⟩
    all_goals rw [heq]
  · -- the last byte of the map of the free blocks
    refine Function.update_of_ne (fun hlast => hj ?_) ..
    have hnext := offsets_noClusters g hc
    unfold Behind
    omega
  · -- the last byte of the map of the clusters
    refine Function.update_of_ne (fun hlast => hj ?_) ..
    obtain ⟨-, -, hnext⟩ := offsets_clusters g hc
    have hone : g.super.frag ≤ g.fpg := by
      have hlimit := nextfreeoff_le_CGSIZE hw
      rcases hw.sound.fits with hfits | ⟨hle, -⟩
      · omega
      · exact hle
    have hblocks : 0 < howmany (g.fpg / g.super.frag) 8 :=
      howmany_pos (by decide) (Nat.div_pos hone hw.shape.frag_pos)
    rw [hshift] at hnext
    unfold Behind
    omega

/-- If the maps of the groups reach behind their block, the inodes can spoil them. -/
theorem map_of_newOk (hc : Completes g nflag)
    (hall : ∀ fs, writeFs g (spoil g nflag) nflag = some fs → NewOk g fs) :
    g.offsets.nextfreeoff ≤ g.super.bsize := by
  by_contra hmap
  have hfrag := hw.shape.frag_pos
  have hlimit := nextfreeoff_le_CGSIZE hw
  have hwithin : g.groupSize 0 = g.fpg := by
    have hsize := hw.limited.resolve_left (by omega)
    unfold Geometry.groupSize
    omega
  obtain ⟨fs, acg, hwrite, hmade, hzero⟩ := writeFs_made hw hc (spoil g nflag) fun acg hne => if_neg hne
  have ht := hmade.taken
  have hok := (hall fs hwrite).group 0 hc.ncg_pos
  rw [hzero] at hok
  have hspoil : spoil g nflag acg = if g.super.contigsumsize > 0 then
      { acg with clustersfree := flipBit acg.clustersfree (howmany (g.fpg / g.super.frag) 8 - 1) }
    else { acg with blksfree := flipBit acg.blksfree (howmany g.fpg 8 - 1) } := if_pos ht.nifree
  rcases Nat.eq_zero_or_pos g.super.contigsumsize with hnone | hsome
  · -- a fragment more or less is free than is counted
    rw [hspoil, if_neg (by omega)] at hok
    have hpos : 0 < howmany g.fpg 8 := howmany_pos (by decide) hw.fpg_pos
    have hin : (howmany g.fpg 8 - 1) * 8 < g.fpg := (lt_howmany_iff (by decide)).mp (by omega)
    have hblock := Nat.div_add_mod' (8 * (howmany g.fpg 8 - 1)) g.super.frag
    have hlast : 8 * (howmany g.fpg 8 - 1) / g.super.frag < howmany (g.groupSize 0) g.super.frag := by
      rw [lt_howmany_iff hfrag, hwithin]
      omega
    have hflip (i : Nat) : (flipBit acg.blksfree (howmany g.fpg 8 - 1)).isset i
        = if i = 8 * (howmany g.fpg 8 - 1) / g.super.frag * g.super.frag + 8 * (howmany g.fpg 8 - 1) % g.super.frag
          then !acg.blksfree.isset i else acg.blksfree.isset i := by
      rw [isset_flipBit, hblock]
    have hcounted := hok.counted
    rw [show (howmany acg.ndblk g.super.frag) = howmany (g.groupSize 0) g.super.frag from by rw [ht.ndblk]] at hcounted
    exact ht.filled.counted.not_flipped hlast (Nat.mod_lt _ hfrag) hflip hcounted
  · -- the map of the clusters is wrong for a block
    rw [hspoil, if_pos hsome] at hok
    obtain ⟨hncl, hclusters, -⟩ := hok.clusters hsome.ne'
    have hpos : 0 < howmany (g.fpg / g.super.frag) 8 := by
      refine howmany_pos (by decide) (Nat.div_pos ?_ hfrag)
      rcases hw.sound.fits with hfits | ⟨hle, -⟩
      · omega
      · exact hle
    have hin : (howmany (g.fpg / g.super.frag) 8 - 1) * 8 < g.fpg / g.super.frag :=
      (lt_howmany_iff (by decide)).mp (by omega)
    have hbit := hclusters (8 * (howmany (g.fpg / g.super.frag) 8 - 1)) (by
      show _ < acg.nclusterblks
      rw [ht.nclusterblks hsome]
      unfold lastBlock
      rw [hwithin]
      omega)
    rw [isset_flipBit, if_pos rfl, ht.filled.clusters hsome] at hbit
    exact absurd hbit (Bool.not_ne_self _)

end Map

/-! ### Runs that do not complete -/

section Fails

variable {back : Cg → Cg} {fs fs' : NewFs}

theorem back_cs (hb : InBlock g back) (acg : Cg) : (back acg).cs = acg.cs := by
  have hheader := congrArg Cg.cs (hb.header acg)
  exact hheader

/-- A directory takes one of the free blocks that are counted in group 0. -/
theorem alloc_nbfree (hb : InBlock g back) {size d : Nat} (halloc : alloc g back fs size = some (fs', d)) :
    (fs.cgs 0).cs.nbfree ≠ 0 ∧ (fs'.cgs 0).cs.nbfree = (fs.cgs 0).cs.nbfree - 1 := by
  unfold alloc at halloc
  simp only [] at halloc
  split at halloc
  case isTrue => cases halloc
  case isFalse hnonzero =>
      refine ⟨hnonzero, ?_⟩
      cases hfind : findBlock g (fs.cgs 0) ((fs.cgs 0).ndblk + 1) 0 with
      | none =>
          rw [hfind] at halloc
          cases halloc
      | some d' =>
          rw [hfind] at halloc
          simp only [Option.bind_eq_bind, Option.bind_some] at halloc
          split at halloc
          all_goals
            obtain ⟨rfl, -⟩ := Prod.mk.inj (Option.some.inj halloc)
            rw [cgwrite_cgs_zero, back_cs hb]

theorem iput_nbfree (hb : InBlock g back) (fs : NewFs) (ino : Nat) :
    ((iput back fs ino).cgs 0).cs.nbfree = (fs.cgs 0).cs.nbfree := by
  show ((cgwrite back fs _).cgs 0).cs.nbfree = _
  rw [cgwrite_cgs_zero, back_cs hb]

theorem fsinit_nbfree (hb : InBlock g back) (hfs : fsinit g back nflag fs = some fs') {n : Nat}
    (hn : (fs.cgs 0).cs.nbfree = n) : dirs nflag ≤ n := by
  unfold fsinit at hfs
  cases halloc₁ : alloc g back fs g.super.fsize with
  | none =>
      rw [halloc₁] at hfs
      cases hfs
  | some r₁ =>
      obtain ⟨fs₁, d₁⟩ := r₁
      rw [halloc₁] at hfs
      obtain ⟨hne₁, hnb₁⟩ := alloc_nbfree hb halloc₁
      cases nflag with
      | true =>
          show 1 ≤ n
          omega
      | false =>
          have hput := iput_nbfree hb fs₁ UFS_ROOTINO
          cases halloc₂ : alloc g back (iput back fs₁ UFS_ROOTINO) g.super.fsize with
          | none =>
              have hfs' : ((alloc g back (iput back fs₁ UFS_ROOTINO) g.super.fsize).bind fun r =>
                  some (iput back r.1 (UFS_ROOTINO + 1))) = some fs' := hfs
              rw [halloc₂] at hfs'
              cases hfs'
          | some r₂ =>
              obtain ⟨hne₂, -⟩ := alloc_nbfree hb halloc₂
              show 2 ≤ n
              omega

/-- The free blocks of group 0 are counted even where its metadata does not fit. -/
theorem initcg_nbfree_zero (hw : Written g φ k) : (g.initcg 0).cs.nbfree = (lastBlock g 0 - firstBlock g 0 : Nat) := by
  have hfrag := hw.shape.frag_pos
  by_cases hroom : firstBlock g 0 * g.super.frag ≤ g.groupSize 0
  · rw [(initcg_built hw hroom).nbfree, if_neg (Nat.lt_irrefl 0), Nat.zero_add]
  · -- the first block for data is behind the group
    have hle : lastBlock g 0 ≤ firstBlock g 0 := Nat.div_le_of_le_mul (by rw [Nat.mul_comm]; omega)
    rw [Nat.sub_eq_zero_of_le hle]
    exact initcg_nbfree_of_noRoom hw hroom

theorem completes_of_writeFs (hw : Written g φ k) (hb : InBlock g back) (hfs : writeFs g back nflag = some fs) :
    Completes g nflag := by
  unfold writeFs at hfs
  split at hfs
  case isTrue => cases hfs
  case isFalse hgroups =>
      split at hfs
      case isTrue => cases hfs
      case isFalse =>
          have hcount : (back (g.initcg 0)).cs.nbfree = (lastBlock g 0 - firstBlock g 0 : Nat) := by
            rw [back_cs hb, initcg_nbfree_zero hw]
          have hdirs := fsinit_nbfree hb hfs hcount
          have hpos := dirs_pos nflag
          exact ⟨by omega, by omega, by omega⟩

end Fails

/-! ### The exact condition -/

/-- `mkfs` writes a consistent file system, whatever the inodes leave of a group that is larger
than its block, if and only if it does not come to its end or what it writes fits. -/
theorem newOk_iff (nflag : Bool) (hmkfs : mkfs L o = .writing g) :
    (∀ back, InBlock g back → ∀ fs, writeFs g back nflag = some fs → NewOk g fs)
      ↔ (Completes g nflag → Fits g nflag) := by
  obtain ⟨φ, k, hw⟩ := mkfs_written hmkfs
  constructor
  · intro hall hc
    obtain ⟨fs, acg, hwrite, hmade, hzero⟩ := writeFs_made hw hc id fun _ _ => rfl
    have hid : InBlock g id :=
      ⟨fun _ => rfl, fun _ _ _ => rfl, fun _ _ _ => rfl, fun _ _ _ => rfl, fun _ _ _ => rfl⟩
    obtain ⟨hgroups, hinodes, hmeta, hclusters⟩ :=
      (newOk_iff_of_made hw hc hmade hzero).mp (hall id hid fs hwrite)
    refine ⟨hgroups, hinodes, hmeta, ?_, hclusters⟩
    by_contra hmap
    exact hmap (map_of_newOk hw hc (hall _ (inBlock_spoil hw (not_le.mp hmap) nflag)))
  · intro hfits back hb fs hwrite
    have hc := completes_of_writeFs hw hb hwrite
    obtain ⟨hgroups, hinodes, hmeta, hmap, hclusters⟩ := hfits hc
    obtain ⟨fs', acg, hwrite', hmade, hzero⟩ := writeFs_made hw hc back fun acg _ => back_eq hb hmap acg
    obtain rfl : fs = fs' := Option.some.inj (hwrite.symm.trans hwrite')
    rw [back_eq hb hmap] at hzero
    exact (newOk_iff_of_made hw hc hmade hzero).mpr ⟨hgroups, hinodes, hmeta, hclusters⟩

/-- `newfs` on 640 sectors: of three free blocks two are taken, and a run of three is still
counted. -/
theorem mkfs_three_blocks :
    mkfs macos (defaults 640) = .writing ⟨{ smallSuper with size := 80 }, 2, 80, 128, 1⟩ := rfl

theorem not_newOk_three_blocks :
    ¬ ∀ back, InBlock ⟨{ smallSuper with size := 80 }, 2, 80, 128, 1⟩ back → ∀ fs,
      writeFs ⟨{ smallSuper with size := 80 }, 2, 80, 128, 1⟩ back false = some fs →
        NewOk ⟨{ smallSuper with size := 80 }, 2, 80, 128, 1⟩ fs := by
  rw [newOk_iff false mkfs_three_blocks]
  intro hfits
  have hclusters := (hfits ⟨by decide, by decide, by decide⟩).clusters
  exact absurd hclusters (by decide)

end UfsX.Proofs.NewFs
