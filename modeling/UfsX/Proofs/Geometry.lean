import UfsX.Newfs.Initcg
import UfsX.Proofs.Mkfs

/-!
# `UfsX.Proofs.Geometry`: what the groups of a new file system can rely on

`UfsX.Proofs.Mkfs` follows the loops of `mkfs` for what a geometry promises. Here they are
followed once more, for what the code that writes the groups uses without asking: that the
parts of a group are in whole blocks, and how far its maps can reach behind their block
(`Sized`). A group whose maps do is not larger than the file system.
-/

set_option autoImplicit false

namespace UfsX.Proofs.Mkfs

open UfsX.Newfs UfsX.Ffs

variable {s : Super} {φ k f fpg ipg fpg' ipg' ncg fuel : Nat}

/-! ### The loops -/

/-- The inodes are those of the group, or of the group with a block less. The maps end two
bytes behind their block at most, or the group is not larger than the file system. -/
structure Sized (s : Super) (f fpg ipg : Nat) : Prop where
  inodes : ∃ x, ipg = s.ipg f x ∧ fpg ≤ x + s.frag
  limited : s.CGSIZE fpg ipg ≤ s.bsize + 2 ∨ fpg ≤ s.size

/-- What is known at the head of the loop that packs blocks into a group: it has just begun,
or has gone on from a group with a block less. -/
inductive Packing (s : Super) (f fpg ipg : Nat) : Prop where
  | start (room : s.frag ≤ fpg) (inodes : ipg = s.ipg f fpg) (fits : s.CGSIZE fpg ipg < s.bsize)
  | next (x : Nat) (room : s.frag ≤ x) (block : fpg = x + s.frag) (inodes : ipg = s.ipg f x)
      (fits : s.CGSIZE x ipg < s.bsize) (many : MINCYLGRPS ≤ s.size / x)

/-- A block more is a byte more in each of the two maps, at most. -/
theorem CGSIZE_block (h : Shape s φ k) : s.CGSIZE (fpg + s.frag) ipg ≤ s.CGSIZE fpg ipg + 2 := by
  have hfrag := h.frag_le_eight
  have hmap : howmany (fpg + s.frag) 8 ≤ howmany fpg 8 + 1 := by
    unfold howmany
    omega
  have hclusters : howmany ((fpg + s.frag) >>> s.fragshift) 8 ≤ howmany (fpg >>> s.fragshift) 8 + 1 := by
    rw [h.fragshift, Nat.shiftRight_eq_div_pow, Nat.shiftRight_eq_div_pow, ← h.frag, Nat.add_div_right _ h.frag_pos]
    unfold howmany
    omega
  unfold Super.CGSIZE
  split
  · omega
  · omega

namespace Packing

variable (h : Shape s φ k) (hf : 0 < f) (hp : Packing s f fpg ipg)
include h hf hp

omit hf in
/-- The loop ends with the inodes of the round before. -/
theorem sized : Sized s f fpg ipg := by
  cases hp with
  | start room inodes fits => exact ⟨⟨fpg, inodes, Nat.le_add_right ..⟩, .inl (by omega)⟩
  | next x room block inodes fits many =>
      have hblock : s.CGSIZE (x + s.frag) ipg ≤ s.CGSIZE x ipg + 2 := CGSIZE_block h
      subst block
      exact ⟨⟨x, inodes, le_rfl⟩, .inl (by omega)⟩

/-- The loop takes the last block away again. -/
theorem back : Sized s f (fpg - s.frag) (s.ipg f (fpg - s.frag)) := by
  refine ⟨⟨_, rfl, Nat.le_add_right ..⟩, .inl ?_⟩
  cases hp with
  | start room inodes fits =>
      have hmono := CGSIZE_mono s (Nat.sub_le fpg s.frag) (h.ipg_mono hf (Nat.sub_le fpg s.frag))
      rw [← inodes] at hmono
      omega
  | next x room block inodes fits many =>
      subst block
      rw [Nat.add_sub_cancel, ← inodes]
      omega

omit h hf in
/-- The loop ends since there would be too few groups. -/
theorem few : Sized s f fpg (s.ipg f fpg) := by
  refine ⟨⟨fpg, rfl, Nat.le_add_right ..⟩, ?_⟩
  cases hp with
  | start room inodes fits =>
      left
      rw [← inodes]
      omega
  | next x room block inodes fits many =>
      right
      have hx : 0 < x := by
        refine Nat.pos_of_ne_zero fun hzero => ?_
        rw [hzero, Nat.div_zero] at many
        exact absurd many (by decide)
      have hmul := (Nat.le_div_iff_mul_le hx).mp many
      unfold MINCYLGRPS at hmul
      omega

end Packing

theorem growLoop_sized {maxblkspercg : Nat} (h : Shape s φ k) (hf : 0 < f) (hp : Packing s f fpg ipg)
    (hloop : growLoop s f maxblkspercg fuel fpg ipg = some (fpg', ipg')) : Sized s f fpg' ipg' := by
  induction fuel generalizing fpg ipg with
  | zero => cases hloop
  | succ fuel ih =>
      unfold growLoop at hloop
      simp only [] at hloop
      split at hloop
      case isFalse =>
          cases hloop
          exact hp.sized h
      case isTrue =>
          split at hloop
          case isFalse =>
              cases hloop
              exact hp.back h hf
          case isTrue =>
              split at hloop
              case isTrue =>
                  cases hloop
                  exact hp.few
              case isFalse hmany =>
                  have hroom : s.frag ≤ fpg := by
                    cases hp with
                    | start room => exact room
                    | next x room block => omega
                  split at hloop
                  case isTrue hfits => exact ih (.next fpg hroom rfl rfl hfits (not_lt.mp hmany)) hloop
                  case isFalse =>
                      split at hloop
                      case isTrue heq =>
                          cases hloop
                          exact ⟨⟨_, rfl, Nat.le_add_right ..⟩, .inl (by omega)⟩
                      case isFalse =>
                          cases hloop
                          exact hp.back h hf

theorem lastLoop_sized (h : Shape s φ k) (hf : 0 < f) (hs : Sized s f fpg ipg)
    (hloop : lastLoop s f fuel fpg ipg = .ok fpg' ipg' ncg) : Sized s f fpg' ipg' ∧ 0 < fpg' := by
  induction fuel generalizing fpg ipg with
  | zero => cases hloop
  | succ fuel ih =>
      unfold lastLoop at hloop
      simp only [] at hloop
      split at hloop
      case isTrue => cases hloop
      case isFalse hpos =>
          split at hloop
          case isTrue => cases hloop
          case isFalse =>
              split at hloop
              case isTrue =>
                  cases hloop
                  exact ⟨hs, Nat.pos_of_ne_zero hpos⟩
              case isFalse =>
                  refine ih ⟨⟨_, rfl, Nat.le_add_right ..⟩, ?_⟩ hloop
                  obtain ⟨⟨x, hipg, hx⟩, hlimited⟩ := hs
                  have hmono := CGSIZE_mono s (Nat.sub_le fpg s.frag) (h.ipg_mono hf (by omega : fpg - s.frag ≤ x))
                  rw [← hipg] at hmono
                  omega

theorem sizeGroups_sized {maxblkspercg : Nat} {g : Geometry} (h : Shape s φ k) (hf : 0 < f)
    (hfits : s.CGSIZE (s.group f).1 (s.group f).2 < s.bsize) (hg : sizeGroups s maxblkspercg f = .writing g) :
    Sized s f g.fpg g.ipg ∧ 0 < g.fpg := by
  have hgroup : Packing s f (s.group f).1 (s.group f).2 :=
    .start ((Nat.le_add_left ..).trans (h.le_group hf)) (group_snd s f) hfits
  unfold sizeGroups at hg
  simp only [] at hg
  cases hgrow : growLoop s f maxblkspercg (8 * s.bsize + 2) (s.group f).1 (s.group f).2 with
  | none =>
      rw [hgrow] at hg
      cases hg
  | some r =>
      obtain ⟨fpg, ipg⟩ := r
      rw [hgrow] at hg
      simp only [] at hg
      cases hlast : lastLoop s f (fpg + 1) fpg ipg with
      | ok fpg' ipg' ncg =>
          rw [hlast] at hg
          cases hg
          exact lastLoop_sized h hf (growLoop_sized h hf hgroup hgrow) hlast
      | exit code =>
          rw [hlast] at hg
          cases hg
      | dividesByZero =>
          rw [hlast] at hg
          cases hg
      | loops =>
          rw [hlast] at hg
          cases hg

/-! ### The geometry that is written -/

/-- What holds where the groups are about to be written. -/
structure Written (g : Geometry) (φ k : Nat) : Prop where
  shape : Shape g.super φ k
  sound : Sound g
  fpg_pos : 0 < g.fpg
  frag_dvd_sblkno : g.super.frag ∣ g.super.sblkno
  sblkno_le : g.super.sblkno ≤ g.super.cblkno
  cblkno_lt : g.super.cblkno < g.super.iblkno
  sized : ∃ f, 0 < f ∧ Sized g.super f g.fpg g.ipg

section Written

variable {g : Geometry} {φ k : Nat} (hw : Written g φ k)
include hw

theorem Written.sblkno_lt : g.super.sblkno < g.super.iblkno := lt_of_le_of_lt hw.sblkno_le hw.cblkno_lt

theorem Written.inopb_dvd : g.super.inopb ∣ g.ipg := by
  obtain ⟨f, -, ⟨x, hipg, -⟩, -⟩ := hw.sized
  rw [hipg]
  exact dvd_roundup _ _

/-- A group of more than a block has a block of inodes. -/
theorem Written.inopb_le (hfpg : g.super.frag < g.fpg) : g.super.inopb ≤ g.ipg := by
  obtain ⟨f, hf, ⟨x, hipg, hx⟩, -⟩ := hw.sized
  have hinopb := hw.shape.inopb_bounds.1
  have hpos : 0 < howmany (howmany x f) g.super.inopb :=
    howmany_pos (by omega) (howmany_pos hf (by omega))
  rw [hipg]
  exact Nat.le_mul_of_pos_left _ hpos

/-- Maps that reach behind their block are those of a group within the file system. -/
theorem Written.limited : g.CGSIZE ≤ g.super.bsize + 2 ∨ g.fpg ≤ g.super.size := by
  obtain ⟨f, -, -, hlimited⟩ := hw.sized
  exact hlimited

end Written

theorem written_of_pass {L : Limits} {o : Options} {g : Geometry} (hpass : pass L o = .writing g) :
    ∃ φ k, Written g φ k := by
  have hspec := pass_spec L o
  rw [hpass] at hspec
  obtain ⟨hsound, hsuper, hb, hf⟩ := hspec
  obtain ⟨φ, k, hshape, -⟩ := shape_setup L (withDefaults L o) hb hf
  have hsizes : (∃ f, 0 < f ∧ Sized g.super f g.fpg g.ipg) ∧ 0 < g.fpg := by
    rw [hsuper]
    unfold Newfs.pass at hpass
    simp only [hb, hf, Bool.true_eq_false, if_false] at hpass
    split at hpass
    case h_1 => cases hpass
    case h_2 => cases hpass
    case h_3 f hfits =>
        obtain ⟨hone, -, hgroup⟩ := densityLoop_fits hfits
        obtain ⟨hsized, hpos⟩ := sizeGroups_sized hshape hone hgroup hpass
        exact ⟨⟨f, hone, hsized⟩, hpos⟩
  have hfrag := hshape.frag_pos
  refine ⟨φ, k, hsuper ▸ hshape, hsound, hsizes.2, ?_, ?_, ?_, hsizes.1⟩
  · rw [hsuper]
    exact dvd_roundup _ _
  · rw [hsuper]
    exact Nat.le_add_right ..
  · rw [hsuper]
    exact Nat.lt_add_of_pos_right hfrag

theorem pass_of_passes {L : Limits} {o : Options} {g : Geometry} (hpasses : passes L fuel o = .writing g) :
    ∃ o', pass L o' = .writing g := by
  induction fuel generalizing o with
  | zero => cases hpasses
  | succ fuel ih =>
      unfold passes at hpasses
      split at hpasses
      case h_1 => exact ih hpasses
      case h_2 => exact ⟨o, hpasses⟩

theorem mkfs_written {L : Limits} {o : Options} {g : Geometry} (hmkfs : mkfs L o = .writing g) :
    ∃ φ k, Written g φ k := by
  unfold mkfs at hmkfs
  split at hmkfs
  case isTrue => cases hmkfs
  case isFalse =>
      obtain ⟨o', hpass⟩ := pass_of_passes hmkfs
      exact written_of_pass hpass

end UfsX.Proofs.Mkfs
