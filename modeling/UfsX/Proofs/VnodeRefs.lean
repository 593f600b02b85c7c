import UfsX.Ufs.VnodeRefs
import UfsX.Proofs.RenameLocks

/-!
# `UfsX.Proofs.VnodeRefs`: are the vnode references balanced?

`ufs_makeinode` and `ufs_mkdir` drop the reference on a new vnode that they do not return.
`ufs_rename` never takes a use reference, and whatever way it goes it drops one on the source
it was given, at the latest at the label `releout`. So no `ufs_rename` that returns is
balanced (`refs_kept_iff`).
-/

set_option autoImplicit false

namespace UfsX.Proofs.VnodeRefs

open UfsX.Lib UfsX.Ufs

variable {ι : Type*} [DecidableEq ι]

/-! ### The promise -/

/-- A call of one of the three functions. -/
inductive Call (ι : Type*) where
  | rename (args : RenameArgs ι) (rounds : List (RefRound ι))
  | makeinode (c : Makeinode ι)
  | mkdir (c : Mkdir ι)

/-- How the call ends, the new vnode it returns, and the references. -/
def Call.run : Call ι → CallEnd × Option ι × VnodeRefs ι
  | .rename args rounds => ((ufsRenameRefs args rounds).1, none, (ufsRenameRefs args rounds).2)
  | .makeinode c => (.returned, (ufsMakeinode c).vpp, (ufsMakeinode c).refs)
  | .mkdir c => (.returned, (ufsMkdir c).vpp, (ufsMkdir c).refs)

def Call.isRename : Call ι → Bool
  | .rename _ _ => true
  | _ => false

/-- Only a new vnode that is returned has a reference more, an I/O reference. -/
def RefsKept (newVp : Option ι) (l : VnodeRefs ι) : Prop :=
  ∀ x, l .io x = (if newVp = some x then 1 else 0) ∧ l .use x = 0

/-! ### `ufs_makeinode` and `ufs_mkdir` -/

theorem refsKept_none : RefsKept (none : Option ι) .none := fun _ => ⟨rfl, rfl⟩

theorem refsKept_returned (vp : ι) : RefsKept (some vp) (vfsVget vp .none) := by
  intro x
  constructor
  · unfold vfsVget Refs.get Refs.none
    simp only [Option.some.injEq, eq_comm, true_and, Int.zero_add]
  · exact Refs.get_of_ne (by decide)

theorem refsKept_bad (vp : ι) : RefsKept none (vnodePut vp (vfsVget vp .none)) := by
  unfold vnodePut vfsVget
  rw [Refs.drop_get]
  exact refsKept_none

theorem ufsMakeinode_kept (c : Makeinode ι) : RefsKept (ufsMakeinode c).vpp (ufsMakeinode c).refs := by
  unfold ufsMakeinode
  split
  · exact refsKept_none
  · cases c.valloc with
    | error e => exact refsKept_none
    | ok tvp =>
        dsimp only
        split
        · exact refsKept_bad tvp
        · split
          · exact refsKept_bad tvp
          · exact refsKept_returned tvp

theorem ufsMkdir_kept (c : Mkdir ι) : RefsKept (ufsMkdir c).vpp (ufsMkdir c).refs := by
  unfold ufsMkdir
  split
  · exact refsKept_none
  · split
    · exact refsKept_none
    · cases c.valloc with
      | error e => exact refsKept_none
      | ok tvp =>
          dsimp only
          generalize (if c.updateDir ≠ 0 then c.updateDir else _) = error
          by_cases herr : error = 0
          · rw [if_pos herr]
            exact refsKept_returned tvp
          · rw [if_neg herr]
            exact refsKept_bad tvp

/-! ### `ufs_rename` -/

section Rename

variable {fdvp tdvp fvp : ι} {tvp : Option ι} {r : RefRound ι} {l : VnodeRefs ι} (x : ι)

/-- What a round does to the use references of the source, and of any vnode. -/
def RoundUse (fvp : ι) (tvp : Option ι) (l : VnodeRefs ι) (out : RefExit ι × VnodeRefs ι) : Prop :=
  out.2 .use x ≤ l .use x ∧ (out.1 = .releout fvp tvp ∨ out.2 .use fvp ≤ l .use fvp - 1)

theorem renameRefsAfter_use : (renameRefsAfter fdvp tdvp fvp tvp r l).2 .use x = l .use x := by
  unfold renameRefsAfter
  split
  · rfl
  · rfl
  · cases r.vgetWait with
    | error e => rfl
    | ok nvp =>
        dsimp only [vnodePut, vfsVget]
        rw [Refs.drop_get]

theorem renameRefsTarget_use : (renameRefsTarget fdvp tdvp fvp tvp r l).2 .use x ≤ l .use x := by
  unfold renameRefsTarget
  split
  · rw [renameRefsAfter_use]
    exact Refs.dropOpt_le
  · split
    · exact Int.le_refl _
    · cases r.vgetTo with
      | ok nvp =>
          dsimp only
          rw [renameRefsAfter_use]
          exact (Refs.dropOpt_le).trans_eq (Refs.get_of_ne (by decide))
      | error e =>
          dsimp only
          split
          · exact Refs.dropOpt_le
          · cases r.vgetToAgain with
            | error e => exact Refs.dropOpt_le
            | ok nvp =>
                dsimp only [vnodePut, vfsVget]
                rw [Refs.drop_get]
                exact Refs.dropOpt_le

theorem rele_vget_use (nvp : ι) : (vnodeRele fvp (vfsVget nvp l)) .use fvp = l .use fvp - 1 := by
  unfold vnodeRele vfsVget
  rw [Refs.drop_self, Refs.get_of_ne (by decide)]

theorem rele_vget_use_le (nvp : ι) : (vnodeRele fvp (vfsVget nvp l)) .use x ≤ l .use x :=
  Refs.drop_le.trans_eq (Refs.get_of_ne (by decide))

/-- A round drops the use reference of the source, unless it goes to `releout` with the same
source. -/
theorem renameRefsRound_use : RoundUse x fvp tvp l (renameRefsRound fdvp tdvp fvp tvp r l) := by
  unfold RoundUse renameRefsRound
  split
  · exact ⟨Int.le_refl _, .inl rfl⟩
  · cases r.vgetFrom with
    | ok nvp =>
        refine ⟨(renameRefsTarget_use x).trans (rele_vget_use_le x nvp), .inr ?_⟩
        exact (renameRefsTarget_use fvp).trans_eq (rele_vget_use nvp)
    | error e =>
        dsimp only
        split
        · exact ⟨Int.le_refl _, .inl rfl⟩
        · cases r.vgetFromAgain with
          | error e => exact ⟨Int.le_refl _, .inl rfl⟩
          | ok nvp => exact ⟨rele_vget_use_le x nvp, .inr (rele_vget_use nvp).le⟩

theorem unlockout_use : (unlockout fdvp tdvp fvp tvp l) .use x = l .use x := by
  unfold unlockout vnodePut vnodePutIf
  rw [Refs.drop_of_ne (by decide), Refs.dropOpt_of_ne (by decide), Refs.drop_of_ne (by decide),
    Refs.drop_of_ne (by decide)]

theorem releout_use : (releout fdvp tdvp fvp tvp l) .use x ≤ l .use x := by
  unfold releout vnodeRele vnodeReleIf
  exact ((Refs.dropOpt_le.trans Refs.drop_le).trans Refs.drop_le).trans Refs.drop_le

/-- The label `releout` drops a use reference of the source. -/
theorem releout_use_source : (releout fdvp tdvp fvp tvp l) .use fvp ≤ l .use fvp - 1 := by
  unfold releout vnodeRele vnodeReleIf
  refine (Refs.dropOpt_le.trans Refs.drop_le).trans ?_
  rw [Refs.drop_self]
  have hdir : (l.drop .use fdvp) .use fvp ≤ l .use fvp := Refs.drop_le
  omega

/-- No round gives a use reference back. -/
theorem renameRefsRounds_use (rounds : List (RefRound ι)) (fvp : ι) (tvp : Option ι) (l : VnodeRefs ι) :
    (renameRefsRounds fdvp tdvp rounds fvp tvp l).2 .use x ≤ l .use x := by
  induction rounds generalizing fvp tvp l with
  | nil => exact Int.le_refl _
  | cons r rs ih =>
      have hround : RoundUse x fvp tvp l (renameRefsRound fdvp tdvp fvp tvp r l) := renameRefsRound_use x
      unfold renameRefsRounds
      generalize renameRefsRound fdvp tdvp fvp tvp r l = out at *
      obtain ⟨exit, l'⟩ := out
      obtain ⟨hround, -⟩ := hround
      cases exit with
      | relock fvp' tvp' => exact (ih fvp' tvp' l').trans hround
      | releout fvp' tvp' => exact (releout_use x).trans hround
      | unlockout fvp' tvp' => exact (unlockout_use x).trans_le hround
      | panic => exact hround

/-- A call that returns has dropped a use reference of the source. -/
theorem renameRefsRounds_use_source (rounds : List (RefRound ι)) (hzero : l .use fvp ≤ 0)
    (hret : (renameRefsRounds fdvp tdvp rounds fvp tvp l).1 = .returned) :
    (renameRefsRounds fdvp tdvp rounds fvp tvp l).2 .use fvp < 0 := by
  cases rounds with
  | nil => cases hret
  | cons r rs =>
      have hround : RoundUse fvp fvp tvp l (renameRefsRound fdvp tdvp fvp tvp r l) := renameRefsRound_use fvp
      unfold renameRefsRounds at hret ⊢
      generalize renameRefsRound fdvp tdvp fvp tvp r l = out at *
      obtain ⟨exit, l'⟩ := out
      obtain ⟨hle, hround⟩ := hround
      obtain hexit | hround := hround
      · obtain rfl : exit = .releout fvp tvp := hexit
        have hle : l' .use fvp ≤ l .use fvp := hle
        exact Int.lt_of_le_sub_one (releout_use_source.trans (by omega))
      · have hneg : l' .use fvp < 0 := hround.trans_lt (by omega)
        cases exit with
        | relock fvp' tvp' => exact (renameRefsRounds_use fvp rs fvp' tvp' l').trans_lt hneg
        | releout fvp' tvp' => exact (releout_use fvp).trans_lt hneg
        | unlockout fvp' tvp' => exact (unlockout_use fvp).trans_lt hneg
        | panic => cases hret

theorem ufsRenameRefs_use (a : RenameArgs ι) (rounds : List (RefRound ι))
    (hret : (ufsRenameRefs a rounds).1 = .returned) : (ufsRenameRefs a rounds).2 .use a.fvp < 0 := by
  unfold ufsRenameRefs at hret ⊢
  by_cases hexdev : a.exdev = true
  · rw [if_pos hexdev]
    exact Int.lt_of_le_sub_one releout_use_source
  · rw [if_neg hexdev] at hret ⊢
    exact renameRefsRounds_use_source rounds (Int.le_refl 0) hret

end Rename

/-- Of the calls that return, those of `ufs_rename` are not balanced and the others are. -/
theorem refs_kept_iff {ι : Type*} [DecidableEq ι] (c : Call ι) (hret : c.run.1 = .returned) :
    RefsKept c.run.2.1 c.run.2.2 ↔ c.isRename = false := by
  cases c with
  | rename args rounds =>
      have huse := ufsRenameRefs_use args rounds hret
      refine iff_of_false (fun hkept => ?_) (fun h => by cases h)
      have hzero : (ufsRenameRefs args rounds).2 .use args.fvp = 0 := (hkept args.fvp).2
      omega
  | makeinode c => exact iff_of_true (ufsMakeinode_kept c) rfl
  | mkdir c => exact iff_of_true (ufsMkdir_kept c) rfl

/-! ### Plain files -/

/-- The source is busy at first, -/
def busyRound : RefRound Nat := { plainRound with vgetFrom := .error EBUSY, vgetWait := .error 0 }

/-- and then it is gone. -/
def goneRound : RefRound Nat := { plainRound with lookupFrom := 2, vgetWait := .error 0 }

/-- File `2` is to take the name of file `3`. -/
def replaceArgs : RenameArgs Nat := ⟨false, 0, 2, 1, some 3⟩

/-- A new inode cannot be written and is given back, and a rename starts over and fails. -/
theorem refs_kept_plain : RefsKept (Call.makeinode ⟨false, .ok 5, 30, 0⟩).run.2.1 (Call.makeinode ⟨false, .ok 5, 30, 0⟩).run.2.2
    ∧ ¬ RefsKept (Call.rename replaceArgs [busyRound, goneRound]).run.2.1
      (Call.rename replaceArgs [busyRound, goneRound]).run.2.2 := by
  constructor
  · exact (refs_kept_iff (.makeinode ⟨false, .ok 5, 30, 0⟩) rfl).mpr rfl
  · intro hkept
    cases (refs_kept_iff (.rename replaceArgs [busyRound, goneRound]) rfl).mp hkept

/-- A rename between two mounts drops a use reference of the source that nobody has taken. -/
theorem rename_drops : ¬ ∀ c : Call Nat, c.run.1 = .returned → RefsKept c.run.2.1 c.run.2.2 := by
  intro hall
  have hsource : (-1 : Int) = 0 := (hall (.rename { replaceArgs with exdev := true } []) rfl 2).2
  cases hsource

end UfsX.Proofs.VnodeRefs
