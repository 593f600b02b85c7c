import UfsX.Compat.Buf

/-!
# `UfsX.Proofs.Buf`: what the flag words of a buffer return

* `xflags_zero`: no call ever sets a bit of `b_xflags`.
* `vflags_run`: `b_vflags` is the word that the `v` calls and `buf_setxflags` mark.
* `flags_right_iff`: all answers of a sequence of calls are right if and only if no
  `buf_setxflags` among them carries a flag.
-/

set_option autoImplicit false

namespace UfsX.Proofs.Buf

open UfsX.Lib.Marks UfsX.Compat.Buf

/-! ### What the calls ask for -/

/-- What a call asks of the `BX_` flags. -/
def xChange : FlagCall → Option (Change 32)
  | .setx flags => some (.set (flags &&& BX_XFLAGMASK))
  | .clearx flags => some (.clear (flags &&& BX_XFLAGMASK))
  | .setv _ => none
  | .clearv _ => none

/-- What a call asks of the `BV_` flags. -/
def vChange : FlagCall → Option (Change 32)
  | .setx _ => none
  | .clearx _ => none
  | .setv flags => some (.set (flags &&& BX_VFLAGMASK))
  | .clearv flags => some (.clear (flags &&& BX_VFLAGMASK))

/-- `buf_xflags` and `buf_vflags` return the bits set and not since cleared through the
calls of their own family. -/
def FlagsRight (calls : List FlagCall) : Prop :=
  ∀ i,
    ((bufXflags (runFlagCalls calls)).getLsbD i = true ↔ Marked i (calls.filterMap xChange)) ∧
    ((bufVflags (runFlagCalls calls)).getLsbD i = true ↔ Marked i (calls.filterMap vChange))

/-! ### The words -/

theorem runFlagCalls_append (calls : List FlagCall) (call : FlagCall) :
    runFlagCalls (calls ++ [call]) = call.exec (runFlagCalls calls) := by
  simp only [runFlagCalls, List.foldl_append, List.foldl_cons, List.foldl_nil]

/-- Widened with its sign and cut again, a mask is what it was. -/
theorem setWidth_signExtend (mask : BitVec 32) : (mask.signExtend 64).setWidth 32 = mask := by
  ext i hi
  rw [BitVec.getElem_setWidth, BitVec.getLsbD_signExtend, BitVec.getLsbD_eq_getElem hi]
  simp only [hi, if_true, Nat.lt_trans hi (by decide : 32 < 64), decide_true, Bool.true_and]

theorem bufVflags_eq (bpriv : Bufpriv) :
    bufVflags bpriv = bpriv.vflags.setWidth 32 &&& BX_VFLAGMASK := by
  show (bpriv.vflags &&& BX_VFLAGMASK.signExtend 64).setWidth 32 = _
  rw [BitVec.setWidth_and, setWidth_signExtend]

theorem xflags_zero (calls : List FlagCall) : (runFlagCalls calls).xflags = 0#64 := by
  induction calls using List.reverseRecOn with
  | nil => rfl
  | append_singleton calls call ih =>
      rw [runFlagCalls_append]
      cases call with
      | setx flags => exact ih
      | clearx flags =>
          show (runFlagCalls calls).xflags &&& _ = 0#64
          rw [ih, BitVec.zero_and]
      | setv flags => exact ih
      | clearv flags => exact ih

theorem bufXflags_zero (calls : List FlagCall) : bufXflags (runFlagCalls calls) = 0#32 := by
  show ((runFlagCalls calls).xflags &&& _).setWidth 32 = 0#32
  rw [xflags_zero, BitVec.zero_and]
  rfl

/-- The calls, with no flags given to `buf_setxflags`. -/
def NoSetx (calls : List FlagCall) : Prop :=
  ∀ flags, .setx flags ∈ calls → flags &&& BX_XFLAGMASK = 0#32

/-- Then the low half of `b_vflags` is what the `v` calls mark. -/
theorem vflags_run (calls : List FlagCall) (h : NoSetx calls) :
    (runFlagCalls calls).vflags.setWidth 32 = run 0#32 (calls.filterMap vChange) := by
  induction calls using List.reverseRecOn with
  | nil => rfl
  | append_singleton calls call ih =>
      have ih := ih fun flags hin => h flags (List.mem_append_left _ hin)
      rw [runFlagCalls_append, List.filterMap_append]
      cases call with
      | setx flags =>
          -- no flag of the `BX_` family, so nothing is set
          have hzero : flags &&& BX_XFLAGMASK = 0#32 := h flags (by simp)
          show ((runFlagCalls calls).vflags ||| (flags &&& BX_XFLAGMASK).signExtend 64).setWidth 32
            = run 0#32 (calls.filterMap vChange ++ [])
          rw [BitVec.setWidth_or, setWidth_signExtend, hzero, BitVec.or_zero, ih, List.append_nil]
      | clearx flags =>
          -- this one changes `b_xflags`, as it should
          show (runFlagCalls calls).vflags.setWidth 32 = run 0#32 (calls.filterMap vChange ++ [])
          rw [ih, List.append_nil]
      | setv flags =>
          show ((runFlagCalls calls).vflags ||| (flags &&& BX_VFLAGMASK).signExtend 64).setWidth 32
            = run 0#32 (calls.filterMap vChange ++ [.set (flags &&& BX_VFLAGMASK)])
          rw [run_append, BitVec.setWidth_or, setWidth_signExtend, ih]
          rfl
      | clearv flags =>
          show ((runFlagCalls calls).vflags &&& (~~~(flags &&& BX_VFLAGMASK)).signExtend 64).setWidth 32
            = run 0#32 (calls.filterMap vChange ++ [.clear (flags &&& BX_VFLAGMASK)])
          rw [run_append, BitVec.setWidth_and, setWidth_signExtend, ih]
          rfl

/-- A `v` call sets nothing outside the `BV_` flags. -/
theorem vChange_set {calls : List FlagCall} {mask : BitVec 32}
    (h : .set mask ∈ calls.filterMap vChange) : mask &&& BX_VFLAGMASK = mask := by
  rw [List.mem_filterMap] at h
  obtain ⟨call, -, hcall⟩ := h
  cases call with
  | setx flags => cases hcall
  | clearx flags => cases hcall
  | setv flags =>
      have hmask : flags &&& BX_VFLAGMASK = mask := by
        simpa [vChange] using hcall
      rw [← hmask, BitVec.and_assoc, BitVec.and_self]
  | clearv flags => simp [vChange] at hcall

theorem bufVflags_run (calls : List FlagCall) (h : NoSetx calls) :
    bufVflags (runFlagCalls calls) = run 0#32 (calls.filterMap vChange) := by
  rw [bufVflags_eq, vflags_run calls h]
  exact run_and_field BX_VFLAGMASK _ fun mask => vChange_set

/-! ### The answers -/

/-- Flags that are set have a mark that the code does not return. -/
theorem not_right_of_setx {calls : List FlagCall} {flags : BitVec 32}
    (h : flags &&& BX_XFLAGMASK ≠ 0#32) : ¬ FlagsRight (calls ++ [FlagCall.setx flags]) := by
  intro hright
  apply h
  apply BitVec.eq_of_getLsbD_eq
  intro i hi
  rw [BitVec.getLsbD_zero, Bool.eq_false_iff]
  intro hbit
  have hmarked : Marked i ((calls ++ [FlagCall.setx flags]).filterMap xChange) := by
    rw [List.filterMap_append]
    show Marked i (calls.filterMap xChange ++ [.set (flags &&& BX_XFLAGMASK)])
    rw [marked_append_iff]
    exact Or.inl hbit
  -- but `b_xflags` was never written to
  have hread := (hright i).1.mpr hmarked
  rw [bufXflags_zero, BitVec.getLsbD_zero] at hread
  cases hread

/-- Without them no `BX_` flag is ever marked. -/
theorem not_marked_x {calls : List FlagCall} (h : NoSetx calls) (i : Nat) :
    ¬ Marked i (calls.filterMap xChange) := by
  rintro ⟨before, change, after, hsplit, hsets, -⟩
  have hin : change ∈ calls.filterMap xChange := by
    rw [hsplit]
    simp
  rw [List.mem_filterMap] at hin
  obtain ⟨call, hmem, hcall⟩ := hin
  cases call with
  | setx flags =>
      have hchange : .set (flags &&& BX_XFLAGMASK) = change := Option.some.inj hcall
      rw [h flags hmem] at hchange
      rw [← hchange] at hsets
      simp [Change.Sets] at hsets
  | clearx flags =>
      rw [← Option.some.inj hcall] at hsets
      exact hsets
  | setv flags => cases hcall
  | clearv flags => cases hcall

theorem right_of_noSetx {calls : List FlagCall} (h : NoSetx calls) : FlagsRight calls := by
  intro i
  constructor
  · rw [bufXflags_zero, BitVec.getLsbD_zero]
    simp [not_marked_x h i]
  · rw [bufVflags_run calls h]
    exact getLsbD_run _ i

/-- Whatever calls were made, the two answers have been right after each of them if and
only if `buf_setxflags` was never given a `BX_` flag. -/
theorem flags_right_iff (calls : List FlagCall) :
    (∀ before, before <+: calls → FlagsRight before) ↔ NoSetx calls := by
  constructor
  · intro hright flags hin
    by_contra hne
    obtain ⟨before, after, hsplit⟩ := List.append_of_mem hin
    have hinit : before ++ [.setx flags] <+: calls := ⟨after, by rw [hsplit]; simp⟩
    exact not_right_of_setx hne (hright _ hinit)
  · intro h before hbefore
    have hnone : NoSetx before := fun flags hin => h flags (hbefore.subset hin)
    exact right_of_noSetx hnone

/-- `BX_BKGRDWRITE`, set and asked for. -/
theorem not_flags_right : ¬ ∀ calls, FlagsRight calls := by
  intro h
  have hbit := (h [.setx 0x10#32] 4).1.mpr
    ⟨[], .set (0x10#32 &&& BX_XFLAGMASK), [], rfl,
      show (0x10#32 &&& BX_XFLAGMASK).getLsbD 4 = true by decide, by simp⟩
  rw [bufXflags_zero] at hbit
  cases hbit

/-- A flag of the filesystem's own is read back as `BV_SCANNED`. -/
example : bufVflags (runFlagCalls [.setx 0x00100000#32]) = 0x00100000#32 := by decide

end UfsX.Proofs.Buf
