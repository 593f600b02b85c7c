import UfsX.Ffs.Bread

/-!
# `UfsX.Proofs.Bread`: who owns a buffer after a read

* `breadn_iff`, `metaBread_iff`: when the two wrappers leave one owner.
* `getcg_owned`: `ffs_getcg` hands over one buffer whenever it returns 0.
* `cleanupBread_cleaned`: no call that returns an error has started a clean-up.
* `meets_iff`: all of it, for a call of any of the five.
-/

set_option autoImplicit false

namespace UfsX.Proofs.Bread

open UfsX.Ffs UfsX.Compat.Buf

/-! ### One owner -/

/-- The read's own error, or `ENXIO` when conversion was requested. -/
def IsErrorOf (flags : BitVec 32) (read : ReadResult) (value : Nat) : Prop :=
  (∃ error, read.error = some error ∧ value = error.value) ∨
    (flags &&& GB_CVTENXIO ≠ 0#32 ∧ value = ENXIO)

/-- After a success the caller owns the buffer in `*bpp`. After an error it owns none, and
the buffer of the read has been released once and no other. -/
structure OneOwner (flags : BitVec 32) (read : ReadResult) (call : ReadCall) : Prop where
  success : call.value = 0 → call.bpp = some read.bp ∧ call.released = []
  failure : call.value ≠ 0 → call.released = [read.bp] ∧ call.bpp = none ∧
    IsErrorOf flags read call.value

variable {flags : BitVec 32} {read : ReadResult} {error : ErrorNumber} {lblkno : Int}
  {bpp : Option Nat}

theorem cvtError_pos (flags : BitVec 32) (error : ErrorNumber) : cvtError flags error ≠ 0 := by
  simp only [cvtError]
  split
  · decide
  · exact Nat.ne_of_gt error.pos

/-- With any flag at all, the value is a flag and no error number. -/
theorem cvtError_isErrorOf_iff (h : read.error = some error) :
    IsErrorOf flags read (cvtError flags error) ↔ flags = 0#32 := by
  have hcvt : GB_CVTENXIO.toNat = 128 := rfl
  have hle (other : ErrorNumber) : other.value ≤ 106 := other.le
  constructor
  · intro hvalue
    by_contra hflags
    rw [cvtError, if_pos hflags, hcvt] at hvalue
    -- 128 lies above the last error number, and is not `ENXIO`
    rcases hvalue with ⟨other, -, heq⟩ | ⟨-, heq⟩
    · have := hle other
      omega
    · cases heq
  · intro hflags
    left
    exact ⟨error, h, if_neg (not_not_intro hflags)⟩

/-- A failed call leaves one owner if it released the buffer of the read and no flag was
given. -/
theorem oneOwner_failed_iff (released : List Nat) (h : read.error = some error) :
    OneOwner flags read ⟨cvtError flags error, none, released⟩ ↔
      flags = 0#32 ∧ released = [read.bp] := by
  constructor
  · intro howner
    obtain ⟨hreleased, -, hvalue⟩ := howner.failure (cvtError_pos flags error)
    exact ⟨(cvtError_isErrorOf_iff h).mp hvalue, hreleased⟩
  · rintro ⟨hflags, hreleased⟩
    constructor
    · intro hzero
      exact absurd hzero (cvtError_pos flags error)
    · intro _
      exact ⟨hreleased, rfl, (cvtError_isErrorOf_iff h).mpr hflags⟩

/-- A wrapper leaves one owner after every read that succeeds, and after one that fails if
it releases the buffer of the read. -/
theorem readFlags_iff (victim : Nat → Nat) (lblkno : Int) (flags : BitVec 32) (read : ReadResult)
    (bpp : Option Nat) :
    (∀ call, readFlags victim lblkno flags read bpp = some call → OneOwner flags read call) ↔
      read.error = none ∨ (flags = 0#32 ∧ bpp.map victim = some read.bp) := by
  cases hread : read.error with
  | none =>
      -- nothing is released after a success
      simp only [readFlags, hread, true_or, iff_true]
      intro call h
      split at h
      · rw [← Option.some.inj h]
        exact ⟨fun _ => ⟨rfl, rfl⟩, fun hne => absurd rfl hne⟩
      · cases h
  | some error =>
      -- what is released after an error is the victim, if `*bpp` is set at all
      simp only [readFlags, hread, Option.some.injEq, forall_eq']
      rw [oneOwner_failed_iff _ hread]
      cases bpp with
      | none => simp
      | some old => simp

theorem breadn_iff (lblkno : Int) (flags : BitVec 32) (read : ReadResult) (bpp : Option Nat) :
    (∀ call, breadnFlags lblkno flags read bpp = some call → OneOwner flags read call) ↔
      read.error = none ∨ (flags = 0#32 ∧ bpp ≠ none) := by
  rw [breadnFlags, readFlags_iff]
  cases bpp with
  | none => simp
  | some old => simp

theorem metaBread_iff (lblkno : Int) (flags : BitVec 32) (read : ReadResult) (bpp : Option Nat) :
    (∀ call, metaBreadFlags lblkno flags read bpp = some call → OneOwner flags read call) ↔
      read.error = none ∨ (flags = 0#32 ∧ bpp = some read.bp) := by
  rw [metaBreadFlags, readFlags_iff, Option.map_id']

/-- A read that failed is an error of the wrapper. -/
theorem readFlags_failed {victim : Nat → Nat} (call : ReadCall) (hread : read.error ≠ none)
    (h : readFlags victim lblkno flags read bpp = some call) : call.value ≠ 0 := by
  obtain ⟨error, herror⟩ := Option.ne_none_iff_exists'.mp hread
  simp only [readFlags, herror] at h
  rw [← Option.some.inj h]
  exact cvtError_pos flags error

/-- A wrapper returns 0 only with the buffer it has read. -/
theorem readFlags_zero {victim : Nat → Nat} {call : ReadCall}
    (h : readFlags victim lblkno flags read bpp = some call) (hzero : call.value = 0) :
    call = ⟨0, some read.bp, []⟩ := by
  cases hread : read.error with
  | none =>
      simp only [readFlags, hread] at h
      split at h
      · exact (Option.some.inj h).symm
      · cases h
  | some error =>
      have hne : read.error ≠ none := by
        rw [hread]
        exact Option.some_ne_none error
      exact absurd hzero (readFlags_failed call hne h)

/-- When `ffs_getcg` returns 0, the buffer it has read is the caller's, in `*bpp`. -/
theorem getcg_owned (fs : CgFs) (cgx : Nat) (cgBuf : CgBuf) (blkno : Int) (flags : BitVec 32)
    (read : ReadResult) (bp : Option Nat) (call : ReadCall)
    (h : ffsGetcgBuffers fs cgx cgBuf blkno flags read bp = some call) (hzero : call.value = 0) :
    call.bpp = some read.bp ∧ call.released = [] := by
  simp only [ffsGetcgBuffers] at h
  -- the hash changes the flags only
  generalize (if fs.ckCylgrp then flags ||| GB_CKHASH else flags) = flags' at h
  cases hread : breadnFlags blkno flags' read bp with
  | none =>
      rw [hread] at h
      cases h
  | some inner =>
      rw [hread] at h
      simp only at h
      split at h
      · -- the error of the read is returned
        next hne =>
          rw [← Option.some.inj h] at hzero
          exact absurd hzero hne
      · next heq =>
          -- the group is looked at next, and a bad one gives an error
          have hinner : inner = ⟨0, some read.bp, []⟩ := readFlags_zero hread (not_not.mp heq)
          split at h
          · cases h
          · rw [← Option.some.inj h] at hzero
            cases hzero
          · rw [← Option.some.inj h, hinner]
            exact ⟨rfl, rfl⟩

/-! ### The clean-up -/

/-- A read that failed with `ENXIO`, or one that failed and was to be converted. -/
def EnxioSeen (flags : BitVec 32) (read : ReadResult) : Prop :=
  ∃ error, read.error = some error ∧ (error.value = ENXIO ∨ flags &&& GB_CVTENXIO ≠ 0#32)

/-- The call returns with a clean-up in progress, and with the unmount asked for if it was
the first to see the error. -/
def CleansUp (ump : FailState) (result : Option (ReadCall × FailState)) : Prop :=
  ∃ call ump', result = some (call, ump') ∧ ump'.fsfailCleanup = true ∧
    (ump.fsfailCleanup = false → ump'.unmounts = ump.unmounts + 1)

/-- A call that returns an error returns without a clean-up: with one, the assertion after
`getblk` has failed. -/
theorem cleanupBread_cleaned {ump ump' : FailState} {call : ReadCall} {result : Option ReadCall}
    (h : cleanupBread ump result = some (call, ump')) (hne : call.value ≠ 0) :
    ump'.fsfailCleanup = false := by
  cases result with
  | none => cases h
  | some inner =>
      simp only [cleanupBread] at h
      split at h
      · split at h
        · cases h
        · next ump₁ hcleanup =>
            have hump : ump₁ = ump' := (Prod.mk.inj (Option.some.inj h)).2
            rw [← hump]
            -- `ffs_fsfail_cleanup` said that there is none
            simp only [ffsFsfailCleanup, Prod.mk.injEq] at hcleanup
            rw [← hcleanup.2]
            exact hcleanup.1
      · next hzero =>
          have hcall : inner = call := (Prod.mk.inj (Option.some.inj h)).1
          rw [hcall] at hzero
          exact absurd hne hzero

/-- The call that a returned one went through. -/
theorem cleanupBread_call {ump ump' : FailState} {call : ReadCall} {result : Option ReadCall}
    (h : cleanupBread ump result = some (call, ump')) : result = some call := by
  cases result with
  | none => cases h
  | some inner =>
      simp only [cleanupBread] at h
      split at h
      · split at h
        · cases h
        · rw [(Prod.mk.inj (Option.some.inj h)).1]
      · rw [(Prod.mk.inj (Option.some.inj h)).1]

/-- An `ENXIO` is never cleaned up after. -/
theorem cleansUp_iff (victim : Nat → Nat) (ump : FailState) (lblkno : Int) (flags : BitVec 32)
    (read : ReadResult) (bpp : Option Nat) :
    (EnxioSeen flags read →
      CleansUp ump (cleanupBread ump (readFlags victim lblkno flags read bpp))) ↔
        ¬ EnxioSeen flags read := by
  constructor
  · intro hcleans hseen
    obtain ⟨call, ump', hresult, hclean, -⟩ := hcleans hseen
    obtain ⟨error, hread, -⟩ := hseen
    have hfailed : read.error ≠ none := by
      rw [hread]
      exact Option.some_ne_none error
    have hne : call.value ≠ 0 := readFlags_failed call hfailed (cleanupBread_call hresult)
    -- it returned an error, and so without a clean-up
    rw [cleanupBread_cleaned hresult hne] at hclean
    cases hclean
  · intro hnot hseen
    exact absurd hseen hnot

/-! ### Every call -/

/-- A call of one of the five, with what the read below it gives. -/
inductive BufferCall where
  | breadn (lblkno : Int) (flags : BitVec 32) (read : ReadResult) (bpp : Option Nat)
  | metaBread (lblkno : Int) (flags : BitVec 32) (read : ReadResult) (bpp : Option Nat)
  | getcg (fs : CgFs) (cgx : Nat) (cgBuf : CgBuf) (blkno : Int) (flags : BitVec 32)
      (read : ReadResult) (bp : Option Nat)
  | fsBread (ump : FailState) (lblkno : Int) (flags : BitVec 32) (read : ReadResult)
      (bpp : Option Nat)
  | fsMetaBread (ump : FailState) (lblkno : Int) (flags : BitVec 32) (read : ReadResult)
      (bpp : Option Nat)

/-- What is asked of each. -/
def BufferCall.Meets : BufferCall → Prop
  | .breadn lblkno flags read bpp =>
      ∀ call, breadnFlags lblkno flags read bpp = some call → OneOwner flags read call
  | .metaBread lblkno flags read bpp =>
      ∀ call, metaBreadFlags lblkno flags read bpp = some call → OneOwner flags read call
  | .getcg fs cgx cgBuf blkno flags read bp =>
      ∀ call, ffsGetcgBuffers fs cgx cgBuf blkno flags read bp = some call → call.value = 0 →
        call.bpp = some read.bp ∧ call.released = []
  | .fsBread ump lblkno flags read bpp =>
      EnxioSeen flags read → CleansUp ump (ffsBread ump lblkno flags read bpp)
  | .fsMetaBread ump lblkno flags read bpp =>
      EnxioSeen flags read → CleansUp ump (ffsMetaBread ump lblkno flags read bpp)

def BufferCall.HoldsWhen : BufferCall → Prop
  | .breadn _ flags read bpp => read.error = none ∨ (flags = 0#32 ∧ bpp ≠ none)
  | .metaBread _ flags read bpp => read.error = none ∨ (flags = 0#32 ∧ bpp = some read.bp)
  | .getcg _ _ _ _ _ _ _ => True
  | .fsBread _ _ flags read _ => ¬ EnxioSeen flags read
  | .fsMetaBread _ _ flags read _ => ¬ EnxioSeen flags read

theorem meets_iff (call : BufferCall) : call.Meets ↔ call.HoldsWhen := by
  cases call with
  | breadn lblkno flags read bpp => exact breadn_iff lblkno flags read bpp
  | metaBread lblkno flags read bpp => exact metaBread_iff lblkno flags read bpp
  | getcg fs cgx cgBuf blkno flags read bp =>
      show (∀ call, _) ↔ True
      rw [iff_true]
      exact getcg_owned fs cgx cgBuf blkno flags read bp
  | fsBread ump lblkno flags read bpp => exact cleansUp_iff _ ump lblkno flags read bpp
  | fsMetaBread ump lblkno flags read bpp => exact cleansUp_iff _ ump lblkno flags read bpp

/-- `EIO`, and a caller that has set its pointer to `NULL`: the buffer stays busy. -/
theorem not_meets : ¬ ∀ call : BufferCall, call.Meets := by
  intro h
  have howner : OneOwner 0#32 ⟨some ⟨ EIO, by decide, by decide⟩, 1000, 3⟩ ⟨ EIO, none, []⟩ :=
    h (.metaBread 3 0#32 ⟨some ⟨ EIO, by decide, by decide⟩, 1000, 3⟩ none) _ rfl
  have hreleased : [] = [1000] := (howner.failure (by decide)).1
  cases hreleased

end UfsX.Proofs.Bread
