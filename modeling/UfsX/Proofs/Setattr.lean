import UfsX.Lib.Run
import UfsX.Ufs.Setattr

/-!
# `UfsX.Proofs.Setattr`: who may change the system flags

`flags_protected`: calls of `ufs_setattr` keep the system flags, and all attributes of a
file that is immutable or append-only for the system, exactly as long as no owner in the
group of the file is let through to the flags with something to change. The source takes
this caller for the privileged one and never asks for the superuser, so that an owner sets
and clears `SF_IMMUTABLE`. Even with the flags as they are, the call stamps the change time.

A call that does not get to the flags leaves them alone, and a system flag that is set then
stops it before the other attributes.
-/

set_option autoImplicit false

namespace UfsX.Proofs.Setattr

open UfsX.Lib UfsX.Ufs.Setattr
open UfsX.Ufs.Setid (Cred EPERM vnoval)

/-! ### What is asked for -/

/-- `SF_IMMUTABLE` or `SF_APPEND` is set. -/
def Locked (f : File) : Prop := f.flags &&& (SF_IMMUTABLE ||| SF_APPEND) ≠ 0

/-- Owner, group, mode, size, times and flags are the same. -/
structure Same (f f' : File) : Prop where
  uid : f'.node.uid = f.node.uid
  gid : f'.node.gid = f.node.gid
  mode : f'.node.mode = f.node.mode
  size : f'.node.size = f.node.size
  times : f'.times = f.times
  flags : f'.flags = f.flags

theorem Same.trans {f f' f'' : File} (h : Same f f') (h' : Same f' f'') : Same f f'' :=
  ⟨h'.uid.trans h.uid, h'.gid.trans h.gid, h'.mode.trans h.mode, h'.size.trans h.size,
    h'.times.trans h.times, h'.flags.trans h.flags⟩

/-- From `f` to `f'` the system flags are kept, and everything while they forbid it. -/
structure Kept (f f' : File) : Prop where
  system : f'.flags &&& SF_SETTABLE = f.flags &&& SF_SETTABLE
  locked : Locked f → Same f f'

/-- The call gets to the flags and sets them. -/
structure SetsFlags (c : Call) (f : File) : Prop where
  settable : unsettable c.vap = false
  active : c.vap.active.flags = true
  known : c.vap.flags &&& ~~~supported = 0
  writable : c.env.rdonly = false
  authorized : c.env.authErr 0 = 0
  allowed : flagsDenied c.cred c.vap f = false

/-- An owner in the group of the file who gets to the flags has nothing to change: not the
system flags, and on a file they forbid to change not the other flags and not the times. -/
def Harmless (f : File) (c : Call) : Prop :=
  SetsFlags c f → owns c.cred f = true →
    c.vap.flags &&& SF_SETTABLE = f.flags &&& SF_SETTABLE
      ∧ (Locked f → c.vap.flags = f.flags
        ∧ stamped c.env.fsRonly (c.env.now 0) { f.marks with change := true } f.times = f.times)

/-! ### The stages -/

/-- The file that a stage ends with. -/
def file : Stage → File
  | .ok f => f
  | .error r => r.2

/-- What two stages keep, one after the other keep. -/
theorem file_bind_flags {x : Stage} {g : File → Stage} {fl : Flags} (hx : (file x).flags = fl)
    (hg : ∀ f, f.flags = fl → (file (g f)).flags = fl) : (file (x >>= g)).flags = fl := by
  cases x with
  | error r => exact hx
  | ok f => exact hg f hx

section Stages

variable (env : Env) (cred : Cred) (vap : VnodeAttr) (f : File)

theorem checkImmutable_flags : (file (checkImmutable f)).flags = f.flags := by
  unfold checkImmutable
  split
  all_goals rfl

theorem setOwner_flags : (file (setOwner env cred vap f)).flags = f.flags := by
  unfold setOwner
  split
  case isFalse => rfl
  case isTrue =>
    split
    case isTrue => rfl
    case isFalse =>
      simp only []
      split
      case isTrue => rfl
      case isFalse =>
        split
        all_goals rfl

theorem truncateTo_flags : (file (truncateTo env f)).flags = f.flags := by
  unfold truncateTo
  split
  case isTrue => rfl
  case isFalse =>
    split
    case isTrue => rfl
    case isFalse =>
      simp only []
      split
      all_goals rfl

theorem setSize_flags : (file (setSize env vap f)).flags = f.flags := by
  unfold setSize
  split
  case isFalse => rfl
  case isTrue =>
    cases f.node.vtype with
    | vdir | other => rfl
    | vlnk | vreg => exact truncateTo_flags env f

theorem setTimes_flags : (file (setTimes env vap f)).flags = f.flags := by
  unfold setTimes
  split
  case isFalse => rfl
  case isTrue =>
    split
    case isTrue => rfl
    case isFalse =>
      split
      case isTrue => rfl
      case isFalse =>
        simp only []
        split
        all_goals rfl

theorem setMode_flags : (setMode env cred vap f).2.flags = f.flags := by
  unfold setMode
  split
  case isTrue => rfl
  case isFalse =>
    split
    case isTrue => rfl
    case isFalse =>
      split
      case isTrue => rfl
      case isFalse =>
        simp only []
        split
        all_goals rfl

end Stages

/-! ### The stage of the flags -/

/-- The file after its flags are set. -/
def flagged (c : Call) (f : File) : File :=
  { f with flags := c.vap.flags, node := { f.node with append := c.vap.flags &&& APPEND ≠ 0 } }.changed c.env 0

variable {c : Call} {f : File}

theorem setFlags_sets (h : SetsFlags c f) :
    setFlags c.env c.cred c.vap f
      = if c.vap.flags &&& (IMMUTABLE ||| APPEND) ≠ 0 then .error (c.env.updateErr 0, flagged c f)
        else .ok (flagged c f) := by
  unfold setFlags
  rw [if_pos h.active, if_neg (not_not.mpr h.known), h.writable, if_neg Bool.false_ne_true,
    if_neg (not_not.mpr h.authorized), h.allowed, if_neg Bool.false_ne_true]
  rfl

/-- A call that does not set the flags goes on with the file as it was, or returns. -/
theorem setFlags_not (hsettable : unsettable c.vap = false) (h : ¬ SetsFlags c f) :
    (∃ err, setFlags c.env c.cred c.vap f = .error (err, f)) ∨ setFlags c.env c.cred c.vap f = .ok f := by
  unfold setFlags
  by_cases hactive : c.vap.active.flags = true
  · rw [if_pos hactive]
    left
    split
    case isTrue => exact ⟨_, rfl⟩
    case isFalse hknown =>
      split
      case isTrue => exact ⟨_, rfl⟩
      case isFalse hwritable =>
        split
        case isTrue => exact ⟨_, rfl⟩
        case isFalse hauth =>
          split
          case isTrue => exact ⟨_, rfl⟩
          case isFalse hallowed =>
            exact absurd ⟨hsettable, hactive, not_not.mp hknown, Bool.eq_false_iff.mpr hwritable,
              not_not.mp hauth, Bool.eq_false_iff.mpr hallowed⟩ h
  · rw [if_neg hactive]
    exact .inr rfl

/-! ### A call -/

/-- The stages after the one of the flags, with the mode. -/
theorem run_flags_of {x : Stage} {fl : Flags} (hsettable : checkSettable c.vap f = .ok f)
    (hx : setFlags c.env c.cred c.vap f = x) (hfl : (file x).flags = fl) : (c.run f).flags = fl := by
  have hstages : (file (stages c.env c.cred c.vap f)).flags = fl := by
    unfold stages
    rw [hsettable]
    show (file (setFlags c.env c.cred c.vap f >>= _)).flags = fl
    refine file_bind_flags (hx ▸ hfl) fun f₁ h₁ => ?_
    refine file_bind_flags ((checkImmutable_flags f₁).trans h₁) fun f₂ h₂ => ?_
    refine file_bind_flags ((setOwner_flags _ _ _ f₂).trans h₂) fun f₃ h₃ => ?_
    exact file_bind_flags ((setSize_flags _ _ f₃).trans h₃) fun f₄ h₄ => (setTimes_flags _ _ f₄).trans h₄
  unfold Call.run ufsSetattr
  cases hend : stages c.env c.cred c.vap f with
  | error r =>
      rw [hend] at hstages
      exact hstages
  | ok f' =>
      rw [hend] at hstages
      exact (setMode_flags _ _ _ f').trans hstages

theorem checkSettable_ok (h : unsettable c.vap = false) : checkSettable c.vap f = .ok f := by
  unfold checkSettable
  rw [h, if_neg Bool.false_ne_true]

theorem run_unsettable (h : unsettable c.vap = true) : c.run f = f := by
  unfold Call.run ufsSetattr stages checkSettable
  rw [h, if_pos rfl]
  rfl

/-- The flags are those of the call when it sets them. -/
theorem run_flags_sets (h : SetsFlags c f) : (c.run f).flags = c.vap.flags := by
  refine run_flags_of (checkSettable_ok h.settable) (setFlags_sets h) ?_
  split
  all_goals rfl

theorem run_flags_not (h : ¬ SetsFlags c f) : (c.run f).flags = f.flags := by
  cases hsettable : unsettable c.vap with
  | true => rw [run_unsettable hsettable]
  | false =>
      rcases setFlags_not hsettable h with ⟨err, heq⟩ | heq
      · exact run_flags_of (checkSettable_ok hsettable) heq rfl
      · exact run_flags_of (checkSettable_ok hsettable) heq rfl

/-- A system flag stops the call after the flags. -/
theorem Locked.immutable (h : Locked f) : f.flags &&& (IMMUTABLE ||| APPEND) ≠ 0 := by
  intro h0
  refine h ?_
  have hsub : SF_IMMUTABLE ||| SF_APPEND = (IMMUTABLE ||| APPEND) &&& (SF_IMMUTABLE ||| SF_APPEND) := by decide
  rw [hsub, ← BitVec.and_assoc, h0]
  exact BitVec.zero_and

/-- On a file that the system flags lock, a call that does not set the flags does nothing. -/
theorem run_locked_not (hlocked : Locked f) (h : ¬ SetsFlags c f) : c.run f = f := by
  cases hsettable : unsettable c.vap with
  | true => exact run_unsettable hsettable
  | false =>
      have himm : checkImmutable f = .error (EPERM, f) := if_pos hlocked.immutable
      unfold Call.run ufsSetattr stages
      rw [checkSettable_ok hsettable]
      rcases setFlags_not hsettable h with ⟨err, heq⟩ | heq
      · simp only [bind, Except.bind, heq]
      · simp only [bind, Except.bind, heq, himm]

/-- The call returns where it has set one of these flags. -/
theorem run_locked_sets (hlocked : Locked f) (h : SetsFlags c f) (hsame : c.vap.flags = f.flags) :
    c.run f = flagged c f := by
  have heq := setFlags_sets h
  rw [if_pos (hsame ▸ hlocked.immutable)] at heq
  unfold Call.run ufsSetattr stages
  rw [checkSettable_ok h.settable]
  simp only [bind, Except.bind, heq]

/-- A bitwise difference with nothing in a mask. -/
theorem and_eq_of_xor {x y m : Flags} (h : (x ^^^ y) &&& m = 0) : x &&& m = y &&& m := by
  have hdistrib : (x ^^^ y) &&& m = x &&& m ^^^ y &&& m := by
    ext i hi
    simp [Bool.and_xor_distrib_right]
  rw [← BitVec.xor_eq_zero_iff, ← hdistrib]
  exact h

/-- Whoever else sets the flags finds no system flag set, and changes none. -/
theorem SetsFlags.other (h : SetsFlags c f) (hother : owns c.cred f = false) :
    c.vap.flags &&& SF_SETTABLE = f.flags &&& SF_SETTABLE ∧ ¬ Locked f := by
  have hallowed := h.allowed
  unfold flagsDenied at hallowed
  rw [hother, if_neg Bool.false_ne_true, Bool.or_eq_false_iff] at hallowed
  obtain ⟨hnone, hsame⟩ := hallowed
  refine ⟨and_eq_of_xor (not_not.mp (of_decide_eq_false hsame)), fun hlocked => hlocked ?_⟩
  have hzero := not_not.mp (of_decide_eq_false hnone)
  have hsub : SF_IMMUTABLE ||| SF_APPEND
      = (SF_NOUNLINK ||| SF_IMMUTABLE ||| SF_APPEND) &&& (SF_IMMUTABLE ||| SF_APPEND) := by decide
  rw [hsub, ← BitVec.and_assoc, hzero]
  exact BitVec.zero_and

theorem same_self (f : File) : Same f f := ⟨rfl, rfl, rfl, rfl, rfl, rfl⟩

/-- One call keeps what it should exactly when it is harmless. -/
theorem kept_iff (c : Call) (f : File) : Kept f (c.run f) ↔ Harmless f c := by
  by_cases hsets : SetsFlags c f
  · cases howns : owns c.cred f with
    | false =>
        -- the others change user flags at most, and only on a file that is not locked
        obtain ⟨hsystem, hfree⟩ := hsets.other howns
        refine iff_of_true ⟨?_, fun hlocked => absurd hlocked hfree⟩ fun _ hyes => absurd hyes ?_
        · rw [run_flags_sets hsets, hsystem]
        · rw [howns]
          exact Bool.false_ne_true
    | true =>
        constructor
        · -- whoever passes for privileged may set any flag, so the request itself has to be harmless
          intro hkept _ _
          have hsystem := hkept.system
          rw [run_flags_sets hsets] at hsystem
          refine ⟨hsystem, fun hlocked => ?_⟩
          have hsame := hkept.locked hlocked
          have hflags : c.vap.flags = f.flags := (run_flags_sets hsets).symm.trans hsame.flags
          have htimes := hsame.times
          rw [run_locked_sets hlocked hsets hflags] at htimes
          exact ⟨hflags, htimes⟩
        · intro hharmless
          obtain ⟨hsystem, hrest⟩ := hharmless hsets howns
          refine ⟨by rw [run_flags_sets hsets, hsystem], fun hlocked => ?_⟩
          obtain ⟨hflags, htimes⟩ := hrest hlocked
          rw [run_locked_sets hlocked hsets hflags]
          exact ⟨rfl, rfl, rfl, rfl, htimes, hflags⟩
  · refine iff_of_true ⟨?_, fun hlocked => ?_⟩ fun hyes => absurd hyes hsets
    · rw [run_flags_not hsets]
    · rw [run_locked_not hlocked hsets]
      exact same_self f

/-! ### Sequences of calls -/

/-- The system flags that lock a file are among those that are kept. -/
theorem Kept.still_locked {f f' : File} (h : Kept f f') (hlocked : Locked f) : Locked f' := by
  intro h0
  refine hlocked ?_
  have hsub : SF_IMMUTABLE ||| SF_APPEND = SF_SETTABLE &&& (SF_IMMUTABLE ||| SF_APPEND) := by decide
  rw [hsub, ← BitVec.and_assoc, ← h.system, BitVec.and_assoc, ← hsub]
  exact h0

theorem Kept.trans {f f' f'' : File} (h : Kept f f') (h' : Kept f' f'') : Kept f f'' :=
  ⟨h'.system.trans h.system, fun hlocked => (h.locked hlocked).trans (h'.locked (h.still_locked hlocked))⟩

/-- For every file and every sequence of calls, whoever the callers are: each call keeps the
system flags and what they protect exactly when each call is harmless in the state it comes
to, and then the whole sequence keeps them. -/
theorem flags_protected (f : File) (calls : List Call) :
    (Each (fun f c => c.run f) (fun f c => Kept f (c.run f)) calls f
        ↔ Each (fun f c => c.run f) Harmless calls f)
      ∧ (Each (fun f c => c.run f) Harmless calls f → Kept f (calls.foldl (fun f c => c.run f) f)) := by
  refine ⟨each_congr (fun f c => kept_iff c f) calls, fun heach => ?_⟩
  refine invariant_of_each (Kept f) (fun {f' c} hkept hharmless => ?_) ⟨rfl, fun _ => same_self f⟩ heach
  exact hkept.trans ((kept_iff c f').mpr hharmless)

/-! #### The owner of a file -/

/-- A plain file of user 501. -/
def plain (flags : Flags) : File where
  node :=
    { vtype := .vreg, mode := 0x81a4#16, uid := 501, gid := 20, size := 0, append := false
      diMode := 0x81a4#16, diUid := 501, diGid := 20, diExtsize := 0 }
  flags := flags
  marks := ⟨false, false, false⟩
  times := ⟨(1, 0), (1, 0), (1, 0), (1, 0)⟩
  ufs2 := true

/-- `chflags` by user 501, in group 20. -/
def chflags (flags : Flags) : Call where
  env :=
    { rdonly := false, fsRonly := false, authErr := fun _ => 0, updateErr := fun _ => 0
      now := fun _ => (2, 0), truncate := ⟨0, 0, ⟨false, false, false⟩, ⟨(1, 0), (1, 0), (1, 0), (1, 0)⟩⟩ }
  cred := ⟨501, fun gid => gid == 20⟩
  vap :=
    { typeNone := true, nlink := BitVec.allOnes 64, fsid := BitVec.allOnes 32, fileid := BitVec.allOnes 64
      iosize := BitVec.allOnes 32, rdev := BitVec.allOnes 32, gen := BitVec.allOnes 32
      dataSize := BitVec.allOnes 64, flags := flags, uid := vnoval, gid := vnoval, mode := BitVec.allOnes 16
      accessTime := (-1, 0), modifyTime := (-1, 0), createTime := (-1, 0)
      active := ⟨true, false, false, false, false, false, false⟩ }

/-- The owner makes the file immutable for the system, takes that back, and stamps a file
that is immutable. -/
theorem flags_not_protected :
    (chflags 0).cred.issuser = false
      ∧ ((chflags SF_IMMUTABLE).run (plain 0)).flags = SF_IMMUTABLE
      ∧ ((chflags 0).run (plain SF_IMMUTABLE)).flags = 0
      ∧ ((chflags SF_IMMUTABLE).run (plain SF_IMMUTABLE)).times.ctime = (2, 0)
      ∧ ¬ ∀ (f : File) (calls : List Call), (∀ c ∈ calls, c.cred.issuser = false) →
        Kept f (calls.foldl (fun f c => c.run f) f) := by
  refine ⟨by decide, by decide, by decide, by decide, fun hall => ?_⟩
  have hkept := hall (plain SF_IMMUTABLE) [chflags 0] (by decide)
  exact absurd hkept.system (by decide)

end UfsX.Proofs.Setattr
