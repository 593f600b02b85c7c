import UfsX.Compat.Secondary

/-!
# `UfsX.Proofs.Secondary`: which calls give the interlock back

Each function of `UfsX.Compat.Secondary` is run from a state in which the interlock
and `ffs_susp_lock` are free. The weakest precondition of what it should do is computed
exactly, function by function, and `suspension_balanced_iff` collects them.

`vn_start_secondary_write` uses a null pointer in every call, and so does all that calls
it: `process_deferred_inactive`, and with it `vfs_write_resume` on a suspended mount
unless `VR_NO_SUSPCLR` is given, and `ufs_inactive` for a file that is to be deleted.
-/

set_option autoImplicit false

namespace UfsX.Proofs

open UfsX.Lib UfsX.Lib.Call UfsX.Compat

variable {μ τ : Type} [DecidableEq μ] [DecidableEq τ] {h : Compat.Held}

/-! ### The properties -/

/-- Both locks are free. -/
def Held.Released (h : Compat.Held) : Prop := h.ilock = false ∧ h.suspLock = false

/-- `vn_start_secondary_write`: the interlock is free, the count goes up exactly on
success, and a failure leaves no reference. -/
def SecondaryOk (h : Compat.Held) (r : Int × Option μ) (h' : Compat.Held) : Prop :=
  Held.Released h' ∧ h'.secondaries = (if r.1 = 0 ∧ r.2 ≠ none then h.secondaries + 1 else h.secondaries)
    ∧ (r.1 ≠ 0 → h'.refs = h.refs)

/-- `ufs_inactive` comes to an end and leaves the count alone. -/
def InactiveOk (h : Compat.Held) (c : Call Compat.Held Unit) : Prop :=
  wp c (fun _ h' => h'.secondaries = h.secondaries) h ∧ c h ≠ .stop

/-! ### Locks -/

@[simp] theorem wp_mntIlock {R : Unit → Compat.Held → Prop} :
    wp mntIlock R h ↔ h.ilock = false ∧ R () { h with ilock := true } := by
  simp only [mntIlock, wp_bind, wp_get, wp_ite, wp_crash, wp_modify]
  cases h.ilock <;> simp

@[simp] theorem wp_mntIunlock {R : Unit → Compat.Held → Prop} :
    wp mntIunlock R h ↔ h.ilock = true ∧ R () { h with ilock := false } := by
  simp only [mntIunlock, wp_bind, wp_get, wp_ite, wp_crash, wp_modify]
  cases h.ilock <;> simp

@[simp] theorem wp_suspLockExclusive {R : Unit → Compat.Held → Prop} :
    wp suspLockExclusive R h ↔ h.suspLock = false ∧ R () { h with suspLock := true } := by
  simp only [suspLockExclusive, wp_bind, wp_get, wp_ite, wp_crash, wp_modify]
  cases h.suspLock <;> simp

@[simp] theorem wp_suspUnlockExclusive {R : Unit → Compat.Held → Prop} :
    wp suspUnlockExclusive R h ↔ h.suspLock = true ∧ R () { h with suspLock := false } := by
  simp only [suspUnlockExclusive, wp_bind, wp_get, wp_ite, wp_crash, wp_modify]
  cases h.suspLock <;> simp

/-! ### Secondary writes -/

omit [DecidableEq μ] [DecidableEq τ] in
/-- The call never returns. Only an assertion can stop it before the null pointer. -/
theorem wp_vnStartSecondaryWrite (vp : Option μ) (flags : SecondaryFlags) (wakes : Wakes τ)
    (R : Int × Option μ → Compat.Held → Prop) :
    wp (vnStartSecondaryWrite vp flags wakes) R h ↔ vp ≠ none ∧ flags.mntref = true := by
  cases vp with
  | none => simp [vnStartSecondaryWrite]
  | some vmp => simp [vnStartSecondaryWrite, vfsRef]

omit [DecidableEq μ] [DecidableEq τ] in
theorem wp_processDeferredInactive (mp : μ) (wakes : Wakes τ) (m : Bsdmount τ)
    (R : Unit → Compat.Held → Prop) : wp (processDeferredInactive mp wakes m) R h ↔ False := by
  simp [processDeferredInactive, wp_vnStartSecondaryWrite]

/-! ### Resuming -/

/-- `vfs_write_resume` on a suspended mount is not stopped by its assertion and cleans
up; or it starts a write on a mount that is not suspended. -/
def ResumeBad (t : τ) (flags : ResumeFlags) (env : ResumeEnv τ) : Prop :=
  (env.mount.suspend = true ∧ env.mount.suspOwner = some t ∧ flags.noSuspclr = false)
    ∨ (env.mount.suspend = false ∧ flags.startWrite = true)

omit [DecidableEq μ] in
theorem wp_vfsWriteResume (hfree : Held.Released h) (t : τ) (mp : Option μ) (flags : ResumeFlags)
    (env : ResumeEnv τ) :
    wp (vfsWriteResume t mp flags env) (fun _ => Held.Released) h
      ↔ mp = none ∨ ¬ ResumeBad t flags env := by
  obtain ⟨hi, hs⟩ := hfree
  cases mp with
  | none => simp [vfsWriteResume, Held.Released, hi, hs]
  | some mp =>
      unfold ResumeBad
      cases hsusp : env.mount.suspend <;> cases hw : flags.startWrite <;>
        cases hn : flags.noSuspclr <;>
        simp [vfsWriteResume, vfsOpExit, vfsOpExitLocked, wp_processDeferredInactive, Held.Released,
          hi, hs, hsusp, hw, hn]

/-! ### Suspending -/

omit [DecidableEq μ] in
/-- Without flags, `vfs_write_resume` crashes, stops at its assertion, or finds nothing
to do. -/
theorem wp_vfsWriteResume_plain (hfree : h.ilock = false) (t : τ) (mp : μ) (env : ResumeEnv τ)
    (R : Unit → Compat.Held → Prop) :
    wp (vfsWriteResume t (some mp) ⟨false, false⟩ env) R h
      ↔ ¬ ResumeBad t ⟨false, false⟩ env ∧ (env.mount.suspend = false → R () h) := by
  obtain ⟨ilock, suspLock, refs, secondaries⟩ := h
  obtain rfl : ilock = false := hfree
  unfold ResumeBad
  cases hsusp : env.mount.suspend <;>
    simp [vfsWriteResume, wp_processDeferredInactive, hsusp]

omit [DecidableEq τ] in
/-- The loop goes on with the first mount it finds that is not suspended. -/
theorem wp_suspendWait (hheld : h.ilock = true) (m : Bsdmount τ) (wakes : List (Bsdmount τ))
    (R : Bsdmount τ → Compat.Held → Prop) :
    wp (suspendWait m wakes) R h
      ↔ ∀ m', (m :: wakes).find? (fun m => !m.suspend) = some m' → R m' h := by
  induction wakes generalizing m with
  | nil => cases hm : m.suspend <;> simp [suspendWait, hm]
  | cons m₁ wakes ih =>
      obtain ⟨ilock, suspLock, refs, secondaries⟩ := h
      obtain rfl : ilock = true := hheld
      cases hm : m.suspend with
      | false => simp [suspendWait, hm]
      | true => simp [suspendWait, hm, ih]

/-- The call gets as far as `VFS_SYNC`. -/
def SyncReached (t : τ) (skip : Bool) (env : SuspendEnv τ) : Prop :=
  env.opEnter.opEnter.isSome = true ∧ env.entry.suspOwner ≠ some t
    ∧ (∃ m ∈ env.entry :: env.wakes, m.suspend = false) ∧ ¬ (skip = true ∧ env.forced = true)

/-- `VFS_SYNC` fails, and the suspension is taken back with `vfs_write_resume`. -/
def SuspendBad (t : τ) (skip : Bool) (env : SuspendEnv τ) : Prop :=
  SyncReached t skip env ∧ env.sync ≠ 0 ∧ ResumeBad t ⟨false, false⟩ env.resume

omit [DecidableEq μ] in
/-- `vfs_write_suspend` gives everything back, and `R` decides on its result. It is 0
only after `VFS_SYNC`. -/
theorem wp_vfsWriteSuspend (hfree : h.ilock = false) (t : τ) (mp : μ) (skip : Bool)
    (env : SuspendEnv τ) {R : Int → Compat.Held → Prop} (hR : ∀ e, e ≠ 0 → R e h) :
    wp (vfsWriteSuspend t mp skip env) R h
      ↔ ¬ SuspendBad t skip env ∧ (SyncReached t skip env → env.sync = 0 → R 0 h) := by
  obtain ⟨ilock, suspLock, refs, secondaries⟩ := h
  obtain rfl : ilock = false := hfree
  have hwait : ∀ {P : Prop}, (∀ m', (env.entry :: env.wakes).find? (fun m => !m.suspend) = some m' → P)
      ↔ ((∃ m ∈ env.entry :: env.wakes, m.suspend = false) → P) := by
    intro P
    constructor
    · rintro hall ⟨m, hm, hs⟩
      cases hf : (env.entry :: env.wakes).find? (fun m => !m.suspend) with
      | some m' => exact hall m' hf
      | none =>
          have hno := List.find?_eq_none.mp hf m hm
          simp [hs] at hno
    · intro himp m' hf
      exact himp ⟨m', List.mem_of_find?_eq_some hf, by simpa using List.find?_some hf⟩
  have h16 : R 16 ⟨false, suspLock, refs, secondaries⟩ := hR 16 (by decide)
  have h37 : R EALREADY ⟨false, suspLock, refs, secondaries⟩ := hR EALREADY (by decide)
  simp only [vfsWriteSuspend, vfsOpEnter, vfsOpExitLocked, wp_bind, wp_mntIlock, wp_require,
    wp_mntIunlock, wp_ite, wp_pure, wp_suspendWait, wp_vfsWriteResume_plain, true_and, h16, h37,
    implies_true, hwait]
  unfold SuspendBad SyncReached
  by_cases hsync : env.sync = 0
  · simp only [hsync, ne_eq, not_true_eq_false, false_implies, not_false_eq_true, true_implies,
      false_and, and_false, true_and, and_imp]
  · simp only [hsync, hR env.sync hsync, ne_eq, not_false_eq_true, true_implies, not_true_eq_false,
      false_implies, implies_true, and_true, true_and, not_and, and_imp]

/-- `vn_finished_write` is not stopped by an assertion. -/
def FinishedOk (m : Bsdmount τ) : Prop :=
  (m.vfsOps = 0 → m.suspend = false) ∧ (m.vfsOps ≠ 0 → 0 ≤ m.writeopcount - 1)

/-- One turn of the loop leads to the next: `vfs_write_suspend` has returned 0, but the
mount is not marked as suspended. -/
def UmntAgain (t : τ) (env : UmntEnv τ) : Prop :=
  SyncReached t false env.suspend ∧ env.suspend.sync = 0 ∧ env.check.suspended = false
    ∧ env.start.suspend = false

/-- No turn of the loop that comes to be made takes a suspension back. -/
def UmntOk (t : τ) : List (UmntEnv τ) → Prop
  | [] => True
  | env :: rest => FinishedOk env.finished →
      ¬ SuspendBad t false env.suspend ∧ (UmntAgain t env → UmntOk t rest)

omit [DecidableEq μ] in
theorem wp_umntLoop (hfree : Held.Released h) (t : τ) (mp : μ) (envs : List (UmntEnv τ)) :
    wp (umntLoop t mp envs) (fun _ => Held.Released) h ↔ UmntOk t envs := by
  obtain ⟨ilock, suspLock, refs, secondaries⟩ := h
  obtain ⟨rfl, rfl⟩ : ilock = false ∧ suspLock = false := hfree
  induction envs with
  | nil => simp [umntLoop, UmntOk]
  | cons env rest ih =>
      have hfinished : ∀ {R : Unit → Compat.Held → Prop},
          wp (vnFinishedWrite env.finished) R ⟨false, false, refs, secondaries⟩
            ↔ (FinishedOk env.finished → R () ⟨false, false, refs, secondaries⟩) := by
        intro R
        unfold FinishedOk
        by_cases h0 : env.finished.vfsOps = 0 <;> simp [vnFinishedWrite, h0]
      -- the result 0 leads to the check, every other one out of the loop
      have hcheck : ∀ e, e ≠ 0 → wp (umntCheck env (umntLoop t mp rest) e) (fun _ => Held.Released)
          ⟨false, false, refs, secondaries⟩ := by
        intro e he
        simp [umntCheck, he, vnStartWrite, Held.Released]
      have hzero : wp (umntCheck env (umntLoop t mp rest) 0) (fun _ => Held.Released)
          ⟨false, false, refs, secondaries⟩
            ↔ (env.check.suspended = false → env.start.suspend = false → UmntOk t rest) := by
        cases hc : env.check.suspended <;> simp [umntCheck, hc, vnStartWrite, Held.Released, ih]
      simp only [umntLoop, wp_bind, hfinished, UmntOk, UmntAgain,
        wp_vfsWriteSuspend rfl t mp false env.suspend hcheck, hzero, and_imp]

/-! ### `ffs_susp_ioctl` -/

/-- `FSCTL_UFSSUSPEND` on this mount gets to `vfs_write_suspend`. -/
def IoctlSuspends (env : IoctlEnv μ τ) : Prop :=
  env.busy = 0 ∧ env.writeSuspended = false ∧ env.contextOk = true ∧ env.authorize = 0

/-- `vfs_set_susupendowner` is not stopped by an assertion. -/
def OwnerSet (t : τ) (env : IoctlEnv μ τ) : Prop :=
  env.ownerEnter.opEnter.isSome = true
    ∧ (env.owner.suspOwner = some t → env.owner.opExit.isSome = true)
    ∧ (env.owner.suspOwner ≠ some t → env.ownerExit.opExit.isSome = true)

/-- The ioctl gives `ffs_susp_lock` back, or an assertion stops it. -/
def IoctlOk (t : τ) (env : IoctlEnv μ τ) : IoctlCommand → Prop
  | .ufsSuspend => (env.getvfs = none ∨ env.getvfs = some env.mp0)
      ∧ (IoctlSuspends env → ¬ SuspendBad t true env.suspend)
  | .ufsResume => env.writeSuspended = true ∧ (env.dtor.suspend = true → env.reload = 0
      ∧ (OwnerSet t env → env.resume.mount.suspend = true ∧ env.resume.mount.suspOwner ≠ some t))

omit [DecidableEq μ] in
theorem wp_ffsSuspSuspend (hfree : h.ilock = false) (t : τ) (mp : μ) (env : IoctlEnv μ τ)
    {R : Int → Compat.Held → Prop} (hR : ∀ e, R e h) :
    wp (ffsSuspSuspend t mp env) R h
      ↔ (env.writeSuspended = false → env.contextOk = true → env.authorize = 0 →
        ¬ SuspendBad t true env.suspend) := by
  have hsusp : wp (vfsWriteSuspend t mp true env.suspend) R h ↔ ¬ SuspendBad t true env.suspend := by
    rw [wp_vfsWriteSuspend hfree t mp true env.suspend fun e _ => hR e]
    exact and_iff_left fun _ _ => hR 0
  cases hw : env.writeSuspended with
  | true => simp [ffsSuspSuspend, hw, hR]
  | false =>
      by_cases ha : env.authorize = 0 <;> simp [ffsSuspSuspend, hw, ha, hR, hsusp]

omit [DecidableEq μ] in
theorem wp_vfsSetSuspendOwner (hfree : h.ilock = false) (t : τ) (env : IoctlEnv μ τ)
    {R : Unit → Compat.Held → Prop} :
    wp (vfsSetSuspendOwner t env) R h ↔ (OwnerSet t env → R () h) := by
  obtain ⟨ilock, suspLock, refs, secondaries⟩ := h
  obtain rfl : ilock = false := hfree
  unfold OwnerSet
  by_cases ho : env.owner.suspOwner = some t <;>
    simp [vfsSetSuspendOwner, vfsOpEnter, vfsOpExit, vfsOpExitLocked, ho]

theorem wp_ffsSuspIoctl (hfree : Held.Released h) (t : τ) (command : IoctlCommand)
    (env : IoctlEnv μ τ) :
    wp (ffsSuspIoctl t command env) (fun _ => Held.Released) h ↔ IoctlOk t env command := by
  obtain ⟨ilock, suspLock, refs, secondaries⟩ := h
  obtain ⟨rfl, rfl⟩ : ilock = false ∧ suspLock = false := hfree
  cases command with
  | ufsSuspend =>
      by_cases hmp : env.getvfs = none ∨ env.getvfs = some env.mp0
      · have hthis : ¬ (env.getvfs ≠ none ∧ env.getvfs ≠ some env.mp0) := by tauto
        by_cases hb : env.busy = 0
        · simp only [ffsSuspIoctl, IoctlOk, IoctlSuspends, hmp, hthis, vfsRef, vfsRel, hb, wp_bind,
            wp_suspLockExclusive, wp_ite, wp_mntIlock, wp_modify, wp_mntIunlock, true_and, ne_eq,
            not_true_eq_false, false_implies, not_false_eq_true, true_implies, Int.add_sub_cancel,
            and_imp]
          exact wp_ffsSuspSuspend rfl t env.mp0 env fun e => by simp [Held.Released]
        · simp [ffsSuspIoctl, IoctlOk, IoctlSuspends, hmp, hthis, vfsRef, vfsRel, hb, Held.Released]
      · have hother : env.getvfs ≠ none ∧ env.getvfs ≠ some env.mp0 := by tauto
        simp [ffsSuspIoctl, IoctlOk, hother, Held.Released]
  | ufsResume =>
      -- no way out gives the lock back
      have hresume : wp (vfsWriteResume t (some env.mp0) ⟨false, false⟩ env.resume)
          (fun _ => wp (pure 0 : Call Compat.Held Int) fun _ => Held.Released) ⟨false, true, refs, secondaries⟩
            ↔ env.resume.mount.suspend = true ∧ env.resume.mount.suspOwner ≠ some t := by
        rw [wp_vfsWriteResume_plain rfl]
        cases hs : env.resume.mount.suspend <;> simp [ResumeBad, Held.Released, hs]
      simp only [ffsSuspIoctl, ffsSuspDtor, IoctlOk, wp_bind, wp_suspLockExclusive, wp_ite,
        wp_require, wp_vfsSetSuspendOwner, hresume]
      cases hw : env.writeSuspended with
      | false => simp [Held.Released]
      | true =>
          by_cases hr : env.reload = 0
          · simp [hr]
          · simp [hr, Held.Released]

/-! ### `ufs_inactive` -/

/-- `ufs_inactive` starts a secondary write: for a file that is to be deleted, or for
one of which only the access time is to be written. -/
def StartsSecondary (env : InactiveEnv μ τ) : Prop :=
  env.iMode ≠ 0 ∧ ((env.iNlink ≤ 0 ∧ env.rdonly = false) ∨ (env.inAccess = true ∧ env.inDirty = false))

omit [DecidableEq μ] [DecidableEq τ] in
theorem wp_inactiveLoop (vmp : μ) (doomed : Bool) (tr : InactiveTry τ) (rest : List (InactiveTry τ))
    (R : Option (Option μ) → Compat.Held → Prop) : wp (inactiveLoop vmp doomed tr rest) R h ↔ False := by
  cases rest <;> simp [inactiveLoop, wp_vnStartSecondaryWrite]

omit [DecidableEq μ] [DecidableEq τ] in
theorem inactiveOk_iff (env : InactiveEnv μ τ) :
    InactiveOk h (ufsInactive env) ↔ ¬ StartsSecondary env := by
  have hret : ∀ {c : Call Compat.Held Unit}, c = pure () → InactiveOk h c := by
    rintro c rfl
    exact ⟨rfl, nofun⟩
  by_cases hm : env.iMode = 0
  · exact iff_of_true (hret (by simp [ufsInactive, hm])) fun hno => hno.1 hm
  by_cases hd : env.iNlink ≤ 0 ∧ env.rdonly = false
  · refine iff_of_false (fun hok => ?_) fun hno => hno ⟨hm, Or.inl hd⟩
    have hwp := hok.1
    simp [ufsInactive, hm, hd, wp_inactiveLoop] at hwp
  have hupdate : ufsInactive env = inactiveUpdate env none := by
    unfold ufsInactive
    rw [if_neg hm, if_neg (by simpa using hd)]
  rw [hupdate]
  by_cases ha : env.inAccess = true ∧ env.inDirty = false
  · refine iff_of_false (fun hok => ?_) fun hno => hno ⟨hm, Or.inr ha⟩
    have hwp := hok.1
    simp [inactiveUpdate, ha, wp_vnStartSecondaryWrite] at hwp
  · refine iff_of_true (hret ?_) fun hno => (hno.2.resolve_left hd) |> ha
    unfold inactiveUpdate
    rw [if_neg (by simpa using ha)]

/-! ### All together -/

/-- Started with both locks free, the calls do what they should exactly in these cases.

* `vn_start_secondary_write`: only where its assertion stops it.
* `vfs_write_resume`: without a mount, or unless it cleans up after a suspension, or
  starts a write on a mount that is not suspended.
* `vfs_write_suspend_umnt`: unless a suspension is taken back.
* `ffs_susp_ioctl`: it suspends the mount of the vnode, and the suspension is not taken
  back; `FSCTL_UFSRESUME` only where an assertion stops it.
* `ufs_inactive`: unless it starts a secondary write. -/
theorem suspension_balanced_iff (h : Compat.Held) (hfree : Held.Released h) (t : τ) (mp : Option μ) :
    (∀ (vp : Option μ) (flags : SecondaryFlags) (wakes : Wakes τ),
      wp (vnStartSecondaryWrite vp flags wakes) (SecondaryOk h) h ↔ vp ≠ none ∧ flags.mntref = true)
    ∧ (∀ (flags : ResumeFlags) (env : ResumeEnv τ),
      wp (vfsWriteResume t mp flags env) (fun _ => Held.Released) h
        ↔ mp = none ∨ ¬ ResumeBad t flags env)
    ∧ (∀ (owner : Option τ) (envs : List (UmntEnv τ)),
      wp (vfsWriteSuspendUmnt t mp owner envs) (fun _ => Held.Released) h
        ↔ mp = none ∨ owner = some t ∨ UmntOk t envs)
    ∧ (∀ (command : IoctlCommand) (env : IoctlEnv μ τ),
      wp (ffsSuspIoctl t command env) (fun _ => Held.Released) h ↔ IoctlOk t env command)
    ∧ ∀ env : InactiveEnv μ τ, InactiveOk h (ufsInactive env) ↔ ¬ StartsSecondary env := by
  refine ⟨fun vp flags wakes => wp_vnStartSecondaryWrite vp flags wakes _,
    wp_vfsWriteResume hfree t mp, fun owner envs => ?_, wp_ffsSuspIoctl hfree t, inactiveOk_iff⟩
  cases mp with
  | none => exact iff_of_true (by simpa [vfsWriteSuspendUmnt] using hfree) (Or.inl rfl)
  | some mp =>
      by_cases ho : owner = some t
      · exact iff_of_true (by simp [vfsWriteSuspendUmnt, ho]) (Or.inr (Or.inl ho))
      · simp [vfsWriteSuspendUmnt, ho, wp_umntLoop hfree]

/-- A mount on which nothing happens. -/
def quietMount : Bsdmount Nat := ⟨false, false, false, 1, none, 1, 0, 0, 0⟩

/-- A file without links. -/
def deletedFile : InactiveEnv Nat Nat where
  vmp := 0
  iMode := 0x8000
  iNlink := 0
  rdonly := false
  doomed := false
  first := ⟨[(quietMount, 0)], [], false⟩
  tries := []
  inAccess := false
  inDirty := false
  accessWakes := []

/-- An ioctl on a file system that is not suspended. -/
def quietIoctl : IoctlEnv Nat Nat where
  mp0 := 0
  getvfs := none
  busy := 0
  writeSuspended := false
  contextOk := true
  authorize := 0
  suspend := ⟨quietMount, quietMount, [], false, 0, ⟨quietMount, [], quietMount, quietMount⟩⟩
  dtor := quietMount
  reload := 0
  ownerEnter := quietMount
  owner := quietMount
  ownerExit := quietMount
  resume := ⟨quietMount, [], quietMount, quietMount⟩

/-- The locks are free at the start, and free again after a resume without flags, after a
suspension that succeeds, and after `FSCTL_UFSSUSPEND`; the last release of a file that has
a link leaves the count. -/
theorem suspension_balanced_quiet :
    wp (vfsWriteResume 7 (some 0) ⟨false, false⟩ ⟨quietMount, [], quietMount, quietMount⟩)
        (fun _ => Held.Released) ⟨false, false, 0, 0⟩
      ∧ wp (vfsWriteSuspendUmnt 7 (some 0) none [⟨quietMount, quietIoctl.suspend, quietMount, quietMount⟩])
        (fun _ => Held.Released) ⟨false, false, 0, 0⟩
      ∧ wp (ffsSuspIoctl 7 .ufsSuspend quietIoctl) (fun _ => Held.Released) ⟨false, false, 0, 0⟩
      ∧ InactiveOk ⟨false, false, 0, 0⟩ (ufsInactive { deletedFile with iNlink := 1 }) := by
  obtain ⟨-, hresume, humnt, hioctl, hinactive⟩ :=
    suspension_balanced_iff (μ := Nat) ⟨false, false, 0, 0⟩ ⟨rfl, rfl⟩ 7 (some 0)
  refine ⟨(hresume _ _).mpr (.inr ?_), (humnt none _).mpr (.inr (.inr ?_)), (hioctl _ _).mpr ?_, (hinactive _).mpr ?_⟩
  · simp [ResumeBad, quietMount]
  · -- `VFS_SYNC` does not fail
    exact fun _ => ⟨fun hbad => hbad.2.1 rfl, fun _ => trivial⟩
  · exact ⟨.inl rfl, fun _ hbad => hbad.2.1 rfl⟩
  · simp [StartsSecondary, deletedFile]

/-- On a mount on which nothing happens: `vn_start_secondary_write` crashes, and with it
the last release of a file without links; `vfs_write_resume` with `VR_START_WRITE` keeps
the interlock; and `FSCTL_UFSRESUME` keeps `ffs_susp_lock`. -/
theorem suspension_unbalanced :
    vnStartSecondaryWrite (some 0) ⟨true, false⟩ [(quietMount, 0)] ⟨false, false, 0, 0⟩ = .crash
      ∧ ufsInactive deletedFile ⟨false, false, 0, 0⟩ = .crash
      ∧ vfsWriteResume 7 (some 0) ⟨true, false⟩ ⟨quietMount, [], quietMount, quietMount⟩
        ⟨false, false, 0, 0⟩ = .ret () ⟨true, false, 1, 0⟩
      ∧ ffsSuspIoctl 7 .ufsResume quietIoctl ⟨false, false, 0, 0⟩ = .ret 2 ⟨false, true, 0, 0⟩ :=
  ⟨rfl, rfl, rfl, rfl⟩

end UfsX.Proofs
