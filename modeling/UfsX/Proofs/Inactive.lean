import UfsX.Ufs.Inactive

/-!
# `UfsX.Proofs.Inactive`: whether a deleted file is freed

With `vn_start_secondary_write` as it is in the source, `ufs_inactive` gets no further than
the label `loop` for a file without links: the null pointer given to `vfs_ref` is the end
(`deletion_lost`).
-/

set_option autoImplicit false

namespace UfsX.Proofs.Inactive

open UfsX.Lib UfsX.Ufs.Inactive
open UfsX.Compat (Bsdmount)
open Relation (ReflTransGen)

variable {τ : Type}

/-! ### What is asked for -/

/-- A file whose links are gone, with no call of `ufs_inactive` so far. -/
structure Dead (s : State τ) : Prop where
  nlink : s.ip.nlink ≤ 0
  effnlink : s.ip.effnlink ≤ 0
  mode : s.ip.mode ≠ 0
  rdonly : s.rdonly = false
  needinact : s.ip.needinact = false
  idle : s.pc = .idle
  vfrees : s.vfrees = []
  ran : s.ran = false

/-- In state `s` of a run from `s₀`. -/
structure DeletedOnce (s₀ s : State τ) : Prop where
  once : s.vfrees.length ≤ 1
  /-- As soon as a call that ran on a file system that was not suspended is over. -/
  done : s.ran = true → s.pc = .idle ∨ s.pc = .panicked → s.vfrees.length = 1 ∧ s.ip.size + s.ip.extsize = 0
  kept : s.ran = false → s.ip.size = s₀.ip.size ∧ s.ip.mode = s₀.ip.mode ∧ s.ip.blocks = s₀.ip.blocks
    ∧ s.ip.nlink = s₀.ip.nlink ∧ s.ip.effnlink = s₀.ip.effnlink

/-! ### The source -/

/-- `vfs_ref` is called with the local `mp`, which is null. -/
theorem vnStart_eq (m : Bsdmount τ) (nowait : Bool) (err : Int) : vnStart m nowait err = .crash := rfl

/-- No call comes back. -/
structure Stalled (s₀ s : State τ) : Prop where
  ip : s.ip = s₀.ip
  rdonly : s.rdonly = false
  vfrees : s.vfrees = []
  pc : s.pc = .panicked ∨ (s.pc = .idle ∨ s.pc = .loop) ∧ s.ran = false

theorem stalled_next {s₀ s s' : State τ} (h₀ : Dead s₀) (h : Stalled s₀ s) (hs : Next vnStart s s') :
    Stalled s₀ s' := by
  cases hs with
  | writeSuspend t _ => exact ⟨h.ip, h.rdonly, h.vfrees, h.pc⟩
  | writeResume _ => exact ⟨h.ip, h.rdonly, h.vfrees, h.pc⟩
  | doom => exact ⟨h.ip, h.rdonly, h.vfrees, h.pc⟩
  | call hidle =>
      have hran : s.ran = false := by
        rcases h.pc with hpc | ⟨-, hran⟩
        · rw [hidle] at hpc
          cases hpc
        · exact hran
      have hmode : s.ip.mode ≠ 0 := h.ip ▸ h₀.mode
      have hnlink : s.ip.nlink ≤ 0 ∧ ¬ s.rdonly := ⟨h.ip ▸ h₀.nlink, by rw [h.rdonly]; exact Bool.false_ne_true⟩
      have hcall : s.call = { s with mpNull := true, pc := .loop } := by
        unfold State.call
        rw [if_neg hmode, if_pos hnlink]
      rw [hcall]
      exact ⟨h.ip, h.rdonly, h.vfrees, .inr ⟨.inr rfl, hran⟩⟩
  | step env hstep =>
      rcases h.pc with hpc | ⟨hpc | hpc, hran⟩
      · simp [State.step, hpc] at hstep
      · simp [State.step, hpc] at hstep
      · simp only [State.step, hpc, State.startWrite, vnStart_eq, Option.some.injEq] at hstep
        subst hstep
        exact ⟨h.ip, h.rdonly, h.vfrees, .inl rfl⟩

theorem stalled_run {s₀ s : State τ} (h₀ : Dead s₀) (hrun : ReflTransGen (Next vnStart) s₀ s) : Stalled s₀ s :=
  invariant_of_run (Stalled s₀) (fun h hs => stalled_next h₀ h hs)
    ⟨rfl, h₀.rdonly, h₀.vfrees, .inr ⟨.inl h₀.idle, h₀.ran⟩⟩ hrun

/-- For every file whose links are gone and every run of calls, suspensions and resumptions:
the file is never truncated and never freed, so that what is asked for holds exactly until a
call runs on a file system that is not suspended. And every call ends in a panic. -/
theorem deletion_lost {s₀ s : State τ} (h₀ : Dead s₀) (hrun : ReflTransGen (Next vnStart) s₀ s) :
    s.vfrees = [] ∧ s.ip = s₀.ip ∧ (DeletedOnce s₀ s ↔ s.ran = false)
      ∧ (s.pc = .idle → s.call.pc = .loop)
      ∧ (s.pc = .loop → ∀ env, ∃ s', s.step vnStart env = some s' ∧ s'.pc = .panicked
        ∧ (suspended s.mount = false → s'.ran = true)) := by
  have hst := stalled_run h₀ hrun
  refine ⟨hst.vfrees, hst.ip, ⟨fun hone => ?_, fun hran => ?_⟩, fun hidle => ?_, fun hloop env => ?_⟩
  · by_cases hran : s.ran = true
    · -- a call that ran is over, and nothing has been freed
      have hpc : s.pc = .panicked := by
        rcases hst.pc with hpc | ⟨-, hno⟩
        · exact hpc
        · rw [hran] at hno
          cases hno
      have hlen := (hone.done hran (.inr hpc)).1
      rw [hst.vfrees] at hlen
      cases hlen
    · exact Bool.eq_false_iff.mpr hran
  · -- nothing is asked for as long as no call ran
    refine ⟨by rw [hst.vfrees]; exact Nat.zero_le 1, fun hno => ?_, fun _ => by simp [hst.ip]⟩
    rw [hran] at hno
    cases hno
  · -- the links are still gone, so a call begins again
    have hmode : s.ip.mode ≠ 0 := hst.ip ▸ h₀.mode
    have hnlink : s.ip.nlink ≤ 0 ∧ ¬ s.rdonly := ⟨hst.ip ▸ h₀.nlink, by rw [hst.rdonly]; exact Bool.false_ne_true⟩
    unfold State.call
    rw [if_neg hmode, if_pos hnlink]
  · refine ⟨{ s with ran := s.ran || !suspended s.mount, pc := .panicked }, ?_, rfl, fun hsusp => ?_⟩
    · simp only [State.step, hloop, State.startWrite, vnStart_eq]
    · show (s.ran || !suspended s.mount) = true
      rw [hsusp]
      exact Bool.or_true _

/-! ### A run -/

/-- A file of 100 bytes without links, on a file system that nobody has suspended. -/
def deleted : State Bool :=
  ⟨⟨false, false, false, 1, none, 0, 0, 0, 0⟩, false, false, false,
    ⟨4, 0o100644, 0, 0, 100, 0, 8, false, true, false⟩, .idle, true, [], false, false⟩

theorem dead_deleted : Dead deleted := ⟨by decide, by decide, by decide, rfl, rfl, rfl, rfl, rfl⟩

theorem run_deleted : ReflTransGen (Next vnStart) deleted { deleted.call with ran := true, pc := .panicked } :=
  (ReflTransGen.single (.call rfl)).tail (.step ⟨0, 0⟩ rfl)

theorem deletion_lost_deleted :
    Dead deleted ∧ ReflTransGen (Next vnStart) deleted { deleted.call with ran := true, pc := .panicked }
      ∧ ¬ DeletedOnce deleted { deleted.call with ran := true, pc := .panicked } := by
  refine ⟨dead_deleted, run_deleted, fun hno => ?_⟩
  have hran := (deletion_lost dead_deleted run_deleted).2.2.1.mp hno
  cases hran

/-- The only call of `ufs_inactive` panics, and the file is neither truncated nor freed. -/
theorem not_deletedOnce :
    ¬ ∀ s : State Bool, ReflTransGen (Next vnStart) deleted s → DeletedOnce deleted s := by
  intro hall
  have hdone := (hall _ run_deleted).done rfl (.inr rfl)
  exact absurd hdone.1 (by decide)

end UfsX.Proofs.Inactive
