import UfsX.Compat.Suspend
import Mathlib.Data.Fintype.Basic

/-!
# `UfsX.Proofs.Suspend`: a suspension keeps the other writers out

`Counted` says that `mnt_writeopcount` is the number of write operations in
progress, `Excluded` that a suspension shuts out every thread but its owner.

The fast path of `vn_start_write` looks at no flag, and a write through a vnode is
counted nowhere, so neither holds of every run. `Meets` names the steps that do no
harm: `writeSuspend_excludes` proves both for the runs made of such steps. The
invariant `Inv` follows a suspension from the moment `MNTK_SUSPEND` is set. While
its thread sleeps on `mnt_writeopcount` only the owner can start anything, and the
wakeup comes with the count at zero; from then on every operation in progress is
the owner's.
-/

set_option autoImplicit false

namespace UfsX.Proofs

open UfsX.Lib UfsX.Compat
open Relation (ReflTransGen)

namespace Suspend

variable {τ : Type*} [DecidableEq τ]

/-! ### The property -/

/-- `mnt_writeopcount` is the number of write operations in progress. -/
def Counted (s : State τ) : Prop := s.mount.writeopcount = s.inProgress

/-- From the moment `vfs_write_suspend` has returned 0 until the owner calls
`vfs_write_resume`, nobody else has a write operation in progress, and nobody else
was let through by `vn_start_write`. -/
def Excluded (s : State τ) : Prop :=
  (∀ o, s.window = some o → ∀ t ∈ s.ops ++ s.nulls, t = o) ∧ s.intruders = []

/-! ### The condition -/

/-- The thread is not up against a suspension of another thread. -/
def Free (s : State τ) (t : τ) : Prop := s.mount.suspend = true → s.mount.suspOwner = some t

/-- The call of `vn_start_write` comes to `vn_start_write_refed`. -/
def Reaches (s : State τ) : Target → Prop
  | .mount => True
  | .vnode mpp => s.isunmount = true ∧ mpp = true

/-- A thread between setting `MNTK_SUSPEND` and the end of `vfs_write_suspend`,
with the owner of the suspension. The flag says whether the writers are out. -/
def pending : Pc τ → Option (Bool × τ)
  | .suspCount owner => some (false, owner)
  | .suspSync owner => some (true, owner)
  | _ => none

/-- The steps that keep to the suspension.

* `vn_start_write` is called with the mount, or with a vnode while the mount is
  being unmounted and `*mpp` is set, and not against a suspension of another
  thread. `V_XSLEEP` starts nothing: it may come at any time if it comes to
  `vn_start_write_refed`.
* `vfs_write_resume` on a suspended mount comes from the owner, and not before
  `vfs_write_suspend` has returned. On a mount that is not suspended it comes
  without `VR_START_WRITE`. -/
def Meets (s : State τ) : Act τ → Prop
  | .startWrite t target flags =>
      (Reaches s target ∧ (flags.xsleep = true ∨ Free s t)) ∨ (flags.xsleep = true ∧ Free s t)
  | .writeResume t start =>
      Free s t ∧ (s.mount.suspend = true → ∀ u, pending (s.pc u) = none)
        ∧ (start = true → s.mount.suspend = true)
  | _ => True

instance (s : State τ) (t : τ) : Decidable (Free s t) :=
  inferInstanceAs (Decidable (_ → _))

instance (s : State τ) : (target : Target) → Decidable (Reaches s target)
  | .mount => .isTrue trivial
  | .vnode _ => inferInstanceAs (Decidable (_ ∧ _))

instance [Fintype τ] (s : State τ) : (a : Act τ) → Decidable (Meets s a)
  | .startWrite _ _ _ => inferInstanceAs (Decidable ((_ ∧ (_ ∨ _)) ∨ (_ ∧ _)))
  | .writeResume t start => inferInstanceAs (Decidable (Free s t ∧ (_ → ∀ _, _) ∧ (start = true → _)))
  | .finishedWrite _ | .finishedNull _ | .writeSuspend _ _ _ | .run _ _ | .signal _
  | .unmount _ _ => .isTrue trivial

/-! ### The invariant -/

structure Inv (s : State τ) : Prop where
  count : s.mount.writeopcount = s.ops.length
  nulls : s.nulls = []
  intruders : s.intruders = []
  /-- An established suspension. -/
  window : ∀ {o}, s.window = some o → s.mount.suspend = true ∧ s.mount.suspOwner = some o
    ∧ (∀ t ∈ s.ops, t = o) ∧ ∀ u, pending (s.pc u) = none
  /-- One that is being established. -/
  pend : ∀ {u b o}, pending (s.pc u) = some (b, o) → s.mount.suspend = true
    ∧ s.mount.suspOwner = some o ∧ s.window = none ∧ (b = true → ∀ t ∈ s.ops, t = o)
  unique : ∀ {u v}, pending (s.pc u) ≠ none → pending (s.pc v) ≠ none → u = v

omit [DecidableEq τ] in
theorem Inv.counted {s : State τ} (h : Inv s) : Counted s := by
  unfold Counted State.inProgress
  rw [h.count, h.nulls, List.length_nil, Nat.add_zero]

omit [DecidableEq τ] in
theorem Inv.excluded {s : State τ} (h : Inv s) : Excluded s := by
  refine ⟨fun o ho t ht => ?_, h.intruders⟩
  rw [h.nulls, List.append_nil] at ht
  exact (h.window ho).2.2.1 t ht

/-! ### Program counters -/

omit [DecidableEq τ] in
@[simp] theorem pending_wakeFlag (p : Pc τ) : pending p.wakeFlag = pending p := by
  cases p <;> rfl

omit [DecidableEq τ] in
theorem pending_wakeCount (p : Pc τ) : pending p.wakeCount = (pending p).map fun x => (true, x.2) := by
  cases p <;> rfl

/-- `vn_start_write` returns 0 to a thread that is not up against a suspension. -/
theorem granted_eq {s : State τ} {t : τ} (hw : s.window = none ∨ s.window = some t) :
    s.granted t = s := by
  unfold State.granted
  rw [if_pos hw]

omit [DecidableEq τ] in
/-- A state without any suspension. -/
theorem inv_clear {s : State τ} (hcount : s.mount.writeopcount = s.ops.length) (hnulls : s.nulls = [])
    (hintruders : s.intruders = []) (hw : s.window = none) (hnone : ∀ u, pending (s.pc u) = none) :
    Inv s := by
  refine ⟨hcount, hnulls, hintruders, ?_, ?_, ?_⟩
  · intro o ho
    rw [hw] at ho
    cases ho
  · intro u b o hu
    rw [hnone u] at hu
    cases hu
  · intro u v hu
    exact absurd (hnone u) hu

section Step

variable {s : State τ} {t : τ} (h : Inv s)
include h

omit [DecidableEq τ] in
/-- Nobody is suspending a mount that is not suspended. -/
theorem Inv.not_pending (hs : s.mount.suspend = false) (u : τ) : pending (s.pc u) = none := by
  cases hp : pending (s.pc u) with
  | none => rfl
  | some x =>
      obtain ⟨hsusp, -⟩ := h.pend hp
      rw [hs] at hsusp
      cases hsusp

omit [DecidableEq τ] in
theorem Inv.no_window (hs : s.mount.suspend = false) : s.window = none := by
  cases hw : s.window with
  | none => rfl
  | some o =>
      obtain ⟨hsusp, -⟩ := h.window hw
      rw [hs] at hsusp
      cases hsusp

omit [DecidableEq τ] in
/-- The suspension a thread is not up against is its own. -/
theorem Inv.own_window (hfree : Free s t) : s.window = none ∨ s.window = some t := by
  cases hw : s.window with
  | none => exact Or.inl rfl
  | some o =>
      obtain ⟨hsusp, howner, -⟩ := h.window hw
      rw [hfree hsusp] at howner
      exact Or.inr howner.symm

omit [DecidableEq τ] in
/-- A step that does not touch the suspension: operations come only from threads
that are free to start one, and no thread becomes pending. -/
theorem Inv.keep {s' : State τ} (hsusp : s'.mount.suspend = s.mount.suspend)
    (howner : s'.mount.suspOwner = s.mount.suspOwner) (hwindow : s'.window = s.window)
    (hcount : s'.mount.writeopcount = s'.ops.length) (hnulls : s'.nulls = [])
    (hintruders : s'.intruders = []) (hops : ∀ x ∈ s'.ops, x ∈ s.ops ∨ Free s x)
    (hpend : ∀ u, pending (s'.pc u) = pending (s.pc u) ∨ pending (s'.pc u) = none) : Inv s' := by
  have hown : ∀ {o}, s.mount.suspend = true → s.mount.suspOwner = some o → (∀ x ∈ s.ops, x = o) →
      ∀ x ∈ s'.ops, x = o := by
    intro o hs ho hall x hx
    rcases hops x hx with hold | hfree
    · exact hall x hold
    · exact Option.some.inj ((hfree hs).symm.trans ho)
  have hback : ∀ {u}, pending (s'.pc u) ≠ none → pending (s'.pc u) = pending (s.pc u) :=
    fun {u} hu => (hpend u).resolve_right hu
  refine ⟨hcount, hnulls, hintruders, ?_, ?_, ?_⟩
  · intro o ho
    obtain ⟨hs, ho', hall, hnone⟩ := h.window (hwindow.symm.trans ho)
    refine ⟨hsusp.trans hs, howner.trans ho', hown hs ho' hall, fun u => ?_⟩
    rcases hpend u with hsame | hgone
    · exact hsame.trans (hnone u)
    · exact hgone
  · intro u b o hu
    rw [hback (by rw [hu]; exact nofun)] at hu
    obtain ⟨hs, ho, hw, hall⟩ := h.pend hu
    exact ⟨hsusp.trans hs, howner.trans ho, hwindow.trans hw, fun hb => hown hs ho (hall hb)⟩
  · intro u v hu hv
    have hu' := hback hu
    have hv' := hback hv
    exact h.unique (hu' ▸ hu) (hv' ▸ hv)

/-- A thread moves on, and the mount changes in what the suspension does not look
at. -/
theorem Inv.move {m : Bsdmount τ} {p : Pc τ} (hp : pending p = none)
    (hsusp : m.suspend = s.mount.suspend) (howner : m.suspOwner = s.mount.suspOwner)
    (hcount : m.writeopcount = s.mount.writeopcount) : Inv ({ s with mount := m }.goto t p) := by
  refine h.keep hsusp howner rfl (hcount.trans h.count) h.nulls h.intruders (fun _ hx => Or.inl hx) ?_
  intro u
  by_cases hu : u = t
  · exact Or.inr (by rw [hu]; simpa [State.goto] using hp)
  · exact Or.inl (by simp [State.goto, hu])

/-- The fast path. -/
theorem Inv.fast (hfree : Free s t) : Inv { s.granted t with
    ops := t :: s.ops, mount := { s.mount with writeopcount := s.mount.writeopcount + 1 } } := by
  rw [granted_eq (h.own_window hfree)]
  refine h.keep rfl rfl rfl ?_ h.nulls h.intruders ?_ fun u => Or.inl rfl
  · simp [h.count]
  · intro x hx
    rcases List.mem_cons.mp hx with rfl | hold
    · exact Or.inr hfree
    · exact Or.inl hold

theorem Inv.startLoop (nowait : Bool) : Inv (s.startLoop t nowait) := by
  unfold State.startLoop
  cases hs : s.mount.suspend with
  | true =>
      cases nowait with
      | true => exact h.move (p := .idle) rfl rfl rfl rfl
      | false => exact h.move (p := .startAsleep false) rfl rfl rfl rfl
  | false =>
      -- there is no suspension to be let through against
      simp only [Bool.false_eq_true, if_false]
      rw [granted_eq]
      · exact h.move (p := .idle) rfl rfl rfl rfl
      · exact Or.inl (h.no_window hs)

theorem Inv.startRefed {flags : StartFlags} {s' : State τ} (hok : flags.xsleep = true ∨ Free s t)
    (hs : s.startRefed t flags = some s') : Inv s' := by
  unfold State.startRefed at hs
  split at hs
  · split at hs
    · split at hs
      · next howner =>
          obtain rfl := Option.some.inj hs
          rw [granted_eq]
          · exact h.move (p := .idle) rfl rfl rfl rfl
          · exact h.own_window fun _ => howner
      · obtain rfl := Option.some.inj hs
        exact h.startLoop flags.nowait
    · cases hs
  · next hx =>
      obtain rfl := Option.some.inj hs
      exact h.fast (hok.resolve_left hx)

theorem Inv.startWrite {target : Target} {flags : StartFlags} {s' : State τ}
    (hok : Meets s (.startWrite t target flags)) (hs : s.startWrite t target flags = some s') :
    Inv s' := by
  have hreach : Reaches s target → s.startRefed t flags = some s' → Inv s' := by
    intro _ href
    refine h.startRefed ?_ href
    rcases hok with ⟨-, hleft⟩ | ⟨hx, -⟩
    · exact hleft
    · exact Or.inl hx
  cases target with
  | mount => exact hreach trivial hs
  | vnode mpp =>
      simp only [State.startWrite] at hs
      split at hs
      · next hcond =>
          simp only [Bool.and_eq_true] at hcond
          exact hreach hcond hs
      · next hcond =>
          -- nothing is started here, and the thread is free
          simp only [Bool.and_eq_true] at hcond
          obtain ⟨hx, hfree⟩ := hok.resolve_left fun hno => hcond hno.1
          rw [if_pos hx] at hs
          obtain rfl := Option.some.inj hs
          rw [granted_eq (h.own_window hfree)]
          exact h

/-- The operation that ends was the owner's, or nobody owns anything yet. At zero
the suspending thread is woken, and then nothing is in progress. -/
theorem Inv.finishedWrite {s' : State τ} (hs : s.finishedWrite t = some s') : Inv s' := by
  unfold State.finishedWrite at hs
  split at hs
  case isFalse => cases hs
  case isTrue hlock =>
    have hcount : s.mount.writeopcount - 1 = (s.ops.erase t).length := by
      have hlen := List.length_erase_add_one hlock.2
      rw [h.count]
      omega
    have hkeep : Inv { s with
        ops := s.ops.erase t, mount := { s.mount with writeopcount := s.mount.writeopcount - 1 } } :=
      h.keep rfl rfl rfl hcount h.nulls h.intruders (fun _ hx => Or.inl (List.mem_of_mem_erase hx))
        fun _ => Or.inl rfl
    simp only at hs
    split at hs
    · exact Option.some.inj hs ▸ hkeep
    split at hs
    · cases hs
    split at hs
    · next hzero =>
        obtain rfl := Option.some.inj hs
        have hnil : s.ops.erase t = [] := by
          rw [hzero.2] at hcount
          exact List.length_eq_zero_iff.mp (by omega)
        refine ⟨hkeep.count, hkeep.nulls, hkeep.intruders, ?_, ?_, ?_⟩
        · intro o ho
          obtain ⟨hsusp, howner, hall, hnone⟩ := hkeep.window ho
          exact ⟨hsusp, howner, hall, fun u => by simp [pending_wakeCount, hnone u]⟩
        · intro u b o hu
          rw [pending_wakeCount, Option.map_eq_some_iff] at hu
          obtain ⟨⟨b', o'⟩, hold, heq⟩ := hu
          obtain ⟨hsusp, howner, hw, -⟩ := hkeep.pend hold
          obtain rfl : o' = o := (Prod.mk.inj heq).2
          refine ⟨hsusp, howner, hw, fun _ x hx => ?_⟩
          rw [hnil] at hx
          cases hx
        · intro u v hu hv
          refine hkeep.unique ?_ ?_
          · simpa [pending_wakeCount] using hu
          · simpa [pending_wakeCount] using hv
    · exact Option.some.inj hs ▸ hkeep

/-- A suspension ends. No other thread is pending, so the wakeup of
`mnt_writeopcount` reaches nobody. -/
theorem Inv.resumeSuspended (start : Bool) (hw : s.window = none)
    (hpend : ∀ u, u ≠ t → pending (s.pc u) = none) : Inv (s.resumeSuspended t start) := by
  have hnone : ∀ u, pending
      (Function.update (fun v => (s.pc v).wakeCount.wakeFlag) t .opExit u) = none := by
    intro u
    by_cases hu : u = t
    · rw [hu, Function.update_self]
      rfl
    · rw [Function.update_of_ne hu, pending_wakeFlag, pending_wakeCount, hpend u hu]
      rfl
  cases start with
  | true =>
      refine inv_clear ?_ h.nulls h.intruders hw hnone
      simp [State.resumeSuspended, Bsdmount.unsuspend, h.count]
  | false => exact inv_clear h.count h.nulls h.intruders hw hnone

theorem Inv.writeResume {start : Bool} {s' : State τ} (hok : Meets s (.writeResume t start))
    (hs : s.writeResume t start = some s') : Inv s' := by
  obtain ⟨hfree, hpend, hstart⟩ := hok
  unfold State.writeResume at hs
  split at hs
  case isFalse => cases hs
  case isTrue =>
    -- the owner is the one who calls, so that no window stays open
    have hw : (if s.window = some t then none else s.window) = none := by
      rcases h.own_window hfree with hnone | hmine
      · simp [hnone]
      · simp [hmine]
    have hclosed : Inv { s with window := if s.window = some t then none else s.window } := by
      refine ⟨h.count, h.nulls, h.intruders, fun ho => ?_, fun hu => ?_, h.unique⟩
      · rw [hw] at ho
        cases ho
      · obtain ⟨hsusp, howner, -, hall⟩ := h.pend hu
        exact ⟨hsusp, howner, hw, hall⟩
    simp only at hs
    cases hsusp : s.mount.suspend with
    | true =>
        rw [if_pos hsusp] at hs
        obtain rfl := Option.some.inj hs
        exact hclosed.resumeSuspended start hw fun u _ => hpend hsusp u
    | false =>
        have hno : start = false := by
          cases start with
          | true =>
              rw [hstart rfl] at hsusp
              cases hsusp
          | false => rfl
        rw [if_neg (by rw [hsusp]; decide), hno, if_neg (by decide)] at hs
        exact Option.some.inj hs ▸ hclosed

/-- `MNTK_SUSPEND` is set. Nobody is pending, and the thread that sets it is
pending afterwards: with the writers out if the count is zero. -/
theorem Inv.setSuspend {b : Bool} {owner : τ} {p : Pc τ} (hs : s.mount.suspend = false)
    (hp : pending p = some (b, owner)) (hb : b = true → s.mount.writeopcount ≤ 0) :
    Inv ({ s with mount := { s.mount with suspend := true, suspOwner := some owner } }.goto t p) := by
  have hother : ∀ u, u ≠ t → pending (Function.update s.pc t p u) = none := by
    intro u hu
    rw [Function.update_of_ne hu]
    exact h.not_pending hs u
  refine ⟨h.count, h.nulls, h.intruders, ?_, ?_, ?_⟩
  · intro o ho
    have hno := h.no_window hs
    rw [show s.window = some o from ho] at hno
    cases hno
  · intro u b' o hu
    replace hu : pending (Function.update s.pc t p u) = some (b', o) := hu
    obtain rfl : u = t := by
      by_contra hne
      rw [hother u hne] at hu
      cases hu
    rw [Function.update_self, hp] at hu
    obtain ⟨rfl, rfl⟩ := Prod.mk.inj (Option.some.inj hu)
    refine ⟨rfl, rfl, h.no_window hs, fun hb' x hx => ?_⟩
    have hzero := hb hb'
    rw [h.count] at hzero
    rw [List.length_eq_zero_iff.mp (show s.ops.length = 0 by omega)] at hx
    cases hx
  · intro u v hu hv
    have ht : ∀ w, pending (Function.update s.pc t p w) ≠ none → w = t := by
      intro w hw
      by_contra hne
      exact hw (hother w hne)
    exact (ht u hu).trans (ht v hv).symm

theorem Inv.opExit {p : Pc τ} {s' : State τ} (hp : pending p = none)
    (hs : (s.mount.opExit.map fun m => { s with mount := m }.goto t p) = some s') : Inv s' := by
  obtain ⟨m, hm, rfl⟩ := Option.map_eq_some_iff.mp hs
  unfold Bsdmount.opExit at hm
  split at hm
  · cases hm
  · obtain rfl := Option.some.inj hm
    exact h.move hp rfl rfl rfl

theorem Inv.suspLoop {td : Option τ} {skip : Bool} {s' : State τ}
    (hs : s.suspLoop t td skip = some s') : Inv s' := by
  unfold State.suspLoop at hs
  split at hs
  · obtain rfl := Option.some.inj hs
    exact h.move (p := .suspAsleep td skip) rfl rfl rfl rfl
  next hsusp =>
  rw [Bool.not_eq_true] at hsusp
  split at hs
  · exact h.opExit rfl hs
  simp only at hs
  split at hs
  · obtain rfl := Option.some.inj hs
    exact h.setSuspend (p := .suspCount (td.getD t)) hsusp rfl nofun
  · next hcount =>
      obtain rfl := Option.some.inj hs
      exact h.setSuspend (p := .suspSync (td.getD t)) hsusp rfl fun _ => by omega

/-- `VFS_SYNC` has returned: the suspension is established, or given up. -/
theorem Inv.synced {owner : τ} {err : Int} {s' : State τ} (hpc : s.pc t = .suspSync owner)
    (hs : s.synced t owner err = some s') : Inv s' := by
  have hmine : pending (s.pc t) = some (true, owner) := by rw [hpc]; rfl
  obtain ⟨hsusp, howner, hw, hall⟩ := h.pend hmine
  have hother : ∀ u, u ≠ t → pending (s.pc u) = none := by
    intro u hu
    by_contra hno
    exact hu (h.unique hno (by rw [hmine]; exact nofun))
  unfold State.synced at hs
  split at hs
  · obtain rfl := Option.some.inj hs
    have hnone : ∀ u, pending (Function.update s.pc t .idle u) = none := by
      intro u
      by_cases hu : u = t
      · rw [hu, Function.update_self]
        rfl
      · rw [Function.update_of_ne hu, hother u hu]
    refine ⟨h.count, h.nulls, h.intruders, ?_, ?_, ?_⟩
    · intro o ho
      obtain rfl : owner = o := Option.some.inj ho
      exact ⟨hsusp, howner, hall rfl, hnone⟩
    · intro u b o hu
      replace hu : pending (Function.update s.pc t .idle u) = some (b, o) := hu
      rw [hnone u] at hu
      cases hu
    · intro u v hu
      exact absurd (hnone u) hu
  · split at hs
    · exact Option.some.inj hs ▸ h.resumeSuspended false hw hother
    · cases hs

theorem Inv.run {err : Int} {s' : State τ} (hs : s.run t err = some s') : Inv s' := by
  unfold State.run at hs
  cases hpc : s.pc t with
  | suspSync owner =>
      simp only [hpc] at hs
      exact h.synced hpc hs
  | startLoop nowait =>
      simp only [hpc, Option.ite_none_right_eq_some, Option.some.injEq] at hs
      exact hs.2 ▸ h.startLoop nowait
  | startIntr =>
      simp only [hpc, Option.ite_none_right_eq_some, Option.some.injEq] at hs
      exact hs.2 ▸ h.move (p := .idle) rfl rfl rfl rfl
  | susp td skip =>
      simp only [hpc, Option.ite_none_right_eq_some] at hs
      have hregion := hs.2
      unfold State.susp at hregion
      split at hregion
      · exact h.opExit rfl hregion
      · exact h.suspLoop hregion
  | suspLoop td skip =>
      simp only [hpc, Option.ite_none_right_eq_some] at hs
      exact h.suspLoop hs.2
  | opExit =>
      simp only [hpc, Option.ite_none_right_eq_some] at hs
      exact h.opExit rfl hs.2
  | idle | startAsleep _ | suspAsleep _ _ | suspCount _ => simp [hpc] at hs

theorem Inv.next {a : Act τ} {s' : State τ} (hok : Meets s a) (hs : next s a = some s') :
    Inv s' := by
  cases a with
  | startWrite t target flags =>
      simp only [Compat.next, Option.ite_none_right_eq_some] at hs
      exact h.startWrite hok hs.2
  | finishedWrite t =>
      simp only [Compat.next, Option.ite_none_right_eq_some] at hs
      exact h.finishedWrite hs.2
  | finishedNull t =>
      -- there is no such operation
      simp [Compat.next, h.nulls] at hs
  | writeSuspend t td skip =>
      simp only [Compat.next, Option.ite_none_right_eq_some, Option.map_eq_some_iff] at hs
      obtain ⟨-, m, hm, rfl⟩ := hs
      unfold Bsdmount.opEnter at hm
      split at hm
      · exact Option.some.inj hm ▸ h.move (p := .susp td skip) rfl rfl rfl rfl
      split at hm
      · cases hm
      · exact Option.some.inj hm ▸ h.move (p := .susp td skip) rfl rfl rfl rfl
  | writeResume t start =>
      simp only [Compat.next, Option.ite_none_right_eq_some] at hs
      exact h.writeResume hok hs.2
  | run t err => exact h.run hs
  | signal t =>
      simp only [Compat.next] at hs
      split at hs
      · exact Option.some.inj hs ▸ h.move (p := .startIntr) rfl rfl rfl rfl
      · cases hs
  | unmount isunmount isforce =>
      obtain rfl := Option.some.inj hs
      exact h.keep rfl rfl rfl h.count h.nulls h.intruders (fun _ hx => Or.inl hx) fun _ => Or.inl rfl

end Step

omit [DecidableEq τ] in
theorem inv_init : Inv (State.init : State τ) :=
  inv_clear rfl rfl rfl rfl fun _ => rfl

end Suspend

section

open Suspend

variable {τ : Type*} [DecidableEq τ]

/-- In every run whose steps keep to the suspension, `mnt_writeopcount` is the
number of write operations in progress, and a suspension shuts out every thread but
its owner. -/
theorem writeSuspend_excludes {s : State τ} (hrun : ReflTransGen (Next Meets) State.init s) :
    Counted s ∧ Excluded s := by
  have hinv : Inv s := by
    refine invariant_of_run Inv ?_ inv_init hrun
    intro a b ha hstep
    obtain ⟨act, hok, hnext⟩ := hstep
    exact ha.next hok hnext
  exact ⟨hinv.counted, hinv.excluded⟩

theorem run_of_acts {P : State τ → Act τ → Prop} [∀ s a, Decidable (P s a)]
    {s s' : State τ} (acts : List (Act τ))
    (h : moves (fun s a => if P s a then next s a else none) acts s = some s') :
    ReflTransGen (Next P) s s' := by
  refine run_of_moves _ ?_ acts h
  intro a s s' hmove
  obtain ⟨hP, hnext⟩ := Option.ite_none_right_eq_some.mp hmove
  exact ⟨a, hP, hnext⟩

/-- A thread suspends while another one is writing, and gets through when the writer
is done. -/
theorem writeSuspend_excludes_two :
    ∃ s : State Bool, ReflTransGen (Next Meets) State.init s
      ∧ s.window = some true ∧ Counted s ∧ Excluded s := by
  obtain ⟨s, hs, hw⟩ := Option.map_eq_some_iff.mp
    (show (moves (fun s a => if Meets s a then next s a else none)
      [.startWrite false .mount ⟨false, false⟩, .writeSuspend true none false, .run true 0,
        .finishedWrite false, .run true 0] (State.init : State Bool)).map State.window
        = some (some true) by decide)
  exact ⟨s, run_of_acts _ hs, hw, writeSuspend_excludes (run_of_acts _ hs)⟩

/-- Without the condition neither holds. A write through a vnode of a mounted file
system is not counted; and after a thread has suspended the file system, another
one starts a write. -/
theorem writeSuspend_passed :
    (∃ s : State Bool, ReflTransGen (Next fun _ _ => True) State.init s ∧ ¬ Counted s)
      ∧ ∃ s : State Bool, ReflTransGen (Next fun _ _ => True) State.init s ∧ ¬ Excluded s := by
  constructor
  · obtain ⟨s, hs, hw⟩ := Option.map_eq_some_iff.mp
      (show (moves (fun s a => if True then next s a else none)
        [.startWrite true (.vnode false) ⟨false, false⟩] (State.init : State Bool)).map
          (fun s => (s.mount.writeopcount, s.inProgress)) = some (0, 1) by decide)
    refine ⟨s, run_of_acts _ hs, fun hno => ?_⟩
    obtain ⟨hcount, hin⟩ := Prod.mk.inj hw
    rw [Counted, hcount, hin] at hno
    cases hno
  · obtain ⟨s, hs, hw⟩ := Option.map_eq_some_iff.mp
      (show (moves (fun s a => if True then next s a else none)
        [.writeSuspend true none false, .run true 0, .run true 0,
          .startWrite false .mount ⟨false, false⟩] (State.init : State Bool)).map
          State.intruders = some [false] by decide)
    refine ⟨s, run_of_acts _ hs, fun hno => ?_⟩
    rw [hno.2] at hw
    cases hw

end

end UfsX.Proofs
