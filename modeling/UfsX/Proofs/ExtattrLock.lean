import UfsX.Lib.Run
import UfsX.Ffs.ExtattrLock
import Mathlib.Data.List.Nodup

/-!
# `UfsX.Proofs.ExtattrLock`: the area of extended attributes in the hands of several threads

Two facts hold in every run (`Base`): the inode lock and `IN_EA_LOCKED` have one holder
each, and nobody sleeps without the inode lock. So a thread that finds `IN_EA_LOCKED` set
sleeps for good: the thread that could wake it needs the inode lock.

As long as no thread finds the flag set, and no file without attributes is read, the count
and the area agree (`Inv`). `ea_shared` puts this together.
-/

set_option autoImplicit false

namespace UfsX.Proofs.ExtattrLock

open UfsX.Lib UfsX.Ffs.ExtattrLock
open Relation (ReflTransGen)

variable {τ : Type*} [DecidableEq τ]

/-! ### What is asked for -/

def isAsleep : Pc → Bool
  | .asleep _ => true
  | _ => false

/-- Thread `t` sleeps, and whatever the others do, it goes on sleeping. -/
def Stuck (s : State τ) (t : τ) : Prop :=
  isAsleep (s.pc t) = true
    ∧ ∀ s', ReflTransGen (Next fun _ u _ => u ≠ t) s s' → isAsleep (s'.pc t) = true

/-- At most one thread is between `ffs_lock_ea` and `ffs_unlock_ea`. -/
def Alone (s : State τ) : Prop := ∀ t u, (s.pc t).inside = true → (s.pc u).inside = true → t = u

def Outside (s : State τ) : Prop := ∀ t, (s.pc t).inside = false

structure Shared (s : State τ) : Prop where
  alone : Alone s
  awake : ∀ t, ¬ Stuck s t
  refs : Outside s → s.refs = s.opens.length
  area : Outside s → (s.area = true ↔ 0 < s.refs)
  /-- Whoever is about to free the area is the only one who has it open. -/
  free : ∀ t, s.pc t = .closeCount → s.refs - 1 = 0 → ∀ u ∈ s.opens, u = t

/-- Thread `t` does not find `IN_EA_LOCKED` set, and does not read an area of no bytes into
a null pointer. -/
def Clear (s : State τ) (t : τ) (r : Read) : Prop :=
  (∀ c, s.pc t = .lockTest c → s.eaLocked = false)
    ∧ (s.pc t = .openRead → r.fails = false → r.null = false)

/-- The test of `Clear`. -/
def clear (s : State τ) (t : τ) (r : Read) : Bool :=
  match s.pc t with
  | .lockTest _ => !s.eaLocked
  | .openRead => !r.null
  | _ => true

omit [DecidableEq τ] in
theorem clear_of_clear {s : State τ} {t : τ} {r : Read} (h : clear s t r = true) : Clear s t r :=
  ⟨fun c hpc => by simpa [clear, hpc] using h, fun hpc _ => by simpa [clear, hpc] using h⟩

def Any (_ : State τ) (_ : τ) (_ : Read) : Prop := True

/-! ### Every run -/

/-- Between setting and clearing `IN_EA_LOCKED`. -/
def holds : Pc → Bool
  | .lockUnlock _ | .openTest | .openRead | .openCount | .closeTest _ | .closeWrite | .closeCount
  | .unlock _ | .unlockTest _ | .unlockWakeup _ | .unlockClear _ => true
  | _ => false

theorem holds_of_inside {p : Pc} (h : p.inside = true) : holds p = true := by
  cases p
  all_goals first
    | rfl
    | cases h

/-- The area is open to the thread. -/
def hasOpen : Pc → Bool
  | .opened | .closeTest _ | .closeWrite | .closeCount => true
  | .lock c | .lockTest c | .lockSetWait c | .lockSleep c | .asleep c | .lockSet c | .lockUnlock c =>
      c ≠ .openEa
  | .unlock b | .unlockTest b | .unlockWakeup b | .unlockClear b | .unlockUnlock b => b
  | _ => false

structure Base (s : State τ) : Prop where
  lock : Excludes Pc.inLock s.lock s.pc
  ea : ∃ h : Option τ, Excludes holds h s.pc ∧ s.eaLocked = h.isSome
  untaken : ∀ t c, s.pc t = .lockSet c → s.eaLocked = false
  nodup : s.opens.Nodup
  mem : ∀ t, t ∈ s.opens ↔ hasOpen (s.pc t) = true
  refs_ge : (s.opens.length : Int) ≤ s.refs

omit [DecidableEq τ] in
theorem base_init : Base (init : State τ) where
  lock t := by simp [init, Pc.inLock]
  ea := ⟨none, fun t => by simp [init, holds], rfl⟩
  untaken t c h := by cases h
  nodup := List.nodup_nil
  mem t := by simp [init, hasOpen]
  refs_ge := Int.le_refl 0

/-- One thread at another place, with the same standing in the list of opens. -/
theorem mem_update {opens : List τ} {pc : τ → Pc} (h : ∀ u, u ∈ opens ↔ hasOpen (pc u) = true) {t : τ} {p : Pc}
    (hp : hasOpen p = hasOpen (pc t)) (u : τ) : u ∈ opens ↔ hasOpen (Function.update pc t p u) = true := by
  by_cases hu : u = t
  · rw [hu, Function.update_self, hp]
    exact h t
  · rw [Function.update_of_ne hu]
    exact h u

theorem untaken_update {pc : τ → Pc} {b : Bool} (h : ∀ u c, pc u = .lockSet c → b = false) {t : τ} {p : Pc}
    (hp : ∀ c, p = .lockSet c → b = false) (u : τ) (c : Caller) (hu : Function.update pc t p u = .lockSet c) :
    b = false := by
  rcases update_cases (fun q : Pc => q = .lockSet c) hu with ⟨-, hq⟩ | ⟨-, hq⟩
  · exact hp c hq
  · exact h u c hq

section Base

variable {s : State τ} {t : τ} {p : Pc} (h : Base s)
include h

/-- A step that takes no lock and drops none. -/
theorem Base.goto (hlock : p.inLock = (s.pc t).inLock) (hholds : holds p = holds (s.pc t))
    (hopen : hasOpen p = hasOpen (s.pc t)) (hset : ∀ c, p = .lockSet c → s.eaLocked = false) :
    Base (s.goto t p) where
  lock := h.lock.keep hlock
  ea := by
    obtain ⟨holder, hex, heq⟩ := h.ea
    exact ⟨holder, hex.keep hholds, heq⟩
  untaken := untaken_update h.untaken hset
  nodup := h.nodup
  mem := mem_update h.mem hopen
  refs_ge := h.refs_ge

/-- From one point of the code to another that is like it for the invariant. -/
theorem Base.along {p₀ : Pc} (hpc : s.pc t = p₀) (hlock : p.inLock = p₀.inLock) (hholds : holds p = holds p₀)
    (hopen : hasOpen p = hasOpen p₀) (hset : ∀ c, p ≠ .lockSet c) : Base (s.goto t p) := by
  rw [← hpc] at hlock hholds hopen
  exact h.goto hlock hholds hopen fun c hc => absurd hc (hset c)

theorem Base.acquire {s' : State τ} (hlock : p.inLock = true) (hholds : holds p = holds (s.pc t))
    (hopen : hasOpen p = hasOpen (s.pc t)) (hset : ∀ c, p ≠ .lockSet c) (hs : s.acquire t p = some s') :
    Base s' := by
  unfold State.acquire at hs
  split at hs
  case isFalse => cases hs
  case isTrue hfree =>
    obtain rfl := Option.some.inj hs
    have hex := h.lock
    rw [hfree] at hex
    obtain ⟨holder, hea, heq⟩ := h.ea
    exact ⟨hex.acquire hlock, ⟨holder, hea.keep hholds, heq⟩,
      untaken_update h.untaken fun c hc => absurd hc (hset c), h.nodup, mem_update h.mem hopen,
      h.refs_ge⟩

theorem Base.release (hin : (s.pc t).inLock = true) (hlock : p.inLock = false) (hholds : holds p = holds (s.pc t))
    (hopen : hasOpen p = hasOpen (s.pc t)) (hset : ∀ c, p ≠ .lockSet c) : Base (s.release t p) := by
  have hgoto := h.ea
  obtain ⟨holder, hea, heq⟩ := hgoto
  exact ⟨h.lock.release hin hlock, ⟨holder, hea.keep hholds, heq⟩,
      untaken_update h.untaken fun c hc => absurd hc (hset c), h.nodup,
    mem_update h.mem hopen, h.refs_ge⟩

/-- The thread that sets `IN_EA_LOCKED` becomes its holder. -/
theorem Base.set {c : Caller} (hpc : s.pc t = .lockSet c) :
    Base ({ s with eaLocked := true }.goto t (.lockUnlock c)) where
  lock := h.lock.keep (by rw [hpc]; rfl)
  ea := by
    obtain ⟨holder, hea, heq⟩ := h.ea
    rw [h.untaken t c hpc] at heq
    obtain rfl : holder = none := Option.not_isSome_iff_eq_none.mp (by rw [← heq]; exact Bool.false_ne_true)
    exact ⟨some t, hea.acquire rfl, rfl⟩
  untaken u c' hu := by
    rcases update_cases (fun q : Pc => q = .lockSet c') hu with ⟨-, hq⟩ | ⟨hne, hq⟩
    · cases hq
    · -- only the holder of the inode lock is there
      exact absurd (h.lock.unique (show (s.pc u).inLock = true by rw [hq]; rfl)
        (show (s.pc t).inLock = true by rw [hpc]; rfl)) hne
  nodup := h.nodup
  mem := mem_update h.mem (by rw [hpc]; rfl)
  refs_ge := h.refs_ge

theorem Base.clear {b : Bool} (hpc : s.pc t = .unlockClear b) :
    Base ({ s with eaLocked := false, eaLockwait := false }.goto t (.unlockUnlock b)) where
  lock := h.lock.keep (by rw [hpc]; rfl)
  ea := by
    obtain ⟨holder, hea, -⟩ := h.ea
    exact ⟨none, hea.release (by rw [hpc]; rfl) rfl, rfl⟩
  untaken _ _ _ := rfl
  nodup := h.nodup
  mem := mem_update h.mem (by rw [hpc]; rfl)
  refs_ge := h.refs_ge

omit [DecidableEq τ] in
/-- The sleepers that are woken have the inode lock as before. -/
theorem Base.wakeAsleep : Base s.wakeAsleep where
  lock := h.lock.congr fun u => by
    show Pc.inLock (match s.pc u with | .asleep c => .lockTest c | p => p) = _
    cases s.pc u
    all_goals rfl
  ea := by
    obtain ⟨holder, hea, heq⟩ := h.ea
    refine ⟨holder, hea.congr fun u => ?_, heq⟩
    show holds (match s.pc u with | .asleep c => .lockTest c | p => p) = _
    cases s.pc u
    all_goals rfl
  untaken u c hu := by
    refine h.untaken u c ?_
    have hu' : (match s.pc u with | .asleep c => Pc.lockTest c | p => p) = .lockSet c := hu
    split at hu'
    · cases hu'
    · exact hu'
  nodup := h.nodup
  mem u := by
    refine (h.mem u).trans ?_
    show _ ↔ hasOpen (match s.pc u with | .asleep c => .lockTest c | p => p) = true
    cases s.pc u
    all_goals exact Iff.rfl
  refs_ge := h.refs_ge

/-- A thread at `p` joins the list of opens. -/
theorem Base.enter (hlock : p.inLock = (s.pc t).inLock) (hholds : holds p = holds (s.pc t))
    (hout : hasOpen (s.pc t) = false) (hin : hasOpen p = true) (hset : ∀ c, p ≠ .lockSet c) :
    Base ({ s with refs := s.refs + 1, opens := t :: s.opens }.goto t p) := by
  have hnew : t ∉ s.opens := by
    rw [h.mem t, hout]
    exact Bool.false_ne_true
  obtain ⟨holder, hea, heq⟩ := h.ea
  refine ⟨h.lock.keep hlock, ⟨holder, hea.keep hholds, heq⟩,
      untaken_update h.untaken fun c hc => absurd hc (hset c), h.nodup.cons hnew, fun u => ?_, ?_⟩
  · show u ∈ t :: s.opens ↔ hasOpen (Function.update s.pc t p u) = true
    by_cases hu : u = t
    · rw [hu, Function.update_self, hin]
      exact iff_of_true List.mem_cons_self rfl
    · rw [Function.update_of_ne hu, List.mem_cons, or_iff_right hu]
      exact h.mem u
  · have := h.refs_ge
    show ((t :: s.opens).length : Int) ≤ s.refs + 1
    rw [List.length_cons]
    omega

/-- A thread leaves the list of opens, with `refs` for the count. -/
theorem Base.leave {refs : Int} (hlock : p.inLock = (s.pc t).inLock) (hholds : holds p = holds (s.pc t))
    (hin : hasOpen (s.pc t) = true) (hout : hasOpen p = false) (hset : ∀ c, p ≠ .lockSet c)
    (hrefs : s.refs - 1 ≤ refs) : Base ({ s with refs := refs, opens := s.opens.erase t }.goto t p) := by
  have hmem : t ∈ s.opens := (h.mem t).mpr hin
  obtain ⟨holder, hea, heq⟩ := h.ea
  refine ⟨h.lock.keep hlock, ⟨holder, hea.keep hholds, heq⟩,
      untaken_update h.untaken fun c hc => absurd hc (hset c), h.nodup.erase t, fun u => ?_, ?_⟩
  · show u ∈ s.opens.erase t ↔ hasOpen (Function.update s.pc t p u) = true
    rw [h.nodup.mem_erase_iff]
    by_cases hu : u = t
    · rw [hu, Function.update_self, hout]
      exact iff_of_false (fun hno => hno.1 rfl) Bool.false_ne_true
    · rw [Function.update_of_ne hu, and_iff_right hu]
      exact h.mem u
  · have hge := h.refs_ge
    have hpos := List.length_pos_of_mem hmem
    show ((s.opens.erase t).length : Int) ≤ refs
    rw [List.length_erase_of_mem hmem]
    omega

/-- The count and the area do not take part. -/
theorem Base.step {r : Read} {s' : State τ} (hs : s.step t r = some s') : Base s' := by
  cases hpc : s.pc t with
  -- no step of its own
  | idle | opened | asleep => simp [State.step, hpc] at hs
  | lock c =>
      simp only [State.step, hpc] at hs
      exact h.acquire rfl (by rw [hpc]; rfl) (by rw [hpc]; rfl) (fun _ hno => by cases hno) hs
  | unlock b =>
      simp only [State.step, hpc] at hs
      exact h.acquire rfl (by rw [hpc]; rfl) (by rw [hpc]; rfl) (fun _ hno => by cases hno) hs
  -- only a clear flag lets the thread on to `lockSet`
  | lockTest c =>
      simp only [State.step, hpc, Option.some.injEq] at hs
      subst hs
      cases hea : s.eaLocked with
      | true => exact h.along hpc rfl rfl rfl fun _ hno => by cases hno
      | false => exact h.goto (by rw [hpc]; rfl) (by rw [hpc]; rfl) (by rw [hpc]; rfl) fun _ _ => hea
  | lockSetWait c =>
      simp only [State.step, hpc, Option.some.injEq] at hs
      subst hs
      -- the flag that asks for a wakeup is not part of the invariant
      have hgoto : Base (s.goto t (.lockSleep c)) := h.along hpc rfl rfl rfl fun _ hno => by cases hno
      exact ⟨hgoto.lock, hgoto.ea, hgoto.untaken, hgoto.nodup, hgoto.mem, hgoto.refs_ge⟩
  | lockSleep c | closeWrite =>
      simp only [State.step, hpc, Option.some.injEq] at hs
      subst hs
      exact h.along hpc rfl rfl rfl fun _ hno => by cases hno
  | lockSet c =>
      simp only [State.step, hpc, Option.some.injEq] at hs
      subst hs
      exact h.set hpc
  | lockUnlock c =>
      simp only [State.step, hpc, Option.some.injEq] at hs
      subst hs
      cases c
      all_goals exact h.release (by rw [hpc]; rfl) rfl (by rw [hpc]; rfl) (by rw [hpc]; rfl) fun _ hno => by cases hno
  | openTest =>
      simp only [State.step, hpc, Option.some.injEq] at hs
      subst hs
      cases s.area
      all_goals exact h.along hpc rfl rfl rfl fun _ hno => by cases hno
  | openRead =>
      simp only [State.step, hpc] at hs
      split at hs
      case isTrue =>
        obtain rfl := Option.some.inj hs
        exact h.along hpc rfl rfl rfl fun _ hno => by cases hno
      case isFalse =>
        obtain rfl := Option.some.inj hs
        -- nor is the area
        have hgoto : Base (s.goto t .openCount) := h.along hpc rfl rfl rfl fun _ hno => by cases hno
        exact ⟨hgoto.lock, hgoto.ea, hgoto.untaken, hgoto.nodup, hgoto.mem, hgoto.refs_ge⟩
  | openCount =>
      simp only [State.step, hpc, Option.some.injEq] at hs
      subst hs
      exact h.enter (by rw [hpc]; rfl) (by rw [hpc]; rfl) (by rw [hpc]; rfl) rfl fun _ hno => by cases hno
  | closeTest commit =>
      simp only [State.step, hpc] at hs
      split at hs
      case isTrue =>
        obtain rfl := Option.some.inj hs
        -- without an area it goes to `ffs_unlock_ea`, with or without a commit
        cases commit
        all_goals exact h.along hpc rfl rfl rfl fun _ hno => by cases hno
      case isFalse =>
        obtain rfl := Option.some.inj hs
        exact h.leave (by rw [hpc]; rfl) (by rw [hpc]; rfl) (by rw [hpc]; rfl) rfl (fun _ hno => by cases hno) (by omega)
  | closeCount =>
      simp only [State.step, hpc] at hs
      -- the area goes with the last count; only the count matters here
      have hleave : Base ({ s with refs := s.refs - 1, opens := s.opens.erase t }.goto t (.unlock false)) :=
        h.leave (by rw [hpc]; rfl) (by rw [hpc]; rfl) (by rw [hpc]; rfl) rfl (fun _ hno => by cases hno)
          (Int.le_refl _)
      split at hs
      all_goals
        obtain rfl := Option.some.inj hs
        exact ⟨hleave.lock, hleave.ea, hleave.untaken, hleave.nodup, hleave.mem, hleave.refs_ge⟩
  | unlockTest b =>
      simp only [State.step, hpc, Option.some.injEq] at hs
      subst hs
      cases s.eaLockwait
      all_goals exact h.along hpc rfl rfl rfl fun _ hno => by cases hno
  | unlockWakeup b =>
      simp only [State.step, hpc, Option.some.injEq] at hs
      subst hs
      -- the thread that wakes the others is not asleep itself
      have hpc' : s.wakeAsleep.pc t = .unlockWakeup b := by
        show (match s.pc t with | .asleep c => Pc.lockTest c | p => p) = _
        rw [hpc]
      exact h.wakeAsleep.along hpc' rfl rfl rfl fun _ hno => by cases hno
  | unlockClear b =>
      simp only [State.step, hpc, Option.some.injEq] at hs
      subst hs
      exact h.clear hpc
  | unlockUnlock b =>
      simp only [State.step, hpc, Option.some.injEq] at hs
      subst hs
      cases b
      all_goals exact h.release (by rw [hpc]; rfl) rfl (by rw [hpc]; rfl) (by rw [hpc]; rfl) fun _ hno => by cases hno

theorem Base.next {P : State τ → τ → Read → Prop} {s' : State τ} (hs : Next P s s') : Base s' := by
  cases hs with
  | step t r _ hstep => exact h.step hstep
  | callOpen t hpc => exact h.along hpc rfl rfl rfl fun _ hno => by cases hno
  | callClose t commit hpc =>
      exact h.along hpc rfl rfl rfl fun _ hno => by cases hno

omit [DecidableEq τ] in
theorem Base.alone : Alone s := by
  intro t u ht hu
  obtain ⟨holder, hea, -⟩ := h.ea
  exact hea.unique (holds_of_inside ht) (holds_of_inside hu)

end Base

/-! ### Asleep for good -/

/-- A sleeper has the inode lock, and no step of another thread wakes it. -/
theorem asleep_next {s s' : State τ} {t : τ} (h : Base s) (ht : isAsleep (s.pc t) = true)
    (hs : Next (fun _ u _ => u ≠ t) s s') : isAsleep (s'.pc t) = true := by
  have hlock : (s.pc t).inLock = true := by
    cases hpc : s.pc t with
    | asleep c => rfl
    | _ =>
        rw [hpc] at ht
        cases ht
  have hother {u : τ} {p : Pc} (hne : u ≠ t) : isAsleep (Function.update s.pc u p t) = true := by
    rwa [Function.update_of_ne (Ne.symm hne)]
  cases hs with
  | callOpen u hpc =>
      -- a thread that begins a call was not asleep
      refine hother fun hu => ?_
      rw [← hu, hpc] at ht
      cases ht
  | callClose u commit hpc =>
      refine hother fun hu => ?_
      rw [← hu, hpc] at ht
      cases ht
  | step u r hne hstep =>
      -- the other thread does not have the inode lock, so it wakes nobody
      have hout : (s.pc u).inLock = false := by
        rw [Bool.eq_false_iff]
        intro hin
        exact hne (h.lock.unique hin hlock)
      cases hpc : s.pc u with
      -- these are inside the inode lock
      | lockTest | lockSetWait | lockSleep | asleep | lockSet | lockUnlock | unlockTest | unlockWakeup
      | unlockClear | unlockUnlock =>
          rw [hpc] at hout
          cases hout
      | idle | opened => simp [State.step, hpc] at hstep
      | lock | unlock =>
          simp only [State.step, hpc, State.acquire] at hstep
          split at hstep
          case isTrue =>
            obtain rfl := Option.some.inj hstep
            exact hother hne
          case isFalse => cases hstep
      | openTest | openCount | closeWrite =>
          simp only [State.step, hpc, Option.some.injEq] at hstep
          subst hstep
          exact hother hne
      | openRead | closeTest | closeCount =>
          simp only [State.step, hpc] at hstep
          split at hstep
          all_goals
            obtain rfl := Option.some.inj hstep
            exact hother hne

theorem stuck_of_asleep {s : State τ} {t : τ} (h : Base s) (ht : isAsleep (s.pc t) = true) : Stuck s t := by
  refine ⟨ht, fun s' hrun => ?_⟩
  refine (invariant_of_run (fun s => Base s ∧ isAsleep (s.pc t) = true) (fun {a b} hab hnext => ?_) ⟨h, ht⟩ hrun).2
  exact ⟨hab.1.next hnext, asleep_next hab.1 hab.2 hnext⟩

/-- A thread that finds `IN_EA_LOCKED` set goes to sleep, and that is the end of it. -/
theorem stuck_of_test {s : State τ} {t : τ} {c : Caller} (h : Base s) (hpc : s.pc t = .lockTest c)
    (hlocked : s.eaLocked = true) : ∃ s', ReflTransGen (Next Any) s s' ∧ Stuck s' t := by
  let s₁ := s.goto t (.lockSetWait c)
  let s₂ := { s₁ with eaLockwait := true }.goto t (.lockSleep c)
  let s₃ := s₂.goto t (.asleep c)
  have h₁ : Next Any s s₁ := .step t ⟨false, false⟩ trivial (by simp [State.step, hpc, hlocked, s₁])
  have h₂ : Next Any s₁ s₂ := .step t ⟨false, false⟩ trivial (by simp [State.step, State.goto, s₁, s₂])
  have h₃ : Next Any s₂ s₃ := .step t ⟨false, false⟩ trivial (by simp [State.step, State.goto, s₂, s₃])
  refine ⟨s₃, ((ReflTransGen.single h₁).tail h₂).tail h₃, stuck_of_asleep ((h.next h₁).next h₂ |>.next h₃) ?_⟩
  simp [s₃, State.goto, isAsleep]

/-! ### Runs in which nobody waits -/

/-- On the way to sleep, or asleep. -/
def waits : Pc → Bool
  | .lockSetWait _ | .lockSleep _ | .asleep _ => true
  | _ => false

structure Inv (s : State τ) : Prop extends Base s where
  awake : ∀ t, waits (s.pc t) = false
  refs : s.refs = s.opens.length
  area : s.area = true ↔ s.opens ≠ [] ∨ ∃ t, s.pc t = .openCount

omit [DecidableEq τ] in
theorem inv_init : Inv (init : State τ) where
  toBase := base_init
  awake _ := rfl
  refs := rfl
  area := by simp [init]

omit [DecidableEq τ] in
theorem waits_of_isAsleep {p : Pc} (h : isAsleep p = true) : waits p = true := by
  cases p
  all_goals first
    | rfl
    | cases h

theorem awake_update {pc : τ → Pc} (h : ∀ u, waits (pc u) = false) {t : τ} {p : Pc} (hp : waits p = false) (u : τ) :
    waits (Function.update pc t p u) = false := by
  by_cases hu : u = t
  · rwa [hu, Function.update_self]
  · rw [Function.update_of_ne hu]
    exact h u

section Inv

variable {s s' : State τ} {t : τ} {p : Pc} (h : Inv s)
include h

/-- A step that leaves the count and the area alone, and does not come to `openCount` or
from there. -/
theorem Inv.plain (hbase : Base s') (hpc : s'.pc = Function.update s.pc t p) (hp : waits p = false)
    (hfrom : s.pc t ≠ .openCount) (hto : p ≠ .openCount) (hrefs : s'.refs = s.refs) (harea : s'.area = s.area)
    (hopens : s'.opens = s.opens) : Inv s' where
  toBase := hbase
  awake := by
    rw [hpc]
    exact awake_update h.awake hp
  refs := by rw [hrefs, hopens, h.refs]
  area := by
    rw [harea, hopens, h.area, hpc]
    refine or_congr_right ⟨fun ⟨u, hu⟩ => ⟨u, ?_⟩, fun ⟨u, hu⟩ => ⟨u, ?_⟩⟩
    · rw [Function.update_of_ne, hu]
      rintro rfl
      exact hfrom hu
    · by_cases hut : u = t
      · rw [hut, Function.update_self] at hu
        exact absurd hu hto
      · rwa [Function.update_of_ne hut] at hu

/-- The area is there, and the thread is about to count itself. -/
theorem Inv.counts (hbase : Base s') (hpc : s'.pc = Function.update s.pc t .openCount) (hrefs : s'.refs = s.refs)
    (harea : s'.area = true) (hopens : s'.opens = s.opens) : Inv s' where
  toBase := hbase
  awake := by
    rw [hpc]
    exact awake_update h.awake rfl
  refs := by rw [hrefs, hopens, h.refs]
  area := by
    rw [harea, hpc]
    exact iff_of_true rfl (.inr ⟨t, Function.update_self ..⟩)

omit [DecidableEq τ] in
/-- Whoever else is inside, is not at `openCount`. -/
theorem Inv.no_count (ht : (s.pc t).inside = true) (hne : s.pc t ≠ .openCount) : ¬ ∃ u, s.pc u = .openCount := by
  rintro ⟨u, hu⟩
  have hut := h.toBase.alone u t (by rw [hu]; rfl) ht
  rw [hut] at hu
  exact hne hu

theorem Inv.step {r : Read} (hclear : Clear s t r) (hs : s.step t r = some s') : Inv s' := by
  have hbase := h.toBase.step hs
  have hawake := h.awake t
  cases hpc : s.pc t with
  | idle | opened => simp [State.step, hpc] at hs
  -- nobody has come this far: the flag was clear at every test
  | lockSetWait | lockSleep | asleep =>
      rw [hpc] at hawake
      cases hawake
  | lock | unlock =>
      simp only [State.step, hpc, State.acquire] at hs
      split at hs
      case isTrue =>
        obtain rfl := Option.some.inj hs
        exact h.plain hbase rfl rfl (by simp [hpc]) (by simp) rfl rfl rfl
      case isFalse => cases hs
  | lockTest c =>
      simp only [State.step, hpc, hclear.1 c hpc, Option.some.injEq] at hs
      subst hs
      exact h.plain hbase rfl rfl (by simp [hpc]) (by simp) rfl rfl rfl
  | lockUnlock c =>
      simp only [State.step, hpc, Option.some.injEq] at hs
      subst hs
      cases c
      all_goals exact h.plain hbase rfl rfl (by simp [hpc]) (by simp [State.entered]) rfl rfl rfl
  | unlockUnlock b =>
      simp only [State.step, hpc, Option.some.injEq] at hs
      subst hs
      cases b
      all_goals exact h.plain hbase rfl rfl (by simp [hpc]) (by simp) rfl rfl rfl
  | unlockTest b =>
      simp only [State.step, hpc, Option.some.injEq] at hs
      subst hs
      refine h.plain hbase rfl ?_ (by simp [hpc]) ?_ rfl rfl rfl
      all_goals
        cases s.eaLockwait
        all_goals simp [waits]
  | lockSet | closeWrite | unlockClear =>
      simp only [State.step, hpc, Option.some.injEq] at hs
      subst hs
      exact h.plain hbase rfl rfl (by simp [hpc]) (by simp) rfl rfl rfl
  | unlockWakeup b =>
      -- there is nobody to wake
      have hnone : s.wakeAsleep.pc = s.pc := by
        funext u
        show (match s.pc u with | .asleep c => Pc.lockTest c | p => p) = s.pc u
        have hu := h.awake u
        split
        case h_1 c hc =>
          rw [hc] at hu
          cases hu
        case h_2 => rfl
      simp only [State.step, hpc, Option.some.injEq] at hs
      subst hs
      have hpc' : (s.wakeAsleep.goto t (.unlockClear b)).pc = Function.update s.pc t (.unlockClear b) := by
        show Function.update s.wakeAsleep.pc t _ = _
        rw [hnone]
      exact h.plain hbase hpc' rfl (by simp [hpc]) (by simp) rfl rfl rfl
  | openTest =>
      simp only [State.step, hpc, Option.some.injEq] at hs
      subst hs
      cases harea : s.area with
      -- an area that is there is not read again
      | true => exact h.counts (harea ▸ hbase) (by rfl) rfl harea rfl
      | false => exact h.plain (harea ▸ hbase) (by rfl) rfl (by simp [hpc]) (by simp) rfl rfl rfl
  | openRead =>
      simp only [State.step, hpc] at hs
      split at hs
      case isTrue =>
        obtain rfl := Option.some.inj hs
        exact h.plain hbase rfl rfl (by simp [hpc]) (by simp) rfl rfl rfl
      case isFalse hok =>
        obtain rfl := Option.some.inj hs
        have hnull := hclear.2 hpc (Bool.eq_false_iff.mpr hok)
        exact h.counts hbase rfl rfl (by show (!r.null) = true; rw [hnull]; rfl) rfl
  | openCount =>
      -- the thread at `openCount` vouches for the area until the count does
      have harea : s.area = true := h.area.mpr (.inr ⟨t, hpc⟩)
      simp only [State.step, hpc, Option.some.injEq] at hs
      subst hs
      refine ⟨hbase, awake_update h.awake rfl, ?_, iff_of_true harea (.inl (List.cons_ne_nil t s.opens))⟩
      show s.refs + 1 = ((t :: s.opens).length : Int)
      rw [h.refs, List.length_cons]
      rfl
  | closeTest commit =>
      -- the thread is still counted, so the area is there
      have harea : s.area = true := by
        refine h.area.mpr (.inl (List.ne_nil_of_mem ((h.mem t).mpr ?_)))
        rw [hpc]
        rfl
      simp only [State.step, hpc, harea, if_true, Option.some.injEq] at hs
      subst hs
      refine h.plain hbase rfl ?_ (by simp [hpc]) ?_ rfl rfl rfl
      all_goals
        cases commit
        all_goals simp [waits]
  | closeCount =>
      have hmem : t ∈ s.opens := (h.mem t).mpr (by rw [hpc]; rfl)
      have hnone := h.no_count (t := t) (by rw [hpc]; rfl) (by simp [hpc])
      have hlen := List.length_erase_of_mem hmem
      have hpos := List.length_pos_of_mem hmem
      have hrefs : s.refs - 1 = ((s.opens.erase t).length : Int) := by
        rw [h.refs, hlen]
        omega
      -- no thread comes to `openCount`
      have hnone' : ¬ ∃ u, Function.update s.pc t (.unlock false) u = .openCount := by
        rintro ⟨u, hu⟩
        by_cases hut : u = t
        · rw [hut, Function.update_self] at hu
          cases hu
        · rw [Function.update_of_ne hut] at hu
          exact hnone ⟨u, hu⟩
      simp only [State.step, hpc] at hs
      split at hs
      case isTrue hlast =>
        obtain rfl := Option.some.inj hs
        have hnil : s.opens.erase t = [] := List.length_eq_zero_iff.mp (by omega)
        refine ⟨hbase, awake_update h.awake rfl, hrefs, iff_of_false Bool.false_ne_true ?_⟩
        rintro (hne | hcount)
        · exact hne hnil
        · exact hnone' hcount
      case isFalse hmore =>
        obtain rfl := Option.some.inj hs
        refine ⟨hbase, awake_update h.awake rfl, hrefs, iff_of_true ?_ (.inl ?_)⟩
        · exact h.area.mpr (.inl (List.ne_nil_of_mem hmem))
        · intro hnil
          have hnil' : s.opens.erase t = [] := hnil
          rw [hnil'] at hrefs
          exact hmore hrefs

theorem Inv.next (hs : Next Clear s s') : Inv s' := by
  have hbase := h.toBase.next hs
  cases hs with
  | step t r hclear hstep => exact h.step hclear hstep
  | callOpen t hpc => exact h.plain hbase rfl rfl (by simp [hpc]) (by simp) rfl rfl rfl
  | callClose t commit hpc => exact h.plain hbase rfl rfl (by simp [hpc]) (by simp) rfl rfl rfl

omit [DecidableEq τ] in
theorem Inv.area_iff (hout : Outside s) : s.area = true ↔ 0 < s.refs := by
  have hnone : ¬ ∃ t, s.pc t = .openCount := by
    rintro ⟨t, ht⟩
    have := hout t
    rw [ht] at this
    cases this
  rw [h.area, or_iff_left hnone, h.refs, ← List.length_pos_iff]
  exact Int.natCast_pos.symm

theorem Inv.shared : Shared s where
  alone := h.toBase.alone
  awake t hstuck := by
    have hawake := h.awake t
    rw [waits_of_isAsleep hstuck.1] at hawake
    cases hawake
  refs _ := h.refs
  area := h.area_iff
  free t hpc hlast u hu := by
    have hmem : t ∈ s.opens := (h.mem t).mpr (by rw [hpc]; rfl)
    have hone : s.opens.length = 1 := by
      have := h.refs
      omega
    obtain ⟨v, hv⟩ := List.length_eq_one_iff.mp hone
    rw [hv, List.mem_singleton] at hmem hu
    rw [hu, hmem]

end Inv

/-- An area of no bytes is counted and not there. -/
theorem null_of_read {s : State τ} {t : τ} {r : Read} (h : Base s) (hpc : s.pc t = .openRead) (hok : r.fails = false)
    (hnull : r.null = true) :
    ∃ s', ReflTransGen (Next Any) s s' ∧ Outside s' ∧ s'.area = false ∧ 0 < s'.refs := by
  let s₁ := { s with area := false }.goto t .openCount
  let s₂ := { s₁ with refs := s₁.refs + 1, opens := t :: s₁.opens }.goto t (.unlock true)
  have h₁ : Next Any s s₁ := .step t r trivial (by simp [State.step, hpc, hok, hnull, s₁])
  have h₂ : Next Any s₁ s₂ := .step t r trivial (by simp [State.step, State.goto, s₁, s₂])
  refine ⟨s₂, (ReflTransGen.single h₁).tail h₂, fun u => ?_, rfl, ?_⟩
  · by_cases hu : u = t
    · simp [s₂, State.goto, hu, Pc.inside]
    · rw [Bool.eq_false_iff]
      intro hin
      have hin' : (s.pc u).inside = true := by simpa [s₂, s₁, State.goto, hu] using hin
      exact hu (h.alone u t hin' (by rw [hpc]; rfl))
  · have hge := h.refs_ge
    show 0 < s.refs + 1
    omega

/-- For any number of threads: in a run in which no thread finds `IN_EA_LOCKED` set and none
reads an area of no bytes, the area is shared safely in every state. In every run at most
one thread is inside; a thread that finds the flag set can go to sleep for good, and an area
of no bytes that is read can be counted without being there. -/
theorem ea_shared :
    (∀ s : State τ, ReflTransGen (Next Clear) init s → Shared s)
      ∧ ∀ s : State τ, ReflTransGen (Next Any) init s →
        Alone s
          ∧ (∀ t c, s.pc t = .lockTest c → s.eaLocked = true → ∃ s', ReflTransGen (Next Any) s s' ∧ Stuck s' t)
          ∧ ∀ t (r : Read), s.pc t = .openRead → r.fails = false → r.null = true →
            ∃ s', ReflTransGen (Next Any) s s' ∧ Outside s' ∧ s'.area = false ∧ 0 < s'.refs := by
  constructor
  · intro s hrun
    exact (invariant_of_run Inv (fun hinv hnext => hinv.next hnext) inv_init hrun).shared
  · intro s hrun
    have hbase := invariant_of_run Base (fun hinv hnext => hinv.next hnext) base_init hrun
    exact ⟨hbase.alone, fun t c hpc hlocked => stuck_of_test hbase hpc hlocked,
      fun t r hpc hok hnull => null_of_read hbase hpc hok hnull⟩

inductive Move where
  | callOpen (t : Bool)
  | step (t : Bool) (r : Read)

def Move.apply (s : State Bool) : Move → Option (State Bool)
  | .callOpen t => if s.pc t = .idle then some (s.goto t (.lock .openEa)) else none
  | .step t r => s.step t r

theorem next_callOpen {P : State Bool → Bool → Read → Prop} {s s' : State Bool} {t : Bool}
    (h : (Move.callOpen t).apply s = some s') : Next P s s' := by
  simp only [Move.apply, Option.ite_none_right_eq_some, Option.some.injEq] at h
  obtain ⟨hidle, rfl⟩ := h
  exact .callOpen t hidle

theorem Move.next {m : Move} {s s' : State Bool} (h : m.apply s = some s') : Next Any s s' := by
  cases m with
  | callOpen t => exact next_callOpen h
  | step t r => exact .step t r trivial h

/-- A move, unless it is a step that is not `Clear`. -/
def Move.applyClear (s : State Bool) : Move → Option (State Bool)
  | .callOpen t => Move.apply s (.callOpen t)
  | .step t r => if clear s t r then s.step t r else none

theorem Move.next_clear {m : Move} {s s' : State Bool} (h : m.applyClear s = some s') : Next Clear s s' := by
  cases m with
  | callOpen t => exact next_callOpen h
  | step t r =>
      simp only [Move.applyClear, Option.ite_none_right_eq_some] at h
      exact .step t r (clear_of_clear h.1) h.2

/-- A thread opens the area in the given number of steps. -/
def opening (t : Bool) (n : Nat) : List Move :=
  .callOpen t :: List.replicate n (.step t ⟨false, false⟩)

/-- One thread opens the area, and then another one. -/
theorem ea_shared_two :
    ∃ s : State Bool, ReflTransGen (Next Clear) init s ∧ s.opens = [true, false] ∧ Shared s := by
  have hrun := run_of_moves Move.applyClear Move.next_clear (opening false 11 ++ opening true 10)
    (s := init) rfl
  exact ⟨_, hrun, rfl, ea_shared.1 _ hrun⟩

/-- One thread comes to `ffs_rdextattr`. -/
def enter (t : Bool) : List Move :=
  .callOpen t :: List.replicate 4 (.step t ⟨false, false⟩)

/-- A second thread that opens the area while the first one is inside goes to sleep for
good. A thread that opens the area of a file without attributes is counted, and the area is
not there. -/
theorem not_ea_shared :
    (∃ s : State Bool, ReflTransGen (Next Any) init s ∧ Stuck s false ∧ ¬ Shared s)
      ∧ ∃ s : State Bool, ReflTransGen (Next Any) init s
          ∧ (Outside s ∧ s.area = false ∧ 0 < s.refs) ∧ ¬ Shared s := by
  constructor
  · have hrun := run_of_moves Move.apply Move.next
      (enter true ++ [.callOpen false, .step false ⟨false, false⟩]) (s := init) rfl
    have hbase := invariant_of_run Base (fun hinv hnext => hinv.next hnext) base_init hrun
    obtain ⟨s', hsleep, hstuck⟩ := stuck_of_test (t := false) (c := .openEa) hbase rfl rfl
    exact ⟨s', hrun.trans hsleep, hstuck, fun hshared => hshared.awake false hstuck⟩
  · have hrun := run_of_moves Move.apply Move.next (enter true ++ [.step true ⟨false, false⟩]) (s := init) rfl
    have hbase := invariant_of_run Base (fun hinv hnext => hinv.next hnext) base_init hrun
    obtain ⟨s', hread, hout, harea, hrefs⟩ :=
      null_of_read (t := true) (r := ⟨false, true⟩) hbase rfl rfl rfl
    refine ⟨s', hrun.trans hread, ⟨hout, harea, hrefs⟩, fun hshared => ?_⟩
    have hthere := (hshared.area hout).mpr hrefs
    rw [harea] at hthere
    cases hthere

end UfsX.Proofs.ExtattrLock
