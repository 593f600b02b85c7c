import UfsX.Lib.Run
import UfsX.Ufs.Sleep
import Mathlib.Data.List.Nodup

/-!
# `UfsX.Proofs.Sleep`: lost wakeups

For each of the three wait protocols, `Lost` is a state in which a thread sleeps,
what it waited for is over, and nobody is going to wake it.

* A lookup keeps the inode lock, so that no thread ever finds `INL_LOOK` set and
  goes to sleep: nothing is lost.
* `ialloc_critical_wait` sleeps after it has dropped the lock of the list, and
  `ufs_hash_get` sets `INL_WAIT_ALLOC` and sleeps while `inode_wakeup` takes no
  lock at all. Nothing is lost as long as no thread is between its test and its
  sleep when the waker makes its last step.

`no_lost_wakeup` puts them together.
-/

set_option autoImplicit false

namespace UfsX.Proofs

open UfsX.Lib UfsX.Ufs
open Relation (ReflTransGen)

variable {τ : Type*} [DecidableEq τ]

/-! ### Lookups -/

namespace Lookup

open Ufs.Lookup

/-- A thread sleeps although no lookup is going on, and no wakeup is on its
way. -/
def Lost (s : State τ) : Prop :=
  (∃ t, s.pc t = .asleep) ∧ s.look = false
    ∧ ∀ u, s.pc u ≠ .leaveWakeup ∧ s.pc u ≠ .leaveClearWait
      ∧ (s.pc u = .leaveTest → s.waitLookup = false)

/-- Between `INL_LOOK` is set and cleared. -/
def looks : Pc → Bool
  | .inside | .leaveClear => true
  | _ => false

/-- On the way to sleep, or asleep. -/
def waits : Pc → Bool
  | .enterSetWait | .enterUnlock | .enterSleep | .asleep => true
  | _ => false

/-- `INL_LOOK` is set only while its owner has the inode lock, and nobody is on
the way to sleep. -/
structure Inv (s : State τ) : Prop where
  lock : Excludes Pc.inLock s.lock s.pc
  look : s.look = true → ∃ t, looks (s.pc t) = true
  awake : ∀ t, waits (s.pc t) = false

omit [DecidableEq τ] in
theorem inv_init : Inv (init : State τ) where
  lock _ := by simp [init, Pc.inLock]
  look hno := by cases hno
  awake _ := rfl

omit [DecidableEq τ] in
theorem Inv.not_lost {s : State τ} (h : Inv s) : ¬ Lost s := by
  rintro ⟨⟨t, ht⟩, -, -⟩
  have hawake := h.awake t
  rw [ht] at hawake
  cases hawake

/-- Another program counter for one thread. -/
theorem awake_goto {pc : τ → Pc} {t : τ} {p : Pc} (h : ∀ u, waits (pc u) = false)
    (hp : waits p = false) : ∀ u, waits (Function.update pc t p u) = false := by
  intro u
  by_cases hu : u = t
  · rwa [hu, Function.update_self]
  · rw [Function.update_of_ne hu]
    exact h u

theorem look_goto {pc : τ → Pc} {t : τ} {p : Pc} (h : ∃ u, looks (pc u) = true)
    (hp : looks (pc t) = true → looks p = true) :
    ∃ u, looks (Function.update pc t p u) = true := by
  obtain ⟨u, hu⟩ := h
  refine ⟨u, ?_⟩
  by_cases hut : u = t
  · rw [hut, Function.update_self]
    exact hp (hut ▸ hu)
  · rwa [Function.update_of_ne hut]

theorem inLock_of_looks {p : Pc} (h : looks p = true) : p.inLock = true := by
  cases p <;> first | rfl | cases h

section Step

variable {s : State τ} {t : τ} {p : Pc} (h : Inv s)
include h

theorem Inv.goto (hlock : p.inLock = (s.pc t).inLock)
    (hlook : looks (s.pc t) = true → looks p = true) (hp : waits p = false) : Inv (s.goto t p) :=
  ⟨h.lock.keep hlock, fun hl => look_goto (h.look hl) hlook, awake_goto h.awake hp⟩

/-- From one point of the code to another, for a thread that does not look. -/
theorem Inv.along {p₀ : Pc} (hpc : s.pc t = p₀) (hlock : p.inLock = p₀.inLock) (hlook : looks p₀ = false)
    (hp : waits p = false) : Inv (s.goto t p) := by
  rw [← hpc] at hlock hlook
  refine h.goto hlock ?_ hp
  intro hno
  rw [hlook] at hno
  cases hno

theorem Inv.acquire {s' : State τ} (ht : looks (s.pc t) = false) (hlock : p.inLock = true)
    (hp : waits p = false) (hs : s.acquire t p = some s') : Inv s' := by
  unfold State.acquire at hs
  split at hs
  · next hfree =>
      obtain rfl := Option.some.inj hs
      have hex := h.lock
      rw [hfree] at hex
      refine ⟨hex.acquire hlock, fun hl => look_goto (h.look hl) fun hno => ?_, awake_goto h.awake hp⟩
      rw [ht] at hno
      cases hno
  · cases hs

theorem Inv.release (hin : (s.pc t).inLock = true) (ht : looks (s.pc t) = false)
    (hlock : p.inLock = false) (hp : waits p = false) : Inv (s.release t p) := by
  refine ⟨h.lock.release hin hlock, fun hl => look_goto (h.look hl) fun hno => ?_,
    awake_goto h.awake hp⟩
  rw [ht] at hno
  cases hno

theorem Inv.step {s' : State τ} (hs : s.step t = some s') : Inv s' := by
  have hawake := h.awake t
  cases hpc : s.pc t with
  | idle | asleep => simp [State.step, hpc] at hs
  | enterSetWait | enterUnlock | enterSleep =>
      rw [hpc] at hawake
      cases hawake
  | enter | other =>
      simp only [State.step, hpc] at hs
      exact h.acquire (by rw [hpc]; rfl) rfl rfl hs
  | enterTest =>
      -- the thread has the lock, so nobody is looking
      have hlook : s.look = false := by
        by_contra hl
        obtain ⟨u, hu⟩ := h.look (by simpa using hl)
        have hut := h.lock.unique (inLock_of_looks hu) (show (s.pc t).inLock = true by rw [hpc]; rfl)
        rw [hut, hpc] at hu
        cases hu
      simp only [State.step, hpc, hlook, Bool.false_eq_true, if_false, Option.some.injEq] at hs
      subst hs
      exact h.along hpc rfl rfl rfl
  | enterSetLook =>
      simp only [State.step, hpc, Option.some.injEq] at hs
      subst hs
      exact ⟨h.lock.keep (by rw [hpc]; rfl), fun _ => ⟨t, by simp [State.goto, looks]⟩,
        awake_goto h.awake rfl⟩
  | inside =>
      simp only [State.step, hpc, Option.some.injEq] at hs
      subst hs
      exact h.goto (by rw [hpc]; rfl) (fun _ => rfl) rfl
  | leaveClear =>
      simp only [State.step, hpc, Option.some.injEq] at hs
      subst hs
      exact ⟨h.lock.keep (by rw [hpc]; rfl), (fun hno => by cases hno), awake_goto h.awake rfl⟩
  | leaveTest =>
      simp only [State.step, hpc, Option.some.injEq] at hs
      subst hs
      split
      · exact h.along hpc rfl rfl rfl
      · exact h.along hpc rfl rfl rfl
  | leaveClearWait =>
      simp only [State.step, hpc, Option.some.injEq] at hs
      subst hs
      have hgoto : Inv (s.goto t .leaveWakeup) :=
        h.along hpc rfl rfl rfl
      exact ⟨hgoto.lock, hgoto.look, hgoto.awake⟩
  | leaveWakeup =>
      simp only [State.step, hpc, Option.some.injEq] at hs
      subst hs
      -- there is nobody to wake
      have hnone : wakeAll .asleep .enter s.pc = s.pc := by
        funext u
        have hu := h.awake u
        unfold wakeAll
        rw [if_neg]
        intro hno
        rw [hno] at hu
        cases hu
      rw [hnone]
      exact h.along hpc rfl rfl rfl
  | leaveUnlock | otherLocked =>
      simp only [State.step, hpc, Option.some.injEq] at hs
      subst hs
      exact h.release (by rw [hpc]; rfl) (by rw [hpc]; rfl) rfl rfl

theorem Inv.next {s' : State τ} (hs : Next s s') : Inv s' := by
  cases hs with
  | step t hstep => exact h.step hstep
  | callEnter t hidle | callOther t hidle =>
      exact h.goto (by rw [hidle]; rfl) (by rw [hidle]; exact fun hno => by cases hno) rfl

end Step

end Lookup

/-! ### The hash table -/

namespace HashWait

open Ufs.HashWait

/-- A thread sleeps although the inode is ready, and no wakeup is on its way. -/
def Lost (s : State τ) : Prop :=
  (∃ t, s.pc t = .asleep) ∧ s.alloc = false ∧ s.maker ≠ .wakeup ∧ s.maker ≠ .wakeClearWait
    ∧ (s.maker = .wakeTest → s.waitAlloc = false)

/-- The maker makes its last step: it finds `INL_WAIT_ALLOC` clear, or wakes. -/
def LastStep (s : State τ) : Prop :=
  (s.maker = .wakeTest ∧ s.waitAlloc = false) ∨ s.maker = .wakeup

/-- A thread has found `INL_ALLOC` set, and does not sleep yet. -/
def falling : Pc → Bool
  | .getSetWait | .getSleep => true
  | _ => false

/-- At the last step of the maker, nobody is between the test and the sleep. -/
def Clear (s : State τ) : Prop := LastStep s → ∀ t, falling (s.pc t) = false

/-- `INL_ALLOC` is set, or the last step is still to come. -/
def Pending (s : State τ) : Prop :=
  s.alloc = true ∨ s.maker = .wakeTest ∨ s.maker = .wakeClearWait ∨ s.maker = .wakeup

/-- Whoever sleeps, or is about to, will be woken. -/
structure Inv (s : State τ) : Prop where
  pending : ∀ t, falling (s.pc t) = true ∨ s.pc t = .asleep → Pending s
  flag : ∀ t, s.pc t = .getSleep ∨ s.pc t = .asleep → s.waitAlloc = true ∨ s.maker = .wakeup

omit [DecidableEq τ] in
theorem inv_init : Inv (init : State τ) where
  pending t ht := by rcases ht with ht | ht <;> cases ht
  flag t ht := by rcases ht with ht | ht <;> cases ht

omit [DecidableEq τ] in
theorem Inv.not_lost {s : State τ} (h : Inv s) : ¬ Lost s := by
  rintro ⟨⟨t, ht⟩, halloc, hw, hc, hflag⟩
  rcases h.pending t (Or.inr ht) with hp | hp | hp | hp
  · rw [halloc] at hp
    cases hp
  · rcases h.flag t (Or.inr ht) with hf | hf
    · rw [hflag hp] at hf
      cases hf
    · exact hw hf
  · exact hc hp
  · exact hw hp

section Step

variable {s : State τ} (h : Inv s)
include h

/-- A getter goes to a place where it is neither falling nor asleep. -/
theorem Inv.goto {t : τ} {p : Pc} (hp : falling p = false ∧ p ≠ .asleep) : Inv (s.goto t p) where
  pending u hu := by
    rcases update_cases (fun q : Pc => falling q = true ∨ q = .asleep) hu with ⟨-, hq⟩ | ⟨-, hq⟩
    · rw [hp.1] at hq
      exact absurd hq (by simp [hp.2])
    · exact h.pending u hq
  flag u hu := by
    rcases update_cases (fun q : Pc => q = .getSleep ∨ q = .asleep) hu with ⟨-, hq | hq⟩ | ⟨-, hq⟩
    · rw [hq] at hp
      cases hp.1
    · exact absurd hq hp.2
    · exact h.flag u hq

theorem Inv.step {t : τ} {s' : State τ} (hs : s.step t = some s') : Inv s' := by
  cases hpc : s.pc t with
  | idle | asleep => simp [State.step, hpc] at hs
  | get =>
      simp only [State.step, hpc] at hs
      split at hs
      · obtain rfl := Option.some.inj hs
        have hgoto := h.goto (t := t) (p := .getTest) (by decide)
        exact ⟨hgoto.pending, hgoto.flag⟩
      · cases hs
  | getTest =>
      simp only [State.step, hpc, Option.some.injEq] at hs
      subst hs
      by_cases ha : (s.hashed && s.alloc) = true
      · -- the inode is being made, so a wakeup is still to come
        rw [if_pos ha]
        rw [Bool.and_eq_true] at ha
        refine ⟨fun _ _ => Or.inl ha.2, fun u hu => ?_⟩
        rcases update_cases (fun q : Pc => q = .getSleep ∨ q = .asleep) hu with ⟨-, hq⟩ | ⟨-, hq⟩
        · simp at hq
        · exact h.flag u hq
      · rw [if_neg ha]
        exact h.goto (by decide)
  | getSetWait =>
      simp only [State.step, hpc, Option.some.injEq] at hs
      subst hs
      have hpend : Pending s := h.pending t (Or.inl (by rw [hpc]; rfl))
      exact ⟨fun _ _ => hpend, fun _ _ => Or.inl rfl⟩
  | getSleep =>
      simp only [State.step, hpc, Option.some.injEq] at hs
      subst hs
      have hpend : Pending s := h.pending t (Or.inl (by rw [hpc]; rfl))
      have hflag := h.flag t (Or.inl hpc)
      exact ⟨fun _ _ => hpend, fun _ _ => hflag⟩
  | getUnlock =>
      simp only [State.step, hpc, Option.some.injEq] at hs
      subst hs
      have hgoto := h.goto (t := t) (p := .idle) (by decide)
      exact ⟨hgoto.pending, hgoto.flag⟩

omit [DecidableEq τ] in
/-- A step of the maker that leaves the getters alone. -/
theorem Inv.make_quiet {s' : State τ} (hpc : s'.pc = s.pc) (hpend : Pending s → Pending s')
    (hflag : s.waitAlloc = true ∨ s.maker = .wakeup → s'.waitAlloc = true ∨ s'.maker = .wakeup) :
    Inv s' := by
  refine ⟨fun t ht => hpend (h.pending t ?_), fun t ht => hflag (h.flag t ?_)⟩
  · rwa [hpc] at ht
  · rwa [hpc] at ht

omit [DecidableEq τ] h in
/-- The last step: nobody sleeps any more. -/
theorem Inv.make_last {s' : State τ} (hquiet : ∀ t, falling (s'.pc t) = false)
    (hawake : ∀ t, s'.pc t ≠ .asleep) : Inv s' := by
  refine ⟨fun t ht => ?_, fun t ht => ?_⟩
  · rcases ht with ht | ht
    · rw [hquiet t] at ht
      cases ht
    · exact absurd ht (hawake t)
  · rcases ht with ht | ht
    · have hq := hquiet t
      rw [ht] at hq
      cases hq
    · exact absurd ht (hawake t)

omit [DecidableEq τ] in
theorem Inv.make {fail : Bool} {s' : State τ} (hclear : Clear s) (hs : s.make fail = some s') :
    Inv s' := by
  cases hm : s.maker with
  | new | insertLocked | insertUnlock | removeLocked | removeUnlock | wakeClear =>
      simp only [State.make, hm, Option.some.injEq] at hs
      subst hs
      refine h.make_quiet rfl ?_ ?_ <;> simp [Pending, hm]
  | load =>
      simp only [State.make, hm, Option.some.injEq] at hs
      subst hs
      cases fail <;> refine h.make_quiet rfl ?_ ?_ <;> simp [Pending, hm]
  | insert | remove =>
      simp only [State.make, hm] at hs
      split at hs
      · obtain rfl := Option.some.inj hs
        refine h.make_quiet rfl ?_ ?_ <;> simp [Pending, hm]
      · cases hs
  | wakeTest =>
      simp only [State.make, hm, Option.some.injEq] at hs
      subst hs
      cases hw : s.waitAlloc with
      | true => refine h.make_quiet rfl ?_ ?_ <;> simp [Pending, hw]
      | false =>
          refine .make_last (hclear (Or.inl ⟨hm, hw⟩)) fun t ht => ?_
          rcases h.flag t (Or.inr ht) with hf | hf
          · rw [hw] at hf
            cases hf
          · rw [hm] at hf
            cases hf
  | wakeClearWait =>
      simp only [State.make, hm, Option.some.injEq] at hs
      subst hs
      refine h.make_quiet rfl ?_ ?_ <;> simp [Pending]
  | wakeup =>
      simp only [State.make, hm, Option.some.injEq] at hs
      subst hs
      refine .make_last (fun t => ?_) fun t => wakeAll_ne (by decide) s.pc t
      show falling (wakeAll .asleep .get s.pc t) = false
      unfold wakeAll
      split
      · rfl
      · exact hclear (Or.inr hm) t
  | done => simp [State.make, hm] at hs

theorem Inv.next {s' : State τ} (hs : Next Clear s s') : Inv s' := by
  cases hs with
  | step t hstep => exact h.step hstep
  | make fail hclear hstep => exact h.make hclear hstep
  | callGet t hidle => exact h.goto (by decide)

end Step

end HashWait

/-! ### The list of critical inode numbers -/

namespace Critical

open Ufs.Critical

/-- A thread sleeps for a number that is not in the list any more, and no wakeup
of its node is on its way. -/
def Lost (s : State τ) : Prop :=
  ∃ t id ino, s.pc t = .asleep id ino ∧ (∀ n ∈ s.list, n.ino ≠ ino)
    ∧ ∀ u, s.pc u ≠ .leaveWakeup id ino

/-- When thread `t` wakes the sleepers of a node, nobody is between dropping the
lock and going to sleep on it. -/
def Clear (s : State τ) (t : τ) : Prop :=
  ∀ id ino, s.pc t = .leaveWakeup id ino → ∀ u, s.pc u ≠ .waitSleep id ino

/-- The node that a thread has counted itself in. -/
def waitsOn : Pc → Option (Nat × Nat)
  | .waitUnlock id ino | .waitSleep id ino | .asleep id ino => some (id, ino)
  | _ => none

/-- The list has a node for number `ino`. -/
def Has (list : List Node) (id ino : Nat) : Prop := ∃ n ∈ list, n.id = id ∧ n.ino = ino

/-- Whoever waits, waits on a node of the list that knows of it. -/
structure Inv (s : State τ) : Prop where
  lock : Excludes Pc.inLock s.lock s.pc
  inos : (s.list.map Node.ino).Nodup
  found : ∀ t id ino, s.pc t = .waitCount id ino ∨ s.pc t = .leaveWakeup id ino → Has s.list id ino
  counted : ∀ t id ino, waitsOn (s.pc t) = some (id, ino) →
    ∃ n ∈ s.list, n.id = id ∧ n.ino = ino ∧ 0 < n.waiters
  gone : ∀ t u id ino, s.pc t = .leaveRemove ino → waitsOn (s.pc u) ≠ some (id, ino)

omit [DecidableEq τ] in
theorem inv_init : Inv (init : State τ) where
  lock _ := by simp [init, Pc.inLock]
  inos := List.nodup_nil
  found _ _ _ ht := by rcases ht with ht | ht <;> cases ht
  counted _ _ _ ht := by cases ht
  gone _ _ _ _ ht := by cases ht

omit [DecidableEq τ] in
theorem Inv.not_lost {s : State τ} (h : Inv s) : ¬ Lost s := by
  rintro ⟨t, id, ino, ht, hno, -⟩
  obtain ⟨n, hn, -, hino, -⟩ := h.counted t id ino (by rw [ht]; rfl)
  exact hno n hn hino

omit [DecidableEq τ] in
/-- Two nodes of one number are the same. -/
theorem Inv.node_eq {s : State τ} (h : Inv s) {n n' : Node} (hn : n ∈ s.list) (hn' : n' ∈ s.list)
    (heq : n.ino = n'.ino) : n = n' :=
  List.inj_on_of_nodup_map h.inos hn hn' heq

theorem countWaiter_inos (list : List Node) (id : Nat) :
    (countWaiter list id).map Node.ino = list.map Node.ino := by
  unfold countWaiter
  rw [List.map_map]
  refine List.map_congr_left fun n _ => ?_
  simp only [Function.comp_apply]
  split <;> rfl

/-- A node keeps its number, and its count does not fall. -/
theorem mem_countWaiter {list : List Node} (id : Nat) {n : Node} (hn : n ∈ list) :
    ∃ n' ∈ countWaiter list id, n'.id = n.id ∧ n'.ino = n.ino ∧ n.waiters ≤ n'.waiters
      ∧ (n.id = id → 0 < n'.waiters) := by
  refine ⟨_, List.mem_map_of_mem hn, ?_⟩
  by_cases hid : n.id = id
  · rw [if_pos hid]
    exact ⟨rfl, rfl, Nat.le_succ _, fun _ => Nat.succ_pos _⟩
  · rw [if_neg hid]
    exact ⟨rfl, rfl, Nat.le_refl _, fun hno => absurd hno hid⟩

section Step

variable {s : State τ} {t : τ} (h : Inv s)
include h

/-- Thread `t` moves, and the list stays as it is. -/
theorem Inv.move {p : Pc} {lock : Option τ}
    (hlock : Excludes Pc.inLock lock (Function.update s.pc t p))
    (hwaits : ∀ id ino, waitsOn p = some (id, ino) → waitsOn (s.pc t) = some (id, ino))
    (hfound : ∀ id ino, p = .waitCount id ino ∨ p = .leaveWakeup id ino → Has s.list id ino)
    (hgone : ∀ ino, p = .leaveRemove ino → ∀ u id, waitsOn (s.pc u) ≠ some (id, ino)) :
    Inv { s.goto t p with lock := lock } where
  lock := hlock
  inos := h.inos
  found u id ino hu := by
    rcases update_cases (fun q : Pc => q = .waitCount id ino ∨ q = .leaveWakeup id ino) hu
      with ⟨-, hq⟩ | ⟨-, hq⟩
    · exact hfound id ino hq
    · exact h.found u id ino hq
  counted u id ino hu := by
    rcases update_cases (fun q : Pc => waitsOn q = some (id, ino)) hu with ⟨-, hq⟩ | ⟨-, hq⟩
    · exact h.counted t id ino (hwaits id ino hq)
    · exact h.counted u id ino hq
  gone u v id ino hu hv := by
    have hv' : ∃ v', waitsOn (s.pc v') = some (id, ino) := by
      rcases update_cases (fun q : Pc => waitsOn q = some (id, ino)) hv with ⟨-, hq⟩ | ⟨-, hq⟩
      · exact ⟨t, hwaits id ino hq⟩
      · exact ⟨v, hq⟩
    obtain ⟨v', hv'⟩ := hv'
    rcases update_cases (fun q : Pc => q = .leaveRemove ino) hu with ⟨-, hq⟩ | ⟨-, hq⟩
    · exact hgone ino hq v' id hv'
    · exact h.gone u v' id ino hq hv'

/-- A move to a place that has nothing to do with a node. -/
theorem Inv.plain {p : Pc} {lock : Option τ}
    (hlock : Excludes Pc.inLock lock (Function.update s.pc t p)) (hw : waitsOn p = none)
    (hp : ∀ id ino, p ≠ .waitCount id ino ∧ p ≠ .leaveWakeup id ino ∧ p ≠ .leaveRemove ino) :
    Inv { s.goto t p with lock := lock } := by
  refine h.move hlock ?_ ?_ ?_
  · intro id ino hno
    rw [hw] at hno
    cases hno
  · intro id ino hq
    rcases hq with hq | hq
    · exact absurd hq (hp id ino).1
    · exact absurd hq (hp id ino).2.1
  · intro ino hq
    exact absurd hq (hp 0 ino).2.2

theorem Inv.acquire {p : Pc} {s' : State τ} (hin : p.inLock = true) (hw : waitsOn p = none)
    (hp : ∀ id ino, p ≠ .waitCount id ino ∧ p ≠ .leaveWakeup id ino ∧ p ≠ .leaveRemove ino)
    (hs : s.acquire t p = some s') : Inv s' := by
  unfold State.acquire at hs
  split at hs
  · next hfree =>
      obtain rfl := Option.some.inj hs
      have hex := h.lock
      rw [hfree] at hex
      exact h.plain (hex.acquire hin) hw hp
  · cases hs

omit [DecidableEq τ] in
/-- While `t` has the lock, nobody else is in the locked region. -/
theorem Inv.outside {u : τ} (ht : (s.pc t).inLock = true) (hu : u ≠ t) : (s.pc u).inLock = false := by
  by_contra hno
  exact hu (h.lock.unique (by simpa using hno) ht)

/-- Counting a waiter. -/
theorem Inv.count {id ino : Nat} (hpc : s.pc t = .waitCount id ino) :
    Inv ({ s with list := countWaiter s.list id }.goto t (.waitUnlock id ino)) := by
  have hin : (s.pc t).inLock = true := by
    rw [hpc]
    rfl
  refine ⟨h.lock.keep (by rw [hpc]; rfl), ?_, fun u id' ino' hu => ?_, fun u id' ino' hu => ?_,
    fun u v id' ino' hu => ?_⟩
  · show ((countWaiter s.list id).map Node.ino).Nodup
    rw [countWaiter_inos]
    exact h.inos
  · rcases update_cases (fun q : Pc => q = .waitCount id' ino' ∨ q = .leaveWakeup id' ino') hu
      with ⟨-, hq⟩ | ⟨-, hq⟩
    · simp at hq
    · obtain ⟨n, hn, rfl, rfl⟩ := h.found u id' ino' hq
      obtain ⟨n', hn', hid, hino, -⟩ := mem_countWaiter id hn
      exact ⟨n', hn', hid, hino⟩
  · rcases update_cases (fun q : Pc => waitsOn q = some (id', ino')) hu with ⟨-, hq⟩ | ⟨-, hq⟩
    · obtain ⟨rfl, rfl⟩ := Prod.mk.inj (Option.some.inj hq)
      obtain ⟨n, hn, hid, rfl⟩ := h.found t id ino (Or.inl hpc)
      obtain ⟨n', hn', hid', hino, -, hpos⟩ := mem_countWaiter id hn
      exact ⟨n', hn', hid'.trans hid, hino, hpos hid⟩
    · obtain ⟨n, hn, rfl, rfl, hpos⟩ := h.counted u id' ino' hq
      obtain ⟨n', hn', hid, hino, hle, -⟩ := mem_countWaiter id hn
      exact ⟨n', hn', hid, hino, by omega⟩
  · rcases update_cases (fun q : Pc => q = .leaveRemove ino') hu with ⟨-, hq⟩ | ⟨hne, hq⟩
    · cases hq
    · have hout := h.outside hin hne
      rw [hq] at hout
      cases hout

/-- A new number. -/
theorem Inv.insert {ino : Nat} (hpc : s.pc t = .enterTest ino) (hnew : s.find ino = none) :
    Inv ({ s with
      list := s.list ++ [(⟨s.next, ino, 0⟩ : Node)]
      next := s.next + 1 }.goto t (.enterUnlock ino)) := by
  have hplain := h.plain (t := t) (p := .enterUnlock ino) (h.lock.keep (by rw [hpc]; rfl)) rfl
    fun id ino => ⟨by simp, by simp, by simp⟩
  refine ⟨hplain.lock, ?_, fun u id' ino' hu => ?_, fun u id' ino' hu => ?_, hplain.gone⟩
  · have hno : ino ∉ s.list.map Node.ino := by
      intro hmem
      obtain ⟨n, hn, hino⟩ := List.mem_map.mp hmem
      have hne := List.find?_eq_none.mp hnew n hn
      exact hne (decide_eq_true hino)
    show (List.map Node.ino (s.list ++ [_])).Nodup
    rw [List.map_append, List.map_singleton]
    exact h.inos.append (List.nodup_singleton _) (by simpa using hno)
  · obtain ⟨n, hn, hid⟩ := hplain.found u id' ino' hu
    exact ⟨n, List.mem_append_left _ hn, hid⟩
  · obtain ⟨n, hn, hid⟩ := hplain.counted u id' ino' hu
    exact ⟨n, List.mem_append_left _ hn, hid⟩

/-- Removing a number that nobody waits for. -/
theorem Inv.remove {ino : Nat} (hpc : s.pc t = .leaveRemove ino) :
    Inv ({ s with list := s.list.eraseP fun n => n.ino = ino }.goto t .leaveUnlock) := by
  have hin : (s.pc t).inLock = true := by
    rw [hpc]
    rfl
  have hplain := h.plain (t := t) (p := .leaveUnlock) (h.lock.keep (by rw [hpc]; rfl)) rfl
    fun id ino => ⟨by simp, by simp, by simp⟩
  refine ⟨hplain.lock, ?_, fun u id' ino' hu => ?_, fun u id' ino' hu => ?_, hplain.gone⟩
  · exact h.inos.sublist (List.eraseP_sublist.map _)
  · -- these places are in the locked region
    rcases update_cases (fun q : Pc => q = .waitCount id' ino' ∨ q = .leaveWakeup id' ino') hu
      with ⟨-, hq⟩ | ⟨hne, hq⟩
    · simp at hq
    · have hout := h.outside hin hne
      rcases hq with hq | hq <;> rw [hq] at hout <;> cases hout
  · rcases update_cases (fun q : Pc => waitsOn q = some (id', ino')) hu with ⟨-, hq⟩ | ⟨-, hq⟩
    · cases hq
    · obtain ⟨n, hn, hid, rfl, hpos⟩ := h.counted u id' ino' hq
      have hne : n.ino ≠ ino := fun heq => h.gone t u id' ino hpc (heq ▸ hq)
      exact ⟨n, (List.mem_eraseP_of_neg (by simpa using hne)).mpr hn, hid, rfl, hpos⟩

/-- Waking the sleepers of a node, when all its waiters sleep. -/
theorem Inv.wakeup {id ino : Nat} (hpc : s.pc t = .leaveWakeup id ino) (hclear : Clear s t) :
    Inv ({ s with pc := wakeAll (.asleep id ino) .idle s.pc }.goto t (.leaveRemove ino)) := by
  have hin : (s.pc t).inLock = true := by
    rw [hpc]
    rfl
  have hself : wakeAll (.asleep id ino) .idle s.pc t = s.pc t := by
    unfold wakeAll
    rw [if_neg (by rw [hpc]; simp)]
  -- who still waits was not asleep on the node
  have hold {v : τ} {id' ino' : Nat}
      (hv : waitsOn (wakeAll (.asleep id ino) .idle s.pc v) = some (id', ino')) :
      waitsOn (s.pc v) = some (id', ino') ∧ s.pc v ≠ .asleep id ino := by
    unfold wakeAll at hv
    by_cases hs : s.pc v = .asleep id ino
    · rw [if_pos hs] at hv
      cases hv
    · rw [if_neg hs] at hv
      exact ⟨hv, hs⟩
  have hwake : Excludes Pc.inLock s.lock (wakeAll (.asleep id ino) .idle s.pc) := h.lock.wake rfl
  refine ⟨hwake.keep (by rw [hself, hpc]; rfl), h.inos, fun u id' ino' hu => ?_,
    fun u id' ino' hu => ?_, fun u v id' ino' hu hv => ?_⟩
  · rcases update_cases (fun q : Pc => q = .waitCount id' ino' ∨ q = .leaveWakeup id' ino') hu
      with ⟨-, hq⟩ | ⟨-, hq⟩
    · simp at hq
    · exact h.found u id' ino' (hq.imp (fun hq => wakeAll_eq hq (by simp)) fun hq =>
        wakeAll_eq hq (by simp))
  · rcases update_cases (fun q : Pc => waitsOn q = some (id', ino')) hu with ⟨-, hq⟩ | ⟨-, hq⟩
    · cases hq
    · exact h.counted u id' ino' (hold hq).1
  · rcases update_cases (fun q : Pc => waitsOn q = some (id', ino')) hv with ⟨-, hq⟩ | ⟨hne, hq⟩
    · cases hq
    · obtain ⟨hwaits, hnot⟩ := hold hq
      rcases update_cases (fun q : Pc => q = .leaveRemove ino') hu with ⟨-, hino⟩ | ⟨hne', hrem⟩
      · -- `v` waits on the same node, so it is past the lock, and does not sleep yet
        obtain rfl : ino = ino' := by simpa using hino
        obtain ⟨n, hn, hid, hno, -⟩ := h.counted v id' ino hwaits
        obtain ⟨n₀, hn₀, hid₀, hno₀⟩ := h.found t id ino (Or.inr hpc)
        obtain rfl : id' = id := by
          rw [← hid, ← hid₀, h.node_eq hn hn₀ (hno.trans hno₀.symm)]
        have hout := h.outside hin hne
        cases hpv : s.pc v with
        | waitUnlock => rw [hpv] at hout; cases hout
        | waitSleep =>
            rw [hpv] at hwaits
            obtain ⟨rfl, rfl⟩ := Prod.mk.inj (Option.some.inj hwaits)
            exact hclear _ _ hpc v hpv
        | asleep =>
            rw [hpv] at hwaits
            obtain ⟨rfl, rfl⟩ := Prod.mk.inj (Option.some.inj hwaits)
            exact hnot hpv
        | _ => rw [hpv] at hwaits; cases hwaits
      · have hout := h.outside hin hne'
        rw [wakeAll_eq hrem (by simp)] at hout
        cases hout

omit [DecidableEq τ] h in
theorem find_some {ino : Nat} {n : Node} (hf : s.find ino = some n) :
    n ∈ s.list ∧ n.ino = ino :=
  ⟨List.mem_of_find?_eq_some hf, by simpa using List.find?_some hf⟩

theorem Inv.step {s' : State τ} (hclear : Clear s t) (hs : s.step t = some s') : Inv s' := by
  cases hpc : s.pc t with
  | idle | asleep | inside => simp [State.step, hpc] at hs
  | wait ino | enter ino | leave ino =>
      simp only [State.step, hpc] at hs
      exact h.acquire rfl rfl (fun id ino => ⟨by simp, by simp, by simp⟩) hs
  | waitTest ino =>
      simp only [State.step, hpc] at hs
      cases hf : s.find ino with
      | none =>
          rw [hf] at hs
          obtain rfl := Option.some.inj hs
          exact h.plain (h.lock.keep (by rw [hpc]; rfl)) rfl fun id ino =>
            ⟨by simp, by simp, by simp⟩
      | some n =>
          rw [hf] at hs
          obtain rfl := Option.some.inj hs
          obtain ⟨hn, hino⟩ := find_some hf
          refine h.move (h.lock.keep (by rw [hpc]; rfl)) (by simp [waitsOn]) ?_ (by simp)
          intro id' ino' hq
          obtain ⟨rfl, rfl⟩ : n.id = id' ∧ ino = ino' := by simpa using hq
          exact ⟨n, hn, rfl, hino⟩
  | waitCount id ino =>
      simp only [State.step, hpc, Option.some.injEq] at hs
      subst hs
      exact h.count hpc
  | waitUnlock id ino =>
      simp only [State.step, hpc, Option.some.injEq] at hs
      subst hs
      exact h.move (h.lock.release (by rw [hpc]; rfl) rfl) (by rw [hpc]; exact fun _ _ hw => hw)
        (by simp) (by simp)
  | waitSleep id ino =>
      simp only [State.step, hpc, Option.some.injEq] at hs
      subst hs
      exact h.move (h.lock.keep (by rw [hpc]; rfl)) (by rw [hpc]; exact fun _ _ hw => hw)
        (by simp) (by simp)
  | waitEnd | enterUnlock ino | leaveUnlock =>
      simp only [State.step, hpc, Option.some.injEq] at hs
      subst hs
      exact h.plain (h.lock.release (by rw [hpc]; rfl) rfl) rfl fun id ino =>
        ⟨by simp, by simp, by simp⟩
  | enterTest ino =>
      simp only [State.step, hpc] at hs
      cases hf : s.find ino with
      | none =>
          rw [hf] at hs
          obtain rfl := Option.some.inj hs
          exact h.insert hpc hf
      | some n => simp [hf] at hs
  | leaveTest ino =>
      simp only [State.step, hpc] at hs
      cases hf : s.find ino with
      | none => simp [hf] at hs
      | some n =>
          rw [hf] at hs
          obtain rfl := Option.some.inj hs
          obtain ⟨hn, hino⟩ := find_some hf
          by_cases hw : n.waiters > 0
          · rw [if_pos hw]
            refine h.move (h.lock.keep (by rw [hpc]; rfl)) (by simp [waitsOn]) ?_ (by simp)
            intro id' ino' hq
            obtain ⟨rfl, rfl⟩ : n.id = id' ∧ ino = ino' := by simpa using hq
            exact ⟨n, hn, rfl, hino⟩
          · -- nobody has been counted
            rw [if_neg hw]
            refine h.move (h.lock.keep (by rw [hpc]; rfl)) (by simp [waitsOn]) (by simp) ?_
            intro ino' hq u id hu
            obtain rfl : ino = ino' := by simpa using hq
            obtain ⟨n', hn', -, hino', hpos⟩ := h.counted u id ino hu
            rw [h.node_eq hn' hn (hino'.trans hino.symm)] at hpos
            exact hw hpos
  | leaveWakeup id ino =>
      simp only [State.step, hpc, Option.some.injEq] at hs
      subst hs
      exact h.wakeup hpc hclear
  | leaveRemove ino =>
      simp only [State.step, hpc, Option.some.injEq] at hs
      subst hs
      exact h.remove hpc

theorem Inv.next {s' : State τ} (hs : Next Clear s s') : Inv s' := by
  cases hs with
  | step t hclear hstep => exact h.step hclear hstep
  | callWait t ino hidle | callEnter t ino hidle | callLeave t ino hidle =>
      exact h.plain (h.lock.keep (by rw [hidle]; rfl)) rfl fun id ino => ⟨by simp, by simp, by simp⟩

end Step

end Critical

/-! ### All together -/

/-- Threads of type `τ`, in any number and any order of steps: no wakeup of a
lookup is lost; and none of the other two, in runs where nobody is between its
test and its sleep at the moment of the wakeup. -/
theorem no_lost_wakeup :
    (∀ s : Ufs.Lookup.State τ, ReflTransGen Ufs.Lookup.Next Ufs.Lookup.init s → ¬ Lookup.Lost s)
    ∧ (∀ s : Ufs.Critical.State τ,
        ReflTransGen (Ufs.Critical.Next Critical.Clear) Ufs.Critical.init s → ¬ Critical.Lost s)
    ∧ ∀ s : Ufs.HashWait.State τ,
        ReflTransGen (Ufs.HashWait.Next HashWait.Clear) Ufs.HashWait.init s → ¬ HashWait.Lost s := by
  refine ⟨fun s hrun => ?_, fun s hrun => ?_, fun s hrun => ?_⟩
  · have hinv := invariant_of_run Lookup.Inv (fun ha hs => ha.next hs) Lookup.inv_init hrun
    exact hinv.not_lost
  · have hinv := invariant_of_run Critical.Inv (fun ha hs => ha.next hs) Critical.inv_init hrun
    exact hinv.not_lost
  · have hinv := invariant_of_run HashWait.Inv (fun ha hs => ha.next hs) HashWait.inv_init hrun
    exact hinv.not_lost

/-! ### Runs of two threads -/

/-- A move of the list of critical inode numbers: thread `t` takes a step, or
calls a function. -/
inductive CriticalMove where
  | step (t : Bool)
  | wait (t : Bool) (ino : Nat)
  | enter (t : Bool) (ino : Nat)
  | leave (t : Bool) (ino : Nat)

def CriticalMove.apply (s : Ufs.Critical.State Bool) : CriticalMove → Option (Ufs.Critical.State Bool)
  | .step t => s.step t
  | .wait t ino => if s.pc t = .idle then some (s.goto t (.wait ino)) else none
  | .enter t ino => if s.pc t = .idle then some (s.goto t (.enter ino)) else none
  | .leave t ino => if s.pc t = .inside ino then some (s.goto t (.leave ino)) else none

theorem CriticalMove.next {P : Ufs.Critical.State Bool → Bool → Prop} {m : CriticalMove} {s s' : Ufs.Critical.State Bool}
    (h : m.apply s = some s') (hP : ∀ t, m = .step t → P s t) : Ufs.Critical.Next P s s' := by
  cases m with
  | step t => exact .step t (hP t rfl) h
  | wait t ino | enter t ino | leave t ino =>
      simp only [CriticalMove.apply, Option.ite_none_right_eq_some, Option.some.injEq] at h
      obtain ⟨hpc, rfl⟩ := h
      first
        | exact .callWait t ino hpc
        | exact .callEnter t ino hpc
        | exact .callLeave t ino hpc

/-- `Critical.Clear`, for two threads. -/
def CriticalMove.clear (s : Ufs.Critical.State Bool) : CriticalMove → Bool
  | .step t =>
      match s.pc t with
      | .leaveWakeup id ino => s.pc true ≠ .waitSleep id ino ∧ s.pc false ≠ .waitSleep id ino
      | _ => true
  | _ => true

/-- A move that meets the condition. -/
def CriticalMove.applyClear (s : Ufs.Critical.State Bool) (m : CriticalMove) : Option (Ufs.Critical.State Bool) :=
  if m.clear s then m.apply s else none

theorem CriticalMove.next_clear {m : CriticalMove} {s s' : Ufs.Critical.State Bool} (h : m.applyClear s = some s') :
    Ufs.Critical.Next Critical.Clear s s' := by
  unfold CriticalMove.applyClear at h
  rw [Option.ite_none_right_eq_some] at h
  obtain ⟨hclear, happly⟩ := h
  refine CriticalMove.next happly ?_
  rintro t rfl id ino hpc u
  simp only [CriticalMove.clear, hpc, decide_eq_true_eq] at hclear
  cases u with
  | false => exact hclear.2
  | true => exact hclear.1

/-- Thread `true` allocates inode 4. Thread `false` finds the number in the list
and drops the lock; the number is removed before it sleeps. -/
def criticalMoves : List CriticalMove :=
  [.enter true 4, .step true, .step true, .step true,
    .wait false 4, .step false, .step false, .step false, .step false,
    .leave true 4, .step true, .step true, .step true, .step true, .step true,
    .step false]

/-- A move around one inode: a getter takes a step or calls, or the maker takes
a step. -/
inductive HashMove where
  | step (t : Bool)
  | get (t : Bool)
  | make

def HashMove.apply (s : Ufs.HashWait.State Bool) : HashMove → Option (Ufs.HashWait.State Bool)
  | .step t => s.step t
  | .get t => if s.pc t = .idle then some (s.goto t .get) else none
  | .make => s.make false

theorem HashMove.next {P : Ufs.HashWait.State Bool → Prop} {m : HashMove} {s s' : Ufs.HashWait.State Bool}
    (h : m.apply s = some s') (hP : m = .make → P s) : Ufs.HashWait.Next P s s' := by
  cases m with
  | step t => exact .step t h
  | make => exact .make false (hP rfl) h
  | get t =>
      simp only [HashMove.apply, Option.ite_none_right_eq_some, Option.some.injEq] at h
      obtain ⟨hpc, rfl⟩ := h
      exact .callGet t hpc

instance (s : Ufs.HashWait.State Bool) : Decidable (HashWait.Clear s) :=
  inferInstanceAs (Decidable (_ ∧ _ ∨ _ → ∀ _, _ = _))

/-- A move that meets the condition. -/
def HashMove.applyClear (s : Ufs.HashWait.State Bool) : HashMove → Option (Ufs.HashWait.State Bool)
  | .make => if HashWait.Clear s then s.make false else none
  | m => m.apply s

theorem HashMove.next_clear {m : HashMove} {s s' : Ufs.HashWait.State Bool} (h : m.applyClear s = some s') :
    Ufs.HashWait.Next HashWait.Clear s s' := by
  cases m with
  | step t => exact .step t h
  | get t => exact HashMove.next (m := .get t) h (by rintro ⟨⟩)
  | make =>
      rw [HashMove.applyClear, Option.ite_none_right_eq_some] at h
      exact .make false h.1 h.2

/-- A thread finds `INL_ALLOC` set; the maker clears it and finds nobody
waiting; the thread sets `INL_WAIT_ALLOC` and sleeps. -/
def hashMoves : List HashMove :=
  [.make, .make, .make, .make, .get true, .step true, .step true,
    .make, .make, .make, .step true, .step true]

/-- A move around one directory: a thread takes a step, or looks up. -/
inductive LookupMove where
  | step (t : Bool)
  | enter (t : Bool)

def LookupMove.apply (s : Ufs.Lookup.State Bool) : LookupMove → Option (Ufs.Lookup.State Bool)
  | .step t => s.step t
  | .enter t => if s.pc t = .idle then some (s.goto t .enter) else none

theorem LookupMove.next {m : LookupMove} {s s' : Ufs.Lookup.State Bool} (h : m.apply s = some s') :
    Ufs.Lookup.Next s s' := by
  cases m with
  | step t => exact .step t h
  | enter t =>
      simp only [LookupMove.apply, Option.ite_none_right_eq_some, Option.some.injEq] at h
      obtain ⟨hpc, rfl⟩ := h
      exact .callEnter t hpc

/-- One thread looks up while the other one wants to. -/
def lookupInside : List LookupMove := [.enter true, .step true, .step true, .step true, .enter false]

/-- The first one leaves, and the other one looks up. -/
def lookupLeft : List LookupMove :=
  [.step true, .step true, .step true, .step true, .step false, .step false, .step false]

/-- Thread `true` allocates inode 4, and thread `false` sleeps for it. -/
def criticalAsleep : List CriticalMove :=
  [.enter true 4, .step true, .step true, .step true,
    .wait false 4, .step false, .step false, .step false, .step false, .step false]

/-- Thread `true` takes the number from the list and wakes the other one. -/
def criticalAwake : List CriticalMove :=
  [.leave true 4, .step true, .step true, .step true, .step true, .step true]

/-- The maker puts the inode in the table, and thread `true` sleeps for it. -/
def hashAsleep : List HashMove :=
  [.make, .make, .make, .make, .get true, .step true, .step true, .step true, .step true]

/-- The maker is done, and wakes the thread. -/
def hashAwake : List HashMove := [.make, .make, .make, .make, .make]

/-- In each of the protocols: a thread waits, and goes on. -/
theorem no_lost_wakeup_bool :
    (∃ s s' : Ufs.Lookup.State Bool, ReflTransGen Ufs.Lookup.Next Ufs.Lookup.init s
      ∧ s.pc false = .enter ∧ s.look = true ∧ ¬ Lookup.Lost s
      ∧ ReflTransGen Ufs.Lookup.Next s s' ∧ s'.pc false = .inside ∧ ¬ Lookup.Lost s')
    ∧ (∃ s s' : Ufs.Critical.State Bool, ReflTransGen (Ufs.Critical.Next Critical.Clear) Ufs.Critical.init s
      ∧ s.pc false = .asleep 0 4 ∧ ¬ Critical.Lost s
      ∧ ReflTransGen (Ufs.Critical.Next Critical.Clear) s s' ∧ s'.pc false = .idle ∧ s'.list = [] ∧ ¬ Critical.Lost s')
    ∧ ∃ s s' : Ufs.HashWait.State Bool, ReflTransGen (Ufs.HashWait.Next HashWait.Clear) Ufs.HashWait.init s
      ∧ s.pc true = .asleep ∧ ¬ HashWait.Lost s
      ∧ ReflTransGen (Ufs.HashWait.Next HashWait.Clear) s s' ∧ s'.pc true = .get ∧ s'.alloc = false
      ∧ ¬ HashWait.Lost s' := by
  obtain ⟨hlookup, hcritical, hhash⟩ := no_lost_wakeup (τ := Bool)
  have hinside := run_of_moves LookupMove.apply LookupMove.next (s := Ufs.Lookup.init) lookupInside rfl
  have hleft := hinside.trans (run_of_moves LookupMove.apply LookupMove.next lookupLeft rfl)
  have hasleep := run_of_moves CriticalMove.applyClear CriticalMove.next_clear (s := Ufs.Critical.init)
    criticalAsleep rfl
  have hawake := hasleep.trans (run_of_moves CriticalMove.applyClear CriticalMove.next_clear criticalAwake rfl)
  have hsleeps := run_of_moves HashMove.applyClear HashMove.next_clear (s := Ufs.HashWait.init) hashAsleep rfl
  have hwakes := hsleeps.trans (run_of_moves HashMove.applyClear HashMove.next_clear hashAwake rfl)
  exact ⟨⟨_, _, hinside, rfl, rfl, hlookup _ hinside,
      run_of_moves LookupMove.apply LookupMove.next lookupLeft rfl, rfl, hlookup _ hleft⟩,
    ⟨_, _, hasleep, rfl, hcritical _ hasleep,
      run_of_moves CriticalMove.applyClear CriticalMove.next_clear criticalAwake rfl, rfl, rfl, hcritical _ hawake⟩,
    ⟨_, _, hsleeps, rfl, hhash _ hsleeps,
      run_of_moves HashMove.applyClear HashMove.next_clear hashAwake rfl, rfl, rfl, hhash _ hwakes⟩⟩

/-- Without the conditions, a thread can sleep for a number that is gone, and for
an inode that is ready. -/
theorem not_no_lost_wakeup :
    (∃ s : Ufs.Critical.State Bool,
        ReflTransGen (Ufs.Critical.Next fun _ _ => True) Ufs.Critical.init s ∧ Critical.Lost s)
    ∧ ∃ s : Ufs.HashWait.State Bool,
        ReflTransGen (Ufs.HashWait.Next fun _ => True) Ufs.HashWait.init s ∧ HashWait.Lost s := by
  constructor
  · refine ⟨_, run_of_moves CriticalMove.apply (fun h => CriticalMove.next h fun _ _ => trivial)
      criticalMoves rfl, ?_⟩
    exact ⟨false, 0, 4, rfl, by decide, by decide⟩
  · refine ⟨_, run_of_moves HashMove.apply (fun h => HashMove.next h fun _ => trivial) hashMoves
      rfl, ?_⟩
    exact ⟨⟨true, rfl⟩, rfl, by decide, by decide, by decide⟩

end UfsX.Proofs
