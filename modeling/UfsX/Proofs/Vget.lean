import UfsX.Lib.Run
import UfsX.Lib.Threads
import UfsX.Ffs.Vget
import Mathlib.Data.List.Nodup

/-!
# `UfsX.Proofs.Vget`: one in-core inode for each number

Nothing is locked between `ufs_hash_get`, `ialloc_is_critical` and
`ialloc_critical_enter`, so another thread can make the same inode in between; and
a call with `FFSV_REPLACE` makes a second inode when it finds one. `Traced` keeps
the history that matters: a thread is *raced* when, since it looked, another thread
has put an inode of the same number in the table, or has entered the number after
it was found not critical.

`vget_of_run`: in every run in which no raced thread enters and `FFSV_REPLACE` does
not find an inode, each number has one inode, no assertion fails, and every call
returns the inode of the table.
-/

set_option autoImplicit false

namespace UfsX.Proofs.Vget

open UfsX.Lib UfsX.Ffs.Vget
open Relation (ReflTransGen)

variable {τ : Type*} [DecidableEq τ]

/-! ### Runs with their history -/

/-- The number that a thread has looked up, and not entered yet. -/
def looked : Pc → Option Nat
  | .isCritical ino _ | .criticalEnter ino => some ino
  | _ => none

/-- A state, and the threads that have been overtaken. -/
structure Traced (τ : Type*) where
  state : State τ
  raced : τ → Prop

/-- The history after a step of thread `t`. -/
def Traced.races (c : Traced τ) (t u : τ) : Prop :=
  match c.state.pc t with
  | .hashGet _ _ => u ≠ t ∧ c.raced u
  | .criticalEnter ino => c.raced u ∨ (u ≠ t ∧ c.state.pc u = .criticalEnter ino)
  | .hashInsert ino => c.raced u ∨ (u ≠ t ∧ looked (c.state.pc u) = some ino)
  | _ => c.raced u

/-- A thread calls `ffs_vgetf`, or takes a step. `P` restricts the steps. -/
inductive Next (P : Traced τ → τ → Prop) (c : Traced τ) : Traced τ → Prop where
  | call (t : τ) (ino : Nat) (replace : Bool) (h : (c.state.pc t).free = true) :
      Next P c ⟨c.state.goto t (.hashGet ino replace), c.raced⟩
  | step (t : τ) (a : Answer) {s' : State τ} (hP : P c t) (h : c.state.step t a = some s') :
      Next P c ⟨s', c.races t⟩

def start : Traced τ := ⟨init, fun _ => False⟩

/-- No raced thread enters, and `FFSV_REPLACE` finds no inode. -/
def Clear (c : Traced τ) (t : τ) : Prop :=
  (∀ ino, c.state.pc t = .criticalEnter ino → ¬ c.raced t)
    ∧ ∀ ino ip, c.state.pc t = .hashGet ino true → c.state.find ino = some ip → ip.alloc = true

/-- Each number has at most one inode, no assertion has failed, and what a call
has returned is the inode on the chain. -/
structure VgetOk (s : State τ) : Prop where
  numbers : (s.chain.map Inode.number).Nodup
  panic : s.panic = false
  returned : ∀ t ino id, s.pc t = .returned ino id → ∃ ip ∈ s.chain, ip.id = id ∧ ip.number = ino

/-! ### The invariant -/

/-- The number that a thread has in the critical list. -/
def inside : Pc → Option Nat
  | .malloc ino | .criticalLeaveFail ino | .hashInsert ino | .criticalLeave ino _ => some ino
  | _ => none

/-- The inode that a thread is making. -/
def makes : Pc → Option Nat
  | .criticalLeave _ id | .load _ id => some id
  | _ => none

/-- What holds for one thread. -/
def Local (chain : List Inode) (critical : List Nat) (raced : Prop) : Pc → Prop
  | .isCritical ino _ => ¬ raced → ino ∉ chain.map Inode.number
  | .criticalEnter ino => ¬ raced → ino ∉ chain.map Inode.number ∧ ino ∉ critical
  | .malloc ino | .hashInsert ino => ino ∈ critical ∧ ino ∉ chain.map Inode.number
  | .criticalLeaveFail ino => ino ∈ critical
  | .criticalLeave ino id => ino ∈ critical ∧ ⟨id, ino, true⟩ ∈ chain
  | .load ino id => ⟨id, ino, true⟩ ∈ chain
  | .returned ino id => ⟨id, ino, false⟩ ∈ chain
  | _ => True

/-- What holds for two threads. -/
def Apart (p q : Pc) : Prop :=
  (∀ ino, inside p = some ino → inside q ≠ some ino) ∧ ∀ id, makes p = some id → makes q ≠ some id

structure Chains (s : State τ) : Prop where
  panic : s.panic = false
  numbers : (s.chain.map Inode.number).Nodup
  ids : (s.chain.map Inode.id).Nodup
  fresh : ∀ ip ∈ s.chain, ip.id < s.next
  critical : s.critical.Nodup

structure Inv (c : Traced τ) : Prop where
  chains : Chains c.state
  each : ∀ t, Local c.state.chain c.state.critical (c.raced t) (c.state.pc t)
  apart : ∀ t u, u ≠ t → Apart (c.state.pc t) (c.state.pc u)

theorem Apart.symm {p q : Pc} (h : Apart p q) : Apart q p :=
  ⟨fun ino hq hp => h.1 ino hp hq, fun id hq hp => h.2 id hp hq⟩

/-- A thread that has nothing in the critical list and makes nothing. -/
theorem apart_of_none {p q : Pc} (hi : inside p = none) (hm : makes p = none) : Apart p q := by
  refine ⟨fun ino hp => ?_, fun id hp => ?_⟩
  · rw [hi] at hp
    cases hp
  · rw [hm] at hp
    cases hp

omit [DecidableEq τ] in
theorem inv_start : Inv (start : Traced τ) where
  chains := ⟨rfl, List.nodup_nil, List.nodup_nil, by simp [start, init], List.nodup_nil⟩
  each _ := trivial
  apart _ _ _ := apart_of_none rfl rfl

omit [DecidableEq τ] in
theorem Inv.ok {c : Traced τ} (h : Inv c) : VgetOk c.state where
  numbers := h.chains.numbers
  panic := h.chains.panic
  returned t ino id hpc := by
    have hlocal := h.each t
    rw [hpc] at hlocal
    exact ⟨_, hlocal, rfl, rfl⟩

/-! ### One thread moves -/

section Moves

variable {c : Traced τ} {t : τ} (h : Inv c)
include h

/-- Thread `t` goes to `p`; the others stay where they are. -/
theorem Inv.move {s' : State τ} {raced' : τ → Prop} {p : Pc} (hchains : Chains s')
    (hpc : s'.pc = Function.update c.state.pc t p)
    (hself : Local s'.chain s'.critical (raced' t) p)
    (hothers : ∀ u, u ≠ t → Local s'.chain s'.critical (raced' u) (c.state.pc u))
    (hapart : ∀ u, u ≠ t → Apart p (c.state.pc u)) : Inv ⟨s', raced'⟩ where
  chains := hchains
  each u := by
    show Local s'.chain s'.critical (raced' u) (s'.pc u)
    rw [hpc]
    by_cases hu : u = t
    · rw [hu, Function.update_self]
      exact hself
    · rw [Function.update_of_ne hu]
      exact hothers u hu
  apart u v hvu := by
    show Apart (s'.pc u) (s'.pc v)
    rw [hpc]
    by_cases hu : u = t
    · have hv : v ≠ t := fun hv => hvu (hv.trans hu.symm)
      rw [hu, Function.update_self, Function.update_of_ne hv]
      exact hapart v hv
    · rw [Function.update_of_ne hu]
      by_cases hv : v = t
      · rw [hv, Function.update_self]
        exact (hapart u hu).symm
      · rw [Function.update_of_ne hv]
        exact h.apart u v hvu

/-- A step that changes neither the chains nor the critical list. -/
theorem Inv.goto {p : Pc} {raced' : τ → Prop} (hraced : ∀ u, u ≠ t → raced' u = c.raced u)
    (hself : Local c.state.chain c.state.critical (raced' t) p)
    (hapart : ∀ u, u ≠ t → Apart p (c.state.pc u)) : Inv ⟨c.state.goto t p, raced'⟩ := by
  have hchains : Chains (c.state.goto t p) :=
    ⟨h.chains.panic, h.chains.numbers, h.chains.ids, h.chains.fresh, h.chains.critical⟩
  refine h.move hchains rfl hself (fun u hu => ?_) hapart
  rw [hraced u hu]
  exact h.each u

/-- `ialloc_critical_enter` -/
theorem Inv.enter {ino : Nat} (hpc : c.state.pc t = .criticalEnter ino) (hraced : ¬ c.raced t) :
    Inv ⟨{ c.state.goto t (.malloc ino) with critical := c.state.critical ++ [ino] }, c.races t⟩ := by
  have hfree : ino ∉ c.state.chain.map Inode.number ∧ ino ∉ c.state.critical := by
    have hlocal := h.each t
    rw [hpc] at hlocal
    exact hlocal hraced
  have hraces (u : τ) : c.races t u ↔ c.raced u ∨ (u ≠ t ∧ c.state.pc u = .criticalEnter ino) := by
    simp [Traced.races, hpc]
  refine h.move ⟨h.chains.panic, h.chains.numbers, h.chains.ids, h.chains.fresh, ?_⟩ rfl ?_ ?_ ?_
  · exact h.chains.critical.append (List.nodup_singleton _) (by simpa using hfree.2)
  · exact ⟨List.mem_append_right _ (List.mem_singleton_self _), hfree.1⟩
  · intro u hu
    have hlocal := h.each u
    rw [show c.races t u = _ from propext (hraces u)]
    cases hq : c.state.pc u with
    | criticalEnter ino' =>
        -- a thread that is about to enter the same number is raced now
        rw [hq] at hlocal
        intro hno
        have hold := hlocal fun hr => hno (Or.inl hr)
        refine ⟨hold.1, fun hmem => ?_⟩
        rcases List.mem_append.mp hmem with hmem | hmem
        · exact hold.2 hmem
        · rw [List.mem_singleton.mp hmem] at hno
          exact hno (Or.inr ⟨hu, rfl⟩)
    | isCritical ino' r =>
        rw [hq] at hlocal
        exact fun hno => hlocal fun hr => hno (Or.inl hr)
    | malloc ino' | hashInsert ino' | criticalLeave ino' id =>
        rw [hq] at hlocal
        exact ⟨List.mem_append_left _ hlocal.1, hlocal.2⟩
    | criticalLeaveFail ino' =>
        rw [hq] at hlocal
        exact List.mem_append_left _ hlocal
    | load ino' id | returned ino' id =>
        rw [hq] at hlocal
        exact hlocal
    | _ => trivial
  · intro u hu
    refine ⟨fun ino' hin hin' => ?_, fun id hm => by cases hm⟩
    obtain rfl : ino = ino' := Option.some.inj hin
    -- whoever is inside has its number in the list
    have hlocal := h.each u
    cases hq : c.state.pc u with
    | malloc | hashInsert | criticalLeave =>
        rw [hq] at hlocal hin'
        obtain rfl := Option.some.inj hin'
        exact hfree.2 hlocal.1
    | criticalLeaveFail =>
        rw [hq] at hlocal hin'
        obtain rfl := Option.some.inj hin'
        exact hfree.2 hlocal
    | _ =>
        rw [hq] at hin'
        cases hin'

/-- `ialloc_critical_leave` -/
theorem Inv.leave {ino : Nat} {p : Pc} (hin : inside (c.state.pc t) = some ino)
    (hmem : ino ∈ c.state.critical) (hp : inside p = none)
    (hm : ∀ id, makes p = some id → makes (c.state.pc t) = some id)
    (hself : Local c.state.chain (c.state.critical.erase ino) (c.raced t) p) :
    Inv ⟨c.state.criticalLeave t ino p, c.raced⟩ := by
  unfold State.criticalLeave
  rw [if_pos hmem]
  refine h.move ⟨h.chains.panic, h.chains.numbers, h.chains.ids, h.chains.fresh,
    h.chains.critical.erase ino⟩ rfl hself ?_ ?_
  · intro u hu
    have hlocal := h.each u
    have happart := (h.apart t u hu).1 ino hin
    -- the others that are inside have other numbers
    have hkeep {ino' : Nat} (hmem' : ino' ∈ c.state.critical)
        (hin' : inside (c.state.pc u) = some ino') : ino' ∈ c.state.critical.erase ino := by
      have hne : ino' ≠ ino := by
        intro heq
        rw [heq] at hin'
        exact happart hin'
      exact (List.mem_erase_of_ne hne).mpr hmem'
    show Local c.state.chain (c.state.critical.erase ino) (c.raced u) (c.state.pc u)
    cases hq : c.state.pc u with
    | criticalEnter ino' =>
        rw [hq] at hlocal
        exact fun hr => ⟨(hlocal hr).1, fun hmem' => (hlocal hr).2 (List.mem_of_mem_erase hmem')⟩
    | malloc ino' | hashInsert ino' | criticalLeave ino' id =>
        rw [hq] at hlocal
        exact ⟨hkeep hlocal.1 (by rw [hq]; rfl), hlocal.2⟩
    | criticalLeaveFail ino' =>
        rw [hq] at hlocal
        exact hkeep hlocal (by rw [hq]; rfl)
    | isCritical ino' id | load ino' id | returned ino' id =>
        rw [hq] at hlocal
        exact hlocal
    | _ => trivial
  · intro u hu
    refine ⟨fun ino' hin' => ?_, fun id hmk => (h.apart t u hu).2 id (hm id hmk)⟩
    rw [hp] at hin'
    cases hin'

/-- `ufs_hash_insert` -/
theorem Inv.insert {ino : Nat} (hpc : c.state.pc t = .hashInsert ino) :
    Inv ⟨{ c.state.goto t (.criticalLeave ino c.state.next) with
      chain := ⟨c.state.next, ino, true⟩ :: c.state.chain
      next := c.state.next + 1 }, c.races t⟩ := by
  have hown : ino ∈ c.state.critical ∧ ino ∉ c.state.chain.map Inode.number := by
    have hlocal := h.each t
    rw [hpc] at hlocal
    exact hlocal
  have hraces (u : τ) :
      c.races t u ↔ c.raced u ∨ (u ≠ t ∧ looked (c.state.pc u) = some ino) := by
    simp [Traced.races, hpc]
  have hid : c.state.next ∉ c.state.chain.map Inode.id := by
    intro hmem
    obtain ⟨ip, hip, heq⟩ := List.mem_map.mp hmem
    have hlt := h.chains.fresh ip hip
    omega
  refine h.move ⟨h.chains.panic, List.nodup_cons.mpr ⟨hown.2, h.chains.numbers⟩,
    List.nodup_cons.mpr ⟨hid, h.chains.ids⟩, ?_, h.chains.critical⟩ rfl ?_ ?_ ?_
  · intro ip hip
    show ip.id < c.state.next + 1
    rcases List.mem_cons.mp hip with rfl | hip
    · exact Nat.lt_succ_self _
    · exact Nat.lt_succ_of_lt (h.chains.fresh ip hip)
  · exact ⟨hown.1, List.mem_cons_self⟩
  · intro u hu
    have hlocal := h.each u
    rw [show c.races t u = _ from propext (hraces u)]
    show Local (⟨c.state.next, ino, true⟩ :: c.state.chain) c.state.critical _ (c.state.pc u)
    -- a number other than `ino` stays out of the table
    have hout {ino' : Nat} (hne : ino' ≠ ino) (hno : ino' ∉ c.state.chain.map Inode.number) :
        ino' ∉ (⟨c.state.next, ino, true⟩ :: c.state.chain).map Inode.number := by
      rw [List.map_cons, List.mem_cons, not_or]
      exact ⟨hne, hno⟩
    have hraced {ino' : Nat} (hl : looked (c.state.pc u) = some ino')
        (hno : ¬ (c.raced u ∨ (u ≠ t ∧ looked (c.state.pc u) = some ino))) : ino' ≠ ino := by
      intro heq
      exact hno (Or.inr ⟨hu, heq ▸ hl⟩)
    cases hq : c.state.pc u with
    | criticalEnter ino' =>
        rw [hq] at hlocal
        intro hno
        have hold := hlocal fun hr => hno (Or.inl hr)
        exact ⟨hout (hraced (by rw [hq]; rfl) (by rwa [hq])) hold.1, hold.2⟩
    | isCritical ino' r =>
        rw [hq] at hlocal
        intro hno
        exact hout (hraced (by rw [hq]; rfl) (by rwa [hq])) (hlocal fun hr => hno (Or.inl hr))
    | malloc ino' | hashInsert ino' =>
        rw [hq] at hlocal
        refine ⟨hlocal.1, hout (fun heq => ?_) hlocal.2⟩
        have happart := (h.apart t u hu).1 ino (by rw [hpc]; rfl)
        rw [hq, ← heq] at happart
        exact happart rfl
    | criticalLeave ino' id =>
        rw [hq] at hlocal
        exact ⟨hlocal.1, List.mem_cons_of_mem _ hlocal.2⟩
    | load ino' id | returned ino' id =>
        rw [hq] at hlocal
        exact List.mem_cons_of_mem _ hlocal
    | criticalLeaveFail ino' =>
        rw [hq] at hlocal
        exact hlocal
    | _ => trivial
  · intro u hu
    have happart := h.apart t u hu
    rw [hpc] at happart
    refine ⟨happart.1, fun id hmk hmk' => ?_⟩
    obtain rfl : c.state.next = id := Option.some.inj hmk
    -- what another thread makes is on the chain already
    have hlocal := h.each u
    cases hq : c.state.pc u with
    | criticalLeave ino' id =>
        rw [hq] at hlocal hmk'
        obtain rfl := Option.some.inj hmk'
        exact hid (List.mem_map_of_mem hlocal.2)
    | load ino' id =>
        rw [hq] at hlocal hmk'
        obtain rfl := Option.some.inj hmk'
        exact hid (List.mem_map_of_mem hlocal)
    | _ =>
        rw [hq] at hmk'
        cases hmk'

omit [DecidableEq τ] in
/-- The inode of address `id` that thread `t` makes is nobody else's. -/
theorem Inv.load_others {ino id : Nat} (hpc : c.state.pc t = .load ino id) {chain : List Inode}
    (hnumbers : ∀ ino', ino' ∈ chain.map Inode.number → ino' ∈ c.state.chain.map Inode.number)
    (hmakes : ∀ ip ∈ c.state.chain, ip.id ≠ id → ip ∈ chain) {u : τ} (hu : u ≠ t)
    (hreturned : ∀ ino', c.state.pc u = .returned ino' id → ⟨id, ino', false⟩ ∈ chain) :
    Local chain c.state.critical (c.raced u) (c.state.pc u) := by
  have hlocal := h.each u
  have happart := (h.apart t u hu).2 id (by rw [hpc]; rfl)
  cases hq : c.state.pc u with
  | criticalEnter ino' =>
      rw [hq] at hlocal
      exact fun hr => ⟨fun hmem => (hlocal hr).1 (hnumbers _ hmem), (hlocal hr).2⟩
  | isCritical ino' r =>
      rw [hq] at hlocal
      exact fun hr hmem => hlocal hr (hnumbers _ hmem)
  | malloc ino' | hashInsert ino' =>
      rw [hq] at hlocal
      exact ⟨hlocal.1, fun hmem => hlocal.2 (hnumbers _ hmem)⟩
  | criticalLeaveFail ino' =>
      rw [hq] at hlocal
      exact hlocal
  | criticalLeave ino' id' =>
      rw [hq] at hlocal happart
      exact ⟨hlocal.1, hmakes _ hlocal.2 fun heq => happart (congrArg some heq)⟩
  | load ino' id' =>
      rw [hq] at hlocal happart
      exact hmakes _ hlocal fun heq => happart (congrArg some heq)
  | returned ino' id' =>
      rw [hq] at hlocal
      by_cases heq : id' = id
      · subst heq
        exact hreturned ino' hq
      · exact hmakes _ hlocal heq
  | _ => trivial

/-- `inode_wakeup`, at the end of a call that works -/
theorem Inv.wakeup {ino id : Nat} (hpc : c.state.pc t = .load ino id) :
    Inv ⟨(c.state.inodeWakeup id).goto t (.returned ino id), c.raced⟩ := by
  have hmade : (⟨id, ino, true⟩ : Inode) ∈ c.state.chain := by
    have hlocal := h.each t
    rw [hpc] at hlocal
    exact hlocal
  have hnumbers : (c.state.inodeWakeup id).chain.map Inode.number
      = c.state.chain.map Inode.number := by
    unfold State.inodeWakeup
    rw [List.map_map]
    refine List.map_congr_left fun ip _ => ?_
    by_cases heq : ip.id = id <;> simp [heq]
  have hids : (c.state.inodeWakeup id).chain.map Inode.id = c.state.chain.map Inode.id := by
    unfold State.inodeWakeup
    rw [List.map_map]
    refine List.map_congr_left fun ip _ => ?_
    by_cases heq : ip.id = id <;> simp [heq]
  have hmem {ip : Inode} (hip : ip ∈ c.state.chain) :
      (if ip.id = id then { ip with alloc := false } else ip) ∈ (c.state.inodeWakeup id).chain :=
    List.mem_map_of_mem hip
  refine h.move
    ⟨h.chains.panic, hnumbers ▸ h.chains.numbers, hids ▸ h.chains.ids, ?_, h.chains.critical⟩ rfl
    ?_ ?_ fun u _ => apart_of_none rfl rfl
  · intro ip hip
    have hid : ip.id ∈ c.state.chain.map Inode.id := by
      rw [← hids]
      exact List.mem_map_of_mem hip
    obtain ⟨ip', hip', heq⟩ := List.mem_map.mp hid
    have hlt := h.chains.fresh ip' hip'
    rw [heq] at hlt
    exact hlt
  · have hnow := hmem hmade
    rw [if_pos rfl] at hnow
    exact hnow
  · intro u hu
    refine h.load_others hpc ?_ ?_ hu ?_
    · intro ino' hmem'
      rw [← hnumbers]
      exact hmem'
    · intro ip hip hne
      have hnow := hmem hip
      rw [if_neg hne] at hnow
      exact hnow
    · intro ino' hq
      have hlocal := h.each u
      rw [hq] at hlocal
      have hnow := hmem hlocal
      rw [if_pos rfl] at hnow
      exact hnow

/-- `vget_rel`, at the end of a call that fails -/
theorem Inv.release {ino id : Nat} (hpc : c.state.pc t = .load ino id) :
    Inv ⟨(c.state.vgetRel id).goto t .failed, c.raced⟩ := by
  have hsub : (c.state.vgetRel id).chain.Sublist c.state.chain := List.eraseP_sublist
  refine h.move
    ⟨h.chains.panic, h.chains.numbers.sublist (hsub.map _), h.chains.ids.sublist (hsub.map _), ?_,
      h.chains.critical⟩ rfl trivial ?_ fun u _ => apart_of_none rfl rfl
  · intro ip hip
    exact h.chains.fresh ip (hsub.subset hip)
  · intro u hu
    refine h.load_others hpc (fun ino' hmem => (hsub.map _).subset hmem) ?_ hu ?_
    · intro ip hip hne
      exact (List.mem_eraseP_of_neg (by simpa using hne)).mpr hip
    · intro ino' hq
      -- an inode that is still being made has not been returned
      have hmade := h.each t
      have hother := h.each u
      rw [hpc] at hmade
      rw [hq] at hother
      have heq := List.inj_on_of_nodup_map h.chains.ids hmade hother rfl
      simp at heq

end Moves

/-! ### Runs -/

section Runs

variable {c : Traced τ} {t : τ} (h : Inv c)
include h

theorem Inv.step {a : Answer} {s' : State τ} (hclear : Clear c t) (hs : c.state.step t a = some s') :
    Inv ⟨s', c.races t⟩ := by
  have hlocal := h.each t
  have hkeep (hpc : ∀ ino r, c.state.pc t ≠ .hashGet ino r)
      (hpc' : ∀ ino, c.state.pc t ≠ .criticalEnter ino ∧ c.state.pc t ≠ .hashInsert ino) :
      c.races t = c.raced := by
    funext u
    unfold Traced.races
    split
    · next heq => exact absurd heq (hpc _ _)
    · next heq => exact absurd heq (hpc' _).1
    · next heq => exact absurd heq (hpc' _).2
    · rfl
  simp only [State.step, h.chains.panic, Bool.false_eq_true, if_false] at hs
  cases hpc : c.state.pc t with
  | idle | returned | failed => simp [hpc] at hs
  | hashGet ino r =>
      have hraces (u : τ) (hu : u ≠ t) : c.races t u = c.raced u := by
        simp [Traced.races, hpc, hu]
      simp only [hpc] at hs
      cases hf : c.state.find ino with
      | none =>
          rw [hf] at hs
          obtain rfl := Option.some.inj hs
          refine h.goto hraces (fun _ hmem => ?_) fun u _ => apart_of_none rfl rfl
          obtain ⟨ip, hip, heq⟩ := List.mem_map.mp hmem
          exact List.find?_eq_none.mp hf ip hip (decide_eq_true heq)
      | some ip =>
          rw [hf] at hs
          have hip : ip ∈ c.state.chain := List.mem_of_find?_eq_some hf
          have hino : ip.number = ino := by simpa using List.find?_some hf
          cases halloc : ip.alloc with
          | true => simp [halloc] at hs
          | false =>
              simp only [halloc, Bool.false_eq_true, if_false] at hs
              cases a with
              | again =>
                  obtain rfl := Option.some.inj hs
                  have hsame : c.state.goto t (.hashGet ino r) = c.state := by
                    unfold State.goto
                    rw [← hpc, Function.update_eq_self]
                  have hgoto := h.goto (p := .hashGet ino r) hraces trivial
                    fun u _ => apart_of_none rfl rfl
                  rwa [hsame] at hgoto
              | error =>
                  obtain rfl := Option.some.inj hs
                  exact h.goto hraces trivial fun u _ => apart_of_none rfl rfl
              | ok =>
                  cases r with
                  | true =>
                      -- a call with `FFSV_REPLACE` does not get here
                      have hno := hclear.2 ino ip hpc hf
                      rw [halloc] at hno
                      cases hno
                  | false =>
                      obtain rfl := Option.some.inj hs
                      refine h.goto hraces ?_ fun u _ => apart_of_none rfl rfl
                      show ⟨ip.id, ino, false⟩ ∈ c.state.chain
                      rw [← hino, ← halloc]
                      exact hip
  | isCritical ino r =>
      rw [hkeep (by simp [hpc]) (by simp [hpc])]
      simp only [hpc] at hs
      rw [hpc] at hlocal
      split at hs
      · obtain rfl := Option.some.inj hs
        exact h.goto (fun _ _ => rfl) trivial fun u _ => apart_of_none rfl rfl
      · next hno =>
          obtain rfl := Option.some.inj hs
          exact h.goto (fun _ _ => rfl) (fun hr => ⟨hlocal hr, hno⟩) fun u _ => apart_of_none rfl rfl
  | criticalWait ino r =>
      rw [hkeep (by simp [hpc]) (by simp [hpc])]
      simp only [hpc] at hs
      split at hs
      all_goals
        obtain rfl := Option.some.inj hs
        exact h.goto (fun _ _ => rfl) trivial fun u _ => apart_of_none rfl rfl
  | asleep ino r =>
      rw [hkeep (by simp [hpc]) (by simp [hpc])]
      simp only [hpc, Option.some.injEq] at hs
      subst hs
      exact h.goto (fun _ _ => rfl) trivial fun u _ => apart_of_none rfl rfl
  | criticalEnter ino =>
      have hraced := hclear.1 ino hpc
      rw [hpc] at hlocal
      simp only [hpc, if_neg (hlocal hraced).2, Option.some.injEq] at hs
      subst hs
      exact h.enter hpc hraced
  | malloc ino =>
      rw [hkeep (by simp [hpc]) (by simp [hpc])]
      have happart (u : τ) (hu : u ≠ t) := h.apart t u hu
      simp only [hpc] at hs happart
      rw [hpc] at hlocal
      cases a with
      | error =>
          obtain rfl := Option.some.inj hs
          exact h.goto (fun _ _ => rfl) hlocal.1 happart
      | ok | again =>
          obtain rfl := Option.some.inj hs
          exact h.goto (fun _ _ => rfl) hlocal happart
  | criticalLeaveFail ino =>
      rw [hkeep (by simp [hpc]) (by simp [hpc])]
      rw [hpc] at hlocal
      simp only [hpc, Option.some.injEq] at hs
      subst hs
      exact h.leave (by rw [hpc]; rfl) hlocal rfl (fun id hno => by cases hno) trivial
  | hashInsert ino =>
      simp only [hpc, Option.some.injEq] at hs
      subst hs
      exact h.insert hpc
  | criticalLeave ino id =>
      rw [hkeep (by simp [hpc]) (by simp [hpc])]
      rw [hpc] at hlocal
      simp only [hpc, Option.some.injEq] at hs
      subst hs
      exact h.leave (by rw [hpc]; rfl) hlocal.1 rfl (by rw [hpc]; exact fun id hm => hm) hlocal.2
  | load ino id =>
      rw [hkeep (by simp [hpc]) (by simp [hpc])]
      simp only [hpc] at hs
      cases a with
      | error =>
          obtain rfl := Option.some.inj hs
          exact h.release hpc
      | ok | again =>
          obtain rfl := Option.some.inj hs
          exact h.wakeup hpc

theorem Inv.next {c' : Traced τ} (hs : Next Clear c c') : Inv c' := by
  cases hs with
  | call t ino replace hfree => exact h.goto (fun _ _ => rfl) trivial fun u _ => apart_of_none rfl rfl
  | step t a hclear hstep => exact h.step hclear hstep

end Runs

/-- In every run of any number of threads in which no raced thread enters its
number and `FFSV_REPLACE` finds no inode, there is one inode for each number. -/
theorem vget_of_run {c : Traced τ} (hrun : ReflTransGen (Next Clear) start c) : VgetOk c.state := by
  have hinv := invariant_of_run Inv (fun ha hs => ha.next hs) inv_start hrun
  exact hinv.ok

/-! ### Two threads -/

/-- A thread calls `ffs_vgetf`, or takes a step. -/
inductive Move where
  | call (t : Bool) (ino : Nat) (replace : Bool)
  | step (t : Bool)

def Move.apply (c : Traced Bool) : Move → Option (Traced Bool)
  | .call t ino replace =>
      if (c.state.pc t).free then some ⟨c.state.goto t (.hashGet ino replace), c.raced⟩ else none
  | .step t => (c.state.step t .ok).map fun s' => ⟨s', c.races t⟩

theorem Move.next {m : Move} {c c' : Traced Bool} (h : m.apply c = some c') :
    Next (fun _ _ => True) c c' := by
  cases m with
  | call t ino replace =>
      simp only [Move.apply, Option.ite_none_right_eq_some, Option.some.injEq] at h
      obtain ⟨hfree, rfl⟩ := h
      exact .call t ino replace hfree
  | step t =>
      obtain ⟨s', hs, rfl⟩ := Option.map_eq_some_iff.mp h
      exact .step t .ok trivial hs

/-- A call of one thread, from its beginning to its end. -/
def whole (t : Bool) (ino : Nat) (replace : Bool) : List Move :=
  [.call t ino replace, .step t, .step t, .step t, .step t, .step t, .step t, .step t]

/-- Both threads look before one of them enters. -/
def lookBoth (ino : Nat) : List Move :=
  [.call true ino false, .step true, .step true, .call false ino false, .step false, .step false]

/-- A step of a thread that neither enters nor looks with `FFSV_REPLACE`. -/
theorem next_of_pc {c : Traced τ} {t : τ} {s' : State τ} (p : Pc) (hpc : c.state.pc t = p)
    (hp : ∀ ino, p ≠ .criticalEnter ino ∧ p ≠ .hashGet ino true)
    (hs : c.state.step t .ok = some s') : Next Clear c ⟨s', c.races t⟩ := by
  refine .step t .ok ⟨fun ino hno => ?_, fun ino ip hno => ?_⟩ hs
  · exact absurd (hpc.symm.trans hno) (hp ino).1
  · exact absurd (hpc.symm.trans hno) (hp ino).2

/-- Thread `true` makes inode 4 while nobody else does anything. -/
theorem vget_of_run_one :
    ∃ c : Traced Bool, c.state.pc true = .returned 4 0 ∧ VgetOk c.state := by
  have hget := ReflTransGen.single (.call true 4 false rfl : Next Clear (start : Traced Bool) _)
  have hcheck := hget.tail (next_of_pc (t := true) (.hashGet 4 false) rfl (by simp) rfl)
  have henter := hcheck.tail (next_of_pc (t := true) (.isCritical 4 false) rfl (by simp) rfl)
  -- nobody has raced the thread
  have hmalloc := henter.tail (.step true .ok
    ⟨fun _ _ hraced => hraced.1 rfl, fun ino ip hno => by cases hno⟩ rfl)
  have hinsert := hmalloc.tail (next_of_pc (t := true) (.malloc 4) rfl (by simp) rfl)
  have hleave := hinsert.tail (next_of_pc (t := true) (.hashInsert 4) rfl (by simp) rfl)
  have hload := hleave.tail (next_of_pc (t := true) (.criticalLeave 4 0) rfl (by simp) rfl)
  have hend := hload.tail (next_of_pc (t := true) (.load 4 0) rfl (by simp) rfl)
  exact ⟨_, rfl, vget_of_run hend⟩

/-- Without the conditions: two threads that look before one of them enters make
two inodes of one number; the second one to enter can find the number there; and a
call with `FFSV_REPLACE` makes a second inode. -/
theorem not_vget_of_run :
    (∃ c : Traced Bool, ReflTransGen (Next fun _ _ => True) start c
        ∧ ¬ (c.state.chain.map Inode.number).Nodup)
    ∧ (∃ c : Traced Bool, ReflTransGen (Next fun _ _ => True) start c ∧ c.state.panic = true)
    ∧ ∃ c : Traced Bool, ReflTransGen (Next fun _ _ => True) start c
        ∧ ¬ (c.state.chain.map Inode.number).Nodup := by
  refine ⟨?_, ?_, ?_⟩
  · refine ⟨_, run_of_moves Move.apply Move.next
      (lookBoth 4 ++ [.step true, .step true, .step true, .step true, .step true,
        .step false, .step false, .step false]) rfl, ?_⟩
    decide
  · exact ⟨_, run_of_moves Move.apply Move.next (lookBoth 4 ++ [.step true, .step false]) rfl, rfl⟩
  · refine ⟨_, run_of_moves Move.apply Move.next
      (whole true 4 false ++ [.call false 4 true, .step false, .step false, .step false,
        .step false, .step false]) rfl, ?_⟩
    decide

end UfsX.Proofs.Vget
