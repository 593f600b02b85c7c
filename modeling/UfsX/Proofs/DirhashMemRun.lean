import UfsX.Lib.Run
import UfsX.Proofs.DirhashMem

/-!
# `UfsX.Proofs.DirhashMemRun`: the memory of the directory hashes over runs of threads

`Knows` is what a thread relies on between two of its steps. It is about structures that the thread
has locked exclusively, and `Frame` says that the steps of the others leave it alone. In the other
direction, `Tended` says that a structure in the middle of a build or of a free has a thread at it.
-/

set_option autoImplicit false

namespace UfsX.Proofs.DirhashMem

open UfsX.Lib UfsX.Ufs UfsX.Ufs.DirhashMem
open Relation (ReflTransGen)

variable {Tid Dir : Type} {q : Params} {s s' s₁ : State Tid Dir} {a b : Nat} {d : Dir} {t u : Tid} {p : Pc Dir}

/-! ### Where the threads are -/

/-- The thread has the structure to itself, in this phase. -/
structure Owns (s : State Tid Dir) (t : Tid) (a : Nat) (phase : Phase) : Prop where
  lt : a < s.next
  excl : (s.dh a).lock.excl = some t
  phase_eq : (s.dh a).phase = phase

/-- The structure that `ufsdirhash_create` has allocated is still its own. -/
def Private (s : State Tid Dir) (t : Tid) (ndh : Option Nat) : Prop := ∀ b ∈ ndh, Owns s t b .fresh

/-- What a thread relies on. -/
def Knows (q : Params) (s : State Tid Dir) (t : Tid) : Pc Dir → Prop
  | .createTop _ ndh _ | .createFind _ ndh _ => Private s t ndh
  | .createLock _ ndh _ a => Private s t ndh ∧ (s.dh a).phase ≠ .fresh
  | .createCheck _ ndh excl a =>
      Private s t ndh ∧ (s.dh a).phase ≠ .fresh ∧ (excl = true → a < s.next ∧ (s.dh a).lock.excl = some t)
  | .reserve d a => s.idirhash d = some a ∧ Owns s t a .resting ∧ (s.dh a).hash = false
  | .recycle d a mem =>
      (s.idirhash d = some a ∧ Owns s t a .resting ∧ (s.dh a).hash = false) ∧ mem ≤ memreqd q.sizeofDh MAXDIRSIZE
  | .record d a mem => s.idirhash d = some a ∧ Owns s t a (.reserved mem)
  | .allocHash d a => s.idirhash d = some a ∧ Owns s t a .recorded
  | .fill d a => s.idirhash d = some a ∧ Owns s t a .recorded ∧ (s.dh a).hash = true
  | .held d a .exclusive => s.idirhash d = some a ∧ Owns s t a .resting
  | .freeLocked d a => s.idirhash d = some a ∧ (Owns s t a .resting ∨ Owns s t a .recorded)
  | .takeOff a => Owns s t a .leaving
  | .freeLock _ a => (s.dh a).phase ≠ .fresh
  | .freeCheck _ a => a < s.next ∧ (s.dh a).lock.excl = some t
  | .idle | .downgrade _ _ | .held _ _ .shared | .unlock _ | .drop _ | .freeFind _ => True

/-- The structure that a thread is building or freeing. -/
def tending : Pc Dir → Option Nat
  | .record _ a _ | .allocHash _ a | .fill _ a | .freeLocked _ a | .takeOff a => some a
  | _ => none

/-- A structure in the middle of a build or of a free has a thread at it. -/
def Tended (pc : Tid → Pc Dir) (a : Nat) : Phase → Prop
  | .reserved mem => ∃ t d, pc t = .record d a mem
  | .recorded => ∃ t d, pc t = .allocHash d a ∨ pc t = .fill d a ∨ pc t = .freeLocked d a
  | .leaving => ∃ t, pc t = .takeOff a
  | .fresh | .resting | .gone => True

structure Inv (q : Params) (s : State Tid Dir) : Prop where
  sound : Sound q s
  knows : ∀ t, Knows q s t (s.pc t)
  tended : ∀ a, Tended s.pc a (s.dh a).phase

/-- What a thread has to itself is as it was. -/
structure Frame (t : Tid) (s s' : State Tid Dir) : Prop where
  next : s.next ≤ s'.next
  own : ∀ a < s.next, (s.dh a).lock.excl = some t →
    (s'.dh a).lock.excl = some t ∧ (s'.dh a).phase = (s.dh a).phase ∧ (s'.dh a).hash = (s.dh a).hash
  idirhash : ∀ d, ∀ a < s.next, (s.dh a).lock.excl = some t → s.idirhash d = some a → s'.idirhash d = some a
  notFresh : ∀ a, (s.dh a).phase ≠ .fresh → (s'.dh a).phase ≠ .fresh

theorem Owns.frame {phase : Phase} (h : Owns s t a phase) (hf : Frame t s s') : Owns s' t a phase :=
  have hown := hf.own a h.lt h.excl
  ⟨h.lt.trans_le hf.next, hown.1, hown.2.1.trans h.phase_eq⟩

theorem Private.frame {ndh : Option Nat} (h : Private s t ndh) (hf : Frame t s s') : Private s' t ndh :=
  fun b hb => (h b hb).frame hf

theorem Knows.frame (h : Knows q s t p) (hf : Frame t s s') : Knows q s' t p := by
  have hat : ∀ {d a phase}, s.idirhash d = some a → Owns s t a phase → s'.idirhash d = some a ∧ Owns s' t a phase :=
    fun hd hown => ⟨hf.idirhash _ _ hown.lt hown.excl hd, hown.frame hf⟩
  have hhash : ∀ {a phase v}, Owns s t a phase → (s.dh a).hash = v → (s'.dh a).hash = v :=
    fun hown hv => (hf.own _ hown.lt hown.excl).2.2.trans hv
  cases p with
  | idle => trivial
  | createTop d ndh excl => exact Private.frame h hf
  | createFind d ndh excl => exact Private.frame h hf
  | createLock d ndh excl a => exact ⟨h.1.frame hf, hf.notFresh a h.2⟩
  | createCheck d ndh excl a =>
      refine ⟨h.1.frame hf, hf.notFresh a h.2.1, fun hx => ?_⟩
      obtain ⟨hlt, hexcl⟩ := h.2.2 hx
      exact ⟨hlt.trans_le hf.next, (hf.own a hlt hexcl).1⟩
  | reserve d a => exact ⟨(hat h.1 h.2.1).1, h.2.1.frame hf, hhash h.2.1 h.2.2⟩
  | recycle d a mem => exact ⟨⟨(hat h.1.1 h.1.2.1).1, h.1.2.1.frame hf, hhash h.1.2.1 h.1.2.2⟩, h.2⟩
  | record d a mem => exact hat h.1 h.2
  | allocHash d a => exact hat h.1 h.2
  | fill d a => exact ⟨(hat h.1 h.2.1).1, h.2.1.frame hf, hhash h.2.1 h.2.2⟩
  | downgrade d a => trivial
  | held d a hold =>
      cases hold with
      | exclusive => exact hat h.1 h.2
      | shared => trivial
  | freeLocked d a =>
      rcases h with ⟨hd, hown | hown⟩
      · exact ⟨(hat hd hown).1, .inl (hown.frame hf)⟩
      · exact ⟨(hat hd hown).1, .inr (hown.frame hf)⟩
  | takeOff a => exact Owns.frame h hf
  | unlock a => trivial
  | drop a => trivial
  | freeFind d => trivial
  | freeLock d a => exact hf.notFresh a h
  | freeCheck d a => exact ⟨h.1.trans_le hf.next, (hf.own a h.1 h.2).1⟩

theorem Quiet.frame (h : Quiet u s s') (hne : t ≠ u) : Frame t s s' where
  next := h.next.ge
  own a _ hexcl := ⟨h.keeps a t hne hexcl, (h.core a).phase, (h.core a).hash⟩
  idirhash d a _ _ hd := by rwa [h.idirhash]
  notFresh a ha := by rwa [(h.core a).phase]

theorem Reclaims.frame (h : Reclaims s s') (t : Tid) : Frame t s s' where
  next := h.next.ge
  own a _ hexcl := ⟨(h.lock a).symm ▸ hexcl, h.phase a, h.hash a (by simp [hexcl])⟩
  idirhash d a _ _ hd := by rwa [h.idirhash]
  notFresh a ha := by rwa [h.phase a]

/-- A thread changes a structure that it has to itself. -/
theorem frame_own (hexcl : (s.dh a).lock.excl = some u) (hdh : ∀ b ≠ a, s'.dh b = s.dh b) (hnext : s'.next = s.next)
    (hid : ∀ d, ∀ b ≠ a, s.idirhash d = some b → s'.idirhash d = some b) (hfresh : (s'.dh a).phase ≠ .fresh) (hne : t ≠ u) :
    Frame t s s' := by
  have hother : ∀ {b}, (s.dh b).lock.excl = some t → b ≠ a := fun hb heq =>
    hne (Option.some.inj (hb.symm.trans (heq ▸ hexcl)))
  refine ⟨hnext.ge, fun b _ hb => ?_, fun d b _ hb => hid d b (hother hb), fun b hb => ?_⟩
  · rw [hdh b (hother hb)]
    exact ⟨hb, rfl, rfl⟩
  · by_cases hba : b = a
    · rwa [hba]
    · rwa [hdh b hba]

/-! ### Keeping the invariant -/

theorem Sound.goto [DecidableEq Tid] (h : Sound q s) (t : Tid) (p : Pc Dir) : Sound q (s.goto t p) :=
  ⟨h.fresh, h.phase, h.attached, h.inj, h.nodup, h.mem_list, h.mem, h.mem_le, h.maxmem_le⟩

theorem knows_goto [DecidableEq Tid] {r : Pc Dir} (h : Knows q s t p) : Knows q (s.goto u r) t p :=
  h.frame ⟨le_rfl, fun _ _ h => ⟨h, rfl, rfl⟩, fun _ _ _ _ h => h, fun _ h => h⟩

/-- A thread that goes away from one structure leaves the others with their threads. -/
theorem Tended.goto [DecidableEq Tid] {pc : Tid → Pc Dir} {phase : Phase} (h : Tended pc a phase)
    (hother : tending (pc u) ≠ some a) : Tended (Function.update pc u p) a phase := by
  have hstay : ∀ {t r}, tending r = some a → pc t = r → Function.update pc u p t = r := by
    intro t r hat hr
    have hne : t ≠ u := fun heq => hother (by rw [← heq, hr, hat])
    rwa [Function.update_of_ne hne]
  cases phase with
  | reserved mem =>
      obtain ⟨t, d, hpc⟩ := h
      exact ⟨t, d, hstay rfl hpc⟩
  | recorded =>
      obtain ⟨t, d, hpc⟩ := h
      exact ⟨t, d, hpc.imp (hstay rfl) (Or.imp (hstay rfl) (hstay rfl))⟩
  | leaving =>
      obtain ⟨t, hpc⟩ := h
      exact ⟨t, hstay rfl hpc⟩
  | fresh => trivial
  | resting => trivial
  | gone => trivial

namespace Inv

variable (h : Inv q s)
include h

theorem knows_at (hpc : s.pc t = p) : Knows q s t p := hpc ▸ h.knows t

/-- A structure of a directory that no thread is at. -/
theorem resting (hd : s.idirhash d = some a)
    (hfree : ∀ t, (s.dh a).lock.excl = some t → tending (s.pc t) ≠ some a) : (s.dh a).phase = .resting := by
  have hat := (h.sound.attached a).mpr ⟨d, hd⟩
  have htend := h.tended a
  cases hphase : (s.dh a).phase with
  | resting => rfl
  | reserved mem =>
      rw [hphase] at htend
      obtain ⟨t, d', hpc⟩ := htend
      exact absurd (by rw [hpc]; rfl) (hfree t (h.knows_at hpc).2.excl)
  | recorded =>
      rw [hphase] at htend
      obtain ⟨t, d', hpc⟩ := htend
      rcases hpc with hpc | hpc | hpc
      · exact absurd (by rw [hpc]; rfl) (hfree t (h.knows_at hpc).2.excl)
      · exact absurd (by rw [hpc]; rfl) (hfree t (h.knows_at hpc).2.1.excl)
      · exact absurd (by rw [hpc]; rfl) (hfree t ((h.knows_at hpc).2.elim Owns.excl Owns.excl))
  | fresh => rw [hphase] at hat; exact hat.elim
  | leaving => rw [hphase] at hat; exact hat.elim
  | gone => rw [hphase] at hat; exact hat.elim

/-- The phase of a structure that a directory has. -/
theorem notFresh (hd : s.idirhash d = some a) : (s.dh a).phase ≠ .fresh := by
  intro hphase
  have hat := (h.sound.attached a).mpr ⟨d, hd⟩
  rw [hphase] at hat
  exact hat

theorem quiet (hq : Quiet u s s') (hk : Knows q s' u (s.pc u)) : Inv q s' where
  sound := h.sound.quiet hq
  knows t := by
    rw [hq.pc]
    by_cases ht : t = u
    · rwa [ht]
    · exact (h.knows t).frame (hq.frame ht)
  tended a := by
    rw [hq.pc, (hq.core a).phase]
    exact h.tended a

theorem reclaims (hr : Reclaims s s') (hs : Sound q s') : Inv q s' where
  sound := hs
  knows t := by
    rw [hr.pc]
    exact (h.knows t).frame (hr.frame t)
  tended a := by
    rw [hr.pc, hr.phase a]
    exact h.tended a

variable [DecidableEq Tid]

/-- A step of `u`: what the others know stays, and each structure has its thread. -/
theorem goto (hs : Sound q s') (hpc : s'.pc = s.pc) (hframe : ∀ t ≠ u, Frame t s s') (hk : Knows q s' u p)
    (htend : ∀ a, (tending (s.pc u) ≠ some a ∧ (s'.dh a).phase = (s.dh a).phase)
      ∨ Tended (Function.update s.pc u p) a (s'.dh a).phase) : Inv q (s'.goto u p) where
  sound := hs.goto u p
  knows t := by
    show Knows q (s'.goto u p) t (Function.update s'.pc u p t)
    by_cases ht : t = u
    · rw [ht, Function.update_self]
      exact knows_goto hk
    · rw [Function.update_of_ne ht, hpc]
      exact knows_goto ((h.knows t).frame (hframe t ht))
  tended a := by
    show Tended (Function.update s'.pc u p) a (s'.dh a).phase
    rw [hpc]
    rcases htend a with ⟨hother, hphase⟩ | hnew
    · rw [hphase]
      exact (h.tended a).goto hother
    · exact hnew

/-- A step of a thread that is at no structure. -/
theorem goto_quiet (hq : Quiet u s s') (hat : tending (s.pc u) = none) (hk : Knows q s' u p) : Inv q (s'.goto u p) :=
  h.goto (h.sound.quiet hq) hq.pc (fun _ ht => hq.frame ht) hk fun a => .inl ⟨by simp [hat], (hq.core a).phase⟩

/-- A step of a thread that changes a structure it has to itself. -/
theorem goto_own (hs : Sound q s') (hpc : s'.pc = s.pc) (hexcl : (s.dh a).lock.excl = some u)
    (hdh : ∀ b ≠ a, s'.dh b = s.dh b) (hnext : s'.next = s.next)
    (hid : ∀ d, ∀ b ≠ a, s.idirhash d = some b → s'.idirhash d = some b) (hfresh : (s'.dh a).phase ≠ .fresh)
    (hat : ∀ b ≠ a, tending (s.pc u) ≠ some b) (hk : Knows q s' u p)
    (hnew : Tended (Function.update s.pc u p) a (s'.dh a).phase) : Inv q (s'.goto u p) := by
  refine h.goto hs hpc (fun t ht => frame_own hexcl hdh hnext hid hfresh ht) hk fun b => ?_
  by_cases hb : b = a
  · right
    rwa [hb]
  · exact .inl ⟨hat b hb, by rw [hdh b hb]⟩

end Inv

/-! ### One structure of a thread -/

theorem modify_self (s : State Tid Dir) (a : Nat) (f : Dh Tid → Dh Tid) : (s.modify a f).dh a = f (s.dh a) :=
  Function.update_self ..

theorem modify_other (s : State Tid Dir) (f : Dh Tid → Dh Tid) (hb : b ≠ a) : (s.modify a f).dh b = s.dh b :=
  Function.update_of_ne hb ..

theorem update_other [DecidableEq Dir] {f : Dir → Option Nat} {v : Option Nat} (hb : f d ≠ some b) {d' : Dir}
    (hd' : f d' = some b) : Function.update f d v d' = some b := by
  have hne : d' ≠ d := fun heq => hb (heq ▸ hd')
  rwa [Function.update_of_ne hne]

/-- What `ufsdirhash_create` has allocated is another structure than the one it has found. -/
theorem Private.modify {ndh : Option Nat} (hp : Private s t ndh) (hfresh : (s.dh a).phase ≠ .fresh) (f : Dh Tid → Dh Tid) :
    Private (s.modify a f) t ndh := by
  intro b hb
  have hown := hp b hb
  have hne : b ≠ a := fun heq => hfresh (heq ▸ hown.phase_eq)
  refine ⟨hown.lt, ?_, ?_⟩
  · rw [modify_other s f hne]
    exact hown.excl
  · rw [modify_other s f hne]
    exact hown.phase_eq

theorem private_none (s : State Tid Dir) (t : Tid) : Private s t none := fun _ hb => by cases hb

section Steps

theorem quiet_hold (s : State Tid Dir) (t : Tid) (a : Nat) : Quiet t s (s.modify a (·.hold t)) :=
  quiet_modify t s a _ ⟨rfl, rfl, rfl, rfl⟩ fun _ _ h => h

theorem quiet_setLock (s : State Tid Dir) {l : RwLock Tid}
    (hl : ∀ t' ≠ t, (s.dh a).lock.excl = some t' → l.excl = some t') : Quiet t s (s.modify a (·.setLock l)) :=
  quiet_modify t s a _ ⟨rfl, rfl, rfl, rfl⟩ hl

variable [DecidableEq Tid]

theorem quiet_drop (s : State Tid Dir) (t : Tid) (a : Nat) : Quiet t s (s.modify a (·.drop t)) :=
  quiet_modify t s a _ ⟨rfl, rfl, rfl, rfl⟩ fun _ _ h => h

theorem quiet_setLock_drop (s : State Tid Dir) {l : RwLock Tid}
    (hl : ∀ t' ≠ t, (s.dh a).lock.excl = some t' → l.excl = some t') :
    Quiet t s (s.modify a fun x => (x.setLock l).drop t) :=
  quiet_modify t s a _ ⟨rfl, rfl, rfl, rfl⟩ hl

variable (h : Inv q s)
include h

theorem createTop_inv [DecidableEq Dir] {ndh : Option Nat} {excl ok : Bool} {isize : Nat} (hpc : s.pc t = .createTop d ndh excl)
    (hstep : s.step q t ok isize = some s') : Inv q s' := by
  have hk := h.knows_at hpc
  have hat : tending (s.pc t) = none := by rw [hpc]; rfl
  simp only [State.step, hpc] at hstep
  split at hstep
  · split at hstep
    · obtain rfl := Option.some.inj hstep
      have hold : ∀ b, b ≠ s.next → Function.update s.dh s.next (Dh.new t) b = s.dh b :=
        fun b hb => Function.update_of_ne hb ..
      refine h.goto (h.sound.alloc t) rfl (fun t' _ => ?_) ?_ fun b => .inl ⟨by simp [hat], ?_⟩
      · refine ⟨Nat.le_succ _, fun b hb hexcl => ?_, fun _ _ _ _ hd => hd, fun b hb => ?_⟩
        · simp only [hold b hb.ne]
          exact ⟨hexcl, trivial, trivial⟩
        · show (Function.update s.dh s.next (Dh.new t) b).phase ≠ _
          rwa [hold b (h.sound.lt_next hb).ne]
      · intro b hb
        obtain rfl := Option.mem_some.mp hb
        refine ⟨Nat.lt_succ_self _, ?_, ?_⟩
        · show (Function.update s.dh s.next (Dh.new t) s.next).lock.excl = _
          rw [Function.update_self]
          rfl
        · show (Function.update s.dh s.next (Dh.new t) s.next).phase = _
          rw [Function.update_self]
          rfl
      · show (Function.update s.dh s.next (Dh.new t) b).phase = _
        by_cases hb : b = s.next
        · rw [hb, Function.update_self, h.sound.fresh s.next le_rfl]
          rfl
        · rw [hold b hb]
    · obtain rfl := Option.some.inj hstep
      exact h.goto_quiet (.refl t s) hat trivial
  · obtain rfl := Option.some.inj hstep
    exact h.goto_quiet (.refl t s) hat hk

theorem createFind_inv [DecidableEq Dir] {ndh : Option Nat} {excl ok : Bool} {isize : Nat} (hpc : s.pc t = .createFind d ndh excl)
    (hstep : s.step q t ok isize = some s') : Inv q s' := by
  have hk := h.knows_at hpc
  have hat : tending (s.pc t) = none := by rw [hpc]; rfl
  simp only [State.step, hpc] at hstep
  split at hstep
  · next a hd =>
      obtain rfl := Option.some.inj hstep
      have hfresh := h.notFresh hd
      have hq := quiet_hold s t a
      refine h.goto_quiet hq hat ⟨hk.modify hfresh _, ?_⟩
      rwa [(hq.core a).phase]
  · obtain rfl := Option.some.inj hstep
    exact h.goto_quiet (.refl t s) hat (private_none s t)
  · next b hd =>
      obtain rfl := Option.some.inj hstep
      obtain ⟨hlt, hexcl, hphase⟩ := hk b rfl
      have hok := h.sound.phase b
      simp only [PhaseOk, hphase] at hok
      have hself := modify_self { s with idirhash := Function.update s.idirhash d (some b) } b (·.give t)
      refine h.goto_own (h.sound.attach t hlt hphase hd) rfl hexcl (fun b' hb' => modify_other _ _ hb') rfl ?_ ?_ ?_ ?_ ?_
      · intro d' b' hne hd'
        exact update_other (by simp [hd]) hd'
      · rw [hself]
        exact fun hno => by cases hno
      · simp [hat]
      · refine ⟨Function.update_self .., ⟨hlt, ?_, ?_⟩, ?_⟩
        · rw [hself]
          exact hexcl
        · rw [hself]
          rfl
        · rw [hself]
          exact hok.2.1
      · rw [hself]
        trivial

theorem createLock_inv [DecidableEq Dir] {ndh : Option Nat} {excl ok : Bool} {isize : Nat}
    (hpc : s.pc t = .createLock d ndh excl a) (hstep : s.step q t ok isize = some s') : Inv q s' := by
  have hk := h.knows_at hpc
  have hat : tending (s.pc t) = none := by rw [hpc]; rfl
  simp only [State.step, hpc] at hstep
  obtain ⟨l, hl, rfl⟩ := Option.map_eq_some_iff.mp hstep
  have hq : Quiet t s (s.modify a (·.setLock l)) := quiet_setLock s fun _ _ hexcl => RwLock.lock_others hexcl hl
  refine h.goto_quiet hq hat ⟨hk.1.modify hk.2 _, ?_, fun hx => ⟨h.sound.lt_next hk.2, ?_⟩⟩
  · rw [(hq.core a).phase]
    exact hk.2
  · rw [hx, if_pos rfl] at hl
    rw [modify_self]
    exact (RwLock.lockExclusive_eq hl).2.2.1

omit h in
theorem dropNew_quiet {ndh : Option Nat} (hp : Private s t ndh) : Quiet t s (s.dropNew t ndh) := by
  cases ndh with
  | none => exact .refl t s
  | some b =>
      refine quiet_setLock_drop s fun t' hne hexcl => ?_
      exact absurd (Option.some.inj (hexcl.symm.trans (hp b rfl).excl)) hne

omit h in
theorem dropNew_other {ndh : Option Nat} (hp : Private s t ndh) (hfresh : (s.dh a).phase ≠ .fresh) :
    (s.dropNew t ndh).dh a = s.dh a := by
  cases ndh with
  | none => rfl
  | some b =>
      have hne : a ≠ b := by
        intro heq
        rw [heq] at hfresh
        exact hfresh (hp b rfl).phase_eq
      exact Function.update_of_ne hne ..

/-- The end of `ufsdirhash_create`: with a table, or with the lock that it takes to build one. -/
theorem created_inv {ndh : Option Nat} {hold : Hold} (f : Dh Tid → Dh Tid) (hat : tending (s.pc t) = none)
    (hd : s.idirhash d = some a) (hp : Private s t ndh) (hq : Quiet t s (s.modify a f))
    (hexcl : hold = .exclusive → (f (s.dh a)).lock.excl = some t ∧ (s.dh a).phase = .resting)
    (htable : (s.dh a).hash = true ∨ hold = .exclusive) : Inv q ((s.modify a f).created t d ndh hold a) := by
  have hfresh := h.notFresh hd
  have hfresh' : ((s.modify a f).dh a).phase ≠ .fresh := by rwa [(hq.core a).phase]
  have hp' := hp.modify hfresh f
  have hq' := hq.trans (dropNew_quiet hp')
  have hsame := dropNew_other hp' hfresh'
  have hhash : ((s.modify a f).dh a).hash = (s.dh a).hash := (hq.core a).hash
  have hd' : ((s.modify a f).dropNew t ndh).idirhash d = some a := by rwa [hq'.idirhash]
  have howns : hold = .exclusive → Owns ((s.modify a f).dropNew t ndh) t a .resting := by
    intro hx
    refine ⟨hq'.next.symm ▸ h.sound.lt_next hfresh, ?_, ?_⟩
    · rw [hsame, modify_self]
      exact (hexcl hx).1
    · rw [(hq'.core a).phase]
      exact (hexcl hx).2
  refine h.goto_quiet hq' hat ?_
  rw [hhash]
  cases htab : (s.dh a).hash with
  | true =>
      rw [if_pos rfl]
      cases hold with
      | exclusive => exact ⟨hd', howns rfl⟩
      | shared => trivial
  | false =>
      rw [htab] at htable
      have hx := htable.resolve_left (by simp)
      exact ⟨hd', howns hx, by rw [(hq'.core a).hash, htab]⟩

theorem createCheck_inv [DecidableEq Dir] {ndh : Option Nat} {excl ok : Bool} {isize : Nat}
    (hpc : s.pc t = .createCheck d ndh excl a) (hstep : s.step q t ok isize = some s') : Inv q s' := by
  obtain ⟨hp, hfresh, hown⟩ := h.knows_at hpc
  have hat : tending (s.pc t) = none := by rw [hpc]; rfl
  have hresting : s.idirhash d = some a → ((s.dh a).lock.excl = none ∨ (s.dh a).lock.excl = some t) →
      (s.dh a).phase = .resting := by
    intro hd hexcl
    refine h.resting hd fun t' ht' => ?_
    rcases hexcl with hnone | hself
    · rw [hnone] at ht'
      cases ht'
    · obtain rfl := Option.some.inj (hself.symm.trans ht')
      simp [hat]
  simp only [State.step, hpc] at hstep
  split at hstep
  · -- the directory has another one by now
    obtain ⟨l, hl, rfl⟩ := Option.map_eq_some_iff.mp hstep
    exact h.goto_quiet (quiet_setLock_drop s fun _ hne hx => RwLock.unlock_others hx hne hl) hat (hp.modify hfresh _)
  · next hd =>
      have hd : s.idirhash d = some a := not_not.mp hd
      split at hstep
      · next hdone =>
          obtain rfl := Option.some.inj hstep
          refine created_inv h _ hat hd hp (quiet_drop s t a) (fun hx => ?_) ?_
          · have hxl : excl = true := by
              by_contra hno
              rw [if_neg hno] at hx
              cases hx
            exact ⟨(hown hxl).2, hresting hd (.inr (hown hxl).2)⟩
          · rcases hdone with hhash | hx
            · exact .inl hhash
            · exact .inr (if_pos hx)
      · split at hstep
        · next l hl =>
            obtain rfl := Option.some.inj hstep
            have hone : t ∈ (s.dh a).lock.shared := by
              rw [(RwLock.upgrade_eq hl).1]
              exact Multiset.mem_singleton_self t
            exact created_inv h _ hat hd hp (quiet_setLock_drop s fun _ _ hx => RwLock.upgrade_others hx hl)
              (fun _ => ⟨(RwLock.upgrade_eq hl).2.1, hresting hd (.inl (RwLock.excl_none hone))⟩) (.inr rfl)
        · obtain ⟨l, hl, rfl⟩ := Option.map_eq_some_iff.mp hstep
          have hl : (s.dh a).lock.unlock t .shared = some l := hl
          exact h.goto_quiet (quiet_setLock_drop s fun _ hne hx => RwLock.unlock_others hx hne hl) hat (hp.modify hfresh _)

/-! ### `ufsdirhash_build` -/

/-- The memory is reserved when there is room for it. -/
theorem reserved_inv {mem : Nat} (hfits : q.Fits) (hat : tending (s.pc t) = none)
    (hk : s.idirhash d = some a ∧ Owns s t a .resting ∧ (s.dh a).hash = false)
    (hmem : mem ≤ memreqd q.sizeofDh MAXDIRSIZE) (hroom : toI32 (mem + s.dirhashmem) ≤ s.dirhashmaxmem) (lock : Bool) :
    Inv q ({ s.reserve a mem with listLock := lock }.goto t (.record d a mem)) := by
  obtain ⟨hd, hown, hhash⟩ := hk
  have hnonneg := h.sound.mem_nonneg
  have hle := h.sound.mem_le
  have hmax := h.sound.maxmem_le
  have hsum : toI32 (mem + s.dirhashmem) = mem + s.dirhashmem := by
    unfold Params.Fits at hfits
    exact toI32_eq_self (by omega) (by omega)
  have hself : (s.reserve a mem).dh a = { s.dh a with phase := .reserved mem } := Function.update_self ..
  have hs : Sound q (s.reserve a mem) := h.sound.reserve hfits hown.phase_eq hhash (by omega)
  refine h.goto_own (hs.setLock lock) rfl hown.excl (fun b hb => Function.update_of_ne hb ..) rfl (fun _ _ _ hd => hd) ?_ ?_ ?_ ?_
  · show ((s.reserve a mem).dh a).phase ≠ _
    rw [hself]
    exact fun hno => by cases hno
  · simp [hat]
  · refine ⟨hd, hown.lt, ?_, ?_⟩
    · show ((s.reserve a mem).dh a).lock.excl = _
      rw [hself]
      exact hown.excl
    · show ((s.reserve a mem).dh a).phase = _
      rw [hself]
  · show Tended _ a ((s.reserve a mem).dh a).phase
    rw [hself]
    exact ⟨t, d, Function.update_self ..⟩

theorem reserve_inv [DecidableEq Dir] {ok : Bool} {isize : Nat} (hfits : q.Fits) (hpc : s.pc t = .reserve d a)
    (hstep : s.step q t ok isize = some s') : Inv q s' := by
  have hk := h.knows_at hpc
  have hat : tending (s.pc t) = none := by rw [hpc]; rfl
  simp only [State.step, hpc] at hstep
  split at hstep
  · cases hstep
  · next hsize =>
      have hmono := memreqd_mono q.sizeofDh (Nat.le_of_not_lt hsize)
      split at hstep
      · split at hstep
        · obtain rfl := Option.some.inj hstep
          exact h.goto_quiet (.refl t s) hat ⟨hk.1, .inl hk.2.1⟩
        · obtain rfl := Option.some.inj hstep
          exact h.goto_quiet (.refl t s) hat ⟨hk, hmono⟩
      · next hroom =>
          obtain rfl := Option.some.inj hstep
          exact reserved_inv h hfits hat hk hmono (Int.not_lt.mp hroom) s.listLock

theorem recycle_inv [DecidableEq Dir] {mem isize : Nat} {ok : Bool} (hfits : q.Fits) (hpc : s.pc t = .recycle d a mem)
    (hstep : s.step q t ok isize = some s') : Inv q s' := by
  simp only [State.step, hpc] at hstep
  obtain ⟨⟨ret, s₁⟩, hrun, rfl⟩ := Option.map_eq_some_iff.mp hstep
  -- other structures have been destroyed, and this thread has what it had
  obtain ⟨hs, hr, hroom⟩ := recycle_spec hfits h.sound hrun
  have h₁ := h.reclaims hr hs
  have hpc₁ : s₁.pc t = .recycle d a mem := by rw [hr.pc, hpc]
  have hat : tending (s₁.pc t) = none := by rw [hpc₁]; rfl
  obtain ⟨hk, hmem⟩ := h₁.knows_at hpc₁
  dsimp only
  split
  · exact h₁.goto_quiet (.refl t s₁) hat ⟨hk.1, .inl hk.2.1⟩
  · next hret => exact reserved_inv h₁ hfits hat hk hmem (hroom (not_not.mp hret)) false

theorem record_inv [DecidableEq Dir] {mem isize : Nat} {ok : Bool} (hpc : s.pc t = .record d a mem)
    (hstep : s.step q t ok isize = some s') : Inv q s' := by
  obtain ⟨hd, hown⟩ := h.knows_at hpc
  simp only [State.step, hpc] at hstep
  obtain rfl := Option.some.inj hstep
  have hself := modify_self s a fun x => { x with memreq := mem, score := DH_SCOREINIT, phase := .recorded }
  refine h.goto_own (h.sound.record hown.phase_eq DH_SCOREINIT) rfl hown.excl (fun b hb => modify_other s _ hb) rfl
    (fun _ _ _ hd => hd) ?_ ?_ ⟨hd, hown.lt, ?_, ?_⟩ ?_
  · rw [hself]
    exact fun hno => by cases hno
  · intro b hb
    rw [hpc]
    exact fun hno => hb (Option.some.inj hno).symm
  · rw [hself]
    exact hown.excl
  · rw [hself]
  · rw [hself]
    exact ⟨t, d, .inl (Function.update_self ..)⟩

/-- A build fails once its memory is recorded. -/
theorem fail_inv (hd : s.idirhash d = some a) (hown : Owns s t a .recorded) (hat : tending (s.pc t) = some a) :
    Inv q (s.goto t (.freeLocked d a)) := by
  refine h.goto_own h.sound rfl hown.excl (fun _ _ => rfl) rfl (fun _ _ _ hd => hd) ?_ ?_ ⟨hd, .inr hown⟩ ?_
  · rw [hown.phase_eq]
    exact fun hno => by cases hno
  · intro b hb
    rw [hat]
    exact fun hno => hb (Option.some.inj hno).symm
  · rw [hown.phase_eq]
    exact ⟨t, d, .inr (.inr (Function.update_self ..))⟩

theorem allocHash_inv [DecidableEq Dir] {isize : Nat} {ok : Bool} (hpc : s.pc t = .allocHash d a)
    (hstep : s.step q t ok isize = some s') : Inv q s' := by
  obtain ⟨hd, hown⟩ := h.knows_at hpc
  simp only [State.step, hpc] at hstep
  split at hstep
  · obtain rfl := Option.some.inj hstep
    have hself := modify_self s a fun x => { x with hash := true }
    refine h.goto_own (h.sound.allocHash hown.phase_eq) rfl hown.excl (fun b hb => modify_other s _ hb) rfl
      (fun _ _ _ hd => hd) ?_ ?_ ⟨hd, ⟨hown.lt, ?_, ?_⟩, ?_⟩ ?_
    · rw [hself]
      exact fun hno => by rw [hown.phase_eq] at hno; cases hno
    · intro b hb
      rw [hpc]
      exact fun hno => hb (Option.some.inj hno).symm
    · rw [hself]
      exact hown.excl
    · rw [hself]
      exact hown.phase_eq
    · rw [hself]
    · rw [hself, hown.phase_eq]
      exact ⟨t, d, .inr (.inl (Function.update_self ..))⟩
  · obtain rfl := Option.some.inj hstep
    exact fail_inv h hd hown (by rw [hpc]; rfl)

theorem fill_inv [DecidableEq Dir] {isize : Nat} {ok : Bool} (hpc : s.pc t = .fill d a)
    (hstep : s.step q t ok isize = some s') : Inv q s' := by
  obtain ⟨hd, hown, hhash⟩ := h.knows_at hpc
  simp only [State.step, hpc] at hstep
  split at hstep
  · obtain rfl := Option.some.inj hstep
    have hself := modify_self { s with list := s.list ++ [a] } a fun x => { x with onlist := true, phase := .resting }
    refine h.goto_own (h.sound.insert hown.phase_eq hhash) rfl hown.excl (fun b hb => modify_other _ _ hb) rfl
      (fun _ _ _ hd => hd) ?_ ?_ trivial ?_
    · rw [hself]
      exact fun hno => by cases hno
    · intro b hb
      rw [hpc]
      exact fun hno => hb (Option.some.inj hno).symm
    · rw [hself]
      trivial
  · obtain rfl := Option.some.inj hstep
    exact fail_inv h hd hown (by rw [hpc]; rfl)

theorem downgrade_inv [DecidableEq Dir] {isize : Nat} {ok : Bool} (hpc : s.pc t = .downgrade d a)
    (hstep : s.step q t ok isize = some s') : Inv q s' := by
  simp only [State.step, hpc] at hstep
  obtain ⟨l, hl, rfl⟩ := Option.map_eq_some_iff.mp hstep
  exact h.goto_quiet (quiet_setLock s fun _ hne hx => RwLock.downgrade_others hx hne hl) (by rw [hpc]; rfl) trivial

/-! ### `ufsdirhash_free` -/

theorem freeLocked_inv [DecidableEq Dir] {isize : Nat} {ok : Bool} (hpc : s.pc t = .freeLocked d a)
    (hstep : s.step q t ok isize = some s') : Inv q s' := by
  obtain ⟨hd, hown⟩ := h.knows_at hpc
  simp only [State.step, hpc, hd] at hstep
  obtain rfl := Option.some.inj hstep
  have hexcl : (s.dh a).lock.excl = some t := hown.elim Owns.excl Owns.excl
  have hphase : ∀ mem, (s.dh a).phase ≠ .reserved mem := by
    intro mem
    rcases hown with hown | hown
    · simp [hown.phase_eq]
    · simp [hown.phase_eq]
  have hself := modify_self { s with idirhash := Function.update s.idirhash d none } a (·.take t)
  refine h.goto_own (h.sound.detach t hd hphase) rfl hexcl (fun b hb => modify_other _ _ hb) rfl ?_ ?_ ?_
    ⟨hown.elim Owns.lt Owns.lt, ?_, ?_⟩ ?_
  · intro d' b hb hd'
    exact update_other (fun heq => hb (Option.some.inj (heq.symm.trans hd))) hd'
  · rw [hself]
    exact fun hno => by cases hno
  · intro b hb
    rw [hpc]
    exact fun hno => hb (Option.some.inj hno).symm
  · rw [hself]
    exact hexcl
  · rw [hself]
    rfl
  · rw [hself]
    exact ⟨t, Function.update_self ..⟩

theorem takeOff_inv [DecidableEq Dir] {isize : Nat} {ok : Bool} (hfits : q.Fits) (hpc : s.pc t = .takeOff a)
    (hstep : s.step q t ok isize = some s') : Inv q s' := by
  have hown : Owns s t a .leaving := h.knows_at hpc
  simp only [State.step, hpc] at hstep
  obtain rfl := Option.some.inj hstep
  have hdh : ∀ b ≠ a, Function.update s.dh a { s.dh a with phase := .gone } b = s.dh b :=
    fun b hb => Function.update_of_ne hb ..
  have hphase : (Function.update s.dh a { s.dh a with phase := .gone } a).phase = .gone := by rw [Function.update_self]
  refine h.goto_own (h.sound.takeOff hfits hown.phase_eq) rfl hown.excl hdh rfl (fun _ _ _ hd => hd) ?_ ?_ trivial ?_
  · exact fun hno => by cases hphase.symm.trans hno
  · intro b hb
    rw [hpc]
    exact fun hno => hb (Option.some.inj hno).symm
  · show Tended _ a (Function.update s.dh a { s.dh a with phase := .gone } a).phase
    rw [hphase]
    trivial

theorem unlock_inv [DecidableEq Dir] {isize : Nat} {ok : Bool} (hpc : s.pc t = .unlock a)
    (hstep : s.step q t ok isize = some s') : Inv q s' := by
  simp only [State.step, hpc] at hstep
  obtain ⟨l, hl, rfl⟩ := Option.map_eq_some_iff.mp hstep
  have hl : (s.dh a).lock.unlock t .exclusive = some l := hl
  exact h.goto_quiet (quiet_setLock s fun _ hne hx => RwLock.unlock_others hx hne hl) (by rw [hpc]; rfl) trivial

theorem freeFind_inv [DecidableEq Dir] {isize : Nat} {ok : Bool} (hpc : s.pc t = .freeFind d)
    (hstep : s.step q t ok isize = some s') : Inv q s' := by
  have hat : tending (s.pc t) = none := by rw [hpc]; rfl
  simp only [State.step, hpc] at hstep
  split at hstep
  · obtain rfl := Option.some.inj hstep
    exact h.goto_quiet (.refl t s) hat trivial
  · next a hd =>
      obtain rfl := Option.some.inj hstep
      have hq := quiet_hold s t a
      refine h.goto_quiet hq hat ?_
      show ((s.modify a (·.hold t)).dh a).phase ≠ _
      rw [(hq.core a).phase]
      exact h.notFresh hd

theorem freeLock_inv [DecidableEq Dir] {isize : Nat} {ok : Bool} (hpc : s.pc t = .freeLock d a)
    (hstep : s.step q t ok isize = some s') : Inv q s' := by
  have hk : (s.dh a).phase ≠ .fresh := h.knows_at hpc
  simp only [State.step, hpc] at hstep
  obtain ⟨l, hl, rfl⟩ := Option.map_eq_some_iff.mp hstep
  have hl' : (s.dh a).lock.lock t .exclusive = some l := hl
  refine h.goto_quiet (quiet_setLock s fun _ _ hx => RwLock.lock_others hx hl') (by rw [hpc]; rfl)
    ⟨h.sound.lt_next hk, ?_⟩
  rw [modify_self]
  exact (RwLock.lockExclusive_eq hl).2.2.1

theorem freeCheck_inv [DecidableEq Dir] {isize : Nat} {ok : Bool} (hpc : s.pc t = .freeCheck d a)
    (hstep : s.step q t ok isize = some s') : Inv q s' := by
  obtain ⟨hlt, hexcl⟩ := h.knows_at hpc
  have hat : tending (s.pc t) = none := by rw [hpc]; rfl
  simp only [State.step, hpc] at hstep
  split at hstep
  · next hd =>
      obtain rfl := Option.some.inj hstep
      have hresting : (s.dh a).phase = .resting := h.resting hd fun t' ht' => by
        obtain rfl := Option.some.inj (hexcl.symm.trans ht')
        simp [hat]
      have hq := quiet_drop s t a
      refine h.goto_quiet hq hat ⟨hd, .inl ⟨hlt, ?_, ?_⟩⟩
      · rw [modify_self]
        exact hexcl
      · rw [(hq.core a).phase]
        exact hresting
  · obtain ⟨l, hl, rfl⟩ := Option.map_eq_some_iff.mp hstep
    have hl : (s.dh a).lock.unlock t .exclusive = some l := hl
    exact h.goto_quiet (quiet_setLock_drop s fun _ hne hx => RwLock.unlock_others hx hne hl) hat trivial

end Steps

/-! ### Every event -/

section Exec

variable [DecidableEq Tid] [DecidableEq Dir] (hfits : q.Fits) (h : Inv q s)
include hfits h

/-- One step of a thread, by where it is. -/
theorem step_inv {ok : Bool} {isize : Nat} (hstep : s.step q t ok isize = some s') : Inv q s' := by
  cases hpc : s.pc t with
  | idle => simp [State.step, hpc] at hstep
  | createTop d ndh excl => exact createTop_inv h hpc hstep
  | createFind d ndh excl => exact createFind_inv h hpc hstep
  | createLock d ndh excl a => exact createLock_inv h hpc hstep
  | createCheck d ndh excl a => exact createCheck_inv h hpc hstep
  | reserve d a => exact reserve_inv h hfits hpc hstep
  | recycle d a mem => exact recycle_inv h hfits hpc hstep
  | record d a mem => exact record_inv h hpc hstep
  | allocHash d a => exact allocHash_inv h hpc hstep
  | fill d a => exact fill_inv h hpc hstep
  | downgrade d a => exact downgrade_inv h hpc hstep
  | held d a hold => simp [State.step, hpc] at hstep
  | freeLocked d a => exact freeLocked_inv h hpc hstep
  | takeOff a => exact takeOff_inv h hfits hpc hstep
  | unlock a => exact unlock_inv h hpc hstep
  | drop a =>
      simp only [State.step, hpc] at hstep
      obtain rfl := Option.some.inj hstep
      exact h.goto_quiet (quiet_drop s t a) (by rw [hpc]; rfl) trivial
  | freeFind d => exact freeFind_inv h hpc hstep
  | freeLock d a => exact freeLock_inv h hpc hstep
  | freeCheck d a => exact freeCheck_inv h hpc hstep

omit hfits in
theorem acquire_inv (hexec : s.exec q (.acquire t d) = some s') : Inv q s' := by
  simp only [State.exec] at hexec
  split at hexec
  · next hidle =>
      have hat : tending (s.pc t) = none := by rw [hidle]; rfl
      split at hexec
      · obtain rfl := Option.some.inj hexec
        exact h
      · next a hd =>
          obtain ⟨l, hl, rfl⟩ := Option.map_eq_some_iff.mp hexec
          obtain ⟨hnone, -, hexcl, -⟩ := RwLock.lockExclusive_eq hl
          have hresting : (s.dh a).phase = .resting := h.resting hd fun t' ht' => by
            rw [hnone] at ht'
            cases ht'
          have hl' : (s.dh a).lock.lock t .exclusive = some l := hl
          have hq : Quiet t s (s.modify a (·.setLock l)) :=
            quiet_setLock s fun _ _ hx => RwLock.lock_others hx hl'
          have hown : Owns (s.modify a (·.setLock l)) t a .resting := by
            refine ⟨h.sound.lt_next (h.notFresh hd), ?_, ?_⟩
            · rw [modify_self]
              exact hexcl
            · rw [(hq.core a).phase]
              exact hresting
          refine h.goto_quiet hq hat ?_
          split
          · exact ⟨hd, hown⟩
          · exact ⟨hd, .inl hown⟩
  · cases hexec

omit hfits in
/-- The hash goes towards the end of the list. Nothing that is charged changes. -/
theorem lookup_inv (hexec : s.exec q (.lookup t) = some s') : Inv q s' := by
  simp only [State.exec] at hexec
  split at hexec
  · next d a hold hpc =>
      obtain rfl := Option.some.inj hexec
      have hmod := quiet_modify t s a (fun x => { x with score := if x.score < DH_SCOREMAX then x.score + 1 else x.score })
        ⟨rfl, rfl, rfl, rfl⟩ fun _ _ hx => hx
      have hq : Quiet t s ({ s with list := State.passNext (fun b => (s.dh b).score) a s.list }.modify a fun x =>
          { x with score := if x.score < DH_SCOREMAX then x.score + 1 else x.score }) :=
        ⟨rfl, rfl, passNext_perm _ a s.list, rfl, rfl, rfl, hmod.core, hmod.keeps⟩
      refine h.quiet hq ?_
      have hk := h.knows_at hpc
      rw [hpc]
      cases hold with
      | shared => trivial
      | exclusive =>
          obtain ⟨hd, hown⟩ := hk
          refine ⟨hd, hown.lt, ?_, ?_⟩
          · rw [modify_self]
            exact hown.excl
          · rw [(hq.core a).phase]
            exact hown.phase_eq
  · cases hexec

theorem exec_inv {e : Event Tid Dir} (hexec : s.exec q e = some s') : Inv q s' := by
  cases e with
  | sysctl maxmem =>
      simp only [State.exec] at hexec
      split at hexec
      · next hmax =>
          obtain rfl := Option.some.inj hexec
          have hs := h.sound
          refine ⟨⟨hs.fresh, hs.phase, hs.attached, hs.inj, hs.nodup, hs.mem_list, hs.mem, hs.mem_le, hmax⟩,
            fun t => ?_, h.tended⟩
          exact (h.knows t).frame ⟨le_rfl, fun _ _ hx => ⟨hx, rfl, rfl⟩, fun _ _ _ _ hd => hd, fun _ hb => hb⟩
      · cases hexec
  | lowmem memwanted =>
      obtain rfl := Option.some.inj hexec
      obtain ⟨hs, hr⟩ := lowmemLoop_spec hfits memwanted s.list 0 s h.sound h.sound.nodup (List.Subset.refl _)
      exact h.reclaims hr hs
  | trim =>
      obtain ⟨⟨ret, s₁⟩, hrun, rfl⟩ := Option.map_eq_some_iff.mp hexec
      obtain ⟨hs, hr, -⟩ := recycle_spec hfits h.sound hrun
      exact h.reclaims (hr.setLock false) (hs.setLock false)
  | build t d =>
      simp only [State.exec] at hexec
      split at hexec
      · next hidle =>
          obtain rfl := Option.some.inj hexec
          exact h.goto_quiet (.refl t s) (by rw [hidle]; rfl) (private_none s t)
      · cases hexec
  | free t d =>
      simp only [State.exec] at hexec
      split at hexec
      · next hidle =>
          obtain rfl := Option.some.inj hexec
          exact h.goto_quiet (.refl t s) (by rw [hidle]; rfl) trivial
      · cases hexec
  | acquire t d => exact acquire_inv h hexec
  | step t ok isize => exact step_inv hfits h hexec
  | lookup t => exact lookup_inv h hexec
  | release t =>
      simp only [State.exec] at hexec
      split at hexec
      · next d a hold hpc =>
          obtain ⟨l, hl, rfl⟩ := Option.map_eq_some_iff.mp hexec
          exact h.goto_quiet (quiet_setLock s fun _ hne hx => RwLock.unlock_others hx hne hl) (by rw [hpc]; rfl) trivial
      · cases hexec
  | discard t =>
      simp only [State.exec] at hexec
      split at hexec
      · next d a hpc =>
          obtain rfl := Option.some.inj hexec
          obtain ⟨hd, hown⟩ := h.knows_at hpc
          exact h.goto_quiet (.refl t s) (by rw [hpc]; rfl) ⟨hd, .inl hown⟩
      · cases hexec

end Exec

/-! ### Runs -/

section Runs

variable [DecidableEq Tid] [DecidableEq Dir]

/-- One event. -/
def Next (q : Params) (s s' : State Tid Dir) : Prop := ∃ e, s.exec q e = some s'

omit [DecidableEq Tid] [DecidableEq Dir] in
theorem inv_init {maxmem : Int} (hmax : maxmem ≤ q.limit) : Inv q (State.init maxmem : State Tid Dir) where
  sound :=
    { fresh := fun _ _ => rfl
      phase := fun _ => ⟨rfl, rfl, rfl⟩
      attached := fun _ => iff_of_false id fun ⟨_, hd⟩ => by cases hd
      inj := fun _ _ _ hd => by cases hd
      nodup := List.nodup_nil
      mem_list := fun _ => iff_of_false List.not_mem_nil fun hno => by cases hno.1
      mem := rfl
      mem_le := Int.natCast_nonneg _
      maxmem_le := hmax }
  knows _ := trivial
  tended _ := trivial

theorem inv_of_run (hfits : q.Fits) {maxmem : Int} (hmax : maxmem ≤ q.limit)
    (hrun : ReflTransGen (Next q) (State.init maxmem : State Tid Dir) s) : Inv q s :=
  invariant_of_run (Inv q) (fun h ⟨_, hexec⟩ => exec_inv hfits h hexec) (inv_init hmax) hrun

end Runs

/-! ### What is accounted for -/

/-- A directory has the structure, or `ufsdirhash_free_locked` has yet to take it off the list. -/
def Live (s : State Tid Dir) (a : Nat) : Prop := (∃ d, s.idirhash d = some a) ∨ ∃ t, s.pc t = .takeOff a

open Classical in
/-- The sum of `dh_memreq` over these structures. -/
noncomputable def liveMem (s : State Tid Dir) : Int := ∑ a ∈ Finset.range s.next with Live s a, (s.dh a).memreq

/-- The counter, the list and the hashes agree. -/
structure Accounted [DecidableEq Tid] (s : State Tid Dir) : Prop where
  mem : (∀ t d a memreqd, s.pc t ≠ .record d a memreqd) → s.dirhashmem = liveMem s
  nonneg : 0 ≤ s.dirhashmem
  onlist : ∀ a, Live s a → ((s.dh a).onlist = true ↔ a ∈ s.list)
  list : ∀ a ∈ s.list, Live s a ∧ (s.dh a).hash = true
  /-- A hash without a table, that no build has recorded memory for and no thread frees. -/
  recycled : ∀ a, Live s a → (s.dh a).hash = false →
    (∀ t, s.pc t ≠ .takeOff a ∧ ∀ d, s.pc t ≠ .allocHash d a ∧ s.pc t ≠ .freeLocked d a) → (s.dh a).memreq = 0
  recycle : ∀ wanted, ∃ ret s', s.recycle wanted = some (ret, s') ∧ (s'.listLock = true ↔ ret = 0)
    ∧ ∀ a, (s.dh a).hash = true → (s'.dh a).hash = false → (s'.dh a).memreq = 0

namespace Inv

variable (h : Inv q s)
include h

theorem live_iff : Live s a ↔ (s.dh a).phase ≠ .fresh ∧ (s.dh a).phase ≠ .gone := by
  have hat := h.sound.attached a
  have htend := h.tended a
  constructor
  · rintro (hd | ⟨t, hpc⟩)
    · have hphase := hat.mpr hd
      exact ⟨fun hno => by simp [hno, Attached] at hphase, fun hno => by simp [hno, Attached] at hphase⟩
    · have hown : Owns s t a .leaving := h.knows_at hpc
      simp [hown.phase_eq]
  · rintro ⟨hfresh, hgone⟩
    cases hphase : (s.dh a).phase with
    | fresh => exact absurd hphase hfresh
    | gone => exact absurd hphase hgone
    | leaving =>
        rw [hphase] at htend
        exact .inr htend
    | resting => exact .inl (hat.mp (by rw [hphase]; trivial))
    | recorded => exact .inl (hat.mp (by rw [hphase]; trivial))
    | reserved mem => exact .inl (hat.mp (by rw [hphase]; trivial))

/-- Outside of the reservation of a build, what is charged is what is recorded. -/
theorem mem_eq (hnone : ∀ t d a memreqd, s.pc t ≠ .record d a memreqd) : s.dirhashmem = liveMem s := by
  classical
  have hcharge : ∀ a, charge (s.dh a) = if Live s a then (s.dh a).memreq else 0 := by
    intro a
    have hok := h.sound.phase a
    have htend := h.tended a
    rw [h.live_iff]
    cases hphase : (s.dh a).phase with
    | reserved mem =>
        rw [hphase] at htend
        obtain ⟨t, d, hpc⟩ := htend
        exact absurd hpc (hnone t d a mem)
    | fresh => 
        simp only [PhaseOk, hphase] at hok
        simp [charge, hphase, hok]
    | resting => simp [charge, hphase]
    | recorded => simp [charge, hphase]
    | leaving => simp [charge, hphase]
    | gone => simp [charge, hphase]
  rw [h.sound.mem, liveMem, Finset.sum_filter]
  exact Finset.sum_congr rfl fun a _ => hcharge a

theorem recycled (hhash : (s.dh a).hash = false)
    (hidle : ∀ t, s.pc t ≠ .takeOff a ∧ ∀ d, s.pc t ≠ .allocHash d a ∧ s.pc t ≠ .freeLocked d a) (hlive : Live s a) :
    (s.dh a).memreq = 0 := by
  have hok := h.sound.phase a
  have htend := h.tended a
  obtain ⟨hfresh, hgone⟩ := h.live_iff.mp hlive
  cases hphase : (s.dh a).phase with
  | fresh => exact absurd hphase hfresh
  | gone => exact absurd hphase hgone
  | resting =>
      simp only [PhaseOk, hphase] at hok
      exact hok.2.1 hhash
  | reserved mem =>
      simp only [PhaseOk, hphase] at hok
      exact hok.1
  | leaving =>
      rw [hphase] at htend
      obtain ⟨t, hpc⟩ := htend
      exact absurd hpc (hidle t).1
  | recorded =>
      rw [hphase] at htend
      obtain ⟨t, d, hpc | hpc | hpc⟩ := htend
      · exact absurd hpc ((hidle t).2 d).1
      · have hfill := (h.knows_at hpc).2.2
        rw [hhash] at hfill
        cases hfill
      · exact absurd hpc ((hidle t).2 d).2

end Inv

/-- In every run, the memory of the hashes is accounted for. -/
theorem dirhash_accounted [DecidableEq Tid] [DecidableEq Dir] (hfits : q.Fits) {maxmem : Int} (hmax : maxmem ≤ q.limit)
    (hrun : ReflTransGen (Next q) (State.init maxmem : State Tid Dir) s) : Accounted s := by
  have h := inv_of_run hfits hmax hrun
  refine ⟨h.mem_eq, h.sound.mem_nonneg, fun a hlive => ?_, fun a ha => ?_, fun a hlive hhash hidle => ?_, fun wanted => ?_⟩
  · rw [h.sound.mem_list a]
    exact (and_iff_left (h.live_iff.mp hlive).2).symm
  · obtain ⟨hhash, hphase⟩ := h.sound.hash_of_mem ha
    refine ⟨h.live_iff.mpr ?_, hhash⟩
    rcases hphase with hp | hp
    · simp [hp]
    · simp [hp]
  · exact h.recycled hhash hidle hlive
  · obtain ⟨ret, s', hrec, hlock⟩ := recycle_total wanted s
    obtain ⟨-, hr, -⟩ := recycle_spec hfits h.sound hrec
    refine ⟨ret, s', hrec, hlock, fun a htrue hfalse => ?_⟩
    rcases hr.memreq a with ⟨hsame, -⟩ | hgone
    · rw [hfalse, htrue] at hsame
      cases hsame
    · exact hgone.2

def small : Params := ⟨200, 2 * 1024 * 1024⟩

/-- The directory is hashed, and the hash released. -/
def buildOne : List (Event Bool Unit) := .build false () :: List.replicate 7 (.step false true 4096) ++ [.release false]

/-! ### Freed hashes, and large ones -/

/-- After `buildOne` a thread waits for the lock, to free the hash, and the other one frees it. -/
def freeTwice : List (Event Bool Unit) :=
  buildOne ++ .free true () :: .step true true 0 :: .free false () :: List.replicate 7 (.step false true 0)

/-- The freed hash, while the other thread has its reference. -/
theorem freeTwice_end : ∃ s, ReflTransGen (Next small) (State.init (2 * 1024 * 1024)) s ∧
    (s.dirhashmem = 0 ∧ s.next = 1 ∧ s.list = []) ∧
      ((s.dh 0).refs = {some true} ∧ (s.dh 0).onlist = true ∧ (s.dh 0).memreq = 2276) ∧
        s.pc false = .idle ∧ s.pc true = .freeLock () 0 :=
  ⟨_, run_of_moves (fun s e => s.exec small e) (fun h => ⟨_, h⟩) freeTwice rfl, ⟨rfl, rfl, rfl⟩, ⟨rfl, rfl, rfl⟩, rfl, rfl⟩

/-- A hash is built and freed by one thread, and another one waits for its lock. -/
theorem dirhash_accounted_two : ∃ s : State Bool Unit, ReflTransGen (Next small) (State.init (2 * 1024 * 1024)) s
    ∧ Accounted s ∧ s.list = [] ∧ (s.dh 0).refs = {some true} := by
  obtain ⟨s, hrun, ⟨-, -, hlist⟩, ⟨hrefs, -, -⟩, -, -⟩ := freeTwice_end
  exact ⟨s, hrun, dirhash_accounted (by unfold Params.Fits; decide) (by decide) hrun, hlist, hrefs⟩

/-- `ufs_dirhashmaxmem` is as large as an `int` can be. -/
def wide : Params := ⟨200, 2 ^ 31 - 1⟩

/-- Two threads reserve and record the memory for a directory of the greatest size. -/
def buildLarge (t : Bool) : List (Event Bool Bool) := .build t t :: List.replicate 4 (.step t true MAXDIRSIZE)

/-- No thread is between the reservation of memory and its record, or between clearing `i_dirhash` and the list. -/
def Settled (s : State Tid Dir) : Prop := (∀ t d a memreqd, s.pc t ≠ .record d a memreqd) ∧ ∀ t a, s.pc t ≠ .takeOff a

/-- A hash that was freed keeps its mark and its memory while a thread that waits for its lock has a reference.
Where `ufs_dirhashmaxmem` and the memory of a directory are more than an `int`, the counter can be negative. -/
theorem freed_hash_marked :
    (¬∀ s : State Bool Unit, ReflTransGen (Next small) (State.init (2 * 1024 * 1024)) s → Settled s →
      s.dirhashmem = ∑ a ∈ Finset.range s.next with (s.dh a).refs ≠ 0, (s.dh a).memreq)
    ∧ (¬∀ s : State Bool Unit, ReflTransGen (Next small) (State.init (2 * 1024 * 1024)) s → Settled s →
      ∀ a, (s.dh a).refs ≠ 0 → ((s.dh a).onlist = true ↔ a ∈ s.list))
    ∧ ∃ s : State Bool Bool, ReflTransGen (Next wide) (State.init (2 ^ 31 - 1)) s ∧ Settled s ∧ s.dirhashmem < 0 := by
  obtain ⟨s, hrun, ⟨hmem, hnext, hlist⟩, ⟨hrefs, hon, hmemreq⟩, hidle, hwait⟩ := freeTwice_end
  have hsettled : Settled s := by
    constructor
    · rintro (_ | _) d a m hpc
      · cases hidle.symm.trans hpc
      · cases hwait.symm.trans hpc
    · rintro (_ | _) a hpc
      · cases hidle.symm.trans hpc
      · cases hwait.symm.trans hpc
  have hrefs0 : (s.dh 0).refs ≠ 0 := by
    rw [hrefs]
    exact Multiset.singleton_ne_zero _
  refine ⟨fun hall => ?_, fun hall => ?_, ?_⟩
  · have hsum := hall s hrun hsettled
    rw [hmem, hnext, Finset.range_one, Finset.filter_singleton, if_pos hrefs0, Finset.sum_singleton, hmemreq] at hsum
    cases hsum
  · have hin := (hall s hrun hsettled 0 hrefs0).mp hon
    rw [hlist] at hin
    cases hin
  · refine ⟨_, run_of_moves (fun s e => s.exec wide e) (fun h => ⟨_, h⟩) (buildLarge true ++ buildLarge false) rfl, ⟨?_, ?_⟩, ?_⟩
    · rintro (_ | _) d a m hpc
      · cases hpc
      · cases hpc
    · rintro (_ | _) a hpc
      · cases hpc
      · cases hpc
    · decide

end UfsX.Proofs.DirhashMem
