import UfsX.Ufs.DirhashMem
import Mathlib.Algebra.BigOperators.Group.Finset.Piecewise
import Mathlib.Algebra.Order.BigOperators.Group.Finset
import Mathlib.Algebra.Order.Group.Int

/-!
# `UfsX.Proofs.DirhashMem`: what the directory hashes are charged for

`charge` is what one structure stands for in `ufs_dirhashmem`, in each of its phases, and `Sound`
says that the counter is the sum of the charges, that the list has the structures that are marked,
and that a directory has those that are between `ufsdirhash_create` and `ufsdirhash_free_locked`.
Each change of a structure that the code makes has a lemma that keeps `Sound`.

A region under `ufsdirhash_mtx` only destroys structures whose lock nobody has: `Reclaims` says
what it leaves alone. `recycle_total` is the termination of `ufsdirhash_recycle`.
-/

set_option autoImplicit false

namespace UfsX.Proofs.DirhashMem

open UfsX.Lib UfsX.Ufs UfsX.Ufs.DirhashMem

variable {Tid Dir : Type}
variable {q : Params} {s s' : State Tid Dir} {a b : Nat} {x : Dh Tid}

/-! ### Sizes -/

/-- A larger directory needs no less memory. -/
theorem memreqd_mono (sizeofDh : Nat) {isize isize' : Nat} (h : isize ≤ isize') :
    memreqd sizeofDh isize ≤ memreqd sizeofDh isize' := by
  have hslots : (isize / directsiz 1 * 3 + 1) / 2 ≤ (isize' / directsiz 1 * 3 + 1) / 2 := by
    have hdiv := Nat.div_le_div_right (c := directsiz 1) h
    omega
  have harrays : howmany ((isize / directsiz 1 * 3 + 1) / 2) DH_NBLKOFF
      ≤ howmany ((isize' / directsiz 1 * 3 + 1) / 2) DH_NBLKOFF :=
    Nat.div_le_div_right (Nat.add_le_add_right hslots _)
  have hblocks : (howmany isize DIRBLKSIZ * 3 + 1) / 2 ≤ (howmany isize' DIRBLKSIZ * 3 + 1) / 2 := by
    have hdiv : howmany isize DIRBLKSIZ ≤ howmany isize' DIRBLKSIZ :=
      Nat.div_le_div_right (Nat.add_le_add_right h _)
    omega
  simp only [memreqd, DH_NBLKOFF] at *
  omega

/-! ### The invariant of the structures -/

/-- What a structure stands for in `ufs_dirhashmem`. -/
def charge (x : Dh Tid) : Int :=
  match x.phase with
  | .reserved memreqd => x.memreq + memreqd
  | .gone => 0
  | _ => x.memreq

/-- What the fields of a structure are in its phase. A structure that is gone keeps them. -/
def PhaseOk (x : Dh Tid) : Prop :=
  match x.phase with
  | .fresh | .reserved _ => x.memreq = 0 ∧ x.hash = false ∧ x.onlist = false
  | .resting => x.onlist = x.hash ∧ (x.hash = false → x.memreq = 0) ∧ 0 ≤ x.memreq
  | .recorded => x.onlist = false ∧ 0 ≤ x.memreq
  | .leaving => (x.onlist = true → x.hash = true) ∧ 0 ≤ x.memreq
  | .gone => True

/-- A directory has a structure in this phase. -/
def Attached : Phase → Prop
  | .resting | .reserved _ | .recorded => True
  | .fresh | .leaving | .gone => False

/-- The counter, the list and the directories agree with the structures. -/
structure Sound (q : Params) (s : State Tid Dir) : Prop where
  fresh : ∀ a, s.next ≤ a → (s.dh a).phase = .fresh
  phase : ∀ a, PhaseOk (s.dh a)
  attached : ∀ a, Attached (s.dh a).phase ↔ ∃ d, s.idirhash d = some a
  inj : ∀ d d' a, s.idirhash d = some a → s.idirhash d' = some a → d = d'
  nodup : s.list.Nodup
  mem_list : ∀ a, a ∈ s.list ↔ (s.dh a).onlist = true ∧ (s.dh a).phase ≠ .gone
  mem : s.dirhashmem = ∑ a ∈ Finset.range s.next, charge (s.dh a)
  mem_le : s.dirhashmem ≤ q.limit
  maxmem_le : s.dirhashmaxmem ≤ q.limit

theorem charge_nonneg (h : PhaseOk x) : 0 ≤ charge x := by
  cases hphase : x.phase <;> simp only [PhaseOk, charge, hphase] at h ⊢ <;> omega

namespace Sound

variable (h : Sound q s)
include h

theorem lt_next (hphase : (s.dh a).phase ≠ .fresh) : a < s.next := by
  by_contra hno
  exact hphase (h.fresh a (Nat.le_of_not_lt hno))

/-- The list has only structures with a table, which are not gone. -/
theorem hash_of_mem (ha : a ∈ s.list) :
    (s.dh a).hash = true ∧ ((s.dh a).phase = .resting ∨ (s.dh a).phase = .leaving) := by
  obtain ⟨hon, hgone⟩ := (h.mem_list a).mp ha
  have hok := h.phase a
  unfold PhaseOk at hok
  split at hok <;> simp_all

theorem mem_nonneg : 0 ≤ s.dirhashmem := by
  rw [h.mem]
  exact Finset.sum_nonneg fun a _ => charge_nonneg (h.phase a)

/-- No structure is charged more than all of them. -/
theorem charge_le (ha : a < s.next) : charge (s.dh a) ≤ s.dirhashmem := by
  rw [h.mem]
  exact Finset.single_le_sum (f := fun b => charge (s.dh b)) (fun b _ => charge_nonneg (h.phase b))
    (Finset.mem_range.mpr ha)

/-- The sum after a change of one structure. -/
theorem sum_update (ha : a < s.next) (x : Dh Tid) :
    ∑ b ∈ Finset.range s.next, charge (Function.update s.dh a x b)
      = s.dirhashmem + (charge x - charge (s.dh a)) := by
  have hmem : a ∈ Finset.range s.next := Finset.mem_range.mpr ha
  have hcomp : (fun b => charge (Function.update s.dh a x b))
      = Function.update (fun b => charge (s.dh b)) a (charge x) :=
    Function.comp_update charge s.dh a x
  have hsplit := Finset.add_sum_erase (Finset.range s.next) (fun b => charge (s.dh b)) hmem
  rw [hcomp, Finset.sum_update_of_mem hmem, Finset.sdiff_singleton_eq_erase, h.mem]
  omega

/-- One structure changes, and the list, the directories and the counter with it. -/
theorem replace (ha : a < s.next) (hx : PhaseOk x) {idirhash : Dir → Option Nat} {list : List Nat} {mem : Int}
    (hatt : Attached x.phase ↔ ∃ d, idirhash d = some a)
    (hrest : ∀ b ≠ a, ∀ d, idirhash d = some b ↔ s.idirhash d = some b)
    (hinj : ∀ d d', idirhash d = some a → idirhash d' = some a → d = d')
    (hnodup : list.Nodup) (hlist : a ∈ list ↔ x.onlist = true ∧ x.phase ≠ .gone)
    (hothers : ∀ b ≠ a, b ∈ list ↔ b ∈ s.list)
    (hmem : mem = s.dirhashmem + (charge x - charge (s.dh a))) (hle : mem ≤ q.limit) :
    Sound q { s with dh := Function.update s.dh a x, idirhash, list, dirhashmem := mem } where
  fresh b hb := by
    have hne : b ≠ a := fun heq => absurd ha (Nat.not_lt.mpr (heq ▸ hb))
    show (Function.update s.dh a x b).phase = _
    rw [Function.update_of_ne hne]
    exact h.fresh b hb
  phase b := by
    show PhaseOk (Function.update s.dh a x b)
    by_cases hne : b = a
    · rwa [hne, Function.update_self]
    · rw [Function.update_of_ne hne]
      exact h.phase b
  attached b := by
    show Attached (Function.update s.dh a x b).phase ↔ ∃ d, idirhash d = some b
    by_cases hne : b = a
    · rwa [hne, Function.update_self]
    · rw [Function.update_of_ne hne, h.attached b]
      exact exists_congr fun d => (hrest b hne d).symm
  inj d d' b hd hd' := by
    by_cases hne : b = a
    · rw [hne] at hd hd'
      exact hinj d d' hd hd'
    · exact h.inj d d' b ((hrest b hne d).mp hd) ((hrest b hne d').mp hd')
  nodup := hnodup
  mem_list b := by
    show b ∈ list ↔ (Function.update s.dh a x b).onlist = true ∧ (Function.update s.dh a x b).phase ≠ .gone
    by_cases hne : b = a
    · rwa [hne, Function.update_self]
    · rw [Function.update_of_ne hne, hothers b hne, h.mem_list b]
  mem := hmem.trans (h.sum_update ha x).symm
  mem_le := hle
  maxmem_le := h.maxmem_le

/-- One structure changes, and stays where it is. -/
theorem revise (hx : PhaseOk x) {mem : Int} (ha : a < s.next)
    (hatt : Attached x.phase ↔ Attached (s.dh a).phase) (hon : x.onlist = (s.dh a).onlist)
    (hgone : x.phase = .gone ↔ (s.dh a).phase = .gone)
    (hmem : mem = s.dirhashmem + (charge x - charge (s.dh a))) (hle : mem ≤ q.limit) :
    Sound q { s with dh := Function.update s.dh a x, dirhashmem := mem } := by
  refine h.replace ha hx ?_ (fun _ _ _ => Iff.rfl) (fun d d' => h.inj d d' a) h.nodup ?_ (fun _ _ => Iff.rfl) hmem hle
  · rw [hatt, h.attached a]
  · rw [hon, Ne, hgone]
    exact h.mem_list a

end Sound

/-! ### The changes of one structure -/

section Changes

variable (h : Sound q s)
include h

theorem Sound.alloc (t : Tid) :
    Sound q { s with dh := Function.update s.dh s.next (.new t), next := s.next + 1 } where
  fresh b hb := by
    have hb : s.next + 1 ≤ b := hb
    have hne : b ≠ s.next := by omega
    show (Function.update s.dh s.next (.new t) b).phase = _
    rw [Function.update_of_ne hne]
    exact h.fresh b (by omega)
  phase b := by
    show PhaseOk (Function.update s.dh s.next (.new t) b)
    by_cases hne : b = s.next
    · rw [hne, Function.update_self]
      exact ⟨rfl, rfl, rfl⟩
    · rw [Function.update_of_ne hne]
      exact h.phase b
  attached b := by
    show Attached (Function.update s.dh s.next (.new t) b).phase ↔ _
    rw [← h.attached b]
    by_cases hne : b = s.next
    · rw [hne, Function.update_self, h.fresh s.next le_rfl]
      exact Iff.rfl
    · rw [Function.update_of_ne hne]
  inj := h.inj
  nodup := h.nodup
  mem_list b := by
    show b ∈ s.list ↔ (Function.update s.dh s.next (.new t) b).onlist = true
      ∧ (Function.update s.dh s.next (.new t) b).phase ≠ .gone
    rw [h.mem_list b]
    by_cases hne : b = s.next
    · have hok := h.phase s.next
      simp only [PhaseOk, h.fresh s.next le_rfl] at hok
      rw [hne, Function.update_self, hok.2.2]
      exact iff_of_false (fun hno => by cases hno.1) fun hno => by cases hno.1
    · rw [Function.update_of_ne hne]
  mem := by
    show s.dirhashmem = ∑ b ∈ Finset.range (s.next + 1), charge (Function.update s.dh s.next (.new t) b)
    rw [Finset.sum_range_succ, Function.update_self, h.mem]
    have hnew : charge (.new t : Dh Tid) = 0 := rfl
    rw [hnew, add_zero]
    refine Finset.sum_congr rfl fun b hb => ?_
    rw [Function.update_of_ne (Finset.mem_range.mp hb).ne]
  mem_le := h.mem_le
  maxmem_le := h.maxmem_le

/-- `ufs_dirhashmem += memreqd`, when there is room for it. -/
theorem Sound.reserve {memreqd : Nat} (hfits : q.Fits) (hphase : (s.dh a).phase = .resting) (hhash : (s.dh a).hash = false)
    (hle : (memreqd : Int) + s.dirhashmem ≤ q.limit) : Sound q (s.reserve a memreqd) := by
  have hok := h.phase a
  have hnonneg := h.mem_nonneg
  simp only [PhaseOk, hphase, hhash, forall_const] at hok
  have hmem : toI32 (s.dirhashmem + memreqd) = s.dirhashmem + memreqd := by
    unfold Params.Fits at hfits
    exact toI32_eq_self (by omega) (by omega)
  refine h.revise (x := { s.dh a with phase := .reserved memreqd }) ⟨hok.2.1, hhash, hok.1⟩
    (h.lt_next (by simp [hphase])) (by simp [Attached, hphase]) rfl (by simp [hphase]) ?_ ?_
  · show toI32 (s.dirhashmem + memreqd) = _
    simp only [hmem, charge, hphase]
    omega
  · show toI32 (s.dirhashmem + memreqd) ≤ _
    omega

/-- What was reserved is recorded: the charge is the same. -/
theorem Sound.record {memreqd : Nat} (hphase : (s.dh a).phase = .reserved memreqd) (score : Int) :
    Sound q (s.modify a fun x => { x with memreq := memreqd, score, phase := .recorded }) := by
  have hok := h.phase a
  simp only [PhaseOk, hphase] at hok
  refine h.revise (x := { s.dh a with memreq := memreqd, score, phase := .recorded }) ⟨hok.2.2, Int.natCast_nonneg _⟩
    (h.lt_next (by simp [hphase])) (by simp [Attached, hphase]) rfl (by simp [hphase]) ?_ h.mem_le
  simp only [charge, hphase, hok.1]
  omega

theorem Sound.allocHash (hphase : (s.dh a).phase = .recorded) :
    Sound q (s.modify a fun x => { x with hash := true }) := by
  have hok := h.phase a
  refine h.revise (x := { s.dh a with hash := true }) ?_ (h.lt_next (by simp [hphase])) Iff.rfl rfl Iff.rfl ?_ h.mem_le
  · simp only [PhaseOk, hphase] at hok ⊢
    exact hok
  · simp only [charge, hphase]
    omega

/-- The table is filled, and goes to the end of the list. -/
theorem Sound.insert (hphase : (s.dh a).phase = .recorded) (hhash : (s.dh a).hash = true) :
    Sound q ({ s with list := s.list ++ [a] }.modify a fun x => { x with onlist := true, phase := .resting }) := by
  have hok := h.phase a
  simp only [PhaseOk, hphase] at hok
  have hnotin : a ∉ s.list := fun hin => by
    have hon := ((h.mem_list a).mp hin).1
    rw [hok.1] at hon
    cases hon
  have hat := h.attached a
  rw [hphase] at hat
  refine h.replace (x := { s.dh a with onlist := true, phase := .resting }) (h.lt_next (by simp [hphase])) ?_ hat
    (fun _ _ _ => Iff.rfl) (fun d d' => h.inj d d' a) ?_ ?_ ?_ ?_ h.mem_le
  · simpa [PhaseOk, hhash] using hok.2
  · rw [List.nodup_append_comm]
    exact List.nodup_cons.mpr ⟨hnotin, h.nodup⟩
  · simp
  · intro b hne
    simp [hne]
  · simp only [charge, hphase]
    omega

variable [DecidableEq Dir]

omit h in
/-- The pointer of another structure is where it was. -/
theorem update_idirhash {f : Dir → Option Nat} {d : Dir} {v : Option Nat} (hd : f d ≠ some b) (hv : v ≠ some b) (d' : Dir) :
    Function.update f d v d' = some b ↔ f d' = some b := by
  by_cases hd' : d' = d
  · rw [hd', Function.update_self]
    exact iff_of_false hv hd
  · rw [Function.update_of_ne hd']

/-- A directory gets the structure that was allocated for it. -/
theorem Sound.attach [DecidableEq Tid] {d : Dir} (t : Tid) (ha : a < s.next) (hphase : (s.dh a).phase = .fresh)
    (hd : s.idirhash d = none) :
    Sound q ({ s with idirhash := Function.update s.idirhash d (some a) }.modify a (·.give t)) := by
  have hok := h.phase a
  simp only [PhaseOk, hphase] at hok
  -- no directory has it yet
  have hnone : ∀ d', s.idirhash d' ≠ some a := fun d' hd' => by
    have hat := (h.attached a).mpr ⟨d', hd'⟩
    rw [hphase] at hat
    exact hat
  have honly : ∀ d', Function.update s.idirhash d (some a) d' = some a → d' = d := by
    intro d' h'
    by_contra hne
    rw [Function.update_of_ne hne] at h'
    exact hnone d' h'
  have hrest : ∀ b ≠ a, ∀ d', Function.update s.idirhash d (some a) d' = some b ↔ s.idirhash d' = some b :=
    fun b hne => update_idirhash (by simp [hd]) fun heq => hne (Option.some.inj heq).symm
  refine h.replace (x := (s.dh a).give t) ha ?_ ?_ hrest (fun d₁ d₂ h₁ h₂ => (honly d₁ h₁).trans (honly d₂ h₂).symm)
    h.nodup ?_ (fun _ _ => Iff.rfl) ?_ h.mem_le
  · simp [PhaseOk, Dh.give, hok]
  · exact iff_of_true trivial ⟨d, Function.update_self ..⟩
  · rw [h.mem_list a]
    simp [Dh.give, hok.2.2]
  · simp [charge, Dh.give, hphase]

/-- `ufsdirhash_free_locked` clears `i_dirhash`. -/
theorem Sound.detach [DecidableEq Tid] {d : Dir} (t : Tid) (hd : s.idirhash d = some a)
    (hphase : ∀ memreqd, (s.dh a).phase ≠ .reserved memreqd) :
    Sound q ({ s with idirhash := Function.update s.idirhash d none }.modify a (·.take t)) := by
  have hat := (h.attached a).mpr ⟨d, hd⟩
  have hok := h.phase a
  have hbusy : (s.dh a).phase = .resting ∨ (s.dh a).phase = .recorded := by
    cases hp : (s.dh a).phase <;> simp_all [Attached]
  -- it was the only directory with this structure
  have hnone : ∀ d', Function.update s.idirhash d none d' ≠ some a := by
    intro d' hd'
    by_cases hne : d' = d
    · rw [hne, Function.update_self] at hd'
      cases hd'
    · rw [Function.update_of_ne hne] at hd'
      exact hne (h.inj d' d a hd' hd)
  have hrest : ∀ b ≠ a, ∀ d', Function.update s.idirhash d none d' = some b ↔ s.idirhash d' = some b :=
    fun b hne => update_idirhash (fun heq => hne (Option.some.inj (heq.symm.trans hd))) (by simp)
  refine h.replace (x := (s.dh a).take t) (h.lt_next ?_) ?_ ?_ hrest (fun d₁ _ h₁ _ => absurd h₁ (hnone d₁)) h.nodup ?_
    (fun _ _ => Iff.rfl) ?_ h.mem_le
  · rcases hbusy with hp | hp <;> simp [hp]
  · rcases hbusy with hp | hp <;> simp only [PhaseOk, hp] at hok <;> simp [PhaseOk, Dh.take, hok]
  · exact iff_of_false id fun ⟨d', hd'⟩ => hnone d' hd'
  · rw [h.mem_list a]
    rcases hbusy with hp | hp <;> simp [Dh.take, hp]
  · rcases hbusy with hp | hp <;> simp [charge, Dh.take, hp]

omit [DecidableEq Dir] in
/-- `ufsdirhash_free_locked` takes the structure off the list. The mark stays. -/
theorem Sound.takeOff (hfits : q.Fits) (hphase : (s.dh a).phase = .leaving) :
    Sound q (({ s with list := if (s.dh a).onlist then s.list.erase a else s.list }.addMem (-(s.dh a).memreq)).modify a
      fun x => { x with phase := .gone }) := by
  have hlt : a < s.next := h.lt_next (by simp [hphase])
  have hok := h.phase a
  have hnonneg := charge_nonneg hok
  have hle := h.charge_le hlt
  have hlimit := h.mem_le
  simp only [charge, hphase] at hnonneg hle
  have hmem : toI32 (s.dirhashmem + -(s.dh a).memreq) = s.dirhashmem + -(s.dh a).memreq := by
    unfold Params.Fits at hfits
    exact toI32_eq_self (by omega) (by omega)
  have hlist : (if (s.dh a).onlist then s.list.erase a else s.list) = s.list.erase a := by
    split
    · rfl
    · next hoff =>
        refine (List.erase_of_not_mem fun hin => hoff ?_).symm
        exact ((h.mem_list a).mp hin).1
  have hat := h.attached a
  rw [hphase] at hat
  rw [hlist]
  refine h.replace (x := { s.dh a with phase := .gone }) hlt trivial hat (fun _ _ _ => Iff.rfl) (fun d d' => h.inj d d' a)
    (h.nodup.erase a) ?_ ?_ ?_ ?_
  · exact iff_of_false h.nodup.not_mem_erase fun hno => hno.2 rfl
  · intro b hne
    exact List.mem_erase_of_ne hne
  · show toI32 (s.dirhashmem + -(s.dh a).memreq) = _
    simp only [hmem, charge, hphase]
    omega
  · show toI32 (s.dirhashmem + -(s.dh a).memreq) ≤ _
    omega

omit [DecidableEq Dir] in
/-- `ufsdirhash_destroy` of a structure on the list. -/
theorem Sound.destroy (hfits : q.Fits) (ha : a ∈ s.list) : Sound q (s.destroy a) := by
  obtain ⟨hhash, hphase⟩ := h.hash_of_mem ha
  have hlt : a < s.next := h.lt_next (by rcases hphase with hp | hp <;> simp [hp])
  have hok := h.phase a
  have hnonneg := charge_nonneg hok
  have hle := h.charge_le hlt
  have hlimit := h.mem_le
  have hcharge : charge (s.dh a) = (s.dh a).memreq := by rcases hphase with hp | hp <;> simp only [charge, hp]
  have hmem : toI32 (s.dirhashmem + -(s.dh a).memreq) = s.dirhashmem + -(s.dh a).memreq := by
    unfold Params.Fits at hfits
    exact toI32_eq_self (by omega) (by omega)
  refine h.replace (x := { s.dh a with onlist := false, hash := false, memreq := 0 }) hlt ?_ (h.attached a)
    (fun _ _ _ => Iff.rfl) (fun d d' => h.inj d d' a) (h.nodup.erase a) ?_ ?_ ?_ ?_
  · rcases hphase with hp | hp <;> simp [PhaseOk, hp]
  · exact iff_of_false h.nodup.not_mem_erase fun hno => by cases hno.1
  · intro b hne
    exact List.mem_erase_of_ne hne
  · show toI32 (s.dirhashmem + -(s.dh a).memreq) = _
    have hzero : charge { s.dh a with onlist := false, hash := false, memreq := 0 } = 0 := by
      rcases hphase with hp | hp <;> simp only [charge, hp]
    rw [hmem, hcharge, hzero]
    omega
  · show toI32 (s.dirhashmem + -(s.dh a).memreq) ≤ _
    omega

end Changes

/-! ### Changes that no charge depends on -/

/-- All but the lock, the references and the score. -/
structure SameCore (x y : Dh Tid) : Prop where
  hash : x.hash = y.hash
  memreq : x.memreq = y.memreq
  onlist : x.onlist = y.onlist
  phase : x.phase = y.phase

theorem SameCore.refl (x : Dh Tid) : SameCore x x := ⟨rfl, rfl, rfl, rfl⟩

theorem SameCore.charge_eq {x y : Dh Tid} (h : SameCore x y) : charge x = charge y := by
  simp only [charge, h.phase, h.memreq]

theorem SameCore.phaseOk {x y : Dh Tid} (h : SameCore x y) (hy : PhaseOk y) : PhaseOk x := by
  simpa only [PhaseOk, h.phase, h.memreq, h.hash, h.onlist] using hy

/-- The thread `u` has changed locks, references and scores, and the order of the list. -/
structure Quiet (u : Tid) (s s' : State Tid Dir) : Prop where
  next : s'.next = s.next
  idirhash : s'.idirhash = s.idirhash
  list : s'.list.Perm s.list
  mem : s'.dirhashmem = s.dirhashmem
  maxmem : s'.dirhashmaxmem = s.dirhashmaxmem
  pc : s'.pc = s.pc
  core : ∀ a, SameCore (s'.dh a) (s.dh a)
  keeps : ∀ a, ∀ t ≠ u, (s.dh a).lock.excl = some t → (s'.dh a).lock.excl = some t

theorem Quiet.refl (u : Tid) (s : State Tid Dir) : Quiet u s s :=
  ⟨rfl, rfl, .refl _, rfl, rfl, rfl, fun _ => .refl _, fun _ _ _ h => h⟩

theorem SameCore.trans {x y z : Dh Tid} (h : SameCore x y) (h' : SameCore y z) : SameCore x z :=
  ⟨h.hash.trans h'.hash, h.memreq.trans h'.memreq, h.onlist.trans h'.onlist, h.phase.trans h'.phase⟩

theorem Quiet.trans {u : Tid} {s₁ s₂ s₃ : State Tid Dir} (h : Quiet u s₁ s₂) (h' : Quiet u s₂ s₃) : Quiet u s₁ s₃ where
  next := h'.next.trans h.next
  idirhash := h'.idirhash.trans h.idirhash
  list := h'.list.trans h.list
  mem := h'.mem.trans h.mem
  maxmem := h'.maxmem.trans h.maxmem
  pc := h'.pc.trans h.pc
  core a := (h'.core a).trans (h.core a)
  keeps a t hne hexcl := h'.keeps a t hne (h.keeps a t hne hexcl)

theorem Sound.quiet {u : Tid} (h : Sound q s) (hq : Quiet u s s') : Sound q s' where
  fresh a ha := by
    rw [(hq.core a).phase]
    exact h.fresh a (hq.next ▸ ha)
  phase a := (hq.core a).phaseOk (h.phase a)
  attached a := by
    rw [(hq.core a).phase, hq.idirhash]
    exact h.attached a
  inj := by
    rw [hq.idirhash]
    exact h.inj
  nodup := hq.list.nodup_iff.mpr h.nodup
  mem_list a := by
    rw [hq.list.mem_iff, (hq.core a).onlist, (hq.core a).phase]
    exact h.mem_list a
  mem := by
    rw [hq.mem, hq.next, h.mem]
    exact Finset.sum_congr rfl fun a _ => (hq.core a).charge_eq.symm
  mem_le := hq.mem ▸ h.mem_le
  maxmem_le := hq.maxmem ▸ h.maxmem_le

/-- A structure's lock, references or score are changed, by a thread that leaves the locks of the others. -/
theorem quiet_modify (u : Tid) (s : State Tid Dir) (a : Nat) (f : Dh Tid → Dh Tid) (hcore : SameCore (f (s.dh a)) (s.dh a))
    (hkeeps : ∀ t ≠ u, (s.dh a).lock.excl = some t → (f (s.dh a)).lock.excl = some t) : Quiet u s (s.modify a f) := by
  refine ⟨rfl, rfl, .refl _, rfl, rfl, rfl, fun b => ?_, fun b t hne hexcl => ?_⟩
  · show SameCore (Function.update s.dh a (f (s.dh a)) b) (s.dh b)
    by_cases hb : b = a
    · rwa [hb, Function.update_self]
    · rw [Function.update_of_ne hb]
      exact .refl _
  · show (Function.update s.dh a (f (s.dh a)) b).lock.excl = some t
    by_cases hb : b = a
    · rw [hb] at hexcl
      rw [hb, Function.update_self]
      exact hkeeps t hne hexcl
    · rwa [Function.update_of_ne hb]

theorem passNext_perm (score : Nat → Int) (a : Nat) (list : List Nat) : (State.passNext score a list).Perm list := by
  induction list using State.passNext.induct score a with
  | case1 y rest hle => 
      rw [State.passNext, if_pos rfl, if_pos hle]
      exact .swap ..
  | case2 y rest hle =>
      rw [State.passNext, if_pos rfl, if_neg hle]
  | case3 x y rest hne ih =>
      rw [State.passNext, if_neg hne]
      exact ih.cons x
  | case4 rest h =>
      rw [State.passNext]
      exact h

/-! ### A region under `ufsdirhash_mtx` -/

section Reclaim

/-- What a region that destroys structures leaves alone. -/
structure Reclaims (s s' : State Tid Dir) : Prop where
  next : s'.next = s.next
  idirhash : s'.idirhash = s.idirhash
  maxmem : s'.dirhashmaxmem = s.dirhashmaxmem
  pc : s'.pc = s.pc
  lock : ∀ a, (s'.dh a).lock = (s.dh a).lock
  phase : ∀ a, (s'.dh a).phase = (s.dh a).phase
  /-- A table goes only when nobody has the lock of the structure. -/
  hash : ∀ a, (s.dh a).lock.excl ≠ none → (s'.dh a).hash = (s.dh a).hash
  /-- The memory goes with the table. -/
  memreq : ∀ a, ((s'.dh a).hash = (s.dh a).hash ∧ (s'.dh a).memreq = (s.dh a).memreq)
    ∨ ((s'.dh a).hash = false ∧ (s'.dh a).memreq = 0)

variable {s₁ s₂ s₃ : State Tid Dir}

theorem Reclaims.refl (s : State Tid Dir) : Reclaims s s :=
  ⟨rfl, rfl, rfl, rfl, fun _ => rfl, fun _ => rfl, fun _ _ => rfl, fun _ => .inl ⟨rfl, rfl⟩⟩

theorem Reclaims.trans (h : Reclaims s₁ s₂) (h' : Reclaims s₂ s₃) : Reclaims s₁ s₃ where
  next := h'.next.trans h.next
  idirhash := h'.idirhash.trans h.idirhash
  maxmem := h'.maxmem.trans h.maxmem
  pc := h'.pc.trans h.pc
  lock a := (h'.lock a).trans (h.lock a)
  phase a := (h'.phase a).trans (h.phase a)
  hash a ha := (h'.hash a (h.lock a ▸ ha)).trans (h.hash a ha)
  memreq a := by
    rcases h'.memreq a with ⟨hhash, hmem⟩ | hgone
    · rw [hhash, hmem]
      exact h.memreq a
    · exact .inr hgone

theorem reclaims_modify (s : State Tid Dir) (a : Nat) (f : Dh Tid → Dh Tid) (hlock : (f (s.dh a)).lock = (s.dh a).lock)
    (hphase : (f (s.dh a)).phase = (s.dh a).phase)
    (hhash : (s.dh a).lock.excl ≠ none → (f (s.dh a)).hash = (s.dh a).hash)
    (hmemreq : ((f (s.dh a)).hash = (s.dh a).hash ∧ (f (s.dh a)).memreq = (s.dh a).memreq)
      ∨ ((f (s.dh a)).hash = false ∧ (f (s.dh a)).memreq = 0)) : Reclaims s (s.modify a f) := by
  have hcase : ∀ P : Dh Tid → Dh Tid → Prop, P (f (s.dh a)) (s.dh a) → (∀ x, P x x) → ∀ b, P ((s.modify a f).dh b) (s.dh b) := by
    intro P ha hrefl b
    show P (Function.update s.dh a (f (s.dh a)) b) (s.dh b)
    by_cases hb : b = a
    · rwa [hb, Function.update_self]
    · rw [Function.update_of_ne hb]
      exact hrefl _
  exact ⟨rfl, rfl, rfl, rfl, hcase (fun x y => x.lock = y.lock) hlock fun _ => rfl,
    hcase (fun x y => x.phase = y.phase) hphase fun _ => rfl,
    hcase (fun x y => y.lock.excl ≠ none → x.hash = y.hash) hhash fun _ _ => rfl,
    hcase (fun x y => (x.hash = y.hash ∧ x.memreq = y.memreq) ∨ (x.hash = false ∧ x.memreq = 0)) hmemreq
      fun _ => .inl ⟨rfl, rfl⟩⟩

theorem Reclaims.setLock (h : Reclaims s₁ s₂) (b : Bool) : Reclaims s₁ { s₂ with listLock := b } :=
  ⟨h.next, h.idirhash, h.maxmem, h.pc, h.lock, h.phase, h.hash, h.memreq⟩

theorem Sound.setLock (h : Sound q s) (b : Bool) : Sound q { s with listLock := b } :=
  ⟨h.fresh, h.phase, h.attached, h.inj, h.nodup, h.mem_list, h.mem, h.mem_le, h.maxmem_le⟩

theorem Sound.decScore (h : Sound q s) (ha : a ∈ s.list) : Sound q (s.decScore a) := by
  have hlt : a < s.next := h.lt_next (by rcases (h.hash_of_mem ha).2 with hp | hp <;> simp [hp])
  refine h.revise (x := { s.dh a with score := toI32 ((s.dh a).score - 1) }) (h.phase a) hlt Iff.rfl rfl Iff.rfl ?_ h.mem_le
  simp [charge]

theorem reclaims_decScore (s : State Tid Dir) (a : Nat) : Reclaims s (s.decScore a) :=
  reclaims_modify s a _ rfl rfl (fun _ => rfl) (.inl ⟨rfl, rfl⟩)

variable [DecidableEq Tid]

theorem reclaims_destroy (hfree : (s.dh a).canLock = true) : Reclaims s (s.destroy a) := by
  have hnone : (s.dh a).lock.excl = none := by simp_all [Dh.canLock]
  have hmod := reclaims_modify s a (fun x => { x with onlist := false, hash := false, memreq := 0 }) rfl rfl
    (fun hne => absurd hnone hne) (.inr ⟨rfl, rfl⟩)
  exact ⟨rfl, rfl, rfl, rfl, hmod.lock, hmod.phase, hmod.hash, hmod.memreq⟩

/-- The loop of `ufsdirhash_recycle`. When it gives 0, there is the room that was wanted. -/
theorem recycleLoop_spec (hfits : q.Fits) (wanted : Int) : ∀ (fuel : Nat) (rest : List Nat) (s : State Tid Dir) {ret : Int}
    {s' : State Tid Dir}, Sound q s → rest ⊆ s.list → State.recycleLoop wanted fuel rest s = some (ret, s') →
      Sound q s' ∧ Reclaims s s' ∧ (ret = 0 → toI32 (wanted + s'.dirhashmem) ≤ s'.dirhashmaxmem) := by
  intro fuel
  induction fuel with
  | zero =>
      intro rest s ret s' _ _ hrun
      cases hrun
  | succ fuel ih =>
      intro rest s ret s' h hsub hrun
      have hfailed : ∀ {s₁ : State Tid Dir}, Sound q s₁ → Reclaims s s₁ →
          some (-1, { s₁ with listLock := false }) = some (ret, s') →
            Sound q s' ∧ Reclaims s s' ∧ (ret = 0 → toI32 (wanted + s'.dirhashmem) ≤ s'.dirhashmaxmem) := by
        intro s₁ h₁ hr heq
        obtain ⟨rfl, rfl⟩ := Prod.mk.inj (Option.some.inj heq)
        exact ⟨h₁.setLock false, hr.setLock false, fun hno => by cases hno⟩
      have hdone : ¬toI32 (wanted + s.dirhashmem) > s.dirhashmaxmem → some (0, s) = some (ret, s') →
          Sound q s' ∧ Reclaims s s' ∧ (ret = 0 → toI32 (wanted + s'.dirhashmem) ≤ s'.dirhashmaxmem) := by
        intro hroom heq
        obtain ⟨rfl, rfl⟩ := Prod.mk.inj (Option.some.inj heq)
        exact ⟨h, .refl s, fun _ => Int.not_lt.mp hroom⟩
      cases rest with
      | nil =>
          rw [State.recycleLoop] at hrun
          split at hrun
          · exact hfailed h (.refl s) hrun
          · next hroom => exact hdone hroom hrun
      | cons a rest =>
          have ha : a ∈ s.list := hsub List.mem_cons_self
          have hdec := h.decScore ha
          have hrdec := reclaims_decScore s a
          rw [State.recycleLoop] at hrun
          split at hrun
          · dsimp only at hrun
            split at hrun
            · exact hfailed hdec hrdec hrun
            · split at hrun
              · next hfree =>
                  have hdes : Sound q ((s.decScore a).destroy a) := hdec.destroy hfits ha
                  obtain ⟨hs, hr, hroom⟩ := ih _ _ hdes (List.Subset.refl _) hrun
                  exact ⟨hs, hrdec.trans ((reclaims_destroy hfree).trans hr), hroom⟩
              · have htail : rest ⊆ (s.decScore a).list := fun b hb => hsub (List.mem_cons_of_mem a hb)
                obtain ⟨hs, hr, hroom⟩ := ih _ _ hdec htail hrun
                exact ⟨hs, hrdec.trans hr, hroom⟩
          · next hroom => exact hdone hroom hrun

theorem recycle_spec (hfits : q.Fits) {wanted ret : Int} (h : Sound q s) (hrun : s.recycle wanted = some (ret, s')) :
    Sound q s' ∧ Reclaims s s' ∧ (ret = 0 → toI32 (wanted + s'.dirhashmem) ≤ s'.dirhashmaxmem) := by
  obtain ⟨hs, hr, hroom⟩ := recycleLoop_spec hfits wanted _ _ _ (h.setLock true) (List.Subset.refl _) hrun
  exact ⟨hs, ((Reclaims.refl s).setLock true).trans hr, hroom⟩

/-- Each round of the loop either goes on to the next structure, or makes the list shorter. -/
theorem recycleLoop_total (wanted : Int) : ∀ (fuel : Nat) (rest : List Nat) (s : State Tid Dir), rest ⊆ s.list →
    s.listLock = true → s.list.length * (s.list.length + 1) + rest.length < fuel →
      ∃ ret s', State.recycleLoop wanted fuel rest s = some (ret, s') ∧ (s'.listLock = true ↔ ret = 0) := by
  intro fuel
  induction fuel with
  | zero =>
      intro rest s _ _ hfuel
      omega
  | succ fuel ih =>
      intro rest s hsub hlock hfuel
      cases rest with
      | nil =>
          rw [State.recycleLoop]
          split
          · exact ⟨-1, _, rfl, by simp⟩
          · exact ⟨0, s, rfl, by simp [hlock]⟩
      | cons a rest =>
          have ha : a ∈ s.list := hsub List.mem_cons_self
          rw [List.length_cons] at hfuel
          rw [State.recycleLoop]
          split
          · dsimp only
            split
            · exact ⟨-1, _, rfl, by simp⟩
            · split
              · -- the list is shorter by one, and the loop starts again from its first
                have hlen := List.length_erase_add_one ha
                have hmul : s.list.length * (s.list.length + 1)
                    = (s.list.erase a).length * ((s.list.erase a).length + 1) + 2 * ((s.list.erase a).length + 1) := by
                  rw [← hlen]
                  ring
                refine ih _ _ (List.Subset.refl _) hlock ?_
                show (s.list.erase a).length * ((s.list.erase a).length + 1) + (s.list.erase a).length < fuel
                omega
              · refine ih rest _ (fun b hb => hsub (List.mem_cons_of_mem a hb)) hlock ?_
                show s.list.length * (s.list.length + 1) + rest.length < fuel
                omega
          · exact ⟨0, s, rfl, by simp [hlock]⟩

/-- `ufsdirhash_recycle` ends, and has the lock of the list exactly when it gives 0. -/
theorem recycle_total (wanted : Int) (s : State Tid Dir) :
    ∃ ret s', s.recycle wanted = some (ret, s') ∧ (s'.listLock = true ↔ ret = 0) := by
  refine recycleLoop_total wanted _ _ _ (List.Subset.refl _) rfl ?_
  have hmul : (s.list.length + 1) * (s.list.length + 2)
      = s.list.length * (s.list.length + 1) + 2 * (s.list.length + 1) := by ring
  show s.list.length * (s.list.length + 1) + s.list.length < _
  omega

theorem lowmemLoop_spec (hfits : q.Fits) (memwanted : Int) : ∀ (rest : List Nat) (memfreed : Int) (s : State Tid Dir),
    Sound q s → rest.Nodup → rest ⊆ s.list →
      Sound q (State.lowmemLoop memwanted rest memfreed s) ∧ Reclaims s (State.lowmemLoop memwanted rest memfreed s) := by
  intro rest
  induction rest with
  | nil =>
      intro memfreed s h _ _
      exact ⟨h, .refl s⟩
  | cons a rest ih =>
      intro memfreed s h hnodup hsub
      obtain ⟨hnotin, hnodup⟩ := List.nodup_cons.mp hnodup
      have ha : a ∈ s.list := hsub List.mem_cons_self
      have htail : rest ⊆ s.list := fun b hb => hsub (List.mem_cons_of_mem a hb)
      rw [State.lowmemLoop]
      by_cases hfree : (s.dh a).canLock = true
      · have hdes := h.destroy hfits ha
        have hrdes := reclaims_destroy hfree
        have hrest : rest ⊆ (s.destroy a).list := fun b hb =>
          (List.mem_erase_of_ne fun heq : b = a => hnotin (heq ▸ hb)).mpr (htail hb)
        rw [if_pos hfree, if_pos hfree]
        split
        · exact ⟨hdes, hrdes⟩
        · obtain ⟨hs, hr⟩ := ih _ _ hdes hnodup hrest
          exact ⟨hs, hrdes.trans hr⟩
      · rw [if_neg hfree, if_neg hfree]
        split
        · exact ⟨h, .refl s⟩
        · exact ih _ _ h hnodup htail

end Reclaim

end UfsX.Proofs.DirhashMem
