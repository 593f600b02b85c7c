import UfsX.Lib.Run
import UfsX.Ufs.InodeLock
import Mathlib.Data.Finset.Card
import Mathlib.Data.Finset.Dedup
import Mathlib.Data.Nat.Digits.Lemmas

/-!
# `UfsX.Proofs.InodeLock`: the records of an inode lock and the lock itself

`exec_spec` is the step: when the records agree with the lock of the system, a
legal operation does not panic, and the records agree afterwards exactly when
the operation is `Sound`. `recordsOk_of_run` is the invariant of the runs of sound
operations.

Three operations are not sound. A request that does not wait and is refused
enters the thread in the records all the same. A thread that has the lock shared
twice is forgotten when it gives the first hold back. An upgrade that is refused
makes the thread the owner of a lock that it does not hold.
-/

set_option autoImplicit false

namespace UfsX.Proofs

open UfsX.Lib UfsX.Ufs
open Relation (ReflTransGen)

theorem tidString_injective : Function.Injective tidString := by
  intro a b h
  have hmap := List.reverse_injective h
  have hdigits := List.map_injective_iff.mpr (fun x y hxy => Nat.add_right_cancel hxy) hmap
  exact Nat.digits_inj_iff.mp hdigits

/-- The three records say what the lock of the system says. -/
structure RecordsOk (s : Sys) : Prop where
  owner : s.lock.owner = s.impl.excl
  rdcount : s.lock.rdcount = s.impl.shared.card
  readers : s.lock.readers = s.impl.shared.toFinset.image tidString

/-- What an operation needs so that the records stay right. -/
def Sound (s : Sys) : LockOp → Prop
  | .lock t type granted => granted = true ∨ (type.exclusive = true ∧ s.impl.excl = some t)
  | .unlock t => s.impl.shared.count t ≤ 1
  | .upgrade _ granted => granted = true
  | .downgrade _ => True

theorem recordsOk_new : RecordsOk ⟨.new, .free⟩ := ⟨rfl, rfl, rfl⟩

namespace RecordsOk

variable {s : Sys} (h : RecordsOk s)
include h

theorem mem_readers {t : Nat} : tidString t ∈ s.lock.readers ↔ t ∈ s.impl.shared := by
  rw [h.readers, Finset.mem_image]
  constructor
  · rintro ⟨t', hmem, heq⟩
    rw [tidString_injective heq] at hmem
    exact Multiset.mem_toFinset.mp hmem
  · intro hmem
    exact ⟨t, Multiset.mem_toFinset.mpr hmem, rfl⟩

/-- `inode_lock_owned` tells the truth. -/
theorem owned_eq (t : Nat) : s.lock.owned t = s.impl.held t := by
  unfold InodeLock.owned RwLock.held InodeLock.hasReadlock
  rw [h.owner]
  simp only [decide_eq_true_eq, h.mem_readers]

theorem rdcount_pos {t : Nat} (ht : t ∈ s.impl.shared) : s.lock.rdcount > 0 := by
  have hcard := Multiset.card_pos_iff_exists_mem.mpr ⟨t, ht⟩
  rw [h.rdcount]
  omega

theorem clear_ok {t : Nat} (ht : t ∈ s.impl.shared) (rdcount : Int) (owner : Option Nat) :
    InodeLock.clearReadlock ⟨rdcount, owner, s.lock.readers⟩ t
      = .ok ⟨rdcount, owner, s.lock.readers.erase (tidString t)⟩ :=
  if_pos (h.mem_readers.mpr ht)

theorem owner_ne {t : Nat} (ht : t ∈ s.impl.shared) : s.lock.owner ≠ some t := by
  rw [h.owner, RwLock.excl_none ht]
  exact fun hno => by cases hno

end RecordsOk

/-- The keys that are left when one hold of `t` goes. -/
theorem erase_readers_iff {m : Multiset Nat} {t : Nat} :
    (m.toFinset.image tidString).erase (tidString t) = (m.erase t).toFinset.image tidString
      ↔ m.count t ≤ 1 := by
  constructor
  · intro heq
    by_contra hcount
    have hmem : tidString t ∈ (m.erase t).toFinset.image tidString := by
      refine Finset.mem_image_of_mem _ (Multiset.mem_toFinset.mpr ?_)
      rw [← Multiset.count_pos, Multiset.count_erase_self]
      omega
    rw [← heq] at hmem
    exact (Finset.mem_erase.mp hmem).1 rfl
  · intro hcount
    have hgone : t ∉ m.erase t := by
      rw [← Multiset.count_eq_zero, Multiset.count_erase_self]
      omega
    rw [← Finset.image_erase tidString_injective]
    congr 1
    ext x
    rw [Finset.mem_erase, Multiset.mem_toFinset, Multiset.mem_toFinset]
    constructor
    · rintro ⟨hne, hx⟩
      exact (Multiset.mem_erase_of_ne hne).mpr hx
    · intro hx
      have hne : x ≠ t := fun heq => hgone (heq ▸ hx)
      exact ⟨hne, (Multiset.mem_erase_of_ne hne).mp hx⟩

theorem insert_readers (m : Multiset Nat) (t : Nat) :
    insert (tidString t) (m.toFinset.image tidString)
      = (t ::ₘ m).toFinset.image tidString := by
  rw [Multiset.toFinset_cons, Finset.image_insert]

/-! ### One operation -/

section Exec

variable {s : Sys} (h : RecordsOk s)
include h

theorem exec_lock_spec {t : Nat} {type : LockType} {granted : Bool}
    (hop : (LockOp.lock t type granted).Legal s) :
    ∃ s', (LockOp.lock t type granted).exec s = .ok s'
      ∧ (RecordsOk s' ↔ Sound s (.lock t type granted)) := by
  obtain ⟨htype, -, hgrant⟩ := hop
  cases hexcl : type.exclusive with
  | true =>
      have hhold : type.hold = .exclusive := if_pos hexcl
      refine ⟨_, by simp only [LockOp.exec, InodeLock.lockLock, hexcl, if_true]; rfl, ?_⟩
      cases granted with
      | true =>
          refine iff_of_true ?_ (Or.inl rfl)
          obtain ⟨impl, himpl⟩ := Option.isSome_iff_exists.mp (hgrant rfl)
          rw [hhold] at himpl
          obtain ⟨-, h0, hown, hsh⟩ := RwLock.lockExclusive_eq himpl
          simp only [hhold, himpl, if_true, Option.getD_some]
          exact ⟨hown.symm, by rw [hsh, h.rdcount, h0], by rw [hsh, h.readers, h0]⟩
      | false =>
          -- the thread is entered as the owner although it got nothing
          simp only [Sound, hexcl, Bool.false_eq_true, if_false, false_or, true_and]
          constructor
          · intro hok
            exact hok.owner.symm
          · intro hown
            exact ⟨hown.symm, h.rdcount, h.readers⟩
  | false =>
      have hsh : type.shared = true := htype.resolve_left (by simp [hexcl])
      have hhold : type.hold = .shared := if_neg (by simp [hexcl])
      refine ⟨_, by simp only [LockOp.exec, InodeLock.lockLock, hexcl, hsh, if_true]; rfl, ?_⟩
      cases granted with
      | true =>
          refine iff_of_true ?_ (Or.inl rfl)
          obtain ⟨impl, himpl⟩ := Option.isSome_iff_exists.mp (hgrant rfl)
          rw [hhold] at himpl
          obtain ⟨h0, hown, hshared⟩ := RwLock.lockShared_eq himpl
          simp only [hhold, himpl, if_true, Option.getD_some]
          refine ⟨?_, ?_, ?_⟩
          · rw [hown, ← h0]
            exact h.owner
          · rw [hshared, Multiset.card_cons, Nat.cast_add, ← h.rdcount]
            rfl
          · rw [hshared, ← insert_readers, ← h.readers]
            rfl
      | false =>
          refine iff_of_false (fun hok => ?_) (by simp [Sound, hexcl])
          -- one reader too many
          have hcount := hok.rdcount
          simp only [Bool.false_eq_true, if_false, InodeLock.setReadlock, ← h.rdcount] at hcount
          omega

/-- Which lock of the system an unlock releases. -/
theorem unlock_spec {t : Nat} (hop : (LockOp.unlock t).Legal s) :
    (s.impl.excl = some t ∧ s.lock.unlock t = .ok (.exclusive, { s.lock with owner := none }))
      ∨ (t ∈ s.impl.shared ∧ s.lock.unlock t = .ok (.shared, { s.lock with
          rdcount := s.lock.rdcount - 1
          readers := s.lock.readers.erase (tidString t) })) := by
  by_cases hown : s.impl.excl = some t
  · refine Or.inl ⟨hown, ?_⟩
    rw [InodeLock.unlock, if_pos (h.owner.trans hown)]
  · have hmem : t ∈ s.impl.shared := by
      simp only [LockOp.Legal, RwLock.held, if_neg hown] at hop
      by_contra hno
      rw [if_neg hno] at hop
      cases hop
    refine Or.inr ⟨hmem, ?_⟩
    rw [InodeLock.unlock, if_neg (h.owner_ne hmem), if_pos (h.rdcount_pos hmem),
      h.clear_ok hmem]
    rfl

theorem exec_unlock_spec {t : Nat} (hop : (LockOp.unlock t).Legal s) :
    ∃ s', (LockOp.unlock t).exec s = .ok s' ∧ (RecordsOk s' ↔ Sound s (.unlock t)) := by
  rcases unlock_spec h hop with ⟨hown, hcall⟩ | ⟨hmem, hcall⟩
  · have himpl : s.impl.unlock t .exclusive = some ⟨none, s.impl.shared, Or.inl rfl⟩ :=
      if_pos hown
    refine ⟨_, by simp only [LockOp.exec, hcall]; rfl, iff_of_true ?_ ?_⟩
    · rw [himpl]
      exact ⟨rfl, h.rdcount, h.readers⟩
    · show s.impl.shared.count t ≤ 1
      rw [RwLock.shared_zero hown, Multiset.count_zero]
      exact Nat.zero_le 1
  · obtain ⟨impl, himpl⟩ : ∃ impl, s.impl.unlock t .shared = some impl := ⟨_, if_pos hmem⟩
    obtain ⟨-, hexcl, hsh⟩ := RwLock.unlockShared_eq himpl
    refine ⟨_, by simp only [LockOp.exec, hcall]; rfl, ?_⟩
    rw [himpl]
    show _ ↔ s.impl.shared.count t ≤ 1
    rw [← erase_readers_iff, ← h.readers, ← hsh]
    refine ⟨fun hok => hok.readers, fun hreaders => ⟨h.owner.trans hexcl.symm, ?_, hreaders⟩⟩
    show s.lock.rdcount - 1 = _
    have hpos := Multiset.card_pos_iff_exists_mem.mpr ⟨t, hmem⟩
    rw [Option.getD_some, hsh, Multiset.card_erase_of_mem hmem, h.rdcount, Nat.pred_eq_sub_one]
    omega

theorem exec_upgrade_spec {t : Nat} {granted : Bool} (hop : (LockOp.upgrade t granted).Legal s) :
    ∃ s', (LockOp.upgrade t granted).exec s = .ok s'
      ∧ (RecordsOk s' ↔ Sound s (.upgrade t granted)) := by
  obtain ⟨hmem, hgrant⟩ := hop
  have hcall : s.lock.upgrade t = .ok { s.lock with
      owner := some t
      rdcount := s.lock.rdcount - 1
      readers := s.lock.readers.erase (tidString t) } := by
    rw [InodeLock.upgrade, if_pos ⟨decide_eq_true (h.mem_readers.mpr hmem), h.rdcount_pos hmem⟩,
      h.clear_ok hmem]
  refine ⟨_, by simp only [LockOp.exec, hcall]; rfl, ?_⟩
  obtain ⟨impl, himpl⟩ := Option.isSome_iff_exists.mp hgrant
  rw [himpl, Option.getD_some]
  cases granted with
  | true =>
      obtain ⟨hone, hexcl, hsh⟩ := RwLock.upgrade_eq himpl
      refine iff_of_true ⟨hexcl.symm, ?_, ?_⟩ rfl
      · show s.lock.rdcount - 1 = _
        rw [hsh, h.rdcount, hone]
        rfl
      · show s.lock.readers.erase (tidString t) = _
        rw [hsh, h.readers, hone]
        simp
  | false =>
      -- the hold is lost, and the thread is entered as the owner
      obtain ⟨-, hexcl, -⟩ := RwLock.upgradeLost_eq himpl
      refine iff_of_false (fun hok => ?_) (by simp [Sound])
      have hown := hok.owner
      rw [hexcl, RwLock.excl_none hmem] at hown
      cases hown

theorem exec_downgrade_spec {t : Nat} (hop : (LockOp.downgrade t).Legal s) :
    ∃ s', (LockOp.downgrade t).exec s = .ok s' ∧ (RecordsOk s' ↔ Sound s (.downgrade t)) := by
  have hown : s.impl.excl = some t := hop
  obtain ⟨impl, himpl⟩ : ∃ impl, s.impl.downgrade t = some impl := ⟨_, if_pos hown⟩
  obtain ⟨-, hexcl, hsh⟩ := RwLock.downgrade_eq himpl
  have hzero := RwLock.shared_zero hown
  have hcall : s.lock.downgrade t = .ok ({ s.lock with
      owner := none
      rdcount := s.lock.rdcount + 1 }.setReadlock t) := by
    rw [InodeLock.downgrade, if_pos (h.owner.trans hown)]
  refine ⟨_, by simp only [LockOp.exec, hcall]; rfl, iff_of_true ?_ trivial⟩
  rw [himpl, Option.getD_some]
  refine ⟨hexcl.symm, ?_, ?_⟩
  · show s.lock.rdcount + 1 = _
    rw [hsh, h.rdcount, hzero]
    rfl
  · show insert (tidString t) s.lock.readers = _
    rw [hsh, h.readers, insert_readers, hzero]
    rfl

/-- In a state with correct records, a legal operation does not panic, and the
records stay correct exactly when it is sound. -/
theorem exec_spec {op : LockOp} (hop : op.Legal s) :
    ∃ s', op.exec s = .ok s' ∧ (RecordsOk s' ↔ Sound s op) := by
  cases op with
  | lock t type granted => exact exec_lock_spec h hop
  | unlock t => exact exec_unlock_spec h hop
  | upgrade t granted => exact exec_upgrade_spec h hop
  | downgrade t => exact exec_downgrade_spec h hop

end Exec

/-! ### Runs -/

/-- One operation that is legal and sound. -/
def LockStep (s s' : Sys) : Prop := ∃ op : LockOp, op.Legal s ∧ Sound s op ∧ op.exec s = .ok s'

theorem LockStep.recordsOk {s s' : Sys} (h : RecordsOk s) (hstep : LockStep s s') :
    RecordsOk s' := by
  obtain ⟨op, hop, hsound, hexec⟩ := hstep
  obtain ⟨s₁, hexec₁, hiff⟩ := exec_spec h hop
  obtain rfl := Except.ok.inj (hexec₁.symm.trans hexec)
  exact hiff.mpr hsound

/-- In every run of sound operations the records agree with the lock. In every
state reached, `inode_lock_owned` returns what the caller holds, an unlock by a
holder releases what it holds, and no legal operation panics; whether the
records survive it depends on the operation alone. -/
theorem recordsOk_of_run {s s' : Sys} (h : RecordsOk s) (hrun : ReflTransGen LockStep s s') :
    RecordsOk s'
      ∧ (∀ t, s'.lock.owned t = s'.impl.held t)
      ∧ (∀ t, (LockOp.unlock t).Legal s' → ∃ kind l, s'.lock.unlock t = .ok (kind, l)
          ∧ s'.impl.held t = some kind)
      ∧ ∀ op : LockOp, op.Legal s' → ∃ s'', op.exec s' = .ok s'' ∧ (RecordsOk s'' ↔ Sound s' op) := by
  have h' : RecordsOk s' := invariant_of_run RecordsOk LockStep.recordsOk h hrun
  refine ⟨h', h'.owned_eq, fun t hop => ?_, fun op hop => exec_spec h' hop⟩
  rcases unlock_spec h' hop with ⟨hown, hcall⟩ | ⟨hmem, hcall⟩
  · exact ⟨_, _, hcall, if_pos hown⟩
  · refine ⟨_, _, hcall, ?_⟩
    rw [RwLock.held, if_neg (by rw [RwLock.excl_none hmem]; exact fun hno => by cases hno),
      if_pos hmem]

/-- Thread 1 takes a new lock and gives it back, and then thread 2 shares it. -/
theorem recordsOk_of_run_two :
    ∃ s, ReflTransGen LockStep ⟨.new, .free⟩ s ∧ s.impl.held 2 = some .shared ∧ RecordsOk s := by
  have hlock : LockStep ⟨.new, .free⟩ ⟨⟨0, some 1, ∅⟩, ⟨some 1, 0, Or.inr rfl⟩⟩ :=
    ⟨.lock 1 ⟨true, false, false⟩ true, ⟨Or.inl rfl, (fun hno => by cases hno), fun _ => rfl⟩,
      Or.inl rfl, rfl⟩
  have hunlock : LockStep ⟨⟨0, some 1, ∅⟩, ⟨some 1, 0, Or.inr rfl⟩⟩ ⟨⟨0, none, ∅⟩, ⟨none, 0, Or.inl rfl⟩⟩ :=
    ⟨.unlock 1, rfl, Nat.zero_le 1, rfl⟩
  have hshare : LockStep ⟨⟨0, none, ∅⟩, ⟨none, 0, Or.inl rfl⟩⟩
      ⟨⟨1, none, {tidString 2}⟩, ⟨none, {2}, Or.inl rfl⟩⟩ :=
    ⟨.lock 2 ⟨false, true, false⟩ true, ⟨Or.inr rfl, (fun hno => by cases hno), fun _ => rfl⟩,
      Or.inl rfl, rfl⟩
  have hrun := ((ReflTransGen.single hlock).tail hunlock).tail hshare
  exact ⟨_, hrun, rfl, (recordsOk_of_run recordsOk_new hrun).1⟩

/-- Thread 1 holds a new lock, thread 2 asks for it without waiting and is
refused. Then thread 2 is the owner, and thread 1 panics when it unlocks. -/
theorem not_recordsOk_of_run :
    ∃ s s' : Sys, ReflTransGen LockStep ⟨.new, .free⟩ s
      ∧ (LockOp.lock 2 ⟨true, false, true⟩ false).Legal s
      ∧ (LockOp.lock 2 ⟨true, false, true⟩ false).exec s = .ok s'
      ∧ s'.lock.owned 2 = some .exclusive ∧ s'.impl.held 2 = none
      ∧ (LockOp.unlock 1).Legal s' ∧ (LockOp.unlock 1).exec s' = .error .notOwned := by
  refine ⟨⟨⟨0, some 1, ∅⟩, ⟨some 1, 0, Or.inr rfl⟩⟩, ⟨⟨0, some 2, ∅⟩, ⟨some 1, 0, Or.inr rfl⟩⟩,
    ReflTransGen.single ⟨.lock 1 ⟨true, false, false⟩ true,
      ⟨Or.inl rfl, (fun hno => by cases hno), fun _ => rfl⟩, Or.inl rfl, rfl⟩,
    ⟨Or.inl rfl, fun _ => rfl, fun hno => by cases hno⟩, rfl, rfl, ?_, rfl, rfl⟩
  simp [RwLock.held]

end UfsX.Proofs
