import UfsX.Ufs.LockPair

/-!
# `UfsX.Proofs.LockPair`: locking a pair is never all or nothing

`inode_lock_lockpair` takes the answer of `inode_lock_lock` for an error number.

* `lock_changed`: a request changes the records, granted or not.
* `refused_not_restored`: after a refused request an unlock does not lead back.
* `not_lockpairOk`: whatever the locks of the system answer, the call is not what it
  should be.
-/

set_option autoImplicit false

namespace UfsX.Proofs.LockPair

open UfsX.Lib UfsX.Ufs

/-- What is asked of the end of a call: 0 exactly if both inodes are held as requested,
neither held and the records as they were otherwise, and a way back after 0. -/
structure AllOrNothing (locks : Locks) (t ip1 ip2 : Nat) (type : LockType) (value : Nat)
    (locks' : Locks) : Prop where
  zero_iff : value = 0 ↔ ∀ ip ∈ [ip1, ip2], (locks' ip).impl.held t = some type.hold
  nothing : value ≠ 0 → ∀ ip ∈ [ip1, ip2],
    (locks' ip).impl.held t = none ∧ (locks' ip).lock = (locks ip).lock
  restores : value = 0 → inodeLockUnlockpair locks' t ip1 ip2 = .ok locks

/-- The call returns, and returns what it should. -/
def LockpairOk (locks : Locks) (t ip1 ip2 : Nat) (type : LockType) (granted₁ granted₂ : Bool) :
    Prop :=
  ∃ value locks', inodeLockLockpair locks t ip1 ip2 type granted₁ granted₂ = .ok (value, locks') ∧
    AllOrNothing locks t ip1 ip2 type value locks'

/-! ### One lock -/

section OneLock

variable {s s' : Sys} {t : Nat} {type : LockType} {granted : Bool}

/-- What a request does to the records, and what a refused one leaves of the lock. -/
theorem lock_eq (h : LockOp.exec s (.lock t type granted) = .ok s') :
    ((type.exclusive = true ∧ s'.lock = { s.lock with owner := some t }) ∨
      (type.exclusive = false ∧
        s'.lock = { s.lock with rdcount := s.lock.rdcount + 1 }.setReadlock t)) ∧
      (granted = false → s'.impl = s.impl) := by
  simp only [LockOp.exec, InodeLock.lockLock] at h
  split at h
  · next hexcl =>
      rw [← Except.ok.inj h]
      refine ⟨Or.inl ⟨hexcl, rfl⟩, ?_⟩
      intro hrefused
      rw [hrefused]
      rfl
  · next hexcl =>
      split at h
      · rw [← Except.ok.inj h]
        refine ⟨Or.inr ⟨Bool.eq_false_iff.mpr hexcl, rfl⟩, ?_⟩
        intro hrefused
        rw [hrefused]
        rfl
      · cases h

/-- A request changes the records: it enters an owner, or counts a reader. -/
theorem lock_changed (hown : type.exclusive = true → s.lock.owner ≠ some t)
    (h : LockOp.exec s (.lock t type granted) = .ok s') : s'.lock ≠ s.lock := by
  intro hsame
  rcases (lock_eq h).1 with ⟨hexcl, hlock⟩ | ⟨-, hlock⟩
  · rw [hsame] at hlock
    exact hown hexcl (congrArg InodeLock.owner hlock)
  · rw [hsame] at hlock
    have hcount : s.lock.rdcount = s.lock.rdcount + 1 := congrArg InodeLock.rdcount hlock
    omega

/-- A release by the records: by the owner, or by a reader. -/
theorem unlock_eq (h : LockOp.exec s' (.unlock t) = .ok s) :
    (s'.lock.owner = some t ∧ s.lock.owner = none ∧
        s.impl = (s'.impl.unlockExclusive t).getD s'.impl) ∨
      (s'.lock.owner ≠ some t ∧ s.impl = (s'.impl.unlockShared t).getD s'.impl) := by
  simp only [LockOp.exec, InodeLock.unlock] at h
  split at h
  · next hown =>
      rw [← Except.ok.inj h]
      exact Or.inl ⟨hown, rfl, rfl⟩
  · next hown =>
      split at h
      · simp only [InodeLock.clearReadlock] at h
        split at h
        · rw [← Except.ok.inj h]
          exact Or.inr ⟨hown, rfl⟩
        · cases h
      · cases h

theorem held_exclusive {l : RwLock Nat} (h : l.held t = some .exclusive) : l.excl = some t := by
  simp only [RwLock.held] at h
  split at h
  · next hexcl => exact hexcl
  · split at h
    · cases h
    · cases h

theorem held_shared {l : RwLock Nat} (h : l.held t = some .shared) : t ∈ l.shared := by
  simp only [RwLock.held] at h
  split at h
  · cases h
  · split at h
    · next hshared => exact hshared
    · cases h

/-- After a refused request an unlock does not lead back, even if the thread has had the
lock all along: it gives that hold up, or takes the owner out of the records. -/
theorem refused_not_restored (h : LockOp.exec s (.lock t type false) = .ok s')
    (hheld : s'.impl.held t = some type.hold) : LockOp.exec s' (.unlock t) ≠ .ok s := by
  intro hunlock
  have himpl : s'.impl = s.impl := (lock_eq h).2 rfl
  rcases (lock_eq h).1 with ⟨hexcl, hlock⟩ | ⟨hexcl, hlock⟩
  · -- the request was for an exclusive lock
    rw [LockType.hold, if_pos hexcl] at hheld
    have howns : s'.impl.excl = some t := held_exclusive hheld
    rcases unlock_eq hunlock with ⟨-, -, hfreed⟩ | ⟨hother, -⟩
    -- the unlock gives up a hold that was there before
    · rw [RwLock.unlockExclusive, if_pos howns, Option.getD_some] at hfreed
      have hnone : s.impl.excl = none := congrArg RwLock.excl hfreed
      rw [himpl, hnone] at howns
      cases howns
    -- the refused request has made the thread the owner
    · exact hother (congrArg InodeLock.owner hlock)
  · -- it was for a shared one
    have hshared : t ∈ s'.impl.shared := by
      rw [LockType.hold, if_neg (Bool.eq_false_iff.mp hexcl)] at hheld
      exact held_shared hheld
    rcases unlock_eq hunlock with ⟨howner, hnone, -⟩ | ⟨-, hfreed⟩
    -- an owner is taken out of the records
    · have hkept : s'.lock.owner = s.lock.owner := by
        rw [hlock]
        rfl
      rw [hkept, hnone] at howner
      cases howner
    -- or a shared hold is lost
    · rw [RwLock.unlockShared, if_pos hshared, Option.getD_some] at hfreed
      have herase : s.impl.shared = s'.impl.shared.erase t := congrArg RwLock.shared hfreed
      have hcard := Multiset.card_erase_lt_of_mem hshared
      rw [← herase, himpl] at hcard
      exact lt_irrefl _ hcard

end OneLock

/-! ### The pair -/

section Pair

variable {locks locks' : Locks} {t ip1 ip2 : Nat} {type : LockType}

theorem inodeLockLock_eq {ip value : Nat} {granted : Bool}
    (h : inodeLockLock locks t ip type granted = .ok (value, locks')) :
    value = granted.toNat ∧ ∃ s, LockOp.exec (locks ip) (.lock t type granted) = .ok s ∧
      locks' = Function.update locks ip s := by
  simp only [inodeLockLock] at h
  split at h
  · next s hexec =>
      obtain ⟨hvalue, hlocks⟩ := Prod.mk.inj (Except.ok.inj h)
      exact ⟨hvalue.symm, s, hexec, hlocks.symm⟩
  · cases h

theorem inodeLockUnlock_eq {ip : Nat} (h : inodeLockUnlock locks t ip = .ok locks') :
    ∃ s, LockOp.exec (locks ip) (.unlock t) = .ok s ∧ locks' = Function.update locks ip s := by
  simp only [inodeLockUnlock] at h
  split at h
  · next s hexec => exact ⟨s, hexec, (Except.ok.inj h).symm⟩
  · cases h

/-- The pair is released only if its first inode is. -/
theorem unlockpair_first (h : inodeLockUnlockpair locks' t ip1 ip2 = .ok locks) :
    LockOp.exec (locks' ip1) (.unlock t) = .ok (locks ip1) := by
  rw [inodeLockUnlockpair] at h
  cases hfirst : inodeLockUnlock locks' t ip1 with
  | error panic =>
      rw [hfirst] at h
      cases h
  | ok mid =>
      rw [hfirst] at h
      obtain ⟨s, hexec, hmid⟩ := inodeLockUnlock_eq hfirst
      have hs : mid ip1 = s := by
        rw [hmid, Function.update_self]
      -- the second release leaves the first inode alone
      have hend : locks ip1 = mid ip1 := by
        change (if ip2 ≠ ip1 then inodeLockUnlock mid t ip2 else .ok mid) = .ok locks at h
        split at h
        · next hne =>
            obtain ⟨s₂, -, hlocks⟩ := inodeLockUnlock_eq h
            rw [hlocks, Function.update_of_ne (Ne.symm hne)]
        · rw [Except.ok.inj h]
      rw [hexec, hend, hs]

/-- Either an attempt is on record and the value says that it failed, or all requests have
been refused and the value says that they were granted. -/
def Crossed (locks locks' : Locks) (t : Nat) (type : LockType) (inodes : List Nat)
    (value : Nat) : Prop :=
  (value ≠ 0 ∧ ∃ ip ∈ inodes, (locks' ip).lock ≠ (locks ip).lock) ∨
    (value = 0 ∧ ∀ ip ∈ inodes, LockOp.exec (locks ip) (.lock t type false) = .ok (locks' ip))

theorem not_allOrNothing_of_crossed {value : Nat}
    (h : Crossed locks locks' t type [ip1, ip2] value) :
    ¬ AllOrNothing locks t ip1 ip2 type value locks' := by
  intro hall
  rcases h with ⟨hvalue, ip, hip, hchanged⟩ | ⟨hvalue, hrefused⟩
  -- a value that is not 0 promises unchanged records
  · exact hchanged (hall.nothing hvalue ip hip).2
  -- 0 promises the hold and a way back
  · have hheld := hall.zero_iff.mp hvalue ip1 (by simp)
    have hexec := hrefused ip1 (by simp)
    exact refused_not_restored hexec hheld (unlockpair_first (hall.restores hvalue))

/-- One inode: granted is 1, refused is 0. -/
theorem inodeLockLock_crossed {ip value : Nat} {granted : Bool}
    (hown : type.exclusive = true → (locks ip).lock.owner ≠ some t)
    (h : inodeLockLock locks t ip type granted = .ok (value, locks')) :
    Crossed locks locks' t type [ip, ip] value := by
  obtain ⟨hvalue, s, hexec, hlocks⟩ := inodeLockLock_eq h
  have hs : locks' ip = s := by
    rw [hlocks, Function.update_self]
  cases granted with
  | true =>
      left
      refine ⟨by rw [hvalue]; decide, ip, by simp, ?_⟩
      rw [hs]
      exact lock_changed hown hexec
  | false =>
      right
      refine ⟨hvalue, ?_⟩
      intro other hother
      have hother : other = ip := by simpa using hother
      rw [hother, hs]
      exact hexec

/-- The second request, after the first has been refused: granted is 1, and its attempt is
on record. -/
theorem lockLast_eq {mid : Locks} {first last value : Nat} {granted : Bool} (hne : first ≠ last)
    (h : lockLast mid t first last type granted = .ok (value, locks')) :
    ∃ s, LockOp.exec (mid last) (.lock t type granted) = .ok s ∧ locks' last = s ∧
      ((granted = true ∧ value = 1) ∨ (granted = false ∧ value = 0 ∧ locks' first = mid first)) := by
  rw [lockLast] at h
  cases hlock : inodeLockLock mid t last type granted with
  | error panic =>
      rw [hlock] at h
      cases h
  | ok answer =>
      obtain ⟨error, mid₂⟩ := answer
      rw [hlock] at h
      obtain ⟨herror, s, hexec, hmid₂⟩ := inodeLockLock_eq hlock
      have hlast : mid₂ last = s := by
        rw [hmid₂, Function.update_self]
      refine ⟨s, hexec, ?_⟩
      rw [herror] at h
      cases granted with
      | true =>
          -- the first is unlocked, and the last keeps the request
          change (inodeLockUnlock mid₂ t first >>= fun locks => .ok (1, locks))
            = Except.ok (value, locks') at h
          cases hunlock : inodeLockUnlock mid₂ t first with
          | error panic =>
              rw [hunlock] at h
              cases h
          | ok mid₃ =>
              rw [hunlock] at h
              obtain ⟨hvalue, hlocks⟩ := Prod.mk.inj (Except.ok.inj h)
              obtain ⟨s₃, -, hmid₃⟩ := inodeLockUnlock_eq hunlock
              refine ⟨?_, Or.inl ⟨rfl, hvalue.symm⟩⟩
              rw [← hlocks, hmid₃, Function.update_of_ne (Ne.symm hne), hlast]
      | false =>
          obtain ⟨hvalue, hlocks⟩ := Prod.mk.inj (Except.ok.inj h)
          refine ⟨by rw [← hlocks, hlast], Or.inr ⟨rfl, hvalue.symm, ?_⟩⟩
          rw [← hlocks, hmid₂, Function.update_of_ne hne]

/-- Two inodes: 0 after two refusals, 1 otherwise. -/
theorem lockInOrder_crossed {first last value : Nat} {granted₁ granted₂ : Bool}
    (hne : first ≠ last)
    (hown : type.exclusive = true → ∀ ip ∈ [first, last], (locks ip).lock.owner ≠ some t)
    (h : lockInOrder locks t first last type granted₁ granted₂ = .ok (value, locks')) :
    Crossed locks locks' t type [first, last] value := by
  rw [lockInOrder] at h
  cases hlock : inodeLockLock locks t first type granted₁ with
  | error panic =>
      rw [hlock] at h
      cases h
  | ok answer =>
      obtain ⟨error, mid⟩ := answer
      rw [hlock] at h
      obtain ⟨herror, s₁, hexec₁, hmid⟩ := inodeLockLock_eq hlock
      have hfirst : mid first = s₁ := by
        rw [hmid, Function.update_self]
      have hlast : mid last = locks last := by
        rw [hmid, Function.update_of_ne (Ne.symm hne)]
      rw [herror] at h
      cases granted₁ with
      | true =>
          -- the first is granted, and its 1 is taken for an error
          obtain ⟨hvalue, hlocks⟩ := Prod.mk.inj (Except.ok.inj h)
          left
          refine ⟨by rw [← hvalue]; decide, first, by simp, ?_⟩
          rw [← hlocks, hfirst]
          exact lock_changed (fun hexcl => hown hexcl first (by simp)) hexec₁
      | false =>
          change lockLast mid t first last type granted₂ = .ok (value, locks') at h
          obtain ⟨s₂, hexec₂, hlast₂, hend⟩ := lockLast_eq hne h
          rw [hlast] at hexec₂
          -- the first was refused, and the second decides
          rcases hend with ⟨-, hvalue⟩ | ⟨hrefused, hvalue, hfirst₂⟩
          · left
            refine ⟨by rw [hvalue]; decide, last, by simp, ?_⟩
            rw [hlast₂]
            exact lock_changed (fun hexcl => hown hexcl last (by simp)) hexec₂
          · right
            refine ⟨hvalue, ?_⟩
            intro ip hip
            rcases List.mem_pair.mp hip with hip | hip
            · rw [hip, hfirst₂, hfirst]
              exact hexec₁
            · rw [hip, hlast₂, ← hrefused]
              exact hexec₂

end Pair

/-- Whatever the records say and the locks of the system answer, the call panics or ends
as it should not. -/
theorem not_lockpairOk (locks : Locks) (t ip1 ip2 : Nat) (type : LockType)
    (granted₁ granted₂ : Bool) : ¬ LockpairOk locks t ip1 ip2 type granted₁ granted₂ := by
  rintro ⟨value, locks', h, hall⟩
  apply not_allOrNothing_of_crossed _ hall
  rw [inodeLockLockpair] at h
  split at h
  · cases h
  · next hguard =>
      -- past the guard an exclusive request comes from no owner
      have hown : type.exclusive = true → ∀ ip ∈ [ip1, ip2], (locks ip).lock.owner ≠ some t := by
        intro hexcl ip hip howner
        apply hguard
        rcases List.mem_pair.mp hip with hip | hip
        · exact ⟨hexcl, Or.inr (hip ▸ howner)⟩
        · exact ⟨hexcl, Or.inl (hip ▸ howner)⟩
      split at h
      · next hsame =>
          rw [← hsame]
          exact inodeLockLock_crossed (fun hexcl => hown hexcl ip1 (by simp)) h
      · next hne =>
          split at h
          · exact lockInOrder_crossed hne hown h
          · have hswap (ip : Nat) : ip ∈ [ip1, ip2] ↔ ip ∈ [ip2, ip1] := by
              simp only [List.mem_pair, or_comm]
            -- the higher address comes second
            have hcrossed : Crossed locks locks' t type [ip2, ip1] value := by
              refine lockInOrder_crossed (Ne.symm hne) ?_ h
              intro hexcl ip hip
              exact hown hexcl ip ((hswap ip).mpr hip)
            simpa only [Crossed, hswap] using hcrossed

/-- Two free inodes, and a lock of the system that is granted: the first inode stays locked
and the call says that it failed. -/
theorem lockpair_granted : inodeLockLockpair (fun _ => ⟨.new, .free⟩) 7 0x1000 0x2000
      ⟨true, false, true⟩ true true =
        .ok (1, Function.update (fun _ => ⟨.new, .free⟩) 0x1000
          ⟨⟨0, some 7, ∅⟩, ⟨some 7, 0, Or.inr rfl⟩⟩) ∧
    ¬ LockpairOk (fun _ => ⟨.new, .free⟩) 7 0x1000 0x2000 ⟨true, false, true⟩ true true := by
  have hcall : inodeLockLockpair (fun _ => ⟨.new, .free⟩) 7 0x1000 0x2000
      ⟨true, false, true⟩ true true =
        .ok (1, Function.update (fun _ => ⟨.new, .free⟩) 0x1000
          ⟨⟨0, some 7, ∅⟩, ⟨some 7, 0, Or.inr rfl⟩⟩) := rfl
  refine ⟨hcall, ?_⟩
  rintro ⟨value, locks', h, hall⟩
  rw [hcall] at h
  obtain ⟨hvalue, hlocks⟩ := Prod.mk.inj (Except.ok.inj h)
  have hheld := (hall.nothing (by rw [← hvalue]; decide) 0x1000 (by simp)).1
  rw [← hlocks, Function.update_self] at hheld
  cases hheld

end UfsX.Proofs.LockPair
