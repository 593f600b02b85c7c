import UfsX.Ufs.RenameLocks

/-!
# `UfsX.Proofs.RenameLocks`: which calls give their inode locks back

The label `unlockout` of `ufs_rename` drops the locks of `fdvp`, `fvp` and `tvp`.
The locks that are taken are those of `fdvp`, `tdvp` and `fvp`, so that every call
which gets there leaves the target directory locked and drops a lock that was not
taken, or that of a null pointer. `RoundOk` says which rounds do no harm, and
`renameLocks_iff` that a call keeps its ledger exactly when all its rounds are such.
`ffs_pageout` never gives back what it takes.
-/

set_option autoImplicit false

namespace UfsX.Proofs

open UfsX.Lib UfsX.Ufs

variable {ι : Type*} [DecidableEq ι]

/-! ### The property and the condition -/

/-- No fault at any time, and a call that returns has settled its ledger. -/
def LocksKept (c : CallEnd × Lib.Ledger ι) : Prop := c.2.Sound ∧ (c.1 = .returned → c.2.Balanced)

namespace Round

variable (fdvp tdvp fvp : ι) (tvp : Option ι) (r : Round ι)

/-- The checks before the one for a loop turn the request down. -/
def Refused : Prop :=
  (tvp ≠ none ∧ r.toProtected = true) ∨ tvp = some fvp ∨ r.fromLinkMax = true
    ∨ r.fromProtected = true ∨ (r.fromDir = true ∧ r.dotNames = true) ∨ r.mountedOn = true

/-- A directory moves, and `ufs_checkpath` meets an inode it has to wait for. -/
def SentBack : Prop :=
  ¬ Refused fvp tvp r ∧ r.fromDir = true ∧ r.authorize = 0 ∧ r.checkpath.2 = true

/-- One of the panics. -/
def Panics : Prop :=
  ¬ Refused fvp tvp r
    ∧ (r.fromDir = true → r.authorize = 0 ∧ r.checkpath.2 = false ∧ r.checkpath.1 = 0)
    ∧ ((r.fromDir = true ∧ r.saveStart = false) ∨ r.badEffnlink = true
      ∨ (r.update = 0 ∧ (r.otherDevice = true ∨ (tvp ≠ none ∧ r.sameNumber = true)
        ∨ (tvp = none ∧ ¬ (r.fromDir = true ∧ r.toDirLinkMax = true) ∧ r.nameMissing = true))))

/-- What the look-up of the target gives to a round that goes on with it. -/
def target : Option (Option ι) :=
  if r.lookupTo = EJUSTRETURN then some none
  else if r.lookupTo ≠ 0 then none
  else match r.vgetTo with
    | .ok tvp => some (some tvp)
    | .error _ => none

/-- The vnode of the target was busy, and then it was not. -/
def TargetBusy : Prop :=
  r.lookupTo = 0 ∧ r.vgetTo = .error EBUSY ∧ ∃ nvp, r.vgetToAgain = .ok nvp

/-- The round goes back to `relock`. -/
def GoesBack : Prop :=
  r.lookupFrom = 0 ∧
    ((r.vgetFrom = .error EBUSY ∧ ∃ nvp, r.vgetFromAgain = .ok nvp)
      ∨ ∃ fvp, r.vgetFrom = .ok fvp
        ∧ (TargetBusy r ∨ ∃ tvp, target r = some tvp ∧ SentBack fvp tvp r))

/-- The round does no harm. The directories differ, and the source is neither of
them. A round that gets past the look-ups ends in a panic, or is sent back without a
target, or its target is the target directory itself. -/
def Ok : Prop :=
  fdvp ≠ tdvp ∧ (r.lookupFrom = 0 → ∀ fvp, r.vgetFrom = .ok fvp → fvp ≠ fdvp ∧ fvp ≠ tdvp ∧
    ∀ tvp, target r = some tvp →
      Panics fvp tvp r ∨ (SentBack fvp tvp r ∧ tvp = none)
        ∨ (¬ SentBack fvp tvp r ∧ tvp = some tdvp))

end Round

/-- Every round that comes to be played does no harm. -/
def RoundsOk (fdvp tdvp : ι) : List (Round ι) → Prop
  | [] => True
  | r :: rs => Round.Ok fdvp tdvp r ∧ (Round.GoesBack r → RoundsOk fdvp tdvp rs)

/-! ### Where a round ends -/

section Body

variable {fdvp tdvp fvp : ι} {tvp : Option ι} {r : Round ι}

theorem renameLinks_ne_restart (newparent : Bool) :
    renameLinks fdvp tdvp tvp newparent r ≠ .restart := by
  unfold renameLinks
  cases tvp <;> grind

theorem renameLinks_panic (hdirs : fdvp ≠ tdvp) (tvp : Option ι) (newparent : Bool) :
    renameLinks fdvp tdvp tvp newparent r = .panic
      ↔ r.update = 0 ∧ (r.otherDevice = true ∨ (tvp ≠ none ∧ r.sameNumber = true)
        ∨ (tvp = none ∧ ¬ (newparent = true ∧ r.toDirLinkMax = true) ∧ r.nameMissing = true)) := by
  unfold renameLinks
  cases tvp <;> grind

/-- Before the check for a loop. -/
theorem renameBody_refused (hfrom : fvp ≠ fdvp) (h : Round.Refused fvp tvp r) :
    renameBody fdvp tdvp fvp tvp r = .unlockout := by
  unfold Round.Refused at h
  unfold renameBody
  grind

/-- After the checks. The directories differ, so that a directory gets a new
parent. -/
theorem renameBody_passed (hdirs : fdvp ≠ tdvp) (hfrom : fvp ≠ fdvp) (h : ¬ Round.Refused fvp tvp r) :
    renameBody fdvp tdvp fvp tvp r =
      if r.fromDir = true ∧ r.authorize ≠ 0 then .unlockout
      else if r.fromDir = true ∧ r.checkpath.2 = true then .restart
      else if r.fromDir = true ∧ r.checkpath.1 ≠ 0 then .unlockout
      else if r.fromDir = true ∧ r.saveStart = false then .panic
      else if r.badEffnlink then .panic
      else renameLinks fdvp tdvp tvp r.fromDir r := by
  simp only [Round.Refused, not_or] at h
  obtain ⟨h1, h2, h3, h4, h5, h6⟩ := h
  simp [renameBody, h1, h2, h3, h4, h5, h6, hdirs, hfrom.symm]

theorem renameBody_restart (hdirs : fdvp ≠ tdvp) (hfrom : fvp ≠ fdvp) (tvp : Option ι) (r : Round ι) :
    renameBody fdvp tdvp fvp tvp r = .restart ↔ Round.SentBack fvp tvp r := by
  by_cases href : Round.Refused fvp tvp r
  · rw [renameBody_refused hfrom href]
    exact iff_of_false (fun h => by cases h) fun h => h.1 href
  · have hlinks : renameLinks fdvp tdvp tvp r.fromDir r ≠ .restart := renameLinks_ne_restart _
    rw [renameBody_passed hdirs hfrom href]
    simp only [Round.SentBack, href, not_false_eq_true, true_and]
    grind

theorem renameBody_panic (hdirs : fdvp ≠ tdvp) (hfrom : fvp ≠ fdvp) (tvp : Option ι) (r : Round ι) :
    renameBody fdvp tdvp fvp tvp r = .panic ↔ Round.Panics fvp tvp r := by
  by_cases href : Round.Refused fvp tvp r
  · rw [renameBody_refused hfrom href]
    exact iff_of_false (fun h => by cases h) fun h => h.1 href
  · have hlinks := renameLinks_panic (r := r) hdirs tvp r.fromDir
    rw [renameBody_passed hdirs hfrom href]
    simp only [Round.Panics, href, not_false_eq_true, true_and, ← hlinks]
    generalize renameLinks fdvp tdvp tvp r.fromDir r = exit
    split_ifs <;> simp_all

end Body

/-! ### Faults stay -/

section Faults

variable {fdvp tdvp fvp : ι} {r : Round ι} {l : Lib.Ledger ι}

theorem sound_of_unlockDirs (h : (unlockDirs fdvp tdvp l).Sound) : l.Sound :=
  h.of_unlock.of_unlock

theorem sound_of_renameAfter {tvp : Option ι} (h : (renameAfter fdvp tdvp fvp tvp r l).2.Sound) :
    l.Sound := by
  simp only [renameAfter] at h
  split at h
  · exact h
  · exact h.of_unlock.of_unlock.of_unlock
  · simp only at h
    split at h
    · exact h.of_unlock.of_unlock.of_unlock.of_unlock
    · exact h.of_unlock.of_unlock.of_unlock

theorem sound_of_renameTarget (h : (renameTarget fdvp tdvp fvp r l).2.Sound) : l.Sound := by
  have hdrop : ((unlockDirs fdvp tdvp l).unlock (some fvp)).Sound → l.Sound := fun h' =>
    sound_of_unlockDirs h'.of_unlock
  simp only [renameTarget] at h
  split at h
  · exact sound_of_renameAfter h
  split at h
  · exact hdrop h
  split at h
  · exact sound_of_renameAfter h
  · split at h
    · exact hdrop h
    · split at h
      · exact hdrop h
      · exact hdrop h

theorem sound_of_renameRound (h : (renameRound fdvp tdvp r l).2.Sound) :
    ((l.lock fdvp).lock tdvp).Sound
      ∧ (r.lookupFrom = 0 → ∀ fvp, r.vgetFrom = .ok fvp → (((l.lock fdvp).lock tdvp).lock fvp).Sound) := by
  simp only [renameRound] at h
  split at h
  · next hno => exact ⟨sound_of_unlockDirs h, fun h0 => absurd h0 hno⟩
  split at h
  · next e hv =>
      refine ⟨?_, fun _ fvp hok => by cases hv.symm.trans hok⟩
      split at h
      · exact sound_of_unlockDirs h
      · split at h
        · exact sound_of_unlockDirs h
        · exact sound_of_unlockDirs h
  · next fvp hv =>
      have hthree := sound_of_renameTarget h
      refine ⟨hthree.of_lock, fun _ fvp' hok => ?_⟩
      obtain rfl : fvp = fvp' := Except.ok.inj (hv.symm.trans hok)
      exact hthree

theorem sound_of_renameRounds {rs : List (Round ι)} (h : (renameRounds fdvp tdvp rs l).2.Sound) :
    l.Sound := by
  induction rs generalizing l with
  | nil => exact h
  | cons r rs ih =>
      have hround : (renameRound fdvp tdvp r l).2.Sound := by
        simp only [renameRounds] at h
        split at h
        · next heq => exact heq ▸ ih h
        · next heq => exact heq ▸ h
        · next heq => exact heq ▸ h
      exact (sound_of_renameRound hround).1.of_lock.of_lock

end Faults

/-! ### One round -/

section OneRound

variable {fdvp tdvp fvp : ι} {r : Round ι}

theorem lock_dirs (hdirs : fdvp ≠ tdvp) :
    ((Lib.Ledger.empty : Lib.Ledger ι).lock fdvp).lock tdvp = ⟨[tdvp, fdvp], [], []⟩ := by
  simp [Lib.Ledger.lock, Lib.Ledger.empty, hdirs.symm]

theorem lock_three (h1 : fvp ≠ fdvp) (h2 : fvp ≠ tdvp) :
    (⟨[tdvp, fdvp], [], []⟩ : Lib.Ledger ι).lock fvp = ⟨[fvp, tdvp, fdvp], [], []⟩ := by
  simp [Lib.Ledger.lock, h1, h2]

/-- The three locks of a round, dropped in either order. -/
theorem unlock_three (hdirs : fdvp ≠ tdvp) (h1 : fvp ≠ fdvp) (h2 : fvp ≠ tdvp) :
    (unlockDirs fdvp tdvp (⟨[fvp, tdvp, fdvp], [], []⟩ : Lib.Ledger ι)).unlock (some fvp) = .empty
      ∧ ((⟨[fvp, tdvp, fdvp], [], []⟩ : Lib.Ledger ι).unlock (some fdvp)).unlock (some fvp)
        = ⟨[tdvp], [], []⟩ := by
  constructor
  · simp [unlockDirs, Lib.Ledger.unlock, Lib.Ledger.empty, h1, h2, hdirs.symm]
  · simp [Lib.Ledger.unlock, h1, hdirs.symm]

/-- What a round may do to the ledger, from no locks to no locks. -/
structure RoundKept (back : Prop) (c : RoundEnd × Lib.Ledger ι) : Prop where
  sound : c.2.Sound
  settled : c.1 ≠ .panic → c.2 = .empty
  relock : c.1 = .relock ↔ back

omit [DecidableEq ι] in
/-- The locks of a round are dropped, and nothing else happens. -/
theorem roundKept_drop {back : Prop} {e : RoundEnd} (he : e = .relock ↔ back) :
    RoundKept back ((e, .empty) : RoundEnd × Lib.Ledger ι) :=
  ⟨rfl, fun _ => rfl, he⟩

theorem renameAfter_kept (hdirs : fdvp ≠ tdvp) (h1 : fvp ≠ fdvp) (h2 : fvp ≠ tdvp) {tvp : Option ι}
    (hok : Round.Panics fvp tvp r ∨ (Round.SentBack fvp tvp r ∧ tvp = none)
      ∨ (¬ Round.SentBack fvp tvp r ∧ tvp = some tdvp)) :
    RoundKept (Round.SentBack fvp tvp r)
      (renameAfter fdvp tdvp fvp tvp r ⟨[fvp, tdvp, fdvp], [], []⟩) := by
  have hback := renameBody_restart hdirs h1 tvp r
  have hpanic := renameBody_panic hdirs h1 tvp r
  obtain ⟨-, htwo⟩ := unlock_three hdirs h1 h2
  unfold renameAfter
  rw [htwo]
  cases hexit : renameBody fdvp tdvp fvp tvp r with
  | panic => exact ⟨rfl, fun hno => absurd rfl hno, iff_of_false (fun h => by cases h) fun hb => by
      rw [hback.mpr hb] at hexit
      cases hexit⟩
  | unlockout =>
      have hb : ¬ Round.SentBack fvp tvp r := fun hb => by cases (hback.mpr hb).symm.trans hexit
      have hp : ¬ Round.Panics fvp tvp r := fun hp => by cases (hpanic.mpr hp).symm.trans hexit
      obtain ⟨-, rfl⟩ := (hok.resolve_left hp).resolve_left fun h => hb h.1
      simp only [Lib.Ledger.unlock, List.mem_singleton, if_true, List.erase_cons_head]
      exact roundKept_drop (iff_of_false (fun h => by cases h) hb)
  | restart =>
      have hb : Round.SentBack fvp tvp r := hback.mp hexit
      have hp : ¬ Round.Panics fvp tvp r := fun hp => by cases (hpanic.mpr hp).symm.trans hexit
      obtain ⟨-, rfl⟩ := (hok.resolve_left hp).resolve_right fun h => h.1 hb
      simp only [Lib.Ledger.unlock, List.mem_singleton, if_true, List.erase_cons_head, ne_eq,
        not_true_eq_false, if_false]
      exact roundKept_drop (iff_of_true rfl hb)

/-- Any other round makes a fault. -/
theorem renameAfter_fault (hdirs : fdvp ≠ tdvp) (h1 : fvp ≠ fdvp) (h2 : fvp ≠ tdvp) {tvp : Option ι}
    (hs : (renameAfter fdvp tdvp fvp tvp r ⟨[fvp, tdvp, fdvp], [], []⟩).2.Sound) :
    Round.Panics fvp tvp r ∨ (Round.SentBack fvp tvp r ∧ tvp = none)
      ∨ (¬ Round.SentBack fvp tvp r ∧ tvp = some tdvp) := by
  have hback := renameBody_restart hdirs h1 tvp r
  obtain ⟨-, htwo⟩ := unlock_three hdirs h1 h2
  unfold renameAfter at hs
  rw [htwo] at hs
  cases hexit : renameBody fdvp tdvp fvp tvp r with
  | panic => exact Or.inl ((renameBody_panic hdirs h1 tvp r).mp hexit)
  | unlockout =>
      have hb : ¬ Round.SentBack fvp tvp r := fun hb => by cases (hback.mpr hb).symm.trans hexit
      refine Or.inr (Or.inr ⟨hb, ?_⟩)
      rw [hexit] at hs
      cases tvp with
      | none => cases hs
      | some x =>
          -- of the three locks only that of the target directory is left
          simp only [Lib.Ledger.unlock, List.mem_singleton] at hs
          split at hs
          · next hx => rw [hx]
          · cases hs
  | restart =>
      refine Or.inr (Or.inl ⟨hback.mp hexit, ?_⟩)
      rw [hexit] at hs
      cases tvp with
      | none => rfl
      | some x =>
          simp [Lib.Ledger.unlock, Lib.Ledger.Sound] at hs

theorem renameTarget_kept (hdirs : fdvp ≠ tdvp) (h1 : fvp ≠ fdvp) (h2 : fvp ≠ tdvp)
    (hok : ∀ tvp, Round.target r = some tvp → Round.Panics fvp tvp r
      ∨ (Round.SentBack fvp tvp r ∧ tvp = none) ∨ (¬ Round.SentBack fvp tvp r ∧ tvp = some tdvp)) :
    RoundKept (Round.TargetBusy r ∨ ∃ tvp, Round.target r = some tvp ∧ Round.SentBack fvp tvp r)
      (renameTarget fdvp tdvp fvp r ⟨[fvp, tdvp, fdvp], [], []⟩) := by
  obtain ⟨hthree, -⟩ := unlock_three hdirs h1 h2
  unfold renameTarget
  rw [hthree]
  by_cases hjust : r.lookupTo = EJUSTRETURN
  · have htarget : Round.target r = some none := by simp [Round.target, hjust]
    have hbusy : ¬ Round.TargetBusy r := by
      rintro ⟨h0, -⟩
      rw [hjust] at h0
      cases h0
    simpa only [if_pos hjust, hbusy, htarget, false_or, Option.some.injEq, exists_eq_left'] using
      renameAfter_kept hdirs h1 h2 (hok none htarget)
  by_cases hfound : r.lookupTo = 0
  · have hzero : ((0 : Int) = EJUSTRETURN) = False := by decide
    cases hv : r.vgetTo with
    | ok tvp =>
        have htarget : Round.target r = some (some tvp) := by simp [Round.target, hfound, hv, EJUSTRETURN]
        have hbusy : ¬ Round.TargetBusy r := fun h => by cases h.2.1.symm.trans hv
        simpa only [hfound, hzero, ne_eq, not_true_eq_false, if_false, hbusy, htarget, false_or,
          Option.some.injEq, exists_eq_left'] using
          renameAfter_kept hdirs h1 h2 (hok (some tvp) htarget)
    | error e =>
        have htarget : Round.target r = none := by simp [Round.target, hfound, hv, EJUSTRETURN]
        simp only [hfound, hzero, ne_eq, not_true_eq_false, if_false, htarget, reduceCtorEq,
          false_and, exists_false, or_false]
        by_cases he : e = EBUSY
        · cases hagain : r.vgetToAgain with
          | error e' =>
              simp only [he, not_true_eq_false, if_false]
              refine roundKept_drop (iff_of_false (fun h => by cases h) ?_)
              rintro ⟨-, -, nvp, hno⟩
              cases hagain.symm.trans hno
          | ok nvp =>
              simp only [he, not_true_eq_false, if_false]
              exact roundKept_drop (iff_of_true rfl ⟨hfound, by rw [hv, he], nvp, hagain⟩)
        · simp only [he, not_false_eq_true, if_true]
          refine roundKept_drop (iff_of_false (fun h => by cases h) ?_)
          rintro ⟨-, hno, -⟩
          exact he (Except.error.inj (hv.symm.trans hno))
  · have htarget : Round.target r = none := by simp [Round.target, hfound, hjust]
    simp only [if_neg hjust, ne_eq, hfound, not_false_eq_true, if_true, htarget, reduceCtorEq,
      false_and, exists_false, or_false]
    exact roundKept_drop (iff_of_false (fun h => by cases h) fun h => hfound h.1)

/-- A round that does no harm keeps the ledger. -/
theorem renameRound_kept (hok : Round.Ok fdvp tdvp r) :
    RoundKept (Round.GoesBack r) (renameRound fdvp tdvp r .empty) := by
  obtain ⟨hdirs, hrest⟩ := hok
  have hdrop : unlockDirs fdvp tdvp (⟨[tdvp, fdvp], [], []⟩ : Lib.Ledger ι) = .empty := by
    simp [unlockDirs, Lib.Ledger.unlock, Lib.Ledger.empty, hdirs.symm]
  simp only [renameRound, lock_dirs hdirs, hdrop]
  by_cases hfound : r.lookupFrom = 0
  · cases hv : r.vgetFrom with
    | ok fvp =>
        obtain ⟨h1, h2, htarget⟩ := hrest hfound fvp hv
        have hkept := renameTarget_kept hdirs h1 h2 htarget
        simp only [hfound, ne_eq, not_true_eq_false, if_false, lock_three h1 h2]
        simpa [Round.GoesBack, hfound, hv] using hkept
    | error e =>
        simp only [hfound, ne_eq, not_true_eq_false, if_false]
        by_cases he : e = EBUSY
        · cases hagain : r.vgetFromAgain with
          | error e' =>
              simp only [he, not_true_eq_false, if_false]
              refine roundKept_drop (iff_of_false (fun h => by cases h) ?_)
              simp [Round.GoesBack, hv, hagain]
          | ok nvp =>
              simp only [he, not_true_eq_false, if_false]
              exact roundKept_drop (iff_of_true rfl
                ⟨hfound, Or.inl ⟨by rw [hv, he], nvp, hagain⟩⟩)
        · simp only [he, not_false_eq_true, if_true]
          refine roundKept_drop (iff_of_false (fun h => by cases h) ?_)
          simp [Round.GoesBack, hv, he]
  · simp only [ne_eq, hfound, not_false_eq_true, if_true]
    exact roundKept_drop (iff_of_false (fun h => by cases h) fun h => hfound h.1)

/-- A round without a fault does no harm. -/
theorem ok_of_sound (hs : (renameRound fdvp tdvp r .empty).2.Sound) : Round.Ok fdvp tdvp r := by
  obtain ⟨htwo, hthree⟩ := sound_of_renameRound hs
  have hdirs : fdvp ≠ tdvp := by
    rintro rfl
    simp [Lib.Ledger.lock, Lib.Ledger.empty, Lib.Ledger.Sound] at htwo
  refine ⟨hdirs, fun hfound fvp hv => ?_⟩
  have hlock := hthree hfound fvp hv
  rw [lock_dirs hdirs] at hlock
  obtain ⟨h2, h1⟩ : fvp ≠ tdvp ∧ fvp ≠ fdvp := by
    by_contra hno
    have hmem : fvp ∈ [tdvp, fdvp] := by grind
    simp [Lib.Ledger.lock, hmem, Lib.Ledger.Sound] at hlock
  refine ⟨h1, h2, fun tvp htarget => renameAfter_fault hdirs h1 h2 ?_⟩
  simp only [renameRound, hfound, ne_eq, not_true_eq_false, if_false, hv, lock_dirs hdirs,
    lock_three h1 h2] at hs
  -- the round comes to its checks with the target that the look-up gave
  unfold Round.target at htarget
  unfold renameTarget at hs
  split at htarget
  · next hjust =>
      obtain rfl := Option.some.inj htarget
      simpa only [if_pos hjust] using hs
  split at htarget
  · cases htarget
  · next hjust hto =>
      split at htarget
      · next nvp hvt =>
          obtain rfl := Option.some.inj htarget
          simpa only [if_neg hjust, if_neg hto, hvt] using hs
      · cases htarget

end OneRound

/-! ### Whole calls -/

theorem renameRounds_kept_iff (fdvp tdvp : ι) (rs : List (Round ι)) :
    LocksKept (renameRounds fdvp tdvp rs .empty) ↔ RoundsOk fdvp tdvp rs := by
  induction rs with
  | nil => exact iff_of_true ⟨rfl, (fun h => by cases h)⟩ trivial
  | cons r rs ih =>
      unfold RoundsOk
      by_cases hok : Round.Ok fdvp tdvp r
      · obtain ⟨hsound, hsettled, hback⟩ := renameRound_kept hok
        simp only [hok, true_and, ← hback, renameRounds]
        generalize renameRound fdvp tdvp r .empty = c at hsound hsettled
        obtain ⟨e, l⟩ := c
        cases e with
        | relock =>
            obtain rfl : l = .empty := hsettled (fun h => by cases h)
            simpa using ih
        | panic => exact iff_of_true ⟨hsound, (fun h => by cases h)⟩ (fun h => by cases h)
        | releout | unlockout =>
            obtain rfl : l = .empty := hsettled (fun h => by cases h)
            exact iff_of_true ⟨rfl, fun _ => Lib.Ledger.balanced_empty⟩ (fun h => by cases h)
      · -- a fault of this round is still there at the end
        refine iff_of_false (fun hkept => hok (ok_of_sound ?_)) fun h => hok h.1
        have hs := hkept.1
        simp only [renameRounds] at hs
        split at hs
        · next heq => exact heq ▸ sound_of_renameRounds hs
        · next heq => exact heq ▸ hs
        · next heq => exact heq ▸ hs

/-- What `ffs_pageout` does to the lock of the inode, on every way out. -/
def pageoutLedger (ip : ι) : Option Hold → Lib.Ledger ι
  | none => Lib.Ledger.empty.lock ip
  | some .shared => Lib.Ledger.empty.upgrade ip
  | some .exclusive => .empty

theorem ffsPageout_ledger (ip : ι) (locktype : Option Hold) (p : Pageout) :
    (ffsPageout ip locktype p).2 = if p.fsRonly then .empty else pageoutLedger ip locktype := by
  unfold ffsPageout pageoutLedger
  split_ifs <;> rfl

/-- `ufs_rename` and `ffs_pageout` keep their ledgers exactly in these cases.
`ufs_rename`: the vnodes are of different mounts, or all rounds do no harm.
`ffs_pageout`: the file system is read-only, or the caller has the lock
exclusively. -/
theorem renameLocks_iff (exdev : Bool) (fdvp tdvp : ι) (rounds : List (Round ι)) (ip : ι)
    (locktype : Option Hold) (p : Pageout) :
    (LocksKept (ufsRename exdev fdvp tdvp rounds) ↔ exdev = true ∨ RoundsOk fdvp tdvp rounds)
      ∧ ((ffsPageout ip locktype p).2.Balanced ↔ p.fsRonly = true ∨ locktype = some .exclusive) := by
  constructor
  · cases exdev with
    | true => exact iff_of_true ⟨rfl, fun _ => Lib.Ledger.balanced_empty⟩ (Or.inl rfl)
    | false => simpa [ufsRename] using renameRounds_kept_iff fdvp tdvp rounds
  · rw [ffsPageout_ledger]
    split_ifs with hro
    · exact iff_of_true Lib.Ledger.balanced_empty (Or.inl hro)
    · cases locktype with
      | none =>
          refine iff_of_false ?_ (by simp [hro])
          simp [pageoutLedger, Lib.Ledger.lock, Lib.Ledger.empty, Lib.Ledger.Balanced]
      | some hold =>
          cases hold with
          | shared =>
              refine iff_of_false ?_ (by simp [hro])
              simp [pageoutLedger, Lib.Ledger.upgrade, Lib.Ledger.empty, Lib.Ledger.Balanced]
          | exclusive => exact iff_of_true Lib.Ledger.balanced_empty (Or.inr rfl)

/-- A plain file `2` is renamed from directory `0` to directory `1`, where it takes the
name of file `3`. Everything succeeds. -/
def plainRound : Round Nat where
  lookupFrom := 0
  vgetFrom := .ok 2
  vgetFromAgain := .ok 2
  lookupTo := 0
  vgetTo := .ok 3
  vgetToAgain := .error 0
  toProtected := false
  fromLinkMax := false
  fromProtected := false
  fromDir := false
  dotNames := false
  mountedOn := false
  authorize := 0
  checkpath := (0, false)
  saveStart := true
  badEffnlink := false
  update := 0
  otherDevice := false
  toDirLinkMax := false
  nameMissing := true
  direnter := 0
  sameNumber := false
  sticky := false
  toDir := false
  toNotEmpty := false
  dirrewrite := 0
  fromGone := false

/-- The rename of a plain file drops the lock of the target, which nobody has taken, and
keeps that of its directory; inside one directory it locks it twice. A page that is written
out leaves the inode locked. -/
theorem renameLocks_leaked :
    ¬ LocksKept (ufsRename false 0 1 [plainRound]) ∧ (ufsRename false 0 1 [plainRound]).2.taken = [1]
      ∧ ¬ LocksKept (ufsRename false 0 0 [plainRound])
      ∧ ¬ (ffsPageout 2 none ⟨false, 0, 4096, 0⟩).2.Balanced := by
  refine ⟨?_, by decide, ?_, by decide⟩
  · intro h
    exact absurd h.1 (by decide)
  · intro h
    exact absurd h.1 (by decide)

end UfsX.Proofs
