import UfsX.Ffs.Mount

/-!
# `UfsX.Proofs.Mount`: what an update of a mount leaves behind

What is asked for (`Meets`) is followed through the stages of `ffs_mount`, from the last one
to the first: each lemma says when a stage and all that come after it meet it, given what the
stages before have done. `ffsMountUpdate_meets` puts the conditions together.
-/

set_option autoImplicit false

namespace UfsX.Proofs.Mount

open UfsX.Ffs.Mount

variable {τ : Type*} {q : Request} {s₀ s : State τ}

/-! ### What is asked for -/

/-- What a call from `s₀` has done, whether it fails or not. -/
structure Honest (s₀ s : State τ) : Prop where
  clean : ∀ w ∈ s.writes, w.clean = true → w.flushed = true
  toRead : s₀.ronly = false → s.ronly = true → s.flushed = true
  /-- The call as a whole goes to writing. Inside it `fs_ronly` is cleared first, and stays
  so only if the write succeeds. -/
  toWrite : s₀.ronly = true → s.ronly = false → ∃ w ∈ s.writes, w.clean = false
  suspend : s.bsd = s₀.bsd

/-- `fs_ronly`, `MNT_RDONLY` and `fs_clean` are as they were. -/
def Unchanged (s₀ s : State τ) : Prop :=
  s.ronly = s₀.ronly ∧ s.rdonly = s₀.rdonly ∧ s.fs.clean = s₀.fs.clean

def Meets (s₀ : State τ) : Outcome τ → Prop
  | .go s => s.ronly = s.rdonly ∧ Honest s₀ s
  | .error _ s => Unchanged s₀ s ∧ Honest s₀ s
  | .panic s => Honest s₀ s

/-! ### When it holds -/

/-- The request is one for reading. -/
def wantsRead (q : Request) (s₀ : State τ) : Bool := s₀.rdonly || !q.wantrdwr

def goesDown (q : Request) (s₀ : State τ) : Bool := !s₀.ronly && wantsRead q s₀

def goesUp (q : Request) (s₀ : State τ) : Bool := s₀.ronly && !wantsRead q s₀

/-- The flags once the downgrade has marked the superblock. -/
def marked (f : FsFlags) : FsFlags := if ¬ f.unclean ∧ ¬ f.needsfsck then { f with clean := true } else f

/-- The superblock's flags when the upgrade looks at them. -/
def flagsThen (q : Request) (s₀ : State τ) : FsFlags :=
  if q.reload = true then q.reloaded else if goesDown q s₀ = true then marked s₀.fs else s₀.fs

/-- A checker is in the way, or the device is another one: the call fails, and nothing may
have changed. A checker that could start has cleared `fs_clean`. -/
def LastOk (q : Request) (s₀ : State τ) : Prop :=
  let same := goesDown q s₀ = false ∧ goesUp q s₀ = false ∧ s₀.rdonly = wantsRead q s₀
  if 0 < q.fsckpid ∧ s₀.fsckpid ≠ 0 then same ∧ (flagsThen q s₀).clean = s₀.fs.clean
  else if q.sameDevice = false then
    same ∧ (if 0 < q.fsckpid then false else (flagsThen q s₀).clean) = s₀.fs.clean
  else True

/-- The reload and the way to read-write. -/
def ReloadOk (q : Request) (s₀ : State τ) : Prop :=
  if q.reload = true ∧ q.reloadErr ≠ 0 then
    goesDown q s₀ = false ∧ s₀.rdonly = wantsRead q s₀ ∧ q.reloaded.clean = s₀.fs.clean
  else if goesUp q s₀ = true ∧ denied q (flagsThen q s₀) = true then (flagsThen q s₀).clean = s₀.fs.clean
  else (goesUp q s₀ = true → q.upUpdate = 0 ∧ s₀.bsd.suspend = false) ∧ LastOk q s₀

/-- The checker's end fails. -/
def endFails (q : Request) (s₀ : State τ) : Prop :=
  q.fsckpid = -1 ∧ 0 < s₀.fsckpid ∧ (q.checkerFlush ≠ 0 ∨ q.checkerUpdate ≠ 0)

instance (q : Request) (s₀ : State τ) : Decidable (endFails q s₀) :=
  inferInstanceAs (Decidable (_ ∧ _ ∧ (_ ∨ _)))

/-- The whole call. -/
def UpdateOk (q : Request) (s₀ : State τ) : Prop :=
  q.ioctl ≠ 0 ∨ q.copyin = false
    ∨ if q.bothAcls = true ∨ endFails q s₀ then s₀.rdonly = wantsRead q s₀
      else if goesDown q s₀ = true ∧ q.downUpdate ≠ 0 then s₀.rdonly = wantsRead q s₀ ∧ s₀.fs.clean = false
      else (goesDown q s₀ = true → q.flush = 0) ∧ ReloadOk q s₀

/-- A checker cannot be started, or the device is another one. -/
def LateOk (q : Request) (s : State τ) (s₀ : State τ) : Prop :=
  if 0 < q.fsckpid ∧ s.fsckpid ≠ 0 then Unchanged s₀ s
  else if q.sameDevice = false then
    s.ronly = s₀.ronly ∧ s.rdonly = s₀.rdonly ∧ (if 0 < q.fsckpid then false else s.fs.clean) = s₀.fs.clean
  else True

/-- From the upgrade on. -/
def UpgradeOk (q : Request) (s : State τ) (s₀ : State τ) : Prop :=
  if s.ronly ∧ ¬ s.rdonly then
    if denied q s.fs then Unchanged s₀ s
    else if q.upUpdate ≠ 0 then
      (s₀.ronly = true ∧ s₀.rdonly = true ∧ s₀.fs.clean = false) ∧ s.bsd.suspend = false
    else s.bsd.suspend = false ∧ LateOk q { s with ronly := false, rdonly := false, fs := { s.fs with clean := false } } s₀
  else LateOk q s s₀

/-! ### The stages -/

theorem sbupdate_eq (err : Int) :
    s.sbupdate err
      = { s with writes := if err = 0 then ⟨s.fs.clean, s.flushed⟩ :: s.writes else s.writes, fmod := false } := by
  unfold State.sbupdate
  split
  all_goals rfl

/-- The flags and the checker do not matter. -/
theorem Honest.of_eq {t : State τ} (h : Honest s₀ s) (hronly : t.ronly = s.ronly) (hflushed : t.flushed = s.flushed)
    (hwrites : t.writes = s.writes) (hbsd : t.bsd = s.bsd) : Honest s₀ t := by
  refine ⟨?_, ?_, ?_, hbsd.trans h.suspend⟩
  · rw [hwrites]
    exact h.clean
  · rw [hronly, hflushed]
    exact h.toRead
  · rw [hronly, hwrites]
    exact h.toWrite

theorem Honest.sbupdate (h : Honest s₀ s) {err : Int} (hw : err = 0 → s.fs.clean = true → s.flushed = true) :
    Honest s₀ (s.sbupdate err) := by
  by_cases herr : err = 0
  · rw [sbupdate_eq, if_pos herr]
    refine ⟨fun w hmem hclean => ?_, h.toRead, fun h₀ hs => ?_, h.suspend⟩
    · rcases List.mem_cons.mp hmem with rfl | hold
      · exact hw herr hclean
      · exact h.clean w hold hclean
    · obtain ⟨w, hold, hclean⟩ := h.toWrite h₀ hs
      exact ⟨w, List.mem_cons_of_mem _ hold, hclean⟩
  · rw [sbupdate_eq, if_neg herr]
    exact h.of_eq rfl rfl rfl rfl

/-- The device, and the end. -/
theorem meets_device (h : Honest s₀ s) (hagree : s.ronly = s.rdonly) :
    Meets s₀ (checkDevice q s) ↔ (q.sameDevice = false → Unchanged s₀ s) := by
  unfold checkDevice
  cases q.sameDevice with
  | true => exact iff_of_true ⟨hagree, h⟩ fun hno => by cases hno
  | false => exact ⟨fun hm _ => hm.1, fun hm => ⟨hm rfl, h⟩⟩

/-- `MNT_ASYNC` does not matter when a checker starts. -/
theorem checkerStart_eq (q : Request) (s : State τ) : ∃ async, checkerStart q s
    = if 0 < q.fsckpid then
        if s.fsckpid ≠ 0 then .error EINVAL { s with async }
        else .go ({ s with async, fsckpid := q.fsckpid, fmod := true, fs := { s.fs with clean := false } }.sbupdate
          q.startUpdate)
      else .go { s with async } := by
  unfold checkerStart
  cases q.softdep with
  | true => exact ⟨false, rfl⟩
  | false => exact ⟨s.async, rfl⟩

theorem meets_start (h : Honest s₀ s) (hagree : s.ronly = s.rdonly) :
    Meets s₀ ((checkerStart q s).andThen (checkDevice q)) ↔ LateOk q s s₀ := by
  obtain ⟨async, hstart⟩ := checkerStart_eq q s
  have hasync : Honest s₀ { s with async } := h.of_eq rfl rfl rfl rfl
  rw [hstart]
  unfold LateOk
  by_cases hpid : 0 < q.fsckpid
  · by_cases hbusy : s.fsckpid = 0
    · rw [if_pos hpid, if_neg (fun hno => hno hbusy), if_neg (fun hno => hno.2 hbusy), if_pos hpid]
      have hmarked : Honest s₀ { s with async, fsckpid := q.fsckpid, fmod := true, fs := { s.fs with clean := false } } :=
        h.of_eq rfl rfl rfl rfl
      rw [Outcome.andThen, meets_device (hmarked.sbupdate fun _ hno => by cases hno) (by rw [sbupdate_eq]; exact hagree)]
      rw [sbupdate_eq]
      cases q.sameDevice with
      | true => exact iff_of_true (fun hno => by cases hno) trivial
      | false => exact ⟨fun hall => hall rfl, fun hall _ => hall⟩
    · rw [if_pos hpid, if_pos hbusy, if_pos ⟨hpid, hbusy⟩]
      exact ⟨fun hm => hm.1, fun hm => ⟨hm, hasync⟩⟩
  · rw [if_neg hpid, if_neg (fun hno => hpid hno.1), if_neg hpid, Outcome.andThen, meets_device hasync hagree]
    cases q.sameDevice with
    | true => exact iff_of_true (fun hno => by cases hno) trivial
    | false => exact ⟨fun hall => hall rfl, fun hall _ => hall⟩

/-- A suspension that ends here is noticed. -/
theorem not_honest_unsuspend (h : Honest s₀ s) (hsusp : s.bsd.suspend = true) {t : State τ} (ht : t.bsd = s.bsd.unsuspend) :
    ¬ Honest s₀ t := by
  intro hno
  have hsame : s.bsd.unsuspend = s.bsd := (ht.symm.trans hno.suspend).trans h.suspend.symm
  have hoff : s.bsd.unsuspend.suspend = false := rfl
  rw [hsame, hsusp] at hoff
  cases hoff

/-- The way to read-write and what comes after it, if the stages before have not left the
mount read-write for a request for reading. -/
theorem meets_upgrade (h : Honest s₀ s) (hdown : s.ronly = false → s.rdonly = false) :
    Meets s₀ (((upgrade q s).andThen (checkerStart q)).andThen (checkDevice q))
      ↔ UpgradeOk q s s₀ := by
  unfold UpgradeOk
  by_cases hup : s.ronly ∧ ¬ s.rdonly
  case neg =>
    have hagree : s.ronly = s.rdonly := by
      cases hr : s.ronly with
      | false => exact (hdown hr).symm
      | true =>
          cases hd : s.rdonly with
          | true => rfl
          | false => exact absurd ⟨hr, by rw [hd]; exact Bool.false_ne_true⟩ hup
    rw [if_neg hup, upgrade, if_neg hup]
    exact meets_start h hagree
  case pos =>
    rw [if_pos hup, upgrade, if_pos hup]
    by_cases hdenied : denied q s.fs
    · -- `denied` does not look at the flag that the upgrade sets
      have hdenied' : denied q { s.fs with unclean := !s.fs.clean } = true := hdenied
      rw [if_pos hdenied]
      simp only [if_pos hdenied']
      exact ⟨fun hm => hm.1, fun hm => ⟨hm, h.of_eq rfl rfl rfl rfl⟩⟩
    · have hdenied' : ¬ denied q { s.fs with unclean := !s.fs.clean } = true := hdenied
      rw [if_neg hdenied]
      simp only [if_neg hdenied', sbupdate_eq]
      by_cases herr : q.upUpdate = 0
      · have hok : ¬ q.upUpdate ≠ 0 := fun hno => hno herr
        simp only [if_neg hok, if_pos herr]
        -- a superblock that is not clean has been written
        have hhonest : Honest s₀ { s with ronly := false, writes := ⟨false, s.flushed⟩ :: s.writes } := by
          refine ⟨fun w hmem hclean => ?_, fun _ hno => (by cases hno), fun _ _ => ⟨_, List.mem_cons_self, rfl⟩, h.suspend⟩
          rcases List.mem_cons.mp hmem with rfl | hold
          · cases hclean
          · exact h.clean w hold hclean
        unfold resume
        cases hsusp : s.bsd.suspend with
        | true =>
            simp only [if_true]
            -- `ffs_mount` resumes what it has not suspended
            refine iff_of_false ?_ fun hno => by cases hno.1
            exact not_honest_unsuspend h hsusp rfl
        | false =>
            simp only [Bool.false_eq_true, if_false, true_and]
            exact meets_start (hhonest.of_eq rfl rfl rfl rfl) rfl
      · -- the superblock is not written, and the flags stay those of a read-only mount
        have hfail : q.upUpdate ≠ 0 := herr
        simp only [if_pos hfail, if_neg herr]
        unfold resume
        cases hsusp : s.bsd.suspend with
        | true =>
            simp only [if_true]
            refine iff_of_false ?_ fun hno => by cases hno.2
            exact not_honest_unsuspend h hsusp rfl
        | false =>
            simp only [Bool.false_eq_true, if_false, and_true]
            constructor
            · intro hm
              exact ⟨hm.1.1.symm, hm.1.2.1.symm, hm.1.2.2.symm⟩
            · intro hm
              exact ⟨⟨hm.1.symm, hm.2.1.symm, hm.2.2.symm⟩, h.of_eq hup.1.symm rfl rfl rfl⟩

/-- What comes after the downgrade. -/
def afterDown (q : Request) (s : State τ) : Outcome τ :=
  (((reload q s).andThen (upgrade q)).andThen (checkerStart q)).andThen (checkDevice q)

theorem meets_reload (h : Honest s₀ s) (hdown : s.ronly = false → s.rdonly = false) :
    Meets s₀ (afterDown q s)
      ↔ if q.reload = true ∧ q.reloadErr ≠ 0 then Unchanged s₀ { s with fs := q.reloaded }
        else UpgradeOk q { s with fs := if q.reload = true then q.reloaded else s.fs } s₀ := by
  unfold afterDown reload
  cases hreload : q.reload with
  | false =>
      rw [if_neg Bool.false_ne_true, if_neg (fun hno => Bool.false_ne_true hno.1)]
      simp only [Bool.false_eq_true, if_false]
      exact meets_upgrade h hdown
  | true =>
      rw [if_pos rfl]
      simp only [true_and, if_true]
      have hread : Honest s₀ { s with fs := q.reloaded } := h.of_eq rfl rfl rfl rfl
      by_cases herr : q.reloadErr = 0
      · have hok : ¬ q.reloadErr ≠ 0 := fun hno => hno herr
        rw [if_neg hok, if_neg hok]
        exact meets_upgrade hread hdown
      · have hfail : q.reloadErr ≠ 0 := herr
        rw [if_pos hfail, if_pos hfail]
        exact ⟨fun hm => hm.1, fun hm => ⟨hm, hread⟩⟩

/-- The state that an outcome comes with. -/
def Outcome.state : Outcome τ → State τ
  | .go s => s
  | .error _ s => s
  | .panic s => s

theorem Meets.honest {o : Outcome τ} (h : Meets s₀ o) : Honest s₀ (Outcome.state o) := by
  cases o with
  | go s => exact h.2
  | error e s => exact h.2
  | panic s => exact h

theorem checkDevice_state (s : State τ) : Outcome.state (checkDevice q s) = s := by
  unfold checkDevice
  split
  all_goals rfl

theorem late_keeps (q : Request) (s : State τ) :
    (Outcome.state ((checkerStart q s).andThen (checkDevice q))).ronly = s.ronly
      ∧ (Outcome.state ((checkerStart q s).andThen (checkDevice q))).flushed = s.flushed := by
  obtain ⟨async, hstart⟩ := checkerStart_eq q s
  rw [hstart]
  split
  case isTrue =>
    split
    case isTrue => exact ⟨rfl, rfl⟩
    case isFalse =>
      rw [Outcome.andThen, checkDevice_state, sbupdate_eq]
      exact ⟨rfl, rfl⟩
  case isFalse =>
    rw [Outcome.andThen, checkDevice_state]
    exact ⟨rfl, rfl⟩

/-- A mount that has become read-only stays so, and no files are flushed any more. -/
theorem afterDown_keeps (hronly : s.ronly = true) (hrdonly : s.rdonly = true) :
    (Outcome.state (afterDown q s)).ronly = true ∧ (Outcome.state (afterDown q s)).flushed = s.flushed := by
  have hup (t : State τ) (ht : t.rdonly = true) : upgrade q t = .go t := if_neg fun hno => hno.2 ht
  have hlate (t : State τ) (ht : t.ronly = true) (ht' : t.flushed = s.flushed) :
      (Outcome.state ((checkerStart q t).andThen (checkDevice q))).ronly = true
        ∧ (Outcome.state ((checkerStart q t).andThen (checkDevice q))).flushed = s.flushed := by
    rw [(late_keeps q t).1, (late_keeps q t).2]
    exact ⟨ht, ht'⟩
  unfold afterDown reload
  dsimp only
  split
  case isFalse =>
    rw [Outcome.andThen, hup s hrdonly, Outcome.andThen]
    exact hlate s hronly rfl
  case isTrue =>
    split
    case isTrue => exact ⟨hronly, rfl⟩
    case isFalse =>
      rw [Outcome.andThen, hup { s with fs := q.reloaded } hrdonly, Outcome.andThen]
      exact hlate { s with fs := q.reloaded } hronly rfl

/-- The way to read-only. The error of the flush does not stop it. -/
theorem meets_downgrade (h : Honest s₀ s) (hronly : s.ronly = s₀.ronly) :
    Meets s₀ ((((downgrade q s).andThen (reload q)).andThen (upgrade q)).andThen (checkerStart q) |>.andThen (checkDevice q))
      ↔ if s.ronly = false ∧ s.rdonly = true then
          if q.downUpdate ≠ 0 then s.rdonly = s₀.rdonly ∧ s₀.fs.clean = false
          else q.flush = 0 ∧ Meets s₀ (afterDown q { s with ronly := true, rdonly := true, fs := marked s.fs, fmod := false,
                                                            flushed := true, writes := ⟨(marked s.fs).clean, true⟩ :: s.writes })
        else Meets s₀ (afterDown q s) := by
  by_cases hdown : s.ronly = false ∧ s.rdonly = true
  case neg =>
    have hdown' : ¬ (¬ s.ronly = true ∧ s.rdonly = true) := by rwa [Bool.not_eq_true]
    rw [if_neg hdown, downgrade, if_neg hdown']
    exact Iff.rfl
  case pos =>
    have hdown' : ¬ s.ronly = true ∧ s.rdonly = true := by rwa [Bool.not_eq_true]
    have hmark (t : State τ) : (if ¬ t.fs.unclean = true ∧ ¬ t.fs.needsfsck = true then { t with fs := { t.fs with clean := true } } else t)
        = { t with fs := marked t.fs } := by
      unfold marked
      split
      all_goals rfl
    rw [if_pos hdown, downgrade, if_pos hdown']
    dsimp only
    -- from here on the clean flag goes to the disk, whatever the flush said
    rw [hmark, sbupdate_eq]
    by_cases herr : q.downUpdate = 0
    · have hok : ¬ q.downUpdate ≠ 0 := fun hno => hno herr
      rw [if_neg hok, if_neg hok, if_pos herr]
      by_cases hflush : q.flush = 0
      · rw [and_iff_right hflush]
        show Meets s₀ (afterDown q _) ↔ _
        simp only [State.flush, hflush, decide_true]
      · refine iff_of_false (fun hm => ?_) fun hno => hflush hno.1
        -- the mount is read-only in the end, and the flush has failed
        have hkeeps := afterDown_keeps (q := q) (s := { s.flush q.flush with
          fs := marked s.fs, ronly := true, rdonly := true, fmod := false,
          writes := ⟨(marked s.fs).clean, decide (q.flush = 0)⟩ :: s.writes }) rfl rfl
        have hflushed := (Meets.honest hm).toRead (by rw [← hronly]; exact hdown.1) hkeeps.1
        have hno : decide (q.flush = 0) = true := hkeeps.2.symm.trans hflushed
        exact hflush (of_decide_eq_true hno)
    · have hfail : q.downUpdate ≠ 0 := herr
      rw [if_pos hfail, if_pos hfail, if_neg herr]
      -- the mount stays read-write; only the flag in memory was touched
      have hkept : Honest s₀ { s with fs := { marked s.fs with clean := false }, ronly := false, flushed := decide (q.flush = 0), fmod := false } :=
        ⟨h.clean, fun _ hno => (by cases hno), fun h₀ _ => h.toWrite h₀ hdown.1, h.suspend⟩
      constructor
      · intro hm
        exact ⟨hm.1.2.1, hm.1.2.2.symm⟩
      · intro hm
        exact ⟨⟨hdown.1.symm.trans hronly, hm.1, hm.2.symm⟩, hkept⟩

/-! ### The whole call -/

/-- Where the stages up to the downgrade come to. -/
structure Downed (q : Request) (s₀ s : State τ) : Prop where
  honest : Honest s₀ s
  fs : s.fs = if goesDown q s₀ = true then marked s₀.fs else s₀.fs
  ronly : s.ronly = (s₀.ronly || goesDown q s₀)
  rdonly : s.rdonly = wantsRead q s₀
  fsckpid : 0 < q.fsckpid → s.fsckpid = s₀.fsckpid

theorem Downed.late (h : Downed q s₀ s) (hup : goesUp q s₀ = false) :
    LateOk q { s with fs := if q.reload = true then q.reloaded else s.fs } s₀ ↔ LastOk q s₀ := by
  have hfs : (if q.reload = true then q.reloaded else s.fs) = flagsThen q s₀ := by rw [h.fs]; rfl
  -- the modes are the old ones only if nothing went up or down
  have hsame : s.ronly = s₀.ronly ∧ s.rdonly = s₀.rdonly
      ↔ goesDown q s₀ = false ∧ goesUp q s₀ = false ∧ s₀.rdonly = wantsRead q s₀ := by
    rw [h.ronly, h.rdonly, and_iff_right hup, eq_comm (a := wantsRead q s₀)]
    refine and_congr_left fun _ => ?_
    unfold goesDown
    cases s₀.ronly
    all_goals simp
  unfold LateOk LastOk
  simp only [hfs]
  by_cases hbusy : 0 < q.fsckpid ∧ s₀.fsckpid ≠ 0
  · have hbusy' : 0 < q.fsckpid ∧ s.fsckpid ≠ 0 := ⟨hbusy.1, by rw [h.fsckpid hbusy.1]; exact hbusy.2⟩
    rw [if_pos hbusy', if_pos hbusy, ← hsame, and_assoc]
    exact Iff.rfl
  · have hbusy' : ¬ (0 < q.fsckpid ∧ s.fsckpid ≠ 0) := fun hno => hbusy ⟨hno.1, by rw [← h.fsckpid hno.1]; exact hno.2⟩
    rw [if_neg hbusy', if_neg hbusy, ← hsame, and_assoc]

theorem Downed.meets (h : Downed q s₀ s) : Meets s₀ (afterDown q s) ↔ ReloadOk q s₀ := by
  have hagree : s.ronly = false → s.rdonly = false := by
    rw [h.ronly, h.rdonly]
    unfold goesDown
    cases s₀.ronly
    all_goals simp
  have hgoes : (s.ronly = true ∧ ¬ s.rdonly = true) ↔ goesUp q s₀ = true := by
    rw [h.ronly, h.rdonly]
    unfold goesDown goesUp
    cases s₀.ronly
    all_goals simp
  have hfs : (if q.reload = true then q.reloaded else s.fs) = flagsThen q s₀ := by rw [h.fs]; rfl
  rw [meets_reload h.honest hagree]
  unfold ReloadOk
  by_cases hfail : q.reload = true ∧ q.reloadErr ≠ 0
  · rw [if_pos hfail, if_pos hfail]
    show s.ronly = s₀.ronly ∧ s.rdonly = s₀.rdonly ∧ q.reloaded.clean = s₀.fs.clean ↔ _
    rw [h.ronly, h.rdonly, eq_comm (a := wantsRead q s₀)]
    refine and_congr_left fun _ => ?_
    unfold goesDown
    cases s₀.ronly
    all_goals simp
  · rw [if_neg hfail, if_neg hfail]
    unfold UpgradeOk
    dsimp only
    cases hup : goesUp q s₀ with
    | false =>
        -- the upgrade is skipped
        have hstay : ¬ (s.ronly = true ∧ ¬ s.rdonly = true) := by
          rw [hgoes, hup]
          exact Bool.false_ne_true
        have hnone : ¬ (false = true ∧ denied q (flagsThen q s₀) = true) := fun hno => Bool.false_ne_true hno.1
        rw [if_neg hstay, if_neg hnone, and_iff_right (fun hno => by cases hno)]
        exact h.late hup
    | true =>
        -- the request is one for writing on a file system that is read-only
        obtain ⟨hr₀, hw₀⟩ : s₀.ronly = true ∧ wantsRead q s₀ = false := by
          unfold goesUp at hup
          simpa using hup
        have hd₀ : goesDown q s₀ = false := by unfold goesDown; rw [hr₀]; rfl
        have hrd₀ : s₀.rdonly = false := by
          unfold wantsRead at hw₀
          rw [Bool.or_eq_false_iff] at hw₀
          exact hw₀.1
        rw [if_pos (hgoes.mpr hup), hfs]
        by_cases hdenied : denied q (flagsThen q s₀) = true
        · have hboth : true = true ∧ denied q (flagsThen q s₀) = true := ⟨rfl, hdenied⟩
          rw [if_pos hdenied, if_pos hboth]
          show s.ronly = s₀.ronly ∧ s.rdonly = s₀.rdonly ∧ (flagsThen q s₀).clean = s₀.fs.clean ↔ _
          rw [h.ronly, h.rdonly, hr₀, hw₀, hrd₀, and_iff_right (Bool.true_or _), and_iff_right rfl]
        · have hneither : ¬ (true = true ∧ denied q (flagsThen q s₀) = true) := fun hno => hdenied hno.2
          rw [if_neg hdenied, if_neg hneither]
          by_cases herr : q.upUpdate = 0
          · have hok : ¬ q.upUpdate ≠ 0 := fun hno => hno herr
            rw [if_neg hok, h.honest.suspend]
            -- the superblock has been written as not clean, so the flags no longer matter
            have hlate : LateOk q { s with ronly := false, rdonly := false, fs := { flagsThen q s₀ with clean := false } } s₀
                ↔ LastOk q s₀ := by
              unfold LateOk LastOk Unchanged
              by_cases hpid : 0 < q.fsckpid
              · simp [hpid, h.fsckpid hpid, hr₀, hup]
              · simp [hpid, hr₀, hup]
            exact and_congr ⟨fun hs _ => ⟨herr, hs⟩, fun hall => (hall rfl).2⟩ hlate
          · -- `MNT_RDONLY` is gone by now, and is not set again
            have hfail' : q.upUpdate ≠ 0 := herr
            rw [if_pos hfail', hrd₀]
            exact iff_of_false (fun hno => Bool.false_ne_true hno.1.2.1) fun hno => herr (hno.1 rfl).1

/-- Before the downgrade. -/
structure Entered (q : Request) (s₀ s : State τ) : Prop where
  honest : Honest s₀ s
  fs : s.fs = s₀.fs
  ronly : s.ronly = s₀.ronly
  rdonly : s.rdonly = wantsRead q s₀
  fsckpid : 0 < q.fsckpid → s.fsckpid = s₀.fsckpid

theorem Entered.meets (h : Entered q s₀ s) :
    Meets s₀ ((((downgrade q s).andThen (reload q)).andThen (upgrade q)).andThen (checkerStart q) |>.andThen (checkDevice q))
      ↔ if goesDown q s₀ = true ∧ q.downUpdate ≠ 0 then s₀.rdonly = wantsRead q s₀ ∧ s₀.fs.clean = false
        else (goesDown q s₀ = true → q.flush = 0) ∧ ReloadOk q s₀ := by
  have hgoes : (s.ronly = false ∧ s.rdonly = true) ↔ goesDown q s₀ = true := by
    rw [h.ronly, h.rdonly]
    unfold goesDown
    cases s₀.ronly
    all_goals simp
  rw [meets_downgrade h.honest h.ronly]
  cases hdown : goesDown q s₀ with
  | false =>
      have hstay : ¬ (s.ronly = false ∧ s.rdonly = true) := by
        rw [hgoes, hdown]
        exact Bool.false_ne_true
      have hnone : ¬ (false = true ∧ q.downUpdate ≠ 0) := fun hno => Bool.false_ne_true hno.1
      rw [if_neg hstay, if_neg hnone, and_iff_right (fun hno => by cases hno)]
      refine Downed.meets ⟨h.honest, ?_, ?_, h.rdonly, h.fsckpid⟩
      · rw [hdown, if_neg Bool.false_ne_true, h.fs]
      · rw [hdown, h.ronly, Bool.or_false]
  | true =>
      rw [if_pos (hgoes.mpr hdown)]
      by_cases herr : q.downUpdate = 0
      · have hok : ¬ q.downUpdate ≠ 0 := fun hno => hno herr
        have hneither : ¬ (true = true ∧ q.downUpdate ≠ 0) := fun hno => hno.2 herr
        rw [if_neg hok, if_neg hneither]
        -- the write of the clean superblock is the newest, and everything was flushed before it
        have hdowned : Downed q s₀ { s with ronly := true, rdonly := true, fs := marked s.fs, fmod := false,
                                            flushed := true, writes := ⟨(marked s.fs).clean, true⟩ :: s.writes } := by
          refine ⟨⟨fun w hmem hclean => ?_, fun _ _ => rfl, fun _ hno => (by cases hno), h.honest.suspend⟩, ?_, ?_, ?_, h.fsckpid⟩
          · rcases List.mem_cons.mp hmem with rfl | hold
            · rfl
            · exact h.honest.clean w hold hclean
          · rw [hdown, if_pos rfl, h.fs]
          · rw [hdown, Bool.or_true]
          · exact (hgoes.mpr hdown).2.symm.trans h.rdonly
        rw [hdowned.meets]
        exact and_congr_left fun _ => ⟨fun hflush _ => hflush, fun hall => hall rfl⟩
      · have hfail : q.downUpdate ≠ 0 := herr
        have hboth : true = true ∧ q.downUpdate ≠ 0 := ⟨rfl, herr⟩
        rw [if_pos hfail, if_pos hboth, h.rdonly, eq_comm]

theorem meets_checkerEnd (h : Entered q s₀ s) (hpid : s.fsckpid = s₀.fsckpid) :
    Meets s₀ (((((checkerEnd q s).andThen (downgrade q)).andThen (reload q)).andThen (upgrade q)).andThen (checkerStart q)
        |>.andThen (checkDevice q))
      ↔ (endFails q s₀ → s₀.rdonly = wantsRead q s₀)
        ∧ (¬ endFails q s₀ →
          if goesDown q s₀ = true ∧ q.downUpdate ≠ 0 then s₀.rdonly = wantsRead q s₀ ∧ s₀.fs.clean = false
          else (goesDown q s₀ = true → q.flush = 0) ∧ ReloadOk q s₀) := by
  have hflushed : Honest s₀ (s.flush q.checkerFlush) :=
    ⟨h.honest.clean, fun h₀ hno => absurd (h₀.symm.trans (h.ronly.symm.trans hno)) Bool.false_ne_true,
      h.honest.toWrite, h.honest.suspend⟩
  have hunchanged (t : State τ) (hronly : t.ronly = s.ronly) (hrdonly : t.rdonly = s.rdonly) (hfs : t.fs = s.fs) :
      Unchanged s₀ t ↔ s₀.rdonly = wantsRead q s₀ := by
    unfold Unchanged
    rw [hronly, hrdonly, hfs, h.ronly, h.rdonly, h.fs, and_iff_right rfl, and_iff_left rfl, eq_comm]
  unfold checkerEnd
  by_cases hend : q.fsckpid = -1 ∧ 0 < s.fsckpid
  case neg =>
    -- no checker to end
    have hgo : ¬ endFails q s₀ := fun hno => hend ⟨hno.1, hpid ▸ hno.2.1⟩
    rw [if_neg hend, and_iff_right (fun hno => absurd hno hgo), forall_prop_of_true hgo]
    exact h.meets
  case pos =>
    rw [if_pos hend]
    dsimp only
    by_cases hflush : q.checkerFlush = 0
    case neg =>
      have hfail : q.checkerFlush ≠ 0 := hflush
      have hfails : endFails q s₀ := ⟨hend.1, hpid ▸ hend.2, .inl hflush⟩
      rw [if_pos hfail, forall_prop_of_true hfails, and_iff_left (fun hno => absurd hfails hno)]
      show Unchanged s₀ (s.flush q.checkerFlush) ∧ Honest s₀ (s.flush q.checkerFlush) ↔ _
      rw [and_iff_left hflushed]
      exact hunchanged _ rfl rfl rfl
    case pos =>
      have hfine : ¬ q.checkerFlush ≠ 0 := fun hno => hno hflush
      -- the flush before the write has succeeded
      have hwritten : Honest s₀ ((s.flush q.checkerFlush).sbupdate q.checkerUpdate) :=
        hflushed.sbupdate fun _ _ => decide_eq_true hflush
      rw [if_neg hfine]
      by_cases herr : q.checkerUpdate = 0
      · have hgo : ¬ endFails q s₀ := fun hno => hno.2.2.elim (fun h1 => h1 hflush) fun h2 => h2 herr
        have hok : ¬ q.checkerUpdate ≠ 0 := fun hno => hno herr
        rw [if_neg hok, and_iff_right (fun hno => absurd hno hgo), forall_prop_of_true hgo]
        refine Entered.meets ⟨hwritten.of_eq rfl rfl rfl rfl, ?_, ?_, ?_, fun hno => absurd hno (by omega)⟩
        · rw [sbupdate_eq]
          exact h.fs
        · rw [sbupdate_eq]
          exact h.ronly
        · rw [sbupdate_eq]
          exact h.rdonly
      · have hfail : q.checkerUpdate ≠ 0 := herr
        have hfails : endFails q s₀ := ⟨hend.1, hpid ▸ hend.2, .inr herr⟩
        rw [if_pos hfail, forall_prop_of_true hfails, and_iff_left (fun hno => absurd hfails hno)]
        show Unchanged s₀ ((s.flush q.checkerFlush).sbupdate q.checkerUpdate) ∧ Honest s₀ _ ↔ _
        rw [and_iff_left hwritten]
        refine hunchanged _ ?_ ?_ ?_
        all_goals
          rw [sbupdate_eq]
          rfl

/-- For every mounted file system, every request and all results of the functions called: an
update meets what is asked for exactly under `UpdateOk`. -/
theorem ffsMountUpdate_meets (q : Request) (s₀ : State τ) : Meets s₀ (ffsMountUpdate q s₀) ↔ UpdateOk q s₀ := by
  have hstart : Honest s₀ { s₀ with flushed := false, writes := [] } := by
    refine ⟨fun w hno => (by cases hno), fun h₀ hno => ?_, fun h₀ hno => ?_, rfl⟩
    all_goals
      rw [h₀] at hno
      cases hno
  unfold ffsMountUpdate UpdateOk readArgs
  by_cases hioctl : q.ioctl = 0
  case neg =>
    have hfail : q.ioctl ≠ 0 := hioctl
    rw [if_pos hfail]
    exact iff_of_true hstart (.inl hioctl)
  case pos =>
    have hok : ¬ q.ioctl ≠ 0 := fun hno => hno hioctl
    have hread : (if q.wantrdwr = true then { s₀ with flushed := false, writes := [] }
        else { { s₀ with flushed := false, writes := [] } with rdonly := true })
        = { s₀ with flushed := false, writes := [], rdonly := wantsRead q s₀ } := by
      unfold wantsRead
      cases q.wantrdwr
      all_goals simp
    rw [if_neg hok, or_iff_right hok]
    dsimp only
    rw [hread]
    -- `MNT_RDONLY` may be set before the first check, which is what a failing call leaves behind
    have hentered : Honest s₀ { s₀ with flushed := false, writes := [], rdonly := wantsRead q s₀ } :=
      hstart.of_eq rfl rfl rfl rfl
    cases hcopy : q.copyin with
    | false =>
        rw [if_pos Bool.false_ne_true]
        exact iff_of_true hentered (.inl rfl)
    | true =>
        have hcopy' : ¬ ¬ true = true := fun hno => hno rfl
        rw [if_neg hcopy', or_iff_right (fun hno => by cases hno)]
        cases hacls : q.bothAcls with
        | true =>
            have hrefused : true = true ∨ endFails q s₀ := .inl rfl
            rw [if_pos rfl, if_pos hrefused]
            exact ⟨fun hm => hm.1.2.1.symm, fun hsame => ⟨⟨rfl, hsame.symm, rfl⟩, hentered⟩⟩
        | false =>
            rw [if_neg Bool.false_ne_true, Outcome.andThen]
            refine (meets_checkerEnd ⟨hentered, rfl, rfl, rfl, fun _ => rfl⟩ rfl).trans ?_
            by_cases hfails : endFails q s₀
            · have hor : false = true ∨ endFails q s₀ := .inr hfails
              rw [if_pos hor, forall_prop_of_true hfails, and_iff_left (fun hno => absurd hfails hno)]
            · have hnor : ¬ (false = true ∨ endFails q s₀) := fun hno => hno.elim (fun hf => by cases hf) hfails
              rw [if_neg hnor, forall_prop_of_true hfails, and_iff_right (fun hno => absurd hno hfails)]

/-! #### A file that is still open for writing -/

/-- A file system mounted read-write, in use. -/
def inUse : State Bool :=
  ⟨⟨false, false, false, false, false⟩, false, false, 0, true, false, ⟨false, false, false, 1, none, 0, 0, 0, 0⟩, false, []⟩

/-- A request for read-only, where `ffs_flushfiles` gives `EBUSY` and nothing else fails. -/
def toReadOnly : Request :=
  ⟨true, true, 0, false, 0, false, false, false, false, 0, 0, 16, 0, 0, ⟨false, false, false, false, false⟩, 0, 0, true⟩

/-- The call returns 0, the mount is read-only, and a superblock marked clean has been
written. -/
theorem not_ffsMountUpdate_meets :
    (∃ s, ffsMountUpdate toReadOnly inUse = .go s ∧ s.ronly = true ∧ s.writes = [⟨true, false⟩])
      ∧ ¬ Meets inUse (ffsMountUpdate toReadOnly inUse) := by
  refine ⟨⟨_, rfl, rfl, rfl⟩, fun hno => ?_⟩
  exact absurd (hno.2.clean ⟨true, false⟩ List.mem_cons_self rfl) Bool.false_ne_true

end UfsX.Proofs.Mount
