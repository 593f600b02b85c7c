import UfsX.Ffs.Sync
import Mathlib.Logic.Basic
import Mathlib.Tactic.ByContra

/-!
# `UfsX.Proofs.Sync`: when `ffs_sync` comes back, and what its value says

`allerror` and `UM_FSFAIL_CLEANUP` after a pass are a function of what they were before and
of the flush of the device (`after_eq`): what `ffs_syncvnode` returned is gone by then. A
pass that waits and finds `allerror` 0 goes back to the label `loop`, so that only an error
ends the call (`returns_iff`). `ffsSync_exact` puts this together.
-/

set_option autoImplicit false

namespace UfsX.Proofs.Sync

open UfsX.Lib UfsX.Ffs.Sync

/-! ### What is asked for -/

/-- The call comes to an end. -/
def Returns (m : Mount) (w : Waitfor) (p : Nat → Pass) : Prop := ∃ fuel r, ffsSync fuel m w p = some r

/-- Everything in pass `p` succeeded, the last one. -/
structure Succeeded (p : Pass) : Prop where
  vnodes : ∀ v ∈ p.vnodes, v.synced = true → v.sync.error = 0
  flush : p.flush.error = 0
  super : p.fmod = true → p.sbupdate.error = 0

/-- The value 0 means success, outside a forced unmount. -/
def Reports (p : Pass) (d : Done) : Prop := d.error = 0 → d.cleanup = false → Succeeded p

/-! ### One pass -/

/-- The flush of the device with the superblock of soft updates, as one call. -/
def flushed (m : Mount) (p : Pass) : Result :=
  if m.softdep ∧ (p.flush.error = 0 ∨ p.flush.error = EAGAIN) then
    ⟨p.softdepUpdate.error, p.flush.cleans || p.softdepUpdate.cleans⟩
  else p.flush

/-- A call of the pass up to the flush sets `UM_FSFAIL_CLEANUP`. -/
def cleans (m : Mount) (p : Pass) : Bool :=
  p.vnodes.any (fun v => v.synced && v.sync.cleans) || (flushed m p).cleans || (flushed m p).error = ENXIO

/-- The end of a pass before the jump. -/
def after (m : Mount) (w : Waitfor) (s : State) (p : Pass) : State := flushDevice m (syncVnodes w s p) p

/-- The vnodes leave `allerror` alone. -/
theorem foldl_cb (vs : List Vnode) (s : State) :
    (vs.foldl ffsSyncCb s).allerror = s.allerror
      ∧ (vs.foldl ffsSyncCb s).cleanup = (s.cleanup || vs.any fun v => v.synced && v.sync.cleans) := by
  induction vs generalizing s with
  | nil => exact ⟨rfl, (Bool.or_false _).symm⟩
  | cons v vs ih =>
      have hcb : (ffsSyncCb s v).allerror = s.allerror
          ∧ (ffsSyncCb s v).cleanup = (s.cleanup || (v.synced && v.sync.cleans)) := by
        unfold ffsSyncCb
        split
        case isTrue hv => exact ⟨rfl, by rw [hv, Bool.true_and]; rfl⟩
        case isFalse hv =>
          rw [Bool.not_eq_true] at hv
          exact ⟨rfl, by rw [hv, Bool.false_and, Bool.or_false]⟩
      have htail := ih (ffsSyncCb s v)
      rw [List.foldl_cons, htail.1, htail.2, hcb.1, hcb.2, List.any_cons, Bool.or_assoc]
      exact ⟨rfl, rfl⟩

/-- A call whose error is kept, and the look at the clean-up after it. -/
theorem call_keep (s : State) (r : Result) (h : s.allerror ≠ ENXIO) :
    let s' := (s.call r).keepError.fsfailCleanup
    s'.cleanup = (s.cleanup || r.cleans || r.error = ENXIO)
      ∧ s'.allerror = if s'.cleanup then 0 else if r.error ≠ 0 then r.error else s.allerror := by
  have hkeep : (s.call r).keepError.allerror = if r.error ≠ 0 then r.error else s.allerror := rfl
  have henxio : decide ((s.call r).keepError.allerror = ENXIO) = decide (r.error = ENXIO) := by
    rw [hkeep, decide_eq_decide]
    split
    case isTrue => exact Iff.rfl
    case isFalse h0 =>
      rw [not_not] at h0
      rw [h0]
      exact iff_of_false h (by decide)
  have hclean : (s.call r).keepError.fsfailCleanup.cleanup = (s.cleanup || r.cleans || r.error = ENXIO) := by
    show ((s.call r).keepError.cleanup || decide ((s.call r).keepError.allerror = ENXIO)) = _
    rw [henxio]
    rfl
  exact ⟨hclean, rfl⟩

theorem flushDevice_eq (m : Mount) (s : State) (p : Pass) :
    flushDevice m s p = (s.call (flushed m p)).keepError.fsfailCleanup := by
  unfold flushDevice flushed
  by_cases h : m.softdep ∧ (p.flush.error = 0 ∨ p.flush.error = EAGAIN)
  · have hs : m.softdep ∧ ((s.call p.flush).error = 0 ∨ (s.call p.flush).error = EAGAIN) := h
    simp only [if_pos h, if_pos hs]
    simp only [State.call, Bool.or_assoc]
  · have hs : ¬ (m.softdep ∧ ((s.call p.flush).error = 0 ∨ (s.call p.flush).error = EAGAIN)) := h
    simp only [if_neg h, if_neg hs]

/-- What holds of the state between two passes. -/
structure Settled (s : State) : Prop where
  enxio : s.allerror ≠ ENXIO
  zero : s.cleanup = true → s.allerror = 0

/-- The vnodes, whose errors are gone. -/
theorem syncVnodes_eq (w : Waitfor) {s : State} (h : Settled s) (p : Pass) :
    let s' := syncVnodes w s p
    s'.cleanup = (s.cleanup || p.vnodes.any fun v => v.synced && v.sync.cleans)
      ∧ s'.allerror ≠ ENXIO ∧ (s'.cleanup = false → s'.allerror = s.allerror) := by
  have hfold := foldl_cb p.vnodes { s with error := 0 }
  unfold syncVnodes
  split
  case isFalse => exact ⟨hfold.2, by rw [hfold.1]; exact h.enxio, fun _ => hfold.1⟩
  case isTrue =>
    generalize p.vnodes.foldl ffsSyncCb { s with error := 0 } = t at hfold
    obtain ⟨hall, hclean⟩ := hfold
    have hkeep := call_keep t ⟨0, false⟩ (by rw [hall]; exact h.enxio)
    have hsame : ({ t with error := softdepFlushworklist.1 }.keepError).fsfailCleanup
        = (t.call ⟨0, false⟩).keepError.fsfailCleanup := by
      simp only [State.call, Bool.or_false, softdepFlushworklist]
    obtain ⟨hc, ha⟩ := hkeep
    have h0 : decide ((0 : Int) = ENXIO) = false := rfl
    simp only [Bool.or_false, h0] at hc
    rw [if_neg (fun hno : (0 : Int) ≠ 0 => hno rfl)] at ha
    show (({ t with error := softdepFlushworklist.1 }.keepError).fsfailCleanup).cleanup = _
      ∧ (({ t with error := softdepFlushworklist.1 }.keepError).fsfailCleanup).allerror ≠ ENXIO ∧ _
    rw [hsame, hc, ha, hc, hall]
    refine ⟨hclean, ?_, fun hf => by rw [if_neg (by rw [hf]; exact Bool.false_ne_true)]⟩
    split
    case isTrue => decide
    case isFalse => exact h.enxio

/-- What a pass makes of `UM_FSFAIL_CLEANUP` and of `allerror`. -/
theorem after_eq (m : Mount) (w : Waitfor) {s : State} (h : Settled s) (p : Pass) :
    (after m w s p).cleanup = (s.cleanup || cleans m p)
      ∧ (after m w s p).allerror = if (after m w s p).cleanup then 0
        else if (flushed m p).error ≠ 0 then (flushed m p).error else s.allerror := by
  obtain ⟨hclean, henxio, hsame⟩ := syncVnodes_eq w h p
  obtain ⟨hc, ha⟩ := call_keep (syncVnodes w s p) (flushed m p) henxio
  unfold after
  rw [flushDevice_eq]
  have hcleanup : ((syncVnodes w s p).call (flushed m p)).keepError.fsfailCleanup.cleanup = (s.cleanup || cleans m p) := by
    rw [hc, hclean]
    simp only [cleans, Bool.or_assoc]
  refine ⟨hcleanup, ?_⟩
  rw [ha]
  split
  case isTrue => rfl
  case isFalse hno =>
    -- nobody has set the flag, so that the vnodes have left `allerror` alone
    rw [Bool.not_eq_true, hc, Bool.or_eq_false_iff, Bool.or_eq_false_iff] at hno
    rw [hsame hno.1.1]

theorem after_settled (m : Mount) (w : Waitfor) {s : State} (h : Settled s) (p : Pass) :
    Settled (after m w s p) := by
  obtain ⟨hc, ha⟩ := after_eq m w h p
  refine ⟨?_, fun hclean => by rw [ha, if_pos hclean]⟩
  rw [ha]
  split
  case isTrue => decide
  case isFalse hno =>
    split
    case isTrue =>
      intro henxio
      apply hno
      rw [hc, cleans, henxio]
      simp
    case isFalse => exact h.enxio

/-- Where a pass goes. -/
theorem pass_eq (m : Mount) (w : Waitfor) (s : State) (p : Pass) :
    pass m w s p = if (after m w s p).allerror = 0 ∧ w.waits then .inl (after m w s p)
      else if w = .suspend ∧ softdepCheckSuspend p ≠ 0 then .inl (after m w s p)
      else .inr (writeSuper (after m w s p) p (w = .suspend)) := by
  have hcount : ¬ (w.waits ∧ (syncVnodes w s p).allerror = 0 ∧ softdepFlushworklist.2 ≠ 0) := fun hno => hno.2.2 rfl
  exact if_neg hcount

/-- The superblock in the end, and the value. -/
theorem writeSuper_eq {s : State} (h : Settled s) (p : Pass) (suspended : Bool) :
    let d := writeSuper s p suspended
    d.cleanup = (s.cleanup || (p.fmod && (p.sbupdate.cleans || p.sbupdate.error = ENXIO)))
      ∧ d.error = if d.cleanup then 0
        else if p.fmod = true ∧ p.sbupdate.error ≠ 0 then p.sbupdate.error else s.allerror := by
  unfold writeSuper
  cases hf : p.fmod with
  | true =>
      obtain ⟨hc, ha⟩ := call_keep s p.sbupdate h.enxio
      refine ⟨?_, ?_⟩
      · show ((s.call p.sbupdate).keepError.fsfailCleanup).cleanup = _
        rw [hc, Bool.true_and, Bool.or_assoc]
      · show ((s.call p.sbupdate).keepError.fsfailCleanup).allerror = _
        rw [ha]
        simp
  | false =>
      have hc : s.fsfailCleanup.cleanup = s.cleanup := by
        show (s.cleanup || decide (s.allerror = ENXIO)) = s.cleanup
        rw [decide_eq_false h.enxio, Bool.or_false]
      refine ⟨by rw [Bool.false_and, Bool.or_false]; exact hc, ?_⟩
      show (if s.fsfailCleanup.cleanup then 0 else s.allerror) = _
      simp

/-! ### All passes -/

section Passes

variable {m : Mount} {w : Waitfor} {p : Nat → Pass}

theorem settled_start : Settled ⟨0, 0, m.cleanup⟩ where
  enxio := show (0 : Int) ≠ ENXIO from by decide
  zero _ := rfl

/-- What holds before pass `i`. -/
structure Before (m : Mount) (p : Nat → Pass) (i : Nat) (s : State) : Prop extends Settled s where
  clean : s.cleanup = false → m.cleanup = false ∧ ∀ k < i, cleans m (p k) = false
  failed : s.allerror ≠ 0 → ∃ k < i, (flushed m (p k)).error ≠ 0

theorem before_start : Before m p 0 ⟨0, 0, m.cleanup⟩ where
  toSettled := settled_start
  clean h := ⟨h, fun _ hk => absurd hk (Nat.not_lt_zero _)⟩
  failed h := absurd rfl h

theorem Before.after {i : Nat} {s : State} (h : Before m p i s) : Before m p (i + 1) (after m w s (p i)) := by
  obtain ⟨hc, ha⟩ := after_eq m w h.toSettled (p i)
  refine ⟨after_settled m w h.toSettled (p i), fun hclean => ?_, fun hall => ?_⟩
  · rw [hc, Bool.or_eq_false_iff] at hclean
    obtain ⟨hm, hbefore⟩ := h.clean hclean.1
    refine ⟨hm, fun k hk => ?_⟩
    rcases Nat.lt_succ_iff_lt_or_eq.mp hk with hlt | rfl
    · exact hbefore k hlt
    · exact hclean.2
  · rw [ha] at hall
    by_cases herror : (flushed m (p i)).error = 0
    · split at hall
      case isTrue => exact absurd rfl hall
      case isFalse =>
        rw [if_neg (fun hno => hno herror)] at hall
        obtain ⟨k, hk, hfail⟩ := h.failed hall
        exact ⟨k, by omega, hfail⟩
    · exact ⟨i, by omega, herror⟩

theorem pass_inl {s b : State} {q : Pass} (h : pass m w s q = .inl b) : b = after m w s q := by
  rw [pass_eq] at h
  split at h
  case isTrue => exact (Sum.inl.inj h).symm
  case isFalse =>
    split at h
    case isTrue => exact (Sum.inl.inj h).symm
    case isFalse => cases h

theorem pass_inr {s : State} {q : Pass} {d : Done} (h : pass m w s q = .inr d) :
    ((after m w s q).allerror ≠ 0 ∨ w.waits = false) ∧ (w = .suspend → softdepCheckSuspend q = 0)
      ∧ d = writeSuper (after m w s q) q (w = .suspend) := by
  rw [pass_eq] at h
  split at h
  case isTrue => cases h
  case isFalse hagain =>
    split at h
    case isTrue => cases h
    case isFalse hcheck =>
      refine ⟨?_, fun hw => ?_, (Sum.inr.inj h).symm⟩
      · by_cases hall : (after m w s q).allerror = 0
        · exact .inr (Bool.eq_false_iff.mpr fun hw => hagain ⟨hall, hw⟩)
        · exact .inl hall
      · by_contra hne
        exact hcheck ⟨hw, hne⟩

/-- The last pass of a call. -/
theorem ffsSync_last {fuel n : Nat} {d : Done} (h : ffsSync fuel m w p = some (n, d)) :
    m.panics = false ∧ ∃ s, Before m p n s ∧ pass m w s (p n) = .inr d := by
  unfold ffsSync at h
  split at h
  case isTrue => cases h
  case isFalse hpanic =>
    have hstep (i : Nat) (a b : State) (ha : Before m p i a) (hb : pass m w a (p i) = .inl b) : Before m p (i + 1) b := by
      rw [pass_inl hb]
      exact ha.after
    obtain ⟨s, -, hs, hr⟩ := loop_post (Before m p) hstep before_start h
    exact ⟨Bool.eq_false_iff.mpr hpanic, s, hs, hr⟩

/-- A call that waits comes back exactly if a pass that it gets to has `allerror` set, with
no clean-up until then. -/
theorem returns_iff (hw : w.waits = true) :
    Returns m w p ↔ m.panics = false ∧ m.cleanup = false
      ∧ ∃ j, (∀ i ≤ j, cleans m (p i) = false) ∧ (w = .suspend → softdepCheckSuspend (p j) = 0)
        ∧ ∃ k ≤ j, (flushed m (p k)).error ≠ 0 := by
  constructor
  · rintro ⟨fuel, ⟨n, d⟩, h⟩
    obtain ⟨hpanic, s, hs, hr⟩ := ffsSync_last h
    obtain ⟨hall, hcheck, -⟩ := pass_inr hr
    have hall' : (after m w s (p n)).allerror ≠ 0 := hall.resolve_right (by rw [hw]; exact Bool.noConfusion)
    -- the last pass counts as well: it set `allerror`, or one before it did
    have hafter : Before m p (n + 1) (after m w s (p n)) := hs.after
    have hclean : (after m w s (p n)).cleanup = false :=
      Bool.eq_false_iff.mpr fun hno => hall' (hafter.zero hno)
    obtain ⟨hm, hbefore⟩ := hafter.clean hclean
    obtain ⟨k, hk, hfail⟩ := hafter.failed hall'
    exact ⟨hpanic, hm, n, fun i hi => hbefore i (by omega), hcheck, k, by omega, hfail⟩
  · rintro ⟨hpanic, hm, j, hclean, hcheck, k, hkj, hfail⟩
    -- from pass `k` on `allerror` is set
    let inv (i : Nat) (s : State) : Prop := Settled s ∧ s.cleanup = false ∧ (k < i → s.allerror ≠ 0)
    have hgo (i : Nat) (hij : i ≤ j) (a : State) (ha : inv i a) :
        Settled (after m w a (p i)) ∧ (after m w a (p i)).cleanup = false ∧ (k ≤ i → (after m w a (p i)).allerror ≠ 0) := by
      obtain ⟨hset, hcl, hset0⟩ := ha
      obtain ⟨hc, hall⟩ := after_eq m w hset (p i)
      have hcl' : (after m w a (p i)).cleanup = false := by rw [hc, hcl, hclean i hij]; rfl
      refine ⟨after_settled m w hset (p i), hcl', fun hki => ?_⟩
      rw [hall, if_neg (by rw [hcl']; exact Bool.false_ne_true)]
      split
      case isTrue herror => exact herror
      case isFalse herror =>
        -- pass `i` found nothing, so the failure was before it
        have hne : k ≠ i := by
          rintro rfl
          exact herror hfail
        exact hset0 (by omega)
    have hstep (i : Nat) (a b : State) (_ : 0 ≤ i) (hij : i < j) (ha : inv i a) (hb : pass m w a (p i) = .inl b) :
        inv (i + 1) b := by
      rw [pass_inl hb]
      obtain ⟨hset, hcl, hset0⟩ := hgo i (by omega) a ha
      exact ⟨hset, hcl, fun hk => hset0 (by omega)⟩
    have hlast (a : State) (ha : inv j a) : ∃ r, pass m w a (p j) = .inr r := by
      obtain ⟨-, -, hset0⟩ := hgo j (Nat.le_refl _) a ha
      rw [pass_eq, if_neg fun hno => hset0 hkj hno.1, if_neg fun hno => hno.2 (hcheck hno.1)]
      exact ⟨_, rfl⟩
    have hstart : inv 0 ⟨0, 0, m.cleanup⟩ := ⟨settled_start, hm, fun hno => absurd hno (Nat.not_lt_zero _)⟩
    obtain ⟨fuel, r, hr⟩ := exists_loop inv (Nat.zero_le j) hstep hlast hstart
    refine ⟨fuel, r, ?_⟩
    rw [ffsSync, if_neg (by rw [hpanic]; exact Bool.false_ne_true)]
    exact hr

/-- A call that waits and returns 0 does so because of the clean-up. -/
theorem cleanup_of_zero (hw : w.waits = true) {fuel n : Nat} {d : Done} (h : ffsSync fuel m w p = some (n, d))
    (hzero : d.error = 0) : d.cleanup = true := by
  obtain ⟨-, s, hs, hr⟩ := ffsSync_last h
  obtain ⟨hall, -, rfl⟩ := pass_inr hr
  have hall' := hall.resolve_right (by rw [hw]; exact Bool.noConfusion)
  obtain ⟨-, herror⟩ := writeSuper_eq (after_settled m w hs.toSettled (p n)) (p n) (w = .suspend)
  by_contra hno
  rw [herror, if_neg hno] at hzero
  split at hzero
  case isTrue hsuper => exact hsuper.2 hzero
  case isFalse => exact hall' hzero

/-- A call that does not wait has one pass. -/
theorem nowait_eq {fuel n : Nat} {d : Done} (h : ffsSync fuel m .nowait p = some (n, d)) :
    n = 0 ∧ d = writeSuper (after m .nowait ⟨0, 0, m.cleanup⟩ (p 0)) (p 0) false := by
  have hpass : pass m .nowait ⟨0, 0, m.cleanup⟩ (p 0)
      = .inr (writeSuper (after m .nowait ⟨0, 0, m.cleanup⟩ (p 0)) (p 0) false) := by
    rw [pass_eq, if_neg (fun hno => Bool.false_ne_true hno.2), if_neg (fun hno => by cases hno.1)]
    rfl
  unfold ffsSync at h
  split at h
  case isTrue => cases h
  case isFalse =>
    cases fuel with
    | zero => cases h
    | succ fuel =>
        rw [loop, hpass] at h
        obtain ⟨rfl, rfl⟩ := Prod.mk.inj (Option.some.inj h)
        exact ⟨rfl, rfl⟩

/-- The clean-up goes on by the end of the only pass. -/
def CleansUp (m : Mount) (p : Pass) : Prop :=
  m.cleanup = true ∨ cleans m p = true
    ∨ (p.fmod = true ∧ (p.sbupdate.cleans = true ∨ p.sbupdate.error = ENXIO))

theorem nowait_reports {fuel n : Nat} {d : Done} (h : ffsSync fuel m .nowait p = some (n, d)) :
    Reports (p n) d ↔ CleansUp m (p 0) ∨ (flushed m (p 0)).error ≠ 0
      ∨ ((p 0).fmod = true ∧ (p 0).sbupdate.error ≠ 0) ∨ Succeeded (p 0) := by
  obtain ⟨rfl, rfl⟩ := nowait_eq h
  obtain ⟨hc, ha⟩ := after_eq m .nowait (settled_start (m := m)) (p 0)
  obtain ⟨hdc, hde⟩ := writeSuper_eq (after_settled m .nowait (settled_start (m := m)) (p 0)) (p 0) false
  have hclean : (writeSuper (after m .nowait ⟨0, 0, m.cleanup⟩ (p 0)) (p 0) false).cleanup = true ↔ CleansUp m (p 0) := by
    rw [hdc, hc]
    simp only [Bool.or_eq_true, Bool.and_eq_true, decide_eq_true_eq, CleansUp, or_assoc]
  unfold Reports
  by_cases hup : CleansUp m (p 0)
  · -- after a clean-up nothing is asked of the error
    exact iff_of_true (fun _ hno => absurd (hclean.mpr hup) (by rw [hno]; exact Bool.false_ne_true)) (.inl hup)
  · have hoff : (writeSuper (after m .nowait ⟨0, 0, m.cleanup⟩ (p 0)) (p 0) false).cleanup = false :=
      Bool.eq_false_iff.mpr fun hno => hup (hclean.mp hno)
    have hoff' : (after m .nowait ⟨0, 0, m.cleanup⟩ (p 0)).cleanup = false := by
      rw [hdc, Bool.or_eq_false_iff] at hoff
      exact hoff.1
    rw [hoff, if_neg Bool.false_ne_true, ha, hoff', if_neg Bool.false_ne_true] at hde
    rw [hde, or_iff_right hup]
    -- the error of the superblock replaces that of the flush
    by_cases hsuper : (p 0).fmod = true ∧ (p 0).sbupdate.error ≠ 0
    · rw [if_pos hsuper]
      exact iff_of_true (fun hno => absurd hno hsuper.2) (.inr (.inl hsuper))
    · rw [if_neg hsuper, or_iff_right hsuper]
      by_cases hflush : (flushed m (p 0)).error = 0
      · rw [if_neg (fun hno => hno hflush), or_iff_right (fun hno => hno hflush)]
        exact ⟨fun hall => hall rfl hoff, fun hok _ _ => hok⟩
      · rw [if_pos hflush]
        exact iff_of_true (fun hno => absurd hno hflush) (.inl hflush)

end Passes

/-- For every mount and whatever the passes find: with `MNT_WAIT` or `MNT_SUSPEND` the call
comes back exactly if the flush of the device fails in some pass, with no forced unmount
going on until the call ends and, for `MNT_SUSPEND`, with `softdep_check_suspend` content
then. With `MNT_NOWAIT` it comes back, unless it panics. A value of 0 tells the truth if the
call waits; if it does not, exactly if something else than an `ffs_syncvnode` that failed
decides, or everything succeeded. -/
theorem ffsSync_exact (m : Mount) (p : Nat → Pass) :
    (∀ w : Waitfor, w.waits = true →
      (Returns m w p ↔ m.panics = false ∧ m.cleanup = false
        ∧ ∃ j, (∀ i ≤ j, cleans m (p i) = false) ∧ (w = .suspend → softdepCheckSuspend (p j) = 0)
          ∧ ∃ k ≤ j, (flushed m (p k)).error ≠ 0)
      ∧ ∀ fuel n d, ffsSync fuel m w p = some (n, d) → Reports (p n) d)
    ∧ (Returns m .nowait p ↔ m.panics = false)
    ∧ ∀ fuel n d, ffsSync fuel m .nowait p = some (n, d) →
      (Reports (p n) d ↔ CleansUp m (p 0) ∨ (flushed m (p 0)).error ≠ 0
        ∨ ((p 0).fmod = true ∧ (p 0).sbupdate.error ≠ 0) ∨ Succeeded (p 0)) := by
  refine ⟨fun w hw => ⟨returns_iff hw, fun fuel n d h hzero hoff => ?_⟩, ?_, fun fuel n d h => nowait_reports h⟩
  · rw [cleanup_of_zero hw h hzero] at hoff
    cases hoff
  · constructor
    · rintro ⟨fuel, ⟨n, d⟩, h⟩
      exact (ffsSync_last h).1
    · intro hpanic
      refine ⟨1, (0, writeSuper (after m .nowait ⟨0, 0, m.cleanup⟩ (p 0)) (p 0) false), ?_⟩
      rw [ffsSync, if_neg (by rw [hpanic]; exact Bool.false_ne_true), loop, pass_eq,
        if_neg (fun hno => Bool.false_ne_true hno.2), if_neg (fun hno => by cases hno.1)]
      rfl

/-- Nothing to write, and a disk that works. -/
def quiet : Pass := ⟨[], ⟨0, false⟩, ⟨0, false⟩, 0, 0, 0, false, false, ⟨0, false⟩⟩

/-- A vnode whose write fails with `EIO`. -/
def failing : Vnode := ⟨false, true, true, ⟨5, false⟩, by decide⟩

def mounted : Mount := ⟨false, false, 0, false, false⟩

/-- Without anything to write `ffs_sync` passes over the vnodes again and again. And with
`MNT_NOWAIT` the error of a vnode is lost. -/
theorem not_ffsSync :
    ¬ Returns mounted .wait (fun _ => quiet) ∧ ¬ Returns mounted .suspend (fun _ => quiet)
      ∧ ffsSync 1 mounted .nowait (fun _ => { quiet with vnodes := [failing] }) = some (0, ⟨0, false, false⟩)
      ∧ ¬ Reports { quiet with vnodes := [failing] } ⟨0, false, false⟩ := by
  have hgood (k : Nat) : (flushed mounted ((fun _ => quiet) k)).error = 0 := rfl
  refine ⟨fun hno => ?_, fun hno => ?_, rfl, fun hno => ?_⟩
  · obtain ⟨-, -, j, -, -, k, -, hfail⟩ := (returns_iff rfl).mp hno
    exact hfail (hgood k)
  · obtain ⟨-, -, j, -, -, k, -, hfail⟩ := (returns_iff rfl).mp hno
    exact hfail (hgood k)
  · exact absurd ((hno rfl rfl).vnodes failing List.mem_cons_self rfl) (by decide)

end UfsX.Proofs.Sync
