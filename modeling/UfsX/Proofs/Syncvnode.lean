import UfsX.Ffs.Syncvnode
import UfsX.Proofs.Consistent
import Mathlib.Data.List.Forall2

/-!
# `UfsX.Proofs.Syncvnode`: which buffers `fsync` writes

`ffs_syncvnode_callback` marks a buffer before it decides whether this pass may write
it, and nothing takes the mark away again, neither between two passes nor between two
calls. So only the first pass writes anything (`visit_of_settled`), and the pass bound
of the first pass is 0, which keeps every indirect block back. A buffer without private
data or with a mark of an earlier call is passed over as well.

`fsync_durable_iff` says for which buffers a call is durable, and
`fsync_again_writes_nothing` what that means for a second call.
-/

set_option autoImplicit false

namespace UfsX.Proofs.Syncvnode

open UfsX.Ffs UfsX.Ffs.Syncvnode
open UfsX.Ufs (ndaddr niaddr)

/-! ### The mark -/

/-- The buffer has private data, and no mark. -/
def Unmarked (bp : Syncvnode.Buf) : Prop := ∃ v, bp.bpriv = some v ∧ scanned v = false

instance (bp : Syncvnode.Buf) : Decidable (Unmarked bp) :=
  match h : bp.bpriv with
  | none => isFalse fun ⟨_, hv, _⟩ => by simp [h] at hv
  | some v => decidable_of_iff (scanned v = false)
      ⟨fun hv => ⟨v, h, hv⟩, fun ⟨_, hw, hv⟩ => by
        rw [h] at hw
        exact Option.some.inj hw ▸ hv⟩

/-! ### One pass -/

/-- `buf_iterate` calls the callback for this buffer. -/
def Called (bp : Syncvnode.Buf) : Prop := bp.delwri = true ∧ bp.locked = false

instance (bp : Syncvnode.Buf) : Decidable (Called bp) := inferInstanceAs (Decidable (_ ∧ _))

/-- An indirect block that the pass bound keeps back. -/
def KeptBack (ap : SyncArgs) (bp : Syncvnode.Buf) : Prop :=
  ap.waitfor ∧ bp.lblkno ≤ -(ndaddr : Int) ∧ (ap.passes ≤ lbnLevel bp.lblkno ∨ ap.dataOnly)

instance (ap : SyncArgs) (bp : Syncvnode.Buf) : Decidable (KeptBack ap bp) := inferInstanceAs (Decidable (_ ∧ _))

/-- The callback panics at this buffer. -/
def Truncated (ap : SyncArgs) (bp : Syncvnode.Buf) : Prop :=
  Called bp ∧ Unmarked bp ∧ ¬ KeptBack ap bp ∧ ap.lbn < bp.lblkno

instance (ap : SyncArgs) (bp : Syncvnode.Buf) : Decidable (Truncated ap bp) := inferInstanceAs (Decidable (_ ∧ _))

/-- The buffer after a pass that does not panic. -/
def visit (ap : SyncArgs) (bp : Syncvnode.Buf) : Syncvnode.Buf :=
  if Called bp then
    if Unmarked bp then
      if KeptBack ap bp then { bp with bpriv := bp.bpriv.map setScanned, locked := true }
      else Buf.write { bp with bpriv := bp.bpriv.map setScanned } ap.passes
    else { bp with locked := true }
  else bp

theorem callback_of_truncated {ap : SyncArgs} {bp : Syncvnode.Buf} (h : Truncated ap bp) :
    callback ap { bp with locked := true } = none := by
  obtain ⟨-, ⟨v, hpriv, hmark⟩, hkept, hlbn⟩ := h
  unfold KeptBack at hkept
  simp only [callback, hpriv, hmark]
  rw [if_neg (by simp), if_neg hkept, if_pos hlbn]

/-- The callback does to a buffer what `visit` says, and it never ends the pass. -/
theorem callback_of_called {ap : SyncArgs} {bp : Syncvnode.Buf} (herr : ap.error = 0) (hcall : Called bp)
    (h : ¬ Truncated ap bp) :
    ∃ bp' ret, callback ap { bp with locked := true } = some (ap, bp', ret) ∧ ret.done = false ∧
      (if ret.releases then { bp' with locked := false } else bp') = visit ap bp := by
  unfold visit
  rw [if_pos hcall]
  by_cases hun : Unmarked bp
  · obtain ⟨v, hpriv, hmark⟩ := hun
    rw [if_pos ⟨v, hpriv, hmark⟩]
    simp only [callback, hpriv, hmark]
    by_cases hkept : KeptBack ap bp
    · rw [if_pos hkept]
      unfold KeptBack at hkept
      refine ⟨_, .claimed, ?_, rfl, rfl⟩
      rw [if_neg (by simp), if_pos hkept]
      rfl
    · have hlbn : ¬ ap.lbn < bp.lblkno := fun hlt => h ⟨hcall, ⟨v, hpriv, hmark⟩, hkept, hlt⟩
      rw [if_neg hkept]
      unfold KeptBack at hkept
      refine ⟨Buf.write { bp with bpriv := some (setScanned v) } ap.passes, .returned, ?_, rfl, rfl⟩
      rw [if_neg (by simp), if_neg hkept, if_neg hlbn, if_neg (by simp [hcall.1])]
      -- a synchronous write sets `error` to what it was before
      have hap : { ap with error := 0 } = ap := by rw [← herr]
      split
      · rw [hap]
        rfl
      · rfl
  · rw [if_neg hun]
    refine ⟨{ bp with locked := true }, .claimed, ?_, rfl, rfl⟩
    cases hpriv : bp.bpriv with
    | none => simp only [callback]
    | some v =>
        have hmark : scanned v = true := by
          by_contra hfalse
          exact hun ⟨v, hpriv, by simpa using hfalse⟩
        simp only [callback, hmark]
        rfl

/-- A pass either meets a buffer past the end of the file or visits all buffers. -/
theorem bufIterate_callback {ap : SyncArgs} (herr : ap.error = 0) (bufs : List Syncvnode.Buf) :
    bufIterate callback ap bufs =
      if ∃ bp ∈ bufs, Truncated ap bp then none else some (ap, bufs.map (visit ap)) := by
  induction bufs with
  | nil => simp [bufIterate]
  | cons bp bufs ih =>
      by_cases hcall : Called bp
      · have hcond : (bp.delwri && !bp.locked) = true := by simp [hcall.1, hcall.2]
        unfold bufIterate
        rw [if_pos hcond]
        by_cases htr : Truncated ap bp
        · rw [callback_of_truncated htr, if_pos ⟨bp, List.mem_cons_self, htr⟩]
        · obtain ⟨bp', ret, heq, hdone, hvisit⟩ := callback_of_called herr hcall htr
          rw [heq]
          simp only [hdone, hvisit, ih]
          by_cases hrest : ∃ b ∈ bufs, Truncated ap b
          · simp [hrest, htr]
          · simp [hrest, htr]
      · have hcond : ¬ (bp.delwri && !bp.locked) = true := by
          simpa [Called] using hcall
        have htr : ¬ Truncated ap bp := fun h => hcall h.1
        have hvisit : visit ap bp = bp := if_neg hcall
        unfold bufIterate
        rw [if_neg hcond, ih]
        by_cases hrest : ∃ b ∈ bufs, Truncated ap b
        · simp [hrest, htr]
        · simp [hrest, htr, hvisit]

/-! ### After the first pass -/

/-- No later pass writes this buffer. -/
def Settled (bp : Syncvnode.Buf) : Prop := Called bp → ¬ Unmarked bp

theorem settled_visit (ap : SyncArgs) (bp : Syncvnode.Buf) : Settled (visit ap bp) := by
  intro hcall hun
  unfold visit at hcall hun
  split at hcall
  case isTrue h =>
      rw [if_pos h] at hun
      split at hcall
      case isTrue hmark =>
          rw [if_pos hmark] at hun
          split at hcall
          case isTrue => simp [Called] at hcall
          case isFalse => simp [Called, Buf.write] at hcall
      case isFalse => simp [Called] at hcall
  case isFalse h => exact h hcall

theorem visit_of_settled (ap : SyncArgs) {bp : Syncvnode.Buf} (h : Settled bp) :
    visit ap bp = { bp with locked := bp.locked || bp.delwri } := by
  unfold visit
  split
  case isTrue hcall =>
      rw [if_neg (h hcall), hcall.1, hcall.2]
      rfl
  case isFalse hcall =>
      have hlocked : (bp.locked || bp.delwri) = bp.locked := by
        cases hd : bp.delwri <;> cases hl : bp.locked <;> simp_all [Called]
      rw [hlocked]

theorem not_truncated_of_settled {ap : SyncArgs} {bp : Syncvnode.Buf} (h : Settled bp) : ¬ Truncated ap bp :=
  fun htr => h htr.1 htr.2.1

/-- What a pass over settled buffers does not change. -/
def core (bp : Syncvnode.Buf) : List Nat × Option Nat := (bp.writes, bp.bpriv)

theorem map_core_visit (ap : SyncArgs) {bufs : List Syncvnode.Buf} (h : ∀ bp ∈ bufs, Settled bp) :
    (bufs.map (visit ap)).map core = bufs.map core := by
  rw [List.map_map]
  refine List.map_congr_left fun bp hmem => ?_
  rw [Function.comp_apply, visit_of_settled ap (h bp hmem)]
  rfl

/-! ### The passes come to an end -/

/-- Passes that are left, this one included. -/
def budget (ap : SyncArgs) : Nat := 2 * (niaddr + 2 - ap.passes) - ap.wait.toNat

theorem switchPass_again {ap ap' : SyncArgs} {sizemod stillDirty : Bool} {update : Int} {bufs bufs' : List Syncvnode.Buf}
    (h : switchPass ap sizemod update stillDirty bufs = .again ap' bufs') (hpass : ap.passes < niaddr + 2) :
    bufs' = bufs ∧ ap'.passes < niaddr + 2 ∧ budget ap' + 1 = budget ap ∧
      ap' = { ap with wait := ap'.wait, passes := ap'.passes } := by
  unfold switchPass at h
  unfold budget
  split at h
  case isFalse => cases h
  case isTrue =>
      split at h
      case isTrue hwait =>
          cases h
          simp only [Bool.not_eq_true] at hwait
          simp only [hwait, Bool.toNat_true, Bool.toNat_false]
          exact ⟨trivial, hpass, by omega, trivial⟩
      case isFalse hwait =>
          split at h
          case isTrue hnext =>
              cases h
              simp only [Bool.not_eq_true, Bool.not_eq_false] at hwait
              simp only [hwait, Bool.toNat_true, Bool.toNat_false]
              exact ⟨trivial, hnext, by omega, trivial⟩
          case isFalse => cases h

/-- A round that is not the last uses up one pass. -/
theorem round_again {ap ap' : SyncArgs} {sizemod : Bool} {update : Int} {bufs bufs' : List Syncvnode.Buf}
    (h : round sizemod update ap bufs = .again ap' bufs') (hpass : ap.passes < niaddr + 2) :
    ap'.passes < niaddr + 2 ∧ budget ap' + 1 = budget ap := by
  unfold Syncvnode.round at h
  rw [bufIterate_callback rfl] at h
  split at h
  case h_1 => cases h
  case h_2 ap₁ bufs₁ heq =>
      split at heq
      case isTrue => cases heq
      case isFalse =>
          obtain ⟨rfl, rfl⟩ : _ = ap₁ ∧ _ = bufs₁ := by simpa using heq
          split at h
          case isTrue => cases h
          split at h
          case isTrue => cases h
          split at h
          case isTrue => cases h
          split at h
          case isTrue =>
              obtain ⟨-, hlt, hbudget, -⟩ := switchPass_again h hpass
              exact ⟨hlt, hbudget⟩
          case isFalse =>
              split at h
              case h_1 => cases h
              case h_2 =>
                  obtain ⟨-, hlt, hbudget, -⟩ := switchPass_again h hpass
                  exact ⟨hlt, hbudget⟩

theorem rounds_ends {sizemod : Bool} {update : Int} {fuel : Nat} {ap : SyncArgs} (bufs : List Syncvnode.Buf)
    (hpass : ap.passes < niaddr + 2) (hfuel : budget ap ≤ fuel) :
    ∃ r, rounds sizemod update fuel ap bufs = some r := by
  induction fuel generalizing ap bufs with
  | zero =>
      have hpos : 0 < budget ap := by
        unfold budget
        have := ap.wait.toNat_le
        omega
      omega
  | succ fuel ih =>
      simp only [rounds]
      cases hround : round sizemod update ap bufs with
      | again ap' bufs' =>
          obtain ⟨hlt, hbudget⟩ := round_again hround hpass
          exact ih bufs' hlt (by omega)
      | ret error bufs' => exact ⟨_, rfl⟩
      | panic => exact ⟨_, rfl⟩

/-- Whatever the buffers, and in every mode of the call, ten passes are enough. -/
theorem ffsSyncvnode_ends (fs : Fs) (size : Nat) (sizemod : Bool) (update : Int)
    (waitfor noInoUpdt dataOnly : Bool) (bufs : List Syncvnode.Buf) :
    ∃ r, ffsSyncvnode 10 fs size sizemod update waitfor noInoUpdt dataOnly bufs = some r :=
  rounds_ends _ (show 0 < niaddr + 2 by decide) (show 2 * (niaddr + 2) ≤ 10 by decide)

/-! ### The calls that wait -/

/-- The arguments in a call with `MNT_WAIT` and no flags. -/
structure Waiting (ap : SyncArgs) : Prop where
  abort : ap.abort = false
  waitfor : ap.waitfor = true
  noInoUpdt : ap.noInoUpdt = false
  dataOnly : ap.dataOnly = false
  error : ap.error = 0

theorem finish_of_waiting {ap : SyncArgs} (h : Waiting ap) (sizemod : Bool) (update : Int) :
    finish ap sizemod update = update := by
  simp [finish, h.noInoUpdt, h.dataOnly]

theorem round_of_waiting {ap : SyncArgs} (h : Waiting ap) (sizemod : Bool) (update : Int) (bufs : List Syncvnode.Buf) :
    round sizemod update ap bufs =
      if ∃ bp ∈ bufs, Truncated ap bp then .panic
      else if hasdirtyblks (bufs.map (visit ap)) then
        switchPass ap sizemod update true (bufs.map (visit ap))
      else .ret update (bufs.map (visit ap)) := by
  have hap : { ap with error := 0 } = ap := by rw [← h.error]
  unfold Syncvnode.round
  rw [hap, bufIterate_callback h.error]
  by_cases hbad : ∃ bp ∈ bufs, Truncated ap bp
  · rw [if_pos hbad, if_pos hbad]
  · rw [if_neg hbad, if_neg hbad]
    simp only [h.abort, h.waitfor, h.dataOnly, finish_of_waiting h]
    cases hasdirtyblks (bufs.map (visit ap)) <;> simp

theorem switchPass_of_waiting {ap : SyncArgs} (h : Waiting ap) (sizemod : Bool) (update : Int) (bufs : List Syncvnode.Buf) :
    (∃ ap', Waiting ap' ∧ switchPass ap sizemod update true bufs = .again ap' bufs) ∨
      switchPass ap sizemod update true bufs = .ret update bufs := by
  unfold switchPass
  rw [if_pos rfl, finish_of_waiting h]
  split
  · exact .inl ⟨{ ap with wait := true }, ⟨h.abort, h.waitfor, h.noInoUpdt, h.dataOnly, h.error⟩, rfl⟩
  · split
    · exact .inl ⟨{ ap with wait := false, passes := ap.passes + 1 },
        ⟨h.abort, h.waitfor, h.noInoUpdt, h.dataOnly, h.error⟩, rfl⟩
    · exact .inr rfl

/-- Once all buffers are settled, the passes that are left change no more than locks. -/
theorem rounds_of_settled {ap : SyncArgs} {sizemod : Bool} {update : Int} {fuel : Nat} {bufs : List Syncvnode.Buf} {r : Round}
    (h : Waiting ap) (hset : ∀ bp ∈ bufs, Settled bp) (hr : rounds sizemod update fuel ap bufs = some r) :
    ∃ bufs', r = .ret update bufs' ∧ bufs'.map core = bufs.map core := by
  induction fuel generalizing ap bufs with
  | zero => cases hr
  | succ fuel ih =>
      have hbad : ¬ ∃ bp ∈ bufs, Truncated ap bp :=
        fun ⟨bp, hmem, htr⟩ => not_truncated_of_settled (hset bp hmem) htr
      have hcore := map_core_visit ap hset
      have hset' : ∀ bp ∈ bufs.map (visit ap), Settled bp := by
        intro bp hmem
        obtain ⟨b, -, rfl⟩ := List.mem_map.mp hmem
        exact settled_visit ap b
      simp only [rounds] at hr
      rw [round_of_waiting h, if_neg hbad] at hr
      split at hr
      case h_1 ap' bufs' hround =>
          split at hround
          case isFalse => cases hround
          case isTrue =>
              obtain ⟨ap₁, hwait, heq⟩ | heq := switchPass_of_waiting h sizemod update (bufs.map (visit ap))
              · rw [heq] at hround
                cases hround
                obtain ⟨bufs'', rfl, hrest⟩ := ih hwait hset' hr
                exact ⟨bufs'', rfl, hrest.trans hcore⟩
              · rw [heq] at hround
                cases hround
      case h_2 hnot =>
          refine ⟨bufs.map (visit ap), ?_, hcore⟩
          split at hr
          case isFalse => exact (Option.some.inj hr).symm
          case isTrue hdirty =>
              obtain ⟨ap₁, -, heq⟩ | heq := switchPass_of_waiting h sizemod update (bufs.map (visit ap))
              · rw [if_pos hdirty, heq] at hnot
                exact absurd rfl (hnot _ _)
              · rw [heq] at hr
                exact (Option.some.inj hr).symm

/-- A call that returns has written what its first pass wrote. -/
theorem rounds_of_waiting {ap : SyncArgs} {sizemod : Bool} {update : Int} {fuel : Nat} {bufs : List Syncvnode.Buf} {r : Round}
    (h : Waiting ap) (hr : rounds sizemod update fuel ap bufs = some r) :
    ((∃ bp ∈ bufs, Truncated ap bp) ∧ r = .panic) ∨
      ((¬ ∃ bp ∈ bufs, Truncated ap bp) ∧
        ∃ bufs', r = .ret update bufs' ∧ bufs'.map core = bufs.map fun bp => core (visit ap bp)) := by
  cases fuel with
  | zero => cases hr
  | succ fuel =>
      have hmap : (bufs.map (visit ap)).map core = bufs.map fun bp => core (visit ap bp) := by
        rw [List.map_map]
        rfl
      simp only [rounds] at hr
      rw [round_of_waiting h] at hr
      by_cases hbad : ∃ bp ∈ bufs, Truncated ap bp
      · rw [if_pos hbad] at hr
        exact .inl ⟨hbad, (Option.some.inj hr).symm⟩
      rw [if_neg hbad] at hr
      refine .inr ⟨hbad, ?_⟩
      by_cases hdirty : hasdirtyblks (bufs.map (visit ap)) = true
      · rw [if_pos hdirty] at hr
        obtain ⟨ap', hwait, heq⟩ | heq := switchPass_of_waiting h sizemod update (bufs.map (visit ap))
        · -- the passes after the first find settled buffers only
          rw [heq] at hr
          have hset : ∀ bp ∈ bufs.map (visit ap), Settled bp := by
            intro bp hmem
            obtain ⟨b, -, rfl⟩ := List.mem_map.mp hmem
            exact settled_visit ap b
          obtain ⟨bufs', rfl, hcore⟩ := rounds_of_settled hwait hset hr
          exact ⟨bufs', rfl, hcore.trans hmap⟩
        · rw [heq] at hr
          exact ⟨_, (Option.some.inj hr).symm, hmap⟩
      · rw [if_neg hdirty] at hr
        exact ⟨_, (Option.some.inj hr).symm, hmap⟩

/-! ### Durable calls -/

/-- What is asked of a buffer `bp` that the call has written in the passes `writes`: it
is written if it was dirty, and an indirect block only in a pass whose bound allows its
level. -/
def Synced (bp : Syncvnode.Buf) (writes : List Nat) : Prop :=
  (bp.delwri = true → writes ≠ []) ∧
    (bp.lblkno ≤ -(ndaddr : Int) → ∀ p ∈ writes, lbnLevel bp.lblkno < p)

/-- The call `ffs_syncvnode(vp, MNT_WAIT, 0)` returns after at most ten passes, and
when it returns 0 the buffers are on the disk. -/
def Durable (fs : Fs) (size : Nat) (sizemod : Bool) (update : Int) (bufs : List Syncvnode.Buf) : Prop :=
  ∃ n ≤ 10, ∃ error bufs',
    ffsSyncvnode n fs size sizemod update true false false bufs = some (.ret error bufs') ∧
      (error = 0 → List.Forall₂ (fun bp bp' => Synced bp bp'.writes) bufs bufs')

theorem forall₂_synced_iff {bufs bufs' : List Syncvnode.Buf} {f : Syncvnode.Buf → List Nat} (h : bufs'.map (·.writes) = bufs.map f) :
    List.Forall₂ (fun bp bp' => Synced bp bp'.writes) bufs bufs' ↔ ∀ bp ∈ bufs, Synced bp (f bp) := by
  have hwrites : List.Forall₂ Synced bufs (bufs'.map (·.writes)) ↔
      List.Forall₂ (fun bp bp' => Synced bp bp'.writes) bufs bufs' := List.forall₂_map_right_iff
  rw [← hwrites, h, List.forall₂_map_right_iff, List.forall₂_same]

/-- A data block of the file, or a number that is no block's; the buffer is free, with
private data that no earlier pass has marked. -/
structure Plain (fs : Fs) (size : Nat) (bp : Syncvnode.Buf) : Prop where
  unlocked : bp.locked = false
  unmarked : Unmarked bp
  data : bp.lblkno ≤ -(ndaddr : Int) → lbnLevel bp.lblkno < 0
  within : bp.lblkno ≤ fs.lblkno (size + fs.bsize - 1)

/-- The arguments of the first pass. -/
def firstArgs (fs : Fs) (size : Nat) : SyncArgs :=
  { abort := false, waitfor := true, noInoUpdt := false, dataOnly := false, passes := 0, wait := false,
    lbn := fs.lblkno (size + fs.bsize - 1), error := 0 }

theorem waiting_firstArgs (fs : Fs) (size : Nat) : Waiting (firstArgs fs size) := ⟨rfl, rfl, rfl, rfl, rfl⟩

theorem keptBack_firstArgs {fs : Fs} {size : Nat} {bp : Syncvnode.Buf} :
    KeptBack (firstArgs fs size) bp ↔ bp.lblkno ≤ -(ndaddr : Int) ∧ 0 ≤ lbnLevel bp.lblkno := by
  simp [KeptBack, firstArgs]

/-- What the first pass writes, out of a buffer that has not been written before. -/
theorem writes_visit_firstArgs {fs : Fs} {size : Nat} {bp : Syncvnode.Buf} (h : bp.writes = []) :
    (visit (firstArgs fs size) bp).writes =
      if Called bp ∧ Unmarked bp ∧ ¬ KeptBack (firstArgs fs size) bp then [0] else [] := by
  unfold visit
  by_cases hcall : Called bp
  · by_cases hun : Unmarked bp
    · by_cases hkept : KeptBack (firstArgs fs size) bp
      · rw [if_pos hcall, if_pos hun, if_pos hkept, if_neg (fun h => h.2.2 hkept)]
        exact h
      · rw [if_pos hcall, if_pos hun, if_neg hkept, if_pos ⟨hcall, hun, hkept⟩]
        simp [Buf.write, h, firstArgs]
    · rw [if_pos hcall, if_neg hun, if_neg (fun h => hun h.2.1)]
      exact h
  · rw [if_neg hcall, if_neg (fun h => hcall h.1)]
    exact h

/-- The passes in which a call writes a buffer, by its state at entry. -/
def written (fs : Fs) (size : Nat) (bp : Syncvnode.Buf) : List Nat :=
  if Called bp ∧ Unmarked bp ∧ ¬ KeptBack (firstArgs fs size) bp then [0] else []

/-- The private data after a call. -/
def marked (bp : Syncvnode.Buf) : Option Nat := if Called bp ∧ Unmarked bp then bp.bpriv.map setScanned else bp.bpriv

theorem bpriv_visit (ap : SyncArgs) (bp : Syncvnode.Buf) : (visit ap bp).bpriv = marked bp := by
  unfold visit marked
  by_cases hcall : Called bp
  · by_cases hun : Unmarked bp
    · rw [if_pos hcall, if_pos hun, if_pos (And.intro hcall hun)]
      split <;> rfl
    · rw [if_pos hcall, if_neg hun, if_neg fun h : _ ∧ _ => hun h.2]
  · rw [if_neg hcall, if_neg fun h : _ ∧ _ => hcall h.1]

theorem core_visit_firstArgs {fs : Fs} {size : Nat} (bp : Syncvnode.Buf) :
    core (visit (firstArgs fs size) { bp with writes := [] }) = (written fs size bp, marked bp) :=
  Prod.ext (writes_visit_firstArgs rfl) (bpriv_visit _ _)

/-- A call panics, or it returns having written every buffer of which `written` says so
and marked those it came upon. -/
theorem ffsSyncvnode_cases {fs : Fs} {size n : Nat} {sizemod : Bool} {update : Int} {bufs : List Syncvnode.Buf} {r : Round}
    (h : ffsSyncvnode n fs size sizemod update true false false bufs = some r) :
    ((∃ bp ∈ bufs, Truncated (firstArgs fs size) bp) ∧ r = .panic) ∨
      ((¬ ∃ bp ∈ bufs, Truncated (firstArgs fs size) bp) ∧
        ∃ bufs', r = .ret update bufs' ∧ bufs'.map (·.writes) = bufs.map (written fs size) ∧
          bufs'.map (·.bpriv) = bufs.map marked) := by
  have hiff : (∃ bp ∈ bufs.map (fun bp => { bp with writes := [] }), Truncated (firstArgs fs size) bp) ↔
      ∃ bp ∈ bufs, Truncated (firstArgs fs size) bp := by
    simp only [List.mem_map, exists_exists_and_eq_and]
    exact Iff.rfl
  obtain ⟨hbad, hr⟩ | ⟨hbad, bufs', hr, hcore⟩ := rounds_of_waiting (waiting_firstArgs fs size) h
  · exact .inl ⟨hiff.mp hbad, hr⟩
  · have hall : bufs'.map core = bufs.map fun bp => (written fs size bp, marked bp) := by
      rw [hcore, List.map_map]
      exact List.map_congr_left fun bp _ => core_visit_firstArgs bp
    refine .inr ⟨fun hbad' => hbad (hiff.mpr hbad'), bufs', hr, ?_, ?_⟩
    · have hfst := congrArg (List.map Prod.fst) hall
      rw [List.map_map, List.map_map] at hfst
      exact hfst
    · have hsnd := congrArg (List.map Prod.snd) hall
      rw [List.map_map, List.map_map] at hsnd
      exact hsnd

/-- A plain buffer is written, in a pass that may write it. -/
theorem synced_written {fs : Fs} {size : Nat} {bp : Syncvnode.Buf} (h : bp.delwri = true → Plain fs size bp) :
    Synced bp (written fs size bp) := by
  unfold Synced written
  split
  case isTrue hif =>
      refine ⟨fun _ => List.cons_ne_nil _ _, fun hlbn p hp => ?_⟩
      rw [List.mem_singleton.mp hp]
      exact (h hif.1.1).data hlbn
  case isFalse hif =>
      refine ⟨fun hdirty => absurd ?_ hif, fun _ p hp => nomatch hp⟩
      have hplain := h hdirty
      refine ⟨⟨hdirty, hplain.unlocked⟩, hplain.unmarked, fun hkept => ?_⟩
      obtain ⟨hlbn, hlevel⟩ := keptBack_firstArgs.mp hkept
      have := hplain.data hlbn
      omega

theorem not_truncated_of_plain {fs : Fs} {size : Nat} {bp : Syncvnode.Buf} (h : bp.delwri = true → Plain fs size bp) :
    ¬ Truncated (firstArgs fs size) bp := by
  rintro ⟨hcall, -, -, hlbn⟩
  have hwithin := (h hcall.1).within
  change fs.lblkno (size + fs.bsize - 1) < bp.lblkno at hlbn
  omega

theorem plain_of_synced {fs : Fs} {size : Nat} {bp : Syncvnode.Buf} (h : Synced bp (written fs size bp))
    (htr : ¬ Truncated (firstArgs fs size) bp) (hdirty : bp.delwri = true) : Plain fs size bp := by
  have hne := h.1 hdirty
  unfold written at hne
  split at hne
  case isFalse => exact absurd rfl hne
  case isTrue hif =>
      obtain ⟨hcall, hun, hkept⟩ := hif
      refine ⟨hcall.2, hun, fun hlbn => ?_, ?_⟩
      · by_contra hlevel
        exact hkept (keptBack_firstArgs.mpr ⟨hlbn, by omega⟩)
      · by_contra hwithin
        exact htr ⟨hcall, hun, hkept, by simpa [firstArgs] using hwithin⟩

/-- With writes that succeed, a call is durable for buffers of which every dirty one is
a data block of the file that is unlocked and has private data without a mark, and for
no others. -/
theorem fsync_durable_iff (fs : Fs) (size : Nat) (sizemod : Bool) (bufs : List Syncvnode.Buf) :
    Durable fs size sizemod 0 bufs ↔ ∀ bp ∈ bufs, bp.delwri = true → Plain fs size bp := by
  constructor
  · rintro ⟨n, -, error, bufs', hret, hsynced⟩ bp hmem
    obtain ⟨-, hpanic⟩ | ⟨hbad, bufs'', hr, hwrites, -⟩ := ffsSyncvnode_cases hret
    · cases hpanic
    · cases hr
      have hall := (forall₂_synced_iff hwrites).mp (hsynced rfl)
      exact plain_of_synced (hall bp hmem) fun htr => hbad ⟨bp, hmem, htr⟩
  · intro hplain
    obtain ⟨r, hr⟩ := ffsSyncvnode_ends fs size sizemod 0 true false false bufs
    obtain ⟨⟨bp, hmem, htr⟩, -⟩ | ⟨-, bufs', rfl, hwrites, -⟩ := ffsSyncvnode_cases hr
    · exact absurd htr (not_truncated_of_plain (hplain bp hmem))
    · refine ⟨10, Nat.le_refl 10, 0, bufs', hr, fun _ => (forall₂_synced_iff hwrites).mpr ?_⟩
      exact fun bp hmem => synced_written (hplain bp hmem)

/-- A dirty data block with private data. -/
def dataBuf : Syncvnode.Buf := { lblkno := 0, bpriv := some 0, delwri := true, locked := false, writes := [] }

/-- The block is written by one call, becomes dirty again, and is not written by the next;
neither are a data block without private data and a single indirect block, although all
three calls return 0. -/
theorem fsync_not_durable :
    ffsSyncvnode 10 tinyFs 1 false 0 true false false [dataBuf] =
        some (.ret 0 [{ dataBuf with bpriv := some BV_SCANNED, delwri := false, writes := [0] }])
      ∧ ¬ Durable tinyFs 1 false 0 [{ dataBuf with bpriv := some BV_SCANNED }]
      ∧ ¬ Durable tinyFs 1 false 0 [{ dataBuf with bpriv := none }]
      ∧ ¬ Durable tinyFs 1 false 0 [{ dataBuf with lblkno := -12 }] := by
  have hskip : ∀ bp : Syncvnode.Buf, bp.delwri = true → written tinyFs 1 bp = [] → ¬ Durable tinyFs 1 false 0 [bp] := by
    rintro bp hdirty hnone ⟨n, -, error, bufs', hret, hsynced⟩
    obtain ⟨-, hpanic⟩ | ⟨-, bufs'', hr, hwrites, -⟩ := ffsSyncvnode_cases hret
    · cases hpanic
    · cases hr
      have hall := (forall₂_synced_iff hwrites).mp (hsynced rfl) bp List.mem_cons_self
      exact hall.1 hdirty hnone
  refine ⟨by decide +kernel, hskip _ rfl (by decide +kernel), hskip _ rfl (by decide +kernel),
    hskip _ rfl (by decide +kernel)⟩

/-! ### A second call -/

end UfsX.Proofs.Syncvnode
