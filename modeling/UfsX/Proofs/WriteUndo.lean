import UfsX.Ffs.WriteUndo
import UfsX.Proofs.Bmap
import UfsX.Proofs.Consistent
import UfsX.Proofs.Write

/-!
# `UfsX.Proofs.WriteUndo`: is a failed write undone?

The loop over the blocks of a request ends at the first block with an error, with something
left to write (`transfer_spec`). `ffs_extwrite` computes the old offset from what is left;
`ffs_write` subtracts what is left where it should add it, and never gets the old offset back.
An offset that was moved to the end of the file for `IO_APPEND` is not moved back by either.
-/

set_option autoImplicit false

namespace UfsX.Proofs.WriteUndo

open UfsX.Lib UfsX.Ufs UfsX.Ffs UfsX.Ffs.WriteUndo
open UfsX.Ffs.Write (Ioflag scan)
open UfsX.Proofs (bsize_pos le_lastblock)

/-! ### What is asked for -/

/-- Where the call returns an error, the request and the size are as they were. -/
def Undone (o n size : Nat) (r : Option Result) : Prop :=
  ∀ error size' uio, r = some (.ret error size' uio) → error ≠ 0 → uio = ⟨o, n⟩ ∧ size' = size

/-- `ffs_write` with enough rounds for its loop. -/
def WriteUndone (env : Env) (fs : Fs) (maxfilesize : UInt64) (ioflag : Ioflag) (vp : File) (o n : Nat) : Prop :=
  ∃ rounds, ∀ fuel, rounds ≤ fuel → Undone o n vp.size (ffsWrite env fs maxfilesize ioflag fuel vp o n)

/-- `ffs_extwrite` with enough rounds for its loop. -/
def ExtwriteUndone (env : Env) (fs : Fs) (ioflag : Ioflag) (vp : File) (o n : Nat) : Prop :=
  ∃ rounds, ∀ fuel, rounds ≤ fuel → Undone o n vp.extsize (ffsExtwrite env fs ioflag fuel vp o n)

/-- `ffs_extwrite` panics. -/
def ExtwritePanics (env : Env) (fs : Fs) (ioflag : Ioflag) (vp : File) (o n : Nat) : Prop :=
  ∃ rounds, ∀ fuel, rounds ≤ fuel → ffsExtwrite env fs ioflag fuel vp o n = some .panic

/-- No block of the request fails. -/
def NoFailure (env : Env) (fs : Fs) (o n : Nat) : Prop := ∀ x, o ≤ x → x < o + n → (env.rounds (x / fs.bsize)).error = 0

/-- When a failed `ffs_write` is undone. A regular file must not have had the offset moved to its
end, unless the call goes on into the loop that has no end, or the cluster layer takes an
empty request. For a symbolic link no block may fail. -/
def WriteOk (env : Env) (fs : Fs) (maxfilesize : UInt64) (ioflag : Ioflag) (vp : File) (o n : Nat) : Prop :=
  ioflag.ext = true ∨
    match vp.vtype with
    | .vreg =>
        ioflag.append = false ∨ o = vp.size ∨
          toU64 (vp.size + n) ≤ maxfilesize.toNat ∧ (0 < n ∨ env.clusterErr = 0)
    | .vlnk => maxfilesize.toNat < toU64 (o + n) ∨ NoFailure env fs o n
    | .other => True

/-- Where `ffs_extwrite` writes. -/
def extStart (ioflag : Ioflag) (vp : File) (o : Nat) : Nat := if ioflag.append then vp.extsize else o

/-- When a failed `ffs_extwrite` is undone: the offset was not moved to the end of the area, or
there is no failure, or the panic comes first. -/
def ExtwriteOk (env : Env) (fs : Fs) (ioflag : Ioflag) (vp : File) (o n : Nat) : Prop :=
  ioflag.append = false ∨ o = vp.extsize ∨
    extStart ioflag vp o + n ≤ nxaddr * fs.bsize ∧ (0 < vp.extsize ∨ NoFailure env fs (extStart ioflag vp o) n)

/-! ### The loop -/

section Transfer

variable {env : Env} {fs : Fs} {rounds : Nat → Round}

theorem error_eq_zero_iff (r : Round) : r.error = 0 ↔ r.ballocErr = 0 ∧ r.moveErr = 0 := by
  unfold Round.error
  by_cases h : r.ballocErr ≠ 0
  · rw [if_pos h]
    exact ⟨fun h' => absurd h' h, fun h' => h'.1⟩
  · rw [if_neg h]
    exact ⟨fun h' => ⟨not_not.mp h, h'⟩, fun h' => h'.2⟩

/-- The part of a block that is written fits into the block's buffer. -/
theorem le_sblksize {size off x : Nat} (hx : x ≤ fs.bsize) (hsize : off + x ≤ size) :
    x ≤ sblksize fs size (off / fs.bsize) := by
  unfold sblksize
  split
  case isTrue => exact hx
  case isFalse hlast =>
    rw [not_or] at hlast
    exact le_trans (Nat.le_add_left _ _) (le_lastblock hsize (not_le.mp hlast.2))

/-- The blocks of a request are those of its first transfer and those of the rest. -/
theorem noFailure_step {o n x : Nat} (hx : x = min (fs.bsize - o % fs.bsize) n) (hn : 0 < n) :
    NoFailure env fs o n ↔ (env.rounds (o / fs.bsize)).error = 0 ∧ NoFailure env fs (o + x) (n - x) := by
  have hmod := Nat.mod_lt o (bsize_pos fs)
  have hfirst : ∀ y, o ≤ y → y < o + x → y / fs.bsize = o / fs.bsize := by
    intro y hlo hhi
    have hdm := Nat.div_add_mod o fs.bsize
    refine Nat.div_eq_of_lt_le ?_ ?_
    · rw [Nat.mul_comm]
      omega
    · rw [Nat.add_mul, Nat.one_mul, Nat.mul_comm]
      omega
  constructor
  · intro h
    exact ⟨h o (le_refl _) (by omega), fun y hlo hhi => h y (by omega) (by omega)⟩
  · rintro ⟨hone, hrest⟩ y hlo hhi
    by_cases hy : y < o + x
    · rw [hfirst y hlo hy]
      exact hone
    · exact hrest y (by omega) (by omega)

/-- The loop comes to an end: without an error when everything has been written, with one when
something is left. -/
theorem transfer_spec (env : Env) (fs : Fs) {fuel size o n : Nat} (hfuel : n < fuel) :
    ∃ e size' mv, transfer fs env.rounds fuel size o n = some (e, size', o + mv, n - mv) ∧ size ≤ size' ∧
      (e = 0 ∧ mv = n ∧ NoFailure env fs o n ∨ e ≠ 0 ∧ mv < n ∧ ¬ NoFailure env fs o n) := by
  induction fuel generalizing size o n with
  | zero => omega
  | succ fuel ih =>
      unfold transfer
      by_cases hn : n = 0
      · rw [if_pos hn]
        refine ⟨0, size, 0, rfl, le_refl _, .inl ⟨rfl, hn.symm, fun x hlo hhi => ?_⟩⟩
        omega
      · rw [if_neg hn]
        have hmod := Nat.mod_lt o (bsize_pos fs)
        have hstep := @noFailure_step env fs o n _ rfl (Nat.pos_of_ne_zero hn)
        have hzero := error_eq_zero_iff (env.rounds (o / fs.bsize))
        generalize hx : min (fs.bsize - o % fs.bsize) n = x at hstep
        dsimp only
        by_cases hballoc : (env.rounds (o / fs.bsize)).ballocErr ≠ 0
        · rw [if_pos hballoc]
          refine ⟨_, _, 0, rfl, Nat.le_add_right _ _, .inr ⟨hballoc, by omega, fun h => ?_⟩⟩
          exact hballoc (hzero.mp (hstep.mp h).1).1
        · rw [if_neg hballoc]
          have hfits : min (sblksize fs (max (size + (env.rounds (o / fs.bsize)).grown) (o + x)) (o / fs.bsize)) x = x :=
            min_eq_right (le_sblksize (by omega) (le_max_right _ _))
          rw [hfits]
          by_cases hmove : (env.rounds (o / fs.bsize)).moveErr ≠ 0
          · rw [if_pos (.inl hmove)]
            refine ⟨_, _, (env.rounds (o / fs.bsize)).bytes x, rfl, by omega, .inr ⟨hmove, ?_, fun h => ?_⟩⟩
            · unfold Round.bytes
              rw [if_neg hmove]
              omega
            · exact hmove (hzero.mp (hstep.mp h).1).2
          · rw [if_neg (by omega)]
            have hbytes : (env.rounds (o / fs.bsize)).bytes x = x := if_pos (not_not.mp hmove)
            rw [hbytes]
            obtain ⟨e, size', mv, heq, hsize, hcases⟩ :=
              @ih (max (size + (env.rounds (o / fs.bsize)).grown) (o + x)) (o + x) (n - x) (by omega)
            have hok : (env.rounds (o / fs.bsize)).error = 0 := hzero.mpr ⟨not_not.mp hballoc, not_not.mp hmove⟩
            refine ⟨e, size', x + mv, ?_, by omega, ?_⟩
            · rw [heq, Nat.add_assoc, Nat.sub_sub]
            · rw [hstep]
              rcases hcases with ⟨he, hmv, hrest⟩ | ⟨he, hmv, hrest⟩
              · exact .inl ⟨he, by omega, hok, hrest⟩
              · exact .inr ⟨he, by omega, fun h => hrest h.2⟩

end Transfer

/-! ### A result -/

section Result

variable {o n size : Nat}

theorem undone_none : Undone o n size none := by
  intro error size' uio h
  cases h

theorem undone_panic : Undone o n size (some .panic) := by
  intro error size' uio h
  cases h

theorem undone_ret {error size' : Nat} {uio : Req} :
    Undone o n size (some (.ret error size' uio)) ↔ (error ≠ 0 → uio = ⟨o, n⟩ ∧ size' = size) := by
  constructor
  · intro h he
    exact h error size' uio rfl he
  · intro h error' size'' uio' heq
    cases heq
    exact h

end Result

/-! ### `ffs_write` -/

section Write

variable {env : Env} {fs : Fs} {maxfilesize : UInt64} {ioflag : Ioflag} {vp : File}

/-- The loop of a regular file has no end, except for an empty request. -/
theorem writeAt_vreg_undone (hunit : ioflag.unit = true) (hv : vp.vtype = .vreg) (fuel start o n : Nat) :
    Undone o n vp.size (writeAt env fs maxfilesize ioflag fuel vp start n) ↔
      start = o ∨ toU64 (start + n) ≤ maxfilesize.toNat ∧ (0 < n ∨ env.clusterErr = 0) := by
  unfold writeAt
  by_cases hbig : maxfilesize.toNat < toU64 (start + n)
  · rw [if_pos hbig, undone_ret]
    constructor
    · intro h
      have huio := (h (by decide)).1
      simp only [Req.mk.injEq, and_true, Nat.cast_inj] at huio
      exact .inl huio
    · rintro (rfl | ⟨hle, -⟩)
      · exact fun _ => ⟨rfl, rfl⟩
      · omega
  · rw [if_neg hbig, if_pos hv]
    rcases Nat.eq_zero_or_pos n with rfl | hn
    · have hscan : scan fs fuel { ubcResid := (0 : Nat), resid := (0 : Nat), filepos := start, xfersize := fs.bsize }
          = some { ubcResid := (0 : Nat), resid := (0 : Nat), filepos := start, xfersize := fs.bsize } := by
        cases fuel with
        | zero => exact if_neg (by simp)
        | succ fuel => exact if_neg (by simp)
      have hkeep : truncateNormal vp vp.size = vp.size := if_neg (by simp [hv])
      rw [hscan]
      dsimp only [Option.map_some]
      unfold finish
      by_cases he : env.clusterErr ≠ 0
      · rw [if_pos ⟨he, hunit⟩, undone_ret, hkeep]
        constructor
        · intro h
          have hoff := (h he).1
          simp only [Nat.min_zero, Req.mk.injEq] at hoff
          omega
        · rintro (rfl | ⟨-, hlt | hz⟩)
          · intro _
            simp
          · omega
          · exact absurd hz he
      · rw [if_neg (fun h => he h.1), undone_ret]
        exact ⟨fun _ => .inr ⟨by omega, .inr (not_not.mp he)⟩, fun _ h => absurd h he⟩
    · rw [Proofs.Write.scan_diverges fs (by simpa using hn) fuel]
      exact ⟨fun _ => .inr ⟨by omega, .inl hn⟩, fun _ => undone_none⟩

/-- What is left of a failed write to a symbolic link is subtracted twice. -/
theorem writeAt_vlnk_undone (hunit : ioflag.unit = true) (hv : vp.vtype = .vlnk) {fuel o n : Nat} (hfuel : n < fuel) :
    Undone o n vp.size (writeAt env fs maxfilesize ioflag fuel vp o n) ↔
      maxfilesize.toNat < toU64 (o + n) ∨ NoFailure env fs o n := by
  unfold writeAt
  by_cases hbig : maxfilesize.toNat < toU64 (o + n)
  · rw [if_pos hbig, undone_ret]
    exact ⟨fun _ => .inl hbig, fun _ _ => ⟨rfl, rfl⟩⟩
  · rw [if_neg hbig, if_neg (by simp [hv])]
    obtain ⟨e, size', mv, heq, -, ⟨he, -, hok⟩ | ⟨he, hmv, hfail⟩⟩ := @transfer_spec env fs fuel vp.size o n hfuel
    · rw [heq]
      dsimp only [Option.map_some]
      unfold finish
      rw [if_neg (fun h => h.1 he), undone_ret]
      exact ⟨fun _ => .inr hok, fun _ h => absurd he h⟩
    · rw [heq]
      dsimp only [Option.map_some]
      unfold finish
      rw [if_pos ⟨he, hunit⟩, undone_ret]
      constructor
      · intro h
        have hoff := (h he).1
        simp only [Req.mk.injEq] at hoff
        omega
      · rintro (hlt | hok)
        · exact absurd hlt hbig
        · exact absurd hok hfail

theorem writeUndone_iff (hunit : ioflag.unit = true) (o n : Nat) :
    WriteUndone env fs maxfilesize ioflag vp o n ↔ WriteOk env fs maxfilesize ioflag vp o n := by
  -- With `n + 1` rounds the answer is the same for every larger number.
  suffices h : ∀ fuel, n < fuel →
      (Undone o n vp.size (ffsWrite env fs maxfilesize ioflag fuel vp o n) ↔
        WriteOk env fs maxfilesize ioflag vp o n) by
    constructor
    · rintro ⟨rounds, hr⟩
      exact (h (max rounds (n + 1)) (by omega)).mp (hr _ (le_max_left _ _))
    · intro hok
      exact ⟨n + 1, fun fuel hfuel => (h fuel (by omega)).mpr hok⟩
  intro fuel hfuel
  unfold ffsWrite WriteOk
  cases hext : ioflag.ext with
  | true => simp [undone_panic]
  | false =>
      simp only [Bool.false_eq_true, if_false, false_or]
      cases hv : vp.vtype with
      | other => simp [undone_panic]
      | vlnk => exact writeAt_vlnk_undone hunit hv hfuel
      | vreg =>
          dsimp only
          cases happ : ioflag.append with
          | true =>
              simp only [if_true, ne_eq, not_true_eq_false, and_false, if_false, Bool.true_eq_false, false_or]
              rw [writeAt_vreg_undone hunit hv, eq_comm]
          | false =>
              simp only [Bool.false_eq_true, if_false, true_or, iff_true]
              split
              case isTrue => exact undone_ret.mpr fun _ => ⟨rfl, rfl⟩
              case isFalse => exact (writeAt_vreg_undone hunit hv fuel o o n).mpr (.inl rfl)

end Write

/-! ### `ffs_extwrite` -/

section Extwrite

variable {env : Env} {fs : Fs} {ioflag : Ioflag} {vp : File}

/-- The loop makes the area longer only, so that an area with data still has some after it. -/
theorem finishExt_failed (hunit : ioflag.unit = true) {e size' start mv n : Nat} (he : e ≠ 0) (hmv : mv < n)
    (hsize : vp.extsize ≤ size') :
    finishExt vp ioflag n e size' ⟨(start + mv : Nat), (n - mv : Nat)⟩ =
      if 0 < vp.extsize then .panic else .ret e vp.extsize ⟨start, n⟩ := by
  have hmoved : ((start + mv : Nat) : Int) - (n - (n - mv : Nat)) = start := by omega
  unfold finishExt truncateExt
  rw [if_pos ⟨he, hunit⟩]
  by_cases hold : 0 < vp.extsize
  · rw [if_pos hold, if_pos (by omega), if_pos (by omega)]
  · have hzero : vp.extsize = 0 := by omega
    rw [if_neg hold, hmoved, hzero]
    by_cases hnew : 0 < size'
    · rw [if_pos hnew, if_neg (by omega)]
    · rw [if_neg hnew, show size' = 0 by omega]

/-- How a call ends: refused, complete, or with a failure. Then the panic comes if the area was
not empty, and otherwise the area is empty again. -/
theorem ffsExtwrite_cases (hunit : ioflag.unit = true) {fuel o n : Nat} (hfuel : n < fuel) :
    (nxaddr * fs.bsize < extStart ioflag vp o + n ∧
        ffsExtwrite env fs ioflag fuel vp o n = some (.ret EFBIG vp.extsize ⟨extStart ioflag vp o, n⟩)) ∨
      (extStart ioflag vp o + n ≤ nxaddr * fs.bsize ∧ NoFailure env fs (extStart ioflag vp o) n ∧
        ∃ size' uio, ffsExtwrite env fs ioflag fuel vp o n = some (.ret 0 size' uio)) ∨
      (extStart ioflag vp o + n ≤ nxaddr * fs.bsize ∧ ¬ NoFailure env fs (extStart ioflag vp o) n ∧
        if 0 < vp.extsize then ffsExtwrite env fs ioflag fuel vp o n = some .panic
        else ∃ e, e ≠ 0 ∧
          ffsExtwrite env fs ioflag fuel vp o n = some (.ret e vp.extsize ⟨extStart ioflag vp o, n⟩)) := by
  have hdef : ffsExtwrite env fs ioflag fuel vp o n =
      if nxaddr * fs.bsize < extStart ioflag vp o + n then some (.ret EFBIG vp.extsize ⟨extStart ioflag vp o, n⟩)
      else
        (transfer fs env.rounds fuel vp.extsize (extStart ioflag vp o) n).map fun r =>
          finishExt vp ioflag n r.1 r.2.1 ⟨r.2.2.1, r.2.2.2⟩ := rfl
  rw [hdef]
  generalize extStart ioflag vp o = start
  by_cases hbig : nxaddr * fs.bsize < start + n
  · exact .inl ⟨hbig, if_pos hbig⟩
  · rw [if_neg hbig]
    have hle : start + n ≤ nxaddr * fs.bsize := not_lt.mp hbig
    obtain ⟨e, size', mv, heq, hsize, ⟨he, -, hok⟩ | ⟨he, hmv, hfail⟩⟩ :=
      @transfer_spec env fs fuel vp.extsize start n hfuel
    · refine .inr (.inl ⟨hle, hok, size', ⟨(start + mv : Nat), (n - mv : Nat)⟩, ?_⟩)
      rw [heq, he]
      dsimp only [Option.map_some]
      unfold finishExt
      rw [if_neg (fun h => h.1 rfl)]
    · refine .inr (.inr ⟨hle, hfail, ?_⟩)
      rw [heq]
      dsimp only [Option.map_some]
      rw [finishExt_failed hunit he hmv hsize]
      by_cases hold : 0 < vp.extsize
      · rw [if_pos hold, if_pos hold]
      · rw [if_neg hold, if_neg hold]
        exact ⟨e, he, rfl⟩

theorem extwriteUndone_iff (hunit : ioflag.unit = true) (o n : Nat) :
    ExtwriteUndone env fs ioflag vp o n ↔ ExtwriteOk env fs ioflag vp o n := by
  have hstart : extStart ioflag vp o = o ↔ ioflag.append = false ∨ o = vp.extsize := by
    unfold extStart
    cases ioflag.append with
    | true => simp [eq_comm]
    | false => simp
  have hret : ∀ e, e ≠ 0 →
      (Undone o n vp.extsize (some (.ret e vp.extsize ⟨extStart ioflag vp o, n⟩)) ↔ extStart ioflag vp o = o) := by
    intro e he
    rw [undone_ret]
    simp [he]
  suffices h : ∀ fuel, n < fuel →
      (Undone o n vp.extsize (ffsExtwrite env fs ioflag fuel vp o n) ↔ ExtwriteOk env fs ioflag vp o n) by
    constructor
    · rintro ⟨rounds, hr⟩
      exact (h (max rounds (n + 1)) (by omega)).mp (hr _ (le_max_left _ _))
    · intro hok
      exact ⟨n + 1, fun fuel hfuel => (h fuel (by omega)).mpr hok⟩
  intro fuel hfuel
  unfold ExtwriteOk
  rw [← or_assoc, ← hstart]
  rcases @ffsExtwrite_cases env fs ioflag vp hunit fuel o n hfuel with ⟨hbig, heq⟩ | ⟨hle, hok, size', uio, heq⟩ | ⟨hle, hfail, hend⟩
  · rw [heq, hret EFBIG (by decide)]
    constructor
    · exact .inl
    · rintro (h | ⟨hle, -⟩)
      · exact h
      · omega
  · rw [heq, undone_ret]
    exact ⟨fun _ => .inr ⟨hle, .inr hok⟩, fun _ h => absurd rfl h⟩
  · by_cases hold : 0 < vp.extsize
    · rw [if_pos hold] at hend
      rw [hend]
      exact ⟨fun _ => .inr ⟨hle, .inl hold⟩, fun _ => undone_panic⟩
    · rw [if_neg hold] at hend
      obtain ⟨e, he, heq⟩ := hend
      rw [heq, hret e he]
      constructor
      · exact .inl
      · rintro (h | ⟨-, hpos | hok⟩)
        · exact h
        · exact absurd hpos hold
        · exact absurd hok hfail

theorem extwritePanics_iff (hunit : ioflag.unit = true) (o n : Nat) :
    ExtwritePanics env fs ioflag vp o n ↔
      extStart ioflag vp o + n ≤ nxaddr * fs.bsize ∧ 0 < vp.extsize ∧ ¬ NoFailure env fs (extStart ioflag vp o) n := by
  suffices h : ∀ fuel, n < fuel →
      (ffsExtwrite env fs ioflag fuel vp o n = some .panic ↔
        extStart ioflag vp o + n ≤ nxaddr * fs.bsize ∧ 0 < vp.extsize ∧
          ¬ NoFailure env fs (extStart ioflag vp o) n) by
    constructor
    · rintro ⟨rounds, hr⟩
      exact (h (max rounds (n + 1)) (by omega)).mp (hr _ (le_max_left _ _))
    · intro hok
      exact ⟨n + 1, fun fuel hfuel => (h fuel (by omega)).mpr hok⟩
  intro fuel hfuel
  rcases @ffsExtwrite_cases env fs ioflag vp hunit fuel o n hfuel with ⟨hbig, heq⟩ | ⟨hle, hok, size', uio, heq⟩ | ⟨hle, hfail, hend⟩
  · rw [heq]
    constructor
    · intro h
      cases h
    · rintro ⟨hle, -⟩
      omega
  · rw [heq]
    constructor
    · intro h
      cases h
    · rintro ⟨-, -, hfail⟩
      exact absurd hok hfail
  · by_cases hold : 0 < vp.extsize
    · rw [if_pos hold] at hend
      exact ⟨fun _ => ⟨hle, hold, hfail⟩, fun _ => hend⟩
    · rw [if_neg hold] at hend
      obtain ⟨e, -, heq⟩ := hend
      rw [heq]
      constructor
      · intro h
        cases h
      · rintro ⟨-, hpos, -⟩
        exact absurd hpos hold

end Extwrite

/-! ### Both -/

/-- No block can be allocated. -/
def fullDisk : Env := { rounds := fun _ => ⟨28, 0, 0, 0⟩, clusterErr := 0, clusterMoved := 0 }

def emptyLink : File := { vtype := .vlnk, size := 0, append := false, shortlink := true, extsize := 0 }

/-- Exactly when a failed write with `IO_UNIT` is undone, for `ffs_write` and for
`ffs_extwrite`, and exactly when the latter panics over an area that was not empty. -/
theorem undone_iff (env : Env) (fs : Fs) (maxfilesize : UInt64) (ioflag : Ioflag) (hunit : ioflag.unit = true)
    (vp : File) (o n : Nat) :
    (WriteUndone env fs maxfilesize ioflag vp o n ↔ WriteOk env fs maxfilesize ioflag vp o n) ∧
      (ExtwriteUndone env fs ioflag vp o n ↔ ExtwriteOk env fs ioflag vp o n) ∧
      (ExtwritePanics env fs ioflag vp o n ↔
        extStart ioflag vp o + n ≤ nxaddr * fs.bsize ∧ 0 < vp.extsize ∧
          ¬ NoFailure env fs (extStart ioflag vp o) n) :=
  ⟨writeUndone_iff hunit o n, extwriteUndone_iff hunit o n, extwritePanics_iff hunit o n⟩

/-- One byte goes to an empty attribute area that has no block: the failure is undone. -/
theorem undone_full_disk :
    ExtwriteUndone fullDisk tinyFs ⟨false, false, false, true⟩ emptyLink 0 1 ∧
      ¬ ExtwritePanics fullDisk tinyFs ⟨false, false, false, true⟩ emptyLink 0 1 := by
  have h := undone_iff fullDisk tinyFs 1000000 ⟨false, false, false, true⟩ rfl emptyLink 0 1
  refine ⟨h.2.1.mpr (.inl rfl), ?_⟩
  rw [h.2.2]
  rintro ⟨-, hpos, -⟩
  exact absurd hpos (by decide)

/-- A failed write of one byte at offset 0 to a symbolic link leaves the offset at −2. The same
write to an attribute area with data is a panic. -/
theorem vlnk_offset_negative :
    (∀ fuel, 1 < fuel →
        ffsWrite fullDisk tinyFs 1000000 ⟨false, false, false, true⟩ fuel emptyLink 0 1 = some (.ret 28 0 ⟨-2, 1⟩)) ∧
      ¬ WriteUndone fullDisk tinyFs 1000000 ⟨false, false, false, true⟩ emptyLink 0 1 ∧
      ffsExtwrite fullDisk tinyFs ⟨false, false, false, true⟩ 2 { emptyLink with extsize := 1 } 0 1 = some .panic := by
  have hret : ∀ fuel, 1 < fuel →
      ffsWrite fullDisk tinyFs 1000000 ⟨false, false, false, true⟩ fuel emptyLink 0 1 = some (.ret 28 0 ⟨-2, 1⟩) := by
    intro fuel hfuel
    cases fuel with
    | zero => omega
    | succ fuel => rfl
  refine ⟨hret, ?_, by decide⟩
  rintro ⟨rounds, hr⟩
  have h := hr (max rounds 2) (le_max_left _ _) 28 0 ⟨-2, 1⟩ (hret _ (by omega)) (by decide)
  exact absurd h.1 (by decide)

end UfsX.Proofs.WriteUndo
