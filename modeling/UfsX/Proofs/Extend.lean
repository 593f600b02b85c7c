import UfsX.Ffs.Truncate
import UfsX.Proofs.BallocFail

/-!
# `UfsX.Proofs.Extend`: an extension that fails

`ffs_truncate` to a longer length calls `UFS_BALLOC` for the last byte. Before it
allocates anything there, `ffs_balloc` makes a full block of the file's last
fragment, and rounds `i_size` up to the end of that block. An error after this step
comes back to `ffs_truncate` with the rounded size, and `ffs_truncate` puts only the
length in the buffer cache back.

`ffsBalloc_intact_iff` says when a failed `ffs_balloc` leaves pointers and size alone,
`extend_untouched_iff` the same of `ffs_truncate`.
-/

set_option autoImplicit false

namespace UfsX.Proofs.Extend

open UfsX.Lib UfsX.Ufs UfsX.Ffs

/-! ### `ffs_realloccg` -/

/-- The attempt ends at the read of the old block. -/
def TryFails (t : ReallocTry) : Prop := t.space = true ∧ t.readErr.isSome = true

/-- The attempt finds no room. -/
def TryEmpty (t : ReallocTry) : Prop :=
  t.space = false ∨ t.readErr = none ∧ t.extended = false ∧ t.found = none

/-- None of the attempts comes to a larger fragment. A caller that holds a buffer
(`IO_BUFLOCKED`) gets one attempt only. -/
def Refused (c : BallocCall) (tries : Nat → ReallocTry) : Prop :=
  TryFails (tries 0) ∨
    TryEmpty (tries 0) ∧ (c.buflocked = true ∨ TryFails (tries 1) ∨ TryEmpty (tries 1))

section Realloc

variable {mp : Ump} {c : BallocCall} {t : ReallocTry} {s s' : Growth} {lbprev bprev : Int} {osize nsize : Nat}

/-- What an attempt that ends this way has found. -/
def TryEnds (t : ReallocTry) (s : Growth) : Option (Outcome BufNums) × Growth → Prop
  | (none, s') => TryEmpty t ∧ SameFile s s'
  | (some (.error _), s') => TryFails t ∧ SameFile s s'
  | (some (.ok _), _) => ¬ TryFails t ∧ ¬ TryEmpty t
  | (some .panic, _) => True

theorem realloccgPlace_ends {s₁ : Growth} (hsame : SameFile s s₁) (hspace : t.space = true) (hread : t.readErr = none)
    (bp : BufNums) : TryEnds t s (realloccgPlace mp t s₁ lbprev bprev osize nsize bp) := by
  have hfails : ¬ TryFails t := fun h => by simp [TryFails, hread] at h
  unfold realloccgPlace
  by_cases hext : t.extended = true
  · have hroom : ¬ TryEmpty t := by simp [TryEmpty, hspace, hext]
    rw [if_pos hext]
    split
    · exact ⟨hfails, hroom⟩
    · trivial
  · rw [if_neg hext]
    cases hfound : t.found with
    | some bno => exact ⟨hfails, by simp [TryEmpty, hspace, hfound]⟩
    | none => exact ⟨.inr ⟨hread, Bool.not_eq_true _ ▸ hext, hfound⟩, hsame.use _ _ _⟩

theorem realloccgTry_ends : TryEnds t s (realloccgTry mp c t s lbprev bprev osize nsize) := by
  unfold realloccgTry
  by_cases hspace : t.space = false
  · rw [if_pos hspace]
    exact ⟨.inl hspace, .refl s⟩
  rw [if_neg hspace]
  replace hspace : t.space = true := Bool.not_eq_false _ ▸ hspace
  split
  · trivial
  cases hread : t.readErr with
  | some e => exact ⟨⟨hspace, by rw [hread]; rfl⟩, .refl s⟩
  | none =>
      have hsame := sameFile_bread s c lbprev
      rcases hb : s.bread c lbprev with ⟨s₁, bp⟩
      rw [hb] at hsame
      simp only
      split
      · split
        · trivial
        · exact realloccgPlace_ends hsame hspace hread _
      · exact realloccgPlace_ends hsame hspace hread _

theorem TryFails.not_empty (h : TryFails t) : ¬ TryEmpty t := by
  rintro (hspace | ⟨hread, -⟩)
  · cases h.1.symm.trans hspace
  · have hsome := h.2
    rw [hread] at hsome
    cases hsome

/-- `ffs_realloccg` fails when it is refused, and then the file is as it was. -/
theorem ffsRealloccg_error {tries : Nat → ReallocTry} {e : Errno}
    (h : ffsRealloccg mp c tries s lbprev bprev osize nsize = (.error e, s')) : Refused c tries ∧ SameFile s s' := by
  unfold ffsRealloccg at h
  have hends : TryEnds (tries 0) s (realloccgTry mp c (tries 0) s lbprev bprev osize nsize) := realloccgTry_ends
  split at h
  · next hr =>
      obtain ⟨rfl, rfl⟩ := Prod.mk.inj h
      rw [hr] at hends
      exact ⟨.inl hends.1, hends.2⟩
  · next s₁ hr =>
      rw [hr] at hends
      obtain ⟨hempty, hsame⟩ := hends
      simp only at h
      split at h
      · next hlocked =>
          obtain ⟨-, rfl⟩ := Prod.mk.inj h
          exact ⟨.inr ⟨hempty, .inl hlocked⟩, hsame⟩
      · -- the second attempt decides
        have hends' : TryEnds (tries 1) s₁ (realloccgTry mp c (tries 1) s₁ lbprev bprev osize nsize) := realloccgTry_ends
        split at h
        · next hr' =>
            obtain ⟨rfl, rfl⟩ := Prod.mk.inj h
            rw [hr'] at hends'
            exact ⟨.inr ⟨hempty, .inr (.inl hends'.1)⟩, hsame.trans hends'.2⟩
        · next hr' =>
            obtain ⟨-, rfl⟩ := Prod.mk.inj h
            rw [hr'] at hends'
            exact ⟨.inr ⟨hempty, .inr (.inr hends'.1)⟩, hsame.trans hends'.2⟩

theorem ffsRealloccg_done {tries : Nat → ReallocTry} {bp : BufNums}
    (h : ffsRealloccg mp c tries s lbprev bprev osize nsize = (.ok bp, s')) : ¬ Refused c tries := by
  unfold ffsRealloccg at h
  have hends : TryEnds (tries 0) s (realloccgTry mp c (tries 0) s lbprev bprev osize nsize) := realloccgTry_ends
  split at h
  · next hr =>
      obtain ⟨rfl, rfl⟩ := Prod.mk.inj h
      rw [hr] at hends
      exact fun hrefused => hrefused.elim hends.1 fun hr => hends.2 hr.1
  · next s₁ hr =>
      rw [hr] at hends
      simp only at h
      split at h
      · cases (Prod.mk.inj h).1
      · next hlocked =>
          have hends' : TryEnds (tries 1) s₁ (realloccgTry mp c (tries 1) s₁ lbprev bprev osize nsize) :=
            realloccgTry_ends
          split at h
          · next hr' =>
              obtain ⟨rfl, rfl⟩ := Prod.mk.inj h
              rw [hr'] at hends'
              rintro (hfails | ⟨-, h | h | h⟩)
              · exact hfails.not_empty hends.1
              · exact hlocked h
              · exact hends'.1 h
              · exact hends'.2 h
          · cases (Prod.mk.inj h).1

end Realloc

/-! ### `ffs_balloc` -/

section Balloc

variable {mp : Ump} {c : BallocCall} {s s' : Growth} {lbn size : Nat} {e : Errno}

theorem ballocPromote_error (h : ballocPromote mp c s lbn = (.error e, s')) :
    needsPromotion mp.fs s.ip lbn = true ∧ Refused c c.promote ∧ SameFile s s' := by
  unfold ballocPromote at h
  split at h
  · next hneeds =>
      simp only at h
      split at h
      · cases (Prod.mk.inj h).1
      · next hre =>
          obtain ⟨-, rfl⟩ := Prod.mk.inj h
          exact ⟨hneeds, ffsRealloccg_error hre⟩
      · cases (Prod.mk.inj h).1
  · cases (Prod.mk.inj h).1

/-- A promotion that goes through makes the file longer. -/
theorem ballocPromote_ok (h : ballocPromote mp c s lbn = (.ok (), s')) :
    (needsPromotion mp.fs s.ip lbn = false ∧ s' = s) ∨
      (needsPromotion mp.fs s.ip lbn = true ∧ ¬ Refused c c.promote ∧ s.ip.size < s'.ip.size) := by
  have hlt : s.ip.size < (s.ip.size / mp.fs.bsize + 1) * mp.fs.bsize :=
    Nat.lt_mul_of_div_lt (Nat.lt_succ_self _) (bsize_pos mp.fs)
  unfold ballocPromote at h
  split at h
  · next hneeds =>
      simp only at h
      split at h
      · next hre =>
          obtain ⟨-, rfl⟩ := Prod.mk.inj h
          exact .inr ⟨hneeds, ffsRealloccg_done hre, hlt⟩
      · cases (Prod.mk.inj h).1
      · cases (Prod.mk.inj h).1
  · next hneeds =>
      obtain ⟨-, rfl⟩ := Prod.mk.inj h
      exact .inl ⟨Bool.not_eq_true _ ▸ hneeds, rfl⟩

theorem ballocDirect_error (h : ballocDirect mp c s lbn size = (.error e, s')) : SameFile s s' := by
  unfold ballocDirect at h
  split at h
  · cases (Prod.mk.inj h).1
  split at h
  · unfold ballocFull at h
    simp only at h
    split at h
    · split at h
      · exact (Prod.mk.inj h).2 ▸ .refl s
      · cases (Prod.mk.inj h).1
    · cases (Prod.mk.inj h).1
  · unfold ballocFragment at h
    simp only at h
    split at h
    · split at h
      · split at h
        · exact (Prod.mk.inj h).2 ▸ .refl s
        · cases (Prod.mk.inj h).1
      · split at h
        · cases (Prod.mk.inj h).1
        · next hre =>
            obtain ⟨-, rfl⟩ := Prod.mk.inj h
            exact (ffsRealloccg_error hre).2
        · cases (Prod.mk.inj h).1
    · split at h
      · exact (Prod.mk.inj h).2 ▸ .refl s
      · cases (Prod.mk.inj h).1

/-- An error after the promotion step leaves what that step made. -/
theorem ballocBlock_error (h : ballocBlock mp c s lbn size = (.error e, s')) : IntactFile mp s s' := by
  unfold ballocBlock at h
  split at h
  · exact (ballocDirect_error h).intact
  · next hdirect =>
      rcases level_cases mp.fs.nindir lbn with hlt | ⟨l, rel, hl, hrel, rfl⟩ | hbig
      · exact absurd hlt hdirect
      · rw [ufsGetlbns_path hl hrel] at h
        exact ballocIndir_intact hl hrel h
      · rw [ufsGetlbns_efbig hbig] at h
        exact (Prod.mk.inj h).2 ▸ (SameFile.refl s).intact

/-- A failed `ffs_balloc` leaves pointers and size alone exactly when there was no fragment to promote, or when it is the
promotion that failed. -/
theorem ffsBalloc_intact_iff {startoffset : Int} (h : ffsBalloc mp c s startoffset size = (.error e, s')) :
    IntactFile mp s s' ↔
      (needsPromotion mp.fs s.ip (mp.fs.lblkno startoffset).toNat = true → Refused c c.promote) := by
  unfold ffsBalloc at h
  simp only at h
  split at h
  · cases (Prod.mk.inj h).1
  split at h
  · next hneg =>
      have hzero : (mp.fs.lblkno startoffset).toNat = 0 := Int.toNat_of_nonpos hneg.le
      obtain ⟨-, rfl⟩ := Prod.mk.inj h
      rw [hzero]
      exact iff_of_true (SameFile.refl s).intact fun hneeds => by simp [needsPromotion] at hneeds
  · split at h
    · next s₁ hpromote =>
        have hintact := ballocBlock_error h
        rcases ballocPromote_ok hpromote with ⟨hneeds, rfl⟩ | ⟨hneeds, hdone, hlonger⟩
        · rw [hneeds]
          exact iff_of_true hintact fun h => by cases h
        · refine iff_of_false (fun hall => ?_) fun hrefused => hdone (hrefused hneeds)
          rw [← hintact.size, hall.size] at hlonger
          exact Nat.lt_irrefl _ hlonger
    · next hpromote =>
        obtain ⟨-, rfl⟩ := Prod.mk.inj h
        obtain ⟨-, hrefused, hsame⟩ := ballocPromote_error hpromote
        exact iff_of_true hsame.intact fun _ => hrefused
    · cases (Prod.mk.inj h).1

end Balloc

/-! ### `ffs_truncate` -/

/-- Size, length in the buffer cache, and pointer and size of every block are as before. -/
structure Untouched (mp : Ump) (f f' : UbcFile) : Prop where
  size : f'.file.ip.size = f.file.ip.size
  ubc : f'.ubc = f.ubc
  ptrs : SamePtrs mp f.file f'.file
  blksize : ∀ lbn, blksize mp.fs f'.file.ip lbn = blksize mp.fs f.file.ip lbn

/-- No fragment is made a full block on the way to the byte before `length`, and the buffer cache knows the file's size. -/
def SafeExtend (mp : Ump) (c : TruncCall) (f : UbcFile) (length : Nat) : Prop :=
  (needsPromotion mp.fs f.file.ip ((length - 1) / mp.fs.bsize) = true → Refused c.toEnd c.toEnd.promote) ∧
    ∀ n ∈ f.ubc, n = f.file.ip.size

/-- Whichever allocation of an extension fails: the file is as it was exactly when the extension was safe. -/
theorem extend_untouched_iff (mp : Ump) (c : TruncCall) (f : UbcFile) {length : Nat}
    (hlong : f.file.ip.size < length) (hmax : length ≤ c.maxfilesize) {e : Errno} {s' : Growth}
    (hfail : ffsBalloc mp { c.toEnd with clrbuf := true } f.file ((length : Int) - 1) 1 = (.error e, s')) :
    ∃ f', truncExtendUbc mp c f length = (.error e, f') ∧
      ffsTruncate mp c f.file length = some (.error e, f'.file) ∧
      (Untouched mp f f' ↔ SafeExtend mp c f length) := by
  have hlbn : (mp.fs.lblkno ((length : Int) - 1)).toNat = (length - 1) / mp.fs.bsize := by
    have hcast : (length : Int) - 1 = (length - 1 : Nat) := by omega
    rw [hcast, Fs.lblkno, ← Int.natCast_ediv, Int.toNat_natCast]
  have hintact : IntactFile mp f.file s' ↔ (needsPromotion mp.fs f.file.ip (mp.fs.lblkno ((length : Int) - 1)).toNat = true →
      Refused c.toEnd c.toEnd.promote) :=
    @ffsBalloc_intact_iff mp { c.toEnd with clrbuf := true } f.file s' 1 e _ hfail
  rw [hlbn] at hintact
  refine ⟨⟨s', (f.ubc.map fun _ => length).map fun _ => f.file.ip.size⟩, ?_, ?_, ?_⟩
  · unfold truncExtendUbc UbcFile.setsize
    simp only [hfail]
  · unfold ffsTruncate truncExtend
    rw [if_neg (by omega), if_neg (by omega), if_neg (by omega), if_pos (by omega), Int.toNat_natCast, hfail]
  · -- the buffer cache ends with the length that the file had
    have hubc : ((f.ubc.map fun _ => length).map fun _ => f.file.ip.size) = f.ubc ↔ ∀ n ∈ f.ubc, n = f.file.ip.size := by
      cases f.ubc with
      | none => simp
      | some n => simp [eq_comm]
    unfold SafeExtend
    rw [← hintact, ← hubc]
    constructor
    · intro h
      exact ⟨⟨h.ptrs, h.size⟩, h.ubc⟩
    · rintro ⟨hfile, hcache⟩
      exact ⟨hfile.size, hcache, hfile.ptrs, fun lbn => by unfold blksize; rw [hfile.size]⟩

/-- A file of one byte, in a fragment. -/
def oneByte : UbcFile where
  file := { sparseFile 1 with ip := { (sparseFile 1).ip with db := fun i => if i = 0 then 8 else 0 } }
  ubc := some 1

/-- A full disk: no block can be had. `room` says whether the fragments behind fragment 8 are free. -/
def fullDisk (room : Bool) : TruncCall where
  maxfilesize := 2 ^ 40
  toMeta := smoothCall
  toEnd :=
    { smoothCall with
      alloc := fun _ => .error .enospc
      promote := fun _ => ⟨true, none, room, none⟩
      phys := fun _ => fsbtodb tinyFs 8 }
  toEndAgain := smoothCall
  syncErr := none
  updateErr := none
  setsizeErr := none
  readErr := fun _ => none
  writeErr := fun _ => none

theorem extend_untouched_iff_oneByte :
    ∃ f', truncExtendUbc tinyUmp (fullDisk false) oneByte 16385 = (.error .enospc, f') ∧ Untouched tinyUmp oneByte f' := by
  have hfail : (ffsBalloc tinyUmp { (fullDisk false).toEnd with clrbuf := true } oneByte.file (((16385 : Nat) : Int) - 1) 1).1 =
      .error .enospc := by decide +kernel
  obtain ⟨f', hrun, -, hiff⟩ := extend_untouched_iff tinyUmp (fullDisk false) oneByte (show 1 < 16385 by decide) (by decide)
    (eq_mk_snd hfail)
  refine ⟨f', hrun, hiff.mpr ⟨fun _ => ?_, by simp [oneByte, sparseFile]⟩⟩
  exact .inr ⟨.inr ⟨rfl, rfl, rfl⟩, .inr (.inr (.inr ⟨rfl, rfl, rfl⟩))⟩

/-- The fragment grows to a block, and the block behind it is not to be had: the file of one byte now has 16384, while the
buffer cache is told 1. -/
theorem not_extend_untouched :
    ∃ f', truncExtendUbc tinyUmp (fullDisk true) oneByte 16385 = (.error .enospc, f') ∧
      f'.file.ip.size = 16384 ∧ f'.ubc = some 1 ∧ ¬ Untouched tinyUmp oneByte f' := by
  have hrun : (truncExtendUbc tinyUmp (fullDisk true) oneByte 16385).1 = .error .enospc := by decide +kernel
  have hsize : (truncExtendUbc tinyUmp (fullDisk true) oneByte 16385).2.file.ip.size = 16384 := by decide +kernel
  have hubc : (truncExtendUbc tinyUmp (fullDisk true) oneByte 16385).2.ubc = some 1 := by decide +kernel
  refine ⟨_, eq_mk_snd hrun, hsize, hubc, fun h => ?_⟩
  have hkept := h.size
  rw [hsize] at hkept
  exact absurd hkept (by decide)

end UfsX.Proofs.Extend
