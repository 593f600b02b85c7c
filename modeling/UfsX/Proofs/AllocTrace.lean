import UfsX.Proofs.AllocQuota
import UfsX.Proofs.Balloc

/-!
# `UfsX.Proofs.AllocTrace`: the passes of `ffs_alloc` and `ffs_realloccg`

`allocMeets` and `realloccgMeets` say what a pass meets in terms of the state before it, and
`allocPass_end` and `realloccgPass_end` that the pass ends accordingly.

`alloc_exact_iff` is the result for both functions. The buffer that a failing `bread` leaves,
the charge that grows with each pass without space, a group that cannot be read and an
`i_blocks` that overflows are all that can go wrong.
-/

set_option autoImplicit false

namespace UfsX.Proofs.AllocQuota

open UfsX.Lib UfsX.Ufs UfsX.Ffs UfsX.Ffs.Quota UfsX.Proofs.Quota

variable {mp : Ump} {c : AllocCall}

/-! ### Charges -/

theorem chkdq_eq {f : AllocState} {change : Int} {force : Bool} {e : Option Errno} {dqs : Dquots}
    (h : Ufs.chkdq c.quota f.dquots change force = (e, dqs)) : f.chkdq c change force = (e, { f with dquots := dqs }) := by
  unfold AllocState.chkdq
  rw [h]

/-- A negative number of blocks, as `btodb` has it. -/
theorem toU32_neg {n : Nat} (hn : 0 < n) (hlt : n < 2 ^ 32) : toU32 (-(n : Int)) = ((2 ^ 32 - n : Nat) : Int) := by
  unfold toU32
  rw [show -(n : Int) = ((2 ^ 32 - n : Nat) : Int) - 2 ^ 32 by omega, Int.sub_emod_right]
  exact Int.emod_eq_of_lt (by omega) (by omega)

/-- A charge of `n` blocks that is given back. -/
theorem charged_back {n : Nat} {dqs dqs' : Dquots} (hn : 0 < n) (hlt : n < 2 ^ 32) (hfit : ChargesBelow (2 ^ 63 - 2 ^ 32) dqs)
    (h : Ufs.chkdq c.quota dqs n false = (none, dqs')) :
    Charged (due c.quota (2 ^ 32)) dqs (Ufs.chkdq c.quota dqs' (toU32 (-(n : Int))) true).2 := by
  have hcharge := chkdq_granted hn hlt (hfit.mono (by norm_num)) h
  have hfit' : ChargesBelow (2 ^ 63) dqs' := by
    refine (hcharge.below hfit).mono ?_
    unfold due
    split <;> omega
  rw [toU32_neg hn hlt]
  have hback : Charged (due c.quota ((2 ^ 32 - n : Nat) : Int)) dqs'
      (Ufs.chkdq c.quota dqs' ((2 ^ 32 - n : Nat) : Int) true).2 :=
    chkdq_granted (by omega) (by omega) hfit' (Prod.ext (chkdq_forced (by omega)) rfl)
  have hsum : due c.quota n + due c.quota ((2 ^ 32 - n : Nat) : Int) = due c.quota (2 ^ 32) := by
    rw [due_add, show (n : Int) + ((2 ^ 32 - n : Nat) : Int) = 2 ^ 32 by omega]
  rw [← hsum]
  exact hcharge.trans hback

/-- The device blocks of up to a block of fragments. -/
theorem btodb_bounds (mp : Ump) {k : Nat} (hk : 0 < k) (hkf : k ≤ mp.fs.frag) :
    0 < btodb mp (k * mp.fs.fsize) ∧ btodb mp (k * mp.fs.fsize) < 2 ^ 32 := by
  have hle : mp.devbsize ≤ k * mp.fs.fsize :=
    (Nat.le_of_dvd mp.fs.fsize_pos mp.devbsize_dvd).trans (Nat.le_mul_of_pos_left _ hk)
  have hbsize : mp.fs.bsize ≤ 2 ^ 20 := Nat.pow_le_pow_right (by decide) mp.fs.bshift_le
  have hsize : k * mp.fs.fsize ≤ mp.fs.bsize := by
    rw [mp.fs.bsize_eq]
    exact Nat.mul_le_mul_right _ hkf
  have hdiv : btodb mp (k * mp.fs.fsize) ≤ k * mp.fs.fsize := Nat.div_le_self _ _
  exact ⟨Nat.div_pos hle mp.devbsize_pos, by omega⟩

/-! ### `ffs_alloc` -/

/-- What pass `k` of `ffs_alloc` meets. -/
def allocMeets (mp : Ump) (c : AllocCall) (bpref size k : Nat) (f : AllocState) : Meets where
  short := False
  read := True
  denied := Denied c (btodb mp size) f.dquots
  gains := ¬ noBlocks mp size f.st ∧ Found mp.fs f.st (c.gerr k) size
    (triesFrom mp.fs (startGroup mp c (checkPref mp bpref)) (checkPref mp bpref))
  readable := noBlocks mp size f.st ∨ Readable mp.fs f.st (c.gerr k) size
    (triesFrom mp.fs (startGroup mp c (checkPref mp bpref)) (checkPref mp bpref))
  optim := f.optim

theorem group_eq {b : Nat} (hb : mp.fs.dtog b < mp.fs.ncg) : (toU32 (toI32 (mp.fs.dtog b))).toNat = mp.fs.dtog b := by
  have hlt := mp.fs.ncg_lt
  rw [toU32_toI32, toU32_eq_self (by omega) (by omega)]
  rfl

theorem dtog_lt {b : Nat} (hgeo : mp.fs.size ≤ mp.fs.fpg * mp.fs.ncg) (hb : b < mp.fs.size) : mp.fs.dtog b < mp.fs.ncg :=
  Nat.div_lt_of_lt_mul (hb.trans_le hgeo)

theorem checkPref_lt {bpref : Nat} (h : checkPref mp bpref ≠ 0) : checkPref mp bpref < mp.fs.size := by
  unfold checkPref at h ⊢
  split
  · next hout => exact absurd (if_pos hout) h
  · omega

theorem startGroup_lt (bpref : Nat) (hgeo : mp.fs.size ≤ mp.fs.fpg * mp.fs.ncg) (hino : mp.fs.inoToCg c.inumber < mp.fs.ncg) :
    startGroup mp c (checkPref mp bpref) < mp.fs.ncg := by
  unfold startGroup
  by_cases h0 : checkPref mp bpref = 0
  · rw [if_pos h0]
    exact hino
  · have hlt := dtog_lt hgeo (checkPref_lt h0)
    rw [if_neg h0, group_eq hlt]
    exact hlt

/-- The charge is taken, and so is the lock again. -/
def taken (f : AllocState) (dqs : Dquots) : AllocState := { f with st := (f.st.emit .unlock).emit .lock, dquots := dqs }

/-- A pass from the charge on. -/
theorem allocPass_granted {bpref size k : Nat} {f : AllocState} {dqs : Dquots}
    (h : Ufs.chkdq c.quota f.dquots (btodb mp size) false = (none, dqs)) :
    allocPass mp c bpref size k f =
      if noBlocks mp size f.st then .ok (.nospace none, (taken f dqs).giveBack c (btodb mp size))
      else
        match hashalloc mp c k (taken f dqs) (startGroup mp c (checkPref mp bpref)) (checkPref mp bpref) size size with
        | .error t => .error t
        | .ok (bno, f) =>
            if bno ≠ 0 then .ok (.done (.ok bno), f.addBlocks (btodb mp size))
            else .ok (.nospace none, f.giveBack c (btodb mp size)) := by
  have hchkdq : (f.emit .unlock).chkdq c (btodb mp size) false = (none, { f.emit .unlock with dquots := dqs }) := chkdq_eq h
  unfold allocPass
  simp only [hchkdq]
  all_goals rfl

theorem hashalloc_eq {k cg bpref size rsize r : Nat} {f : AllocState} {s' : State}
    (h : ffsHashalloc mp.fs (blockAllocator mp.fs (c.gerr k) size rsize) f.st cg bpref = .ok (r, s')) :
    hashalloc mp c k f cg bpref size rsize = .ok (r, { f with st := s' }) := by
  unfold hashalloc
  rw [h]

theorem allocPass_end (hgeo : mp.fs.size ≤ mp.fs.fpg * mp.fs.ncg) (hino : mp.fs.inoToCg c.inumber < mp.fs.ncg)
    {bpref m : Nat} (hm : 0 < m) (hmf : m ≤ mp.fs.frag) (k : Nat) (f : AllocState) (hready : Ready mp.fs (2 ^ 63 - 2 ^ 32) f)
    (hcalm : Calm k f.bufs) (res : Pass × AllocState) (hcall : allocPass mp c bpref (m * mp.fs.fsize) k f = .ok res) :
    PassEnd c (btodb mp (m * mp.fs.fsize)) k (allocMeets mp c bpref (m * mp.fs.fsize) k f) f res := by
  obtain ⟨hn, hlt⟩ := btodb_bounds mp hm hmf
  cases hquota : Ufs.chkdq c.quota f.dquots (btodb mp (m * mp.fs.fsize)) false with
  | mk error dqs =>
      cases error with
      | some e =>
          have hchkdq : (f.emit .unlock).chkdq c (btodb mp (m * mp.fs.fsize)) false
              = (some e, { f.emit .unlock with dquots := dqs }) := chkdq_eq hquota
          unfold allocPass at hcall
          simp only [hchkdq] at hcall
          obtain rfl := Except.ok.inj hcall
          have hdenied : Denied c (btodb mp (m * mp.fs.fsize)) f.dquots := by
            rw [Denied, hquota]
            exact Option.some_ne_none e
          exact .denied e _ not_false trivial hdenied rfl rfl
            (chkdq_refused hn hlt (hready.fits.mono (by norm_num)) hquota) hcalm.succ
      | none =>
          have hgranted : ¬ Denied c (btodb mp (m * mp.fs.fsize)) f.dquots := by
            rw [Denied, hquota]
            exact not_not.mpr rfl
          have hback := charged_back hn hlt hready.fits hquota
          have hlocked := (logged_refl f.st).relock
          rw [allocPass_granted hquota] at hcall
          by_cases hno : noBlocks mp (m * mp.fs.fsize) f.st
          · -- nothing is searched
            rw [if_pos hno] at hcall
            obtain rfl := Except.ok.inj hcall
            refine .full none _ ⟨not_false, trivial, hgranted, fun hgains => hgains.1 hno⟩ rfl ?_ rfl rfl hback hcalm.succ
            exact hlocked.relock.iff (iff_of_true trivial (.inl hno))
          · have hok : FsOk mp.fs (taken f dqs).st := hready.ok.congr rfl rfl rfl
            obtain ⟨r, s', hsearch, hres⟩ := ffsHashalloc_searched (c.gerr k) (checkPref mp bpref) hok
              hready.boot (startGroup_lt bpref hgeo hino) hm hmf (.inl rfl)
            rw [if_neg hno, hashalloc_eq hsearch] at hcall
            simp only at hcall
            by_cases hr : r ≠ 0
            · rw [if_pos hr] at hcall
              obtain rfl := Except.ok.inj hcall
              exact .gained r _ ⟨not_false, trivial, hgranted, hno, hres.found.mp hr⟩ rfl
                (chkdq_granted hn hlt (hready.fits.mono (by norm_num)) hquota)
            · rw [if_neg hr] at hcall
              obtain rfl := Except.ok.inj hcall
              have hr0 : r = 0 := not_not.mp hr
              refine .full none _ ⟨not_false, trivial, hgranted, fun hgains => hr (hres.found.mpr hgains.2)⟩ ?_ ?_ rfl rfl
                hback hcalm.succ
              · show (s'.emit .unlock).emit .lock = _
                rw [hres.same hr0]
                rfl
              · exact (hlocked.trans (hres.logged hr0)).relock.iff
                  ⟨fun h => .inr h.2, fun h => ⟨trivial, h.resolve_left hno⟩⟩

/-! ### `ffs_realloccg` -/

/-- What is searched for when the fragment cannot be extended, and `fs_optim` after it. -/
def requested (mp : Ump) (s : State) (optim nsize : Nat) : Nat × Nat :=
  match chooseRequest mp s optim nsize with
  | .ok r => r
  | .error _ => (nsize, optim)

/-- What pass `k` of `ffs_realloccg` meets. -/
def realloccgMeets (mp : Ump) (c : AllocCall) (bprev bpref osize nsize k : Nat) (f : AllocState) : Meets where
  short := freespace mp f.st - mp.fs.numfrags (nsize - osize) < 0
  read := c.readErr k = none
  denied := Denied c (btodb mp (nsize - osize)) f.dquots
  gains := Extendable mp.fs f.st (c.extGerr k) (mp.fs.dtog bprev) bprev osize nsize ∨
    Found mp.fs f.st (c.gerr k) (requested mp f.st f.optim nsize).1
      (triesFrom mp.fs (mp.fs.dtog bprev) (checkPref mp bpref))
  readable := (FragextendReads mp.fs f.st (mp.fs.dtog bprev) bprev osize nsize → c.extGerr k = 0) ∧
    Readable mp.fs f.st (c.gerr k) (requested mp f.st f.optim nsize).1
      (triesFrom mp.fs (mp.fs.dtog bprev) (checkPref mp bpref))
  optim := if freespace mp f.st - mp.fs.numfrags (nsize - osize) < 0 then f.optim else (requested mp f.st f.optim nsize).2

theorem chooseRequest_size {s : State} {optim nsize request optim' : Nat}
    (h : chooseRequest mp s optim nsize = .ok (request, optim')) : request = nsize ∨ request = mp.fs.bsize := by
  unfold chooseRequest at h
  split at h
  · left
    split at h
    all_goals exact (Prod.mk.inj (Except.ok.inj h)).1.symm
  · split at h
    · right
      split at h
      all_goals exact (Prod.mk.inj (Except.ok.inj h)).1.symm
    · cases h

/-- A search for a new place. -/
theorem realloccgMove_searched {cg bprev bpref osize nsize k request optim r : Nat} {f : AllocState} {s' : State}
    (hreq : chooseRequest mp f.st f.optim nsize = .ok (request, optim))
    (hsearch : ffsHashalloc mp.fs (blockAllocator mp.fs (c.gerr k) request nsize) f.st cg (checkPref mp bpref) = .ok (r, s')) :
    realloccgMove mp c cg bprev bpref osize nsize k f =
      if r ≠ 0 then
        match ffsBlkfreeCg mp.fs s' c.devvp (c.freeGerr k) bprev osize with
        | .error p => .error (.alloc p)
        | .ok st => .ok (.done (.ok r), { f with optim := optim, st := st }.addBlocks (btodb mp (nsize - osize)))
      else .ok (.nospace (some k), { f with optim := optim, st := s' }.giveBack c (btodb mp (nsize - osize))) := by
  have hcall : hashalloc mp c k { f with optim := optim } cg (checkPref mp bpref) request nsize
      = .ok (r, { f with optim := optim, st := s' }) := hashalloc_eq hsearch
  unfold realloccgMove
  rewrite [hreq]
  dsimp only
  rewrite [hcall]
  rfl

/-- The end of a pass for which the quota has been charged, and the lock been taken. -/
theorem realloccgExtend_end {bprev bpref o m k : Nat} {f : AllocState} {dqs : Dquots} {res : Pass × AllocState}
    (hom : o < m) (hmf : m ≤ mp.fs.frag) (hgroup : mp.fs.dtog bprev < mp.fs.ncg) (hprev : bprev ≠ 0)
    (hready : Ready mp.fs (2 ^ 63 - 2 ^ 32) f) (hcalm : Calm k f.bufs)
    (hquota : Ufs.chkdq c.quota f.dquots (btodb mp (m * mp.fs.fsize - o * mp.fs.fsize)) false = (none, dqs))
    (hshort : ¬ freespace mp f.st - mp.fs.numfrags (m * mp.fs.fsize - o * mp.fs.fsize) < 0) (hread : c.readErr k = none)
    (hcall : realloccgExtend mp c bprev bpref (o * mp.fs.fsize) (m * mp.fs.fsize) k
      { taken f dqs with bufs := f.bufs.alloc k } = .ok res) :
    PassEnd c (btodb mp (m * mp.fs.fsize - o * mp.fs.fsize)) k
      (realloccgMeets mp c bprev bpref (o * mp.fs.fsize) (m * mp.fs.fsize) k f) f res := by
  have hsub : m * mp.fs.fsize - o * mp.fs.fsize = (m - o) * mp.fs.fsize := (Nat.sub_mul m o mp.fs.fsize).symm
  obtain ⟨hn, hlt⟩ := btodb_bounds mp (show 0 < m - o by omega) (by omega)
  rw [← hsub] at hn hlt
  have hgranted : ¬ Denied c (btodb mp (m * mp.fs.fsize - o * mp.fs.fsize)) f.dquots := by
    rw [Denied, hquota]
    exact not_not.mpr rfl
  have hcharged := chkdq_granted hn hlt (hready.fits.mono (by norm_num)) hquota
  unfold realloccgExtend at hcall
  simp only [group_eq hgroup] at hcall
  cases hext : ffsFragextend mp.fs (taken f dqs).st (c.extGerr k) (mp.fs.dtog bprev) bprev (o * mp.fs.fsize) (m * mp.fs.fsize) with
  | mk r s₁ =>
      have hres := ffsFragextend_searched hprev hext
      simp only [hext] at hcall
      by_cases hr : r ≠ 0
      · -- extended where it is
        rw [if_pos hr] at hcall
        split at hcall
        · cases hcall
        · obtain rfl := Except.ok.inj hcall
          exact .gained r _ ⟨hshort, hread, hgranted, .inl (hres.found.mp hr)⟩ rfl hcharged
      · have hr0 : r = 0 := not_not.mp hr
        rw [if_neg hr] at hcall
        obtain ⟨log, rfl⟩ : ∃ log, s₁ = { (taken f dqs).st with log := log } := ⟨_, hres.same hr0⟩
        obtain ⟨g, hg⟩ : ∃ g : AllocState, g = { taken f dqs with
            st := { (taken f dqs).st with log := log }, bufs := f.bufs.alloc k } := ⟨_, rfl⟩
        have hmove : realloccgMove mp c (mp.fs.dtog bprev) bprev bpref (o * mp.fs.fsize) (m * mp.fs.fsize) k g = .ok res := by
          rw [hg]
          exact hcall
        cases hchosen : chooseRequest mp g.st g.optim (m * mp.fs.fsize) with
        | error t =>
            unfold realloccgMove at hmove
            rw [hchosen] at hmove
            cases hmove
        | ok chosen =>
            obtain ⟨request, optim⟩ := chosen
            have hreq : chooseRequest mp f.st f.optim (m * mp.fs.fsize) = .ok (request, optim) := by
              rw [hg] at hchosen
              exact hchosen
            have hrequested : requested mp f.st f.optim (m * mp.fs.fsize) = (request, optim) := by
              unfold requested
              rw [hreq]
            have hok : FsOk mp.fs g.st := by
              rw [hg]
              exact hready.ok.congr rfl rfl rfl
            have hboot : freeAt mp.fs g.st 0 = false := by
              rw [hg]
              exact hready.boot
            obtain ⟨r', s', hsearch, hres'⟩ := ffsHashalloc_searched (c.gerr k) (checkPref mp bpref) hok
              hboot hgroup (show 0 < m by omega) hmf (chooseRequest_size hreq)
            rw [realloccgMove_searched hchosen hsearch] at hmove
            subst hg
            by_cases hr' : r' ≠ 0
            · rw [if_pos hr'] at hmove
              split at hmove
              · cases hmove
              · obtain rfl := Except.ok.inj hmove
                refine .gained r' _ ⟨hshort, hread, hgranted, .inr ?_⟩ rfl hcharged
                rw [hrequested]
                exact hres'.found.mp hr'
            · rw [if_neg hr'] at hmove
              obtain rfl := Except.ok.inj hmove
              have hr0' : r' = 0 := not_not.mp hr'
              have hlogged := (((logged_refl f.st).relock.trans (hres.logged hr0)).trans (hres'.logged hr0')).relock
              refine .full (some k) _ ⟨hshort, hread, hgranted, ?_⟩ ?_ (hlogged.iff ?_) rfl ?_
                (charged_back hn hlt hready.fits hquota) hcalm.used
              · rintro (hgains | hgains)
                · exact hr (hres.found.mpr hgains)
                · rw [hrequested] at hgains
                  exact hr' (hres'.found.mpr hgains)
              · show (s'.emit .unlock).emit .lock = _
                rw [hres'.same hr0']
                rfl
              · show _ ↔ _ ∧ Readable mp.fs f.st (c.gerr k) (requested mp f.st f.optim (m * mp.fs.fsize)).1 _
                rw [hrequested, true_and]
                exact Iff.rfl
              · show optim = if _ then _ else _
                rw [if_neg hshort, hrequested]

theorem realloccgPass_end (hgeo : mp.fs.size ≤ mp.fs.fpg * mp.fs.ncg) {lbprev : Int} {bprev bpref o m : Nat} (hom : o < m)
    (hmf : m ≤ mp.fs.frag) (hprev : bprev < mp.fs.size) (k : Nat) (f : AllocState)
    (hready : Ready mp.fs (2 ^ 63 - 2 ^ 32) f) (hcalm : Calm k f.bufs) (res : Pass × AllocState)
    (hcall : realloccgPass mp c lbprev bprev bpref (o * mp.fs.fsize) (m * mp.fs.fsize) k f = .ok res) :
    PassEnd c (btodb mp (m * mp.fs.fsize - o * mp.fs.fsize)) k
      (realloccgMeets mp c bprev bpref (o * mp.fs.fsize) (m * mp.fs.fsize) k f) f res := by
  have hsub : m * mp.fs.fsize - o * mp.fs.fsize = (m - o) * mp.fs.fsize := (Nat.sub_mul m o mp.fs.fsize).symm
  obtain ⟨hn, hlt⟩ := btodb_bounds mp (show 0 < m - o by omega) (by omega)
  rw [← hsub] at hn hlt
  unfold realloccgPass at hcall
  by_cases hshort : freespace mp f.st - mp.fs.numfrags (m * mp.fs.fsize - o * mp.fs.fsize) < 0
  · rw [if_pos hshort] at hcall
    obtain rfl := Except.ok.inj hcall
    exact .short hshort (if_pos hshort)
  rw [if_neg hshort] at hcall
  by_cases h0 : bprev = 0
  · rw [if_pos h0] at hcall
    cases hcall
  rw [if_neg h0] at hcall
  cases hread : c.readErr k with
  | some e =>
      simp only [hread] at hcall
      obtain rfl := Except.ok.inj hcall
      refine .unread e hshort ?_
      show ¬ c.readErr k = none
      rw [hread]
      exact Option.some_ne_none e
  | none =>
      simp only [hread] at hcall
      split at hcall
      · cases hcall
      cases hquota : Ufs.chkdq c.quota f.dquots (btodb mp (m * mp.fs.fsize - o * mp.fs.fsize)) false with
      | mk error dqs =>
          have hchkdq : ({ f.emit .unlock with bufs := f.bufs.alloc k } : AllocState).chkdq c
              (btodb mp (m * mp.fs.fsize - o * mp.fs.fsize)) false
                = (error, { f.emit .unlock with bufs := f.bufs.alloc k, dquots := dqs }) := chkdq_eq hquota
          simp only [hchkdq] at hcall
          cases error with
          | some e =>
              obtain rfl := Except.ok.inj hcall
              have hdenied : Denied c (btodb mp (m * mp.fs.fsize - o * mp.fs.fsize)) f.dquots := by
                rw [Denied, hquota]
                exact Option.some_ne_none e
              exact .denied e _ hshort hread hdenied rfl rfl
                (chkdq_refused hn hlt (hready.fits.mono (by norm_num)) hquota) hcalm.used
          | none => exact realloccgExtend_end hom hmf (dtog_lt hgeo hprev) h0 hready hcalm hquota hshort hread hcall

/-! ### Both functions -/

theorem reclaims_alloc : Reclaims fun bp f => f.brelse bp := by
  refine ⟨fun bp f => ?_, fun bp f => ?_, fun bp f => ?_⟩
  · cases bp
    all_goals rfl
  · rw [brelse_st]
  · rw [brelse_st]
    exact logged_refl f.st

theorem reclaims_realloccg : Reclaims fun bp f => ((f.emit .unlock).brelse bp).emit .lock := by
  refine ⟨fun bp f => ?_, fun bp f => ?_, fun bp f => ?_⟩
  · cases bp
    all_goals rfl
  · cases bp
    all_goals rfl
  · cases bp
    all_goals exact (logged_refl f.st).relock

theorem allocMeets_same (bpref size k : Nat) (f f' : AllocState) (hst : f'.st = { f.st with log := f'.st.log })
    (hoptim : f'.optim = f.optim) (hdenied : Denied c (btodb mp size) f'.dquots ↔ Denied c (btodb mp size) f.dquots) :
    allocMeets mp c bpref size k f' = allocMeets mp c bpref size k f := by
  unfold allocMeets
  rw [hst, hoptim, propext hdenied]
  rfl

theorem realloccgMeets_same (bprev bpref osize nsize k : Nat) (f f' : AllocState)
    (hst : f'.st = { f.st with log := f'.st.log }) (hoptim : f'.optim = f.optim)
    (hdenied : Denied c (btodb mp (nsize - osize)) f'.dquots ↔ Denied c (btodb mp (nsize - osize)) f.dquots) :
    realloccgMeets mp c bprev bpref osize nsize k f' = realloccgMeets mp c bprev bpref osize nsize k f := by
  unfold realloccgMeets
  rw [hst, hoptim, propext hdenied]
  rfl

/-- A call of `ffs_alloc` or `ffs_realloccg` that returns leaves no trace when it fails, and
charges what it gained when it does not, exactly when its passes are `Sound`. The sizes are
multiples of the fragment size, and no address is behind the end. -/
theorem alloc_exact_iff {f : AllocState} (hothers : Peaceful mp.fs c.others) (hready : Ready mp.fs (2 ^ 62) f)
    (hblocks : 0 ≤ f.ip.blocks) (hbufs : f.bufs = Heap.empty) (hgeo : mp.fs.size ≤ mp.fs.fpg * mp.fs.ncg)
    (hino : mp.fs.inoToCg c.inumber < mp.fs.ncg) :
    (∀ bpref m, 0 < m → m ≤ mp.fs.frag → ∀ res, ffsAlloc mp c bpref (m * mp.fs.fsize) f = .ok res →
      (Exact c (btodb mp (m * mp.fs.fsize)) f res ↔
        Sound c (btodb mp (m * mp.fs.fsize)) f (passes c (allocMeets mp c bpref (m * mp.fs.fsize)) f)))
    ∧ ∀ lbprev bprev bpref o m, o < m → m ≤ mp.fs.frag → bprev < mp.fs.size →
      ∀ res, ffsRealloccg mp c lbprev bprev bpref (o * mp.fs.fsize) (m * mp.fs.fsize) f = .ok res →
        (Exact c (btodb mp (m * mp.fs.fsize - o * mp.fs.fsize)) f res ↔
          Sound c (btodb mp (m * mp.fs.fsize - o * mp.fs.fsize)) f
            (passes c (realloccgMeets mp c bprev bpref (o * mp.fs.fsize) (m * mp.fs.fsize)) f)) := by
  constructor
  · intro bpref m hm hmf res hcall
    exact withRetry_exact hothers reclaims_alloc (btodb_bounds mp hm hmf).1 (allocMeets_same bpref (m * mp.fs.fsize))
      (allocPass_end hgeo hino hm hmf) hready hblocks hbufs hcall
  · intro lbprev bprev bpref o m hom hmf hprev res hcall
    have hpos : 0 < btodb mp (m * mp.fs.fsize - o * mp.fs.fsize) := by
      rw [← Nat.sub_mul]
      exact (btodb_bounds mp (by omega) (by omega)).1
    exact withRetry_exact hothers reclaims_realloccg hpos
      (realloccgMeets_same bprev bpref (o * mp.fs.fsize) (m * mp.fs.fsize)) (realloccgPass_end hgeo hom hmf hprev) hready
      hblocks hbufs hcall

/-! ### A user with a quota -/

/-- An empty file of user 1, whose quota is on and without a limit. -/
def userFile (s : State) : AllocState where
  st := s
  ip := (sparseFile 0).ip
  dquots := fun i => if i = 0 then some ⟨0, 0, 0, 0, false, false⟩ else none
  optim := FS_OPTTIME
  bufs := Heap.empty

/-- Nothing fails, and no other thread runs. -/
def quietCall (buflocked : Bool) : AllocCall where
  quota := ⟨false, 1, 1, 1, true, 0, fun _ => 0⟩
  inumber := 3
  buflocked := buflocked
  fsfail := false
  others := id
  gerr := fun _ _ => 0
  extGerr := fun _ => 0
  freeGerr := fun _ => 0
  readErr := fun _ => none
  blkno := fun _ => 0
  devvp := .vchr

/-- Whether a call succeeds, the charges after it, and `i_blocks`. -/
def outcome : Except Trap (Except Errno Nat × AllocState) → Option (Bool × Option Int × Option Int × Int)
  | .error _ => none
  | .ok (r, f) => some (r.isOk, charge f.dquots 0, charge f.dquots 1, f.ip.blocks)

theorem outcome_eq {r : Except Trap (Except Errno Nat × AllocState)} {b : Bool} {u g : Option Int} {n : Int}
    (h : outcome r = some (b, u, g, n)) :
    ∃ res, r = .ok res ∧ res.1.isOk = b ∧ charge res.2.dquots 0 = u ∧ charge res.2.dquots 1 = g ∧ res.2.ip.blocks = n := by
  cases r with
  | error t => cases h
  | ok res =>
      obtain ⟨rfl, rfl, rfl, rfl⟩ := Option.some.inj h
      exact ⟨res, rfl, rfl, rfl, rfl, rfl⟩

theorem peaceful_id (fs : Fs) : Peaceful fs id := ⟨fun _ _ => rfl, fun _ hok hboot => ⟨hok, hboot⟩⟩

theorem fits_userFile (s : State) : ChargesBelow (2 ^ 62) (userFile s).dquots := by
  intro i _ dq hdq
  unfold userFile at hdq
  simp only at hdq
  split at hdq
  · obtain rfl := Option.some.inj hdq
    norm_num
  · cases hdq

/-- A call that charges the user `n` blocks. -/
theorem exact_userFile {s : State} {n : Nat} {res : Except Errno Nat × AllocState} (hok : res.1.isOk = true)
    (hu : charge res.2.dquots 0 = some (n : Int)) (hg : charge res.2.dquots 1 = none) (hblocks : res.2.ip.blocks = n) :
    Exact (quietCall false) n (userFile s) res := by
  obtain ⟨r, f'⟩ := res
  cases r with
  | error e => cases hok
  | ok bno =>
      refine ⟨fun i hi => ?_, ?_⟩
      · rcases (show i = 0 ∨ i = 1 by unfold MAXQUOTAS at hi; omega) with rfl | rfl
        · rw [hu]
          show some (n : Int) = some ((0 : Int) + n)
          rw [Int.zero_add]
        · exact hg
      · rw [hblocks]
        exact (Int.zero_add (n : Int)).symm

/-- In `tinyState` there is space for a fragment, and for a block in the place of one. -/
theorem alloc_exact_iff_tinyState :
    Sound (quietCall false) 16 (userFile tinyState)
        (passes (quietCall false) (allocMeets tinyUmp (quietCall false) 0 (1 * tinyUmp.fs.fsize)) (userFile tinyState))
      ∧ Sound (quietCall false) 16 (userFile tinyState)
        (passes (quietCall false)
          (realloccgMeets tinyUmp (quietCall false) 1 0 (1 * tinyUmp.fs.fsize) (2 * tinyUmp.fs.fsize)) (userFile tinyState)) := by
  have hiff := @alloc_exact_iff tinyUmp (quietCall false) (userFile tinyState) (peaceful_id tinyFs)
    ⟨fsOk_tinyState, boot_tinyState, fits_userFile tinyState⟩ (Int.le_refl 0) rfl (by decide) (by decide)
  have halloc : outcome (ffsAlloc tinyUmp (quietCall false) 0 (1 * tinyUmp.fs.fsize) (userFile tinyState))
      = some (true, some 16, none, 16) := by decide +kernel
  have hrealloc : outcome (ffsRealloccg tinyUmp (quietCall false) 1 1 0 (1 * tinyUmp.fs.fsize) (2 * tinyUmp.fs.fsize)
      (userFile tinyState)) = some (true, some 16, none, 16) := by decide +kernel
  obtain ⟨res, hcall, hok, hu, hg, hblocks⟩ := outcome_eq halloc
  obtain ⟨res', hcall', hok', hu', hg', hblocks'⟩ := outcome_eq hrealloc
  exact ⟨(hiff.1 0 1 (by decide) (by decide) res hcall).mp (exact_userFile hok hu hg hblocks),
    (hiff.2 1 1 0 1 2 (by decide) (by decide) (by decide) res' hcall').mp (exact_userFile hok' hu' hg' hblocks')⟩

/-- The sample file system with all its space in reserve. -/
def reservedUmp : Ump := { tinyUmp with fs := { tinyFs with minfree := 100 } }

/-- There is no space for a fragment, and the user is charged `2 ^ 32` blocks. -/
theorem not_alloc_exact :
    ∃ res, ffsAlloc reservedUmp (quietCall true) 0 (1 * reservedUmp.fs.fsize) (userFile tinyState) = .ok res
      ∧ res.1.isOk = false ∧ ¬ Exact (quietCall true) 16 (userFile tinyState) res := by
  have halloc : outcome (ffsAlloc reservedUmp (quietCall true) 0 (1 * reservedUmp.fs.fsize) (userFile tinyState))
      = some (false, some (2 ^ 32), none, 0) := by decide +kernel
  obtain ⟨⟨r, f'⟩, hcall, hfail, hu, -⟩ := outcome_eq halloc
  refine ⟨_, hcall, hfail, fun hexact => ?_⟩
  cases r with
  | ok bno => cases hfail
  | error e =>
      -- the charge should still be 0
      have h0 := (Traceless.charge hexact) 0 (by decide)
      rw [hu] at h0
      exact absurd h0 (by decide)

end UfsX.Proofs.AllocQuota
