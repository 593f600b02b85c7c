import UfsX.Ffs.Blkpref
import UfsX.Proofs.Discipline

/-!
# `UfsX.Proofs.Blkpref`: the two placement functions side by side

`ffs_blkpref_ufs1` and `ffs_blkpref_ufs2` differ in two places. The first adds `fs_frag` to
a direct pointer in 32 bits, and it tells `ffs_check_blkno` that the UFS lock is not held,
so that a block number that fails the check makes it take the lock again.
`blkpref_same_iff` says that nothing else keeps the two apart.

Behind the check the functions are one function of the previous block, `prefRest`.
-/

set_option autoImplicit false

namespace UfsX.Proofs.Blkpref

open UfsX.Lib UfsX.Ffs
open UfsX.Ufs (Errno ndaddr ffsCheckBlkno)

variable {m : PrefMount} {s s' : PrefState} {ip : PrefInode m.fs} {lbn indx : Int} {bap : Nat → Int}

/-! ### What is asked for -/

/-- The place is none, the start of a group's metadata or data, or right behind a block of
the file. -/
def Placed (m : PrefMount) (ip : PrefInode m.fs) (indx : Int) (bap : Nat → Int) (pref : Int) : Prop :=
  pref = 0 ∨ (∃ g < m.fs.ncg, pref = m.fs.cgmeta g ∨ pref = m.fs.cgdata g) ∨
    ∃ b, b ≠ 0 ∧ (b = ip.db (ndaddr - 1) ∨ b = ip.ib 0 ∨ (0 < indx ∧ b = bap (indx - 1).toNat)) ∧ pref = b + m.fs.frag

/-- Both functions return, with one place and one `fs_cgrotor`, and both hold the lock all
along but for what `ffs_check_blkno` may do with it. -/
def SamePlacement (m : PrefMount) (s : PrefState) (ip : PrefInode m.fs) (lbn indx : Int) (bap : Nat → Int) : Prop :=
  ∃ pref s₁ s₂, ffsBlkprefUfs1 m s ip lbn indx bap = some (pref, s₁) ∧
    ffsBlkprefUfs2 m s ip lbn indx bap = some (pref, s₂) ∧ s₁.cgrotor = s₂.cgrotor ∧
    Replays s.st s₁.st locked locked ∧ Replays s.st s₂.st locked locked ∧ Placed m ip indx bap pref

/-- The first data block of the first indirect block goes behind that block. -/
def BehindIndir (m : PrefMount) (ip : PrefInode m.fs) (lbn : Int) : Prop :=
  lbn = ndaddr ∧ ip.ib 0 ≠ 0 ∧ m.fs.cgdata (m.fs.inoToCg ip.number) ≤ ip.ib 0 ∧
    ip.ib 0 < m.fs.cgbase (m.fs.inoToCg ip.number + 1)

/-- The first indirect block goes behind the last direct block. -/
def BehindDirect (m : PrefMount) (ip : PrefInode m.fs) (lbn indx : Int) : Prop :=
  indx = -1 ∧ lbn < ndaddr + m.fs.nindir ∧ ip.db (ndaddr - 1) ≠ 0

/-- What keeps the functions together: the last direct pointer has room for the addition; the
previous block, where it is looked at, passes the check of an untrusted mount; and
`fs_maxbpg` divides. -/
structure PrefSafe (m : PrefMount) (ip : PrefInode m.fs) (lbn indx : Int) (bap : Nat → Int) : Prop where
  room : BehindDirect m ip lbn indx → ip.db (ndaddr - 1) + m.fs.frag < 2 ^ 31
  passes : 0 < indx → ¬ BehindIndir m ip lbn → m.untrusted = true →
    ffsCheckBlkno m.fs (bap (indx - 1).toNat) m.fs.bsize = none
  divides : 0 ≤ indx → ¬ BehindIndir m ip lbn → m.maxbpg ≠ 0

/-- The pointers of a UFS1 file. -/
structure Fits32 (ip : PrefInode m.fs) (bap : Nat → Int) : Prop where
  db : ∀ i, -2 ^ 31 ≤ ip.db i ∧ ip.db i < 2 ^ 31
  ib : ∀ i, -2 ^ 31 ≤ ip.ib i ∧ ip.ib i < 2 ^ 31
  bap : ∀ i, -2 ^ 31 ≤ bap i ∧ bap i < 2 ^ 31

/-! ### One function behind the check -/

/-- The previous block, after the check. -/
def prevBlock (m : PrefMount) (s : PrefState) (indx : Int) (bap : Nat → Int) (havemtx : Bool) : Int × PrefState :=
  if indx = 0 then (0, s)
  else
    match ufsCheckBlknoMtx m s (bap (indx - 1).toNat) havemtx with
    | (none, s) => (bap (indx - 1).toNat, s)
    | (some _, s) => (0, s)

/-- The group where a new section starts. -/
def sectionGroup (m : PrefMount) (ip : PrefInode m.fs) (lbn indx prevbn : Int) : Nat :=
  (if indx = 0 ∨ prevbn = 0 then toU32 (toI32 (m.fs.inoToCg ip.number + lbn.tdiv m.maxbpg))
    else toU32 (toI32 (prevbn.tdiv m.fs.fpg) + 1)).toNat % m.fs.ncg

/-- The functions from the test of the section on. -/
def prefRest (m : PrefMount) (s : PrefState) (ip : PrefInode m.fs) (lbn indx prevbn : Int) : Option (Int × PrefState) :=
  if m.maxbpg = 0 then none
  else if indx.tmod m.maxbpg = 0 ∨ prevbn = 0 then
    if ip.isDir then some (m.fs.cgmeta (m.fs.inoToCg ip.number), s)
    else if lbn < ndaddr + m.fs.nindir then some (m.fs.cgdata (m.fs.inoToCg ip.number), s)
    else
      let startcg := sectionGroup m ip lbn indx prevbn
      let avgbfree := toU32 (toI32 s.st.cstotal.nbfree) / m.fs.ncg
      match prefSweep s.st avgbfree (m.fs.ncg - startcg) startcg with
      | some cg => some (m.fs.cgdata cg, { s with cgrotor := toI32 cg })
      | none =>
          match prefSweep s.st avgbfree (startcg + 1) 0 with
          | some cg => some (m.fs.cgdata cg, { s with cgrotor := toI32 cg })
          | none => some (0, s)
  else some (prevbn + m.fs.frag, s)

/-- For data blocks that do not go behind the indirect block. -/
theorem ffsBlkprefUfs1_data (hindx : 0 ≤ indx) (hnot : ¬ BehindIndir m ip lbn) :
    ffsBlkprefUfs1 m s ip lbn indx bap =
      prefRest m (prevBlock m s indx bap false).2 ip lbn indx (prevBlock m s indx bap false).1 :=
  (if_neg (Int.not_lt.mpr hindx)).trans (if_neg hnot)

theorem ffsBlkprefUfs2_data (hindx : 0 ≤ indx) (hnot : ¬ BehindIndir m ip lbn) :
    ffsBlkprefUfs2 m s ip lbn indx bap =
      prefRest m (prevBlock m s indx bap true).2 ip lbn indx (prevBlock m s indx bap true).1 :=
  (if_neg (Int.not_lt.mpr hindx)).trans (if_neg hnot)

theorem ffsBlkprefUfs1_behind (hindx : 0 ≤ indx) (hbehind : BehindIndir m ip lbn) :
    ffsBlkprefUfs1 m s ip lbn indx bap = some (ip.ib 0 + m.fs.frag, s) :=
  (if_neg (Int.not_lt.mpr hindx)).trans (if_pos hbehind)

theorem ffsBlkprefUfs2_behind (hindx : 0 ≤ indx) (hbehind : BehindIndir m ip lbn) :
    ffsBlkprefUfs2 m s ip lbn indx bap = some (ip.ib 0 + m.fs.frag, s) :=
  (if_neg (Int.not_lt.mpr hindx)).trans (if_pos hbehind)

/-! ### The sweep -/

theorem prefSweep_congr {t t' : State} (hcsp : t'.csp = t.csp) (avg : Int) (n cg : Nat) :
    prefSweep t' avg n cg = prefSweep t avg n cg := by
  induction n generalizing cg with
  | zero => rfl
  | succ n ih => rw [prefSweep, prefSweep, hcsp, ih]

theorem prefSweep_lt {t : State} {avg : Int} {n cg g : Nat} (h : prefSweep t avg n cg = some g) : g < cg + n := by
  induction n generalizing cg with
  | zero => cases h
  | succ n ih =>
      rw [prefSweep] at h
      split at h
      · obtain rfl := Option.some.inj h
        omega
      · have hlt := ih h
        omega

theorem inoToCg_lt (ip : PrefInode m.fs) : m.fs.inoToCg ip.number < m.fs.ncg :=
  Nat.div_lt_of_lt_mul ip.number_lt

/-- The inode's group and the sweep stay below `fs_ncg`. -/
theorem prefRest_placed {prevbn pref : Int} (hprev : prevbn = 0 ∨ (0 < indx ∧ prevbn = bap (indx - 1).toNat))
    (h : prefRest m s ip lbn indx prevbn = some (pref, s')) : s'.st = s.st ∧ Placed m ip indx bap pref := by
  have hino := inoToCg_lt ip
  have hstart : sectionGroup m ip lbn indx prevbn < m.fs.ncg := Nat.mod_lt _ m.fs.ncg_pos
  have hgroup : ∀ cg < m.fs.ncg, Placed m ip indx bap (m.fs.cgdata cg) := fun cg hcg => .inr (.inl ⟨cg, hcg, .inr rfl⟩)
  unfold prefRest at h
  split at h
  · cases h
  split at h
  · split at h
    · obtain ⟨rfl, rfl⟩ := Prod.mk.inj (Option.some.inj h)
      exact ⟨rfl, .inr (.inl ⟨_, hino, .inl rfl⟩)⟩
    split at h
    · obtain ⟨rfl, rfl⟩ := Prod.mk.inj (Option.some.inj h)
      exact ⟨rfl, hgroup _ hino⟩
    simp only at h
    split at h
    · next cg hsweep =>
        obtain ⟨rfl, rfl⟩ := Prod.mk.inj (Option.some.inj h)
        have hlt := prefSweep_lt hsweep
        exact ⟨rfl, hgroup cg (by omega)⟩
    · split at h
      · next cg hsweep =>
          obtain ⟨rfl, rfl⟩ := Prod.mk.inj (Option.some.inj h)
          have hlt := prefSweep_lt hsweep
          exact ⟨rfl, hgroup cg (by omega)⟩
      · obtain ⟨rfl, rfl⟩ := Prod.mk.inj (Option.some.inj h)
        exact ⟨rfl, .inl rfl⟩
  · next hcont =>
      obtain ⟨rfl, rfl⟩ := Prod.mk.inj (Option.some.inj h)
      have hne : prevbn ≠ 0 := fun h0 => hcont (.inr h0)
      obtain ⟨hpos, rfl⟩ := hprev.resolve_left hne
      exact ⟨rfl, .inr (.inr ⟨_, hne, .inr (.inr ⟨hpos, rfl⟩), rfl⟩)⟩

/-- The rest reads the summary, not the log. -/
theorem prefRest_same (hmax : m.maxbpg ≠ 0) (hcsp : s'.st.csp = s.st.csp) (htot : s'.st.cstotal = s.st.cstotal)
    (hrotor : s'.cgrotor = s.cgrotor) (prevbn : Int) :
    ∃ pref rotor, prefRest m s ip lbn indx prevbn = some (pref, { s with cgrotor := rotor }) ∧
      prefRest m s' ip lbn indx prevbn = some (pref, { s' with cgrotor := rotor }) := by
  have hsame : ∀ t : PrefState, t.cgrotor = s.cgrotor → t = { t with cgrotor := s.cgrotor } := by
    intro t ht
    rw [← ht]
  unfold prefRest
  rw [if_neg hmax, if_neg hmax]
  simp only [htot, prefSweep_congr hcsp]
  split
  · split
    · exact ⟨_, s.cgrotor, rfl, by rw [← hsame s' hrotor]⟩
    split
    · exact ⟨_, s.cgrotor, rfl, by rw [← hsame s' hrotor]⟩
    cases prefSweep s.st (toU32 (toI32 s.st.cstotal.nbfree) / m.fs.ncg)
        (m.fs.ncg - sectionGroup m ip lbn indx prevbn) (sectionGroup m ip lbn indx prevbn) with
    | some cg => exact ⟨_, _, rfl, rfl⟩
    | none =>
        cases prefSweep s.st (toU32 (toI32 s.st.cstotal.nbfree) / m.fs.ncg)
            (sectionGroup m ip lbn indx prevbn + 1) 0 with
        | some cg => exact ⟨_, _, rfl, rfl⟩
        | none => exact ⟨_, s.cgrotor, rfl, by rw [← hsame s' hrotor]⟩
  · exact ⟨_, s.cgrotor, rfl, by rw [← hsame s' hrotor]⟩

/-! ### The check and the lock -/

/-- What the check leaves: the summary, the rotor, and for UFS2 the lock. -/
structure Checked (s s' : PrefState) : Prop where
  csp : s'.st.csp = s.st.csp
  cstotal : s'.st.cstotal = s.st.cstotal
  cgrotor : s'.cgrotor = s.cgrotor

theorem prevBlock_checked (havemtx : Bool) : Checked s (prevBlock m s indx bap havemtx).2 := by
  unfold prevBlock ufsCheckBlknoMtx ffsCheckBlknoMtx
  split
  · exact ⟨rfl, rfl, rfl⟩
  · cases m.untrusted
    · exact ⟨rfl, rfl, rfl⟩
    · cases ffsCheckBlkno m.fs (bap (indx - 1).toNat) m.fs.bsize with
      | none => exact ⟨rfl, rfl, rfl⟩
      | some e =>
          cases m.ratecheck
          · cases havemtx <;> exact ⟨rfl, rfl, rfl⟩
          · cases havemtx <;> exact ⟨rfl, rfl, rfl⟩

/-- Both functions see one block. -/
theorem prevBlock_fst (havemtx havemtx' : Bool) :
    (prevBlock m s indx bap havemtx).1 = (prevBlock m s indx bap havemtx').1 := by
  unfold prevBlock ufsCheckBlknoMtx ffsCheckBlknoMtx
  split
  · rfl
  · cases m.untrusted
    · rfl
    · cases ffsCheckBlkno m.fs (bap (indx - 1).toNat) m.fs.bsize with
      | none => rfl
      | some e => cases m.ratecheck <;> rfl

theorem prevBlock_cases (hindx : 0 ≤ indx) (havemtx : Bool) :
    (prevBlock m s indx bap havemtx).1 = 0 ∨
      (0 < indx ∧ (prevBlock m s indx bap havemtx).1 = bap (indx - 1).toNat) := by
  unfold prevBlock ufsCheckBlknoMtx ffsCheckBlknoMtx
  split
  · exact .inl rfl
  · next hne =>
      have hpos : 0 < indx := by omega
      cases m.untrusted
      · exact .inr ⟨hpos, rfl⟩
      · cases ffsCheckBlkno m.fs (bap (indx - 1).toNat) m.fs.bsize with
        | none => exact .inr ⟨hpos, rfl⟩
        | some e =>
            cases m.ratecheck
            · exact .inl rfl
            · exact .inl rfl

/-- With the lock announced, it is dropped at most for the message. -/
theorem prevBlock_locked : Replays s.st (prevBlock m s indx bap true).2.st locked locked := by
  have hrefl := Replays.refl s.st locked
  unfold prevBlock ufsCheckBlknoMtx ffsCheckBlknoMtx
  split
  · exact hrefl
  · cases m.untrusted
    · exact hrefl
    · cases ffsCheckBlkno m.fs (bap (indx - 1).toNat) m.fs.bsize with
      | none => exact hrefl
      | some e =>
          cases m.ratecheck
          · exact hrefl
          · exact (hrefl.emit .unlock (k := ⟨false, [], []⟩) rfl).emit .lock rfl

/-- Without, a block that passes leaves the lock alone, and any other takes it again. -/
theorem prevBlock_unlocked_iff (hindx : 0 ≤ indx) :
    Replays s.st (prevBlock m s indx bap false).2.st locked locked ↔
      (0 < indx → m.untrusted = true → ffsCheckBlkno m.fs (bap (indx - 1).toNat) m.fs.bsize = none) := by
  have hrefl := Replays.refl s.st locked
  unfold prevBlock ufsCheckBlknoMtx ffsCheckBlknoMtx
  split
  · next h0 => exact iff_of_true hrefl fun hpos => absurd hpos (by omega)
  · next hne =>
      have hpos : 0 < indx := by omega
      cases m.untrusted
      · exact iff_of_true hrefl fun _ h => by cases h
      · cases hck : ffsCheckBlkno m.fs (bap (indx - 1).toNat) m.fs.bsize with
        | none => exact iff_of_true hrefl fun _ _ => rfl
        | some e =>
            have htwice : ¬ Replays s.st ((s.st.emit .lock).emit .unlock) locked locked := by
              rintro ⟨t, hlog, hrep⟩
              obtain rfl : t = [.unlock, .lock] :=
                List.append_cancel_right (hlog.symm.trans (rfl : _ = [Event.unlock, Event.lock] ++ s.st.log))
              cases hrep
            have hfail : ¬ (0 < indx → true = true → some e = none) := fun h => by cases h hpos rfl
            cases m.ratecheck
            · exact iff_of_false htwice hfail
            · exact iff_of_false htwice hfail

/-! ### The two functions -/

theorem samePlacement_behind (hindx : 0 ≤ indx) (hbehind : BehindIndir m ip lbn) : SamePlacement m s ip lbn indx bap :=
  ⟨ip.ib 0 + m.fs.frag, s, s, ffsBlkprefUfs1_behind hindx hbehind, ffsBlkprefUfs2_behind hindx hbehind, rfl,
    Replays.refl _ _, Replays.refl _ _, .inr (.inr ⟨ip.ib 0, hbehind.2.1, .inr (.inl rfl), rfl⟩)⟩

/-- A data block that does not go behind the indirect block. -/
theorem samePlacement_data_iff (hindx : 0 ≤ indx) (hnot : ¬ BehindIndir m ip lbn) :
    SamePlacement m s ip lbn indx bap ↔
      m.maxbpg ≠ 0 ∧
        (0 < indx → m.untrusted = true → ffsCheckBlkno m.fs (bap (indx - 1).toNat) m.fs.bsize = none) := by
  have hdata1 : ffsBlkprefUfs1 m s ip lbn indx bap = _ := ffsBlkprefUfs1_data hindx hnot
  have hdata2 : ffsBlkprefUfs2 m s ip lbn indx bap = _ := ffsBlkprefUfs2_data hindx hnot
  constructor
  · rintro ⟨pref, s₁, s₂, h1, h2, hrotor, hlock1, hlock2, hplaced⟩
    rw [hdata1] at h1
    have hst := (prefRest_placed (prevBlock_cases hindx false) h1).1
    rw [hst] at hlock1
    refine ⟨fun h0 => ?_, (prevBlock_unlocked_iff hindx).mp hlock1⟩
    rw [prefRest, if_pos h0] at h1
    cases h1
  · rintro ⟨hmax, hpass⟩
    have hc1 : Checked s (prevBlock m s indx bap false).2 := prevBlock_checked false
    have hc2 : Checked s (prevBlock m s indx bap true).2 := prevBlock_checked true
    obtain ⟨pref, rotor, h1, h2⟩ := @prefRest_same _ _ _ ip lbn indx hmax
      (hc2.csp.trans hc1.csp.symm) (hc2.cstotal.trans hc1.cstotal.symm) (hc2.cgrotor.trans hc1.cgrotor.symm)
      (prevBlock m s indx bap false).1
    rw [prevBlock_fst false true] at h2
    exact ⟨pref, _, _, hdata1.trans h1, hdata2.trans h2, rfl, (prevBlock_unlocked_iff hindx).mpr hpass, prevBlock_locked,
      (prefRest_placed (prevBlock_cases hindx false) h1).2⟩

/-- An indirect block. -/
theorem samePlacement_indir_iff (hindx : indx < 0) (hdb : -2 ^ 31 ≤ ip.db (ndaddr - 1) ∧ ip.db (ndaddr - 1) < 2 ^ 31) :
    SamePlacement m s ip lbn indx bap ↔
      (BehindDirect m ip lbn indx → ip.db (ndaddr - 1) + m.fs.frag < 2 ^ 31) := by
  have hfrag : m.fs.frag ≤ 8 := Nat.pow_le_pow_right (by decide) m.fs.fragshift_le
  have hrefl := Replays.refl s.st locked
  have hino := inoToCg_lt ip
  by_cases hbehind : BehindDirect m ip lbn indx
  · have h1 : ffsBlkprefUfs1 m s ip lbn indx bap =
        (i32 (ip.db (ndaddr - 1) + m.fs.frag)).bind fun pref => some (pref, s) := (if_pos hindx).trans (if_pos hbehind)
    have h2 : ffsBlkprefUfs2 m s ip lbn indx bap =
        (i64 (ip.db (ndaddr - 1) + m.fs.frag)).bind fun pref => some (pref, s) := (if_pos hindx).trans (if_pos hbehind)
    rw [i64_eq_some (by omega) (by omega), Option.bind_some] at h2
    constructor
    · rintro ⟨pref, s₁, s₂, hu1, -⟩ -
      by_contra hover
      have hnone : i32 (ip.db (ndaddr - 1) + m.fs.frag) = none := if_neg fun h => hover h.2
      rw [h1, hnone] at hu1
      cases hu1
    · intro hroom
      rw [i32_eq_some (by omega) (hroom hbehind), Option.bind_some] at h1
      exact ⟨_, s, s, h1, h2, rfl, hrefl, hrefl, .inr (.inr ⟨_, hbehind.2.2, .inl rfl, rfl⟩)⟩
  · have h1 : ffsBlkprefUfs1 m s ip lbn indx bap = some (m.fs.cgmeta (m.fs.inoToCg ip.number), s) :=
      (if_pos hindx).trans (if_neg hbehind)
    have h2 : ffsBlkprefUfs2 m s ip lbn indx bap = some (m.fs.cgmeta (m.fs.inoToCg ip.number), s) :=
      (if_pos hindx).trans (if_neg hbehind)
    exact iff_of_true ⟨_, s, s, h1, h2, rfl, hrefl, hrefl, .inr (.inl ⟨_, hino, .inl rfl⟩)⟩ fun h => absurd h hbehind

/-- For every file system, state, inode of it whose pointers fit in 32 bits, block, slot and
array of pointers: the two functions return one place, leave one rotor and keep the lock
exactly when the last direct pointer has room for the addition, the previous block passes the
check of an untrusted mount, and `fs_maxbpg` divides, each where it is needed. -/
theorem blkpref_same_iff (m : PrefMount) (s : PrefState) (ip : PrefInode m.fs) (lbn indx : Int) (bap : Nat → Int)
    (hfits : Fits32 ip bap) : SamePlacement m s ip lbn indx bap ↔ PrefSafe m ip lbn indx bap := by
  by_cases hneg : indx < 0
  · rw [samePlacement_indir_iff hneg (hfits.db _)]
    exact ⟨fun hroom => ⟨hroom, fun hpos => absurd hpos (by omega), fun h0 => absurd h0 (by omega)⟩, fun h => h.room⟩
  · have hindx : 0 ≤ indx := Int.not_lt.mp hneg
    have hroom : ¬ BehindDirect m ip lbn indx := by
      rintro ⟨h1, -⟩
      omega
    by_cases hbehind : BehindIndir m ip lbn
    · exact iff_of_true (samePlacement_behind hindx hbehind)
        ⟨fun h => absurd h hroom, fun _ h => absurd hbehind h, fun _ h => absurd hbehind h⟩
    · rw [samePlacement_data_iff hindx hbehind]
      exact ⟨fun h => ⟨fun hd => absurd hd hroom, fun hpos _ => h.2 hpos, fun _ _ => h.1⟩,
        fun h => ⟨h.divides hindx hbehind, fun hpos => h.passes hpos hbehind⟩⟩

/-- Files with sections of 2048 blocks. -/
def prefMount (untrusted : Bool) : PrefMount := ⟨tinyFs, 2048, untrusted, false⟩

/-- A plain file whose first block is given. -/
def prefFile (untrusted : Bool) (b : Int) : PrefInode (prefMount untrusted).fs where
  number := 3
  number_lt := by cases untrusted <;> decide
  isDir := false
  db i := if i = 0 then b else 0
  ib _ := 0

theorem fits32_prefFile (untrusted : Bool) {b : Int} (hb : -2 ^ 31 ≤ b ∧ b < 2 ^ 31) :
    Fits32 (m := prefMount untrusted) (prefFile untrusted b) (prefFile untrusted b).db where
  db i := by
    show -2 ^ 31 ≤ (if i = 0 then b else 0) ∧ (if i = 0 then b else 0) < 2 ^ 31
    split <;> omega
  ib _ := by
    show -2 ^ 31 ≤ (0 : Int) ∧ (0 : Int) < 2 ^ 31
    decide
  bap i := by
    show -2 ^ 31 ≤ (if i = 0 then b else 0) ∧ (if i = 0 then b else 0) < 2 ^ 31
    split <;> omega

/-- The second block of a file goes behind the first one, on a trusted mount. -/
theorem blkpref_same_iff_second :
    SamePlacement (prefMount false) ⟨tinyState, 0⟩ (prefFile false 4) 1 1 (prefFile false 4).db :=
  (blkpref_same_iff (prefMount false) ⟨tinyState, 0⟩ (prefFile false 4) 1 1 (prefFile false 4).db
      (fits32_prefFile false ⟨by decide, by decide⟩)).mpr
    { room := fun h => absurd h.1 (by decide)
      passes := fun _ _ h => absurd h Bool.false_ne_true
      divides := fun _ _ => by decide }

/-- On an untrusted mount a first block that lies behind the end of the file system fails the
check, and `ffs_blkpref_ufs1` takes the lock that it holds. -/
theorem not_blkpref_same_untrusted :
    ¬ SamePlacement (prefMount true) ⟨tinyState, 0⟩ (prefFile true 100) 1 1 (prefFile true 100).db := by
  intro h
  have hnot : ¬ BehindIndir (prefMount true) (prefFile true 100) 1 := fun hb => absurd hb.1 (by decide)
  have hpass := ((samePlacement_data_iff (by decide) hnot).mp h).2 (by decide) rfl
  exact absurd hpass (by decide)

end UfsX.Proofs.Blkpref
