import UfsX.Proofs.HashallocComplete
import UfsX.Proofs.AllocSystem

/-!
# `UfsX.Proofs.Valloc`: a new inode, and where it is

`ffs_valloc` finds an inode in every state that the allocators can reach, as long as there is
one (`vallocIno_of_run`). It is in the group of the parent, or for a directory in that of
`ffs_dirpref`, if that group has a free inode.

`ffsDirpref_chooses` is about that group. It is the nearest suitable one from the parent on,
and without a suitable group the nearest one that has the average of free inodes. There is
always one (`exists_backstop`), so that the loop never ends without a group.
-/

set_option autoImplicit false

namespace UfsX.Proofs.Valloc

open UfsX.Lib UfsX.Ffs UfsX.Proofs UfsX.Proofs.AllocSystem Finset
open Relation (ReflTransGen TransGen)

variable {fs : Fs} {s s' : State} {p : DirPolicy} {cg rnd inumber mode : Nat} {vroot : Bool}

/-! ### Free inodes -/

/-- Group `cg` has a free inode. -/
def HasInode (fs : Fs) (s : State) (cg : Nat) : Prop := ∃ i < fs.ipg, (s.cgs cg).inosused.isclr i = true

theorem not_hasInode : ¬ HasInode fs s cg ↔ ∀ i < fs.ipg, (s.cgs cg).inosused.isset i = true := by
  unfold HasInode Bitmap.isclr
  simp

section Counts

variable (h : InoOk fs s)
include h

theorem nifree_le (hcg : cg < fs.ncg) : 0 ≤ (s.csp cg).nifree ∧ (s.csp cg).nifree ≤ fs.ipg := by
  have hcard : freeInodes fs (s.cgs cg).inosused ≤ fs.ipg := by
    have hle := card_filter_le (range fs.ipg) fun i => (s.cgs cg).inosused.isclr i = true
    rwa [card_range] at hle
  rw [h.csp_nifree cg hcg, (h.group cg hcg).nifree]
  omega

theorem nifree_pos (hcg : cg < fs.ncg) : 0 < (s.csp cg).nifree ↔ HasInode fs s cg := by
  rw [h.csp_nifree cg hcg, (h.group cg hcg).nifree, Nat.cast_pos, freeInodes, card_pos, filter_nonempty_iff]
  simp only [mem_range]
  rfl

theorem cstotal_nifree : s.cstotal.nifree = ∑ cg ∈ range fs.ncg, (s.csp cg).nifree := by
  rw [h.nifree]
  exact sum_congr rfl fun cg hcg => (h.csp_nifree cg (mem_range.mp hcg)).symm

theorem cstotal_nifree_le : 0 ≤ s.cstotal.nifree ∧ s.cstotal.nifree ≤ fs.ncg * fs.ipg := by
  rw [cstotal_nifree h]
  constructor
  · exact sum_nonneg fun cg hcg => (nifree_le h (mem_range.mp hcg)).1
  · have hle := sum_le_card_nsmul (range fs.ncg) _ _ fun cg hcg => (nifree_le h (mem_range.mp hcg)).2
    rwa [card_range, nsmul_eq_mul] at hle

/-- The total is 0 when all inodes are used. -/
theorem cstotal_nifree_eq_zero : s.cstotal.nifree = 0 ↔ ∀ cg < fs.ncg, ¬ HasInode fs s cg := by
  rw [cstotal_nifree h, sum_eq_zero_iff_of_nonneg fun cg hcg => (nifree_le h (mem_range.mp hcg)).1]
  refine forall_congr' fun cg => ?_
  rw [mem_range]
  refine imp_congr_right fun hcg => ?_
  rw [← nifree_pos h hcg]
  have := nifree_le h hcg
  omega

variable (hgeo : InoGeometry fs)
include hgeo

theorem toU32_nifree (hcg : cg < fs.ncg) : toU32 (s.csp cg).nifree = (s.csp cg).nifree := by
  have hle := nifree_le h hcg
  have hlt := hgeo.cg_mul_lt hcg
  exact toU32_eq_self hle.1 (by omega)

theorem avgifree_eq : s.avgifree fs = s.cstotal.nifree / fs.ncg := by
  have hle := cstotal_nifree_le h
  have hlt := hgeo.ino_lt
  rw [Nat.mul_comm] at hlt
  unfold State.avgifree
  rw [toU32_eq_self hle.1 (by omega)]

/-- No fewer than the average in some group. -/
theorem exists_backstop : ∃ cg < fs.ncg, backstop fs s cg = true := by
  have hpos := fs.ncg_pos
  have hsum : ∑ _cg ∈ range fs.ncg, s.avgifree fs ≤ ∑ cg ∈ range fs.ncg, (s.csp cg).nifree := by
    rw [sum_const, card_range, nsmul_eq_mul, ← cstotal_nifree h, avgifree_eq h hgeo]
    exact Int.mul_ediv_self_le (by omega)
  obtain ⟨cg, hcg, hle⟩ := exists_le_of_sum_le (nonempty_range_iff.mpr hpos.ne') hsum
  refine ⟨cg, mem_range.mp hcg, decide_eq_true ?_⟩
  rwa [toU32_nifree h hgeo (mem_range.mp hcg)]

end Counts

/-! ### `ffs_dirpref` -/

/-- Group `cg` can take a first level directory. -/
def Eligible (fs : Fs) (s : State) (cg : Nat) : Prop := s.roomy fs cg = true ∧ toU32 (s.csp cg).ndir < fs.ipg

theorem rootRound_eq (fs : Fs) (s : State) : rootRound fs s = better (fun cg => toU32 (s.csp cg).ndir) (s.roomy fs) := rfl

/-- A first level directory: the eligible group with the fewest directories, or the one that
`random` has chosen. -/
theorem dirprefCg_root (fs : Fs) (p : DirPolicy) (s : State) (rnd inumber : Nat) :
    ((∀ g < fs.ncg, ¬ Eligible fs s g) ∧ dirprefCg fs p s true rnd inumber = rnd % fs.ncg)
      ∨ (dirprefCg fs p s true rnd inumber < fs.ncg ∧ Eligible fs s (dirprefCg fs p s true rnd inumber)
        ∧ ∀ g < fs.ncg, Eligible fs s g →
          toU32 (s.csp (dirprefCg fs p s true rnd inumber)).ndir ≤ toU32 (s.csp g).ndir) := by
  have hstart := (Nat.mod_lt rnd fs.ncg_pos).le
  have hbest := foldl_better (fun cg => toU32 (s.csp cg).ndir) (s.roomy fs) (circle fs.ncg (rnd % fs.ncg))
    (rnd % fs.ncg, (fs.ipg : Int))
  have hcg : dirprefCg fs p s true rnd inumber
      = ((circle fs.ncg (rnd % fs.ncg)).foldl (rootRound fs s) (rnd % fs.ncg, (fs.ipg : Int))).1 := rfl
  rw [hcg, rootRound_eq]
  generalize (circle fs.ncg (rnd % fs.ncg)).foldl _ _ = best at hbest ⊢
  obtain ⟨hle, -, hfound⟩ := hbest
  rcases hfound with rfl | ⟨hmem, hok, hkey, hlt⟩
  · refine .inl ⟨fun g hg helig => ?_, rfl⟩
    exact absurd helig.2 (not_lt.mpr (hle g ((mem_circle hstart).mpr hg) helig.1))
  · refine .inr ⟨(mem_circle hstart).mp hmem, ⟨hok, hkey.trans_lt hlt⟩, fun g hg helig => ?_⟩
    exact hkey.trans_le (hle g ((mem_circle hstart).mpr hg) helig.1)

theorem dirprefCg_of_suitable {fs : Fs} {p : DirPolicy} {s : State} {inumber cg : Nat} (rnd : Nat)
    (hfind : (circle fs.ncg (inumber / fs.ipg)).find? (suitable fs p s) = some cg) :
    dirprefCg fs p s false rnd inumber = cg := by
  simp [dirprefCg, hfind]

theorem dirprefCg_of_backstop {fs : Fs} {p : DirPolicy} {s : State} {inumber cg : Nat} (rnd : Nat)
    (hfind : (circle fs.ncg (inumber / fs.ipg)).find? (suitable fs p s) = none)
    (hback : (circle fs.ncg (inumber / fs.ipg)).find? (backstop fs s) = some cg) :
    dirprefCg fs p s false rnd inumber = cg := by
  simp [dirprefCg, hfind, hback]

section Chosen

variable (hgeo : InoGeometry fs) (h : InoOk fs s)
include hgeo h

/-- Group `cg` is the nearest one ahead of `start` with the property `P`. -/
def Nearest (fs : Fs) (start : Nat) (P : Nat → Bool) (cg : Nat) : Prop :=
  cg < fs.ncg ∧ P cg = true ∧ ∀ g < fs.ncg, P g = true → ahead fs.ncg start cg ≤ ahead fs.ncg start g

/-- Another directory: the nearest suitable group, or one with the average of free inodes. -/
theorem dirprefCg_nearest (hin : inumber < fs.ipg * fs.ncg) (p : DirPolicy) (rnd : Nat) :
    Nearest fs (inumber / fs.ipg) (suitable fs p s) (dirprefCg fs p s false rnd inumber)
      ∨ (∀ g < fs.ncg, suitable fs p s g = false)
        ∧ Nearest fs (inumber / fs.ipg) (backstop fs s) (dirprefCg fs p s false rnd inumber) := by
  have hstart : inumber / fs.ipg < fs.ncg := Nat.div_lt_of_lt_mul hin
  cases hfind : (circle fs.ncg (inumber / fs.ipg)).find? (suitable fs p s) with
  | some cg =>
      rw [dirprefCg_of_suitable rnd hfind]
      exact .inl (find?_circle hstart hfind)
  | none =>
      refine .inr ⟨(find?_circle_none hstart.le).mp hfind, ?_⟩
      cases hback : (circle fs.ncg (inumber / fs.ipg)).find? (backstop fs s) with
      | some cg =>
          rw [dirprefCg_of_backstop rnd hfind hback]
          exact find?_circle hstart hback
      | none =>
          obtain ⟨cg, hcg, hyes⟩ := exists_backstop h hgeo
          rw [(find?_circle_none hstart.le).mp hback cg hcg] at hyes
          cases hyes

theorem dirprefCg_lt (hin : inumber < fs.ipg * fs.ncg) (p : DirPolicy) (vroot : Bool) (rnd : Nat) :
    dirprefCg fs p s vroot rnd inumber < fs.ncg := by
  cases vroot with
  | true =>
      obtain ⟨-, heq⟩ | ⟨hlt, -⟩ := dirprefCg_root fs p s rnd inumber
      · rw [heq]
        exact Nat.mod_lt rnd fs.ncg_pos
      · exact hlt
  | false =>
      obtain ⟨hlt, -⟩ | ⟨-, hlt, -⟩ := dirprefCg_nearest hgeo h hin p rnd
      · exact hlt
      · exact hlt

/-- The number fits, and is in range. -/
theorem ffsDirpref_eq (hin : inumber < fs.ipg * fs.ncg) (p : DirPolicy) (vroot : Bool) (rnd : Nat) :
    ffsDirpref fs p s vroot rnd inumber = fs.ipg * dirprefCg fs p s vroot rnd inumber := by
  have hlt := dirprefCg_lt hgeo h hin p vroot rnd
  have hmul := Nat.mul_le_mul_left fs.ipg hlt.le
  have hino := hgeo.ino_lt
  unfold ffsDirpref
  rw [← Nat.cast_mul, toU32_eq_self (by omega) (by omega), Int.toNat_natCast]

/-- With as many free inodes as groups, a group that is not chosen at random has one. -/
theorem hasInode_dirprefCg (hin : inumber < fs.ipg * fs.ncg) (hmany : fs.ncg ≤ s.cstotal.nifree) (p : DirPolicy) (rnd : Nat) :
    HasInode fs s (dirprefCg fs p s false rnd inumber) := by
  have hcg := dirprefCg_lt hgeo h hin p false rnd
  have havg : 1 ≤ s.avgifree fs := by
    rw [avgifree_eq h hgeo]
    exact (Int.le_ediv_iff_mul_le (by exact_mod_cast fs.ncg_pos)).mpr (by rwa [Int.one_mul])
  rw [← nifree_pos h hcg, ← toU32_nifree h hgeo hcg]
  obtain ⟨-, hyes, -⟩ | ⟨-, -, hyes, -⟩ := dirprefCg_nearest hgeo h hin p rnd
  · obtain ⟨-, hfree, -⟩ := of_decide_eq_true hyes
    exact (le_max_right _ 1).trans hfree
  · exact havg.trans (of_decide_eq_true hyes)

end Chosen

/-- Where `ffs_dirpref` puts a directory. -/
theorem ffsDirpref_chooses (hgeo : InoGeometry fs) (h : InoOk fs s) (hin : inumber < fs.ipg * fs.ncg) (p : DirPolicy)
    (vroot : Bool) (rnd : Nat) :
    ∃ cg < fs.ncg, ffsDirpref fs p s vroot rnd inumber = fs.ipg * cg
      ∧ (vroot = true → ((∀ g < fs.ncg, ¬ Eligible fs s g) ∧ cg = rnd % fs.ncg)
        ∨ (Eligible fs s cg ∧ ∀ g < fs.ncg, Eligible fs s g → toU32 (s.csp cg).ndir ≤ toU32 (s.csp g).ndir))
      ∧ (vroot = false → Nearest fs (inumber / fs.ipg) (suitable fs p s) cg
        ∨ ((∀ g < fs.ncg, suitable fs p s g = false) ∧ Nearest fs (inumber / fs.ipg) (backstop fs s) cg))
      ∧ (vroot = false → fs.ncg ≤ s.cstotal.nifree → HasInode fs s cg) := by
  refine ⟨_, dirprefCg_lt hgeo h hin p vroot rnd, ffsDirpref_eq hgeo h hin p vroot rnd, ?_, ?_, ?_⟩
  · rintro rfl
    exact (dirprefCg_root fs p s rnd inumber).imp_right And.right
  · rintro rfl
    exact dirprefCg_nearest hgeo h hin p rnd
  · rintro rfl hmany
    exact hasInode_dirprefCg hgeo h hin hmany p rnd

/-- Three groups like that of `inoFs`. -/
def threeFs : Fs :=
  { inoFs with size := 48, ncg := 3, ncg_pos := by decide, ncg_lt := by decide, size_lt := by decide }

/-- The second one has the fewest directories. -/
def threeCg (cg : Nat) : Cg :=
  let c := Cg.ofMap threeFs cg 16 (Bitmap.ofFun fun i => decide (2 ≤ i ∧ i < 16))
  { c with
    cs := { c.cs with ndir := if cg = 1 then 1 else 5, nifree := 64 }
    inosused := Bitmap.ofFun fun i => decide (i < 64)
    initediblk := 64 }

def threeState : State where
  cstotal :=
    { ndir := 11
      nbfree := ∑ cg ∈ range 3, (threeCg cg).cs.nbfree
      nifree := 192
      nffree := ∑ cg ∈ range 3, (threeCg cg).cs.nffree }
  csp cg := (threeCg cg).cs
  maxcluster _ := 4
  fmod := false
  cgs := threeCg
  log := []

theorem inoGeometry_threeFs : InoGeometry threeFs := ⟨by decide, by decide, by decide⟩

theorem inoOk_threeState : InoOk threeFs threeState where
  group _ _ := by
    obtain ⟨hfree, hrotor, hinited⟩ := inoOk_inoState.group 0 (by decide)
    exact ⟨hfree, hrotor, fun h => ⟨(hinited h).niblk, (hinited h).le, (hinited h).dvd, (hinited h).used⟩⟩
  csp_nifree _ _ := rfl
  csp_ndir _ _ := rfl
  nifree := rfl
  ndir := rfl
  zero := rfl

/-- A directory in the root goes to the group with the fewest directories, another one to a
group that has a free inode. -/
theorem ffsDirpref_three :
    ffsDirpref threeFs ⟨16384, 64, fun _ => 0⟩ threeState true 0 2 = threeFs.ipg * 1
      ∧ ∃ cg < threeFs.ncg, ffsDirpref threeFs ⟨16384, 64, fun _ => 0⟩ threeState false 0 300 = threeFs.ipg * cg
        ∧ HasInode threeFs threeState cg := by
  constructor
  · obtain ⟨cg, hcg, heq, hroot, -⟩ := ffsDirpref_chooses inoGeometry_threeFs inoOk_threeState
      (by decide : 2 < threeFs.ipg * threeFs.ncg) ⟨16384, 64, fun _ => 0⟩ true 0
    have helig : Eligible threeFs threeState 1 := ⟨by decide +kernel, by decide⟩
    rcases hroot rfl with ⟨hno, -⟩ | ⟨-, hmin⟩
    · exact absurd helig (hno 1 (by decide))
    · -- only group 1 has one directory
      have hfew := hmin 1 (by decide) helig
      have hone : cg = 1 := by
        have hcg : cg < 3 := hcg
        interval_cases cg
        · exact absurd hfew (by decide)
        · rfl
        · exact absurd hfew (by decide)
      rw [heq, hone]
  · obtain ⟨cg, hcg, heq, -, -, hfree⟩ := ffsDirpref_chooses inoGeometry_threeFs inoOk_threeState
      (by decide : 300 < threeFs.ipg * threeFs.ncg) ⟨16384, 64, fun _ => 0⟩ false 0
    exact ⟨cg, hcg, heq, hfree rfl (by decide)⟩

/-! ### The search -/

theorem hasInode_of_new {ino : Nat} (hnew : NewInode fs cg s ino s') : HasInode fs s cg := by
  have hin := hnew.in_group
  rw [Nat.add_mul, Nat.one_mul] at hin
  exact ⟨_, by omega, hnew.was_free⟩

theorem cg_of_new {ino : Nat} (hnew : NewInode fs cg s ino s') : ino / fs.ipg = cg :=
  Nat.div_eq_of_lt_le hnew.in_group.1 hnew.in_group.2

section Search

variable (hgeo : InoGeometry fs)
include hgeo

theorem nodealloccg_cases (h : InoOk fs s) (hcg : cg < fs.ncg) (busy : List Bool) (ipref mode : Nat) :
    ∃ ino s', ffsNodealloccg fs s (fun _ => 0) busy cg ipref mode = .ok (ino, s') ∧ InoOk fs s'
      ∧ ((ino = 0 ∧ ¬ HasInode fs s cg ∧ MapsKept s s') ∨ (ino ≠ 0 ∧ HasInode fs s cg ∧ NewInode fs cg s ino s')) := by
  obtain ⟨ino, s', hcall, hend⟩ := ffsNodealloccg_end hgeo hcg h (fun _ => 0) busy ipref mode
  refine ⟨ino, s', hcall, ?_⟩
  cases hend with
  | none _ h0 hok hmaps hwhy =>
      have hfull := hwhy.resolve_right fun ⟨_, hne⟩ => hne rfl
      exact ⟨hok, .inl ⟨h0, not_hasInode.mpr hfull, hmaps⟩⟩
  | taken _ hne hok =>
      have hnew := hok.newInode hne
      exact ⟨hok.ok, .inr ⟨hne, hasInode_of_new hnew, hnew⟩⟩
  | errno hbad =>
      obtain ⟨-, -, -, j, -, -, -, herr⟩ := hbad
      exact absurd rfl herr

/-- The inode is in the first group that has one. -/
theorem tryGroups_inodes (busy : Nat → List Bool) (mode : Nat) (tries : List (Nat × Nat)) : ∀ {k : Nat} {s : State},
    InoOk fs s → (∀ x ∈ tries, x.1 < fs.ncg) →
      ∃ ino s', tryGroups (inodeAllocator fs (fun _ _ => 0) busy mode) tries k s = .ok (ino, s')
        ∧ ReflTransGen (InoStep fs) s s'
        ∧ ((ino = 0 ∧ ∀ x ∈ tries, ¬ HasInode fs s x.1)
          ∨ (ino ≠ 0 ∧ ∃ before x after, tries = before ++ x :: after ∧ (∀ y ∈ before, ¬ HasInode fs s y.1)
            ∧ NewInode fs x.1 s ino s')) := by
  induction tries with
  | nil =>
      intro k s h _
      exact ⟨0, s, rfl, .refl, .inl ⟨rfl, fun x hx => absurd hx List.not_mem_nil⟩⟩
  | cons head rest ih =>
      obtain ⟨cg, pref⟩ := head
      intro k s h htries
      have hcg : cg < fs.ncg := htries _ List.mem_cons_self
      obtain ⟨ino, t, hone, hok, hend⟩ := nodealloccg_cases hgeo h hcg (busy k) pref mode
      have hcall : inodeAllocator fs (fun _ _ => 0) busy mode k s cg pref = .ok (ino, t) := hone
      have hstep : InoStep fs s t := .alloc (busy k) cg pref mode ino hcg hone
      rw [tryGroups, hcall]
      simp only [bind, Except.bind]
      rcases hend with ⟨rfl, hnone, hmaps⟩ | ⟨hne, -, hnew⟩
      · -- the next groups have the same maps
        have hsame (g : Nat) : HasInode fs t g ↔ HasInode fs s g := by
          unfold HasInode
          rw [hmaps.inosused]
        obtain ⟨ino, s', htry, hrun, hrest⟩ := ih (k := k + 1) hok fun x hx => htries x (List.mem_cons_of_mem _ hx)
        refine ⟨ino, s', htry, .head hstep hrun, ?_⟩
        rcases hrest with ⟨h0, hall⟩ | ⟨hne, before, x, after, rfl, hbefore, hnew⟩
        · refine .inl ⟨h0, List.forall_mem_cons.mpr ⟨hnone, fun x hx => ?_⟩⟩
          exact mt (hsame x.1).mpr (hall x hx)
        · refine .inr ⟨hne, (cg, pref) :: before, x, after, rfl, List.forall_mem_cons.mpr ⟨hnone, fun y hy => ?_⟩, ?_⟩
          · exact mt (hsame y.1).mpr (hbefore y hy)
          · have hfree := hnew.was_free
            rw [hmaps.inosused] at hfree
            exact ⟨hnew.in_group, hfree, hnew.is_used⟩
      · rw [if_pos hne]
        exact ⟨ino, t, rfl, .single hstep, .inr ⟨hne, [], (cg, pref), rest, rfl, fun y hy => absurd hy List.not_mem_nil, hnew⟩⟩

/-- The group that is asked first has the inode, if it has a free one. -/
theorem hashalloc_inode (h : InoOk fs s) (hcg : cg < fs.ncg) (busy : Nat → List Bool) (ipref mode : Nat) :
    ∃ ino s', ffsHashalloc fs (inodeAllocator fs (fun _ _ => 0) busy mode) s cg ipref = .ok (ino, s')
      ∧ ReflTransGen (InoStep fs) s s' ∧ (ino = 0 ↔ ∀ g < fs.ncg, ¬ HasInode fs s g)
      ∧ (ino ≠ 0 → ∃ g < fs.ncg, NewInode fs g s ino s' ∧ (HasInode fs s cg → g = cg)) := by
  have hlt : ∀ x ∈ hashallocTries fs cg ipref, x.1 < fs.ncg := hashallocTries_lt hcg
  obtain ⟨ino, s', hcall, hrun, hend⟩ := tryGroups_inodes hgeo busy mode _ (k := 0) h hlt
  refine ⟨ino, s', hcall, hrun, ?_⟩
  rcases hend with ⟨rfl, hall⟩ | ⟨hne, before, x, after, htries, hbefore, hnew⟩
  · refine ⟨iff_of_true rfl fun g hg => ?_, fun hne => absurd rfl hne⟩
    obtain ⟨q, hq⟩ : ∃ q, (g, q) ∈ hashallocTries fs cg ipref := hashallocTries_all hcg hg
    exact hall _ hq
  · have hx : x.1 < fs.ncg := hlt x (by rw [htries]; simp)
    refine ⟨iff_of_false hne fun hall => hall x.1 hx (hasInode_of_new hnew), fun _ => ⟨x.1, hx, hnew, fun hhas => ?_⟩⟩
    cases before with
    | nil => exact (congrArg Prod.fst (List.cons.inj htries).1).symm
    | cons y before =>
        have hy : y = (cg, ipref) := (List.cons.inj htries).1.symm
        exact absurd (hy ▸ hhas) (hbefore y List.mem_cons_self)

end Search

/-! ### `ffs_valloc` -/

/-- The group that `ffs_valloc` begins with. -/
def firstCg (fs : Fs) (p : DirPolicy) (s : State) (vroot : Bool) (rnd inumber mode : Nat) : Nat :=
  if isDir mode then dirprefCg fs p s vroot rnd inumber else inumber / fs.ipg

section Valloc

variable (hgeo : InoGeometry fs) (h : InoOk fs s) (hin : inumber < fs.ipg * fs.ncg)
include hgeo h hin

/-- The preferred inode is in the group that the search begins with. -/
theorem vallocPref_cg (p : DirPolicy) (vroot : Bool) (rnd mode : Nat) :
    vallocPref fs (if isDir mode then ffsDirpref fs p s vroot rnd inumber else inumber) / fs.ipg
      = firstCg fs p s vroot rnd inumber mode := by
  have hpref {ino : Nat} (hino : ino < fs.ipg * fs.ncg) : vallocPref fs ino = ino := by
    have hlt := hgeo.ino_lt
    unfold vallocPref
    rw [Int.mul_comm, ← Nat.cast_mul, toU32_eq_self (by omega) (by omega), if_neg (by omega)]
  unfold firstCg
  split
  case isTrue =>
    have hcg := dirprefCg_lt hgeo h hin p vroot rnd
    rw [ffsDirpref_eq hgeo h hin, hpref (Nat.mul_lt_mul_of_pos_left hcg fs.ipg_pos), Nat.mul_div_cancel_left _ fs.ipg_pos]
  case isFalse => rw [hpref hin]

theorem firstCg_lt (p : DirPolicy) (vroot : Bool) (rnd mode : Nat) : firstCg fs p s vroot rnd inumber mode < fs.ncg := by
  unfold firstCg
  split
  case isTrue => exact dirprefCg_lt hgeo h hin p vroot rnd
  case isFalse => exact Nat.div_lt_of_lt_mul hin

theorem vallocIno_spec (p : DirPolicy) (t' : VallocTry) (vroot : Bool) (rnd mode : Nat) (busy : Nat → List Bool) :
    ∃ ino p' s', vallocIno fs ⟨rnd, fun _ _ => 0, busy⟩ t' vroot inumber mode p s = .ok (ino, p', s')
      ∧ ReflTransGen (InoStep fs) s s' ∧ (ino = 0 ↔ ∀ g < fs.ncg, ¬ HasInode fs s g)
      ∧ (ino ≠ 0 → ∃ g < fs.ncg, NewInode fs g s ino s'
        ∧ (HasInode fs s (firstCg fs p s vroot rnd inumber mode) → g = firstCg fs p s vroot rnd inumber mode)) := by
  have hzero := cstotal_nifree_eq_zero h
  unfold vallocIno vallocTry
  by_cases h0 : s.cstotal.nifree = 0
  · refine ⟨0, p, s, ?_, .refl, iff_of_true rfl (hzero.mp h0), fun hne => absurd rfl hne⟩
    rw [if_pos h0]
    exact if_pos h0
  · have hcg := firstCg_lt hgeo h hin p vroot rnd mode
    obtain ⟨ino, s', hcall, hrun, hiff, hnew⟩ := hashalloc_inode hgeo h hcg busy
      (vallocPref fs (if isDir mode then ffsDirpref fs p s vroot rnd inumber else inumber)) mode
    have hne : ino ≠ 0 := fun hino => h0 (hzero.mpr (hiff.mp hino))
    refine ⟨ino, p.track (firstCg fs p s vroot rnd inumber mode) mode, s', ?_, hrun, hiff, hnew⟩
    simp only [if_neg h0, vallocPref_cg hgeo h hin, hcall]
    exact if_pos hne

end Valloc

/-- In every state that the allocators reach, `ffs_valloc` finds an inode unless all are in use.
It was free, and the search is a part of the run. -/
theorem vallocIno_of_run {s₀ : State} {l : List Range} (hgeo : InoGeometry fs) (hok : FsOk fs s₀) (hino : InoOk fs s₀)
    (hboot : freeAt fs s₀ 0 = false) (hrun : ReflTransGen (SystemStep fs) (s₀, []) (s, l))
    (hin : inumber < fs.ipg * fs.ncg) (p : DirPolicy) (t' : VallocTry) (vroot : Bool) (rnd mode : Nat)
    (busy : Nat → List Bool) :
    ∃ ino p' s', vallocIno fs ⟨rnd, fun _ _ => 0, busy⟩ t' vroot inumber mode p s = .ok (ino, p', s')
      ∧ ReflTransGen (SystemStep fs) (s₀, []) (s', l)
      ∧ (ino = 0 ↔ ∀ g < fs.ncg, ¬ HasInode fs s g)
      ∧ (ino ≠ 0 → ino < fs.ipg * fs.ncg ∧ NewInode fs (ino / fs.ipg) s ino s'
        ∧ (HasInode fs s (firstCg fs p s vroot rnd inumber mode) → ino / fs.ipg = firstCg fs p s vroot rnd inumber mode)) := by
  have hinv := SystemInv.run hgeo hok hino hboot hrun
  obtain ⟨ino, p', s', hcall, hsteps, hiff, hnew⟩ := vallocIno_spec hgeo hinv.inodes hin p t' vroot rnd mode busy
  refine ⟨ino, p', s', hcall, hrun.trans ?_, hiff, fun hne => ?_⟩
  · exact hsteps.lift (fun s => (s, l)) fun _ _ hstep => .inode hstep
  · obtain ⟨g, hg, hnew, hfirst⟩ := hnew hne
    have hlt : ino < fs.ipg * fs.ncg :=
      hnew.in_group.2.trans_le ((Nat.mul_le_mul_right _ hg).trans (Nat.mul_comm _ _).le)
    rw [cg_of_new hnew]
    exact ⟨hlt, hnew, hfirst⟩

theorem fsOk_threeState : FsOk threeFs threeState := by
  have hmap (cg : Nat) (hcg : cg < 3) :
      CgOk threeFs cg (Cg.ofMap threeFs cg 16 (Bitmap.ofFun fun i => decide (2 ≤ i ∧ i < 16))) := by
    refine cgOk_ofMap ?_ fun i hlo _ => ?_
    · show 16 * cg + 16 ≤ 48
      omega
    · have hfpg : threeFs.fpg = 16 := rfl
      rw [Bitmap.isset_ofFun, decide_eq_false]
      omega
  refine ⟨fun cg hcg => ?_, fun _ _ => rfl, rfl, rfl, rfl, rfl⟩
  obtain ⟨hcgx, hle, hsize, hbeyond, hfrotor, hncl⟩ := (hmap cg hcg).layout
  exact ⟨⟨hcgx, hle, hsize, hbeyond, hfrotor, hncl⟩, (hmap cg hcg).nbfree, (hmap cg hcg).nffree, (hmap cg hcg).frsum,
    (hmap cg hcg).clusters⟩

theorem ok_of_toOption {ε α : Type} {x : Except ε α} {a : α} (h : x.toOption = some a) : x = .ok a := by
  cases x with
  | error e => cases h
  | ok b => rw [Option.some.inj h]

theorem boot_threeState : freeAt threeFs threeState 0 = false := by
  show (Bitmap.ofFun fun i => decide (2 ≤ i ∧ i < 16)).isset 0 = false
  rw [Bitmap.isset_ofFun]
  rfl


/-- A block of the last group is taken, and then an inode of the middle one. -/
theorem takeTwo :
    ∃ s₁ s, ffsAlloccg threeFs threeState 0 2 0 16384 16384 = .ok (34, s₁)
      ∧ ffsNodealloccg threeFs s₁ (fun _ => 0) [] 1 0 0o100644 = .ok (192, s)
      ∧ (s.cgs 2).inosused.isclr 64 = true := by
  have heval : ((ffsAlloccg threeFs threeState 0 2 0 16384 16384).toOption.bind fun r =>
      (ffsNodealloccg threeFs r.2 (fun _ => 0) [] 1 0 0o100644).toOption.map fun t =>
        (r.1, t.1, (t.2.cgs 2).inosused.isclr 64)) = some (34, 192, true) := by
    decide +kernel
  obtain ⟨⟨r, s₁⟩, hblock, heval⟩ := Option.bind_eq_some_iff.mp heval
  obtain ⟨⟨ino, s⟩, hinode, heval⟩ := Option.map_eq_some_iff.mp heval
  obtain ⟨rfl, rfl, hfree⟩ : r = 34 ∧ ino = 192 ∧ (s.cgs 2).inosused.isclr 64 = true := by simpa using heval
  exact ⟨s₁, s, ok_of_toOption hblock, ok_of_toOption hinode, hfree⟩

/-- After both, a file gets an inode in the group of its parent, which is the last one. -/
theorem vallocIno_three :
    ∃ s l ino p' s', TransGen (SystemStep threeFs) (threeState, []) (s, l) ∧ l ≠ []
      ∧ vallocIno threeFs ⟨0, fun _ _ => 0, fun _ => []⟩ ⟨0, fun _ _ => 0, fun _ => []⟩ false 300 0o100644
        ⟨16384, 64, fun _ => 0⟩ s = .ok (ino, p', s')
      ∧ ino / threeFs.ipg = 2 ∧ ReflTransGen (SystemStep threeFs) (threeState, []) (s', l) := by
  obtain ⟨s₁, s₂, hblock, hinode, hfree⟩ := takeTwo
  have hfirst : SystemStep threeFs (threeState, []) (s₁, [⟨2, 34, 2⟩]) :=
    .block (.alloccg (n := 2) (by decide) (by decide) (by decide) (.inl rfl) hblock)
  have hsecond : SystemStep threeFs (s₁, [⟨2, 34, 2⟩]) (s₂, [⟨2, 34, 2⟩]) :=
    .inode (.alloc [] 1 0 0o100644 192 (by decide) hinode)
  have hrun : TransGen (SystemStep threeFs) (threeState, []) (s₂, [⟨2, 34, 2⟩]) := .tail (.single hfirst) hsecond
  obtain ⟨ino, p', s', hcall, hrun', hnone, hnew⟩ := vallocIno_of_run inoGeometry_threeFs fsOk_threeState inoOk_threeState
    boot_threeState hrun.to_reflTransGen (by decide : 300 < threeFs.ipg * threeFs.ncg) ⟨16384, 64, fun _ => 0⟩
    ⟨0, fun _ _ => 0, fun _ => []⟩ false 0 0o100644 fun _ => []
  have hhas : HasInode threeFs s₂ 2 := ⟨64, by decide, hfree⟩
  have hne : ino ≠ 0 := fun h0 => hnone.mp h0 2 (by decide) hhas
  exact ⟨s₂, _, ino, p', s', hrun, by simp, hcall, (hnew hne).2.2 hhas, hrun'⟩

end UfsX.Proofs.Valloc
