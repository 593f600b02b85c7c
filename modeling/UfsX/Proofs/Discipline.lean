import UfsX.Proofs.AllocRun

/-!
# `UfsX.Proofs.Discipline`: the UFS lock and the group buffers

The allocators of a cylinder group are entered with the UFS lock held, drop it
to read the group, and return with the lock held when they fail and without it
when they succeed. `replay` follows the lock and the buffers through a log and
stops at the first operation that is not allowed: a lock taken twice, a lock
dropped that is not held, a buffer released that is not held.

`Disciplined` is what a call promises. `ffs_clusteralloc` keeps it always.
`ffs_alloccg` and `ffs_fragextend` keep it exactly when they do not have to read
a group that cannot be read: on that path they release a null buffer. Nothing is
assumed about the counts of the group, and of its maps only what `Bounded` says.
-/

set_option autoImplicit false

namespace UfsX.Proofs

open UfsX.Lib UfsX.Ffs

/-! ### Replaying a log -/

/-- A buffer that a function holds. -/
inductive Buf where
  | cg (cg : Nat)
  | ino (cg i : Nat)
  deriving DecidableEq, Repr

/-- The lock, the buffers held, and the groups written so far. -/
structure Held where
  lock : Bool
  bufs : List Buf
  written : List Nat
  deriving DecidableEq, Repr

namespace Held

/-- Give a buffer up that is held. -/
def drop (h : Held) (b : Buf) : Option Held :=
  if b ∈ h.bufs then some { h with bufs := h.bufs.erase b } else none

/-- One operation, if it is allowed. -/
def event (h : Held) : Event → Option Held
  | .lock => if h.lock then none else some { h with lock := true }
  | .unlock => if h.lock then some { h with lock := false } else none
  | .getcg cg => some { h with bufs := .cg cg :: h.bufs }
  | .brelse cg => h.drop (.cg cg)
  | .brelseNull => none
  | .bdwrite cg => (h.drop (.cg cg)).map fun h => { h with written := cg :: h.written }
  | .getino cg i => some { h with bufs := .ino cg i :: h.bufs }
  | .inoWrite cg i => h.drop (.ino cg i)
  | .inoRelse cg i => h.drop (.ino cg i)

/-- A log, latest operation first. -/
def replay (h : Held) : List Event → Option Held
  | [] => some h
  | e :: t => (h.replay t).bind fun h' => h'.event e

theorem replay_append (h : Held) (t t' : List Event) :
    h.replay (t ++ t') = (h.replay t').bind fun h' => h'.replay t := by
  induction t with
  | nil => simp [replay]
  | cons e t ih => simp [replay, ih, Option.bind_assoc]

end Held

/-- The lock alone, as a caller holds it. -/
def locked : Held := ⟨true, [], []⟩

/-- What happens between `s` and `s'` is allowed and takes `h` to `h'`. -/
def Replays (s s' : State) (h h' : Held) : Prop :=
  ∃ t, s'.log = t ++ s.log ∧ h.replay t = some h'

namespace Replays

variable {s s' s'' : State} {h h' h'' : Held}

theorem refl (s : State) (h : Held) : Replays s s h h := ⟨[], rfl, rfl⟩

theorem trans (h₁ : Replays s s' h h') (h₂ : Replays s' s'' h' h'') : Replays s s'' h h'' := by
  obtain ⟨t₁, hlog₁, hrep₁⟩ := h₁
  obtain ⟨t₂, hlog₂, hrep₂⟩ := h₂
  refine ⟨t₂ ++ t₁, by rw [hlog₂, hlog₁, List.append_assoc], ?_⟩
  rw [Held.replay_append, hrep₁]
  exact hrep₂

/-- One more operation. -/
theorem emit {k : Held} (h₁ : Replays s s' h h') (e : Event) (he : h'.event e = some k) :
    Replays s (s'.emit e) h k := by
  obtain ⟨t, hlog, hrep⟩ := h₁
  refine ⟨e :: t, by rw [State.emit, hlog]; rfl, ?_⟩
  rw [Held.replay, hrep]
  exact he

/-- A change that is not logged. -/
theorem congr (h₁ : Replays s s' h h') (hlog : s''.log = s'.log) : Replays s s'' h h' := by
  obtain ⟨t, ht, hrep⟩ := h₁
  exact ⟨t, hlog.trans ht, hrep⟩

theorem unique (h₁ : Replays s s' h h') (h₂ : Replays s s' h h'') : h' = h'' := by
  obtain ⟨t₁, hlog₁, hrep₁⟩ := h₁
  obtain ⟨t₂, hlog₂, hrep₂⟩ := h₂
  obtain rfl : t₁ = t₂ := List.append_cancel_right (hlog₁.symm.trans hlog₂)
  exact Option.some.inj (hrep₁.symm.trans hrep₂)

end Replays

/-! ### What a call promises -/

/-- The free maps and the counts are the same in both states. -/
structure MapsKept (s s' : State) : Prop where
  cstotal : s'.cstotal = s.cstotal
  csp : s'.csp = s.csp
  cs : ∀ g, (s'.cgs g).cs = (s.cgs g).cs
  blksfree : ∀ g, (s'.cgs g).blksfree = (s.cgs g).blksfree
  frsum : ∀ g, (s'.cgs g).frsum = (s.cgs g).frsum
  clustersfree : ∀ g, (s'.cgs g).clustersfree = (s.cgs g).clustersfree
  clustersum : ∀ g, (s'.cgs g).clustersum = (s.cgs g).clustersum
  inosused : ∀ g, (s'.cgs g).inosused = (s.cgs g).inosused

theorem MapsKept.of_cgs {s s' : State} (hcgs : s'.cgs = s.cgs) (hcsp : s'.csp = s.csp)
    (htot : s'.cstotal = s.cstotal) : MapsKept s s' :=
  ⟨htot, hcsp, fun _ => by rw [hcgs], fun _ => by rw [hcgs], fun _ => by rw [hcgs],
    fun _ => by rw [hcgs], fun _ => by rw [hcgs], fun _ => by rw [hcgs]⟩

theorem MapsKept.trans {s s' s'' : State} (h : MapsKept s s') (h' : MapsKept s' s'') :
    MapsKept s s'' :=
  ⟨h'.1.trans h.1, h'.2.trans h.2, fun g => (h'.3 g).trans (h.3 g),
    fun g => (h'.4 g).trans (h.4 g), fun g => (h'.5 g).trans (h.5 g),
    fun g => (h'.6 g).trans (h.6 g), fun g => (h'.7 g).trans (h.7 g),
    fun g => (h'.8 g).trans (h.8 g)⟩

/-- A call in group `cg` that is entered with the lock held and returns `r`. A
failure keeps the lock, all buffers are given back, and the maps are as before.
A success drops the lock and writes the group once, and `New` says that `r` is
the address of what has been allocated. -/
structure Disciplined (cg : Nat) (s : State) (r : Nat) (s' : State) (New : Prop) : Prop where
  fails : r = 0 → Replays s s' locked locked ∧ MapsKept s s'
  succeeds : r ≠ 0 → Replays s s' locked ⟨false, [], [cg]⟩ ∧ New

/-- While the group's buffer is held. -/
def opened (cg : Nat) : Held := ⟨false, [.cg cg], []⟩

variable {fs : Fs}

theorem replays_cgOpen (s : State) (cg : Nat) : Replays s (cgOpen s 0 cg) locked (opened cg) :=
  ((Replays.refl s locked).emit .unlock rfl).emit (.getcg cg) rfl

theorem drop_self (l : Bool) (b : Buf) (w : List Nat) :
    (⟨l, [b], w⟩ : Held).drop b = some ⟨l, [], w⟩ := by
  simp [Held.drop]

/-- Released, and the lock taken again. -/
theorem replays_release {s s' : State} {h : Held} {cg : Nat} (hr : Replays s s' h (opened cg)) :
    Replays s ((s'.emit (.brelse cg)).emit .lock) h locked :=
  (hr.emit (.brelse cg) (drop_self _ _ _)).emit .lock rfl

/-- The other order, of `ffs_clusteralloc`. -/
theorem replays_release' {s s' : State} {h : Held} {cg : Nat} (hr : Replays s s' h (opened cg)) :
    Replays s ((s'.emit .lock).emit (.brelse cg)) h locked :=
  (hr.emit .lock (k := ⟨true, [.cg cg], []⟩) rfl).emit (.brelse cg) (drop_self _ _ _)

/-- The lock dropped, and the group written. -/
theorem replays_write {s s' : State} {h : Held} {cg : Nat}
    (hr : Replays s s' h ⟨true, [.cg cg], []⟩) :
    Replays s ((s'.emit .unlock).emit (.bdwrite cg)) h ⟨false, [], [cg]⟩ := by
  refine (hr.emit .unlock (k := opened cg) rfl).emit (.bdwrite cg) ?_
  show ((opened cg).drop (.cg cg)).map _ = _
  rw [opened, drop_self]
  rfl

/-- A log with a null buffer in it cannot be replayed. -/
theorem not_replays_null {s : State} {h h' : Held} {cg gerr : Nat} (hg : gerr ≠ 0) :
    ¬ Replays s (cgFail (cgOpen s gerr cg) gerr cg).2 h h' := by
  rintro ⟨t, hlog, hrep⟩
  have ht : t = [.lock, .brelseNull, .unlock] := by
    have hfail : (cgFail (cgOpen s gerr cg) gerr cg).2.log
        = [.lock, .brelseNull, .unlock] ++ s.log := by
      simp [cgFail, cgOpen, State.emit, hg]
    exact List.append_cancel_right (hlog.symm.trans hfail)
  subst ht
  cases hl : h.lock <;> simp [Held.replay, Held.event, hl] at hrep

/-! ### Calls of `ffs_alloccgblk` -/

theorem ffsClusteracct_log (s : State) (cg b : Nat) (cnt : Int) :
    (ffsClusteracct fs s cg b cnt).log = s.log := by
  unfold ffsClusteracct
  split <;> rfl

theorem alloccgblkTake_log (s : State) (cg bno size : Nat) :
    (alloccgblkTake fs s cg bno size).2.log = s.log := by
  have htake : ∀ cgx b, (takeBlock fs s cg cgx b).log = s.log := fun cgx b =>
    ffsClusteracct_log _ cg b (-1)
  unfold alloccgblkTake
  dsimp only
  split
  · exact htake (s.cgs cg).cgx (fs.fragstoblks bno)
  · exact htake (s.cgs cg).cgx (fs.fragstoblks bno)

theorem ffsAlloccgblk_log {s s' : State} {cg bpref size r : Nat}
    (h : ffsAlloccgblk fs s cg bpref size = .ok (r, s')) :
    s'.log = .lock :: .unlock :: s.log := by
  unfold ffsAlloccgblk at h
  dsimp only at h
  split at h
  · obtain ⟨-, rfl⟩ := Prod.mk.inj (Except.ok.inj h)
    simp [State.emit, alloccgblkTake_log]
  · cases hm : ffsMapsearch fs (s.cgs cg) (alloccgblkPref fs (s.cgs cg) bpref) fs.frag with
    | error e =>
        rw [hm] at h
        cases h
    | ok found =>
        rw [hm] at h
        obtain ⟨-, rfl⟩ := Prod.mk.inj (Except.ok.inj h)
        simp [State.emit, alloccgblkTake_log, State.modCg, State.setCg]

/-- With the lock held, a call drops it for a moment. -/
theorem replays_alloccgblk {s s₁ s' : State} {h : Held} {bufs : List Buf} {cg bpref size r : Nat}
    (hr : Replays s s₁ h ⟨true, bufs, []⟩) (hcall : ffsAlloccgblk fs s₁ cg bpref size = .ok (r, s')) :
    Replays s s' h ⟨true, bufs, []⟩ := by
  have hstep := (hr.emit .unlock (k := ⟨false, bufs, []⟩) rfl).emit .lock
    (k := ⟨true, bufs, []⟩) rfl
  exact hstep.congr (ffsAlloccgblk_log hcall)

/-- What is free is not at address 0. -/
theorem addr_ne_zero {s : State} {cg p : Nat} (hboot : freeAt fs s 0 = false)
    (hfree : (s.cgs cg).blksfree.isset p = true) : fs.cgbase cg + p ≠ 0 := by
  intro h0
  obtain ⟨hbase, rfl⟩ := Nat.add_eq_zero_iff.mp h0
  have hcg : cg = 0 := (Nat.mul_eq_zero.mp hbase).resolve_left fs.fpg_pos.ne'
  rw [hcg] at hfree
  simp [freeAt, Fs.dtog, Fs.dtogd, hfree] at hboot

/-! ### What the searches find -/

/-- What the searches rely on in a group, whatever it counts: it has the number that `ffs_getcg`
checks, its rotor lies in it, and nothing behind its end is free. -/
structure Bounded (fs : Fs) (cg : Nat) (c : Cg) : Prop where
  cgx : c.cgx = cg
  frotor : c.frotor < fs.fpg
  beyond : ∀ i, fs.fpg ≤ i → i < fs.mapBytes * 8 → c.blksfree.isset i = false

theorem CgLayout.bounded {cg : Nat} {c : Cg} (h : CgLayout fs cg c) : Bounded fs cg c :=
  ⟨h.cgx, h.frotor, fun i hi => h.beyond i (h.ndblk_le.trans hi)⟩

theorem FsOk.bounded {s : State} {cg : Nat} (h : FsOk fs s) (hcg : cg < fs.ncg) : Bounded fs cg (s.cgs cg) :=
  (h.cg cg hcg).layout.bounded

/-- A change of the free map that takes bits away. -/
theorem Bounded.took {cg p n : Nat} {c c' : Cg} (h : Bounded fs cg c) (htook : Took c.blksfree c'.blksfree p n)
    (hcgx : c'.cgx = c.cgx) (hfrotor : c'.frotor < fs.fpg) : Bounded fs cg c' :=
  ⟨hcgx.trans h.cgx, hfrotor, fun i hi hi' => htook.beyond (h.beyond i hi hi')⟩

/-- What `ffs_mapsearch` finds is a run of the group. -/
theorem Bounded.mapsearch {cg bpref k f x : Nat} {c : Cg} (h : Bounded fs cg c) (hk : 0 < k) (hkf : k ≤ fs.frag)
    (hcall : ffsMapsearch fs c bpref k = .ok (f, x)) :
    f < fs.fpg ∧ ∃ b < fs.nblk, ∃ p, x = b * fs.frag + p ∧ IsRun (blkBits fs c.blksfree b) fs.frag p k := by
  -- one of the two scans has stopped at a byte with such a run
  have hoffers : ∃ i < fs.mapBytes, ByteOffers fs c.blksfree i k := by
    have hfpg := fs.fpg_pos
    have hfrotor := h.frotor
    unfold ffsMapsearch at hcall
    generalize hstart : (if bpref ≠ 0 then fs.dtogd bpref / 8 else c.frotor / 8) = start at hcall
    have hlt : start < fs.mapBytes := by
      have hd : fs.dtogd bpref < fs.fpg := Nat.mod_lt _ hfpg
      unfold Fs.mapBytes
      rw [← hstart]
      split <;> omega
    by_cases h1 : scanc c.blksfree (fragtbl fs.frag) (fs.fragMask k) (fs.mapBytes - start) start = 0
    · by_cases h2 : scanc c.blksfree (fragtbl fs.frag) (fs.fragMask k) (start + 1) 0 = 0
      · simp only [if_pos h1, if_pos h2] at hcall
        cases hcall
      · obtain ⟨hbyte, hbound⟩ := scanc_hit fs c.blksfree hk hkf h2
        exact ⟨_, by omega, hbyte⟩
    · obtain ⟨hbyte, hbound⟩ := scanc_hit fs c.blksfree hk hkf h1
      exact ⟨_, by omega, hbyte⟩
  obtain ⟨i, hi, hoff⟩ := hoffers
  obtain ⟨f', b, p, heq, hf, hb, hrun⟩ := ffsMapsearch_spec fs c bpref hk hkf h.frotor hi hoff
  obtain ⟨rfl, rfl⟩ := Prod.mk.inj (Except.ok.inj (heq.symm.trans hcall))
  refine ⟨hf, b, ?_, p, rfl, hrun⟩
  -- the run has a bit that is set, so that its block is not behind the end of the group
  have hset : c.blksfree.isset (b * fs.frag + p) = true := by
    have h0 := hrun.2.2.1 0 hk
    rwa [Nat.add_zero] at h0
  have hin := block_in_byte fs b
  have hpk := hrun.2.1
  by_contra hge
  have hmul : fs.nblk * fs.frag ≤ b * fs.frag := Nat.mul_le_mul_right _ (not_lt.mp hge)
  rw [fs.nblk_mul_frag] at hmul
  rw [h.beyond _ (by omega) (by omega)] at hset
  cases hset

theorem ffsClusteracct_keeps (fs : Fs) (s : State) (cg b : Nat) (cnt : Int) :
    ∃ cf sum mx, ffsClusteracct fs s cg b cnt
      = { s.setCg cg { s.cgs cg with clustersfree := cf, clustersum := sum } with maxcluster := mx } := by
  by_cases hc : fs.contigsumsize = 0
  · exact ⟨_, _, _, ffsClusteracct_none s cg b cnt hc⟩
  · rw [ffsClusteracct, if_neg hc]
    exact ⟨_, _, _, rfl⟩

theorem dtogd_cgbase_add {cg p : Nat} (hp : p < fs.fpg) : fs.dtogd (fs.cgbase cg + p) = p := by
  rw [Fs.dtogd, Fs.cgbase, Nat.mul_add_mod, Nat.mod_eq_of_lt hp]

/-- The tail of `ffs_alloccgblk` takes the first `n` fragments of a free block. -/
theorem alloccgblkTake_took {s : State} {cg b n : Nat} (h : Bounded fs cg (s.cgs cg)) (hb : b < fs.nblk)
    (hw : whole fs (blkBits fs (s.cgs cg).blksfree b) = true) (hnf : n ≤ fs.frag) :
    (alloccgblkTake fs s cg (b * fs.frag) (n * fs.fsize)).1 = fs.cgbase cg + b * fs.frag
      ∧ Took (s.cgs cg).blksfree ((alloccgblkTake fs s cg (b * fs.frag) (n * fs.fsize)).2.cgs cg).blksfree (b * fs.frag) n
      ∧ Bounded fs cg ((alloccgblkTake fs s cg (b * fs.frag) (n * fs.fsize)).2.cgs cg) := by
  have hend := block_end_le hb
  have hpos := fs.frag_pos
  have hdtogd : fs.dtogd (fs.cgbase cg + b * fs.frag) = b * fs.frag :=
    dtogd_cgbase_add (by omega)
  have hwhole := took_ffsClrblock fs (s.cgs cg).blksfree b
  unfold alloccgblkTake takeBlock
  simp only [h.cgx, fs.fragstoblks_mul, numfrags_mul]
  obtain ⟨cf, sum, mx, hacct⟩ := ffsClusteracct_keeps fs
    (s.modCg cg fun c => { c with blksfree := ffsClrblock fs c.blksfree b }) cg b (-1)
  rw [hacct]
  split
  case isTrue =>
      rw [hdtogd]
      have htook := took_setRange (s.cgs cg).blksfree hnf hw
      refine ⟨rfl, ?_, ?_⟩
      · simp [giveTail, State.addNffree, State.addNbfree, State.modCg, State.setCg]
        exact htook
      · refine Bounded.took (p := b * fs.frag) (n := n) h ?_ ?_ ?_
        all_goals simp [giveTail, State.addNffree, State.addNbfree, State.modCg, State.setCg]
        · exact htook
        · exact h.frotor
  case isFalse hn =>
      obtain rfl : n = fs.frag := not_not.mp hn
      refine ⟨rfl, ?_, ?_⟩
      · simp [State.addNbfree, State.modCg, State.setCg]
        exact hwhole
      · refine Bounded.took (p := b * fs.frag) (n := fs.frag) h ?_ ?_ ?_
        all_goals simp [State.addNbfree, State.modCg, State.setCg]
        · exact hwhole
        · exact h.frotor

/-- `n` free fragments of group `cg` from fragment `p` on have been taken out of the map `m`. -/
structure TookFree (fs : Fs) (m m' : Bitmap) (p n : Nat) : Prop where
  le : p + n ≤ fs.fpg
  free : ∀ i, p ≤ i → i < p + n → m.isset i = true
  took : Took m m' p n

/-- The fragments of a block that is entirely free. -/
theorem free_of_whole {m : Bitmap} {b i : Nat} (hw : whole fs (blkBits fs m b) = true) (hlo : b * fs.frag ≤ i)
    (hhi : i < b * fs.frag + fs.frag) : m.isset i = true := by
  have hset := (whole_iff fs _).mp hw (i - b * fs.frag) (by omega)
  rw [blkBits, Nat.add_sub_cancel' hlo] at hset
  exact hset

/-- A call of `ffs_alloccgblk` that returns has taken the beginning of a free block. -/
theorem ffsAlloccgblk_takes {s s' : State} {cg bpref n r : Nat} (h : Bounded fs cg (s.cgs cg)) (hnf : n ≤ fs.frag)
    (hcall : ffsAlloccgblk fs s cg bpref (n * fs.fsize) = .ok (r, s')) :
    ∃ b < fs.nblk, r = fs.cgbase cg + b * fs.frag ∧
      TookFree fs (s.cgs cg).blksfree (s'.cgs cg).blksfree (b * fs.frag) n ∧ Bounded fs cg (s'.cgs cg) := by
  unfold ffsAlloccgblk at hcall
  simp only [prefBlock_mul, fs.fragstoblks_mul, ffsIsblock_eq_whole] at hcall
  by_cases hw : whole fs (blkBits fs (s.cgs cg).blksfree (prefBlock fs (s.cgs cg) bpref)) = true
  · rw [if_pos hw] at hcall
    obtain ⟨rfl, rfl⟩ := Prod.mk.inj (Except.ok.inj hcall)
    have hb : prefBlock fs (s.cgs cg) bpref < fs.nblk := prefBlock_lt (s.cgs cg) bpref
    obtain ⟨hr, htook, hbounded⟩ := alloccgblkTake_took h hb hw hnf
    have hend := block_end_le hb
    exact ⟨_, hb, hr, ⟨by omega, fun i hlo hhi => free_of_whole hw hlo (by omega), htook⟩, hbounded⟩
  · rw [if_neg hw] at hcall
    cases hm : ffsMapsearch fs (s.cgs cg) (alloccgblkPref fs (s.cgs cg) bpref) fs.frag with
    | error e =>
        rw [hm] at hcall
        cases hcall
    | ok found =>
        obtain ⟨f, x⟩ := found
        rw [hm] at hcall
        simp only [bind, Except.bind] at hcall
        obtain ⟨rfl, rfl⟩ := Prod.mk.inj (Except.ok.inj hcall)
        obtain ⟨hf, b, hb, p, rfl, hrun⟩ := h.mapsearch fs.frag_pos (Nat.le_refl _) hm
        obtain ⟨rfl, hw'⟩ := (isRun_frag_iff _ p).mp hrun
        -- the rotors have moved
        generalize hmoved : s.modCg cg (fun c => { c with
          frotor := f
          rotor := if b * fs.frag + 0 ≥ fs.dtogd (fs.cgdata c.cgx).toNat then b * fs.frag + 0 else c.rotor }) = t
        have hmap : (t.cgs cg).blksfree = (s.cgs cg).blksfree := by
          rw [← hmoved]
          simp [State.modCg]
        have ht : Bounded fs cg (t.cgs cg) := by
          rw [← hmoved]
          simp only [State.modCg_cgs, Function.update_self]
          exact ⟨h.cgx, hf, h.beyond⟩
        rw [← hmap] at hw' ⊢
        obtain ⟨hr, htook, hbounded⟩ := alloccgblkTake_took ht hb hw' hnf
        have hend := block_end_le hb
        exact ⟨b, hb, hr, ⟨by omega, fun i hlo hhi => free_of_whole hw' hlo (by omega), htook⟩, hbounded⟩

/-! ### `ffs_alloccg` -/

/-- `r` is the address of `n` fragments of group `cg` that were free in `s` and
are not free any more in `s'`. -/
def NewFrags (fs : Fs) (cg n : Nat) (s : State) (r : Nat) (s' : State) : Prop :=
  ∃ p, r = fs.cgbase cg + p ∧ TookFree fs (s.cgs cg).blksfree (s'.cgs cg).blksfree p n

theorem NewFrags.ne_zero {s s' : State} {cg n r : Nat} (h : NewFrags fs cg n s r s') (hboot : freeAt fs s 0 = false)
    (hn : 0 < n) : r ≠ 0 := by
  obtain ⟨p, rfl, htook⟩ := h
  exact addr_ne_zero hboot (htook.free p (Nat.le_refl p) (by omega))

/-- The states before and after may differ in anything but the map. -/
theorem NewFrags.congr {s s' t t' : State} {cg n r : Nat} (h : NewFrags fs cg n s r s')
    (hmap : (t.cgs cg).blksfree = (s.cgs cg).blksfree) (hmap' : (t'.cgs cg).blksfree = (s'.cgs cg).blksfree) :
    NewFrags fs cg n t r t' := by
  unfold NewFrags
  rw [hmap, hmap']
  exact h

/-- A block is taken. -/
theorem alloccgBlock_new {s s' : State} {cg bpref n r : Nat} (h : Bounded fs cg (s.cgs cg)) (hnf : n ≤ fs.frag)
    (hcall : alloccgBlock fs (cgOpen s 0 cg) cg bpref (n * fs.fsize) = .ok (r, s')) :
    Replays s s' locked ⟨false, [], [cg]⟩ ∧ NewFrags fs cg n s r s' := by
  unfold alloccgBlock at hcall
  cases hone : ffsAlloccgblk fs ((cgOpen s 0 cg).emit .lock) cg bpref (n * fs.fsize) with
  | error e =>
      rw [hone] at hcall
      cases hcall
  | ok got =>
      obtain ⟨r₁, s₁⟩ := got
      rw [hone] at hcall
      obtain ⟨rfl, rfl⟩ := Prod.mk.inj (Except.ok.inj hcall)
      obtain ⟨b, -, hr, htook, -⟩ := ffsAlloccgblk_takes (by simpa using h) hnf hone
      have hlock := (replays_cgOpen s cg).emit .lock (k := ⟨true, [.cg cg], []⟩) rfl
      exact ⟨replays_write (replays_alloccgblk hlock hone), b * fs.frag, hr, by simpa using htook⟩

theorem disciplined_fail {s : State} {cg gerr : Nat} (New : Prop) :
    Disciplined cg s (cgFail (cgOpen s gerr cg) gerr cg).1 (cgFail (cgOpen s gerr cg) gerr cg).2 New
      ↔ gerr = 0 := by
  constructor
  · intro hd
    by_contra hg
    exact not_replays_null hg (hd.fails rfl).1
  · rintro rfl
    refine ⟨fun _ => ⟨replays_release (replays_cgOpen s cg), MapsKept.of_cgs ?_ ?_ ?_⟩,
      fun hne => absurd rfl hne⟩ <;> simp [cgFail]

theorem disciplined_early {s : State} {cg : Nat} (New : Prop) : Disciplined cg s 0 s New :=
  ⟨fun _ => ⟨Replays.refl s _, MapsKept.of_cgs rfl rfl rfl⟩, fun hne => absurd rfl hne⟩

theorem disciplined_new {s s' : State} {cg r : Nat} {New : Prop} (hne : r ≠ 0)
    (h : Replays s s' locked ⟨false, [], [cg]⟩ ∧ New) : Disciplined cg s r s' New :=
  ⟨fun h0 => absurd h0 hne, fun _ => h⟩

theorem takeFrags_log (s : State) (cg bno frags allocsiz : Nat) :
    (takeFrags s cg bno frags allocsiz).log = s.log := rfl

theorem takeFrags_took (s : State) (cg bno frags allocsiz : Nat) :
    Took (s.cgs cg).blksfree ((takeFrags s cg bno frags allocsiz).cgs cg).blksfree bno frags := by
  have hmap : ((takeFrags s cg bno frags allocsiz).cgs cg).blksfree = (s.cgs cg).blksfree.clrRange bno frags := by
    simp [takeFrags, State.addNffree, State.modCg]
  rw [hmap]
  intro i
  rw [Bitmap.isset_clrRange]

/-- The end of a call that takes fragments. -/
theorem replays_takeFrags {s s₁ : State} {h : Held} {cg : Nat} (hr : Replays s s₁ h (opened cg))
    (bno frags allocsiz : Nat) :
    Replays s ((((takeFrags s₁ cg bno frags allocsiz).emit .lock).emit .unlock).emit (.bdwrite cg))
      h ⟨false, [], [cg]⟩ :=
  replays_write ((hr.congr (takeFrags_log s₁ cg bno frags allocsiz)).emit .lock rfl)

/-- The three ends of `ffs_alloccg`: before the group is read, at the label `fail`, and with
new fragments. -/
theorem ffsAlloccg_cases {s s' : State} {gerr cg bpref size n r : Nat} (h : Bounded fs cg (s.cgs cg)) (hn : 0 < n)
    (hnf : n ≤ fs.frag) (hsize : size = n * fs.fsize ∨ size = fs.bsize)
    (hcall : ffsAlloccg fs s gerr cg bpref size (n * fs.fsize) = .ok (r, s')) :
    (((s.csp cg).nbfree = 0 ∧ size = fs.bsize) ∧ (r, s') = (0, s)) ∨
      ¬ ((s.csp cg).nbfree = 0 ∧ size = fs.bsize) ∧ ((r, s') = cgFail (cgOpen s gerr cg) gerr cg ∨
        gerr = 0 ∧ Replays s s' locked ⟨false, [], [cg]⟩ ∧ NewFrags fs cg n s r s') := by
  unfold ffsAlloccg at hcall
  simp only [cgOpen_cgs] at hcall
  by_cases h0 : (s.csp cg).nbfree = 0 ∧ size = fs.bsize
  · rw [if_pos h0] at hcall
    exact .inl ⟨h0, (Except.ok.inj hcall).symm⟩
  rw [if_neg h0] at hcall
  refine .inr ⟨h0, ?_⟩
  by_cases h1 : gerr ≠ 0 ∨ (s.cgs cg).cs.nbfree = 0 ∧ size = fs.bsize
  · rw [if_pos h1] at hcall
    exact .inl (Except.ok.inj hcall).symm
  rw [if_neg h1] at hcall
  obtain rfl : gerr = 0 := by
    by_contra hg
    exact h1 (.inl hg)
  by_cases h2 : size = fs.bsize
  · rw [if_pos h2] at hcall
    exact .inr ⟨rfl, alloccgBlock_new h hnf hcall⟩
  rw [if_neg h2, hsize.resolve_right h2, numfrags_mul] at hcall
  obtain ⟨hlo, hhi, -⟩ := allocsizLoop_spec (s.cgs cg) (fs.frag - n) n
  generalize allocsizLoop (s.cgs cg) (fs.frag - n) n = k at hlo hhi hcall
  by_cases hk : k = fs.frag
  · rw [if_pos hk] at hcall
    by_cases h3 : (s.cgs cg).cs.nbfree = 0
    · rw [if_pos h3] at hcall
      exact .inl (Except.ok.inj hcall).symm
    · rw [if_neg h3] at hcall
      exact .inr ⟨rfl, alloccgBlock_new h hnf hcall⟩
  · rw [if_neg hk, if_neg (not_not.mpr rfl)] at hcall
    cases hm : ffsMapsearch fs (s.cgs cg) bpref k with
    | error e =>
        rw [hm] at hcall
        cases hcall
    | ok found =>
        obtain ⟨f, bno⟩ := found
        rw [hm] at hcall
        obtain ⟨rfl, rfl⟩ := Prod.mk.inj (Except.ok.inj hcall)
        obtain ⟨-, b, hb, p, rfl, hrun⟩ := h.mapsearch (by omega) (by omega) hm
        obtain ⟨-, hpk, hset, -⟩ := hrun
        have hend := block_end_le hb
        have hopen : Replays s ((cgOpen s 0 cg).modCg cg fun c => { c with frotor := f }) locked (opened cg) :=
          (replays_cgOpen s cg).congr rfl
        refine .inr ⟨rfl, replays_takeFrags hopen _ n k, b * fs.frag + p, rfl, by omega, ?_, ?_⟩
        · intro i hlo' hhi'
          have hbit := hset (i - (b * fs.frag + p)) (by omega)
          rw [blkBits] at hbit
          convert hbit using 2
          omega
        · have htook := takeFrags_took ((cgOpen s 0 cg).modCg cg fun c => { c with frotor := f }) cg
            (b * fs.frag + p) n k
          simpa [State.modCg] using htook

/-- `ffs_alloccg` keeps the discipline unless it has to read a group that cannot
be read. -/
theorem ffsAlloccg_disciplined {s s' : State} {gerr cg bpref size n r : Nat} (h : Bounded fs cg (s.cgs cg))
    (hboot : freeAt fs s 0 = false) (hn : 0 < n) (hnf : n ≤ fs.frag)
    (hsize : size = n * fs.fsize ∨ size = fs.bsize)
    (hcall : ffsAlloccg fs s gerr cg bpref size (n * fs.fsize) = .ok (r, s')) :
    Disciplined cg s r s' (NewFrags fs cg n s r s')
      ↔ ((s.csp cg).nbfree = 0 ∧ size = fs.bsize) ∨ gerr = 0 := by
  rcases ffsAlloccg_cases h hn hnf hsize hcall with ⟨hearly, heq⟩ | ⟨hearly, heq | ⟨rfl, hnew⟩⟩
  · obtain ⟨rfl, rfl⟩ := Prod.mk.inj heq
    exact iff_of_true (disciplined_early _) (.inl hearly)
  · obtain ⟨rfl, rfl⟩ := Prod.mk.inj heq
    rw [or_iff_right hearly]
    exact disciplined_fail _
  · exact iff_of_true (disciplined_new (hnew.2.ne_zero hboot hn) hnew) (.inr rfl)

/-! ### `ffs_fragextend` -/

/-- The `n - o` fragments behind the `o` fragments at `r` have been allocated. -/
structure Extended (fs : Fs) (cg o n : Nat) (s : State) (r : Nat) (s' : State) : Prop where
  free : ∀ i, fs.dtogd r + o ≤ i → i < fs.dtogd r + n → (s.cgs cg).blksfree.isset i = true
  took : Took (s.cgs cg).blksfree (s'.cgs cg).blksfree (fs.dtogd r + o) (n - o)

/-- The tests that `ffs_fragextend` makes before it reads the group. -/
def FragextendReads (fs : Fs) (s : State) (cg bprev osize nsize : Nat) : Prop :=
  ¬ (s.csp cg).nffree < fs.numfrags (nsize - osize)
    ∧ ¬ fs.fragnum bprev > fs.fragnum (bprev + fs.numfrags nsize - 1)

/-- The same for `ffs_fragextend`. -/
theorem ffsFragextend_disciplined {s s' : State} {gerr cg bprev o n r : Nat} (hprev : bprev ≠ 0)
    (hcall : ffsFragextend fs s gerr cg bprev (o * fs.fsize) (n * fs.fsize) = (r, s')) :
    Disciplined cg s r s' (r = bprev ∧ Extended fs cg o n s r s')
      ↔ (FragextendReads fs s cg bprev (o * fs.fsize) (n * fs.fsize) → gerr = 0) := by
  unfold ffsFragextend at hcall
  simp only [cgOpen_cgs] at hcall
  by_cases h1 : (s.csp cg).nffree < fs.numfrags (n * fs.fsize - o * fs.fsize)
  · rw [if_pos h1] at hcall
    obtain ⟨rfl, rfl⟩ := Prod.mk.inj hcall
    exact iff_of_true (disciplined_early _) fun hreads => absurd h1 hreads.1
  rw [if_neg h1] at hcall
  by_cases h2 : fs.fragnum bprev > fs.fragnum (bprev + fs.numfrags (n * fs.fsize) - 1)
  · rw [if_pos h2] at hcall
    obtain ⟨rfl, rfl⟩ := Prod.mk.inj hcall
    exact iff_of_true (disciplined_early _) fun hreads => absurd h2 hreads.2
  rw [if_neg h2] at hcall
  have hsimp : (FragextendReads fs s cg bprev (o * fs.fsize) (n * fs.fsize) → gerr = 0)
      ↔ gerr = 0 := forall_prop_of_true ⟨h1, h2⟩
  rw [hsimp]
  by_cases h3 : gerr ≠ 0
  · rw [if_pos h3] at hcall
    obtain ⟨rfl, rfl⟩ := Prod.mk.inj hcall
    exact disciplined_fail _
  obtain rfl : gerr = 0 := not_not.mp h3
  rw [if_neg h3, numfrags_mul, numfrags_mul] at hcall
  refine iff_of_true ?_ rfl
  by_cases h4 : ∃ i < n, o ≤ i ∧ (s.cgs cg).blksfree.isclr (fs.dtogd bprev + i) = true
  · rw [if_pos h4] at hcall
    obtain ⟨rfl, rfl⟩ := Prod.mk.inj hcall
    exact (disciplined_fail _).mpr rfl
  · rw [if_neg h4] at hcall
    obtain ⟨rfl, rfl⟩ := Prod.mk.inj hcall
    refine disciplined_new hprev ⟨replays_takeFrags (replays_cgOpen s cg) _ _ _, rfl, ?_, ?_⟩
    · intro i hlo hhi
      by_contra hclr
      refine h4 ⟨i - fs.dtogd bprev, by omega, by omega, ?_⟩
      rw [Nat.add_sub_cancel' (by omega), Bitmap.isclr, Bool.not_eq_true _ |>.mp hclr]
      rfl
    · have htook := takeFrags_took (cgOpen s 0 cg) cg (fs.dtogd bprev + o) (n - o)
        (fragextendEnd (s.cgs cg).blksfree (fs.dtogd bprev) (fs.frag - fs.fragnum bprev - n) n - o)
      simpa using htook

/-! ### `ffs_clusteralloc` -/

/-- The last loop takes one block after the other, each of them free. -/
theorem clusterTake_new {s : State} {h : Held} {cg : Nat} (n : Nat) : ∀ {first : Nat} {s₁ s' : State},
    Bounded fs cg (s₁.cgs cg) → Replays s s₁ h ⟨true, [.cg cg], []⟩ → first * fs.frag ≤ fs.fpg →
    clusterTake fs cg n (fs.cgbase cg + first * fs.frag) s₁ = .ok s' →
    Replays s s' h ⟨true, [.cg cg], []⟩ ∧
      TookFree fs (s₁.cgs cg).blksfree (s'.cgs cg).blksfree (first * fs.frag) (n * fs.frag) := by
  induction n with
  | zero =>
      intro first s₁ s' _ hr hle hcall
      obtain rfl := Except.ok.inj hcall
      refine ⟨hr, by omega, fun i hlo hhi => by omega, fun i => ?_⟩
      rw [decide_eq_false (by omega)]
      rfl
  | succ n ih =>
      intro first s₁ s' hb hr hle hcall
      rw [clusterTake, fs.bsize_eq] at hcall
      cases hone : ffsAlloccgblk fs s₁ cg (fs.cgbase cg + first * fs.frag) (fs.frag * fs.fsize) with
      | error e =>
          rw [hone] at hcall
          cases hcall
      | ok got =>
          obtain ⟨got, s₂⟩ := got
          rw [hone] at hcall
          simp only [bind, Except.bind] at hcall
          split at hcall
          · cases hcall
          · next hgot =>
              obtain ⟨b, hlt, hblk, htook, hb₂⟩ := ffsAlloccgblk_takes hb (Nat.le_refl _) hone
              have hsame : b * fs.frag = first * fs.frag :=
                Nat.add_left_cancel (hblk.symm.trans (not_not.mp hgot))
              rw [hsame] at htook
              have hnext : first * fs.frag + fs.frag = (first + 1) * fs.frag := by ring
              rw [Nat.add_assoc, hnext] at hcall
              obtain ⟨hr', hle', hfree', htook'⟩ := ih hb₂ (replays_alloccgblk hr hone) (hnext ▸ htook.le) hcall
              have hlen : fs.frag + n * fs.frag = (n + 1) * fs.frag := by ring
              rw [← hnext] at htook' hle' hfree'
              refine ⟨hr', by omega, fun i hlo hhi => ?_, hlen ▸ htook.took.append htook'⟩
              by_cases hfirst : i < first * fs.frag + fs.frag
              · exact htook.free i hlo hfirst
              · -- what is free after the first block was taken was free before
                have hset := hfree' i (by omega) (by omega)
                rw [htook.took, decide_eq_false (by omega)] at hset
                exact hset

/-- `ffs_clusteralloc` keeps the discipline whether the group can be read or
not. -/
theorem ffsClusteralloc_disciplined {s s' : State} {gerr cg bpref len r : Nat} (h : Bounded fs cg (s.cgs cg))
    (hboot : freeAt fs s 0 = false) (hlen : 0 < len)
    (hcall : ffsClusteralloc fs s gerr cg bpref len = .ok (r, s')) :
    Disciplined cg s r s' (NewFrags fs cg (len * fs.frag) s r s') := by
  unfold ffsClusteralloc at hcall
  simp only [cgOpen_cgs] at hcall
  by_cases h1 : s.maxcluster cg < len
  · rw [if_pos h1] at hcall
    obtain ⟨rfl, rfl⟩ := Prod.mk.inj (Except.ok.inj hcall)
    exact disciplined_early _
  rw [if_neg h1] at hcall
  by_cases h2 : gerr ≠ 0
  · rw [if_pos h2] at hcall
    obtain ⟨rfl, rfl⟩ := Prod.mk.inj (Except.ok.inj hcall)
    refine ⟨fun _ => ⟨?_, MapsKept.of_cgs (by simp) (by simp) (by simp)⟩, fun hne => absurd rfl hne⟩
    have hclosed : cgOpen s gerr cg = s.emit .unlock := by simp [cgOpen, h2]
    rw [hclosed]
    exact ((Replays.refl s locked).emit .unlock rfl).emit .lock rfl
  obtain rfl : gerr = 0 := not_not.mp h2
  rw [if_neg h2] at hcall
  split at hcall
  · obtain ⟨rfl, rfl⟩ := Prod.mk.inj (Except.ok.inj hcall)
    refine ⟨fun _ => ⟨?_, MapsKept.of_cgs (by simp) (by simp) (by simp)⟩, fun hne => absurd rfl hne⟩
    exact (replays_release' (replays_cgOpen s cg)).congr rfl
  · split at hcall
    · obtain ⟨rfl, rfl⟩ := Prod.mk.inj (Except.ok.inj hcall)
      refine ⟨fun _ => ⟨replays_release' (replays_cgOpen s cg),
        MapsKept.of_cgs (by simp) (by simp) (by simp)⟩, fun hne => absurd rfl hne⟩
    · next got _ =>
        split at hcall
        · cases hcall
        · split at hcall
          · cases hcall
          · next hgroup =>
            cases htake : clusterTake fs cg len (fs.cgbase cg + fs.blkstofrags (got + 1 - len))
                ((cgOpen s 0 cg).emit .lock) with
            | error e =>
                rw [htake] at hcall
                cases hcall
            | ok s₁ =>
                rw [htake] at hcall
                obtain ⟨rfl, rfl⟩ := Prod.mk.inj (Except.ok.inj hcall)
                have hfirst : fs.blkstofrags (got + 1 - len) < fs.fpg := by
                  have hdiv := not_not.mp hgroup
                  unfold Fs.dtog Fs.cgbase at hdiv
                  rw [Nat.mul_add_div fs.fpg_pos] at hdiv
                  exact (Nat.div_eq_zero_iff_lt fs.fpg_pos).mp (by omega)
                obtain ⟨hlog, htook⟩ := clusterTake_new len (by simpa using h)
                  ((replays_cgOpen s cg).emit .lock rfl) hfirst.le htake
                have hnew : NewFrags fs cg (len * fs.frag) s (fs.cgbase cg + fs.blkstofrags (got + 1 - len))
                    ((s₁.emit .unlock).emit (.bdwrite cg)) := ⟨_, rfl, by simpa [Fs.blkstofrags] using htook⟩
                exact disciplined_new (hnew.ne_zero hboot (Nat.mul_pos hlen fs.frag_pos))
                  ⟨replays_write hlog, hnew⟩

end UfsX.Proofs
