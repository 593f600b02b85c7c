import UfsX.Ffs.AllocQuota
import UfsX.Proofs.HashallocComplete
import UfsX.Proofs.Quota

/-!
# `UfsX.Proofs.AllocQuota`: what a failed allocation leaves behind

`ffs_alloc` and `ffs_realloccg` charge the quota before they search, and give the charge
back when there is no space. What is given back is a negative number of type `u_int`, so
that the user is charged `2 ^ 32` blocks more for each pass without space.

`Meets` is what a pass meets, `PassEnd` how it ends by that, and `Sound` what the passes of
a call may meet so that a failure leaves no trace and a success charges what has been
gained. `withRetry_exact` proves that this is the exact condition, for any pass that ends
as `PassEnd` says; the two functions are two cases of it.
-/

set_option autoImplicit false

namespace UfsX.Proofs.AllocQuota

open UfsX.Lib UfsX.Ufs UfsX.Ffs UfsX.Ffs.Quota UfsX.Proofs.Quota

variable {fs : Fs}

/-! ### Logs that go wrong -/

/-- Something was done after `s` that is not allowed. -/
def Stuck (s s' : State) : Prop := ∃ t, s'.log = t ++ s.log ∧ locked.replay t = none

/-- The lock is held before and after, and what happened in between was allowed exactly
when `P` holds. -/
structure Logged (s s' : State) (P : Prop) : Prop where
  replays : P → Replays s s' locked locked
  stuck : ¬ P → Stuck s s'

section Logged

variable {s s' s'' : State} {P Q : Prop}

theorem logged_refl (s : State) : Logged s s True := ⟨fun _ => Replays.refl s locked, fun h => absurd trivial h⟩

theorem logged_of_replays (h : Replays s s' locked locked) : Logged s s' True :=
  ⟨fun _ => h, fun hno => absurd trivial hno⟩

theorem Logged.iff (h : Logged s s' P) (hiff : P ↔ Q) : Logged s s' Q :=
  ⟨fun hq => h.replays (hiff.mpr hq), fun hq => h.stuck fun hp => hq (hiff.mp hp)⟩

theorem Logged.congr (h : Logged s s' P) (hlog : s''.log = s'.log) : Logged s s'' P := by
  refine ⟨fun hp => (h.replays hp).congr hlog, fun hp => ?_⟩
  obtain ⟨t, ht, hrep⟩ := h.stuck hp
  exact ⟨t, hlog.trans ht, hrep⟩

/-- Every log is an extension, whether it goes wrong or not. -/
theorem Logged.extends (h : Logged s s' P) : ∃ t, s'.log = t ++ s.log := by
  by_cases hp : P
  · obtain ⟨t, ht, -⟩ := h.replays hp
    exact ⟨t, ht⟩
  · obtain ⟨t, ht, -⟩ := h.stuck hp
    exact ⟨t, ht⟩

theorem Stuck.extend (h : Stuck s s') (t : List Event) (hlog : s''.log = t ++ s'.log) : Stuck s s'' := by
  obtain ⟨t₁, hlog₁, hrep⟩ := h
  refine ⟨t ++ t₁, by rw [hlog, hlog₁, List.append_assoc], ?_⟩
  rw [Held.replay_append, hrep]
  rfl

theorem Logged.trans (h : Logged s s' P) (h' : Logged s' s'' Q) : Logged s s'' (P ∧ Q) := by
  refine ⟨fun hpq => (h.replays hpq.1).trans (h'.replays hpq.2), fun hno => ?_⟩
  by_cases hp : P
  · -- right up to `s'`, wrong after it
    obtain ⟨t₁, hlog₁, hrep₁⟩ := h.replays hp
    obtain ⟨t₂, hlog₂, hrep₂⟩ := h'.stuck fun hq => hno ⟨hp, hq⟩
    refine ⟨t₂ ++ t₁, by rw [hlog₂, hlog₁, List.append_assoc], ?_⟩
    rw [Held.replay_append, hrep₁]
    exact hrep₂
  · obtain ⟨t, hlog⟩ := h'.extends
    exact (h.stuck hp).extend t hlog

/-- The lock dropped and taken again in between. -/
theorem Logged.relock (h : Logged s s' P) : Logged s ((s'.emit .unlock).emit .lock) P :=
  (h.trans (logged_of_replays (((Replays.refl s' locked).emit .unlock rfl).emit .lock rfl))).iff (and_iff_left trivial)

/-- A call that returns without the lock. -/
theorem Logged.unlock (h : Logged s s' P) : Replays s (s'.emit .unlock) locked ⟨false, [], []⟩ ↔ P := by
  constructor
  · rintro ⟨t, hlog, hrep⟩
    by_contra hp
    obtain ⟨t', hlog', hrep'⟩ := h.stuck hp
    obtain rfl : t = .unlock :: t' := List.append_cancel_right (hlog.symm.trans (congrArg (Event.unlock :: ·) hlog'))
    rw [Held.replay, hrep'] at hrep
    cases hrep
  · exact fun hp => (h.replays hp).emit .unlock rfl

end Logged

/-- A group that cannot be read. -/
theorem stuck_null {s : State} {cg gerr : Nat} (hg : gerr ≠ 0) : Stuck s (cgFail (cgOpen s gerr cg) gerr cg).2 := by
  refine ⟨[.lock, .brelseNull, .unlock], ?_, rfl⟩
  simp [cgFail, cgOpen, State.emit, hg]

/-! ### The searches -/

/-- `ffs_alloccg` does not read group `cg`, which has no free block. -/
def Early (fs : Fs) (s : State) (cg size : Nat) : Prop := (s.csp cg).nbfree = 0 ∧ size = fs.bsize

theorem ffsAlloccg_unread {s : State} {gerr cg bpref size rsize : Nat} (hne : ¬ Early fs s cg size) (hg : gerr ≠ 0) :
    ffsAlloccg fs s gerr cg bpref size rsize = .ok (cgFail (cgOpen s gerr cg) gerr cg) := by
  have hread : ¬ ((s.csp cg).nbfree = 0 ∧ size = fs.bsize) := hne
  unfold ffsAlloccg
  rw [if_neg hread]
  exact if_pos (Or.inl hg)

/-- One of the tries finds a group that can be read and has the space. -/
def Found (fs : Fs) (s : State) (gerr : Nat → Nat) (size : Nat) (tries : List ((Nat × Nat) × Nat)) : Prop :=
  ∃ x ∈ tries, gerr x.2 = 0 ∧ ¬ Refuses fs s x.1.1 size

/-- Every group that the tries read can be read. -/
def Readable (fs : Fs) (s : State) (gerr : Nat → Nat) (size : Nat) (tries : List ((Nat × Nat) × Nat)) : Prop :=
  ∀ x ∈ tries, Early fs s x.1.1 size ∨ gerr x.2 = 0

/-- A search that ends with `r`. -/
structure Searched (s : State) (Gains Clean : Prop) (r : Nat) (s' : State) : Prop where
  found : r ≠ 0 ↔ Gains
  same : r = 0 → s' = { s with log := s'.log }
  logged : r = 0 → Logged s s' Clean

theorem tryGroups_searched {gerr : Nat → Nat} {size n : Nat} (hn : 0 < n) (hnf : n ≤ fs.frag)
    (hsize : size = n * fs.fsize ∨ size = fs.bsize) (tries : List (Nat × Nat)) :
    ∀ {k : Nat} {s : State}, FsOk fs s → freeAt fs s 0 = false → (∀ x ∈ tries, x.1 < fs.ncg) →
      ∃ r s', tryGroups (blockAllocator fs gerr size (n * fs.fsize)) tries k s = .ok (r, s')
        ∧ Searched s (Found fs s gerr size (tries.zipIdx k)) (Readable fs s gerr size (tries.zipIdx k)) r s' := by
  induction tries with
  | nil =>
      intro k s _ _ _
      refine ⟨0, s, rfl, iff_of_false (fun hne => hne rfl) ?_, fun _ => rfl, fun _ => ?_⟩
      · rintro ⟨x, hx, -⟩
        cases hx
      · exact (logged_refl s).iff (iff_of_true trivial fun x hx => by cases hx)
  | cons head rest ih =>
      obtain ⟨cg, pref⟩ := head
      intro k s h hboot htries
      have hcg : cg < fs.ncg := htries _ List.mem_cons_self
      obtain ⟨⟨r, t⟩, hcall, hend⟩ := ffsAlloccg_end (gerr k) pref h hcg hn hnf hsize
      rw [tryGroups, show blockAllocator fs gerr size (n * fs.fsize) k s cg pref = .ok (r, t) from hcall]
      simp only [bind, Except.bind]
      have hfound : Found fs s gerr size (((cg, pref) :: rest).zipIdx k)
          ↔ (gerr k = 0 ∧ ¬ Refuses fs s cg size) ∨ Found fs s gerr size (rest.zipIdx (k + 1)) := by
        simp only [Found, List.zipIdx_cons, List.mem_cons, exists_eq_or_imp]
      have hreadable : Readable fs s gerr size (((cg, pref) :: rest).zipIdx k)
          ↔ (Early fs s cg size ∨ gerr k = 0) ∧ Readable fs s gerr size (rest.zipIdx (k + 1)) := by
        simp only [Readable, List.zipIdx_cons, List.mem_cons, forall_eq_or_imp]
      rcases hend with ⟨hno, hr, ht⟩ | ⟨hgerr, hyes, p, hp, halloc, -⟩
      · obtain rfl : r = 0 := hr
        -- the group that refuses has been read, or could not be
        have hlog : Logged s t (Early fs s cg size ∨ gerr k = 0) := by
          have hdisc := ffsAlloccg_disciplined (h.bounded hcg) hboot hn hnf hsize hcall
          refine ⟨fun hread => ((hdisc.mpr hread).fails rfl).1, fun hread => ?_⟩
          rw [not_or] at hread
          have hfail := (ffsAlloccg_unread hread.1 hread.2).symm.trans hcall
          rw [← show (cgFail (cgOpen s (gerr k) cg) (gerr k) cg).2 = t from congrArg Prod.snd (Except.ok.inj hfail)]
          exact stuck_null hread.2
        obtain ⟨log, rfl⟩ : ∃ log, t = { s with log := log } := ⟨_, ht⟩
        have hok : FsOk fs { s with log := log } := by
          refine h.congr ?_ ?_ ?_
          all_goals rfl
        obtain ⟨r, s', htry, hrest⟩ := ih (k := k + 1) hok hboot fun x hx => htries x (List.mem_cons_of_mem _ hx)
        refine ⟨r, s', htry, ?_, fun h0 => hrest.same h0, fun h0 => ?_⟩
        · rw [hfound, or_iff_right fun hyes => ?_]
          · exact hrest.found
          · exact hno.elim (fun hne => hne hyes.1) hyes.2
        · exact (hlog.trans (hrest.logged h0)).iff hreadable.symm
      · have hne : r ≠ 0 := by
          rw [show r = fs.cgbase cg + p from hp]
          exact addr_ne_zero hboot (halloc.free p (Nat.le_refl p) (by omega))
        rw [if_pos hne]
        exact ⟨r, t, rfl, iff_of_true hne (hfound.mpr (.inl ⟨hgerr, hyes⟩)), fun h0 => absurd h0 hne,
          fun h0 => absurd h0 hne⟩

/-- The tries of a search with their numbers. -/
abbrev triesFrom (fs : Fs) (cg bpref : Nat) : List ((Nat × Nat) × Nat) := (hashallocTries fs cg bpref).zipIdx 0

theorem ffsHashalloc_searched (gerr : Nat → Nat) (bpref : Nat) {s : State} {icg size n : Nat} (h : FsOk fs s)
    (hboot : freeAt fs s 0 = false) (hicg : icg < fs.ncg) (hn : 0 < n) (hnf : n ≤ fs.frag)
    (hsize : size = n * fs.fsize ∨ size = fs.bsize) :
    ∃ r s', ffsHashalloc fs (blockAllocator fs gerr size (n * fs.fsize)) s icg bpref = .ok (r, s')
      ∧ Searched s (Found fs s gerr size (triesFrom fs icg bpref)) (Readable fs s gerr size (triesFrom fs icg bpref)) r s' :=
  tryGroups_searched hn hnf hsize _ h hboot (hashallocTries_lt hicg)

/-- The fragment at `bprev` can be made `nsize` bytes long where it is. -/
def Extendable (fs : Fs) (s : State) (gerr cg bprev osize nsize : Nat) : Prop :=
  FragextendReads fs s cg bprev osize nsize ∧ gerr = 0
    ∧ ¬ ∃ i < fs.numfrags nsize, fs.numfrags osize ≤ i ∧ (s.cgs cg).blksfree.isclr (fs.dtogd bprev + i) = true

theorem ffsFragextend_searched {s s' : State} {gerr cg bprev osize nsize r : Nat} (hprev : bprev ≠ 0)
    (hcall : ffsFragextend fs s gerr cg bprev osize nsize = (r, s')) :
    Searched s (Extendable fs s gerr cg bprev osize nsize)
      (FragextendReads fs s cg bprev osize nsize → gerr = 0) r s' := by
  have hearly (hno : ¬ FragextendReads fs s cg bprev osize nsize) :
      Searched s (Extendable fs s gerr cg bprev osize nsize)
        (FragextendReads fs s cg bprev osize nsize → gerr = 0) 0 s :=
    ⟨iff_of_false (fun hne => hne rfl) fun hext => hno hext.1, fun _ => rfl,
      fun _ => (logged_refl s).iff (iff_of_true trivial fun hreads => absurd hreads hno)⟩
  unfold ffsFragextend at hcall
  simp only [cgOpen_cgs] at hcall
  by_cases h1 : (s.csp cg).nffree < fs.numfrags (nsize - osize)
  · rw [if_pos h1] at hcall
    obtain ⟨rfl, rfl⟩ := Prod.mk.inj hcall
    exact hearly fun hreads => hreads.1 h1
  rw [if_neg h1] at hcall
  by_cases h2 : fs.fragnum bprev > fs.fragnum (bprev + fs.numfrags nsize - 1)
  · rw [if_pos h2] at hcall
    obtain ⟨rfl, rfl⟩ := Prod.mk.inj hcall
    exact hearly fun hreads => hreads.2 h2
  rw [if_neg h2] at hcall
  have hreads : FragextendReads fs s cg bprev osize nsize := ⟨h1, h2⟩
  have hfail (hno : ¬ Extendable fs s gerr cg bprev osize nsize) :
      Searched s (Extendable fs s gerr cg bprev osize nsize)
        (FragextendReads fs s cg bprev osize nsize → gerr = 0) 0 (cgFail (cgOpen s gerr cg) gerr cg).2 := by
    refine ⟨iff_of_false (fun hne => hne rfl) hno, fun _ => ?_, fun _ => ⟨fun hg => ?_, fun hg => ?_⟩⟩
    · unfold cgFail
      rw [cgOpen_eq]
      rfl
    · obtain rfl : gerr = 0 := hg hreads
      exact replays_release (replays_cgOpen s cg)
    · exact stuck_null fun h0 => hg fun _ => h0
  by_cases h3 : gerr ≠ 0
  · rw [if_pos h3] at hcall
    obtain ⟨rfl, rfl⟩ := Prod.mk.inj hcall
    exact hfail fun hext => h3 hext.2.1
  rw [if_neg h3] at hcall
  split at hcall
  · next hused =>
      obtain ⟨rfl, rfl⟩ := Prod.mk.inj hcall
      exact hfail fun hext => hext.2.2 hused
  · next hfree =>
      obtain ⟨rfl, -⟩ := Prod.mk.inj hcall
      exact ⟨iff_of_true hprev ⟨hreads, not_not.mp h3, hfree⟩, fun h0 => absurd h0 hprev, fun h0 => absurd h0 hprev⟩

/-! ### What a pass meets, and how it ends -/

/-- What a pass meets, told from the state before it. -/
structure Meets where
  /-- There is too little space, and nothing is charged. -/
  short : Prop
  /-- The old fragment can be read. -/
  read : Prop
  /-- The charge is refused. -/
  denied : Prop
  /-- The space can be had. -/
  gains : Prop
  /-- Every group that has to be read can be read. -/
  readable : Prop
  /-- `fs_optim` after a pass without space. -/
  optim : Nat

/-- The pass returns space. -/
def Meets.Gained (m : Meets) : Prop := ¬ m.short ∧ m.read ∧ ¬ m.denied ∧ m.gains

/-- There is no space after the charge. -/
def Meets.Full (m : Meets) : Prop := ¬ m.short ∧ m.read ∧ ¬ m.denied ∧ ¬ m.gains

/-- Quotas count for the file and one of them is on. -/
def Billed (c : AllocCall) (dqs : Dquots) : Prop := Applies c.quota ∧ HasDquot dqs

/-- The quota refuses `n` blocks. -/
def Denied (c : AllocCall) (n : Nat) (dqs : Dquots) : Prop := (Ufs.chkdq c.quota dqs n false).1 ≠ none

/-- Every buffer has been released once, and there is none of pass `k` or a later one. -/
structure Calm (k : Nat) (bufs : Heap Nat) : Prop where
  settled : ∀ j, bufs.Settled j
  fresh : ∀ j, k ≤ j → bufs.counts j = (0, 0)

section Calm

variable {k : Nat} {bufs : Heap Nat}

theorem calm_empty : Calm 0 Heap.empty := ⟨fun _ => .inl rfl, fun _ _ => rfl⟩

theorem Calm.succ (h : Calm k bufs) : Calm (k + 1) bufs := ⟨h.settled, fun j hj => h.fresh j (Nat.le_of_succ_le hj)⟩

/-- The buffer of a pass is obtained and released. -/
theorem Calm.used (h : Calm k bufs) : Calm (k + 1) ((bufs.alloc k).free k) := by
  have hother (j : Nat) (hne : k ≠ j) : ((bufs.alloc k).free k).counts j = bufs.counts j := by
    rw [Heap.counts_free_of_ne hne, Heap.counts_alloc_of_ne hne]
  refine ⟨fun j => ?_, fun j hj => ?_⟩
  · by_cases hj : k = j
    · subst hj
      refine Heap.settled_free ?_
      rw [Heap.counts_alloc, h.fresh k (Nat.le_refl k), if_pos rfl]
    · exact ((h.settled j).alloc_of_ne hj).free_of_ne hj
  · rw [hother j (by omega)]
    exact h.fresh j (Nat.le_of_succ_le hj)

/-- A buffer that is obtained only. -/
theorem Calm.lost (h : Calm k bufs) : ¬ (bufs.alloc k).Settled k := by
  rw [Heap.Settled, Heap.counts_alloc, h.fresh k (Nat.le_refl k), if_pos rfl]
  decide

end Calm

section Brelse

variable (f : AllocState) (bp : Option Nat)

@[simp] theorem brelse_st : (f.brelse bp).st = f.st := by
  cases bp
  all_goals rfl

@[simp] theorem brelse_ip : (f.brelse bp).ip = f.ip := by
  cases bp
  all_goals rfl

@[simp] theorem brelse_dquots : (f.brelse bp).dquots = f.dquots := by
  cases bp
  all_goals rfl

@[simp] theorem brelse_optim : (f.brelse bp).optim = f.optim := by
  cases bp
  all_goals rfl

end Brelse

/-- How pass `k` for `n` device blocks ends. -/
inductive PassEnd (c : AllocCall) (n k : Nat) (m : Meets) (f : AllocState) : Pass × AllocState → Prop
  | short : m.short → m.optim = f.optim → PassEnd c n k m f (.nospace none, f)
  | unread (e : Errno) : ¬ m.short → ¬ m.read →
      PassEnd c n k m f (.done (.error e), { f.emit .unlock with bufs := f.bufs.alloc k })
  | denied (e : Errno) (f' : AllocState) : ¬ m.short → m.read → m.denied → f'.st = f.st.emit .unlock →
      f'.ip = f.ip → Charged 0 f.dquots f'.dquots → Calm (k + 1) f'.bufs → PassEnd c n k m f (.done (.error e), f')
  | gained (bno : Nat) (f' : AllocState) : m.Gained → f'.ip = f.ip.setBlocks (f.ip.blocks + n) →
      Charged (due c.quota n) f.dquots f'.dquots → PassEnd c n k m f (.done (.ok bno), f')
  /-- The charge is not taken back: `2 ^ 32` blocks more are charged. -/
  | full (bp : Option Nat) (f' : AllocState) : m.Full → f'.st = { f.st with log := f'.st.log } →
      Logged f.st f'.st m.readable → f'.ip = f.ip → f'.optim = m.optim →
      Charged (due c.quota (2 ^ 32)) f.dquots f'.dquots → Calm (k + 1) (f'.brelse bp).bufs →
      PassEnd c n k m f (.nospace bp, f')

/-- What is returned after the last pass. -/
def finish (c : AllocCall) : Pass × AllocState → Except Errno Nat × AllocState
  | (.done r, f) => (r, f)
  | (.nospace bp, f) => noSpace c bp f

/-! ### What a call should come to -/

/-- A failed allocation that leaves no trace. The maps are what they were on entry, or what
the other threads left between the passes. -/
structure Traceless (c : AllocCall) (f f' : AllocState) : Prop where
  charge : Charged 0 f.dquots f'.dquots
  ip : f'.ip = f.ip
  maps : MapsKept f.st f'.st ∨ MapsKept (c.others f.st) f'.st
  lock : Replays f.st f'.st locked ⟨false, [], []⟩
  bufs : ∀ j, f'.bufs.Settled j

/-- A call for `n` device blocks does what it should. -/
def Exact (c : AllocCall) (n : Nat) (f : AllocState) : Except Errno Nat × AllocState → Prop
  | (.error _, f') => Traceless c f f'
  | (.ok _, f') => Charged (due c.quota n) f.dquots f'.dquots ∧ f'.ip.blocks = f.ip.blocks + n

/-- A pass is made. -/
def Made (c : AllocCall) (p : Nat → Meets) : Nat → Prop
  | 0 => True
  | _ + 1 => ((p 0).short ∨ (p 0).Full) ∧ c.buflocked = false

/-- What the passes of a call may meet. -/
structure Sound (c : AllocCall) (n : Nat) (f : AllocState) (p : Nat → Meets) : Prop where
  /-- The old fragment can be read. -/
  read : ∀ k < 2, Made c p k → ¬ (p k).short → (p k).read
  /-- A pass that finds no space after the charge has charged nobody. -/
  room : ∀ k < 2, Made c p k → (p k).Full → ¬ Billed c f.dquots
  /-- `i_blocks` has room for what is gained. -/
  small : ∀ k < 2, Made c p k → (p k).Gained → f.ip.blocks + n < 2 ^ 32
  /-- Unless space is found in the end, every group can be read. -/
  clean : (∀ k < 2, Made c p k → ¬ (p k).Gained) → ∀ k < 2, Made c p k → (p k).Full → (p k).readable

/-! ### The last pass -/

/-- The same for the last pass, when `d` blocks have been charged before it and `P` says
that the log is in order. -/
structure EndSound (c : AllocCall) (n : Nat) (f : AllocState) (m : Meets) (d : Int) (P : Prop) : Prop where
  charge : d = 0 ∨ ¬ HasDquot f.dquots
  read : ¬ m.short → m.read
  room : m.Full → ¬ Billed c f.dquots
  small : m.Gained → f.ip.blocks + n < 2 ^ 32
  clean : ¬ m.Gained → P ∧ (m.Full → m.readable)

/-- What pass `k` is entered with. But for the log, the file system is `s`. -/
structure Entered (s : State) (f fk : AllocState) (k : Nat) (d : Int) (P : Prop) : Prop where
  st : fk.st = { s with log := fk.st.log }
  logged : Logged f.st fk.st P
  ip : fk.ip = f.ip
  charge : Charged d f.dquots fk.dquots
  bufs : Calm k fk.bufs

theorem mapsKept_of_log {s s' s'' : State} (hst : s' = { s with log := s'.log }) (hst' : s'' = { s' with log := s''.log }) :
    MapsKept s s'' := by
  rw [hst', hst]
  refine MapsKept.of_cgs ?_ ?_ ?_
  all_goals rfl

theorem billed_iff {c : AllocCall} {dqs : Dquots} : due c.quota (2 ^ 32) = 0 ∨ ¬ HasDquot dqs ↔ ¬ Billed c dqs := by
  have hdue : due c.quota (2 ^ 32) = 0 ↔ ¬ Applies c.quota := by
    unfold due
    split
    · next happ => exact iff_of_false (by norm_num) (not_not.mpr happ)
    · next happ => exact iff_of_true rfl happ
  rw [hdue, Billed, not_and_or]

section Finish

variable {c : AllocCall} {n k : Nat} {m : Meets} {s : State} {f fk : AllocState} {d : Int} {P : Prop}
  {res : Pass × AllocState}

/-- A failure with `d` blocks charged. -/
theorem traceless_iff (f' : AllocState) {s' : State} (hs : s = f.st ∨ s = c.others f.st) (hst : s' = { s with log := s'.log })
    (hlog : Logged f.st s' P) (hf : f'.st = s'.emit .unlock) (hip : f'.ip = f.ip)
    (hcharge : Charged d f.dquots f'.dquots) (hbufs : Calm k f'.bufs) :
    Traceless c f f' ↔ (d = 0 ∨ ¬ HasDquot f.dquots) ∧ P := by
  rw [← hcharge.eq_iff 0, ← hlog.unlock, ← hf]
  refine ⟨fun h => ⟨h.charge, h.lock⟩, fun h => ⟨h.1, hip, ?_, h.2, hbufs.settled⟩⟩
  have hkept : MapsKept s f'.st := mapsKept_of_log hst (by rw [hf]; rfl)
  rcases hs with rfl | rfl
  · exact .inl hkept
  · exact .inr hkept

theorem finish_exact (hs : s = f.st ∨ s = c.others f.st) (hblocks : 0 ≤ f.ip.blocks) (hd : 0 ≤ d)
    (hent : Entered s f fk k d P) (hend : PassEnd c n k m fk res) :
    Exact c n f (finish c res) ↔ EndSound c n f m d P := by
  have hfull_due : 0 ≤ due c.quota (2 ^ 32) := by
    unfold due
    split <;> norm_num
  cases hend with
  | short hshort =>
      have hnot {X : Prop} (hno : ¬ m.short ∧ X) : False := hno.1 hshort
      have hiff := traceless_iff (noSpace c none fk).2 hs hent.st hent.logged rfl hent.ip hent.charge hent.bufs
      refine hiff.trans ⟨fun h => ?_, fun h => ⟨h.charge, (h.clean hnot).1⟩⟩
      exact ⟨h.1, fun hno => absurd hshort hno, fun hno => (hnot hno).elim, fun hno => (hnot hno).elim,
        fun _ => ⟨h.2, fun hno => (hnot hno).elim⟩⟩
  | unread e hshort hread =>
      -- the buffer of the failing `bread` stays behind
      refine iff_of_false (fun h => hent.bufs.lost (Traceless.bufs h k)) fun h => hread (h.read hshort)
  | denied e f' hshort hread hdenied hst hip hcharge hbufs =>
      have hnot {X : Prop} (hno : ¬ m.short ∧ m.read ∧ ¬ m.denied ∧ X) : False := hno.2.2.1 hdenied
      have hcharge' : Charged d f.dquots f'.dquots := by
        rw [← Int.add_zero d]
        exact hent.charge.trans hcharge
      have hiff := traceless_iff f' hs hent.st hent.logged hst (hip.trans hent.ip) hcharge' hbufs
      refine hiff.trans ⟨fun h => ?_, fun h => ⟨h.charge, (h.clean hnot).1⟩⟩
      exact ⟨h.1, fun _ => hread, fun hno => (hnot hno).elim, fun hno => (hnot hno).elim,
        fun _ => ⟨h.2, fun hno => (hnot hno).elim⟩⟩
  | gained bno f' hgained hip hcharge =>
      have hnot (hfull : m.Full) : False := hfull.2.2.2 hgained.2.2.2
      have hsmall : f'.ip.blocks = f.ip.blocks + n ↔ f.ip.blocks + n < 2 ^ 32 := by
        rw [hip, hent.ip]
        show toU32 (f.ip.blocks + n) = _ ↔ _
        unfold toU32
        constructor
        · intro heq
          rw [← heq]
          exact Int.emod_lt_of_pos _ (by norm_num)
        · exact fun hlt => Int.emod_eq_of_lt (by omega) hlt
      have hiff := (hent.charge.trans hcharge).eq_iff (due c.quota n)
      rw [show d + due c.quota n = due c.quota n ↔ d = 0 by omega] at hiff
      refine (and_congr hiff hsmall).trans ⟨fun h => ?_, fun h => ⟨h.charge, h.small hgained⟩⟩
      exact ⟨h.1, fun _ => hgained.2.1, fun hno => (hnot hno).elim, fun _ => h.2, fun hno => absurd hgained hno⟩
  | full bp f' hfull hst hlog hip hoptim hcharge hbufs =>
      have hnot (hgained : m.Gained) : False := hfull.2.2.2 hgained.2.2.2
      have hst' : f'.st = { s with log := f'.st.log } := by
        rw [hst, hent.st]
      have hiff := traceless_iff (noSpace c bp f').2 hs hst' (hent.logged.trans hlog)
        (congrArg (fun g : State => g.emit .unlock) (brelse_st f' bp))
        ((brelse_ip f' bp).trans (hip.trans hent.ip))
        (by rw [show (noSpace c bp f').2.dquots = f'.dquots from brelse_dquots f' bp]; exact hent.charge.trans hcharge) hbufs
      refine hiff.trans ⟨fun h => ?_, fun h => ?_⟩
      · refine ⟨h.1.imp_left (by omega), fun _ => hfull.2.1, fun _ => billed_iff.mp (h.1.imp_left (by omega)),
          fun hno => (hnot hno).elim, fun _ => ⟨h.2.1, fun _ => h.2.2⟩⟩
      · have hclean := h.clean hnot
        refine ⟨?_, hclean.1, hclean.2 hfull⟩
        rcases h.charge, billed_iff.mpr (h.room hfull) with ⟨h0 | hnone, h1 | hnone'⟩
        · exact .inl (by omega)
        · exact .inr hnone'
        · exact .inr hnone
        · exact .inr hnone

end Finish

/-! ### Both passes -/

/-- What the other threads do while the lock is dropped between the passes: it is not in
the log of this call, and leaves a consistent file system. -/
structure Peaceful (fs : Fs) (others : State → State) : Prop where
  log : ∀ (s : State) (l : List Event), others { s with log := l } = { others s with log := l }
  ok : ∀ s, FsOk fs s → freeAt fs s 0 = false → FsOk fs (others s) ∧ freeAt fs (others s) 0 = false

/-- A pass can be made: the file system is consistent, and the charges are below `b`. -/
structure Ready (fs : Fs) (b : Int) (f : AllocState) : Prop where
  ok : FsOk fs f.st
  boot : freeAt fs f.st 0 = false
  fits : ChargesBelow b f.dquots

/-- What each pass of a call meets. The second starts from what the other threads leave. -/
def passes (c : AllocCall) (S : Nat → AllocState → Meets) (f : AllocState) : Nat → Meets
  | 0 => S 0 f
  | _ + 1 => S 1 { f with st := c.others f.st, optim := (S 0 f).optim }

/-- What is done before `softdep_request_cleanup` releases the buffer and keeps the lock. -/
structure Reclaims (reclaim : Option Nat → AllocState → AllocState) : Prop where
  eq : ∀ bp f, reclaim bp f = { f.brelse bp with st := (reclaim bp f).st }
  st : ∀ bp f, (reclaim bp f).st = { f.st with log := (reclaim bp f).st.log }
  logged : ∀ bp f, Logged f.st (reclaim bp f).st True

section Passes

variable {c : AllocCall} {n : Nat} {p : Nat → Meets} {f : AllocState}

theorem sound_first (hmade : ¬ Made c p 1) : Sound c n f p ↔ EndSound c n f (p 0) 0 True := by
  have honly {k : Nat} (hk : k < 2) (hm : Made c p k) : k = 0 := by
    rcases (by omega : k = 0 ∨ k = 1) with rfl | rfl
    · rfl
    · exact absurd hm hmade
  constructor
  · intro h
    refine ⟨.inl rfl, h.read 0 (by decide) trivial, h.room 0 (by decide) trivial, h.small 0 (by decide) trivial,
      fun hno => ⟨trivial, h.clean (fun k hk hm => ?_) 0 (by decide) trivial⟩⟩
    obtain rfl := honly hk hm
    exact hno
  · intro h
    refine ⟨fun k hk hm => ?_, fun k hk hm => ?_, fun k hk hm => ?_, fun hno k hk hm => ?_⟩
    all_goals obtain rfl := honly hk hm
    · exact h.read
    · exact h.room
    · exact h.small
    · exact (h.clean (hno 0 (by decide) trivial)).2

theorem sound_second (hmade : Made c p 1) {d : Int} {P : Prop}
    (hd : (d = 0 ∨ ¬ HasDquot f.dquots) ↔ ((p 0).Full → ¬ Billed c f.dquots)) (hP : P ↔ ((p 0).Full → (p 0).readable)) :
    Sound c n f p ↔ EndSound c n f (p 1) d P := by
  have hno0 : ¬ (p 0).Gained := fun hg => hmade.1.elim hg.1 fun hfull => hfull.2.2.2 hg.2.2.2
  have hread0 (hshort : ¬ (p 0).short) : (p 0).read := (hmade.1.resolve_left hshort).2.1
  constructor
  · intro h
    refine ⟨hd.mpr (h.room 0 (by decide) trivial), h.read 1 (by decide) hmade, h.room 1 (by decide) hmade,
      h.small 1 (by decide) hmade, fun hno => ?_⟩
    have hclean := h.clean fun k hk _ => by
      rcases (by omega : k = 0 ∨ k = 1) with rfl | rfl
      · exact hno0
      · exact hno
    exact ⟨hP.mpr (hclean 0 (by decide) trivial), hclean 1 (by decide) hmade⟩
  · intro h
    -- of the first pass `d` and `P` say what has to be said
    refine ⟨fun k hk _ => ?_, fun k hk _ => ?_, fun k hk _ => ?_, fun hno k hk _ => ?_⟩
    all_goals rcases (by omega : k = 0 ∨ k = 1) with rfl | rfl
    · exact hread0
    · exact h.read
    · exact hd.mp h.charge
    · exact h.room
    · exact fun hg => absurd hg hno0
    · exact h.small
    · exact hP.mp (h.clean (hno 1 (by decide) hmade)).1
    · exact (h.clean (hno 1 (by decide) hmade)).2

/-- The second pass is refused like the first one would have been, unless the first pass
has charged somebody. -/
theorem denied_iff (hn : 0 < n) {d : Int} {dqs dqs' : Dquots} (hcharge : Charged d dqs dqs') (h : ¬ Billed c dqs) :
    Denied c n dqs' ↔ Denied c n dqs := by
  have hfree {dqs : Dquots} (h : ¬ Billed c dqs) : ¬ Denied c n dqs := by
    intro hdenied
    by_cases happ : Applies c.quota
    · exact hdenied (chkdq_none hn fun hhas => h ⟨happ, hhas⟩)
    · exact hdenied (congrArg Prod.fst (chkdq_off happ n))
  exact iff_of_false (hfree fun hb => h ⟨hb.1, hcharge.hasDquot.mp hb.2⟩) (hfree h)

end Passes

section WithRetry

variable {c : AllocCall} {n : Nat} {reclaim : Option Nat → AllocState → AllocState}
  {pass : Nat → AllocState → Except Trap (Pass × AllocState)} {S : Nat → AllocState → Meets} {f : AllocState}

/-- What the first pass leaves when it finds no space, with `d` blocks charged. -/
structure Between (c : AllocCall) (m : Meets) (f : AllocState) (bp : Option Nat) (f₁ : AllocState) (d : Int) : Prop where
  nospace : (m.short ∧ f₁.dquots = f.dquots) ∨ m.Full
  st : f₁.st = { f.st with log := f₁.st.log }
  logged : Logged f.st f₁.st (m.Full → m.readable)
  ip : f₁.ip = f.ip
  optim : f₁.optim = m.optim
  charge : Charged d f.dquots f₁.dquots
  nonneg : 0 ≤ d
  le : d ≤ 2 ^ 32
  due : (d = 0 ∨ ¬ HasDquot f.dquots) ↔ (m.Full → ¬ Billed c f.dquots)
  bufs : Calm 1 (f₁.brelse bp).bufs

theorem PassEnd.between {m : Meets} {bp : Option Nat} {f₁ : AllocState} (h : PassEnd c n 0 m f (.nospace bp, f₁))
    (hcalm : Calm 0 f.bufs) : ∃ d, Between c m f bp f₁ d := by
  cases h with
  | short hshort hoptim =>
      have hnot (hfull : m.Full) : False := hfull.1 hshort
      refine ⟨0, .inl ⟨hshort, rfl⟩, rfl, (logged_refl f.st).iff (iff_of_true trivial fun hfull => (hnot hfull).elim), rfl,
        hoptim.symm, charged_refl f.dquots, Int.le_refl 0, by norm_num, ?_, hcalm.succ⟩
      exact iff_of_true (.inl rfl) fun hfull => (hnot hfull).elim
  | full bp f' hfull hst hlog hip hoptim hcharge hbufs =>
      have hbounds : 0 ≤ Quota.due c.quota (2 ^ 32) ∧ Quota.due c.quota (2 ^ 32) ≤ 2 ^ 32 := by
        unfold Quota.due
        split <;> norm_num
      exact ⟨_, .inr hfull, hst, hlog.iff ⟨fun h _ => h, fun h => h hfull⟩, hip, hoptim, hcharge, hbounds.1, hbounds.2,
        billed_iff.trans ⟨fun h _ => h, fun h => h hfull⟩, hbufs⟩

/-- The state that the second pass is entered with. -/
theorem entered_second (hothers : Peaceful fs c.others) (hrec : Reclaims reclaim) {m : Meets} {bp : Option Nat}
    {f₁ : AllocState} {d : Int} (h : Between c m f bp f₁ d) :
    Entered (c.others f.st) f (softdepRequestCleanup c (reclaim bp f₁)) 1 d (m.Full → m.readable)
      ∧ (softdepRequestCleanup c (reclaim bp f₁)).dquots = f₁.dquots
      ∧ (softdepRequestCleanup c (reclaim bp f₁)).optim = f₁.optim := by
  have heq := hrec.eq bp f₁
  have hrst : (reclaim bp f₁).st.emit .unlock = { f.st with log := .unlock :: (reclaim bp f₁).st.log } := by
    rw [State.emit, hrec.st bp f₁, h.st]
  have hothers_eq : c.others ((reclaim bp f₁).st.emit .unlock)
      = { c.others f.st with log := .unlock :: (reclaim bp f₁).st.log } := by
    rw [hrst, hothers.log]
  have hlogged := (h.logged.trans (hrec.logged bp f₁)).relock
  refine ⟨⟨?_, ?_, ?_, ?_, ?_⟩, ?_, ?_⟩
  · show (c.others ((reclaim bp f₁).st.emit .unlock)).emit .lock = _
    rw [softdepRequestCleanup, hothers_eq]
    rfl
  · refine (hlogged.iff (and_iff_left trivial)).congr ?_
    show ((c.others ((reclaim bp f₁).st.emit .unlock)).emit .lock).log = _
    rw [hothers_eq]
    rfl
  · show (reclaim bp f₁).ip = f.ip
    rw [heq]
    exact (brelse_ip f₁ bp).trans h.ip
  · show Charged d f.dquots (reclaim bp f₁).dquots
    rw [heq]
    show Charged d f.dquots (f₁.brelse bp).dquots
    rw [brelse_dquots]
    exact h.charge
  · show Calm 1 (reclaim bp f₁).bufs
    rw [heq]
    exact h.bufs
  · show (reclaim bp f₁).dquots = _
    rw [heq]
    exact brelse_dquots f₁ bp
  · show (reclaim bp f₁).optim = _
    rw [heq]
    exact brelse_optim f₁ bp

/-- For passes that end as `PassEnd` says, a call does what it should exactly when the
passes that are made meet nothing that `Sound` excludes. -/
theorem withRetry_exact (hothers : Peaceful fs c.others) (hrec : Reclaims reclaim) (hn : 0 < n)
    (hsame : ∀ k f f', f'.st = { f.st with log := f'.st.log } → f'.optim = f.optim →
      (Denied c n f'.dquots ↔ Denied c n f.dquots) → S k f' = S k f)
    (hpass : ∀ k f, Ready fs (2 ^ 63 - 2 ^ 32) f → Calm k f.bufs → ∀ res, pass k f = .ok res →
      PassEnd c n k (S k f) f res)
    (hready : Ready fs (2 ^ 62) f) (hblocks : 0 ≤ f.ip.blocks) (hbufs : f.bufs = Heap.empty)
    {res : Except Errno Nat × AllocState} (hcall : withRetry c reclaim pass f = .ok res) :
    Exact c n f res ↔ Sound c n f (passes c S f) := by
  have hcalm : Calm 0 f.bufs := by
    rw [hbufs]
    exact calm_empty
  have hent : Entered f.st f f 0 0 True := ⟨rfl, logged_refl f.st, rfl, charged_refl f.dquots, hcalm⟩
  have hready0 : Ready fs (2 ^ 63 - 2 ^ 32) f := ⟨hready.ok, hready.boot, hready.fits.mono (by norm_num)⟩
  unfold withRetry at hcall
  cases hone : pass 0 f with
  | error t =>
      rw [hone] at hcall
      cases hcall
  | ok end₀ =>
      have hend := hpass 0 f hready0 hcalm end₀ hone
      have hlast := finish_exact (.inl rfl) hblocks (Int.le_refl 0) hent hend
      rw [hone] at hcall
      obtain ⟨r | bp, f₁⟩ := end₀
      · -- the first pass returns
        have hmade : ¬ Made c (passes c S f) 1 := by
          rintro ⟨hno, -⟩
          cases hend with
          | unread e hshort hread => exact hno.elim hshort fun hfull => hread hfull.2.1
          | denied e f' hshort hread hdenied => exact hno.elim hshort fun hfull => hfull.2.2.1 hdenied
          | gained bno f' hgained => exact hno.elim hgained.1 fun hfull => hfull.2.2.2 hgained.2.2.2
        obtain rfl := Except.ok.inj hcall
        exact hlast.trans (sound_first hmade).symm
      · by_cases hlocked : c.buflocked = true
        · -- the caller holds a buffer, and nothing is tried again
          have hmade : ¬ Made c (passes c S f) 1 := by
            rintro ⟨-, hfree⟩
            rw [hlocked] at hfree
            cases hfree
          simp only [hlocked, if_true] at hcall
          obtain rfl := Except.ok.inj hcall
          exact hlast.trans (sound_first hmade).symm
        · obtain ⟨d, hbetween⟩ := hend.between hcalm
          have hmade : Made c (passes c S f) 1 := 
            ⟨hbetween.nospace.imp_left And.left, Bool.not_eq_true _ ▸ hlocked⟩
          obtain ⟨hent₁, hdq, hopt⟩ := entered_second hothers hrec hbetween
          simp only [if_neg hlocked] at hcall
          generalize softdepRequestCleanup c (reclaim bp f₁) = g at hent₁ hdq hopt hcall
          -- the second pass starts from a consistent state again
          have hok := hothers.ok f.st hready.ok hready.boot
          have hready₁ : Ready fs (2 ^ 63 - 2 ^ 32) g := by
            refine ⟨?_, ?_, (hent₁.charge.below hready.fits).mono ?_⟩
            · rw [hent₁.st]
              refine hok.1.congr ?_ ?_ ?_
              all_goals rfl
            · rw [hent₁.st]
              exact hok.2
            · have hle := hbetween.le
              omega
          cases htwo : pass 1 g with
          | error t =>
              rw [htwo] at hcall
              cases hcall
          | ok end₁ =>
              have hend₁ := hpass 1 g hready₁ hent₁.bufs end₁ htwo
              have hlast₁ := finish_exact (.inr rfl) hblocks hbetween.nonneg hent₁ hend₁
              have hres : finish c end₁ = res := by
                rw [htwo] at hcall
                obtain ⟨r | bp', f₂⟩ := end₁
                all_goals exact Except.ok.inj hcall
              rw [hres] at hlast₁
              by_cases hbill : (S 0 f).Full → ¬ Billed c f.dquots
              · have hdenied : Denied c n g.dquots ↔ Denied c n f.dquots := by
                  rw [hdq]
                  rcases hbetween.nospace with ⟨-, hsame⟩ | hfull
                  · rw [hsame]
                  · exact denied_iff hn hbetween.charge (hbill hfull)
                have hmeets : S 1 g = passes c S f 1 :=
                  hsame 1 { f with st := c.others f.st, optim := (S 0 f).optim } g hent₁.st (hopt.trans hbetween.optim) hdenied
                rw [hmeets] at hlast₁
                exact hlast₁.trans (sound_second hmade hbetween.due Iff.rfl).symm
              · refine iff_of_false (fun hexact => ?_) fun h => hbill (h.room 0 (by decide) trivial)
                exact hbill (hbetween.due.mp (hlast₁.mp hexact).charge)

end WithRetry

end UfsX.Proofs.AllocQuota
