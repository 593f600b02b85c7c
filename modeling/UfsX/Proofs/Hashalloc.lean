import UfsX.Ffs.Hashalloc
import UfsX.Proofs.Inoalloc

/-!
# `UfsX.Proofs.Hashalloc`: what the allocators return, and who believes it

`allocators_disciplined` says of each of the four allocators of a cylinder group
when it keeps the promise of `Disciplined`, and of `ffs_hashalloc` when a result
other than 0 is what was asked for. It is about every state in which the searches come back with what
they promise (`Bounded`, `InoReady`), whatever the counts are. `ffs_nodealloccg` breaks the promise when it has written an
inode block and cannot read the group again: it returns the error number, which
`ffs_hashalloc` takes for an inode.
-/

set_option autoImplicit false

namespace UfsX.Proofs

open UfsX.Lib UfsX.Ffs

variable {fs : Fs}

/-! ### `ffs_nodealloccg` -/

/-- `ino` is an inode of group `cg` that was free in `s` and is used in `s'`. -/
structure NewInode (fs : Fs) (cg : Nat) (s : State) (ino : Nat) (s' : State) : Prop where
  in_group : cg * fs.ipg ≤ ino ∧ ino < (cg + 1) * fs.ipg
  was_free : (s.cgs cg).inosused.isclr (ino - cg * fs.ipg) = true
  is_used : (s'.cgs cg).inosused.isset (ino - cg * fs.ipg) = true

theorem NodeOk.newInode {cg ino : Nat} {s s' : State} (h : NodeOk fs cg s ino s') (hne : ino ≠ 0) :
    NewInode fs cg s ino s' :=
  ⟨h.in_group hne, h.was_free hne, h.is_used hne⟩

/-- What the search for an inode relies on, whatever the groups count: a group's inodes fill whole
bytes of its map, the product of the inode number does not wrap, the rotors lie in their groups, and
inode 0 is used. -/
structure InoReady (fs : Fs) (s : State) : Prop where
  eight_dvd : 8 ∣ fs.ipg
  mul_lt : ∀ cg < fs.ncg, cg * fs.ipg < 2 ^ 32
  irotor : ∀ cg < fs.ncg, (s.cgs cg).irotor < fs.ipg
  zero : (s.cgs 0).inosused.isset 0 = true

theorem InoOk.ready {s : State} (hgeo : InoGeometry fs) (h : InoOk fs s) : InoReady fs s where
  eight_dvd := hgeo.eight_dvd_ipg
  mul_lt cg hcg := by
    have hlt := hgeo.cg_mul_lt hcg
    omega
  irotor cg hcg := (h.group cg hcg).irotor
  zero := h.zero

theorem irotor_inited (old g cg : Nat) (s : State) :
    ((s.modCg cg (inodesInited fs old)).cgs g).irotor = (s.cgs g).irotor := by
  rw [State.modCg_cgs]
  by_cases hg : g = cg
  · rw [hg, Function.update_self, inodesInited]
    split <;> rfl
  · rw [Function.update_of_ne hg]

theorem survives_inoReady (fs : Fs) (cg : Nat) : Survives fs cg (InoReady fs) where
  emit _ _ h := ⟨h.eight_dvd, h.mul_lt, h.irotor, h.zero⟩
  inited s _ h _ := by
    refine ⟨h.eight_dvd, h.mul_lt, fun g hg => ?_, ?_⟩
    · rw [irotor_inited]
      exact h.irotor g hg
    · rw [(mapsKept_inited fs s cg _).inosused 0]
      exact h.zero

/-- How a call can end, when `bad` says that the group cannot be read again. -/
inductive NodeResult (fs : Fs) (cg : Nat) (bad : Prop) (s : State) (ino : Nat) (s' : State) : Prop where
  | none (hbad : ¬ bad) (h0 : ino = 0) (hready : InoReady fs s') (hmaps : MapsKept s s')
      (hlog : Replays s s' locked locked)
  | taken (hbad : ¬ bad) (hne : ino ≠ 0) (hnew : NewInode fs cg s ino s')
      (hlog : Replays s s' locked ⟨false, [], [cg]⟩)
  | errno (hbad : bad) (hne : ino ≠ 0) (hmaps : MapsKept s s') (hlog : Replays s s' locked ⟨false, [], []⟩)

theorem ffsNodealloccg_result {s s' : State} {gerr : Nat → Nat} {busy : List Bool} {cg ipref mode ino : Nat}
    (h : InoReady fs s) (hcg : cg < fs.ncg) (hcall : ffsNodealloccg fs s gerr busy cg ipref mode = .ok (ino, s')) :
    NodeResult fs cg (NodeReread fs s gerr busy cg ipref) s ino s' := by
  have hrun := ffsNodealloccg_run (survives_inoReady fs cg) h gerr busy ipref mode
  rw [hcall] at hrun
  generalize hr : Except.ok (ino, s') = r at hrun
  cases hrun with
  | panic => cases hr
  | none hbad hP hmaps hlog =>
      obtain ⟨rfl, rfl⟩ := Prod.mk.inj (Except.ok.inj hr)
      exact .none hbad rfl hP hmaps hlog
  | @taken s₁ _ i hbad hP hmaps hlog hpick =>
      obtain ⟨hi, hclr⟩ := inodePick_free hP.eight_dvd (hP.irotor cg hcg) hpick
      obtain ⟨hino, hne⟩ := nodeTake_ino mode (hP.mul_lt cg hcg) hP.zero hclr
      have hset := (nodeTake_cg fs s₁ cg i mode).1
      obtain rfl : ino = cg * fs.ipg + i := (congrArg Prod.fst (Except.ok.inj hr)).trans hino
      obtain rfl : s' = (nodeTake fs s₁ cg i mode).2 := congrArg Prod.snd (Except.ok.inj hr)
      refine .taken hbad hne ⟨⟨Nat.le_add_right _ _, ?_⟩, ?_, ?_⟩ ?_
      · rw [Nat.add_mul, Nat.one_mul]
        omega
      · rw [Nat.add_sub_cancel_left, ← hmaps.inosused cg]
        exact hclr
      · rw [Nat.add_sub_cancel_left, hset, Bitmap.isset_setbit]
        simp
      · exact hlog.trans (replays_nodeTake fs s₁ cg i mode)
  | errno hbad hne _ hmaps hlog =>
      obtain ⟨rfl, rfl⟩ := Prod.mk.inj (Except.ok.inj hr)
      exact .errno hbad hne hmaps hlog

/-- `ffs_nodealloccg` keeps the discipline unless the group cannot be read again
after an inode block has been written. -/
theorem ffsNodealloccg_disciplined {s s' : State} {gerr : Nat → Nat} {busy : List Bool} {cg ipref mode ino : Nat}
    (h : InoReady fs s) (hcg : cg < fs.ncg) (hcall : ffsNodealloccg fs s gerr busy cg ipref mode = .ok (ino, s')) :
    Disciplined cg s ino s' (NewInode fs cg s ino s')
      ↔ ¬ NodeReread fs s gerr busy cg ipref := by
  cases ffsNodealloccg_result h hcg hcall with
  | none hbad h0 _ hmaps hlog =>
      exact iff_of_true ⟨fun _ => ⟨hlog, hmaps⟩, fun hne => absurd h0 hne⟩ hbad
  | taken hbad hne hnew hlog => exact iff_of_true (disciplined_new hne ⟨hlog, hnew⟩) hbad
  | errno hbad hne _ hlog =>
      refine iff_of_false (fun hd => ?_) (not_not.mpr hbad)
      -- the group has not been written
      have hheld := hlog.unique (hd.succeeds hne).1
      simp at hheld

/-! ### `ffs_hashalloc` -/

theorem rehashGroups_lt {ncg : Nat} (fuel : Nat) : ∀ {i cg g : Nat}, cg < ncg →
    g ∈ rehashGroups ncg fuel i cg → g < ncg := by
  induction fuel with
  | zero =>
      intro i cg g _ hg
      cases hg
  | succ fuel ih =>
      intro i cg g hcg hg
      rw [rehashGroups] at hg
      by_cases hi : i < ncg
      · have hnext : (if cg + i ≥ ncg then cg + i - ncg else cg + i) < ncg := by
          split <;> omega
        rw [if_pos hi] at hg
        rcases List.mem_cons.mp hg with rfl | hg
        · exact hnext
        · exact ih hnext hg
      · rw [if_neg hi] at hg
        cases hg

theorem bruteGroups_lt {ncg : Nat} (left : Nat) : ∀ {cg g : Nat}, cg < ncg →
    g ∈ bruteGroups ncg left cg → g < ncg := by
  induction left with
  | zero =>
      intro cg g _ hg
      cases hg
  | succ left ih =>
      intro cg g hcg hg
      rw [bruteGroups] at hg
      rcases List.mem_cons.mp hg with rfl | hg
      · exact hcg
      · exact ih (by split <;> omega) hg

/-- Only groups of the file system are tried. -/
theorem hashallocTries_lt {icg pref : Nat} (hicg : icg < fs.ncg) :
    ∀ x ∈ hashallocTries fs icg pref, x.1 < fs.ncg := by
  intro x hx
  rcases List.mem_cons.mp hx with rfl | hx
  · exact hicg
  · obtain ⟨g, hg, rfl⟩ := List.mem_map.mp hx
    rcases List.mem_append.mp hg with hg | hg
    · exact rehashGroups_lt _ hicg hg
    · exact bruteGroups_lt _ (Nat.mod_lt _ fs.ncg_pos) hg

/-- What each call promises, the whole search promises. A call that fails keeps
`P`, and what is new after it was new before it. -/
theorem tryGroups_new {allocator : Allocator} (P : State → Prop)
    (New : Nat → State → Nat → State → Prop)
    (hzero : ∀ {k s g pref s'}, P s → g < fs.ncg → allocator k s g pref = .ok (0, s') →
      P s' ∧ ∀ g' r t, New g' s' r t → New g' s r t)
    (hnew : ∀ {k s g pref r s'}, P s → g < fs.ncg → allocator k s g pref = .ok (r, s') → r ≠ 0 →
      New g s r s')
    (tries : List (Nat × Nat)) : ∀ {k : Nat} {s s' : State} {r : Nat},
      (∀ x ∈ tries, x.1 < fs.ncg) → P s → tryGroups allocator tries k s = .ok (r, s') → r ≠ 0 →
      ∃ g < fs.ncg, New g s r s' := by
  induction tries with
  | nil =>
      intro k s s' r _ _ hcall hne
      obtain ⟨rfl, -⟩ := Prod.mk.inj (Except.ok.inj hcall)
      exact absurd rfl hne
  | cons try₁ rest ih =>
      obtain ⟨g, pref⟩ := try₁
      intro k s s' r htries hP hcall hne
      have hg : g < fs.ncg := htries _ List.mem_cons_self
      rw [tryGroups] at hcall
      cases hone : allocator k s g pref with
      | error e =>
          rw [hone] at hcall
          cases hcall
      | ok res =>
          obtain ⟨r₁, s₁⟩ := res
          rw [hone] at hcall
          simp only [bind, Except.bind] at hcall
          by_cases h0 : r₁ ≠ 0
          · rw [if_pos h0] at hcall
            obtain ⟨rfl, rfl⟩ := Prod.mk.inj (Except.ok.inj hcall)
            exact ⟨g, hg, hnew hP hg hone h0⟩
          · rw [if_neg h0] at hcall
            obtain rfl : r₁ = 0 := not_not.mp h0
            obtain ⟨hP₁, hback⟩ := hzero hP hg hone
            obtain ⟨g', hg', hres⟩ :=
              ih (fun x hx => htries x (List.mem_cons_of_mem _ hx)) hP₁ hcall hne
            exact ⟨g', hg', hback _ _ _ hres⟩

/-- A result of `ffs_hashalloc` for a block is always new space. -/
theorem ffsHashalloc_block {s s' : State} {gerr : Nat → Nat} {icg pref size n r : Nat}
    (h : ∀ g < fs.ncg, Bounded fs g (s.cgs g)) (hboot : freeAt fs s 0 = false) (hicg : icg < fs.ncg) (hn : 0 < n)
    (hnf : n ≤ fs.frag) (hsize : size = n * fs.fsize ∨ size = fs.bsize)
    (hcall : ffsHashalloc fs (blockAllocator fs gerr size (n * fs.fsize)) s icg pref = .ok (r, s'))
    (hne : r ≠ 0) : ∃ g < fs.ncg, NewFrags fs g n s r s' := by
  refine tryGroups_new (fun s => (∀ g < fs.ncg, Bounded fs g (s.cgs g)) ∧ freeAt fs s 0 = false)
    (fun g s r s' => NewFrags fs g n s r s') ?_ ?_ _ (hashallocTries_lt hicg) ⟨h, hboot⟩ hcall hne
  · intro k s g pref s' hP hg hone
    -- a call that fails changes the log only
    have hcgs : s'.cgs = s.cgs := by
      rcases ffsAlloccg_cases (hP.1 g hg) hn hnf hsize hone with ⟨-, heq⟩ | ⟨-, heq | ⟨-, -, hnew⟩⟩
      · exact congrArg State.cgs (Prod.mk.inj heq).2
      · rw [(Prod.mk.inj heq).2]
        simp
      · exact absurd rfl (hnew.ne_zero hP.2 hn)
    refine ⟨⟨fun g' hg' => by rw [hcgs]; exact hP.1 g' hg', ?_⟩, fun g' r t hnew => hnew.congr (by rw [hcgs]) rfl⟩
    unfold freeAt
    rw [hcgs]
    exact hP.2
  · intro k s g pref r s' hP hg hone hne
    rcases ffsAlloccg_cases (hP.1 g hg) hn hnf hsize hone with ⟨-, heq⟩ | ⟨-, heq | ⟨-, -, hnew⟩⟩
    · exact absurd (Prod.mk.inj heq).1 hne
    · exact absurd (Prod.mk.inj heq).1 hne
    · exact hnew

/-- One of the calls of the search, after calls that have returned 0, cannot read its group
again. -/
def Rereads (fs : Fs) (gerr : Nat → Nat → Nat) (busy : Nat → List Bool) (mode : Nat) :
    List (Nat × Nat) → Nat → State → Prop
  | [], _, _ => False
  | (cg, pref) :: rest, k, s =>
      NodeReread fs s (gerr k) (busy k) cg pref ∨
        ∃ s', ffsNodealloccg fs s (gerr k) (busy k) cg pref mode = .ok (0, s') ∧
          Rereads fs gerr busy mode rest (k + 1) s'

/-- What the search for an inode returns is a new inode unless that happens. -/
theorem tryGroups_inode_iff {gerr : Nat → Nat → Nat} {busy : Nat → List Bool} {mode r : Nat} {s' : State}
    (hne : r ≠ 0) (tries : List (Nat × Nat)) : ∀ {k : Nat} {s : State}, (∀ x ∈ tries, x.1 < fs.ncg) →
    InoReady fs s → tryGroups (inodeAllocator fs gerr busy mode) tries k s = .ok (r, s') →
    ((∃ g < fs.ncg, NewInode fs g s r s') ↔ ¬ Rereads fs gerr busy mode tries k s) := by
  induction tries with
  | nil =>
      intro k s _ _ hcall
      obtain ⟨rfl, -⟩ := Prod.mk.inj (Except.ok.inj hcall)
      exact absurd rfl hne
  | cons try₁ rest ih =>
      obtain ⟨cg, pref⟩ := try₁
      intro k s htries h hcall
      have hcg : cg < fs.ncg := htries _ List.mem_cons_self
      rw [tryGroups] at hcall
      cases hone : inodeAllocator fs gerr busy mode k s cg pref with
      | error e =>
          rw [hone] at hcall
          cases hcall
      | ok res =>
          obtain ⟨r₁, s₁⟩ := res
          rw [hone] at hcall
          simp only [bind, Except.bind] at hcall
          have hnode : ffsNodealloccg fs s (gerr k) (busy k) cg pref mode = .ok (r₁, s₁) := hone
          rw [Rereads, hnode]
          have hresult := ffsNodealloccg_result h hcg hnode
          by_cases h0 : r₁ ≠ 0
          · rw [if_pos h0] at hcall
            obtain ⟨rfl, rfl⟩ := Prod.mk.inj (Except.ok.inj hcall)
            have hlater : ¬ ∃ t, (Except.ok (r₁, s₁) : Except Panic (Nat × State)) = .ok (0, t) ∧
                Rereads fs gerr busy mode rest (k + 1) t := by
              rintro ⟨t, heq, -⟩
              exact h0 (Prod.mk.inj (Except.ok.inj heq)).1
            rw [or_iff_left hlater]
            cases hresult with
            | none _ hz => exact absurd hz h0
            | taken hbad _ hnew => exact iff_of_true ⟨cg, hcg, hnew⟩ hbad
            | errno hbad _ hmaps =>
                -- no inode is free before and used after it
                refine iff_of_false ?_ (not_not.mpr hbad)
                rintro ⟨g, -, -, hfree, hused⟩
                rw [hmaps.inosused g] at hused
                rw [Bitmap.isclr, hused] at hfree
                cases hfree
          · obtain rfl : r₁ = 0 := not_not.mp h0
            rw [if_neg h0] at hcall
            cases hresult with
            | none hbad _ hready hmaps =>
                have hsame : (∃ g < fs.ncg, NewInode fs g s r s') ↔ ∃ g < fs.ncg, NewInode fs g s₁ r s' := by
                  refine exists_congr fun g => and_congr_right fun _ => ?_
                  have hmap := hmaps.inosused g
                  exact ⟨fun h => ⟨h.in_group, hmap ▸ h.was_free, h.is_used⟩,
                    fun h => ⟨h.in_group, hmap ▸ h.was_free, h.is_used⟩⟩
                rw [hsame, ih (fun x hx => htries x (List.mem_cons_of_mem _ hx)) hready hcall, or_iff_right hbad]
                refine not_congr ⟨fun hlater => ⟨s₁, rfl, hlater⟩, ?_⟩
                rintro ⟨t, heq, hlater⟩
                obtain rfl := (Prod.mk.inj (Except.ok.inj heq)).2
                exact hlater
            | taken _ hne₁ => exact absurd rfl hne₁
            | errno _ hne₁ => exact absurd rfl hne₁

/-! ### All together -/

/-- In every state whose groups meet what the searches rely on, with address 0 and inode 0 in use,
for every outcome of the calls of `ffs_getcg`:

* `ffs_alloccg` and `ffs_fragextend` keep the discipline exactly when they do
  not fail to read the group, `ffs_clusteralloc` always, and `ffs_nodealloccg`
  exactly when it does not fail to read the group again;
* what `ffs_hashalloc` returns for a block is new space, and what it returns for
  an inode is a new inode exactly when none of its calls fails to read the group again. -/
theorem allocators_disciplined {s : State} (hblk : ∀ cg < fs.ncg, Bounded fs cg (s.cgs cg))
    (hboot : freeAt fs s 0 = false) (hino : InoReady fs s) :
    (∀ gerr cg bpref size n r s', cg < fs.ncg → 0 < n → n ≤ fs.frag →
      (size = n * fs.fsize ∨ size = fs.bsize) →
      ffsAlloccg fs s gerr cg bpref size (n * fs.fsize) = .ok (r, s') →
      (Disciplined cg s r s' (NewFrags fs cg n s r s')
        ↔ ((s.csp cg).nbfree = 0 ∧ size = fs.bsize) ∨ gerr = 0))
    ∧ (∀ gerr bprev o n r s', bprev ≠ 0 →
      ffsFragextend fs s gerr (fs.dtog bprev) bprev (o * fs.fsize) (n * fs.fsize) = (r, s') →
      (Disciplined (fs.dtog bprev) s r s' (r = bprev ∧ Extended fs (fs.dtog bprev) o n s r s')
        ↔ (FragextendReads fs s (fs.dtog bprev) bprev (o * fs.fsize) (n * fs.fsize) → gerr = 0)))
    ∧ (∀ gerr cg bpref len r s', cg < fs.ncg → 0 < len →
      ffsClusteralloc fs s gerr cg bpref len = .ok (r, s') →
      Disciplined cg s r s' (NewFrags fs cg (len * fs.frag) s r s'))
    ∧ (∀ gerr busy cg ipref mode ino s', cg < fs.ncg →
      ffsNodealloccg fs s gerr busy cg ipref mode = .ok (ino, s') →
      (Disciplined cg s ino s' (NewInode fs cg s ino s')
        ↔ ¬ NodeReread fs s gerr busy cg ipref))
    ∧ (∀ gerr icg pref size n r s', icg < fs.ncg → 0 < n → n ≤ fs.frag →
      (size = n * fs.fsize ∨ size = fs.bsize) →
      ffsHashalloc fs (blockAllocator fs gerr size (n * fs.fsize)) s icg pref = .ok (r, s') →
      r ≠ 0 → ∃ g < fs.ncg, NewFrags fs g n s r s')
    ∧ ∀ gerr busy icg pref mode r s', icg < fs.ncg →
      ffsHashalloc fs (inodeAllocator fs gerr busy mode) s icg pref = .ok (r, s') → r ≠ 0 →
      ((∃ g < fs.ncg, NewInode fs g s r s') ↔ ¬ Rereads fs gerr busy mode (hashallocTries fs icg pref) 0 s) := by
  refine ⟨?_, ?_, ?_, ?_, ?_, ?_⟩
  · intro gerr cg bpref size n r s' hcg hn hnf hsize hcall
    exact ffsAlloccg_disciplined (hblk cg hcg) hboot hn hnf hsize hcall
  · intro gerr bprev o n r s' hprev hcall
    exact ffsFragextend_disciplined hprev hcall
  · intro gerr cg bpref len r s' hcg hlen hcall
    exact ffsClusteralloc_disciplined (hblk cg hcg) hboot hlen hcall
  · intro gerr busy cg ipref mode ino s' hcg hcall
    exact ffsNodealloccg_disciplined hino hcg hcall
  · intro gerr icg pref size n r s' hicg hn hnf hsize hcall hne
    exact ffsHashalloc_block hblk hboot hicg hn hnf hsize hcall hne
  · intro gerr busy icg pref mode r s' hicg hcall hne
    exact tryGroups_inode_iff hne _ (hashallocTries_lt hicg) hino hcall

theorem fsOk_inoState : FsOk inoFs inoState := by
  have hmap : CgOk inoFs 0 (Cg.ofMap inoFs 0 16
      (Bitmap.ofFun fun i => decide (2 ≤ i ∧ i < 16))) := by
    refine cgOk_ofMap (by decide) fun i hlo _ => ?_
    have hfpg : inoFs.fpg = 16 := rfl
    rw [Bitmap.isset_ofFun, decide_eq_false]
    omega
  refine ⟨fun cg hcg => ?_, fun _ _ => rfl, rfl, rfl, rfl, rfl⟩
  obtain rfl : cg = 0 := Nat.lt_one_iff.mp hcg
  obtain ⟨hcgx, hle, hsize, hbeyond, hfrotor, hncl⟩ := hmap.layout
  exact ⟨⟨hcgx, hle, hsize, hbeyond, hfrotor, hncl⟩, hmap.nbfree, hmap.nffree, hmap.frsum,
    hmap.clusters⟩

theorem boot_inoState : freeAt inoFs inoState 0 = false := by
  show (Bitmap.ofFun fun i => decide (2 ≤ i ∧ i < 16)).isset 0 = false
  rw [Bitmap.isset_ofFun]
  rfl

/-- In `inoState` a block is allocated with the discipline kept. -/
theorem allocators_disciplined_inoState :
    ∃ r s', ffsAlloccg inoFs inoState 0 0 0 inoFs.bsize inoFs.bsize = .ok (r, s')
      ∧ Disciplined 0 inoState r s' (NewFrags inoFs 0 2 inoState r s') := by
  obtain ⟨⟨r, s'⟩, hcall, -⟩ := ffsAlloccg_spec 0 0 fsOk_inoState (show 0 < inoFs.ncg from by decide)
    (show 0 < 2 from by decide) (show 2 ≤ inoFs.frag from by decide) (Or.inl rfl)
  exact ⟨r, s', hcall, ((allocators_disciplined (fun _ hcg => fsOk_inoState.bounded hcg) boot_inoState
    (inoOk_inoState.ready inoGeometry_inoFs)).1 0 0 0 _ 2 r s' (by decide) (by decide) (by decide) (Or.inl rfl)
      hcall).mpr (Or.inr rfl)⟩

theorem nbfree_inoState : (inoState.csp 0).nbfree ≠ 0 := by
  show (freeBlocks inoFs (Bitmap.ofFun fun i => decide (2 ≤ i ∧ i < 16)) : Int) ≠ 0
  decide +kernel

/-- The second inode block is due, and the group cannot be read again. -/
theorem nodeReread_inoState :
    NodeReread inoFs inoState (fun m => if m = 0 then 0 else 5) [] 0 0 := by
  refine ⟨by decide, by decide, rfl, 0, fun m hm => absurd hm (Nat.not_lt_zero m), fun m hm => ?_, by simp,
    by decide⟩
  obtain rfl : m = 0 := by omega
  have hpick : inodePick inoFs (inoState.cgs 0) 0 = .ok 64 := by rfl
  exact (dueAt_zero hpick).mpr (by decide)

/-- With an unreadable group, `ffs_alloccg` releases a null buffer. When the
group cannot be read again, `ffs_hashalloc` returns the error number 5 for an
inode, and inode 5 belongs to somebody else. -/
theorem not_allocators_disciplined :
    (∃ r s', ffsAlloccg inoFs inoState 5 0 0 inoFs.bsize inoFs.bsize = .ok (r, s')
      ∧ ¬ Disciplined 0 inoState r s' (NewFrags inoFs 0 2 inoState r s'))
    ∧ ∃ s', ffsHashalloc inoFs
          (inodeAllocator inoFs (fun _ m => if m = 0 then 0 else 5) (fun _ => []) 0) inoState 0 0
        = .ok (5, s')
      ∧ (inoState.cgs 0).inosused.isset 5 = true := by
  constructor
  · obtain ⟨⟨r, s'⟩, hcall, -⟩ := ffsAlloccg_spec 5 0 fsOk_inoState
      (show 0 < inoFs.ncg from by decide) (show 0 < 2 from by decide)
      (show 2 ≤ inoFs.frag from by decide) (Or.inl rfl)
    refine ⟨r, s', hcall, fun hd => ?_⟩
    rcases (ffsAlloccg_disciplined (fsOk_inoState.bounded (by decide)) boot_inoState (by decide) (by decide)
      (Or.inl rfl) hcall).mp hd with ⟨h0, -⟩ | h5
    · exact nbfree_inoState h0
    · cases h5
  · obtain ⟨ino, s', hcall, hend⟩ := ffsNodealloccg_end inoGeometry_inoFs
      (show 0 < inoFs.ncg from by decide) inoOk_inoState (fun m => if m = 0 then 0 else 5) [] 0 0
    cases hend with
    | none hbad => exact absurd nodeReread_inoState hbad
    | taken hbad => exact absurd nodeReread_inoState hbad
    | errno _ hne _ _ hgerr =>
        obtain ⟨m, rfl⟩ := hgerr
        have h5 : (if m = 0 then 0 else 5) = 5 := by
          by_cases hm : m = 0
          · exact absurd (if_pos hm) hne
          · exact if_neg hm
        rw [h5] at hcall
        refine ⟨s', ?_, rfl⟩
        rw [ffsHashalloc, hashallocTries, tryGroups, inodeAllocator, hcall]
        rfl

end UfsX.Proofs
