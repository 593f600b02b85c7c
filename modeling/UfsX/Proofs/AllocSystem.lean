import UfsX.Proofs.AllocRun
import UfsX.Proofs.Inoalloc

/-!
# `UfsX.Proofs.AllocSystem`: blocks and inodes, in any order

The runs of `AllocRun` are of blocks alone, and those of `Inoalloc` of inodes alone. Both
change the same groups and the same summaries. A call of the block allocator leaves the part
of the inodes as it is (`inodesKept_of_step`), and one of the inode allocator the part of the
blocks (`blocksKept_of_inoStep`), so that the two invariants hold together in every run in
which the calls come in any order (`SystemInv.run`).

`Same` is agreement in a part of the state. Each function is a chain of small changes, each of
which keeps the part.
-/

set_option autoImplicit false

namespace UfsX.Proofs.AllocSystem

open UfsX.Lib UfsX.Ffs UfsX.Proofs Finset Relation

variable {fs : Fs}

/-! ### A part of the state -/

/-- Two states agree in the part `p` of each group, and in the part `q` of the summaries. -/
structure Same {α β : Type} (p : Cg → α) (q : Csum → β) (s s' : State) : Prop where
  cgs : ∀ g, p (s'.cgs g) = p (s.cgs g)
  csp : ∀ g, q (s'.csp g) = q (s.csp g)
  cstotal : q s'.cstotal = q s.cstotal

namespace Same

variable {α β : Type} {p : Cg → α} {q : Csum → β}

theorem refl (s : State) : Same p q s s := ⟨fun _ => rfl, fun _ => rfl, rfl⟩

theorem trans {s s' s'' : State} (h : Same p q s s') (h' : Same p q s' s'') : Same p q s s'' where
  cgs g := (h'.cgs g).trans (h.cgs g)
  csp g := (h'.csp g).trans (h.csp g)
  cstotal := h'.cstotal.trans h.cstotal

/-- A change outside the groups and the summaries. -/
theorem of_eq {s s' : State} (hcgs : s'.cgs = s.cgs) (hcsp : s'.csp = s.csp) (htot : s'.cstotal = s.cstotal) :
    Same p q s s' :=
  ⟨fun g => by rw [hcgs], fun g => by rw [hcsp], by rw [htot]⟩

theorem emit (s : State) (e : Event) : Same p q s (s.emit e) := of_eq rfl rfl rfl

/-- A change of one group. -/
theorem setCg (s : State) (cg : Nat) {c : Cg} (hc : p c = p (s.cgs cg)) : Same p q s (s.setCg cg c) := by
  refine ⟨fun g => ?_, fun _ => rfl, rfl⟩
  rw [State.setCg_cgs]
  by_cases hg : g = cg
  · rw [hg, Function.update_self, hc]
  · rw [Function.update_of_ne hg]

theorem modCg (s : State) (cg : Nat) {f : Cg → Cg} (hf : p (f (s.cgs cg)) = p (s.cgs cg)) :
    Same p q s (s.modCg cg f) := setCg s cg hf

/-- A change of one summary and of the total. -/
theorem summaries {s s' : State} {cgx : Nat} {f : Csum → Csum} (hf : ∀ cs, q (f cs) = q cs)
    (hcgs : s'.cgs = s.cgs) (hcsp : s'.csp = Function.update s.csp cgx (f (s.csp cgx)))
    (htot : s'.cstotal = f s.cstotal) : Same p q s s' := by
  refine ⟨fun g => by rw [hcgs], fun g => ?_, by rw [htot, hf]⟩
  rw [hcsp]
  by_cases hg : g = cgx
  · rw [hg, Function.update_self, hf]
  · rw [Function.update_of_ne hg]

end Same

/-! ### Calls of the block allocator -/

/-- What a group says of its inodes. -/
def inodePart (c : Cg) : Nat × Nat × Nat × Bitmap × Int × Int :=
  (c.irotor, c.niblk, c.initediblk, c.inosused, c.cs.nifree, c.cs.ndir)

def inodeSums (cs : Csum) : Int × Int := (cs.nifree, cs.ndir)

/-- Nothing is changed of the inodes. -/
abbrev InodesKept : State → State → Prop := Same inodePart inodeSums

section Blocks

variable (s : State) (cg : Nat)

theorem inodesKept_addNbfree (cgx : Nat) (d : Int) : InodesKept s (s.addNbfree cg cgx d) := by
  refine Same.trans (Same.modCg s cg (f := fun c => { c with cs := { c.cs with nbfree := c.cs.nbfree + d } }) rfl) ?_
  exact Same.summaries (f := fun cs => { cs with nbfree := cs.nbfree + d }) (fun _ => rfl) rfl rfl rfl

theorem inodesKept_addNffree (cgx : Nat) (d : Int) : InodesKept s (s.addNffree cg cgx d) := by
  refine Same.trans (Same.modCg s cg (f := fun c => { c with cs := { c.cs with nffree := c.cs.nffree + d } }) rfl) ?_
  exact Same.summaries (f := fun cs => { cs with nffree := cs.nffree + d }) (fun _ => rfl) rfl rfl rfl

theorem inodesKept_clusteracct (blkno : Nat) (cnt : Int) : InodesKept s (ffsClusteracct fs s cg blkno cnt) := by
  by_cases hc : fs.contigsumsize = 0
  · rw [ffsClusteracct, if_pos hc]
    exact Same.refl s
  · simp only [ffsClusteracct, if_neg hc]
    -- the group as `setCg` leaves it, and then `fs_maxcluster`
    refine ⟨fun g => ?_, fun _ => rfl, rfl⟩
    rw [State.setCg_cgs]
    by_cases hg : g = cg
    · rw [hg, Function.update_self]
      rfl
    · rw [Function.update_of_ne hg]

theorem inodesKept_takeBlock (cgx blkno : Nat) : InodesKept s (takeBlock fs s cg cgx blkno) := by
  have hmap : InodesKept s (s.modCg cg fun c => { c with blksfree := ffsClrblock fs c.blksfree blkno }) :=
    Same.modCg s cg rfl
  exact ((hmap.trans (inodesKept_clusteracct _ cg blkno (-1))).trans (inodesKept_addNbfree _ cg cgx (-1))).trans
    (Same.of_eq rfl rfl rfl)

theorem inodesKept_giveTail (cgx bno size : Nat) : InodesKept s (giveTail fs s cg cgx bno size) :=
  ((Same.modCg s cg rfl).trans (inodesKept_addNffree _ cg cgx _)).trans (Same.of_eq rfl rfl rfl)

theorem inodesKept_takeFrags (bno frags allocsiz : Nat) : InodesKept s (takeFrags s cg bno frags allocsiz) :=
  ((Same.modCg s cg rfl).trans (inodesKept_addNffree _ cg cg _)).trans (Same.of_eq rfl rfl rfl)

theorem inodesKept_alloccgblkTake (bno size : Nat) : InodesKept s (alloccgblkTake fs s cg bno size).2 := by
  have htake : InodesKept s (takeBlock fs s cg (s.cgs cg).cgx (fs.fragstoblks bno)) := inodesKept_takeBlock s cg _ _
  unfold alloccgblkTake
  simp only []
  split
  · exact htake.trans (inodesKept_giveTail _ cg _ _ _)
  · exact htake

variable {s cg}

/-- What returns after two parts has returned after each. -/
theorem bind_ok {ε α β : Type} {x : Except ε α} {f : α → Except ε β} {b : β} (h : x.bind f = .ok b) :
    ∃ a, x = .ok a ∧ f a = .ok b := by
  cases x with
  | error e => cases h
  | ok a => exact ⟨a, rfl, h⟩

theorem inodesKept_alloccgblk {bpref size : Nat} {r : Nat × State} (heq : ffsAlloccgblk fs s cg bpref size = .ok r) :
    InodesKept s r.2 := by
  unfold ffsAlloccgblk at heq
  simp only [] at heq
  split at heq
  · obtain rfl := Except.ok.inj heq
    exact ((inodesKept_alloccgblkTake s cg _ size).trans (Same.emit _ .unlock)).trans (Same.emit _ .lock)
  · obtain ⟨⟨frotor, bno⟩, -, heq⟩ := bind_ok heq
    obtain rfl := Except.ok.inj heq
    -- the rotors are of the blocks
    have hrotor : InodesKept s (s.modCg cg fun c => { c with
        frotor := frotor
        rotor := if bno ≥ fs.dtogd (fs.cgdata c.cgx).toNat then bno else c.rotor }) := Same.modCg s cg rfl
    exact ((hrotor.trans (inodesKept_alloccgblkTake _ cg bno size)).trans (Same.emit _ .unlock)).trans
      (Same.emit _ .lock)

theorem inodesKept_alloccgBlock {bpref rsize : Nat} {r : Nat × State} (heq : alloccgBlock fs s cg bpref rsize = .ok r) :
    InodesKept s r.2 := by
  obtain ⟨t, hblk, heq⟩ := bind_ok heq
  obtain rfl := Except.ok.inj heq
  have hkept := (Same.emit s .lock).trans (inodesKept_alloccgblk hblk)
  exact (hkept.trans (Same.emit _ .unlock)).trans (Same.emit _ (.bdwrite cg))

theorem inodesKept_cgOpen (s : State) (gerr cg : Nat) : InodesKept s (cgOpen s gerr cg) := by
  refine Same.of_eq ?_ ?_ ?_
  · simp
  · simp
  · simp

theorem inodesKept_cgFail (s : State) (gerr cg : Nat) : InodesKept s (cgFail s gerr cg).2 :=
  (Same.emit s _).trans (Same.emit _ .lock)

theorem inodesKept_alloccg {gerr bpref size rsize : Nat} {r : Nat × State}
    (heq : ffsAlloccg fs s gerr cg bpref size rsize = .ok r) : InodesKept s r.2 := by
  have hopen := inodesKept_cgOpen s gerr cg
  have hfail := hopen.trans (inodesKept_cgFail _ gerr cg)
  unfold ffsAlloccg at heq
  simp only [] at heq
  split at heq
  · obtain rfl := Except.ok.inj heq
    exact Same.refl s
  split at heq
  · obtain rfl := Except.ok.inj heq
    exact hfail
  split at heq
  · exact hopen.trans (inodesKept_alloccgBlock heq)
  split at heq
  · split at heq
    · obtain rfl := Except.ok.inj heq
      exact hfail
    · exact hopen.trans (inodesKept_alloccgBlock heq)
  split at heq
  · cases heq
  · obtain ⟨⟨frotor, bno⟩, -, heq⟩ := bind_ok heq
    obtain rfl := Except.ok.inj heq
    have hrotor : InodesKept s ((cgOpen s gerr cg).modCg cg fun c => { c with frotor := frotor }) :=
      hopen.trans (Same.modCg _ cg rfl)
    exact (((hrotor.trans (inodesKept_takeFrags _ cg bno _ _)).trans (Same.emit _ .lock)).trans
      (Same.emit _ .unlock)).trans (Same.emit _ (.bdwrite cg))

theorem inodesKept_fragextend {gerr bprev osize nsize : Nat} {r : Nat × State}
    (heq : ffsFragextend fs s gerr cg bprev osize nsize = r) : InodesKept s r.2 := by
  subst heq
  have hopen := inodesKept_cgOpen s gerr cg
  have hfail := hopen.trans (inodesKept_cgFail _ gerr cg)
  unfold ffsFragextend
  simp only []
  split
  · exact Same.refl s
  split
  · exact Same.refl s
  split
  · exact hfail
  split
  · exact hfail
  · exact (((hopen.trans (inodesKept_takeFrags _ cg _ _ _)).trans (Same.emit _ .lock)).trans
      (Same.emit _ .unlock)).trans (Same.emit _ (.bdwrite cg))

/-- The blocks of a cluster, one after the other. -/
theorem inodesKept_clusterTake {n bno : Nat} {s' : State} (heq : clusterTake fs cg n bno s = .ok s') :
    InodesKept s s' := by
  induction n generalizing s bno with
  | zero =>
      obtain rfl := Except.ok.inj heq
      exact Same.refl s
  | succ n ih =>
      obtain ⟨⟨got, t⟩, hblk, heq⟩ := bind_ok heq
      simp only [] at heq
      split at heq
      · cases heq
      · exact (inodesKept_alloccgblk hblk).trans (ih heq)

theorem inodesKept_clusteralloc {gerr bpref len : Nat} {r : Nat × State}
    (heq : ffsClusteralloc fs s gerr cg bpref len = .ok r) : InodesKept s r.2 := by
  have hopen := inodesKept_cgOpen s gerr cg
  have hlock := hopen.trans (Same.emit _ .lock)
  unfold ffsClusteralloc at heq
  simp only [] at heq
  split at heq
  · obtain rfl := Except.ok.inj heq
    exact Same.refl s
  split at heq
  · obtain rfl := Except.ok.inj heq
    exact hlock
  split at heq
  · obtain rfl := Except.ok.inj heq
    exact hlock.trans (Same.of_eq rfl rfl rfl)
  split at heq
  · obtain rfl := Except.ok.inj heq
    exact hlock.trans (Same.emit _ (.brelse cg))
  split at heq
  · cases heq
  split at heq
  · cases heq
  · obtain ⟨t, htake, heq⟩ := bind_ok heq
    obtain rfl := Except.ok.inj heq
    have htook := hlock.trans (inodesKept_clusterTake htake)
    exact (htook.trans (Same.emit _ .unlock)).trans (Same.emit _ (.bdwrite cg))

theorem inodesKept_blkfreeBlock (s : State) (cg fragno : Nat) : InodesKept s (blkfreeBlock fs s cg fragno) := by
  have hmap : InodesKept s (s.modCg cg fun c => { c with blksfree := ffsSetblock fs c.blksfree fragno }) :=
    Same.modCg s cg rfl
  exact (hmap.trans (inodesKept_clusteracct _ cg fragno 1)).trans (inodesKept_addNbfree _ cg cg 1)

theorem inodesKept_blkfreeFrags (s : State) (cg cgbno frags : Nat) : InodesKept s (blkfreeFrags fs s cg cgbno frags) := by
  have hgive : InodesKept s (giveFrags fs s cg cgbno frags (cgbno - fs.fragnum cgbno)) :=
    (Same.modCg s cg rfl).trans (inodesKept_addNffree _ cg cg _)
  unfold blkfreeFrags
  simp only []
  split
  · have hcount := hgive.trans (inodesKept_addNffree _ cg cg (-fs.frag))
    exact (hcount.trans (inodesKept_clusteracct _ cg _ 1)).trans (inodesKept_addNbfree _ cg cg 1)
  · exact hgive

theorem inodesKept_blkfreeCg {devvp : Vtype} {gerr : Nat} {bno : Int} {size : Nat} {s' : State}
    (heq : ffsBlkfreeCg fs s devvp gerr bno size = .ok s') : InodesKept s s' := by
  have hread (cg : Nat) : InodesKept s ((s.emit (.getcg cg)).emit .lock) := (Same.emit s _).trans (Same.emit _ .lock)
  have hwrite (cg : Nat) (t : State) : InodesKept t (({ t with fmod := true }.emit .unlock).emit (.bdwrite cg)) :=
    Same.of_eq rfl rfl rfl
  unfold ffsBlkfreeCg at heq
  simp only [] at heq
  split at heq
  · obtain rfl := Except.ok.inj heq
    exact Same.refl s
  split at heq
  · obtain rfl := Except.ok.inj heq
    exact Same.refl s
  split at heq
  · obtain rfl := Except.ok.inj heq
    exact Same.refl s
  split at heq
  · cases heq
  split at heq
  · split at heq
    · split at heq
      · obtain rfl := Except.ok.inj heq
        exact ((hread _).trans (Same.emit _ .unlock)).trans (Same.emit _ _)
      · cases heq
    · obtain rfl := Except.ok.inj heq
      exact ((hread _).trans (inodesKept_blkfreeBlock _ _ _)).trans (hwrite _ _)
  split at heq
  · cases heq
  · obtain rfl := Except.ok.inj heq
    exact ((hread _).trans (inodesKept_blkfreeFrags _ _ _ _)).trans (hwrite _ _)

/-- A call of the block allocator leaves the inodes as they are. -/
theorem inodesKept_of_step {P : Vtype → Nat → Prop} {s s' : State} {l l' : List Range}
    (hst : LedgerStep fs P (s, l) (s', l')) : InodesKept s s' := by
  cases hst with
  | alloccg hcg hn hnf hsize heq => exact inodesKept_alloccg heq
  | fragextend hmem hon hnf heq => exact inodesKept_fragextend heq
  | clusteralloc hcg hc hlen heq => exact inodesKept_clusteralloc heq
  | blkfree hmem hP heq => exact inodesKept_blkfreeCg heq

end Blocks

/-! ### Calls of the inode allocator -/

/-- What a group says of its blocks. -/
def blockPart (c : Cg) : Cg :=
  { c with
    irotor := 0
    niblk := 0
    initediblk := 0
    inosused := fun _ => 0
    cs := { c.cs with nifree := 0, ndir := 0 } }

def blockSums (cs : Csum) : Int × Int := (cs.nbfree, cs.nffree)

/-- Nothing is changed of the blocks. -/
abbrev BlocksKept : State → State → Prop := Same blockPart blockSums

section Inodes

variable (s : State) (cg : Nat)

theorem blocksKept_addNifree (d : Int) : BlocksKept s (s.addNifree cg d) := by
  refine Same.trans (Same.modCg s cg (f := fun c => { c with cs := { c.cs with nifree := c.cs.nifree + d } }) rfl) ?_
  exact Same.summaries (f := fun cs => { cs with nifree := cs.nifree + d }) (fun _ => rfl) rfl rfl rfl

theorem blocksKept_addNdir (d : Int) : BlocksKept s (s.addNdir cg d) := by
  refine Same.trans (Same.modCg s cg (f := fun c => { c with cs := { c.cs with ndir := c.cs.ndir + d } }) rfl) ?_
  exact Same.summaries (f := fun cs => { cs with ndir := cs.ndir + d }) (fun _ => rfl) rfl rfl rfl

theorem blocksKept_ite {p : Prop} [Decidable p] {t s' : State} (h : BlocksKept s t) (h' : BlocksKept s s') :
    BlocksKept s (if p then t else s') := by
  split
  · exact h
  · exact h'

theorem blocksKept_nodeTake (ipref mode : Nat) : BlocksKept s (nodeTake fs s cg ipref mode).2 := by
  have hmap : BlocksKept s (((s.modCg cg fun c => { c with irotor := ipref }).emit .lock).modCg cg fun c =>
      { c with inosused := c.inosused.setbit ipref }) :=
    ((Same.modCg s cg rfl).trans (Same.emit _ .lock)).trans (Same.modCg _ cg rfl)
  have hmod (t : State) : BlocksKept t { t with fmod := true } := Same.of_eq rfl rfl rfl
  have htaken := (hmap.trans (blocksKept_addNifree _ cg (-1))).trans (hmod _)
  unfold nodeTake
  exact ((blocksKept_ite s (htaken.trans (blocksKept_addNdir _ cg 1)) htaken).trans (Same.emit _ .unlock)).trans
    (Same.emit _ (.bdwrite cg))

theorem blocksKept_freefileGive (cgino mode : Nat) : BlocksKept s (freefileGive s cg cgino mode) := by
  have hmap : BlocksKept s ((s.modCg cg fun c => { c with
      inosused := c.inosused.clrbit cgino
      irotor := if cgino < c.irotor then cgino else c.irotor }).emit .lock) :=
    (Same.modCg s cg rfl).trans (Same.emit _ .lock)
  have hgiven := hmap.trans (blocksKept_addNifree _ cg 1)
  unfold freefileGive
  exact (blocksKept_ite s (hgiven.trans (blocksKept_addNdir _ cg (-1))) hgiven).trans (Same.of_eq rfl rfl rfl)

theorem blocksKept_inodesInited (old : Nat) : BlocksKept s (s.modCg cg (inodesInited fs old)) := by
  refine Same.modCg s cg ?_
  unfold inodesInited
  split
  · rfl
  · rfl

variable {s cg}

theorem blocksKept_cgOpen (s : State) (gerr cg : Nat) : BlocksKept s (cgOpen s gerr cg) := by
  refine Same.of_eq ?_ ?_ ?_
  · simp
  · simp
  · simp

theorem blocksKept_nodeCheck {gerr : Nat} {r : Nat × State} (h : nodeCheck s gerr cg = some r) : BlocksKept s r.2 := by
  unfold nodeCheck at h
  split at h
  · obtain rfl := Option.some.inj h
    exact Same.refl s
  split at h
  · obtain rfl := Option.some.inj h
    exact (blocksKept_cgOpen s gerr cg).trans (Same.emit _ .lock)
  · cases h

/-- However often the inode blocks make it start again. -/
theorem blocksKept_nodeRestart {mode : Nat} {gerr : Nat → Nat} {k : Nat} {busy : List Bool} {ipref : Nat}
    {r : Nat × State} (h : nodeRestart fs cg mode gerr k busy s ipref = .ok r) : BlocksKept s r.2 := by
  fun_induction nodeRestart fs cg mode gerr k busy s ipref with
  | case1 k busy s ipref c hnone =>
      obtain rfl := Except.ok.inj h
      exact (Same.emit s _).trans (Same.emit _ .lock)
  | case2 k busy s ipref c hsome e hpick => cases h
  | case3 k busy s ipref c hsome i hpick hdue hbusy s₁ r' hcheck =>
      obtain rfl := Except.ok.inj h
      have hwait : BlocksKept s s₁ := Same.of_eq rfl rfl rfl
      exact hwait.trans (blocksKept_nodeCheck hcheck)
  | case4 k busy s ipref c hsome i hpick hdue hbusy s₁ hcheck ih =>
      have hwait : BlocksKept s s₁ := Same.of_eq rfl rfl rfl
      exact (hwait.trans (blocksKept_cgOpen s₁ (gerr k) cg)).trans (ih h)
  | case5 k busy s ipref c hsome i hpick hdue hbusy s₁ herr =>
      obtain rfl := Except.ok.inj h
      exact Same.of_eq rfl rfl rfl
  | case6 k busy s ipref c hsome i hpick hdue hbusy s₁ hread ih =>
      have hreread : BlocksKept s (inodeReread s₁ cg) := Same.of_eq rfl rfl rfl
      exact (hreread.trans (blocksKept_inodesInited _ cg _)).trans (ih h)
  | case7 k busy s ipref c hsome i hpick hdue =>
      obtain rfl := Except.ok.inj h
      exact blocksKept_nodeTake s cg i mode

theorem blocksKept_nodealloccg {gerr : Nat → Nat} {busy : List Bool} {ipref mode : Nat} {r : Nat × State}
    (h : ffsNodealloccg fs s gerr busy cg ipref mode = .ok r) : BlocksKept s r.2 := by
  unfold ffsNodealloccg at h
  split at h
  case h_1 hcheck =>
    obtain rfl := Except.ok.inj h
    exact blocksKept_nodeCheck hcheck
  case h_2 => exact (blocksKept_cgOpen s (gerr 0) cg).trans (blocksKept_nodeRestart h)

theorem blocksKept_freefile {devvp : Vtype} {gerr ino mode : Nat} {r : Nat × State}
    (h : ffsFreefile fs s devvp gerr ino mode = .ok r) : BlocksKept s r.2 := by
  unfold ffsFreefile at h
  simp only [] at h
  split at h
  · obtain rfl := Except.ok.inj h
    exact Same.refl s
  split at h
  · cases h
  split at h
  · obtain rfl := Except.ok.inj h
    exact Same.refl s
  split at h
  · cases h
  · obtain rfl := Except.ok.inj h
    exact (((Same.emit s _).trans (blocksKept_freefileGive _ _ _ mode)).trans (Same.emit _ .unlock)).trans (Same.emit _ _)

/-- A call of the inode allocator leaves the blocks as they are. -/
theorem blocksKept_of_inoStep {s s' : State} (hst : InoStep fs s s') : BlocksKept s s' := by
  cases hst with
  | alloc busy cg ipref mode ino hcg h => exact blocksKept_nodealloccg h
  | free devvp ino mode e hne hused h => exact blocksKept_freefile h

end Inodes

/-! ### What follows for the two invariants -/

theorem inoOk_of_kept {s s' : State} (h : InoOk fs s) (hsame : InodesKept s s') : InoOk fs s' := by
  have hpart (g : Nat) : (s'.cgs g).irotor = (s.cgs g).irotor ∧ (s'.cgs g).niblk = (s.cgs g).niblk
      ∧ (s'.cgs g).initediblk = (s.cgs g).initediblk ∧ (s'.cgs g).inosused = (s.cgs g).inosused
      ∧ (s'.cgs g).cs.nifree = (s.cgs g).cs.nifree ∧ (s'.cgs g).cs.ndir = (s.cgs g).cs.ndir := by
    have heq := hsame.cgs g
    simp only [inodePart, Prod.mk.injEq] at heq
    exact heq
  have hsums (g : Nat) : (s'.csp g).nifree = (s.csp g).nifree ∧ (s'.csp g).ndir = (s.csp g).ndir := by
    have heq := hsame.csp g
    simp only [inodeSums, Prod.mk.injEq] at heq
    exact heq
  have htot : s'.cstotal.nifree = s.cstotal.nifree ∧ s'.cstotal.ndir = s.cstotal.ndir := by
    have heq := hsame.cstotal
    simp only [inodeSums, Prod.mk.injEq] at heq
    exact heq
  refine ⟨?_, ?_, ?_, ?_, ?_, ?_⟩
  · intro g hg
    obtain ⟨hnifree, hrotor, hinited⟩ := h.group g hg
    obtain ⟨hr, hn, hi, hm, hf, -⟩ := hpart g
    refine ⟨by rw [hf, hm, hnifree], by rw [hr]; exact hrotor, fun h2 => ?_⟩
    obtain ⟨h₁, h₂, h₃, h₄⟩ := hinited h2
    exact ⟨by rw [hn, h₁], by rw [hi, hn]; exact h₂, by rw [hi]; exact h₃, by rw [hm, hi]; exact h₄⟩
  · intro g hg
    rw [(hsums g).1, (hpart g).2.2.2.2.1, h.csp_nifree g hg]
  · intro g hg
    rw [(hsums g).2, (hpart g).2.2.2.2.2, h.csp_ndir g hg]
  · rw [htot.1, h.nifree]
    exact sum_congr rfl fun g _ => (hpart g).2.2.2.2.1.symm
  · rw [htot.2, h.ndir]
    exact sum_congr rfl fun g _ => (hpart g).2.2.2.2.2.symm
  · rw [(hpart 0).2.2.2.1]
    exact h.zero

/-- A field of the blocks. -/
theorem field_of_blockPart {α : Type} {c c' : Cg} (f : Cg → α) (hf : ∀ c, f (blockPart c) = f c)
    (heq : blockPart c' = blockPart c) : f c' = f c := by
  rw [← hf c', heq, hf]

theorem cgOk_of_blockPart {cg : Nat} {c c' : Cg} (h : CgOk fs cg c) (heq : blockPart c' = blockPart c) :
    CgOk fs cg c' := by
  have hcgx : c'.cgx = c.cgx := field_of_blockPart Cg.cgx (fun _ => rfl) heq
  have hndblk : c'.ndblk = c.ndblk := field_of_blockPart Cg.ndblk (fun _ => rfl) heq
  have hfrotor : c'.frotor = c.frotor := field_of_blockPart Cg.frotor (fun _ => rfl) heq
  have hmap : c'.blksfree = c.blksfree := field_of_blockPart Cg.blksfree (fun _ => rfl) heq
  have hncl : c'.nclusterblks = c.nclusterblks := field_of_blockPart Cg.nclusterblks (fun _ => rfl) heq
  have hcmap : c'.clustersfree = c.clustersfree := field_of_blockPart Cg.clustersfree (fun _ => rfl) heq
  have hcsum : c'.clustersum = c.clustersum := field_of_blockPart Cg.clustersum (fun _ => rfl) heq
  have hfrsum : c'.frsum = c.frsum := field_of_blockPart Cg.frsum (fun _ => rfl) heq
  have hnb : c'.cs.nbfree = c.cs.nbfree := field_of_blockPart (fun c : Cg => c.cs.nbfree) (fun _ => rfl) heq
  have hnf : c'.cs.nffree = c.cs.nffree := field_of_blockPart (fun c : Cg => c.cs.nffree) (fun _ => rfl) heq
  obtain ⟨⟨h₁, h₂, h₃, h₄, h₅, h₆⟩, h₇, h₈, h₉, h₁₀⟩ := h
  refine ⟨⟨?_, ?_, ?_, ?_, ?_, ?_⟩, ?_, ?_, ?_, ?_⟩
  · rw [hcgx, h₁]
  · rw [hndblk]; exact h₂
  · rw [hndblk]; exact h₃
  · rw [hndblk, hmap]; exact h₄
  · rw [hfrotor]; exact h₅
  · rw [hncl, hndblk]; exact h₆
  · rw [hnb, hmap, h₇]
  · rw [hnf, hmap, h₈]
  · rw [hfrsum, hmap]; exact h₉
  · rw [hncl, hcmap, hcsum, hmap]; exact h₁₀

/-- With the sums of the inodes, which the inode allocator keeps right. -/
theorem fsOk_of_kept {s s' : State} (h : FsOk fs s) (hsame : BlocksKept s s') (hino : InoOk fs s') : FsOk fs s' := by
  have hcs (g : Nat) : (s'.cgs g).cs.nbfree = (s.cgs g).cs.nbfree ∧ (s'.cgs g).cs.nffree = (s.cgs g).cs.nffree :=
    ⟨field_of_blockPart (fun c : Cg => c.cs.nbfree) (fun _ => rfl) (hsame.cgs g),
      field_of_blockPart (fun c : Cg => c.cs.nffree) (fun _ => rfl) (hsame.cgs g)⟩
  have hsums (g : Nat) : (s'.csp g).nbfree = (s.csp g).nbfree ∧ (s'.csp g).nffree = (s.csp g).nffree := by
    have heq := hsame.csp g
    simp only [blockSums, Prod.mk.injEq] at heq
    exact heq
  have htot : s'.cstotal.nbfree = s.cstotal.nbfree ∧ s'.cstotal.nffree = s.cstotal.nffree := by
    have heq := hsame.cstotal
    simp only [blockSums, Prod.mk.injEq] at heq
    exact heq
  refine ⟨fun g hg => cgOk_of_blockPart (h.cg g hg) (hsame.cgs g), ?_, hino.ndir, ?_, hino.nifree, ?_⟩
  · intro g hg
    have hcsp := h.csp g hg
    refine Csum.ext (hino.csp_ndir g hg) ?_ (hino.csp_nifree g hg) ?_
    · rw [(hsums g).1, (hcs g).1, hcsp]
    · rw [(hsums g).2, (hcs g).2, hcsp]
  · rw [htot.1, h.nbfree]
    exact sum_congr rfl fun g _ => (hcs g).1.symm
  · rw [htot.2, h.nffree]
    exact sum_congr rfl fun g _ => (hcs g).2.symm

/-! ### Runs -/

/-- One call of either allocator, with the ledger of the ranges that are handed out. -/
inductive SystemStep (fs : Fs) : State × List Range → State × List Range → Prop
  | block {s s' : State} {l l' : List Range} (h : LedgerStep fs Effective (s, l) (s', l')) :
      SystemStep fs (s, l) (s', l')
  | inode {s s' : State} {l : List Range} (h : InoStep fs s s') : SystemStep fs (s, l) (s', l)

/-- What holds in a run that starts in `s₀`. -/
structure SystemInv (fs : Fs) (s₀ s : State) (l : List Range) : Prop where
  ledger : LedgerInv fs s₀ s l
  inodes : InoOk fs s

section Run

variable {s₀ s s' : State} {l l' : List Range}

theorem SystemInv.step (hgeo : InoGeometry fs) (hboot : freeAt fs s₀ 0 = false) (h : SystemInv fs s₀ s l)
    (hst : SystemStep fs (s, l) (s', l')) : SystemInv fs s₀ s' l' := by
  cases hst with
  | block hst => exact ⟨h.ledger.step hboot hst, inoOk_of_kept h.inodes (inodesKept_of_step hst)⟩
  | inode hst =>
      have hsame := blocksKept_of_inoStep hst
      have hino := hst.ok hgeo h.inodes
      have hfree (x : Nat) : freeAt fs s' x = freeAt fs s x := by
        have hmap : (s'.cgs (fs.dtog x)).blksfree = (s.cgs (fs.dtog x)).blksfree :=
          field_of_blockPart Cg.blksfree (fun _ => rfl) (hsame.cgs _)
        unfold freeAt
        rw [hmap]
      refine ⟨⟨⟨h.ledger.disjoint, h.ledger.inside, h.ledger.block, h.ledger.fresh, fun x hx => ?_⟩,
        fsOk_of_kept h.ledger.ok hsame hino, fun g => ?_⟩, hino⟩
      · rw [hfree]
        exact h.ledger.map x hx
      · have hndblk : (s'.cgs g).ndblk = (s.cgs g).ndblk := field_of_blockPart Cg.ndblk (fun _ => rfl) (hsame.cgs g)
        rw [hndblk, h.ledger.ndblk]

theorem SystemInv.run (hgeo : InoGeometry fs) (hok : FsOk fs s₀) (hino : InoOk fs s₀) (hboot : freeAt fs s₀ 0 = false)
    (hrun : ReflTransGen (SystemStep fs) (s₀, []) (s, l)) : SystemInv fs s₀ s l :=
  invariant_of_run (fun q : State × List Range => SystemInv fs s₀ q.1 q.2) (fun h hst => SystemInv.step hgeo hboot h hst)
    ⟨LedgerInv.init hok, hino⟩ hrun

/-- What was in use at the start is not handed out, and not free. -/
theorem SystemInv.kept (h : SystemInv fs s₀ s l) {x : Nat} (hx : fs.dtog x < fs.ncg) (hused : freeAt fs s₀ x = false) :
    freeAt fs s x = false ∧ ∀ r ∈ l, ¬ r.Has x := by
  constructor
  · rw [Bool.eq_false_iff]
    intro hfree
    rw [((h.ledger.map x hx).mp hfree).1] at hused
    cases hused
  · intro r hr hhas
    rw [h.ledger.fresh r hr x hhas] at hused
    cases hused

/-- Every legal call returns. -/
theorem SystemInv.returns (hgeo : InoGeometry fs) (hboot : freeAt fs s₀ 0 = false) (h : SystemInv fs s₀ s l) :
    (∀ op : Op, op.Legal fs s → ∃ r s', op.exec fs s = .ok (r, s'))
      ∧ (∀ busy cg ipref mode, cg < fs.ncg → ∃ ino s', ffsNodealloccg fs s (fun _ => 0) busy cg ipref mode = .ok (ino, s'))
      ∧ ∀ devvp ino mode, ino ≠ 0 → InoUsed fs s ino → ∃ s', ffsFreefile fs s devvp 0 ino mode = .ok (0, s') := by
  refine ⟨?_, ?_, ?_⟩
  · intro op hop
    rcases op.exec_spec h.ledger.ok hop with ⟨r, s', heq, -⟩ | ⟨-, hzero⟩
    · exact ⟨r, s', heq⟩
    · -- the boot block is in use
      have hin : fs.dtog 0 < fs.ncg := by
        rw [Fs.dtog, Nat.zero_div]
        exact fs.ncg_pos
      have hused := (h.kept hin hboot).1
      unfold freeAt Fs.dtog Fs.dtogd at hused
      rw [Nat.zero_div, Nat.zero_mod, hzero] at hused
      cases hused
  · intro busy cg ipref mode hcg
    obtain ⟨ino, s', heq, -⟩ := ffsNodealloccg_spec hgeo hcg h.inodes busy ipref mode
    exact ⟨ino, s', heq⟩
  · intro devvp ino mode hne hused
    obtain ⟨s', heq, -⟩ := ffsFreefile_spec hgeo h.inodes hne hused devvp mode
    exact ⟨s', heq⟩

end Run

end UfsX.Proofs.AllocSystem
