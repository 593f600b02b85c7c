import UfsX.Ffs.Fs
import UfsX.Proofs.Blocks
import UfsX.Proofs.Clusteracct

/-!
# `UfsX.Proofs.Consistent`: consistency of a cylinder group and of the totals

`CgOk` says that the summaries of a cylinder group are what one would count in
its free map: whole free blocks, free fragments in the other blocks, runs of
fragments by length, the cluster map and the runs in it. `FsOk` adds that the
in-core summaries and the totals agree with the groups.

Every operation changes the map inside one block at a time. `CgOk.change`
reduces "the group is still consistent" to what happens in that block, and
`FsOk.step` reduces "the file system is still consistent" to one group. The
counts are sums over the blocks of a weight of the block's bits, so one lemma,
`blockSum_change`, serves all of them.
-/

set_option autoImplicit false

namespace UfsX.Proofs

open UfsX.Lib UfsX.Ffs Finset

variable (fs : Fs)

/-! ### The bits of one block -/

/-- All fragments of a block are free. -/
def whole (g : Nat → Bool) : Bool := decide (∀ j < fs.frag, g j = true)

/-- The free fragments of a block that is not entirely free. -/
def fragCount (g : Nat → Bool) : Nat :=
  if whole fs g then 0 else ((range fs.frag).filter fun j => g j = true).card

/-- The maximal runs of exactly `k` free fragments in a block that is not
entirely free. -/
def fragRuns (k : Nat) (g : Nat → Bool) : Nat := if whole fs g then 0 else runs g fs.frag k

/-- Sum of a weight over the blocks of a free map. -/
def blockSum (w : (Nat → Bool) → Nat) (m : Bitmap) : Nat :=
  ∑ b ∈ range fs.nblk, w (blkBits fs m b)

/-- The number of blocks that are entirely free. -/
def freeBlocks (m : Bitmap) : Nat := blockSum fs (fun g => (whole fs g).toNat) m

/-- The number of free fragments in the other blocks. -/
def freeFrags (m : Bitmap) : Nat := blockSum fs (fragCount fs) m

/-- The number of maximal runs of `k` fragments in the other blocks. -/
def freeRuns (m : Bitmap) (k : Nat) : Nat := blockSum fs (fragRuns fs k) m

/-! ### Consistency -/

/-- The shape of a group's record: its number, its size, and a free map that
has no bit past its end. -/
structure CgLayout (cg : Nat) (c : Cg) : Prop where
  cgx : c.cgx = cg
  ndblk_le : c.ndblk ≤ fs.fpg
  ndblk_size : fs.cgbase cg + c.ndblk ≤ fs.size
  beyond : ∀ i, c.ndblk ≤ i → i < fs.mapBytes * 8 → c.blksfree.isset i = false
  frotor : c.frotor < fs.fpg
  nclusterblks : fs.contigsumsize ≠ 0 → c.nclusterblks = c.ndblk / fs.frag

/-- The cluster map marks the entirely free blocks among the first `n`, and
the cluster summary counts its maximal runs, those of `fs_contigsumsize` blocks
or more together. -/
structure ClustersOk (n : Nat) (clustersfree : Bitmap) (clustersum : Nat → Int)
    (free : Nat → Bool) : Prop where
  map : ∀ b < n, clustersfree.isset b = free b
  sum : ∀ k, 0 < k → k < fs.contigsumsize → clustersum k = runs free n k
  last : clustersum fs.contigsumsize = ((∑ j ∈ Icc fs.contigsumsize n, runs free n j : Nat) : Int)

/-- A cylinder group whose summaries agree with its free map. -/
structure CgOk (cg : Nat) (c : Cg) : Prop where
  layout : CgLayout fs cg c
  nbfree : c.cs.nbfree = freeBlocks fs c.blksfree
  nffree : c.cs.nffree = freeFrags fs c.blksfree
  frsum : ∀ k, 0 < k → k < fs.frag → c.frsum k = freeRuns fs c.blksfree k
  clusters : fs.contigsumsize ≠ 0 → ClustersOk fs c.nclusterblks c.clustersfree c.clustersum
    fun b => whole fs (blkBits fs c.blksfree b)

/-- A file system whose groups are consistent, whose `fs_cs` array equals the
groups' summaries and whose `fs_cstotal` is their sum. -/
structure FsOk (s : State) : Prop where
  cg : ∀ cg < fs.ncg, CgOk fs cg (s.cgs cg)
  csp : ∀ cg < fs.ncg, s.csp cg = (s.cgs cg).cs
  ndir : s.cstotal.ndir = ∑ cg ∈ range fs.ncg, (s.cgs cg).cs.ndir
  nbfree : s.cstotal.nbfree = ∑ cg ∈ range fs.ncg, (s.cgs cg).cs.nbfree
  nifree : s.cstotal.nifree = ∑ cg ∈ range fs.ncg, (s.cgs cg).cs.nifree
  nffree : s.cstotal.nffree = ∑ cg ∈ range fs.ncg, (s.cgs cg).cs.nffree

/-! ### Weights of a block -/

theorem whole_iff (g : Nat → Bool) : whole fs g = true ↔ ∀ j < fs.frag, g j = true :=
  decide_eq_true_iff

theorem ffsIsblock_eq_whole (m : Bitmap) (b : Nat) :
    ffsIsblock fs m b = whole fs (blkBits fs m b) := by
  rw [Bool.eq_iff_iff, ffsIsblock_iff, whole_iff]

variable {fs}

theorem whole_congr {g g' : Nat → Bool} (h : ∀ j < fs.frag, g j = g' j) :
    whole fs g = whole fs g' := by
  rw [Bool.eq_iff_iff, whole_iff, whole_iff]
  exact forall₂_congr fun j hj => by rw [h j hj]

theorem fragCount_congr {g g' : Nat → Bool} (h : ∀ j < fs.frag, g j = g' j) :
    fragCount fs g = fragCount fs g' := by
  unfold fragCount
  rw [whole_congr h, filter_congr fun j hj => by rw [h j (mem_range.mp hj)]]

theorem fragRuns_congr {k : Nat} {g g' : Nat → Bool} (h : ∀ j < fs.frag, g j = g' j) :
    fragRuns fs k g = fragRuns fs k g' := by
  unfold fragRuns
  rw [whole_congr h, runs_congr h]

/-- A block that is entirely free is one run, so it has none of a smaller
size. -/
theorem runs_of_whole {g : Nat → Bool} (h : whole fs g = true) {k : Nat} (hk : 0 < k)
    (hkf : k < fs.frag) : runs g fs.frag k = 0 := by
  rw [whole_iff] at h
  rw [runs, card_eq_zero, filter_eq_empty_iff]
  rintro p - ⟨-, hle, -, hlo, hhi⟩
  rcases hlo with hlo | hlo
  · rcases hhi with hhi | hhi
    · omega
    · rw [h _ (by omega)] at hhi
      exact absurd hhi (by decide)
  · rw [h _ (by omega)] at hlo
    exact absurd hlo (by decide)

theorem fragRuns_eq_runs (g : Nat → Bool) {k : Nat} (hk : 0 < k) (hkf : k < fs.frag) :
    fragRuns fs k g = runs g fs.frag k := by
  unfold fragRuns
  cases hw : whole fs g with
  | true => rw [if_pos rfl, runs_of_whole hw hk hkf]
  | false => rw [if_neg (by decide)]

/-- A change inside block `b₀` changes a sum over blocks by the weight of that
block. -/
theorem blockSum_change {w : (Nat → Bool) → Nat}
    (hw : ∀ {g g' : Nat → Bool}, (∀ j < fs.frag, g j = g' j) → w g = w g') {m m' : Bitmap}
    {b₀ : Nat} (hb : b₀ < fs.nblk)
    (hsame : ∀ b, b ≠ b₀ → ∀ j < fs.frag, blkBits fs m' b j = blkBits fs m b j) :
    blockSum fs w m' + w (blkBits fs m b₀) = blockSum fs w m + w (blkBits fs m' b₀) := by
  unfold blockSum
  rw [← add_sum_erase _ _ (mem_range.mpr hb), ← add_sum_erase (range fs.nblk)
    (fun b => w (blkBits fs m b)) (mem_range.mpr hb)]
  have hrest : ∑ b ∈ (range fs.nblk).erase b₀, w (blkBits fs m' b)
      = ∑ b ∈ (range fs.nblk).erase b₀, w (blkBits fs m b) :=
    sum_congr rfl fun b hb' => hw (hsame b (ne_of_mem_erase hb'))
  rw [hrest]
  omega

/-- Two maps agree outside block `b₀`. -/
def SameOutside (fs : Fs) (b₀ : Nat) (m m' : Bitmap) : Prop :=
  ∀ i, ¬ (b₀ * fs.frag ≤ i ∧ i < b₀ * fs.frag + fs.frag) → m'.isset i = m.isset i

theorem SameOutside.blkBits {b₀ : Nat} {m m' : Bitmap} (h : SameOutside fs b₀ m m') {b : Nat}
    (hb : b ≠ b₀) : ∀ j < fs.frag, blkBits fs m' b j = blkBits fs m b j := by
  intro j hj
  refine h _ fun hin => hb ?_
  -- Two blocks that share a fragment are the same block.
  have h1 : (b * fs.frag + j) / fs.frag = b := by
    rw [Nat.mul_comm, Nat.mul_add_div fs.frag_pos, Nat.div_eq_of_lt hj, Nat.add_zero]
  have h2 : (b * fs.frag + j) / fs.frag = b₀ := by
    refine Nat.div_eq_of_lt_le hin.1 ?_
    rw [Nat.add_mul, Nat.one_mul]
    exact hin.2
  rw [← h1, h2]

/-! ### One group -/

/-- The cluster summary in the capped form that `ffs_clusteracct` keeps. -/
theorem cappedRuns_of_lt (g : Nat → Bool) (n : Nat) {c k : Nat} (hk : 0 < k) (hkc : k < c) :
    cappedRuns g n c k = runs g n k := by
  unfold cappedRuns
  by_cases hkn : k ≤ n
  · have hone : (Icc 1 n).filter (fun j => min j c = k) = {k} := by
      ext j
      simp only [mem_filter, mem_Icc, mem_singleton]
      omega
    rw [hone, sum_singleton]
  · have hnone : (Icc 1 n).filter (fun j => min j c = k) = ∅ := by
      rw [filter_eq_empty_iff]
      intro j hj
      rw [mem_Icc] at hj
      omega
    rw [hnone, sum_empty, runs, eq_comm, card_eq_zero, filter_eq_empty_iff]
    intro p _ hr
    have := hr.2.1
    omega

theorem cappedRuns_self (g : Nat → Bool) (n : Nat) {c : Nat} (hc : 0 < c) :
    cappedRuns g n c c = ∑ j ∈ Icc c n, runs g n j := by
  unfold cappedRuns
  congr 1
  ext j
  simp only [mem_filter, mem_Icc]
  omega

theorem clustersOk_iff {n : Nat} {cf : Bitmap} {sum : Nat → Int} {free : Nat → Bool}
    (hc : fs.contigsumsize ≠ 0) :
    ClustersOk fs n cf sum free ↔ (∀ b < n, cf.isset b = free b) ∧ SumOk fs sum cf.isset n := by
  have hpos : 0 < fs.contigsumsize := Nat.pos_of_ne_zero hc
  constructor
  · intro h
    refine ⟨h.map, fun k hk hkc => ?_⟩
    by_cases hlast : k = fs.contigsumsize
    · rw [hlast, h.last, cappedRuns_self _ _ hpos]
      exact congrArg _ (sum_congr rfl fun j _ => runs_congr (fun b hb => (h.map b hb).symm) j)
    · rw [h.sum k hk (by omega), cappedRuns_of_lt _ _ hk (by omega),
        runs_congr fun b hb => (h.map b hb).symm]
  · rintro ⟨hmap, hsum⟩
    refine ⟨hmap, fun k hk hkc => ?_, ?_⟩
    · rw [hsum k hk (by omega), cappedRuns_of_lt _ _ hk hkc, runs_congr hmap]
    · rw [hsum _ hpos (Nat.le_refl _), cappedRuns_self _ _ hpos]
      exact congrArg _ (sum_congr rfl fun j _ => runs_congr hmap j)

/-- A group is consistent after a change inside block `b₀` when its counts moved
by what the block's weights moved. -/
theorem CgOk.change {cg : Nat} {c c' : Cg} (h : CgOk fs cg c) {b₀ : Nat} (hb : b₀ < fs.nblk)
    (hlay : CgLayout fs cg c') (hsame : SameOutside fs b₀ c.blksfree c'.blksfree)
    (hnb : c'.cs.nbfree + (whole fs (blkBits fs c.blksfree b₀)).toNat
      = c.cs.nbfree + (whole fs (blkBits fs c'.blksfree b₀)).toNat)
    (hnf : c'.cs.nffree + fragCount fs (blkBits fs c.blksfree b₀)
      = c.cs.nffree + fragCount fs (blkBits fs c'.blksfree b₀))
    (hfr : ∀ k, 0 < k → k < fs.frag → c'.frsum k + runs (blkBits fs c.blksfree b₀) fs.frag k
      = c.frsum k + runs (blkBits fs c'.blksfree b₀) fs.frag k)
    (hcl : fs.contigsumsize ≠ 0 → ClustersOk fs c'.nclusterblks c'.clustersfree c'.clustersum
      fun b => whole fs (blkBits fs c'.blksfree b)) :
    CgOk fs cg c' := by
  have hout : ∀ b, b ≠ b₀ → ∀ j < fs.frag,
      blkBits fs c'.blksfree b j = blkBits fs c.blksfree b j := fun b hne => hsame.blkBits hne
  refine ⟨hlay, ?_, ?_, fun k hk hkf => ?_, hcl⟩
  · have hsum := blockSum_change (w := fun g => (whole fs g).toNat)
      (fun hg => congrArg Bool.toNat (whole_congr hg)) hb hout
    have hold : c.cs.nbfree = _ := h.nbfree
    unfold freeBlocks at hold ⊢
    omega
  · have hsum := blockSum_change (w := fragCount fs) fragCount_congr hb hout
    have hold : c.cs.nffree = _ := h.nffree
    unfold freeFrags at hold ⊢
    omega
  · have hsum := blockSum_change (w := fragRuns fs k) fragRuns_congr hb hout
    have hold : c.frsum k = _ := h.frsum k hk hkf
    have hmove := hfr k hk hkf
    rw [fragRuns_eq_runs _ hk hkf, fragRuns_eq_runs _ hk hkf] at hsum
    unfold freeRuns at hold ⊢
    omega

/-! ### The whole file system -/

/-- State `s'` is `s` with group `cg` replaced by `c'`, and with the change of
its summary carried to `fs_cs` and to `fs_cstotal`. -/
structure Stepped (s s' : State) (cg : Nat) (c' : Cg) : Prop where
  cgs : s'.cgs = Function.update s.cgs cg c'
  csp : ∀ g, s'.csp g = if g = cg then c'.cs else s.csp g
  ndir : s'.cstotal.ndir = s.cstotal.ndir + (c'.cs.ndir - (s.cgs cg).cs.ndir)
  nbfree : s'.cstotal.nbfree = s.cstotal.nbfree + (c'.cs.nbfree - (s.cgs cg).cs.nbfree)
  nifree : s'.cstotal.nifree = s.cstotal.nifree + (c'.cs.nifree - (s.cgs cg).cs.nifree)
  nffree : s'.cstotal.nffree = s.cstotal.nffree + (c'.cs.nffree - (s.cgs cg).cs.nffree)

/-! A state change is composed of small ones: a change of one group that
leaves its summary alone, and additions to the counters. -/

section Stepped

variable {s s' s'' : State} {cg : Nat} {c' c'' : Cg}

theorem Stepped.cgs_self (h : Stepped s s' cg c') : s'.cgs cg = c' := by
  rw [h.cgs, Function.update_self]

theorem Stepped.cgs_ne (h : Stepped s s' cg c') {g : Nat} (hg : g ≠ cg) : s'.cgs g = s.cgs g := by
  rw [h.cgs, Function.update_of_ne hg]

/-- After a step the in-core summary of the group equals the group's own. -/
theorem Stepped.csp_self (h : Stepped s s' cg c') : s'.csp cg = (s'.cgs cg).cs := by
  rw [h.csp, if_pos rfl, h.cgs_self]

theorem Stepped.trans (h : Stepped s s' cg c') (h' : Stepped s' s'' cg c'') :
    Stepped s s'' cg c'' := by
  have hself := h.cgs_self
  have hndir := h'.ndir
  have hnbfree := h'.nbfree
  have hnifree := h'.nifree
  have hnffree := h'.nffree
  rw [hself, h.ndir] at hndir
  rw [hself, h.nbfree] at hnbfree
  rw [hself, h.nifree] at hnifree
  rw [hself, h.nffree] at hnffree
  refine ⟨?_, fun g => ?_, by omega, by omega, by omega, by omega⟩
  · rw [h'.cgs, h.cgs, Function.update_idem]
  · rw [h'.csp, h.csp]
    split_ifs <;> rfl

/-- The lock, the log, `fs_fmod` and `fs_maxcluster` are not part of a step. -/
theorem Stepped.congr (h : Stepped s s' cg c') (s'' : State) (hcgs : s''.cgs = s'.cgs)
    (hcsp : s''.csp = s'.csp) (htot : s''.cstotal = s'.cstotal) : Stepped s s'' cg c' := by
  obtain ⟨h1, h2, h3, h4, h5, h6⟩ := h
  exact ⟨by rw [hcgs, h1], by rw [hcsp]; exact h2, by rw [htot, h3], by rw [htot, h4],
    by rw [htot, h5], by rw [htot, h6]⟩

theorem stepped_setCg (c' : Cg) (hcsp : s.csp cg = (s.cgs cg).cs) (hcs : c'.cs = (s.cgs cg).cs) :
    Stepped s (s.setCg cg c') cg c' := by
  refine ⟨rfl, fun g => ?_, ?_, ?_, ?_, ?_⟩
  · rw [State.setCg_csp]
    split_ifs with hg
    · rw [hg, hcsp, hcs]
    · rfl
  all_goals rw [State.setCg_cstotal, hcs]; omega

theorem stepped_addNbfree (hcsp : s.csp cg = (s.cgs cg).cs) (d : Int) :
    Stepped s (s.addNbfree cg cg d) cg
      { s.cgs cg with cs := { (s.cgs cg).cs with nbfree := (s.cgs cg).cs.nbfree + d } } := by
  refine ⟨rfl, fun g => ?_, ?_, ?_, ?_, ?_⟩
  · simp only [State.addNbfree, Function.update_apply]
    split_ifs
    · rw [hcsp]
    · rfl
  all_goals simp only [State.addNbfree]; omega

theorem stepped_addNffree (hcsp : s.csp cg = (s.cgs cg).cs) (d : Int) :
    Stepped s (s.addNffree cg cg d) cg
      { s.cgs cg with cs := { (s.cgs cg).cs with nffree := (s.cgs cg).cs.nffree + d } } := by
  refine ⟨rfl, fun g => ?_, ?_, ?_, ?_, ?_⟩
  · simp only [State.addNffree, Function.update_apply]
    split_ifs
    · rw [hcsp]
    · rfl
  all_goals simp only [State.addNffree]; omega

end Stepped

/-- A sum over the groups after one of them was replaced. -/
theorem sum_update_cg (f : Csum → Int) (cgs : Nat → Cg) {cg : Nat} (hcg : cg < fs.ncg) (c' : Cg) :
    ∑ g ∈ range fs.ncg, f (Function.update cgs cg c' g).cs
      = (∑ g ∈ range fs.ncg, f (cgs g).cs) + (f c'.cs - f (cgs cg).cs) := by
  rw [← add_sum_erase _ _ (mem_range.mpr hcg), ← add_sum_erase (range fs.ncg)
    (fun g => f (cgs g).cs) (mem_range.mpr hcg), Function.update_self]
  have hrest : ∑ g ∈ (range fs.ncg).erase cg, f (Function.update cgs cg c' g).cs
      = ∑ g ∈ (range fs.ncg).erase cg, f (cgs g).cs :=
    sum_congr rfl fun g hg => by rw [Function.update_of_ne (ne_of_mem_erase hg)]
  rw [hrest]
  ring

theorem FsOk.step {s s' : State} {cg : Nat} {c' : Cg} (h : FsOk fs s) (hcg : cg < fs.ncg)
    (hst : Stepped s s' cg c') (hc' : CgOk fs cg c') : FsOk fs s' := by
  refine ⟨fun g hg => ?_, fun g hg => ?_, ?_, ?_, ?_, ?_⟩
  · rw [hst.cgs]
    by_cases hgc : g = cg
    · subst hgc
      rw [Function.update_self]
      exact hc'
    · rw [Function.update_of_ne hgc]
      exact h.cg g hg
  · rw [hst.cgs, hst.csp]
    by_cases hgc : g = cg
    · subst hgc
      rw [Function.update_self, if_pos rfl]
    · rw [Function.update_of_ne hgc, if_neg hgc]
      exact h.csp g hg
  · rw [hst.ndir, hst.cgs, sum_update_cg Csum.ndir _ hcg, h.ndir]
  · rw [hst.nbfree, hst.cgs, sum_update_cg Csum.nbfree _ hcg, h.nbfree]
  · rw [hst.nifree, hst.cgs, sum_update_cg Csum.nifree _ hcg, h.nifree]
  · rw [hst.nffree, hst.cgs, sum_update_cg Csum.nffree _ hcg, h.nffree]

/-- Lock and buffer operations do not touch what consistency reads. -/
theorem FsOk.congr {s s' : State} (h : FsOk fs s) (hcgs : s'.cgs = s.cgs) (hcsp : s'.csp = s.csp)
    (htot : s'.cstotal = s.cstotal) : FsOk fs s' := by
  refine ⟨?_, ?_, ?_, ?_, ?_, ?_⟩
  · rw [hcgs]; exact h.cg
  · rw [hcgs, hcsp]; exact h.csp
  · rw [hcgs, htot]; exact h.ndir
  · rw [hcgs, htot]; exact h.nbfree
  · rw [hcgs, htot]; exact h.nifree
  · rw [hcgs, htot]; exact h.nffree

/-! ### Summaries counted from a map

Every free map has consistent summaries: the ones that are counted in it, as
`newfs` and `fsck` write them. -/

/-- The group whose summaries are counted in the free map `m`. -/
def Cg.ofMap (fs : Fs) (cg ndblk : Nat) (m : Bitmap) : Cg where
  cgx := cg
  ndblk := ndblk
  cs := { ndir := 0, nbfree := freeBlocks fs m, nifree := fs.ipg, nffree := freeFrags fs m }
  rotor := 0
  frotor := 0
  irotor := 0
  frsum := fun k => freeRuns fs m k
  blksfree := m
  nclusterblks := ndblk / fs.frag
  clustersum := fun k =>
    cappedRuns (fun b => whole fs (blkBits fs m b)) (ndblk / fs.frag) fs.contigsumsize k
  clustersfree := Bitmap.ofFun fun b => whole fs (blkBits fs m b)
  inosused := fun _ => 0#8
  niblk := fs.ipg
  initediblk := fs.ipg

/-- The file system with the given free maps, all groups of full size. -/
def State.ofMaps (fs : Fs) (m : Nat → Bitmap) : State where
  cstotal :=
    { ndir := 0
      nbfree := ∑ cg ∈ range fs.ncg, (freeBlocks fs (m cg) : Int)
      nifree := ∑ _cg ∈ range fs.ncg, (fs.ipg : Int)
      nffree := ∑ cg ∈ range fs.ncg, (freeFrags fs (m cg) : Int) }
  csp := fun cg => (Cg.ofMap fs cg fs.fpg (m cg)).cs
  maxcluster := fun _ => fs.contigsumsize
  fmod := false
  cgs := fun cg => Cg.ofMap fs cg fs.fpg (m cg)
  log := []

theorem cgOk_ofMap {cg : Nat} {m : Bitmap} (hsize : fs.cgbase cg + fs.fpg ≤ fs.size)
    (hm : ∀ i, fs.fpg ≤ i → i < fs.mapBytes * 8 → m.isset i = false) :
    CgOk fs cg (Cg.ofMap fs cg fs.fpg m) := by
  refine ⟨⟨rfl, Nat.le_refl _, hsize, hm, fs.fpg_pos, fun _ => rfl⟩, rfl, rfl,
    fun _ _ _ => rfl, fun hc => (clustersOk_iff hc).mpr ⟨fun b _ => ?_, fun k hk hkc => ?_⟩⟩
  · simp only [Cg.ofMap, Bitmap.isset_ofFun]
  · have hbits : (Bitmap.ofFun fun b => whole fs (blkBits fs m b)).isset
        = fun b => whole fs (blkBits fs m b) := by
      funext b
      rw [Bitmap.isset_ofFun]
    simp only [Cg.ofMap, hbits]

/-- Counted summaries are consistent. -/
theorem fsOk_ofMaps {m : Nat → Bitmap} (hsize : fs.fpg * fs.ncg ≤ fs.size)
    (hm : ∀ cg < fs.ncg, ∀ i, fs.fpg ≤ i → i < fs.mapBytes * 8 → (m cg).isset i = false) :
    FsOk fs (State.ofMaps fs m) := by
  refine ⟨fun cg hcg => cgOk_ofMap ?_ (hm cg hcg), fun cg _ => rfl, ?_, rfl, rfl, rfl⟩
  · calc fs.cgbase cg + fs.fpg = fs.fpg * (cg + 1) := by rw [Fs.cgbase]; ring
      _ ≤ fs.fpg * fs.ncg := Nat.mul_le_mul_left _ hcg
      _ ≤ fs.size := hsize
  · exact (sum_eq_zero fun cg _ => rfl).symm

/-! ### A small file system -/

/-- One group of 16 fragments, two to a block. -/
def tinyFs : Fs where
  magic := .ufs2
  fragshift := 1
  fshift := 13
  fsbtodb := 4
  size := 16
  ncg := 1
  fpg := 16
  ipg := 8
  sblkno := 0
  cblkno := 0
  iblkno := 0
  dblkno := 0
  metaspace := 0
  oldCgoffset := 0
  oldCgmask := 0
  contigsumsize := 4
  dsize := 14
  minfree := 0
  nindir := 2048
  inopb := 64
  fragshift_le := by decide
  bshift_le := by decide
  fpg_pos := by decide
  frag_dvd_fpg := by decide
  ncg_pos := by decide
  ncg_lt := by decide
  ipg_pos := by decide
  inopb_pos := by decide
  size_lt := by decide
  fsbtodb_le := by decide
  four_le_nindir := by decide
  nindir_le := by decide

/-- Only the first block is in use. -/
def tinyState : State :=
  State.ofMaps tinyFs fun _ => Bitmap.ofFun fun i => decide (2 ≤ i ∧ i < 16)

theorem fsOk_tinyState : FsOk tinyFs tinyState := by
  refine fsOk_ofMaps (by decide) fun cg _ i hlo _ => ?_
  rw [Bitmap.isset_ofFun, decide_eq_false]
  have : tinyFs.fpg = 16 := rfl
  omega

theorem nbfree_tinyState : (tinyState.cgs 0).cs.nbfree ≠ 0 := by
  show (freeBlocks tinyFs (Bitmap.ofFun fun i => decide (2 ≤ i ∧ i < 16)) : Int) ≠ 0
  decide +kernel

end UfsX.Proofs
