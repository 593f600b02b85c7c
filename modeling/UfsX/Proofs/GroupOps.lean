import UfsX.Ffs.Alloc
import UfsX.Proofs.Consistent
import UfsX.Proofs.Fragacct

/-!
# `UfsX.Proofs.GroupOps`: taking and giving fragments in one block

The operations of `ffs_alloc.c` change a free map in four ways: a whole free
block is taken (with its tail given back when less than a block was wanted),
the low end of a run of free fragments is taken, a whole block is given, and
fragments are given. Each section proves that the group stays consistent and
says which bits moved (`Took`, `Gave`).
-/

set_option autoImplicit false

namespace UfsX.Proofs

open UfsX.Lib UfsX.Ffs Finset

variable {fs : Fs}

/-- The bits `p .. p + n - 1` were cleared, and no other. -/
def Took (m m' : Bitmap) (p n : Nat) : Prop :=
  ∀ i, m'.isset i = (!decide (p ≤ i ∧ i < p + n) && m.isset i)

theorem Took.append {m m₁ m₂ : Bitmap} {p n k : Nat} (h₁ : Took m m₁ p n) (h₂ : Took m₁ m₂ (p + n) k) :
    Took m m₂ p (n + k) := by
  intro i
  rw [h₂, h₁, ← Bool.and_assoc, ← Bool.not_or]
  congr 2
  rw [← Bool.decide_or]
  exact decide_eq_decide.mpr (by omega)

/-- The bits `p .. p + n - 1` were set, and no other. -/
def Gave (m m' : Bitmap) (p n : Nat) : Prop :=
  ∀ i, m'.isset i = (decide (p ≤ i ∧ i < p + n) || m.isset i)

/-! ### Bits of the block that changes -/

theorem Took.blkBits {m m' : Bitmap} {b p n : Nat} (h : Took m m' (b * fs.frag + p) n) (j : Nat) :
    blkBits fs m' b j = (!decide (p ≤ j ∧ j < p + n) && blkBits fs m b j) := by
  rw [Proofs.blkBits, Proofs.blkBits, h]
  congr 2
  exact decide_eq_decide.mpr (by omega)

theorem Gave.blkBits {m m' : Bitmap} {b p n : Nat} (h : Gave m m' (b * fs.frag + p) n) (j : Nat) :
    blkBits fs m' b j = (decide (p ≤ j ∧ j < p + n) || blkBits fs m b j) := by
  rw [Proofs.blkBits, Proofs.blkBits, h]
  congr 1
  exact decide_eq_decide.mpr (by omega)

theorem Took.sameOutside {m m' : Bitmap} {b p n : Nat} (h : Took m m' (b * fs.frag + p) n)
    (hpn : p + n ≤ fs.frag) : SameOutside fs b m m' := by
  intro i hi
  rw [h, decide_eq_false (by omega), Bool.not_false, Bool.true_and]

theorem Gave.sameOutside {m m' : Bitmap} {b p n : Nat} (h : Gave m m' (b * fs.frag + p) n)
    (hpn : p + n ≤ fs.frag) : SameOutside fs b m m' := by
  intro i hi
  rw [h, decide_eq_false (by omega), Bool.false_or]

/-- Clearing set bits keeps the map clear past the end of the group. -/
theorem Took.beyond {m m' : Bitmap} {p n : Nat} (h : Took m m' p n) {i : Nat}
    (hi : m.isset i = false) : m'.isset i = false := by
  rw [h, hi, Bool.and_false]

/-- Clearing `n` set bits lowers the number of set bits by `n`. -/
theorem card_clear {g g' : Nat → Bool} {p n f : Nat} (hpn : p + n ≤ f)
    (hset : ∀ j, p ≤ j → j < p + n → g j = true)
    (hg' : ∀ j, g' j = (!decide (p ≤ j ∧ j < p + n) && g j)) :
    ((range f).filter fun j => g' j = true).card + n
      = ((range f).filter fun j => g j = true).card := by
  have hsub : Ico p (p + n) ⊆ (range f).filter fun j => g j = true := by
    intro j hj
    rw [mem_Ico] at hj
    rw [mem_filter, mem_range]
    exact ⟨by omega, hset j hj.1 hj.2⟩
  have hdiff : (range f).filter (fun j => g' j = true)
      = ((range f).filter fun j => g j = true) \ Ico p (p + n) := by
    ext j
    rw [mem_sdiff, mem_filter, mem_filter, mem_Ico, hg', Bool.and_eq_true, Bool.not_eq_true',
      decide_eq_false_iff_not]
    tauto
  rw [hdiff, ← card_sdiff_add_card_eq_card hsub, Nat.card_Ico]
  omega

/-- A block with a clear bit is not entirely free. -/
theorem not_whole {g : Nat → Bool} {j : Nat} (hj : j < fs.frag) (hg : g j = false) :
    whole fs g = false := by
  rw [Bool.eq_false_iff, Ne, whole_iff]
  intro h
  rw [h j hj] at hg
  exact absurd hg (by decide)

theorem fragCount_of_not_whole {g : Nat → Bool} (h : whole fs g = false) :
    fragCount fs g = ((range fs.frag).filter fun j => g j = true).card := by
  rw [fragCount, h, if_neg (by decide)]

theorem fragCount_of_whole {g : Nat → Bool} (h : whole fs g = true) : fragCount fs g = 0 := by
  rw [fragCount, h, if_pos rfl]

/-- An entirely free block has `fs_frag` free fragments. -/
theorem card_of_whole {g : Nat → Bool} (h : whole fs g = true) :
    ((range fs.frag).filter fun j => g j = true).card = fs.frag := by
  rw [filter_true_of_mem fun j hj => (whole_iff fs g).mp h j (mem_range.mp hj), card_range]

/-! ### Layout -/

/-- Bits that are set lie inside the group. -/
theorem CgLayout.lt_ndblk {cg : Nat} {c : Cg} (h : CgLayout fs cg c) {i : Nat}
    (hi : i < fs.mapBytes * 8) (hset : c.blksfree.isset i = true) : i < c.ndblk := by
  by_contra hge
  rw [h.beyond i (by omega) hi] at hset
  exact absurd hset (by decide)

/-- The last fragment of a block of the map is inside the map's bytes. -/
theorem block_end_le {b : Nat} (hb : b < fs.nblk) : b * fs.frag + fs.frag ≤ fs.fpg := by
  calc b * fs.frag + fs.frag = (b + 1) * fs.frag := by ring
    _ ≤ fs.nblk * fs.frag := Nat.mul_le_mul_right _ hb
    _ = fs.fpg := fs.nblk_mul_frag

theorem fpg_le_mapBytes (fs : Fs) : fs.fpg ≤ fs.mapBytes * 8 := by
  unfold Fs.mapBytes
  omega

/-- An entirely free block is one of the blocks of the cluster map. -/
theorem CgOk.lt_nclusterblks {cg : Nat} {c : Cg} (h : CgOk fs cg c) (hc : fs.contigsumsize ≠ 0)
    {b : Nat} (hb : b < fs.nblk) {m : Bitmap}
    (hm : ∀ i, c.ndblk ≤ i → i < fs.mapBytes * 8 → m.isset i = false)
    (hw : whole fs (blkBits fs m b) = true) : b < c.nclusterblks := by
  have hpos := fs.frag_pos
  have hle := fpg_le_mapBytes fs
  have hend := block_end_le hb
  have hbit := (whole_iff fs _).mp hw (fs.frag - 1) (by omega)
  have hlast : b * fs.frag + (fs.frag - 1) < c.ndblk := by
    by_contra hge
    rw [blkBits, hm _ (by omega) (by omega)] at hbit
    exact absurd hbit (by decide)
  rw [h.layout.nclusterblks hc, Nat.lt_div_iff_mul_lt hpos]
  omega

/-! ### The cluster summary follows a block -/

/-- `ffs_clusteracct` without cluster summary does nothing, which is also a
group update. -/
theorem ffsClusteracct_none (s : State) (cg b : Nat) (cnt : Int) (hc : fs.contigsumsize = 0) :
    ffsClusteracct fs s cg b cnt
      = { s.setCg cg { s.cgs cg with
            clustersfree := (s.cgs cg).clustersfree
            clustersum := (s.cgs cg).clustersum } with maxcluster := s.maxcluster } := by
  rw [ffsClusteracct, if_pos hc, State.setCg, Function.update_eq_self]

/-- Block `b` leaves the free blocks. -/
theorem ffsClusteracct_take (s : State) (cg b : Nat) (free free' : Nat → Bool)
    (hold : fs.contigsumsize ≠ 0 →
      ClustersOk fs (s.cgs cg).nclusterblks (s.cgs cg).clustersfree (s.cgs cg).clustersum free)
    (hb : fs.contigsumsize ≠ 0 → b < (s.cgs cg).nclusterblks) (hfree : free b = true)
    (hfree' : free' b = false) (hsame : ∀ i, i ≠ b → free' i = free i) :
    ∃ cf sum mx, ffsClusteracct fs s cg b (-1)
        = { s.setCg cg { s.cgs cg with clustersfree := cf, clustersum := sum } with
            maxcluster := mx } ∧
      (fs.contigsumsize ≠ 0 → ClustersOk fs (s.cgs cg).nclusterblks cf sum free') := by
  by_cases hc : fs.contigsumsize = 0
  · exact ⟨_, _, _, ffsClusteracct_none s cg b (-1) hc, fun h => absurd hc h⟩
  · obtain ⟨hmap, hsum⟩ := (clustersOk_iff hc).mp (hold hc)
    obtain ⟨sum, mx, heq, hsum'⟩ := ffsClusteracct_alloc fs s cg b hc (hb hc)
      (by rw [hmap b (hb hc), hfree]) hsum
    refine ⟨_, sum, mx, heq, fun _ => (clustersOk_iff hc).mpr ⟨fun i hi => ?_, hsum'⟩⟩
    rw [Bitmap.isset_clrbit]
    by_cases hib : i = b
    · rw [hib, hfree', decide_eq_true rfl, Bool.not_true, Bool.false_and]
    · rw [decide_eq_false hib, Bool.not_false, Bool.true_and, hmap i hi, hsame i hib]

/-- Block `b` joins the free blocks. -/
theorem ffsClusteracct_give (s : State) (cg b : Nat) (free free' : Nat → Bool)
    (hold : fs.contigsumsize ≠ 0 →
      ClustersOk fs (s.cgs cg).nclusterblks (s.cgs cg).clustersfree (s.cgs cg).clustersum free)
    (hb : fs.contigsumsize ≠ 0 → b < (s.cgs cg).nclusterblks) (hfree : free b = false)
    (hfree' : free' b = true) (hsame : ∀ i, i ≠ b → free' i = free i) :
    ∃ cf sum mx, ffsClusteracct fs s cg b 1
        = { s.setCg cg { s.cgs cg with clustersfree := cf, clustersum := sum } with
            maxcluster := mx } ∧
      (fs.contigsumsize ≠ 0 → ClustersOk fs (s.cgs cg).nclusterblks cf sum free') := by
  by_cases hc : fs.contigsumsize = 0
  · exact ⟨_, _, _, ffsClusteracct_none s cg b 1 hc, fun h => absurd hc h⟩
  · obtain ⟨hmap, hsum⟩ := (clustersOk_iff hc).mp (hold hc)
    obtain ⟨sum, mx, heq, hsum'⟩ := ffsClusteracct_free fs s cg b hc (hb hc)
      (by rw [hmap b (hb hc), hfree]) hsum
    refine ⟨_, sum, mx, heq, fun _ => (clustersOk_iff hc).mpr ⟨fun i hi => ?_, hsum'⟩⟩
    rw [Bitmap.isset_setbit]
    by_cases hib : i = b
    · rw [hib, hfree', decide_eq_true rfl, Bool.true_or]
    · rw [decide_eq_false hib, Bool.false_or, hmap i hi, hsame i hib]

/-- The block leaves the cluster map and the count of free blocks, after other
changes to the group. -/
theorem Stepped.clusterTake {s s₁ : State} {cg b : Nat} {c₁ : Cg} (hst : Stepped s s₁ cg c₁)
    (free free' : Nat → Bool)
    (hold : fs.contigsumsize ≠ 0 →
      ClustersOk fs c₁.nclusterblks c₁.clustersfree c₁.clustersum free)
    (hb : fs.contigsumsize ≠ 0 → b < c₁.nclusterblks) (hfree : free b = true)
    (hfree' : free' b = false) (hsame : ∀ i, i ≠ b → free' i = free i) :
    ∃ cf sum, Stepped s ((ffsClusteracct fs s₁ cg b (-1)).addNbfree cg cg (-1)) cg { c₁ with
        clustersfree := cf
        clustersum := sum
        cs := { c₁.cs with nbfree := c₁.cs.nbfree + (-1) } } ∧
      (fs.contigsumsize ≠ 0 → ClustersOk fs c₁.nclusterblks cf sum free') := by
  have hself := hst.cgs_self
  obtain ⟨cf, sum, mx, hacct, hcl⟩ := ffsClusteracct_take s₁ cg b free free'
    (by rw [hself]; exact hold) (by rw [hself]; exact hb) hfree hfree' hsame
  rw [hself] at hacct hcl
  have h2 := hst.trans ((stepped_setCg { c₁ with clustersfree := cf, clustersum := sum }
    hst.csp_self (by rw [hself])).congr (ffsClusteracct fs s₁ cg b (-1))
    (by rw [hacct]) (by rw [hacct]) (by rw [hacct]))
  have h3 := h2.trans (stepped_addNbfree h2.csp_self (-1))
  rw [h2.cgs_self] at h3
  exact ⟨cf, sum, h3, hcl⟩

/-- The block joins the cluster map and the count of free blocks, after other
changes to the group. -/
theorem Stepped.clusterGive {s s₁ : State} {cg b : Nat} {c₁ : Cg} (hst : Stepped s s₁ cg c₁)
    (free free' : Nat → Bool)
    (hold : fs.contigsumsize ≠ 0 →
      ClustersOk fs c₁.nclusterblks c₁.clustersfree c₁.clustersum free)
    (hb : fs.contigsumsize ≠ 0 → b < c₁.nclusterblks) (hfree : free b = false)
    (hfree' : free' b = true) (hsame : ∀ i, i ≠ b → free' i = free i) :
    ∃ cf sum, Stepped s ((ffsClusteracct fs s₁ cg b 1).addNbfree cg cg 1) cg { c₁ with
        clustersfree := cf
        clustersum := sum
        cs := { c₁.cs with nbfree := c₁.cs.nbfree + 1 } } ∧
      (fs.contigsumsize ≠ 0 → ClustersOk fs c₁.nclusterblks cf sum free') := by
  have hself := hst.cgs_self
  obtain ⟨cf, sum, mx, hacct, hcl⟩ := ffsClusteracct_give s₁ cg b free free'
    (by rw [hself]; exact hold) (by rw [hself]; exact hb) hfree hfree' hsame
  rw [hself] at hacct hcl
  have h2 := hst.trans ((stepped_setCg { c₁ with clustersfree := cf, clustersum := sum }
    hst.csp_self (by rw [hself])).congr (ffsClusteracct fs s₁ cg b 1)
    (by rw [hacct]) (by rw [hacct]) (by rw [hacct]))
  have h3 := h2.trans (stepped_addNbfree h2.csp_self 1)
  rw [h2.cgs_self] at h3
  exact ⟨cf, sum, h3, hcl⟩

/-- The entirely free blocks after a change inside one block. -/
theorem SameOutside.whole {b₀ : Nat} {m m' : Bitmap} (h : SameOutside fs b₀ m m') {b : Nat}
    (hb : b ≠ b₀) : whole fs (Proofs.blkBits fs m' b) = whole fs (Proofs.blkBits fs m b) :=
  whole_congr (h.blkBits hb)

/-! ### Taking a whole free block -/

/-- The group after `ffs_alloccgblk` took the first `n` fragments of block `b`:
the counts of a group whose block `b` was entirely free and has `fs_frag - n`
free fragments now. -/
theorem CgOk.takeBlock {cg : Nat} {c c' : Cg} (h : CgOk fs cg c) {b n : Nat} (hb : b < fs.nblk)
    (hw : whole fs (blkBits fs c.blksfree b) = true) (hn : 0 < n) (hnf : n ≤ fs.frag)
    (hlay : CgLayout fs cg c') (htook : Took c.blksfree c'.blksfree (b * fs.frag) n)
    (hnb : c'.cs.nbfree = c.cs.nbfree - 1) (hnff : c'.cs.nffree = c.cs.nffree + (fs.frag - n : Nat))
    (hfr : ∀ k, 0 < k → k < fs.frag →
      c'.frsum k = c.frsum k + (if k = fs.frag - n then 1 else 0))
    (hcl : fs.contigsumsize ≠ 0 → ClustersOk fs c'.nclusterblks c'.clustersfree c'.clustersum
      fun b => whole fs (blkBits fs c'.blksfree b)) : CgOk fs cg c' := by
  have hall := (whole_iff fs _).mp hw
  have htook' : Took c.blksfree c'.blksfree (b * fs.frag + 0) n := htook
  have hbits := htook'.blkBits
  have hnw : whole fs (blkBits fs c'.blksfree b) = false :=
    not_whole (j := 0) fs.frag_pos (by
      rw [hbits, decide_eq_true (by omega), Bool.not_true, Bool.false_and])
  refine h.change hb hlay (htook'.sameOutside (by omega)) ?_ ?_ (fun k hk hkf => ?_) hcl
  · rw [hw, hnw, hnb]
    simp
  · have hcard := card_clear (f := fs.frag) (by omega) (fun j _ hj => hall j (by omega)) hbits
    rw [card_of_whole hw] at hcard
    rw [fragCount_of_whole hw, fragCount_of_not_whole hnw, hnff]
    omega
  · -- The entirely free block is one run of `fs_frag`; taking its low end leaves one run.
    have hrun : IsRun (blkBits fs c.blksfree b) fs.frag 0 fs.frag :=
      ⟨fs.frag_pos, by omega, fun j hj => hall _ (by omega), Or.inl rfl, Or.inl (by omega)⟩
    have hshort := (runs_shorten hrun hnf _ hbits).2 hk
    rw [if_neg (show ¬ k = fs.frag from by omega)] at hshort
    rw [hfr k hk hkf, runs_of_whole hw hk hkf] at *
    split_ifs at hshort ⊢ <;> omega

theorem took_ffsClrblock (fs : Fs) (m : Bitmap) (b : Nat) :
    Took m (ffsClrblock fs m b) (b * fs.frag) fs.frag := fun i => isset_ffsClrblock fs m b i

/-- A block of which the first fragment was taken is not entirely free. -/
theorem Took.not_whole {m m' : Bitmap} {b n : Nat} (h : Took m m' (b * fs.frag) n) (hn : 0 < n) :
    whole fs (Proofs.blkBits fs m' b) = false :=
  Proofs.not_whole (j := 0) fs.frag_pos (by
    rw [Proofs.blkBits, h, decide_eq_true (by omega), Bool.not_true, Bool.false_and])

/-- `takeBlock`: the map loses block `b`, the cluster summary and the count of
free blocks follow. -/
theorem takeBlock_stepped {s : State} {cg b : Nat} (h : CgOk fs cg (s.cgs cg))
    (hcsp : s.csp cg = (s.cgs cg).cs) (hb : b < fs.nblk)
    (hw : whole fs (blkBits fs (s.cgs cg).blksfree b) = true) :
    ∃ cf sum, Stepped s (takeBlock fs s cg cg b) cg { s.cgs cg with
        blksfree := ffsClrblock fs (s.cgs cg).blksfree b
        clustersfree := cf
        clustersum := sum
        cs := { (s.cgs cg).cs with nbfree := (s.cgs cg).cs.nbfree + (-1) } } ∧
      (fs.contigsumsize ≠ 0 → ClustersOk fs (s.cgs cg).nclusterblks cf sum
        fun b' => whole fs (blkBits fs (ffsClrblock fs (s.cgs cg).blksfree b) b')) := by
  have hclr := took_ffsClrblock fs (s.cgs cg).blksfree b
  have hout := hclr.sameOutside (p := 0) (Nat.le_of_eq (Nat.zero_add _))
  have h1 := stepped_setCg { s.cgs cg with
    blksfree := ffsClrblock fs (s.cgs cg).blksfree b } hcsp rfl
  obtain ⟨cf, sum, hst, hcl⟩ := h1.clusterTake (b := b)
    (fun b' => whole fs (blkBits fs (s.cgs cg).blksfree b'))
    (fun b' => whole fs (blkBits fs (ffsClrblock fs (s.cgs cg).blksfree b) b')) h.clusters
    (fun hc => h.lt_nclusterblks hc hb h.layout.beyond hw) hw
    (hclr.not_whole fs.frag_pos) (fun b' hne => hout.whole hne)
  exact ⟨cf, sum, hst.congr _ rfl rfl rfl, hcl⟩

/-- `giveTail`: the fragments after the first `n` of the block are free again,
as one run. -/
theorem giveTail_stepped (fs : Fs) {s : State} {cg : Nat} (hcsp : s.csp cg = (s.cgs cg).cs) (bno n : Nat) :
    Stepped s (giveTail fs s cg cg bno n) cg { s.cgs cg with
      blksfree := (s.cgs cg).blksfree.setRange (bno + n) (fs.frag - n)
      frsum := Function.update (s.cgs cg).frsum (fs.frag - n)
        ((s.cgs cg).frsum (fs.frag - n) + 1)
      cs := { (s.cgs cg).cs with nffree := (s.cgs cg).cs.nffree + (fs.frag - n : Nat) } } := by
  have h1 := stepped_setCg { s.cgs cg with
      blksfree := (s.cgs cg).blksfree.setRange (bno + n) (fs.frag - n)
      frsum := Function.update (s.cgs cg).frsum (fs.frag - n)
        ((s.cgs cg).frsum (fs.frag - n) + 1) } hcsp rfl
  have h2 := h1.trans (stepped_addNffree h1.csp_self (fs.frag - n : Nat))
  rw [h1.cgs_self] at h2
  exact h2.congr _ rfl rfl rfl

/-- Taking a block and giving its tail back takes its first `n` fragments. -/
theorem took_setRange (m : Bitmap) {b n : Nat} (hn : n ≤ fs.frag)
    (hw : whole fs (blkBits fs m b) = true) :
    Took m ((ffsClrblock fs m b).setRange (b * fs.frag + n) (fs.frag - n)) (b * fs.frag) n := by
  intro i
  rw [Bitmap.isset_setRange, isset_ffsClrblock]
  by_cases hin : b * fs.frag ≤ i ∧ i < b * fs.frag + fs.frag
  · have hset := (whole_iff fs _).mp hw (i - b * fs.frag) (by omega)
    rw [blkBits, show b * fs.frag + (i - b * fs.frag) = i from by omega] at hset
    rw [hset, decide_eq_true hin, Bool.not_true, Bool.false_and, Bool.or_false, Bool.and_true,
      ← decide_not]
    exact decide_eq_decide.mpr (by omega)
  · rw [decide_eq_false hin, decide_eq_false (by omega), decide_eq_false (by omega),
      Bool.false_or]

/-- The part of `ffs_alloccgblk` from `gotit` on: the first `numfrags(size)`
fragments of block `b` are taken and the group stays consistent. -/
theorem alloccgblkTake_spec {s : State} {cg b size : Nat} (h : CgOk fs cg (s.cgs cg))
    (hcsp : s.csp cg = (s.cgs cg).cs) (hb : b < fs.nblk)
    (hw : whole fs (blkBits fs (s.cgs cg).blksfree b) = true) (hn : 0 < fs.numfrags size)
    (hnf : fs.numfrags size ≤ fs.frag) :
    ∃ s' c', alloccgblkTake fs s cg (b * fs.frag) size = (fs.cgbase cg + b * fs.frag, s') ∧
      Stepped s s' cg c' ∧ CgOk fs cg c' ∧ c'.ndblk = (s.cgs cg).ndblk ∧
      Took (s.cgs cg).blksfree c'.blksfree (b * fs.frag) (fs.numfrags size) := by
  have hend := block_end_le hb
  have hdtogd : fs.dtogd (fs.cgbase cg + b * fs.frag) = b * fs.frag := by
    have := fs.frag_pos
    rw [Fs.dtogd, Fs.cgbase, Nat.mul_add_mod, Nat.mod_eq_of_lt (by omega)]
  have hlay := h.layout
  obtain ⟨cf, sum, hst, hcl⟩ := takeBlock_stepped h hcsp hb hw
  unfold alloccgblkTake
  simp only [fs.fragstoblks_mul, hlay.cgx]
  by_cases hsize : fs.numfrags size = fs.frag
  · -- The whole block was wanted.
    have htook := took_ffsClrblock fs (s.cgs cg).blksfree b
    rw [if_neg (not_not.mpr hsize), hsize]
    refine ⟨_, _, rfl, hst, ?_, rfl, htook⟩
    refine h.takeBlock hb hw fs.frag_pos (Nat.le_refl _) ⟨hlay.cgx, hlay.ndblk_le, hlay.ndblk_size,
      fun i hlo hhi => htook.beyond (hlay.beyond i hlo hhi), hlay.frotor, hlay.nclusterblks⟩
      htook rfl ?_ (fun k hk hkf => ?_) hcl
    · simp
    · rw [if_neg (by omega), Int.add_zero]
  · -- The tail goes back as one run of `fs_frag - n` fragments.
    have htook := took_setRange (s.cgs cg).blksfree hnf hw
    have htail := hst.trans (giveTail_stepped fs hst.csp_self (b * fs.frag) (fs.numfrags size))
    rw [if_pos hsize, hdtogd]
    simp only [hst.cgs_self] at htail
    refine ⟨_, _, rfl, htail, ?_, rfl, htook⟩
    refine h.takeBlock hb hw hn hnf ⟨hlay.cgx, hlay.ndblk_le, hlay.ndblk_size,
      fun i hlo hhi => htook.beyond (hlay.beyond i hlo hhi), hlay.frotor, hlay.nclusterblks⟩
      htook rfl rfl (fun k hk hkf => ?_) (fun hc => ?_)
    · simp only [Function.update_apply]
      split_ifs with hk'
      · rw [hk']
      · rw [Int.add_zero]
    · -- Block `b` is in use in both maps, and no other block differs.
      have hsame : (fun b' => whole fs (blkBits fs (ffsClrblock fs (s.cgs cg).blksfree b) b'))
          = fun b' => whole fs (blkBits fs ((ffsClrblock fs (s.cgs cg).blksfree b).setRange
            (b * fs.frag + fs.numfrags size) (fs.frag - fs.numfrags size)) b') := by
        funext b'
        by_cases hb' : b' = b
        · rw [hb', (took_ffsClrblock fs _ b).not_whole fs.frag_pos, htook.not_whole hn]
        · rw [(htook.sameOutside (p := 0) (by omega)).whole hb',
            ((took_ffsClrblock fs _ b).sameOutside (p := 0) (by omega)).whole hb']
      exact hsame ▸ hcl hc

/-! ### Taking the low end of a run -/

/-- The two corrections of `cg_frsum`, read at a non-zero entry. -/
theorem frsum_shorten_apply (frsum : Nat → Int) {r k : Nat} (hr : r ≤ k) {j : Nat} (hj : 0 < j) :
    (if r ≠ k then Function.update (Function.update frsum k (frsum k - 1)) (k - r)
        (Function.update frsum k (frsum k - 1) (k - r) + 1)
      else Function.update frsum k (frsum k - 1)) j
      = frsum j - (if j = k then 1 else 0) + (if j = k - r then 1 else 0) := by
  by_cases hrk : r = k
  · rw [if_neg (not_not.mpr hrk), Function.update_apply, if_neg (show ¬ j = k - r from by omega)]
    split_ifs with hjk
    · rw [hjk, Int.add_zero]
    · omega
  · rw [if_pos hrk]
    simp only [Function.update_apply]
    split_ifs with h1 h2 h2 <;> subst_vars <;> omega

/-- A maximal run shorter than a block leaves a clear bit in the block. -/
theorem IsRun.not_whole {g : Nat → Bool} {p k : Nat} (h : IsRun g fs.frag p k)
    (hk : k < fs.frag) : whole fs g = false := by
  obtain ⟨_, hle, -, hlo, hhi⟩ := h
  by_cases hp : p = 0
  · rcases hhi with hhi | hhi
    · omega
    · exact Proofs.not_whole (by omega) hhi
  · rcases hlo with hlo | hlo
    · exact absurd hlo hp
    · exact Proofs.not_whole (by omega) hlo

/-- Taking the first `r` fragments of a maximal run of `k` fragments keeps the
group consistent. -/
theorem takeFrags_spec {s : State} {cg b p r k : Nat} (h : CgOk fs cg (s.cgs cg))
    (hcsp : s.csp cg = (s.cgs cg).cs) (hb : b < fs.nblk)
    (hrun : IsRun (blkBits fs (s.cgs cg).blksfree b) fs.frag p k) (hk : k < fs.frag)
    (hr : r ≤ k) :
    ∃ c', Stepped s (takeFrags s cg (b * fs.frag + p) r k) cg c' ∧ CgOk fs cg c' ∧
      c'.ndblk = (s.cgs cg).ndblk ∧
      Took (s.cgs cg).blksfree c'.blksfree (b * fs.frag + p) r := by
  have hlay := h.layout
  have htook : Took (s.cgs cg).blksfree ((s.cgs cg).blksfree.clrRange (b * fs.frag + p) r)
      (b * fs.frag + p) r := fun i => Bitmap.isset_clrRange _ _ _ i
  have hbits := htook.blkBits
  have hout := htook.sameOutside (by have := hrun.2.1; omega)
  have hnw := IsRun.not_whole hrun hk
  -- Clearing bits does not fill the block.
  have hnw' : whole fs (blkBits fs ((s.cgs cg).blksfree.clrRange (b * fs.frag + p) r) b)
      = false := by
    rw [Bool.eq_false_iff, Ne, whole_iff]
    intro hall
    rw [Bool.eq_false_iff, Ne, whole_iff] at hnw
    refine hnw fun j hj => ?_
    have hj' := hall j hj
    rw [hbits, Bool.and_eq_true] at hj'
    exact hj'.2
  have h1 := stepped_setCg { s.cgs cg with
      blksfree := (s.cgs cg).blksfree.clrRange (b * fs.frag + p) r
      frsum := if r ≠ k then
          Function.update (Function.update (s.cgs cg).frsum k ((s.cgs cg).frsum k - 1)) (k - r)
            (Function.update (s.cgs cg).frsum k ((s.cgs cg).frsum k - 1) (k - r) + 1)
        else Function.update (s.cgs cg).frsum k ((s.cgs cg).frsum k - 1) } hcsp rfl
  have h2 := h1.trans (stepped_addNffree h1.csp_self (-r))
  rw [h1.cgs_self] at h2
  refine ⟨_, h2.congr _ rfl rfl rfl, ?_, rfl, htook⟩
  refine h.change hb ⟨hlay.cgx, hlay.ndblk_le, hlay.ndblk_size,
    fun i hlo hhi => htook.beyond (hlay.beyond i hlo hhi), hlay.frotor, hlay.nclusterblks⟩
    hout ?_ ?_ (fun j hj hjf => ?_) (fun hc => ?_)
  · simp only [hnw, hnw']
  · have hcard := card_clear (f := fs.frag) (by have := hrun.2.1; omega)
      (fun j hlo hhi => by
        have hset := hrun.2.2.1 (j - p) (by omega)
        rwa [show p + (j - p) = j from by omega] at hset) hbits
    simp only [fragCount_of_not_whole hnw, fragCount_of_not_whole hnw']
    omega
  · have hshort := (runs_shorten hrun hr _ hbits).2 hj
    simp only [frsum_shorten_apply _ hr hj]
    split_ifs at hshort ⊢ <;> omega
  · have hsame : (fun b' => whole fs (blkBits fs (s.cgs cg).blksfree b'))
        = fun b' => whole fs (blkBits fs
            ((s.cgs cg).blksfree.clrRange (b * fs.frag + p) r) b') := by
      funext b'
      by_cases hb' : b' = b
      · rw [hb', hnw, hnw']
      · rw [hout.whole hb']
    exact hsame ▸ h.clusters hc

/-! ### Giving a whole block -/

theorem gave_ffsSetblock (fs : Fs) (m : Bitmap) (b : Nat) :
    Gave m (ffsSetblock fs m b) (b * fs.frag) fs.frag := fun i => isset_ffsSetblock fs m b i

/-- Giving fragments inside the group keeps the map clear past its end. -/
theorem Gave.beyond {m m' : Bitmap} {p n e : Nat} (h : Gave m m' p n) (he : p + n ≤ e) {i : Nat}
    (hi : e ≤ i) (hclr : m.isset i = false) : m'.isset i = false := by
  rw [h, hclr, decide_eq_false (by omega), Bool.false_or]

/-- A block with every fragment clear has no run. -/
theorem runs_of_clear {g : Nat → Bool} {n : Nat} (h : ∀ j < n, g j = false) {k : Nat}
    (hk : 0 < k) : runs g n k = 0 := by
  rw [runs, card_eq_zero, filter_eq_empty_iff]
  rintro p - ⟨-, hle, hset, -⟩
  have h0 := hset 0 hk
  rw [h _ (by omega)] at h0
  exact absurd h0 (by decide)

/-- Freeing block `b`, of which no fragment is free, keeps the group
consistent. -/
theorem blkfreeBlock_spec {s : State} {cg b : Nat} (h : CgOk fs cg (s.cgs cg))
    (hcsp : s.csp cg = (s.cgs cg).cs) (hb : b < fs.nblk)
    (hend : b * fs.frag + fs.frag ≤ (s.cgs cg).ndblk)
    (hclr : ∀ j < fs.frag, blkBits fs (s.cgs cg).blksfree b j = false) :
    ∃ c', Stepped s (blkfreeBlock fs s cg b) cg c' ∧ CgOk fs cg c' ∧
      c'.ndblk = (s.cgs cg).ndblk ∧
      Gave (s.cgs cg).blksfree c'.blksfree (b * fs.frag) fs.frag := by
  have hlay := h.layout
  have hgave := gave_ffsSetblock fs (s.cgs cg).blksfree b
  have hgave' : Gave (s.cgs cg).blksfree (ffsSetblock fs (s.cgs cg).blksfree b) (b * fs.frag + 0)
      fs.frag := hgave
  have hout := hgave'.sameOutside (Nat.le_of_eq (Nat.zero_add _))
  have hbits := hgave'.blkBits
  have hbeyond : ∀ i, (s.cgs cg).ndblk ≤ i → i < fs.mapBytes * 8 →
      (ffsSetblock fs (s.cgs cg).blksfree b).isset i = false := fun i hlo hhi =>
    hgave.beyond hend hlo (hlay.beyond i hlo hhi)
  have hnw : whole fs (blkBits fs (s.cgs cg).blksfree b) = false :=
    not_whole fs.frag_pos (hclr 0 fs.frag_pos)
  have hw : whole fs (blkBits fs (ffsSetblock fs (s.cgs cg).blksfree b) b) = true := by
    rw [whole_iff]
    intro j hj
    rw [hbits, decide_eq_true (by omega), Bool.true_or]
  have h1 := stepped_setCg { s.cgs cg with
    blksfree := ffsSetblock fs (s.cgs cg).blksfree b } hcsp rfl
  obtain ⟨cf, sum, hst, hcl⟩ := h1.clusterGive (b := b)
    (fun b' => whole fs (blkBits fs (s.cgs cg).blksfree b'))
    (fun b' => whole fs (blkBits fs (ffsSetblock fs (s.cgs cg).blksfree b) b')) h.clusters
    (fun hc => h.lt_nclusterblks hc hb hbeyond hw) hnw hw (fun b' hne => hout.whole hne)
  refine ⟨_, hst, ?_, rfl, hgave⟩
  refine h.change hb ⟨hlay.cgx, hlay.ndblk_le, hlay.ndblk_size, hbeyond, hlay.frotor, hlay.nclusterblks⟩ hout
    ?_ ?_ (fun k hk hkf => ?_) hcl
  · simp [hnw, hw]
  · have hnone : ((range fs.frag).filter fun j => blkBits fs (s.cgs cg).blksfree b j = true) = ∅ := by
      rw [filter_eq_empty_iff]
      intro j hj
      rw [hclr j (mem_range.mp hj)]
      decide
    simp only [fragCount_of_not_whole hnw, fragCount_of_whole hw, hnone, card_empty]
  · simp only [runs_of_clear hclr hk, runs_of_whole hw hk hkf]

/-! ### Giving fragments -/

/-- Setting `n` clear bits raises the number of set bits by `n`. -/
theorem card_set {g g' : Nat → Bool} {p n f : Nat} (hpn : p + n ≤ f)
    (hclr : ∀ j, p ≤ j → j < p + n → g j = false)
    (hg' : ∀ j, g' j = (decide (p ≤ j ∧ j < p + n) || g j)) :
    ((range f).filter fun j => g j = true).card + n
      = ((range f).filter fun j => g' j = true).card := by
  refine card_clear hpn (fun j hlo hhi => ?_) fun j => ?_
  · rw [hg', decide_eq_true ⟨hlo, hhi⟩, Bool.true_or]
  · rw [hg']
    by_cases hin : p ≤ j ∧ j < p + n
    · rw [decide_eq_true hin, hclr j hin.1 hin.2]
      rfl
    · rw [decide_eq_false hin, Bool.false_or, Bool.not_false, Bool.true_and]

/-- `giveFrags`: the map gains the fragments, the run counts of their block are
taken anew, and the count of free fragments follows. -/
theorem giveFrags_stepped (fs : Fs) {s : State} {cg : Nat} (hcsp : s.csp cg = (s.cgs cg).cs)
    (cgbno n bbase : Nat) :
    Stepped s (giveFrags fs s cg cgbno n bbase) cg { s.cgs cg with
      blksfree := (s.cgs cg).blksfree.setRange cgbno n
      frsum := ffsFragacct fs (blkmap fs ((s.cgs cg).blksfree.setRange cgbno n) bbase)
        (ffsFragacct fs (blkmap fs (s.cgs cg).blksfree bbase) (s.cgs cg).frsum (-1)) 1
      cs := { (s.cgs cg).cs with nffree := (s.cgs cg).cs.nffree + n } } := by
  have h1 := stepped_setCg { s.cgs cg with
      blksfree := (s.cgs cg).blksfree.setRange cgbno n
      frsum := ffsFragacct fs (blkmap fs ((s.cgs cg).blksfree.setRange cgbno n) bbase)
        (ffsFragacct fs (blkmap fs (s.cgs cg).blksfree bbase) (s.cgs cg).frsum (-1)) 1 } hcsp rfl
  have h2 := h1.trans (stepped_addNffree h1.csp_self n)
  rw [h1.cgs_self] at h2
  exact h2

/-- Freeing `n` fragments of block `b`, none of which is free, keeps the group
consistent, also when they complete the block. -/
theorem blkfreeFrags_spec {s : State} {cg b p n : Nat} (h : CgOk fs cg (s.cgs cg))
    (hcsp : s.csp cg = (s.cgs cg).cs) (hb : b < fs.nblk) (hn : 0 < n) (hpn : p + n ≤ fs.frag)
    (hend : b * fs.frag + p + n ≤ (s.cgs cg).ndblk)
    (hclr : ∀ j, p ≤ j → j < p + n → blkBits fs (s.cgs cg).blksfree b j = false) :
    ∃ c', Stepped s (blkfreeFrags fs s cg (b * fs.frag + p) n) cg c' ∧ CgOk fs cg c' ∧
      c'.ndblk = (s.cgs cg).ndblk ∧
      Gave (s.cgs cg).blksfree c'.blksfree (b * fs.frag + p) n := by
  have hlay := h.layout
  have hgave : Gave (s.cgs cg).blksfree ((s.cgs cg).blksfree.setRange (b * fs.frag + p) n)
      (b * fs.frag + p) n := fun i => Bitmap.isset_setRange _ _ _ i
  have hbits := hgave.blkBits
  have hout := hgave.sameOutside hpn
  have hbeyond : ∀ i, (s.cgs cg).ndblk ≤ i → i < fs.mapBytes * 8 →
      ((s.cgs cg).blksfree.setRange (b * fs.frag + p) n).isset i = false := fun i hlo hhi =>
    hgave.beyond hend hlo (hlay.beyond i hlo hhi)
  have hnw : whole fs (blkBits fs (s.cgs cg).blksfree b) = false :=
    not_whole (j := p) (by omega) (hclr p (Nat.le_refl _) (by omega))
  have hcard := card_set hpn hclr hbits
  have hbase : b * fs.frag + p - fs.fragnum (b * fs.frag + p) = b * fs.frag := by
    rw [Fs.fragnum, Nat.mul_comm, Nat.mul_add_mod, Nat.mod_eq_of_lt (by omega)]
    omega
  -- The old runs of the block are subtracted and the new ones added.
  have hfr : ∀ k, 0 < k → k < fs.frag →
      ffsFragacct fs (blkmap fs ((s.cgs cg).blksfree.setRange (b * fs.frag + p) n) (b * fs.frag))
          (ffsFragacct fs (blkmap fs (s.cgs cg).blksfree (b * fs.frag)) (s.cgs cg).frsum (-1)) 1 k
        + runs (blkBits fs (s.cgs cg).blksfree b) fs.frag k
      = (s.cgs cg).frsum k
        + runs (blkBits fs ((s.cgs cg).blksfree.setRange (b * fs.frag + p) n) b) fs.frag k := by
    intro k hk hkf
    rw [ffsFragacct_blkmap fs _ b _ _ hk hkf, ffsFragacct_blkmap fs _ b _ _ hk hkf]
    ring
  have h2 := giveFrags_stepped fs hcsp (b * fs.frag + p) n (b * fs.frag)
  unfold blkfreeFrags
  simp only [hbase, fs.fragstoblks_mul]
  rw [h2.cgs_self, ffsIsblock_eq_whole]
  simp only
  cases hw : whole fs (blkBits fs ((s.cgs cg).blksfree.setRange (b * fs.frag + p) n) b) with
  | false =>
      rw [if_neg (by decide)]
      refine ⟨_, h2, ?_, rfl, hgave⟩
      refine h.change hb ⟨hlay.cgx, hlay.ndblk_le, hlay.ndblk_size, hbeyond, hlay.frotor, hlay.nclusterblks⟩ hout
        ?_ ?_ hfr (fun hc => ?_)
      · simp only [hnw, hw]
      · simp only [fragCount_of_not_whole hnw, fragCount_of_not_whole hw]
        omega
      · have hsame : (fun b' => whole fs (blkBits fs (s.cgs cg).blksfree b'))
            = fun b' => whole fs (blkBits fs
                ((s.cgs cg).blksfree.setRange (b * fs.frag + p) n) b') := by
          funext b'
          by_cases hb' : b' = b
          · rw [hb', hnw, hw]
          · rw [hout.whole hb']
        exact hsame ▸ h.clusters hc
  | true =>
      -- The block is complete: its fragments become one free block.
      rw [if_pos rfl]
      have h3 := h2.trans (stepped_addNffree h2.csp_self (-fs.frag))
      rw [h2.cgs_self] at h3
      obtain ⟨cf, sum, hst, hcl⟩ := h3.clusterGive (b := b)
        (fun b' => whole fs (blkBits fs (s.cgs cg).blksfree b'))
        (fun b' => whole fs (blkBits fs ((s.cgs cg).blksfree.setRange (b * fs.frag + p) n) b'))
        h.clusters (fun hc => h.lt_nclusterblks hc hb hbeyond hw) hnw hw
        (fun b' hne => hout.whole hne)
      refine ⟨_, hst, ?_, rfl, hgave⟩
      refine h.change hb ⟨hlay.cgx, hlay.ndblk_le, hlay.ndblk_size, hbeyond, hlay.frotor, hlay.nclusterblks⟩ hout
        ?_ ?_ hfr hcl
      · simp [hnw, hw]
      · rw [card_of_whole hw] at hcard
        simp only [fragCount_of_not_whole hnw, fragCount_of_whole hw]
        omega

end UfsX.Proofs
