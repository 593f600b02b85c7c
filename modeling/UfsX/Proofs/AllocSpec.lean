import UfsX.Proofs.GroupOps
import UfsX.Proofs.Mapsearch
import Mathlib.Algebra.Order.BigOperators.Group.Finset

/-!
# `UfsX.Proofs.AllocSpec`: one specification per allocation function

`ffs_alloccg`, `ffs_fragextend`, `ffs_clusteralloc` and `ffs_blkfree_cg`, each
from a consistent file system: it does not panic, the file system stays
consistent, and the free map loses exactly the range that was returned
(`Allocd`) or gains exactly the range that was freed (`Freed`). A call that
returns 0 may still move a rotor or `fs_maxcluster`, but not a bit (`Unmoved`).

The proofs below cite the group lemmas of `GroupOps` and the search lemma of
`Mapsearch`; they deal with guards and addresses only.
-/

set_option autoImplicit false

namespace UfsX.Proofs

open UfsX.Lib UfsX.Ffs Finset

variable {fs : Fs}

/-! ### What a summary promises about the map -/

/-- A non-zero sum over blocks has a block with a non-zero weight. -/
theorem exists_block_of_blockSum {w : (Nat → Bool) → Nat} {m : Bitmap}
    (h : blockSum fs w m ≠ 0) : ∃ b < fs.nblk, w (blkBits fs m b) ≠ 0 := by
  obtain ⟨b, hb, hne⟩ := exists_ne_zero_of_sum_ne_zero h
  exact ⟨b, mem_range.mp hb, hne⟩

theorem CgOk.exists_whole {cg : Nat} {c : Cg} (h : CgOk fs cg c) (hne : c.cs.nbfree ≠ 0) :
    ∃ b < fs.nblk, whole fs (blkBits fs c.blksfree b) = true := by
  have hsum : freeBlocks fs c.blksfree ≠ 0 := fun h0 => hne (by rw [h.nbfree, h0]; rfl)
  obtain ⟨b, hb, hw⟩ := exists_block_of_blockSum hsum
  exact ⟨b, hb, by simpa using hw⟩

theorem CgOk.exists_run {cg : Nat} {c : Cg} (h : CgOk fs cg c) {k : Nat} (hk : 0 < k)
    (hkf : k < fs.frag) (hne : c.frsum k ≠ 0) :
    ∃ b < fs.nblk, ∃ p, IsRun (blkBits fs c.blksfree b) fs.frag p k := by
  have hsum : freeRuns fs c.blksfree k ≠ 0 := fun h0 => hne (by rw [h.frsum k hk hkf, h0]; rfl)
  obtain ⟨b, hb, hw⟩ := exists_block_of_blockSum hsum
  rw [fragRuns_eq_runs _ hk hkf, runs, card_ne_zero, filter_nonempty_iff] at hw
  obtain ⟨p, -, hrun⟩ := hw
  exact ⟨b, hb, p, hrun⟩

/-- An entirely free block is a run of `fs_frag` fragments, and the only one of
that size. -/
theorem isRun_frag_iff (g : Nat → Bool) (p : Nat) :
    IsRun g fs.frag p fs.frag ↔ p = 0 ∧ whole fs g = true := by
  have hpos := fs.frag_pos
  rw [whole_iff]
  constructor
  · rintro ⟨-, hle, hset, -⟩
    have hp : p = 0 := by omega
    subst hp
    exact ⟨rfl, fun j hj => by have h := hset j hj; rwa [Nat.zero_add] at h⟩
  · rintro ⟨rfl, hall⟩
    exact ⟨hpos, by omega, fun j hj => hall _ (by omega), Or.inl rfl, Or.inl (by omega)⟩

/-- A run in a block of the map shows in the byte of the block. -/
theorem byteOffers_of_block {m : Bitmap} {b p k : Nat} (hb : b < fs.nblk)
    (hrun : IsRun (blkBits fs m b) fs.frag p k) :
    b * fs.frag / 8 < fs.mapBytes ∧ ByteOffers fs m (b * fs.frag / 8) k := by
  have hend := block_end_le hb
  have hpos := fs.frag_pos
  refine ⟨by unfold Fs.mapBytes; omega, b % (8 / fs.frag), ?_, p, ?_⟩
  · rcases fs.fragOk with h | h | h | h <;> rw [h] <;> omega
  · have hidx : b * fs.frag / 8 * (8 / fs.frag) + b % (8 / fs.frag) = b := by
      rcases fs.fragOk with h | h | h | h <;> rw [h] <;> omega
    rwa [hidx]

/-- `ffs_mapsearch` in a consistent group that has a run of the size asked
for. -/
theorem CgOk.mapsearch {cg : Nat} {c : Cg} (h : CgOk fs cg c) (bpref : Nat) {k : Nat} (hk : 0 < k)
    (hkf : k ≤ fs.frag) {b₀ p₀ : Nat} (hb₀ : b₀ < fs.nblk)
    (hrun₀ : IsRun (blkBits fs c.blksfree b₀) fs.frag p₀ k) :
    ∃ f b p, ffsMapsearch fs c bpref k = .ok (f, b * fs.frag + p) ∧ f < fs.fpg ∧ b < fs.nblk ∧
      IsRun (blkBits fs c.blksfree b) fs.frag p k := by
  obtain ⟨hbyte, hoff⟩ := byteOffers_of_block hb₀ hrun₀
  obtain ⟨f, b, p, heq, hf, hb, hrun⟩ :=
    ffsMapsearch_spec fs c bpref hk hkf h.layout.frotor hbyte hoff
  refine ⟨f, b, p, heq, hf, ?_, hrun⟩
  -- The run has a set bit, so the block cannot lie past the end of the group.
  have hset : c.blksfree.isset (b * fs.frag + p) = true := by
    have h0 := hrun.2.2.1 0 hk
    rwa [Nat.add_zero] at h0
  have hin := block_in_byte fs b
  have hpk := hrun.2.1
  have hlt := h.layout.lt_ndblk (show b * fs.frag + p < fs.mapBytes * 8 from by omega) hset
  have hle := h.layout.ndblk_le
  by_contra hge
  have hmul : fs.nblk * fs.frag ≤ b * fs.frag := Nat.mul_le_mul_right _ (by omega)
  rw [fs.nblk_mul_frag] at hmul
  omega

/-- What a group offers for `allocsiz`: a fragment count, or a free block. -/
def Offers (fs : Fs) (c : Cg) (allocsiz : Nat) : Prop :=
  allocsiz < fs.frag ∧ 0 < c.frsum allocsiz
    ∨ allocsiz = fs.frag ∧ ∃ b < fs.nblk, whole fs (blkBits fs c.blksfree b) = true

/-- `ffs_mapsearch` in a consistent group that offers what is searched for: no panic, a run
of the exact size, and not before the byte of the preference unless it has to be. -/
theorem ffsMapsearch_exact {cg : Nat} {c : Cg} (h : CgOk fs cg c) (bpref : Nat) {k : Nat} (hk : 0 < k)
    (hoffers : Offers fs c k) :
    ∃ f b p, ffsMapsearch fs c bpref k = .ok (f, b * fs.frag + p) ∧ b < fs.nblk ∧
      IsRun (blkBits fs c.blksfree b) fs.frag p k ∧
      (k = fs.frag → p = 0 ∧ whole fs (blkBits fs c.blksfree b) = true) ∧
      ((∃ b' < fs.nblk, ∃ p', IsRun (blkBits fs c.blksfree b') fs.frag p' k ∧
          searchStart fs c bpref * 8 ≤ b' * fs.frag + p') →
        searchStart fs c bpref * 8 ≤ b * fs.frag + p) := by
  have hkf : k ≤ fs.frag := by
    rcases hoffers with ⟨hlt, -⟩ | ⟨heq, -⟩
    · exact hlt.le
    · exact heq.le
  have hsome : ∃ b₀ < fs.nblk, ∃ p₀, IsRun (blkBits fs c.blksfree b₀) fs.frag p₀ k := by
    rcases hoffers with ⟨hlt, hsum⟩ | ⟨heq, b₀, hb₀, hw⟩
    · exact h.exists_run hk hlt hsum.ne'
    · exact ⟨b₀, hb₀, 0, heq ▸ (isRun_frag_iff _ 0).mpr ⟨rfl, hw⟩⟩
  obtain ⟨b₀, hb₀, p₀, hrun₀⟩ := hsome
  obtain ⟨f, b, p, heq, -, hb, hrun⟩ := h.mapsearch bpref hk hkf hb₀ hrun₀
  refine ⟨f, b, p, heq, hb, hrun, ?_, ?_⟩
  · rintro rfl
    exact (isRun_frag_iff _ p).mp hrun
  · rintro ⟨b', hb', p', hrun', hle⟩
    obtain ⟨hbyte, hoff⟩ := byteOffers_of_block hb' hrun'
    refine ffsMapsearch_ge fs hk hkf hbyte ?_ hoff heq
    -- a block does not reach over the end of a byte, so the run starts in the byte of its block
    have hin := block_in_byte fs b'
    have hpk := hrun'.2.1
    omega

/-- A free block of `tinyState`. -/
theorem ffsMapsearch_exact_tinyState :
    ∃ f b p, ffsMapsearch tinyFs (tinyState.cgs 0) 0 tinyFs.frag = .ok (f, b * tinyFs.frag + p) ∧
      IsRun (blkBits tinyFs (tinyState.cgs 0).blksfree b) tinyFs.frag p tinyFs.frag := by
  have hcg := fsOk_tinyState.cg 0 (by decide)
  obtain ⟨f, b, p, heq, -, hrun, -⟩ := ffsMapsearch_exact hcg 0 tinyFs.frag_pos
    (.inr ⟨rfl, hcg.exists_whole nbfree_tinyState⟩)
  exact ⟨f, b, p, heq, hrun⟩

/-- The rotors are not part of the summaries. -/
theorem CgOk.rotors {cg : Nat} {c : Cg} (h : CgOk fs cg c) (r : Nat) {f : Nat} (hf : f < fs.fpg) :
    CgOk fs cg { c with frotor := f, rotor := r } := by
  have hlay := h.layout
  exact ⟨⟨hlay.cgx, hlay.ndblk_le, hlay.ndblk_size, hlay.beyond, hf, hlay.nclusterblks⟩,
    h.nbfree, h.nffree, h.frsum, h.clusters⟩

/-! ### Results of an operation -/

/-- No bit of any free map changed. -/
def Unmoved (s s' : State) : Prop :=
  ∀ g, (s'.cgs g).blksfree = (s.cgs g).blksfree ∧ (s'.cgs g).ndblk = (s.cgs g).ndblk

/-- `n` free fragments from `p` on in group `cg`, inside the group, left the
free map, and nothing else did. -/
structure Allocd (fs : Fs) (s s' : State) (cg p n : Nat) : Prop where
  ok : FsOk fs s'
  took : Took (s.cgs cg).blksfree (s'.cgs cg).blksfree p n
  free : ∀ i, p ≤ i → i < p + n → (s.cgs cg).blksfree.isset i = true
  other : ∀ g, g ≠ cg → (s'.cgs g).blksfree = (s.cgs g).blksfree
  ndblk : ∀ g, (s'.cgs g).ndblk = (s.cgs g).ndblk
  le : p + n ≤ (s.cgs cg).ndblk

/-- `n` used fragments from `p` on in group `cg` joined the free map, and
nothing else did. -/
structure Freed (fs : Fs) (s s' : State) (cg p n : Nat) : Prop where
  ok : FsOk fs s'
  gave : Gave (s.cgs cg).blksfree (s'.cgs cg).blksfree p n
  other : ∀ g, g ≠ cg → (s'.cgs g).blksfree = (s.cgs g).blksfree
  ndblk : ∀ g, (s'.cgs g).ndblk = (s.cgs g).ndblk

/-- What an allocation function returns: 0 and no bit moved, or the address of
`n` fragments of group `cg` that were free, inside one block when `n` is less
than a block and at the start of a block otherwise. -/
def AllocResult (fs : Fs) (s : State) (cg n : Nat) (r : Nat × State) : Prop :=
  (r.1 = 0 ∧ FsOk fs r.2 ∧ Unmoved s r.2) ∨
    ∃ p, r.1 = fs.cgbase cg + p ∧ Allocd fs s r.2 cg p n ∧ p % fs.frag + min n fs.frag ≤ fs.frag

theorem Stepped.allocd {s s' : State} {cg p n : Nat} {c' : Cg} (h : FsOk fs s) (hcg : cg < fs.ncg)
    (hst : Stepped s s' cg c') (hc' : CgOk fs cg c')
    (hnd : c'.ndblk = (s.cgs cg).ndblk) (htook : Took (s.cgs cg).blksfree c'.blksfree p n)
    (hfree : ∀ i, p ≤ i → i < p + n → (s.cgs cg).blksfree.isset i = true)
    (hle : p + n ≤ (s.cgs cg).ndblk) : Allocd fs s s' cg p n := by
  refine ⟨h.step hcg hst hc', ?_, hfree, fun g hg => ?_, fun g => ?_, hle⟩
  · rw [hst.cgs_self]
    exact htook
  · rw [hst.cgs_ne hg]
  · by_cases hg : g = cg
    · rw [hg, hst.cgs_self, hnd]
    · rw [hst.cgs_ne hg]

theorem Stepped.freed {s s' : State} {cg p n : Nat} {c' : Cg} (h : FsOk fs s) (hcg : cg < fs.ncg)
    (hst : Stepped s s' cg c') (hc' : CgOk fs cg c')
    (hnd : c'.ndblk = (s.cgs cg).ndblk) (hgave : Gave (s.cgs cg).blksfree c'.blksfree p n) :
    Freed fs s s' cg p n := by
  refine ⟨h.step hcg hst hc', ?_, fun g hg => ?_, fun g => ?_⟩
  · rw [hst.cgs_self]
    exact hgave
  · rw [hst.cgs_ne hg]
  · by_cases hg : g = cg
    · rw [hg, hst.cgs_self, hnd]
    · rw [hst.cgs_ne hg]

/-- The bits of a run, as bits of the map, inside the group. -/
theorem CgOk.run_free {cg : Nat} {c : Cg} (h : CgOk fs cg c) {b p k r : Nat} (hb : b < fs.nblk)
    (hrun : IsRun (blkBits fs c.blksfree b) fs.frag p k) (hr : r ≤ k) :
    (∀ i, b * fs.frag + p ≤ i → i < b * fs.frag + p + r → c.blksfree.isset i = true) ∧
      b * fs.frag + p + r ≤ c.ndblk ∧ (b * fs.frag + p) % fs.frag + r ≤ fs.frag := by
  have hpk := hrun.2.1
  have hend := block_end_le hb
  have hfpg := fpg_le_mapBytes fs
  have hfree : ∀ i, b * fs.frag + p ≤ i → i < b * fs.frag + p + k →
      c.blksfree.isset i = true := by
    intro i hlo hhi
    have hset := hrun.2.2.1 (i - (b * fs.frag + p)) (by omega)
    rwa [blkBits, show b * fs.frag + (p + (i - (b * fs.frag + p))) = i from by omega] at hset
  refine ⟨fun i hlo hhi => hfree i hlo (by omega), ?_, ?_⟩
  · have hk := hrun.1
    have hlast := h.layout.lt_ndblk (show b * fs.frag + p + k - 1 < fs.mapBytes * 8 from by omega)
      (hfree _ (by omega) (by omega))
    omega
  · have hp : (b * fs.frag + p) % fs.frag = p := by
      have := hrun.1
      rw [Nat.mul_comm, Nat.mul_add_mod, Nat.mod_eq_of_lt (by omega)]
    omega

/-! ### `ffs_alloccgblk` -/

/-- The block that `ffs_alloccgblk` looks at first. -/
def prefBlock (fs : Fs) (c : Cg) (bpref : Nat) : Nat :=
  fs.fragstoblks (fs.dtogd (fs.blknum (alloccgblkPref fs c bpref)))

/-- The preferred fragment is the first of its block. -/
theorem prefBlock_mul (c : Cg) (bpref : Nat) :
    fs.dtogd (fs.blknum (alloccgblkPref fs c bpref)) = prefBlock fs c bpref * fs.frag := by
  have hdvd : fs.frag ∣ fs.dtogd (fs.blknum (alloccgblkPref fs c bpref)) :=
    (Nat.dvd_mod_iff fs.frag_dvd_fpg).mpr (Nat.dvd_sub_mod _)
  exact (Nat.div_mul_cancel hdvd).symm

theorem prefBlock_lt (c : Cg) (bpref : Nat) : prefBlock fs c bpref < fs.nblk := by
  have hlt : fs.dtogd (fs.blknum (alloccgblkPref fs c bpref)) < fs.fpg :=
    Nat.mod_lt _ fs.fpg_pos
  rw [prefBlock_mul, ← fs.nblk_mul_frag] at hlt
  exact Nat.lt_of_mul_lt_mul_right hlt

/-- A whole block that is entirely free, as a run. -/
theorem isRun_of_whole {g : Nat → Bool} (h : whole fs g = true) : IsRun g fs.frag 0 fs.frag :=
  (isRun_frag_iff g 0).mpr ⟨rfl, h⟩

/-- The tail of `ffs_alloccgblk`, at the level of the file system. -/
theorem alloccgblkTake_allocd {s s₁ : State} {cg b size : Nat} {c₁ : Cg} (h : FsOk fs s)
    (hcg : cg < fs.ncg) (hst : Stepped s s₁ cg c₁) (hc₁ : CgOk fs cg c₁)
    (hmap : c₁.blksfree = (s.cgs cg).blksfree) (hnd : c₁.ndblk = (s.cgs cg).ndblk)
    (hb : b < fs.nblk) (hw : whole fs (blkBits fs (s.cgs cg).blksfree b) = true)
    (hn : 0 < fs.numfrags size) (hnf : fs.numfrags size ≤ fs.frag) :
    ∃ s', alloccgblkTake fs s₁ cg (b * fs.frag) size = (fs.cgbase cg + b * fs.frag, s') ∧
      Allocd fs s ((s'.emit .unlock).emit .lock) cg (b * fs.frag) (fs.numfrags size) := by
  have hself := hst.cgs_self
  obtain ⟨s', c', heq, hst', hc', hnd', htook⟩ := alloccgblkTake_spec
    (by rw [hself]; exact hc₁) hst.csp_self hb (by rw [hself, hmap]; exact hw) hn hnf
  rw [hself, hmap] at htook
  rw [hself, hnd] at hnd'
  obtain ⟨hfree, hle, -⟩ := (h.cg cg hcg).run_free hb (isRun_of_whole hw) hnf
  have hst'' := (hst.trans hst').congr ((s'.emit .unlock).emit .lock) rfl rfl rfl
  exact ⟨s', heq, hst''.allocd h hcg hc' hnd' htook hfree hle⟩

/-- When the preferred block is entirely free, it is the one taken. -/
theorem ffsAlloccgblk_hit {s : State} {cg bpref size : Nat} (h : FsOk fs s) (hcg : cg < fs.ncg)
    (hw : whole fs (blkBits fs (s.cgs cg).blksfree (prefBlock fs (s.cgs cg) bpref)) = true)
    (hn : 0 < fs.numfrags size) (hnf : fs.numfrags size ≤ fs.frag) :
    ∃ s', ffsAlloccgblk fs s cg bpref size
        = .ok (fs.cgbase cg + prefBlock fs (s.cgs cg) bpref * fs.frag, s') ∧
      Allocd fs s s' cg (prefBlock fs (s.cgs cg) bpref * fs.frag) (fs.numfrags size) := by
  have hcsp := h.csp cg hcg
  obtain ⟨s', heq, halloc⟩ := alloccgblkTake_allocd h hcg
    (stepped_setCg (s.cgs cg) hcsp rfl) (h.cg cg hcg) rfl rfl (prefBlock_lt (s.cgs cg) bpref)
    hw hn hnf
  have hsame : s.setCg cg (s.cgs cg) = s := by
    rw [State.setCg, Function.update_eq_self]
  rw [hsame] at heq
  refine ⟨_, ?_, halloc⟩
  simp only [ffsAlloccgblk, prefBlock_mul, fs.fragstoblks_mul, ffsIsblock_eq_whole]
  rw [if_pos hw, heq]

/-- `ffs_alloccgblk` in a group with a free block. -/
theorem ffsAlloccgblk_spec {s : State} {cg size : Nat} (bpref : Nat) (h : FsOk fs s) (hcg : cg < fs.ncg)
    (hne : (s.cgs cg).cs.nbfree ≠ 0) (hn : 0 < fs.numfrags size)
    (hnf : fs.numfrags size ≤ fs.frag) :
    ∃ b s', ffsAlloccgblk fs s cg bpref size = .ok (fs.cgbase cg + b * fs.frag, s') ∧
      Allocd fs s s' cg (b * fs.frag) (fs.numfrags size) := by
  have hc := h.cg cg hcg
  cases hw : whole fs (blkBits fs (s.cgs cg).blksfree (prefBlock fs (s.cgs cg) bpref)) with
  | true =>
      obtain ⟨s', heq, halloc⟩ := ffsAlloccgblk_hit h hcg hw hn hnf
      exact ⟨_, s', heq, halloc⟩
  | false =>
      obtain ⟨b₀, hb₀, hw₀⟩ := hc.exists_whole hne
      obtain ⟨f, b, p, hsearch, hf, hb, hrun⟩ := hc.mapsearch (alloccgblkPref fs (s.cgs cg) bpref)
        fs.frag_pos (Nat.le_refl _) hb₀ (isRun_of_whole hw₀)
      obtain ⟨rfl, hwb⟩ := (isRun_frag_iff _ p).mp hrun
      rw [Nat.add_zero] at hsearch
      have hst := stepped_setCg { s.cgs cg with
        frotor := f
        rotor := if b * fs.frag ≥ fs.dtogd (fs.cgdata (s.cgs cg).cgx).toNat then b * fs.frag
          else (s.cgs cg).rotor } (h.csp cg hcg) rfl
      obtain ⟨s', heq, halloc⟩ := alloccgblkTake_allocd h hcg hst
        (hc.rotors _ hf) rfl rfl hb hwb hn hnf
      refine ⟨b, _, ?_, halloc⟩
      simp only [ffsAlloccgblk, prefBlock_mul, fs.fragstoblks_mul, ffsIsblock_eq_whole]
      rw [hw, if_neg (by decide), hsearch]
      simp only [bind, Except.bind, State.modCg]
      rw [heq]

/-! ### `ffs_alloccg` -/

/-- The state before and after may differ in the log. -/
theorem Allocd.congr {s s' t t' : State} {cg p n : Nat} (h : Allocd fs s s' cg p n)
    (hcgs : t.cgs = s.cgs) (hcgs' : t'.cgs = s'.cgs) (hcsp' : t'.csp = s'.csp)
    (htot' : t'.cstotal = s'.cstotal) : Allocd fs t t' cg p n := by
  refine ⟨h.ok.congr hcgs' hcsp' htot', ?_, ?_, ?_, ?_, ?_⟩
  · rw [hcgs, hcgs']; exact h.took
  · rw [hcgs]; exact h.free
  · rw [hcgs, hcgs']; exact h.other
  · rw [hcgs, hcgs']; exact h.ndblk
  · rw [hcgs]; exact h.le

/-- A failing call leaves the maps and the summaries alone. -/
theorem allocResult_fail {s t : State} (h : FsOk fs s) (hcgs : t.cgs = s.cgs)
    (hcsp : t.csp = s.csp) (htot : t.cstotal = s.cstotal) (cg n : Nat) :
    AllocResult fs s cg n (0, t) :=
  Or.inl ⟨rfl, h.congr hcgs hcsp htot, fun g => by rw [hcgs]; exact ⟨rfl, rfl⟩⟩

theorem numfrags_mul (n : Nat) : fs.numfrags (n * fs.fsize) = n :=
  Nat.mul_div_cancel _ fs.fsize_pos

theorem numfrags_bsize : fs.numfrags fs.bsize = fs.frag := by
  rw [fs.bsize_eq, numfrags_mul]

/-- The search for a fragment size ends at `fs_frag` or at a size that the
group has. -/
theorem allocsizLoop_spec (c : Cg) : ∀ fuel n : Nat,
    n ≤ allocsizLoop c fuel n ∧ allocsizLoop c fuel n ≤ n + fuel ∧
      (allocsizLoop c fuel n < n + fuel → c.frsum (allocsizLoop c fuel n) ≠ 0) := by
  intro fuel
  induction fuel with
  | zero =>
      intro n
      rw [allocsizLoop]
      exact ⟨Nat.le_refl _, Nat.le_refl _, fun h => absurd h (Nat.lt_irrefl _)⟩
  | succ fuel ih =>
      intro n
      rw [allocsizLoop]
      by_cases hne : c.frsum n ≠ 0
      · rw [if_pos hne]
        exact ⟨Nat.le_refl _, by omega, fun _ => hne⟩
      · rw [if_neg hne]
        obtain ⟨hlo, hhi, hval⟩ := ih (n + 1)
        exact ⟨by omega, by omega, fun h => hval (by omega)⟩

/-- The search goes past a size only when the group has none of it. -/
theorem allocsizLoop_none (c : Cg) : ∀ fuel n j : Nat, n ≤ j → j < allocsizLoop c fuel n → c.frsum j = 0 := by
  intro fuel
  induction fuel with
  | zero =>
      intro n j hlo hhi
      rw [allocsizLoop] at hhi
      omega
  | succ fuel ih =>
      intro n j hlo hhi
      rw [allocsizLoop] at hhi
      by_cases hne : c.frsum n ≠ 0
      · rw [if_pos hne] at hhi
        omega
      · rw [if_neg hne] at hhi
        rcases Nat.eq_or_lt_of_le hlo with rfl | hlt
        · exact not_not.mp hne
        · exact ih (n + 1) j hlt hhi

/-- The block branch of `ffs_alloccg`. -/
theorem alloccgBlock_spec {s t : State} {cg rsize : Nat} (bpref : Nat) (h : FsOk fs s)
    (hcg : cg < fs.ncg) (hcgs : t.cgs = s.cgs) (hcsp : t.csp = s.csp) (htot : t.cstotal = s.cstotal)
    (hne : (s.cgs cg).cs.nbfree ≠ 0) (hn : 0 < fs.numfrags rsize)
    (hnf : fs.numfrags rsize ≤ fs.frag) :
    ∃ p s', alloccgBlock fs t cg bpref rsize = .ok (fs.cgbase cg + p, s') ∧
      Allocd fs s s' cg p (fs.numfrags rsize) ∧ p % fs.frag + min (fs.numfrags rsize) fs.frag ≤ fs.frag := by
  have ht : FsOk fs (t.emit .lock) := h.congr hcgs hcsp htot
  obtain ⟨b, s', heq, halloc⟩ := ffsAlloccgblk_spec bpref ht hcg
    (by rw [State.emit_cgs, hcgs]; exact hne) hn hnf
  refine ⟨b * fs.frag, (s'.emit .unlock).emit (.bdwrite cg), by rw [alloccgBlock, heq]; rfl,
    halloc.congr hcgs.symm rfl rfl rfl, ?_⟩
  rw [Nat.mul_mod_left]
  omega

/-- Group `cg` has no free block, and no fragments of the size searched for unless a
block is. -/
def Refuses (fs : Fs) (s : State) (cg size : Nat) : Prop :=
  (s.cgs cg).cs.nbfree = 0
    ∧ (size ≠ fs.bsize → ∀ k, fs.numfrags size ≤ k → k < fs.frag → (s.cgs cg).frsum k = 0)

/-- How `ffs_alloccg` ends: it refuses and leaves everything but the log alone, or it
allocates. -/
def AlloccgEnd (fs : Fs) (s : State) (gerr cg size n : Nat) (r : Nat × State) : Prop :=
  ((gerr ≠ 0 ∨ Refuses fs s cg size) ∧ r.1 = 0 ∧ r.2 = { s with log := r.2.log }) ∨
    gerr = 0 ∧ ¬ Refuses fs s cg size ∧ ∃ p, r.1 = fs.cgbase cg + p ∧ Allocd fs s r.2 cg p n
      ∧ p % fs.frag + min n fs.frag ≤ fs.frag

/-- Opening a group changes the log only. -/
theorem cgOpen_eq (s : State) (gerr cg : Nat) : cgOpen s gerr cg = { s with log := (cgOpen s gerr cg).log } := by
  unfold cgOpen
  split <;> rfl

/-- `ffs_alloccg` for a wanted size of `n` fragments: it never panics. -/
theorem ffsAlloccg_end {s : State} {cg size n : Nat} (gerr bpref : Nat) (h : FsOk fs s)
    (hcg : cg < fs.ncg) (hn : 0 < n) (hnf : n ≤ fs.frag)
    (hsize : size = n * fs.fsize ∨ size = fs.bsize) :
    ∃ r, ffsAlloccg fs s gerr cg bpref size (n * fs.fsize) = .ok r ∧ AlloccgEnd fs s gerr cg size n r := by
  have hc := h.cg cg hcg
  have hnum : fs.numfrags (n * fs.fsize) = n := numfrags_mul n
  have hblock := fun hne => alloccgBlock_spec (t := cgOpen s gerr cg) bpref h hcg
    (cgOpen_cgs s gerr cg) (cgOpen_csp s gerr cg) (cgOpen_cstotal s gerr cg) hne
    (by rw [hnum]; exact hn) (by rw [hnum]; exact hnf)
  rw [hnum] at hblock
  unfold ffsAlloccg
  simp only [cgOpen_cgs]
  by_cases h0 : (s.csp cg).nbfree = 0 ∧ size = fs.bsize
  · rw [if_pos h0]
    refine ⟨_, rfl, .inl ⟨.inr ⟨?_, fun hne => absurd h0.2 hne⟩, rfl, rfl⟩⟩
    rw [← h.csp cg hcg]
    exact h0.1
  rw [if_neg h0]
  have hfail (hno : gerr ≠ 0 ∨ Refuses fs s cg size) :
      AlloccgEnd fs s gerr cg size n (cgFail (cgOpen s gerr cg) gerr cg) := by
    refine .inl ⟨hno, rfl, ?_⟩
    unfold cgFail
    rw [cgOpen_eq]
    rfl
  by_cases h1 : gerr ≠ 0 ∨ (s.cgs cg).cs.nbfree = 0 ∧ size = fs.bsize
  · rw [if_pos h1]
    exact ⟨_, rfl, hfail (h1.imp_right fun ⟨h2, h3⟩ => ⟨h2, fun hne => absurd h3 hne⟩)⟩
  rw [if_neg h1]
  have hgerr : gerr = 0 := not_not.mp fun hne => h1 (.inl hne)
  by_cases h2 : size = fs.bsize
  · rw [if_pos h2]
    have hne : (s.cgs cg).cs.nbfree ≠ 0 := fun h3 => h1 (.inr ⟨h3, h2⟩)
    obtain ⟨p, s', heq, halloc, hin⟩ := hblock hne
    exact ⟨_, heq, .inr ⟨hgerr, fun hno => hne hno.1, p, rfl, halloc, hin⟩⟩
  · have hs : size = n * fs.fsize := hsize.resolve_right h2
    have hlt : n < fs.frag := by
      rcases Nat.lt_or_ge n fs.frag with hlt | hge
      · exact hlt
      · rw [show n = fs.frag from by omega, ← fs.bsize_eq] at hs
        exact absurd hs h2
    rw [if_neg h2, hs, hnum]
    obtain ⟨hlo, hhi, hval⟩ := allocsizLoop_spec (s.cgs cg) (fs.frag - n) n
    have hnone := allocsizLoop_none (s.cgs cg) (fs.frag - n) n
    generalize allocsizLoop (s.cgs cg) (fs.frag - n) n = k at hlo hhi hval hnone
    by_cases hk : k = fs.frag
    · rw [if_pos hk]
      by_cases h3 : (s.cgs cg).cs.nbfree = 0
      · rw [if_pos h3, ← hs]
        refine ⟨_, rfl, hfail (.inr ⟨h3, fun _ j hj hjf => ?_⟩)⟩
        rw [hs, hnum] at hj
        exact hnone j hj (by omega)
      · rw [if_neg h3]
        obtain ⟨p, s', heq, halloc, hin⟩ := hblock h3
        exact ⟨_, heq, .inr ⟨hgerr, fun hno => h3 hno.1, p, rfl, halloc, hin⟩⟩
    · -- A run of `k` fragments is there; its first `n` fragments are taken.
      rw [if_neg hk, if_neg (not_not.mpr rfl)]
      have hk0 : 0 < k := by omega
      have hkf : k < fs.frag := by omega
      obtain ⟨b₀, hb₀, p₀, hrun₀⟩ := hc.exists_run hk0 hkf (hval (by omega))
      obtain ⟨f, b, p, hsearch, hf, hb, hrun⟩ := hc.mapsearch bpref hk0 (by omega) hb₀ hrun₀
      have hst : Stepped (cgOpen s gerr cg) ((cgOpen s gerr cg).setCg cg { s.cgs cg with
          frotor := f }) cg { s.cgs cg with frotor := f } :=
        stepped_setCg _ (by simpa using h.csp cg hcg) (by simp)
      have hself := hst.cgs_self
      obtain ⟨c', hst', hc', hnd, htook⟩ := takeFrags_spec (r := n)
        (by rw [hself]; exact hc.rotors _ hf) hst.csp_self hb (by rw [hself]; exact hrun) hkf hlo
      rw [hself] at hnd htook
      obtain ⟨hfree, hle, hin⟩ := hc.run_free hb hrun hlo
      have halloc := (hst.trans hst').allocd (h.congr (cgOpen_cgs s gerr cg)
        (cgOpen_csp s gerr cg) (cgOpen_cstotal s gerr cg)) hcg hc' (by simpa using hnd)
        (by simpa using htook) (by simpa using hfree) (by simpa using hle)
      rw [hsearch]
      refine ⟨_, rfl, .inr ⟨hgerr, fun hno => hval (by omega) (hno.2 (hs ▸ h2) k ?_ hkf), b * fs.frag + p, rfl,
        halloc.congr (cgOpen_cgs s gerr cg).symm ?_ ?_ ?_, by omega⟩⟩
      · rw [hnum]
        exact hlo
      all_goals simp only [State.modCg, cgOpen_cgs]; rfl

theorem ffsAlloccg_spec {s : State} {cg size n : Nat} (gerr bpref : Nat) (h : FsOk fs s)
    (hcg : cg < fs.ncg) (hn : 0 < n) (hnf : n ≤ fs.frag)
    (hsize : size = n * fs.fsize ∨ size = fs.bsize) :
    ∃ r, ffsAlloccg fs s gerr cg bpref size (n * fs.fsize) = .ok r ∧ AllocResult fs s cg n r := by
  obtain ⟨⟨r, s'⟩, heq, hend⟩ := ffsAlloccg_end gerr bpref h hcg hn hnf hsize
  refine ⟨_, heq, ?_⟩
  rcases hend with ⟨-, rfl, hs'⟩ | ⟨-, -, halloc⟩
  · obtain ⟨log, rfl⟩ : ∃ log, s' = { s with log := log } := ⟨_, hs'⟩
    refine allocResult_fail h ?_ ?_ ?_ cg n
    all_goals rfl
  · exact .inr halloc

/-- In a readable group with a free block, a whole block is allocated. -/
theorem ffsAlloccg_block {s : State} {cg : Nat} (bpref : Nat) (h : FsOk fs s) (hcg : cg < fs.ncg)
    (hne : (s.cgs cg).cs.nbfree ≠ 0) :
    ∃ p s', ffsAlloccg fs s 0 cg bpref fs.bsize fs.bsize = .ok (fs.cgbase cg + p, s') ∧
      Allocd fs s s' cg p fs.frag := by
  have hcsp := h.csp cg hcg
  obtain ⟨b, t, heq, halloc⟩ := ffsAlloccgblk_spec bpref
    (h.congr (cgOpen_cgs s 0 cg) (cgOpen_csp s 0 cg) (cgOpen_cstotal s 0 cg) :
      FsOk fs ((cgOpen s 0 cg).emit .lock)) hcg (by simpa using hne)
    (by rw [numfrags_bsize]; exact fs.frag_pos) (by rw [numfrags_bsize])
  rw [numfrags_bsize] at halloc
  refine ⟨b * fs.frag, (t.emit .unlock).emit (.bdwrite cg), ?_,
    halloc.congr (cgOpen_cgs s 0 cg).symm rfl rfl rfl⟩
  unfold ffsAlloccg
  simp only [cgOpen_cgs]
  rw [if_neg (by rw [hcsp]; exact fun h0 => hne h0.1), if_neg (by
    rintro (h0 | h0)
    · exact h0 rfl
    · exact hne h0.1), if_pos trivial, alloccgBlock, heq]
  rfl

/-! ### `ffs_fragextend` -/

/-- The second loop stops at the end of the block or at a fragment in use. -/
theorem fragextendEnd_spec (m : Bitmap) (bno : Nat) : ∀ left i : Nat,
    i ≤ fragextendEnd m bno left i ∧ fragextendEnd m bno left i ≤ i + left ∧
      (∀ j, i ≤ j → j < fragextendEnd m bno left i → m.isset (bno + j) = true) ∧
      (fragextendEnd m bno left i < i + left →
        m.isset (bno + fragextendEnd m bno left i) = false) := by
  intro left
  induction left with
  | zero =>
      intro i
      rw [fragextendEnd]
      exact ⟨Nat.le_refl _, Nat.le_refl _, fun j hlo hhi => absurd hhi (by omega),
        fun h => absurd h (by omega)⟩
  | succ left ih =>
      intro i
      rw [fragextendEnd]
      cases hbit : m.isset (bno + i) with
      | false =>
          rw [if_pos (by rw [Bitmap.isclr, hbit]; rfl)]
          exact ⟨Nat.le_refl _, by omega, fun j hlo hhi => absurd hhi (by omega), fun _ => hbit⟩
      | true =>
          rw [if_neg (by rw [Bitmap.isclr, hbit]; decide)]
          obtain ⟨hlo, hhi, hset, hstop⟩ := ih (i + 1)
          refine ⟨by omega, by omega, fun j hj hj' => ?_, fun h => hstop (by omega)⟩
          by_cases hji : j = i
          · rw [hji, hbit]
          · exact hset j (by omega) hj'

/-- The offset of a fragment in its group, as block and position. -/
theorem dtogd_eq (fs : Fs) (bno : Nat) :
    fs.dtogd bno = fs.fragstoblks (fs.dtogd bno) * fs.frag + fs.fragnum bno ∧
      fs.fragnum bno < fs.frag ∧ fs.fragstoblks (fs.dtogd bno) < fs.nblk := by
  have hmod : fs.dtogd bno % fs.frag = fs.fragnum bno := Nat.mod_mod_of_dvd _ fs.frag_dvd_fpg
  refine ⟨?_, Nat.mod_lt _ fs.frag_pos, ?_⟩
  · rw [← hmod, Fs.fragstoblks]
    exact (Nat.div_add_mod' _ _).symm
  · refine Nat.div_lt_of_lt_mul ?_
    rw [Nat.mul_comm, fs.nblk_mul_frag]
    exact Nat.mod_lt _ fs.fpg_pos

/-- A piece that passes the boundary check of `ffs_fragextend` stays in its
block. -/
theorem fragnum_add_le {bprev n : Nat} (hn : 0 < n) (hnf : n ≤ fs.frag)
    (h : ¬ fs.fragnum bprev > fs.fragnum (bprev + n - 1)) : fs.fragnum bprev + n ≤ fs.frag := by
  unfold Fs.fragnum at h ⊢
  by_contra hlt
  have hq := Nat.mod_lt bprev fs.frag_pos
  have hmod : (bprev + n - 1) % fs.frag = bprev % fs.frag + n - 1 - fs.frag := by
    rw [show bprev + n - 1 = bprev + (n - 1) from by omega, Nat.add_mod,
      Nat.mod_eq_of_lt (show n - 1 < fs.frag from by omega), Nat.mod_eq_sub_mod (by omega),
      Nat.mod_eq_of_lt (by omega)]
    omega
  omega

/-- `ffs_fragextend` of a piece of `o` fragments in use to `n` fragments: it
grows in place, or nothing moves. -/
theorem ffsFragextend_spec {s : State} {cg bprev o n : Nat} (gerr : Nat) (h : FsOk fs s)
    (hcg : cg < fs.ncg) (ho : 0 < o) (hon : o < n) (hnf : n ≤ fs.frag)
    (hused : (s.cgs cg).blksfree.isset (fs.dtogd bprev + (o - 1)) = false)
    (r : Nat × State)
    (hr : ffsFragextend fs s gerr cg bprev (o * fs.fsize) (n * fs.fsize) = r) :
    (r.1 = 0 ∧ FsOk fs r.2 ∧ Unmoved s r.2) ∨
      (r.1 = bprev ∧ Allocd fs s r.2 cg (fs.dtogd bprev + o) (n - o) ∧
        fs.fragnum bprev + n ≤ fs.frag) := by
  have hc := h.cg cg hcg
  have hfail : ∀ t : State, t.cgs = s.cgs → t.csp = s.csp → t.cstotal = s.cstotal →
      (0, t).1 = 0 ∧ FsOk fs t ∧ Unmoved s t := fun t h1 h2 h3 =>
    ⟨rfl, h.congr h1 h2 h3, fun g => by rw [h1]; exact ⟨rfl, rfl⟩⟩
  subst hr
  unfold ffsFragextend
  simp only [numfrags_mul, cgOpen_cgs]
  by_cases h1 : (s.csp cg).nffree < fs.numfrags (n * fs.fsize - o * fs.fsize)
  · rw [if_pos h1]
    exact Or.inl (hfail s rfl rfl rfl)
  rw [if_neg h1]
  by_cases h2 : fs.fragnum bprev > fs.fragnum (bprev + n - 1)
  · rw [if_pos h2]
    exact Or.inl (hfail s rfl rfl rfl)
  rw [if_neg h2]
  have hin := fragnum_add_le (by omega) hnf h2
  by_cases h3 : gerr ≠ 0
  · rw [if_pos h3]
    exact Or.inl (hfail _ (by simp) (by simp) (by simp))
  rw [if_neg h3]
  by_cases h4 : ∃ i < n, o ≤ i ∧ (s.cgs cg).blksfree.isclr (fs.dtogd bprev + i) = true
  · rw [if_pos h4]
    exact Or.inl (hfail _ (by simp) (by simp) (by simp))
  rw [if_neg h4]
  right
  -- The fragments `o .. i - 1` after `bprev` are a maximal run of the block.
  obtain ⟨hlo, hhi, hset, hstop⟩ := fragextendEnd_spec (s.cgs cg).blksfree (fs.dtogd bprev)
    (fs.frag - fs.fragnum bprev - n) n
  generalize fragextendEnd (s.cgs cg).blksfree (fs.dtogd bprev)
    (fs.frag - fs.fragnum bprev - n) n = i at hlo hhi hset hstop
  obtain ⟨hpos, hq, hb⟩ := dtogd_eq fs bprev
  generalize fs.fragstoblks (fs.dtogd bprev) = b at hpos hb
  rw [hpos] at hused h4 hset hstop ⊢
  have hrun : IsRun (blkBits fs (s.cgs cg).blksfree b) fs.frag (fs.fragnum bprev + o) (i - o) := by
    refine ⟨by omega, by omega, fun j hj => ?_, Or.inr ?_, ?_⟩
    · rw [blkBits, show b * fs.frag + (fs.fragnum bprev + o + j)
        = b * fs.frag + fs.fragnum bprev + (o + j) from by omega]
      by_cases hjn : o + j < n
      · by_contra hclr
        exact h4 ⟨o + j, hjn, by omega, by rw [Bitmap.isclr, Bool.eq_false_iff.mpr hclr]; rfl⟩
      · exact hset (o + j) (by omega) (by omega)
    · rwa [blkBits, show b * fs.frag + (fs.fragnum bprev + o - 1)
        = b * fs.frag + fs.fragnum bprev + (o - 1) from by omega]
    · by_cases hend : fs.fragnum bprev + i = fs.frag
      · exact Or.inl (by omega)
      · right
        rw [blkBits, show b * fs.frag + (fs.fragnum bprev + o + (i - o))
          = b * fs.frag + fs.fragnum bprev + i from by omega]
        exact hstop (by omega)
  obtain ⟨hfree, hle, -⟩ := hc.run_free hb hrun (show n - o ≤ i - o from by omega)
  obtain ⟨c', hst, hc', hnd, htook⟩ := takeFrags_spec (s := cgOpen s gerr cg) (r := n - o)
    (by rw [cgOpen_cgs]; exact hc) (by simpa using h.csp cg hcg) hb (by rw [cgOpen_cgs]; exact hrun)
    (by omega) (by omega)
  have halloc := hst.allocd (h.congr (cgOpen_cgs s gerr cg) (cgOpen_csp s gerr cg)
    (cgOpen_cstotal s gerr cg)) hcg hc' hnd htook (by simpa using hfree) (by simpa using hle)
  refine ⟨rfl, ?_, hin⟩
  rw [Nat.add_assoc]
  exact halloc.congr (cgOpen_cgs s gerr cg).symm rfl rfl rfl

/-! ### `ffs_clusteralloc` -/

/-- One round of the search over the cluster map, with the byte and the mask
where `got` says. -/
theorem clusterSearch_succ (mapp : Bitmap) {len : Nat} (left run got : Nat) :
    clusterSearch mapp len (left + 1) run got (mapp (got / 8)) (1#8 <<< (got % 8)) (got / 8 + 1) =
      if mapp.isset got = true ∧ run + 1 = len then some got
      else clusterSearch mapp len left (if mapp.isset got = true then run + 1 else 0) (got + 1) (mapp ((got + 1) / 8))
        (1#8 <<< ((got + 1) % 8)) ((got + 1) / 8 + 1) := by
  have hbit := Bitmap.and_mask_beq_zero mapp got
  -- Going on: the next byte and mask belong to `got + 1`.
  have hnext (run' : Nat) :
      (if got &&& 7 ≠ 7 then clusterSearch mapp len left run' (got + 1) (mapp (got / 8))
          (1#8 <<< (got % 8) <<< 1) (got / 8 + 1)
        else clusterSearch mapp len left run' (got + 1) (mapp (got / 8 + 1)) 1#8 (got / 8 + 1 + 1)) =
      clusterSearch mapp len left run' (got + 1) (mapp ((got + 1) / 8)) (1#8 <<< ((got + 1) % 8))
        ((got + 1) / 8 + 1) := by
    by_cases h7 : got &&& 7 ≠ 7
    · obtain ⟨hbyte, hmask⟩ := Bitmap.mask_up h7
      rw [if_pos h7, hmask, ← hbyte]
    · obtain ⟨hbyte, hmask⟩ := Bitmap.mask_up_wrap h7
      rw [if_neg h7, ← hmask, ← hbyte]
  rw [clusterSearch]
  cases hgot : mapp.isset got with
  | false =>
      rw [hgot] at hbit
      simp only [hbit, Bool.not_false, if_true, bne, Bool.not_true, Bool.false_eq_true, false_and, if_false]
      exact hnext 0
  | true =>
      rw [hgot] at hbit
      simp only [hbit, Bool.not_true, Bool.false_eq_true, if_false, bne, Bool.not_false, true_and, if_true]
      rw [hnext]

/-- Block `b` starts `len` set bits of the cluster map. -/
def SetRun (mapp : Bitmap) (len b : Nat) : Prop := ∀ j < len, mapp.isset (b + j) = true

/-- The search over the cluster map from `bp` on, when it is at `got` with the
`run` bits below it set: the blocks before those cannot start `len` set bits. It
stops at the end of the first `len` set bits, or there are none. -/
theorem clusterSearch_first (mapp : Bitmap) {len bp : Nat} (hlen : 0 < len) : ∀ left run got : Nat,
    run < len → bp + run ≤ got → SetRun mapp run (got - run) →
    (∀ b, bp ≤ b → b < got - run → ¬ SetRun mapp len b) →
    match clusterSearch mapp len left run got (mapp (got / 8)) (1#8 <<< (got % 8)) (got / 8 + 1) with
    | some g => g < got + left ∧ bp + len ≤ g + 1 ∧ SetRun mapp len (g + 1 - len) ∧
        ∀ b, bp ≤ b → b < g + 1 - len → ¬ SetRun mapp len b
    | none => ∀ b, bp ≤ b → b + len ≤ got + left → ¬ SetRun mapp len b := by
  intro left
  induction left with
  | zero =>
      intro run got hrun _ _ hbefore b hb hend
      exact hbefore b hb (by omega)
  | succ left ih =>
      intro run got hrun hle hset hbefore
      rw [clusterSearch_succ]
      cases hgot : mapp.isset got with
      | false =>
          simp only [Bool.false_eq_true, false_and, if_false]
          have hrec := ih 0 (got + 1) hlen (by omega) (fun j hj => absurd hj (Nat.not_lt_zero j)) fun b hb hlt hall => by
            by_cases hlow : b < got - run
            · exact hbefore b hb hlow hall
            · -- the clear bit at `got` is among the `len` bits from `b` on
              have hin := hall (got - b) (by omega)
              rw [show b + (got - b) = got from by omega, hgot] at hin
              exact absurd hin (by decide)
          rwa [show got + 1 + left = got + (left + 1) from by omega] at hrec
      | true =>
          have hset' : SetRun mapp (run + 1) (got - run) := by
            intro j hj
            rcases Nat.lt_or_eq_of_le (Nat.lt_succ_iff.mp hj) with hlt | rfl
            · exact hset j hlt
            · rw [show got - j + j = got from by omega, hgot]
          by_cases hfull : run + 1 = len
          · rw [if_pos ⟨rfl, hfull⟩]
            have hfirst : got + 1 - len = got - run := by omega
            simp only [hfirst]
            exact ⟨by omega, by omega, hfull ▸ hset', hbefore⟩
          · rw [if_neg fun hno => hfull hno.2, if_pos rfl]
            have hrec := ih (run + 1) (got + 1) (by omega) (by omega)
              (by rwa [show got + 1 - (run + 1) = got - run from by omega])
              (by rwa [show got + 1 - (run + 1) = got - run from by omega])
            rwa [show got + 1 + left = got + (left + 1) from by omega] at hrec

/-- A preference that names a block of the group, other than address 0, is the
block looked at first. -/
theorem prefBlock_eq {c : Cg} {cg b : Nat} (hcgx : c.cgx = cg) (hcg : cg < fs.ncg)
    (hb : b < fs.nblk) (hne : fs.cgbase cg + b * fs.frag ≠ 0) :
    prefBlock fs c (fs.cgbase cg + b * fs.frag) = b := by
  have hpos := fs.frag_pos
  have hend := block_end_le hb
  have hlt : b * fs.frag < fs.fpg := by omega
  have hdtog : fs.dtog (fs.cgbase cg + b * fs.frag) = cg := by
    rw [Fs.dtog, Fs.cgbase, Nat.mul_add_div fs.fpg_pos, Nat.div_eq_of_lt hlt, Nat.add_zero]
  have hncg := fs.ncg_lt
  have hround : toU32 (toI32 (cg : Int)) = cg := by
    rw [toU32_toI32, toU32_eq_self (by omega) (by omega)]
  have hmul : fs.blknum (fs.cgbase cg + b * fs.frag) = fs.cgbase cg + b * fs.frag := by
    have hdvd : fs.frag ∣ fs.cgbase cg + b * fs.frag :=
      Nat.dvd_add (Dvd.dvd.mul_right fs.frag_dvd_fpg cg) (Nat.dvd_mul_left _ _)
    rw [Fs.blknum, Nat.mod_eq_zero_of_dvd hdvd, Nat.sub_zero]
  rw [prefBlock, alloccgblkPref, if_neg hne]
  simp only [hdtog, hround, hcgx, ne_eq, not_true, if_false]
  rw [hmul, Fs.dtogd, Fs.cgbase, Nat.mul_add_mod, Nat.mod_eq_of_lt hlt, fs.fragstoblks_mul]

/-- Two adjacent allocations in a row. -/
theorem Allocd.append {s s₁ s₂ : State} {cg p n k : Nat} (h₁ : Allocd fs s s₁ cg p n)
    (h₂ : Allocd fs s₁ s₂ cg (p + n) k) : Allocd fs s s₂ cg p (n + k) := by
  have hk : ∀ i, p ≤ i → i < p + (n + k) → (s.cgs cg).blksfree.isset i = true := by
    intro i hlo hhi
    by_cases hi : i < p + n
    · exact h₁.free i hlo hi
    · have hfree := h₂.free i (by omega) (by omega)
      rwa [h₁.took, decide_eq_false (by omega), Bool.not_false, Bool.true_and] at hfree
  refine ⟨h₂.ok, h₁.took.append h₂.took, hk, fun g hg => ?_, fun g => ?_, ?_⟩
  · rw [h₂.other g hg, h₁.other g hg]
  · rw [h₂.ndblk, h₁.ndblk]
  · have hle := h₂.le
    rw [h₁.ndblk] at hle
    omega

/-- An allocation of whole blocks below block `b` leaves block `b` as it is. -/
theorem Allocd.whole_above {s s' : State} {cg b₀ n b : Nat}
    (h : Allocd fs s s' cg (b₀ * fs.frag) (n * fs.frag)) (hb : b₀ + n ≤ b) :
    whole fs (blkBits fs (s'.cgs cg).blksfree b) = whole fs (blkBits fs (s.cgs cg).blksfree b) := by
  refine whole_congr fun j hj => ?_
  have hmul : (b₀ + n) * fs.frag ≤ b * fs.frag := Nat.mul_le_mul_right _ hb
  rw [Nat.add_mul] at hmul
  rw [blkBits, blkBits, h.took, decide_eq_false (by omega), Bool.not_false, Bool.true_and]

/-- The last loop of `ffs_clusteralloc` on blocks that are entirely free: it
takes exactly these blocks. Address 0 is no preference for `ffs_alloccgblk`,
so it is excluded here. -/
theorem clusterTake_spec {cg : Nat} (hcg : cg < fs.ncg) : ∀ (n b : Nat) (s : State), FsOk fs s →
    fs.cgbase cg + b * fs.frag ≠ 0 → b + n ≤ fs.nblk →
    (∀ i, b ≤ i → i < b + n → whole fs (blkBits fs (s.cgs cg).blksfree i) = true) →
    b * fs.frag ≤ (s.cgs cg).ndblk →
    ∃ s', clusterTake fs cg n (fs.cgbase cg + b * fs.frag) s = .ok s' ∧
      Allocd fs s s' cg (b * fs.frag) (n * fs.frag) := by
  intro n
  induction n with
  | zero =>
      intro b s h _ _ _ hle
      refine ⟨s, rfl, h, fun i => ?_, fun i _ hi => ?_, fun g _ => rfl, fun g => rfl, by omega⟩
      · rw [decide_eq_false (by omega), Bool.not_false, Bool.true_and]
      · omega
  | succ n ih =>
      intro b s h hne hbn hw hle
      have hpref := prefBlock_eq (h.cg cg hcg).layout.cgx hcg (show b < fs.nblk from by omega) hne
      have hwb := hw b (Nat.le_refl _) (by omega)
      obtain ⟨s₁, heq, halloc⟩ := ffsAlloccgblk_hit h hcg
        (by rw [hpref]; exact hwb) (by rw [numfrags_bsize]; exact fs.frag_pos)
        (by rw [numfrags_bsize])
      rw [hpref] at heq
      rw [hpref, numfrags_bsize] at halloc
      have hone : Allocd fs s s₁ cg (b * fs.frag) (1 * fs.frag) := by rwa [Nat.one_mul]
      have hstep : b * fs.frag + fs.frag = (b + 1) * fs.frag := by ring
      obtain ⟨s', htake, halloc'⟩ := ih (b + 1) s₁ halloc.ok
        (by have := fs.frag_pos; rw [← hstep]; omega) (by omega)
        (fun i hlo hhi => by rw [hone.whole_above hlo]; exact hw i (by omega) (by omega))
        (by rw [halloc.ndblk, ← hstep]; exact halloc.le)
      refine ⟨s', ?_, ?_⟩
      · rw [clusterTake, heq]
        simp only [bind, Except.bind, ne_eq, not_true, if_false]
        rw [Nat.add_assoc, hstep, htake]
      · have happ := halloc.append (by rwa [hstep])
        rwa [show fs.frag + n * fs.frag = (n + 1) * fs.frag from by ring] at happ

/-- The same loop from any block. Only from block 0 of group 0, whose address
is 0, can it be given another block than the one asked for. -/
theorem clusterTake_result {cg b n : Nat} {s : State} (hcg : cg < fs.ncg) (h : FsOk fs s)
    (hn : 0 < n) (hbn : b + n ≤ fs.nblk)
    (hw : ∀ i, b ≤ i → i < b + n → whole fs (blkBits fs (s.cgs cg).blksfree i) = true)
    (hle : b * fs.frag ≤ (s.cgs cg).ndblk) :
    (∃ s', clusterTake fs cg n (fs.cgbase cg + b * fs.frag) s = .ok s' ∧
      Allocd fs s s' cg (b * fs.frag) (n * fs.frag)) ∨
    (clusterTake fs cg n (fs.cgbase cg + b * fs.frag) s = .error .clusterLostBlock ∧ cg = 0 ∧
      b = 0) := by
  have hpos := fs.frag_pos
  by_cases hne : fs.cgbase cg + b * fs.frag ≠ 0
  · exact Or.inl (clusterTake_spec hcg n b s h hne hbn hw hle)
  have hb0 : b = 0 := by
    have hmul : b * fs.frag = 0 := by omega
    exact (Nat.mul_eq_zero.mp hmul).resolve_right hpos.ne'
  have hcg0 : cg = 0 := by
    have hmul : fs.fpg * cg = 0 := by unfold Fs.cgbase at hne; omega
    exact (Nat.mul_eq_zero.mp hmul).resolve_left fs.fpg_pos.ne'
  subst hb0 hcg0
  have hw0 := hw 0 (Nat.le_refl _) (by omega)
  obtain ⟨n, rfl⟩ : ∃ k, n = k + 1 := ⟨n - 1, by omega⟩
  -- There is a free block, so the first call succeeds, with whatever block.
  have hnb : (s.cgs 0).cs.nbfree ≠ 0 := by
    rw [(h.cg 0 hcg).nbfree]
    have hle := single_le_sum (f := fun b => (whole fs (blkBits fs (s.cgs 0).blksfree b)).toNat)
      (fun _ _ => Nat.zero_le _) (mem_range.mpr (show 0 < fs.nblk from by omega))
    simp only [hw0, Bool.toNat_true] at hle
    have hblk : 1 ≤ freeBlocks fs (s.cgs 0).blksfree := hle
    omega
  obtain ⟨b', s₁, heq, halloc⟩ := ffsAlloccgblk_spec 0 h hcg hnb
    (by rw [numfrags_bsize]; exact fs.frag_pos) (by rw [numfrags_bsize])
  rw [numfrags_bsize] at halloc
  have hbase : fs.cgbase 0 + 0 * fs.frag = 0 := by rw [Fs.cgbase]; simp
  rw [hbase, clusterTake, heq]
  simp only [bind, Except.bind]
  by_cases hb' : b' = 0
  · left
    subst hb'
    rw [hbase, if_neg (not_not.mpr rfl)]
    have hone : Allocd fs s s₁ 0 (0 * fs.frag) (1 * fs.frag) := by rwa [Nat.one_mul]
    obtain ⟨s', htake, halloc'⟩ := clusterTake_spec hcg n 1 s₁ halloc.ok
      (by rw [Nat.one_mul]; omega) (by omega)
      (fun i hlo hhi => by rw [hone.whole_above (by omega)]; exact hw i (by omega) (by omega))
      (by rw [halloc.ndblk]; have := halloc.le; omega)
    have hbase1 : fs.cgbase 0 + 1 * fs.frag = 0 + fs.frag := by rw [Fs.cgbase]; simp
    rw [hbase1] at htake
    have happ := halloc.append (n := fs.frag) (k := n * fs.frag) (by
      rw [show 0 * fs.frag + fs.frag = 1 * fs.frag from by ring]; exact halloc')
    exact ⟨s', htake, by rwa [show fs.frag + n * fs.frag = (n + 1) * fs.frag from by ring] at happ⟩
  · right
    rw [if_pos]
    · exact ⟨rfl, trivial, trivial⟩
    · have hmul : 0 < b' * fs.frag := Nat.mul_pos (by omega) hpos
      omega

/-- `len` free blocks side by side from block `b` on, inside group `g`. -/
def FreeRun (fs : Fs) (s : State) (g b len : Nat) : Prop :=
  b + len ≤ (s.cgs g).ndblk / fs.frag ∧
    ∀ i < len, whole fs (blkBits fs (s.cgs g).blksfree (b + i)) = true

/-- In a consistent group, the cluster map shows the free blocks. -/
theorem CgOk.freeRun_iff {s : State} {g b len : Nat} (h : CgOk fs g (s.cgs g)) (hc : fs.contigsumsize ≠ 0)
    (hle : b + len ≤ (s.cgs g).ndblk / fs.frag) :
    FreeRun fs s g b len ↔ SetRun (s.cgs g).clustersfree len b := by
  have hncl := h.layout.nclusterblks hc
  have hmap := (h.clusters hc).map
  constructor
  · rintro ⟨-, hfree⟩ j hj
    rw [hmap _ (by omega)]
    exact hfree j hj
  · intro hset
    refine ⟨hle, fun j hj => ?_⟩
    have hbit := hset j hj
    rwa [hmap _ (by omega)] at hbit

/-- The block of group `cg` at which `ffs_clusteralloc` starts to search. -/
def clusterPref (fs : Fs) (cg bpref : Nat) : Nat :=
  fs.fragstoblks (fs.dtogd (if fs.dtog bpref ≠ cg then (fs.cgdata cg).toNat else fs.blknum bpref))

/-- Why `ffs_clusteralloc` gives up: the cached maximum is less than `len`, the
group cannot be read, no count from `len` on, or no free run from the preferred
block on. -/
def ClusterRefuses (fs : Fs) (s : State) (gerr cg bpref len : Nat) : Prop :=
  s.maxcluster cg < len ∨ gerr ≠ 0 ∨
    clusterSizeLoop (s.cgs cg).clustersum (fs.contigsumsize + 1 - len) len > fs.contigsumsize ∨
    ∀ b, clusterPref fs cg bpref ≤ b → ¬ FreeRun fs s cg b len

/-- How `ffs_clusteralloc` ends: it gives up and moves nothing, it takes the
first free run from the preferred block on, or it panics for a free block at
address 0. -/
def ClusterEnd (fs : Fs) (s : State) (gerr cg bpref len : Nat) (r : Except Panic (Nat × State)) : Prop :=
  (ClusterRefuses fs s gerr cg bpref len ∧ ∃ t, r = .ok (0, t) ∧ t.cgs = s.cgs ∧ t.csp = s.csp ∧ t.cstotal = s.cstotal) ∨
    (∃ b t, r = .ok (fs.cgbase cg + b * fs.frag, t) ∧ clusterPref fs cg bpref ≤ b ∧ FreeRun fs s cg b len ∧
      (∀ b', clusterPref fs cg bpref ≤ b' → b' < b → ¬ FreeRun fs s cg b' len) ∧
      Allocd fs s t cg (b * fs.frag) (len * fs.frag)) ∨
    (r = .error .clusterLostBlock ∧ (s.cgs 0).blksfree.isset 0 = true)

theorem ffsClusteralloc_end {s : State} {cg len : Nat} (gerr bpref : Nat) (h : FsOk fs s)
    (hcg : cg < fs.ncg) (hc : fs.contigsumsize ≠ 0) (hlen : 0 < len) :
    ClusterEnd fs s gerr cg bpref len (ffsClusteralloc fs s gerr cg bpref len) := by
  have hcg' := h.cg cg hcg
  have hncl := hcg'.layout.nclusterblks hc
  have hpos := fs.frag_pos
  unfold ffsClusteralloc
  simp only [cgOpen_cgs]
  by_cases h1 : s.maxcluster cg < len
  · rw [if_pos h1]
    exact .inl ⟨.inl h1, s, rfl, rfl, rfl, rfl⟩
  rw [if_neg h1]
  by_cases h2 : gerr ≠ 0
  · rw [if_pos h2]
    exact .inl ⟨.inr (.inl h2), _, rfl, by simp, by simp, by simp⟩
  rw [if_neg h2]
  by_cases h3 : clusterSizeLoop (s.cgs cg).clustersum (fs.contigsumsize + 1 - len) len
      > fs.contigsumsize
  · rw [if_pos h3]
    exact .inl ⟨.inr (.inr (.inl h3)), _, rfl, by simp, by simp, by simp⟩
  rw [if_neg h3]
  generalize hbp : fs.fragstoblks (fs.dtogd
    (if fs.dtog bpref ≠ cg then (fs.cgdata cg).toNat else fs.blknum bpref)) = bp
  have hpref : clusterPref fs cg bpref = bp := hbp
  have hsearch := clusterSearch_first (s.cgs cg).clustersfree hlen ((s.cgs cg).nclusterblks - bp) 0 bp hlen
    (Nat.le_refl bp) (fun j hj => absurd hj (Nat.not_lt_zero j)) fun b hb hlt => absurd hb (Nat.not_le.mpr hlt)
  cases hs : clusterSearch (s.cgs cg).clustersfree len ((s.cgs cg).nclusterblks - bp) 0 bp
      ((s.cgs cg).clustersfree (bp / 8)) (1#8 <<< (bp % 8)) (bp / 8 + 1) with
  | none =>
      rw [hs] at hsearch
      refine .inl ⟨.inr (.inr (.inr fun b hb hrun => ?_)), _, rfl, by simp, by simp, by simp⟩
      have hle := hrun.1
      rw [hpref] at hb
      exact hsearch b hb (by omega) ((hcg'.freeRun_iff hc hle).mp hrun)
  | some got =>
      rw [hs] at hsearch
      obtain ⟨hgot, hge, hset, hfirst⟩ := hsearch
      simp only
      generalize hb : got + 1 - len = b at hset hfirst
      have hle : b + len ≤ (s.cgs cg).ndblk / fs.frag := by omega
      have hrun := (hcg'.freeRun_iff hc hle).mpr hset
      -- Every bit found in the cluster map is an entirely free block.
      have hw : ∀ i, b ≤ i → i < b + len → whole fs (blkBits fs (s.cgs cg).blksfree i) = true := by
        intro i hlo hhi
        have hwi := hrun.2 (i - b) (by omega)
        rwa [show b + (i - b) = i from by omega] at hwi
      have hnblk : (s.cgs cg).ndblk / fs.frag ≤ fs.nblk :=
        Nat.div_le_div_right hcg'.layout.ndblk_le
      have hbound : b * fs.frag ≤ (s.cgs cg).ndblk := by
        calc b * fs.frag ≤ (s.cgs cg).ndblk / fs.frag * fs.frag :=
              Nat.mul_le_mul_right _ (by omega)
          _ ≤ (s.cgs cg).ndblk := Nat.div_mul_le_self _ _
      have hend := block_end_le (show b < fs.nblk from by omega)
      rw [if_neg, if_neg]
      · rcases clusterTake_result hcg (h.congr (cgOpen_cgs s gerr cg) (cgOpen_csp s gerr cg)
          (cgOpen_cstotal s gerr cg) : FsOk fs ((cgOpen s gerr cg).emit .lock)) hlen
          (show b + len ≤ fs.nblk from by omega)
          (by simpa using hw) (by simpa using hbound) with ⟨s', htake, halloc⟩ | ⟨htake, hcg0, hb0⟩
        · rw [Fs.blkstofrags, htake]
          refine .inr (.inl ⟨b, _, rfl, by omega, hrun, fun b' hb' hlt hrun' => ?_, halloc.congr (by simp) rfl rfl rfl⟩)
          have hle' := hrun'.1
          exact hfirst b' (by omega) hlt ((hcg'.freeRun_iff hc hle').mp hrun')
        · rw [Fs.blkstofrags, htake]
          refine .inr (.inr ⟨rfl, ?_⟩)
          have hwb := (whole_iff fs _).mp (hw 0 (by omega) (by omega)) 0 hpos
          rw [hcg0] at hwb
          rwa [blkBits, Nat.zero_mul, Nat.zero_add] at hwb
      · rw [Fs.dtog, Fs.cgbase, Fs.blkstofrags, Nat.mul_add_div fs.fpg_pos,
          Nat.div_eq_of_lt (by omega), Nat.add_zero, ne_eq, not_not]
      · rintro ⟨i, hi, hno⟩
        rw [ffsIsblock_eq_whole, hw _ (by omega) (by omega)] at hno
        exact absurd hno (by decide)

/-- The outcome of `ffs_clusteralloc` for `len` blocks: a failure that moves
nothing, `len` blocks, or the panic that a free block at address 0 leads to. -/
def ClusterResult (fs : Fs) (s : State) (cg len : Nat) (r : Except Panic (Nat × State)) : Prop :=
  (∃ a, r = .ok a ∧ AllocResult fs s cg (len * fs.frag) a) ∨
    (r = .error .clusterLostBlock ∧ (s.cgs 0).blksfree.isset 0 = true)

theorem ffsClusteralloc_spec {s : State} {cg len : Nat} (gerr bpref : Nat) (h : FsOk fs s)
    (hcg : cg < fs.ncg) (hc : fs.contigsumsize ≠ 0) (hlen : 0 < len) :
    ClusterResult fs s cg len (ffsClusteralloc fs s gerr cg bpref len) := by
  rcases ffsClusteralloc_end gerr bpref h hcg hc hlen with
    ⟨-, t, heq, hcgs, hcsp, htot⟩ | ⟨b, t, heq, -, -, -, halloc⟩ | hlost
  · exact .inl ⟨_, heq, allocResult_fail h hcgs hcsp htot cg _⟩
  · refine .inl ⟨_, heq, .inr ⟨b * fs.frag, rfl, halloc, ?_⟩⟩
    rw [Nat.mul_mod_left]
    omega
  · exact .inr hlost

/-! ### `ffs_blkfree_cg` -/

theorem Freed.congr {s s' t t' : State} {cg p n : Nat} (h : Freed fs s s' cg p n)
    (hcgs : t.cgs = s.cgs) (hcgs' : t'.cgs = s'.cgs) (hcsp' : t'.csp = s'.csp)
    (htot' : t'.cstotal = s'.cstotal) : Freed fs t t' cg p n := by
  refine ⟨h.ok.congr hcgs' hcsp' htot', ?_, ?_, ?_⟩
  · rw [hcgs, hcgs']; exact h.gave
  · rw [hcgs, hcgs']; exact h.other
  · rw [hcgs, hcgs']; exact h.ndblk

/-- Address `a` of a group, split into group and offset. -/
theorem address_eq (fs : Fs) (a : Nat) : fs.cgbase (fs.dtog a) + fs.dtogd a = a :=
  Nat.div_add_mod a fs.fpg

/-- The range of `n` fragments at address `a` is in use and lies in one block of
its group. -/
structure InUse (fs : Fs) (s : State) (a n : Nat) : Prop where
  pos : 0 < n
  block : fs.fragnum a + n ≤ fs.frag
  cg : fs.dtog a < fs.ncg
  le : fs.dtogd a + n ≤ (s.cgs (fs.dtog a)).ndblk
  used : ∀ i < n, (s.cgs (fs.dtog a)).blksfree.isset (fs.dtogd a + i) = false

/-- The group and the place in it that `ffs_blkfree_cg` computes for an address in range. -/
theorem blkfreeCg_group {a : Nat} (hcg : fs.dtog a < fs.ncg) : (toU32 ((a : Int).tdiv fs.fpg)).toNat = fs.dtog a := by
  have hlt := fs.ncg_lt
  have hq : (a : Int).tdiv fs.fpg = (fs.dtog a : Nat) := (Int.ofNat_tdiv a fs.fpg).symm
  rw [hq, toU32_eq_self (Int.natCast_nonneg _) (by omega), Int.toNat_natCast]

theorem blkfreeCg_offset (fs : Fs) (a : Nat) : (a : Int).tmod fs.fpg = (fs.dtogd a : Nat) := (Int.ofNat_tmod a fs.fpg).symm

/-- `ffs_blkfree_cg` behind its tests, for an address in range. -/
theorem ffsBlkfreeCg_inRange {s : State} {a : Nat} {devvp : Vtype} (hdev : devvp = .vreg ∨ devvp = .vchr)
    (hcg : fs.dtog a < fs.ncg) (ha : a < fs.size) (size : Nat) :
    ffsBlkfreeCg fs s devvp 0 a size =
      let t := (s.emit (.getcg (fs.dtog a))).emit .lock
      if size = fs.bsize then
        if ffsIsfreeblock fs (s.cgs (fs.dtog a)).blksfree (fs.fragstoblks (fs.dtogd a)) = false then
          if devvp = .vreg then .ok ((t.emit .unlock).emit (.brelse (fs.dtog a)))
          else .error .freeingFreeBlock
        else
          .ok (({ blkfreeBlock fs t (fs.dtog a) (fs.fragstoblks (fs.dtogd a)) with fmod := true }.emit .unlock).emit
            (.bdwrite (fs.dtog a)))
      else if ∃ i < fs.numfrags size, (s.cgs (fs.dtog a)).blksfree.isset (fs.dtogd a + i) then
        .error .freeingFreeFrag
      else
        .ok (({ blkfreeFrags fs t (fs.dtog a) (fs.dtogd a) (fs.numfrags size) with fmod := true }.emit .unlock).emit
          (.bdwrite (fs.dtog a))) := by
  unfold ffsBlkfreeCg
  rw [if_neg (by rcases hdev with hd | hd <;> simp [hd]), if_neg (by unfold toU32; omega),
    if_neg (by decide), blkfreeCg_offset, if_neg (Int.not_lt.mpr (Int.natCast_nonneg _)), blkfreeCg_group hcg,
    Int.toNat_natCast]
  rfl

/-- Freeing a range in use through a vnode that `ffs_blkfree_cg` accepts, with
the cylinder group readable. -/
theorem ffsBlkfreeCg_freed {s : State} {a n : Nat} (devvp : Vtype) (h : FsOk fs s)
    (huse : InUse fs s a n) (hdev : devvp = .vreg ∨ devvp = .vchr) :
    ∃ s', ffsBlkfreeCg fs s devvp 0 a (n * fs.fsize) = .ok s' ∧
      Freed fs s s' (fs.dtog a) (fs.dtogd a) n := by
  obtain ⟨hn, hblk, hcg, hle, hused⟩ := huse
  have hc := h.cg _ hcg
  have hpos := fs.fsize_pos
  have hsize := hc.layout.ndblk_size
  have haddr := address_eq fs a
  obtain ⟨hoff, hq, hb⟩ := dtogd_eq fs a
  have ht : FsOk fs ((s.emit (.getcg (fs.dtog a))).emit .lock) := h.congr rfl rfl rfl
  rw [ffsBlkfreeCg_inRange hdev hcg (by omega)]
  simp only [numfrags_mul]
  by_cases hfull : n = fs.frag
  · -- A whole block.
    subst hfull
    have hq0 : fs.fragnum a = 0 := by omega
    rw [hq0, Nat.add_zero] at hoff
    have hclr : ∀ j < fs.frag, blkBits fs (s.cgs (fs.dtog a)).blksfree
        (fs.fragstoblks (fs.dtogd a)) j = false := by
      intro j hj
      rw [blkBits, ← hoff]
      exact hused j hj
    rw [if_pos fs.bsize_eq.symm, if_neg (by
      rw [(ffsIsfreeblock_iff fs _ _).mpr hclr]
      decide)]
    obtain ⟨c', hst, hc', hnd, hgave⟩ := blkfreeBlock_spec (ht.cg _ hcg) (ht.csp _ hcg) hb
      (by rw [← hoff]; exact hle) hclr
    rw [← hoff] at hgave
    have hfreed := hst.freed ht hcg hc' hnd hgave
    exact ⟨_, rfl, hfreed.congr rfl rfl rfl rfl⟩
  · -- Fragments.
    have hne : n * fs.fsize ≠ fs.bsize := by
      rw [fs.bsize_eq]
      intro heq
      exact hfull (Nat.eq_of_mul_eq_mul_right hpos heq)
    have hclr : ∀ j, fs.fragnum a ≤ j → j < fs.fragnum a + n →
        blkBits fs (s.cgs (fs.dtog a)).blksfree (fs.fragstoblks (fs.dtogd a)) j = false := by
      intro j hlo hhi
      have huj := hused (j - fs.fragnum a) (by omega)
      rwa [hoff, Nat.add_assoc, show fs.fragnum a + (j - fs.fragnum a) = j from by omega] at huj
    rw [if_neg hne, if_neg (by
      rintro ⟨i, hi, hset⟩
      rw [hused i hi] at hset
      exact absurd hset (by decide))]
    obtain ⟨c', hst, hc', hnd, hgave⟩ := blkfreeFrags_spec (ht.cg _ hcg) (ht.csp _ hcg) hb hn hblk
      (by rw [← hoff]; exact hle) hclr
    rw [← hoff] at hst hgave
    have hfreed := hst.freed ht hcg hc' hnd hgave
    exact ⟨_, rfl, hfreed.congr rfl rfl rfl rfl⟩

/-- Through any other vnode, or with an unreadable cylinder group, nothing is
freed. -/
theorem ffsBlkfreeCg_skipped (fs : Fs) (s : State) (devvp : Vtype) (gerr a size : Nat)
    (hskip : (devvp ≠ .vreg ∧ devvp ≠ .vchr) ∨ gerr ≠ 0) :
    ffsBlkfreeCg fs s devvp gerr a size = .ok s := by
  unfold ffsBlkfreeCg
  by_cases h1 : devvp ≠ .vreg ∧ devvp ≠ .vchr
  · rw [if_pos h1]
  · rw [if_neg h1, if_pos (hskip.resolve_left h1), ite_self]

end UfsX.Proofs
