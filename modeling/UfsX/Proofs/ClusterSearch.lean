import UfsX.Proofs.AllocRun

/-!
# `UfsX.Proofs.ClusterSearch`: `ffs_clusteralloc` neither misses nor lies

`fs_maxcluster[cg]` is a cache that `ffs_clusteralloc` trusts before it reads
the group. A mount sets it to `fs_contigsumsize`; `ffs_clusteracct` and the
failing branch of `ffs_clusteralloc` recompute it from `cg_clustersum`, the
one from the top of the array and the other from below the length asked for.

The invariant is `Covered`: no entry of `cg_clustersum` above the cached length
counts a run. It says nothing of the free map; consistency of the group
(`CgOk`) turns it into the statement about runs, `Covered.runs`. Every operation
is a chain of small changes of the state that each are `Kept`.

The search itself is exact: `clusterSearch_first` reads the byte and mask walk
as "the first place at or after the preference where `len` bits are set".
-/

set_option autoImplicit false

namespace UfsX.Proofs.ClusterSearch

open UfsX.Lib UfsX.Ffs UfsX.Proofs Finset Relation

variable {fs : Fs}

/-! ### Runs of free blocks and the cached maximum -/

/-- A cached maximum for a summary `sum`: a length up to `fs_contigsumsize`, and
no counted run is longer. -/
structure MaxOk (fs : Fs) (sum : Nat → Int) (mx : Int) : Prop where
  nonneg : 0 ≤ mx
  le : mx ≤ fs.contigsumsize
  cover : ∀ k, 0 < k → k ≤ fs.contigsumsize → 0 < sum k → (k : Int) ≤ mx

/-- `fs_maxcluster` covers the summary of every group. -/
def Covered (fs : Fs) (s : State) : Prop :=
  ∀ g < fs.ncg, MaxOk fs (s.cgs g).clustersum (s.maxcluster g)

/-- A run of set bits is counted, under its length capped at `c` or under a
longer one. -/
theorem exists_cappedRuns {g : Nat → Bool} {n c p m : Nat} (hm : 0 < m) (hle : p + m ≤ n)
    (hset : ∀ j < m, g (p + j) = true) :
    ∃ k, min m c ≤ k ∧ k ≤ c ∧ 0 < cappedRuns g n c k := by
  obtain ⟨q, k, hrun, hmk⟩ := exists_isRun_of_set hm hle hset
  have hk := hrun.1
  have hqk := hrun.2.1
  refine ⟨min k c, by omega, by omega, ?_⟩
  have hpos : 0 < runs g n k := card_pos.mpr ⟨q, mem_filter.mpr ⟨mem_range.mpr (by omega), hrun⟩⟩
  have hmem : k ∈ (Icc 1 n).filter (fun j => min j c = min k c) :=
    mem_filter.mpr ⟨mem_Icc.mpr ⟨hk, by omega⟩, rfl⟩
  calc 0 < runs g n k := hpos
    _ ≤ cappedRuns g n c (min k c) := single_le_sum (fun _ _ => Nat.zero_le _) hmem

/-- In a consistent group, a run of free blocks is counted in the summary. -/
theorem FreeRun.counted {s : State} {g b len : Nat} (hrun : FreeRun fs s g b len) (h : FsOk fs s)
    (hc : fs.contigsumsize ≠ 0) (hg : g < fs.ncg) (hlen : 0 < len) :
    ∃ k, min len fs.contigsumsize ≤ k ∧ k ≤ fs.contigsumsize ∧ 0 < (s.cgs g).clustersum k := by
  have hcg := h.cg g hg
  have hncl := hcg.layout.nclusterblks hc
  obtain ⟨-, hsum⟩ := (clustersOk_iff hc).mp (hcg.clusters hc)
  have hset := (hcg.freeRun_iff hc hrun.1).mp hrun
  have hle := hrun.1
  obtain ⟨k, hlo, hhi, hcount⟩ := exists_cappedRuns (g := (s.cgs g).clustersfree.isset)
    (n := (s.cgs g).nclusterblks) (p := b) (c := fs.contigsumsize) hlen (by omega) hset
  refine ⟨k, hlo, hhi, ?_⟩
  rw [hsum k (by omega) hhi]
  exact_mod_cast hcount

/-- The cached length is at least that of every run of free blocks, capped at
`fs_contigsumsize`. -/
theorem Covered.runs {s : State} (hcov : Covered fs s) (h : FsOk fs s) (hc : fs.contigsumsize ≠ 0) {g b len : Nat}
    (hg : g < fs.ncg) (hrun : FreeRun fs s g b len) : (min len fs.contigsumsize : Nat) ≤ s.maxcluster g := by
  rcases Nat.eq_zero_or_pos len with rfl | hlen
  · rw [Nat.zero_min]
    exact (hcov g hg).nonneg
  · obtain ⟨k, hlo, hhi, hcount⟩ := FreeRun.counted hrun h hc hg hlen
    have hk := (hcov g hg).cover k (by omega) hhi hcount
    exact le_trans (by exact_mod_cast hlo) hk

/-! ### The two scans that refresh the maximum -/

/-- The scan down from `i` ends at a length up to `i`, and above every counted
one up to `i`. -/
theorem maxClusterLoop_spec (sum : Nat → Int) (i : Nat) :
    maxClusterLoop sum i ≤ i ∧ ∀ k, 0 < k → k ≤ i → 0 < sum k → k ≤ maxClusterLoop sum i := by
  induction i with
  | zero =>
      rw [maxClusterLoop]
      exact ⟨Nat.le_refl 0, fun k _ hk _ => hk⟩
  | succ i ih =>
      rw [maxClusterLoop]
      by_cases hcount : sum (i + 1) > 0
      · rw [if_pos hcount]
        exact ⟨Nat.le_refl _, fun k _ hk _ => hk⟩
      · rw [if_neg hcount]
        obtain ⟨hle, hcover⟩ := ih
        refine ⟨by omega, fun k hk hki hsum => ?_⟩
        rcases Nat.lt_or_eq_of_le hki with hlt | rfl
        · exact hcover k hk (by omega) hsum
        · exact absurd hsum hcount

/-- The scan up from `i` goes past a length only when no run of it is counted. -/
theorem clusterSizeLoop_none (sum : Nat → Int) : ∀ left i k : Nat, i ≤ k → k < clusterSizeLoop sum left i →
    sum k ≤ 0 := by
  intro left
  induction left with
  | zero =>
      intro i k hik hlt
      rw [clusterSizeLoop] at hlt
      omega
  | succ left ih =>
      intro i k hik hlt
      rw [clusterSizeLoop] at hlt
      by_cases hcount : sum i > 0
      · rw [if_pos hcount] at hlt
        omega
      · rw [if_neg hcount] at hlt
        rcases Nat.eq_or_lt_of_le hik with rfl | hik
        · exact Int.not_lt.mp hcount
        · exact ih (i + 1) k hik hlt

/-- `ffs_clusteracct` scans the whole summary. -/
theorem maxOk_clusteracct (fs : Fs) (sum : Nat → Int) : MaxOk fs sum (maxClusterLoop sum fs.contigsumsize) := by
  obtain ⟨hle, hcover⟩ := maxClusterLoop_spec sum fs.contigsumsize
  exact ⟨Int.natCast_nonneg _, by exact_mod_cast hle, fun k hk hkc hsum => by exact_mod_cast hcover k hk hkc hsum⟩

/-- `ffs_clusteralloc` scans the lengths below `len` after it found none from
`len` on. -/
theorem maxOk_clusteralloc {sum : Nat → Int} {len : Nat} (hlen : len ≤ fs.contigsumsize)
    (hnone : clusterSizeLoop sum (fs.contigsumsize + 1 - len) len > fs.contigsumsize) :
    MaxOk fs sum (maxClusterLoop sum (len - 1)) := by
  obtain ⟨hle, hcover⟩ := maxClusterLoop_spec sum (len - 1)
  refine ⟨Int.natCast_nonneg _, by omega, fun k hk hkc hsum => ?_⟩
  have hlt : k < len := by
    by_contra hge
    exact Int.not_lt.mpr (clusterSizeLoop_none sum _ len k (by omega) (Nat.lt_of_le_of_lt hkc hnone)) hsum
  exact_mod_cast hcover k hk (by omega) hsum

/-! ### Changes of the state that keep the maximum -/

/-- Group numbers and `cg_clustersum[0]` are untouched, and the maxima still
cover the summaries. -/
structure Kept (fs : Fs) (s s' : State) : Prop where
  cgx : ∀ g, (s'.cgs g).cgx = (s.cgs g).cgx
  zero : ∀ g, (s'.cgs g).clustersum 0 = (s.cgs g).clustersum 0
  covered : Covered fs s → Covered fs s'

theorem Kept.refl (s : State) : Kept fs s s := ⟨fun _ => rfl, fun _ => rfl, id⟩

theorem Kept.trans {s s' s'' : State} (h : Kept fs s s') (h' : Kept fs s' s'') : Kept fs s s'' :=
  ⟨fun g => (h'.cgx g).trans (h.cgx g), fun g => (h'.zero g).trans (h.zero g), fun hcov => h'.covered (h.covered hcov)⟩

/-- A change outside the cluster summaries. -/
theorem Kept.of_same {s s' : State} (hmax : s'.maxcluster = s.maxcluster)
    (hcgs : ∀ g, (s'.cgs g).cgx = (s.cgs g).cgx ∧ (s'.cgs g).clustersum = (s.cgs g).clustersum) : Kept fs s s' := by
  refine ⟨fun g => (hcgs g).1, fun g => by rw [(hcgs g).2], fun hcov g hg => ?_⟩
  rw [hmax, (hcgs g).2]
  exact hcov g hg

/-- A change of one group outside its cluster summary. -/
theorem Kept.modCg (s : State) (cg : Nat) {f : Cg → Cg}
    (hf : (f (s.cgs cg)).cgx = (s.cgs cg).cgx ∧ (f (s.cgs cg)).clustersum = (s.cgs cg).clustersum) :
    Kept fs s (s.modCg cg f) := by
  refine Kept.of_same rfl fun g => ?_
  rw [State.modCg_cgs]
  by_cases hg : g = cg
  · rw [hg, Function.update_self]
    exact hf
  · rw [Function.update_of_ne hg]
    exact ⟨rfl, rfl⟩

theorem Kept.emit (s : State) (e : Event) : Kept fs s (s.emit e) := Kept.of_same rfl fun _ => ⟨rfl, rfl⟩

theorem Kept.addNbfree (s : State) (cg cgx : Nat) (d : Int) : Kept fs s (s.addNbfree cg cgx d) :=
  (Kept.modCg s cg (f := fun c => { c with cs := { c.cs with nbfree := c.cs.nbfree + d } }) ⟨rfl, rfl⟩).trans
    (Kept.of_same rfl fun _ => ⟨rfl, rfl⟩)

theorem Kept.addNffree (s : State) (cg cgx : Nat) (d : Int) : Kept fs s (s.addNffree cg cgx d) :=
  (Kept.modCg s cg (f := fun c => { c with cs := { c.cs with nffree := c.cs.nffree + d } }) ⟨rfl, rfl⟩).trans
    (Kept.of_same rfl fun _ => ⟨rfl, rfl⟩)

/-- The entries `ffs_clusteracct` corrects have lengths of at least 1. -/
theorem guarded_update_zero (sum : Nat → Int) (i : Nat) (d : Int) :
    (if i > 0 then Function.update sum i (sum i - d) else sum) 0 = sum 0 := by
  by_cases hi : i > 0
  · rw [if_pos hi, Function.update_of_ne (by omega)]
  · rw [if_neg hi]

/-- `ffs_clusteracct` writes the maximum of the group whose number the buffer
holds, which is the group at hand. -/
theorem Kept.clusteracct {s : State} {cg : Nat} (hx : (s.cgs cg).cgx = cg) (blkno : Nat) (cnt : Int) :
    Kept fs s (ffsClusteracct fs s cg blkno cnt) := by
  by_cases hc : fs.contigsumsize = 0
  · rw [ffsClusteracct, if_pos hc]
    exact Kept.refl s
  simp only [ffsClusteracct, if_neg hc]
  refine ⟨fun g => ?_, fun g => ?_, fun hcov g hg => ?_⟩
  all_goals
    rw [State.setCg_cgs]
    by_cases hgc : g = cg
  · rw [hgc, Function.update_self]
  · rw [Function.update_of_ne hgc]
  · rw [hgc, Function.update_self]
    simp only [guarded_update_zero]
    exact Function.update_of_ne (by omega) _ _
  · rw [Function.update_of_ne hgc]
  · subst hgc
    rw [Function.update_self]
    show MaxOk fs _ (Function.update s.maxcluster (s.cgs g).cgx _ g)
    rw [hx, Function.update_self]
    exact maxOk_clusteracct fs _
  · rw [Function.update_of_ne hgc]
    show MaxOk fs _ (Function.update s.maxcluster (s.cgs cg).cgx _ g)
    rw [hx, Function.update_of_ne hgc]
    exact hcov g hg

/-! ### The operations, one by one -/

/-- What returns after two parts returned after each. -/
theorem bind_eq_ok {ε α β : Type*} {x : Except ε α} {f : α → Except ε β} {b : β} (h : x.bind f = .ok b) :
    ∃ a, x = .ok a ∧ f a = .ok b := by
  cases x with
  | error e => cases h
  | ok a => exact ⟨a, rfl, h⟩

section Operations

variable {s : State} {cg : Nat} (hx : (s.cgs cg).cgx = cg)

include hx

theorem Kept.takeBlock (cgx blkno : Nat) : Kept fs s (takeBlock fs s cg cgx blkno) := by
  have hmap : Kept fs s (s.modCg cg fun c => { c with blksfree := ffsClrblock fs c.blksfree blkno }) :=
    Kept.modCg s cg ⟨rfl, rfl⟩
  have hacct : Kept fs _ (ffsClusteracct fs _ cg blkno (-1)) := Kept.clusteracct ((hmap.cgx cg).trans hx) blkno (-1)
  exact ((hmap.trans hacct).trans (Kept.addNbfree _ cg cgx (-1))).trans (Kept.of_same rfl fun _ => ⟨rfl, rfl⟩)

omit hx in
theorem Kept.giveTail (s : State) (cg cgx bno size : Nat) : Kept fs s (giveTail fs s cg cgx bno size) :=
  ((Kept.modCg s cg ⟨rfl, rfl⟩).trans (Kept.addNffree _ cg cgx _)).trans (Kept.of_same rfl fun _ => ⟨rfl, rfl⟩)

omit hx in
theorem Kept.takeFrags (s : State) (cg bno frags allocsiz : Nat) : Kept fs s (takeFrags s cg bno frags allocsiz) :=
  ((Kept.modCg s cg ⟨rfl, rfl⟩).trans (Kept.addNffree _ cg cg _)).trans (Kept.of_same rfl fun _ => ⟨rfl, rfl⟩)

theorem Kept.alloccgblkTake (bno size : Nat) : Kept fs s (alloccgblkTake fs s cg bno size).2 := by
  have htake : Kept fs s (UfsX.Ffs.takeBlock fs s cg (s.cgs cg).cgx (fs.fragstoblks bno)) := Kept.takeBlock hx _ _
  unfold UfsX.Ffs.alloccgblkTake
  simp only
  by_cases hsize : fs.numfrags size ≠ fs.frag
  · rw [if_pos hsize]
    exact htake.trans (Kept.giveTail _ cg _ _ _)
  · rw [if_neg hsize]
    exact htake

theorem Kept.alloccgblk {bpref size : Nat} {r : Nat × State} (heq : ffsAlloccgblk fs s cg bpref size = .ok r) :
    Kept fs s r.2 := by
  unfold ffsAlloccgblk at heq
  by_cases hfree : ffsIsblock fs (s.cgs cg).blksfree
      (fs.fragstoblks (fs.dtogd (fs.blknum (alloccgblkPref fs (s.cgs cg) bpref)))) = true
  · simp only [hfree, if_true] at heq
    obtain rfl := Except.ok.inj heq
    exact ((Kept.alloccgblkTake hx _ size).trans (Kept.emit _ .unlock)).trans (Kept.emit _ .lock)
  · simp only [hfree, if_false, Bool.false_eq_true] at heq
    obtain ⟨⟨frotor, bno⟩, -, heq⟩ := bind_eq_ok heq
    obtain rfl := Except.ok.inj heq
    -- the rotors are in the group, but not in its summary
    have hrotor : Kept fs s (s.modCg cg fun c => { c with
        frotor := frotor
        rotor := if bno ≥ fs.dtogd (fs.cgdata c.cgx).toNat then bno else c.rotor }) := Kept.modCg s cg ⟨rfl, rfl⟩
    exact ((hrotor.trans (Kept.alloccgblkTake ((hrotor.cgx cg).trans hx) bno size)).trans (Kept.emit _ .unlock)).trans
      (Kept.emit _ .lock)

theorem Kept.alloccgBlock {bpref rsize : Nat} {r : Nat × State} (heq : alloccgBlock fs s cg bpref rsize = .ok r) :
    Kept fs s r.2 := by
  obtain ⟨t, hblk, heq⟩ := bind_eq_ok heq
  obtain rfl := Except.ok.inj heq
  have hkept := (Kept.emit s .lock).trans (Kept.alloccgblk (s := s.emit .lock) hx hblk)
  exact (hkept.trans (Kept.emit _ .unlock)).trans (Kept.emit _ (.bdwrite cg))

omit hx in
/-- Opening a group, and giving up on it, change the log only. -/
theorem Kept.cgOpen (s : State) (gerr cg : Nat) : Kept fs s (cgOpen s gerr cg) := by
  rw [cgOpen_eq]
  exact Kept.of_same rfl fun _ => ⟨rfl, rfl⟩

omit hx in
theorem Kept.cgFail (s : State) (gerr cg : Nat) : Kept fs s (cgFail s gerr cg).2 :=
  (Kept.emit s _).trans (Kept.emit _ .lock)

theorem Kept.alloccg {gerr bpref size rsize : Nat} {r : Nat × State}
    (heq : ffsAlloccg fs s gerr cg bpref size rsize = .ok r) : Kept fs s r.2 := by
  have hopen : Kept fs s (UfsX.Ffs.cgOpen s gerr cg) := Kept.cgOpen s gerr cg
  have hxo : ((UfsX.Ffs.cgOpen s gerr cg).cgs cg).cgx = cg := (hopen.cgx cg).trans hx
  have hfail := hopen.trans (Kept.cgFail _ gerr cg)
  unfold ffsAlloccg at heq
  simp only at heq
  split at heq
  · obtain rfl := Except.ok.inj heq
    exact Kept.refl s
  split at heq
  · obtain rfl := Except.ok.inj heq
    exact hfail
  split at heq
  · exact hopen.trans (Kept.alloccgBlock hxo heq)
  split at heq
  · split at heq
    · obtain rfl := Except.ok.inj heq
      exact hfail
    · exact hopen.trans (Kept.alloccgBlock hxo heq)
  split at heq
  · cases heq
  · obtain ⟨⟨frotor, bno⟩, -, heq⟩ := bind_eq_ok heq
    obtain rfl := Except.ok.inj heq
    have hrotor : Kept fs s ((UfsX.Ffs.cgOpen s gerr cg).modCg cg fun c => { c with frotor := frotor }) :=
      hopen.trans (Kept.modCg _ cg ⟨rfl, rfl⟩)
    exact (((hrotor.trans (Kept.takeFrags _ cg bno _ _)).trans (Kept.emit _ .lock)).trans (Kept.emit _ .unlock)).trans
      (Kept.emit _ (.bdwrite cg))

omit hx in
theorem Kept.fragextend (s : State) (gerr cg bprev osize nsize : Nat) :
    Kept fs s (ffsFragextend fs s gerr cg bprev osize nsize).2 := by
  have hopen : Kept fs s (UfsX.Ffs.cgOpen s gerr cg) := Kept.cgOpen s gerr cg
  have hfail := hopen.trans (Kept.cgFail _ gerr cg)
  unfold ffsFragextend
  simp only
  split
  · exact Kept.refl s
  split
  · exact Kept.refl s
  split
  · exact hfail
  split
  · exact hfail
  · exact (((hopen.trans (Kept.takeFrags _ cg _ _ _)).trans (Kept.emit _ .lock)).trans (Kept.emit _ .unlock)).trans
      (Kept.emit _ (.bdwrite cg))

/-- The blocks of a cluster, one after the other. -/
theorem Kept.clusterTake {n bno : Nat} {s' : State} (heq : clusterTake fs cg n bno s = .ok s') : Kept fs s s' := by
  induction n generalizing s bno with
  | zero =>
      obtain rfl := Except.ok.inj heq
      exact Kept.refl s
  | succ n ih =>
      obtain ⟨⟨got, t⟩, hblk, heq⟩ := bind_eq_ok heq
      have hkept := Kept.alloccgblk hx hblk
      simp only at heq
      split at heq
      · cases heq
      · exact hkept.trans (ih ((hkept.cgx cg).trans hx) heq)

/-- A search that finds no count from `len` on lowers the maximum below `len`;
it got there only with a length up to the maximum. -/
theorem Kept.clusteralloc {gerr bpref len : Nat} {r : Nat × State} (hcg : cg < fs.ncg)
    (heq : ffsClusteralloc fs s gerr cg bpref len = .ok r) : Kept fs s r.2 := by
  have hopen : Kept fs s (UfsX.Ffs.cgOpen s gerr cg) := Kept.cgOpen s gerr cg
  unfold ffsClusteralloc at heq
  simp only at heq
  split at heq
  · obtain rfl := Except.ok.inj heq
    exact Kept.refl s
  rename_i hmax
  split at heq
  · obtain rfl := Except.ok.inj heq
    exact hopen.trans (Kept.emit _ .lock)
  split at heq
  · rename_i hnone
    obtain rfl := Except.ok.inj heq
    refine ⟨hopen.cgx, hopen.zero, fun hcov g hg => ?_⟩
    have hlen : (len : Int) ≤ fs.contigsumsize := le_trans (Int.not_lt.mp hmax) (hcov cg hcg).le
    show MaxOk fs ((UfsX.Ffs.cgOpen s gerr cg).cgs g).clustersum
      (Function.update (UfsX.Ffs.cgOpen s gerr cg).maxcluster cg _ g)
    by_cases hgc : g = cg
    · rw [hgc, Function.update_self]
      exact maxOk_clusteralloc (by exact_mod_cast hlen) hnone
    · rw [Function.update_of_ne hgc, cgOpen_cgs, cgOpen_maxcluster]
      exact hcov g hg
  split at heq
  · obtain rfl := Except.ok.inj heq
    exact (hopen.trans (Kept.emit _ .lock)).trans (Kept.emit _ (.brelse cg))
  split at heq
  · cases heq
  split at heq
  · cases heq
  · obtain ⟨t, htake, heq⟩ := bind_eq_ok heq
    obtain rfl := Except.ok.inj heq
    have hlock := hopen.trans (Kept.emit _ .lock)
    exact ((hlock.trans (Kept.clusterTake ((hlock.cgx cg).trans hx) htake)).trans (Kept.emit _ .unlock)).trans
      (Kept.emit _ (.bdwrite cg))

/-- The block case and the fragment case of a free. -/
theorem Kept.blkfreeBlock (fragno : Nat) : Kept fs s (blkfreeBlock fs s cg fragno) := by
  have hmap : Kept fs s (s.modCg cg fun c => { c with blksfree := ffsSetblock fs c.blksfree fragno }) :=
    Kept.modCg s cg ⟨rfl, rfl⟩
  exact (hmap.trans (Kept.clusteracct ((hmap.cgx cg).trans hx) fragno 1)).trans (Kept.addNbfree _ cg cg 1)

theorem Kept.blkfreeFrags (cgbno frags : Nat) : Kept fs s (blkfreeFrags fs s cg cgbno frags) := by
  have hgive : Kept fs s (giveFrags fs s cg cgbno frags (cgbno - fs.fragnum cgbno)) :=
    (Kept.modCg s cg ⟨rfl, rfl⟩).trans (Kept.addNffree _ cg cg _)
  unfold UfsX.Ffs.blkfreeFrags
  simp only
  split
  · have hcount := hgive.trans (Kept.addNffree _ cg cg (-fs.frag))
    exact (hcount.trans (Kept.clusteracct ((hcount.cgx cg).trans hx) _ 1)).trans (Kept.addNbfree _ cg cg 1)
  · exact hgive

theorem Kept.blkfreeCg {devvp : Vtype} {gerr : Nat} {bno : Int} {size : Nat} {s' : State}
    (hgroup : (toU32 (bno.tdiv fs.fpg)).toNat = cg) (heq : ffsBlkfreeCg fs s devvp gerr bno size = .ok s') :
    Kept fs s s' := by
  have hread : Kept fs s ((s.emit (.getcg cg)).emit .lock) := (Kept.emit s _).trans (Kept.emit _ .lock)
  have hwrite (t : State) : Kept fs t (({ t with fmod := true }.emit .unlock).emit (.bdwrite cg)) :=
    Kept.of_same rfl fun _ => ⟨rfl, rfl⟩
  unfold ffsBlkfreeCg at heq
  simp only [hgroup] at heq
  split at heq
  · obtain rfl := Except.ok.inj heq
    exact Kept.refl s
  split at heq
  · obtain rfl := Except.ok.inj heq
    exact Kept.refl s
  split at heq
  · obtain rfl := Except.ok.inj heq
    exact Kept.refl s
  split at heq
  · cases heq
  split at heq
  · split at heq
    · split at heq
      · obtain rfl := Except.ok.inj heq
        exact (hread.trans (Kept.emit _ .unlock)).trans (Kept.emit _ (.brelse cg))
      · cases heq
    · obtain rfl := Except.ok.inj heq
      exact (hread.trans (Kept.blkfreeBlock ((hread.cgx cg).trans hx) _)).trans (hwrite _)
  split at heq
  · cases heq
  · obtain rfl := Except.ok.inj heq
    exact (hread.trans (Kept.blkfreeFrags ((hread.cgx cg).trans hx) _ _)).trans (hwrite _)

end Operations

/-! ### Runs -/

/-- The calls of a run: fragment 0, the boot block, is never handed out and never
freed. -/
def Op.Fair (fs : Fs) (s : State) (op : Op) : Prop :=
  op.Legal fs s ∧ ∀ devvp gerr bno size, op = .blkfree devvp gerr bno size → bno ≠ 0

/-- One call that returns. -/
def CallStep (fs : Fs) (s s' : State) : Prop :=
  ∃ (op : Op) (r : Nat), Op.Fair fs s op ∧ op.exec fs s = .ok (r, s')

/-- A file system as a mount leaves it: consistent, the boot block in use, and the
longest cluster taken to be there in every group. -/
structure Mounted (fs : Fs) (s : State) : Prop where
  ok : FsOk fs s
  boot : freeAt fs s 0 = false
  maxcluster : ∀ g < fs.ncg, s.maxcluster g = fs.contigsumsize

/-- What a run keeps. -/
structure Inv (fs : Fs) (s₀ s : State) : Prop where
  ok : FsOk fs s
  boot : freeAt fs s 0 = false
  covered : Covered fs s
  zero : ∀ g, (s.cgs g).clustersum 0 = (s₀.cgs g).clustersum 0

theorem Mounted.inv {s : State} (h : Mounted fs s) : Inv fs s s := by
  refine ⟨h.ok, h.boot, fun g hg => ?_, fun _ => rfl⟩
  rw [h.maxcluster g hg]
  exact ⟨Int.natCast_nonneg _, Int.le_refl _, fun k _ hk _ => by exact_mod_cast hk⟩

/-- A legal call keeps the maxima. -/
theorem kept_of_exec {s s' : State} (h : FsOk fs s) {op : Op} {r : Nat} (hop : op.Legal fs s)
    (heq : op.exec fs s = .ok (r, s')) : Kept fs s s' := by
  cases op with
  | alloccg gerr cg bpref size rsize => exact Kept.alloccg (h.cg cg hop.1).layout.cgx heq
  | fragextend gerr cg bprev osize nsize =>
      obtain rfl := (Prod.mk.inj (Except.ok.inj heq)).2
      exact Kept.fragextend s gerr cg bprev osize nsize
  | clusteralloc gerr cg bpref len => exact Kept.clusteralloc (h.cg cg hop.1).layout.cgx hop.1 heq
  | blkfree devvp gerr bno size =>
      obtain ⟨n, -, huse⟩ := hop
      obtain ⟨t, hfree, hret⟩ : ∃ t, ffsBlkfreeCg fs s devvp gerr bno size = .ok t ∧ t = s' := by
        rw [Op.exec] at heq
        cases hfree : ffsBlkfreeCg fs s devvp gerr bno size with
        | error e =>
            rw [hfree] at heq
            cases heq
        | ok t =>
            rw [hfree] at heq
            exact ⟨t, rfl, (Prod.mk.inj (Except.ok.inj heq)).2⟩
      exact hret ▸ Kept.blkfreeCg (h.cg _ huse.cg).layout.cgx (blkfreeCg_group huse.cg) hfree

/-- A legal call that does not free it leaves the boot block in use. -/
theorem boot_of_exec {s s' : State} (h : FsOk fs s) (hboot : freeAt fs s 0 = false) {op : Op} {r : Nat}
    (hop : Op.Fair fs s op) (heq : op.exec fs s = .ok (r, s')) : freeAt fs s' 0 = false := by
  have hun (hun : Unmoved s s') : freeAt fs s' 0 = false := by
    unfold freeAt at hboot ⊢
    rw [(hun _).1]
    exact hboot
  have halloc {cg p n : Nat} (hcg : cg < fs.ncg) (halloc : Allocd fs s s' cg p n) : freeAt fs s' 0 = false := by
    have hle := halloc.le
    have hfpg := (h.cg cg hcg).layout.ndblk_le
    rw [Bool.eq_false_iff]
    intro hfree
    rw [((halloc.freeAt (by omega) 0).mp hfree).1] at hboot
    exact absurd hboot (by decide)
  have hres {cg n : Nat} {a : Nat × State} (hcg : cg < fs.ncg) (ha : AllocResult fs s cg n a) (hs : a.2 = s') :
      freeAt fs s' 0 = false := by
    rcases ha with ⟨-, -, hsame⟩ | ⟨p, -, htook, -⟩
    · exact hun (hs ▸ hsame)
    · exact halloc hcg (hs ▸ htook)
  obtain ⟨hlegal, hfair⟩ := hop
  cases op with
  | alloccg gerr cg bpref size rsize =>
      obtain ⟨hcg, n, hn, hnf, rfl, hsize⟩ := hlegal
      obtain ⟨a, heq', ha⟩ := ffsAlloccg_spec gerr bpref h hcg hn hnf hsize
      exact hres hcg ha (congrArg Prod.snd (Except.ok.inj (heq'.symm.trans heq)))
  | fragextend gerr cg bprev osize nsize =>
      obtain ⟨rfl, o, n, rfl, rfl, hon, hnf, huse⟩ := hlegal
      have hpos := huse.pos
      obtain rfl := (Prod.mk.inj (Except.ok.inj heq)).2
      rcases ffsFragextend_spec gerr h huse.cg hpos hon hnf (huse.used (o - 1) (by omega)) _ rfl
        with ⟨-, -, hsame⟩ | ⟨-, htook, -⟩
      · exact hun hsame
      · exact halloc huse.cg htook
  | clusteralloc gerr cg bpref len =>
      obtain ⟨hcg, hc, hlen⟩ := hlegal
      rcases ffsClusteralloc_spec gerr bpref h hcg hc hlen with ⟨a, heq', ha⟩ | ⟨herr, -⟩
      · exact hres hcg ha (congrArg Prod.snd (Except.ok.inj (heq'.symm.trans heq)))
      · cases herr.symm.trans heq
  | blkfree devvp gerr bno size =>
      obtain ⟨n, rfl, huse⟩ := hlegal
      have hbno := hfair devvp gerr bno (n * fs.fsize) rfl
      by_cases hdone : (devvp = .vreg ∨ devvp = .vchr) ∧ gerr = 0
      · obtain ⟨hdev, rfl⟩ := hdone
        obtain ⟨t, heq', hfreed⟩ := ffsBlkfreeCg_freed devvp h huse hdev
        rw [Op.exec, heq'] at heq
        obtain rfl := (Prod.mk.inj (Except.ok.inj heq)).2
        rw [Bool.eq_false_iff]
        intro hfree
        have hle := huse.le
        have hfpg := (h.cg _ huse.cg).layout.ndblk_le
        have haddr := address_eq fs bno
        -- the range freed starts at `bno`, above 0
        rcases (hfreed.freeAt (by omega) 0).mp hfree with hfree | hin
        · rw [hfree] at hboot
          exact absurd hboot (by decide)
        · omega
      · rw [Op.exec, ffsBlkfreeCg_skipped fs s devvp gerr bno (n * fs.fsize) (by tauto)] at heq
        obtain rfl := (Prod.mk.inj (Except.ok.inj heq)).2
        exact hboot

theorem Inv.step {s₀ s s' : State} (h : Inv fs s₀ s) (hst : CallStep fs s s') : Inv fs s₀ s' := by
  obtain ⟨op, r, hop, heq⟩ := hst
  have hkept := kept_of_exec h.ok hop.1 heq
  exact ⟨Step.fsOk h.ok ⟨op, r, hop.1, heq⟩, boot_of_exec h.ok h.boot hop heq, hkept.covered h.covered,
    fun g => (hkept.zero g).trans (h.zero g)⟩

/-- Where `ffs_clusteralloc` gives up on a length up to `fs_contigsumsize`, the
group could not be read or has no such run from the preferred block on. -/
theorem Inv.refuses {s₀ s : State} (h : Inv fs s₀ s) (hc : fs.contigsumsize ≠ 0) {gerr cg bpref len : Nat}
    (hcg : cg < fs.ncg) (hlen : 0 < len) (hle : len ≤ fs.contigsumsize) (hno : ClusterRefuses fs s gerr cg bpref len) :
    gerr ≠ 0 ∨ ∀ b, clusterPref fs cg bpref ≤ b → ¬ FreeRun fs s cg b len := by
  rcases hno with hmax | hgerr | hnone | hsearch
  · -- the early exit: a run would be longer than the cached maximum
    right
    intro b _ hrun
    have := h.covered.runs h.ok hc hcg hrun
    omega
  · exact .inl hgerr
  · right
    intro b _ hrun
    obtain ⟨k, hlo, hhi, hcount⟩ := FreeRun.counted hrun h.ok hc hcg hlen
    have hk := clusterSizeLoop_none (s.cgs cg).clustersum _ len k (by omega) (Nat.lt_of_le_of_lt hhi hnone)
    omega
  · exact .inr hsearch

/-- Block 0 of group 0 holds the boot block, so no free run starts at address 0. -/
theorem Inv.address_ne_zero {s₀ s : State} (h : Inv fs s₀ s) {cg b len : Nat} (hlen : 0 < len)
    (hrun : FreeRun fs s cg b len) : fs.cgbase cg + b * fs.frag ≠ 0 := by
  intro h0
  have hpos := fs.frag_pos
  have hb : b = 0 := (Nat.mul_eq_zero.mp (show b * fs.frag = 0 from by omega)).resolve_right hpos.ne'
  have hcg : cg = 0 := (Nat.mul_eq_zero.mp (show fs.fpg * cg = 0 from by unfold Fs.cgbase at h0; omega)).resolve_left
    fs.fpg_pos.ne'
  subst hb hcg
  have hfree := (whole_iff fs _).mp (hrun.2 0 hlen) 0 hpos
  have hboot := h.boot
  rw [blkBits, Nat.zero_add, Nat.zero_mul, Nat.zero_add] at hfree
  rw [freeAt, Fs.dtog, Fs.dtogd, Nat.zero_div, Nat.zero_mod, hfree] at hboot
  exact absurd hboot (by decide)

/-- `ffs_clusteralloc` in a state that a run reaches: no panic, the first run from
the preferred block on or a reason. -/
theorem Inv.clusteralloc {s₀ s : State} (h : Inv fs s₀ s) (hc : fs.contigsumsize ≠ 0) {cg len : Nat} (gerr bpref : Nat)
    (hcg : cg < fs.ncg) (hlen : 0 < len) (hle : len ≤ fs.contigsumsize) :
    ∃ r t, ffsClusteralloc fs s gerr cg bpref len = .ok (r, t) ∧
      ((r = 0 ∧ Unmoved s t ∧ (gerr ≠ 0 ∨ ∀ b, clusterPref fs cg bpref ≤ b → ¬ FreeRun fs s cg b len)) ∨
        (r ≠ 0 ∧ ∃ b, r = fs.cgbase cg + b * fs.frag ∧ clusterPref fs cg bpref ≤ b ∧ FreeRun fs s cg b len ∧
          (∀ b', clusterPref fs cg bpref ≤ b' → b' < b → ¬ FreeRun fs s cg b' len) ∧
          Allocd fs s t cg (b * fs.frag) (len * fs.frag))) := by
  rcases ffsClusteralloc_end gerr bpref h.ok hcg hc hlen with
    ⟨hno, t, heq, hcgs, -, -⟩ | ⟨b, t, heq, hge, hrun, hfirst, halloc⟩ | ⟨-, hfree⟩
  · exact ⟨0, t, heq, .inl ⟨rfl, fun g => by rw [hcgs]; exact ⟨rfl, rfl⟩, h.refuses hc hcg hlen hle hno⟩⟩
  · exact ⟨_, t, heq, .inr ⟨h.address_ne_zero hlen hrun, b, rfl, hge, hrun, hfirst, halloc⟩⟩
  · have hboot := h.boot
    rw [freeAt, Fs.dtog, Fs.dtogd, Nat.zero_div, Nat.zero_mod, hfree] at hboot
    exact absurd hboot (by decide)

/-- In every state that a run from a mount reaches, `fs_maxcluster` is at least the
length of every run of free blocks, capped at `fs_contigsumsize`;
`cg_clustersum[0]` is what it was at the mount; and `ffs_clusteralloc`, for every
length up to `fs_contigsumsize` and every preference, returns: the first run of
free blocks from the preferred block on, exactly whose blocks it took, or 0 with
nothing moved because the group has no such run or could not be read. -/
theorem clusteralloc_exact (hc : fs.contigsumsize ≠ 0) {s₀ s : State} (hmount : Mounted fs s₀)
    (hrun : ReflTransGen (CallStep fs) s₀ s) :
    (∀ g b len, g < fs.ncg → FreeRun fs s g b len → (min len fs.contigsumsize : Nat) ≤ s.maxcluster g) ∧
    (∀ g, (s.cgs g).clustersum 0 = (s₀.cgs g).clustersum 0) ∧
    ∀ gerr cg bpref len, cg < fs.ncg → 0 < len → len ≤ fs.contigsumsize →
      ∃ r t, ffsClusteralloc fs s gerr cg bpref len = .ok (r, t) ∧
        ((r = 0 ∧ Unmoved s t ∧ (gerr ≠ 0 ∨ ∀ b, clusterPref fs cg bpref ≤ b → ¬ FreeRun fs s cg b len)) ∨
          (r ≠ 0 ∧ ∃ b, r = fs.cgbase cg + b * fs.frag ∧ clusterPref fs cg bpref ≤ b ∧ FreeRun fs s cg b len ∧
            (∀ b', clusterPref fs cg bpref ≤ b' → b' < b → ¬ FreeRun fs s cg b' len) ∧
            Allocd fs s t cg (b * fs.frag) (len * fs.frag))) := by
  have h : Inv fs s₀ s := invariant_of_run (Inv fs s₀) (fun ha hst => Inv.step ha hst) hmount.inv hrun
  exact ⟨fun g b len hg hfree => h.covered.runs h.ok hc hg hfree, h.zero,
    fun gerr cg bpref len hcg hlen hle => h.clusteralloc hc gerr bpref hcg hlen hle⟩

theorem mounted_tinyState : Mounted tinyFs tinyState := ⟨fsOk_tinyState, boot_tinyState, fun _ _ => rfl⟩

/-- After a block was allocated in `tinyState`. -/
theorem clusteralloc_exact_tinyState :
    ∃ s, ReflTransGen (CallStep tinyFs) tinyState s ∧ s.cgs ≠ tinyState.cgs ∧
      (s.cgs 0).clustersum 0 = (tinyState.cgs 0).clustersum 0 ∧
      ∃ r t, ffsClusteralloc tinyFs s 0 0 0 2 = .ok (r, t) := by
  obtain ⟨p, s, heq, halloc⟩ := ffsAlloccg_block 0 fsOk_tinyState (by decide) nbfree_tinyState
  have hrun : ReflTransGen (CallStep tinyFs) tinyState s := ReflTransGen.single
    ⟨.alloccg 0 0 0 16384 16384, _, ⟨⟨by decide, 2, by decide, by decide, rfl, .inl rfl⟩, fun _ _ _ _ h => by cases h⟩,
      heq⟩
  obtain ⟨-, hzero, hall⟩ := clusteralloc_exact (by decide) mounted_tinyState hrun
  obtain ⟨r, t, hret, -⟩ := hall 0 0 0 2 (by decide) (by decide) (by decide)
  refine ⟨s, hrun, fun hsame => ?_, hzero 0, r, t, hret⟩
  -- the first fragment taken was free before
  have hbefore := halloc.free p (Nat.le_refl p) (by have := tinyFs.frag_pos; omega)
  have hafter := halloc.took p
  rw [hsame, hbefore] at hafter
  simp [tinyFs.frag_pos] at hafter

end UfsX.Proofs.ClusterSearch
