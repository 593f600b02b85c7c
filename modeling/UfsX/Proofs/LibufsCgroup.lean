import UfsX.Libufs.Cgroup
import UfsX.Proofs.AllocSpec
import UfsX.Proofs.Inoalloc
import UfsX.Proofs.LibufsInode

/-!
# `UfsX.Proofs.LibufsCgroup`: the allocator of libufs against that of the kernel

`cgbfree` makes the stores of `ffs_blkfree_cg`, but it takes the group of a block from the
low 32 bits of its number, and it never asks what kind of vnode a disk is
(`cgbfree_same_iff`). `cgballoc` and `cgialloc` keep a file system consistent and hand out
what was free (`cgballoc_spec`, `cgialloc_books`). The block of new inodes that `cgialloc`
writes goes to the fragment address, taken for a device block number
(`cgialloc_written_iff`).
-/

set_option autoImplicit false

namespace UfsX.Proofs.LibufsCgroup

open UfsX.Lib UfsX.Ffs UfsX.Libufs Finset
open UfsX.Proofs.LibufsInode (dBsize_mul)

variable {fs : Fs}

/-! ### One group at a time -/

/-- Only group `cg` changes, and it keeps its number. -/
structure OnlyGroup (cg : Nat) (s s' : State) : Prop where
  other : ∀ g, g ≠ cg → s'.cgs g = s.cgs g
  cgx : (s'.cgs cg).cgx = (s.cgs cg).cgx

namespace OnlyGroup

variable {cg : Nat} {s s' s'' : State}

theorem refl (s : State) : OnlyGroup cg s s := ⟨fun _ _ => rfl, rfl⟩

theorem trans (h : OnlyGroup cg s s') (h' : OnlyGroup cg s' s'') : OnlyGroup cg s s'' :=
  ⟨fun g hg => (h'.other g hg).trans (h.other g hg), h'.cgx.trans h.cgx⟩

theorem of_update {c' : Cg} (hcgs : s'.cgs = Function.update s.cgs cg c') (hcgx : c'.cgx = (s.cgs cg).cgx) :
    OnlyGroup cg s s' := by
  constructor
  · intro g hg
    rw [hcgs, Function.update_of_ne hg]
  · rw [hcgs, Function.update_self, hcgx]

theorem cgs_eq (h : OnlyGroup cg s s') : s'.cgs = Function.update s.cgs cg (s'.cgs cg) := by
  funext g
  by_cases hg : g = cg
  · rw [hg, Function.update_self]
  · rw [Function.update_of_ne hg, h.other g hg]

theorem clusteracct (s : State) (cg b : Nat) (cnt : Int) : OnlyGroup cg s (ffsClusteracct fs s cg b cnt) := by
  unfold ffsClusteracct
  split
  · exact refl s
  · exact of_update rfl rfl

theorem modCg (s : State) (cg : Nat) (f : Cg → Cg) (hf : ∀ c, (f c).cgx = c.cgx) : OnlyGroup cg s (s.modCg cg f) :=
  of_update rfl (hf _)

theorem addNbfree (s : State) (cg : Nat) (d : Int) : OnlyGroup cg s (s.addNbfree cg cg d) := of_update rfl rfl

theorem addNffree (s : State) (cg : Nat) (d : Int) : OnlyGroup cg s (s.addNffree cg cg d) := of_update rfl rfl

theorem blkfreeBlock (s : State) (cg b : Nat) : OnlyGroup cg s (blkfreeBlock fs s cg b) :=
  ((modCg s cg _ fun _ => by rfl).trans (clusteracct _ cg b 1)).trans (addNbfree _ cg 1)

theorem blkfreeFrags (s : State) (cg cgbno frags : Nat) : OnlyGroup cg s (blkfreeFrags fs s cg cgbno frags) := by
  have hgive : OnlyGroup cg s (giveFrags fs s cg cgbno frags (cgbno - fs.fragnum cgbno)) :=
    (modCg s cg _ fun _ => by rfl).trans (addNffree _ cg frags)
  unfold Ffs.blkfreeFrags
  dsimp only
  split
  · exact ((hgive.trans (addNffree _ cg _)).trans (clusteracct _ cg _ 1)).trans (addNbfree _ cg 1)
  · exact hgive

theorem stores (s : State) (cg cgbno size : Nat) : OnlyGroup cg s (cgbfreeStores fs s cg cgbno size) := by
  unfold cgbfreeStores
  split
  · exact blkfreeBlock s cg _
  · exact blkfreeFrags s cg _ _

end OnlyGroup

/-! ### The stores of `cgbfree` -/

theorem ffsClusteracct_cstotal (s : State) (cg b : Nat) (cnt : Int) :
    (ffsClusteracct fs s cg b cnt).cstotal = s.cstotal := by
  unfold ffsClusteracct
  split
  · rfl
  · rfl

/-- The counts of a free move: a block, or fragments. -/
theorem stores_cstotal (s : State) (cg cgbno : Nat) {n : Nat} (hn : 0 < n) :
    (cgbfreeStores fs s cg cgbno (n * fs.fsize)).cstotal ≠ s.cstotal := by
  intro heq
  have hnb := congrArg Csum.nbfree heq
  have hnf := congrArg Csum.nffree heq
  unfold cgbfreeStores at hnb hnf
  split at hnb
  · simp only [blkfreeBlock, State.addNbfree, ffsClusteracct_cstotal, State.modCg_cstotal] at hnb
    omega
  · rename_i hsize
    rw [if_neg hsize] at hnf
    simp only [blkfreeFrags] at hnb hnf
    split at hnb
    · simp only [State.addNbfree, ffsClusteracct_cstotal, State.addNffree, giveFrags, State.modCg_cstotal] at hnb
      omega
    · rename_i hblock
      rw [if_neg hblock] at hnf
      simp only [giveFrags, State.addNffree, State.modCg_cstotal, numfrags_mul] at hnf
      omega

theorem ffsClusteracct_emit (s : State) (e : Event) (cg b : Nat) (cnt : Int) :
    ffsClusteracct fs (s.emit e) cg b cnt = (ffsClusteracct fs s cg b cnt).emit e := by
  unfold ffsClusteracct
  split
  · rfl
  · rfl

/-- The log takes no part in the stores. -/
theorem stores_emit (s : State) (e : Event) (cg cgbno size : Nat) :
    cgbfreeStores fs (s.emit e) cg cgbno size = (cgbfreeStores fs s cg cgbno size).emit e := by
  unfold cgbfreeStores
  split
  · simp only [blkfreeBlock]
    have hmap : (s.emit e).modCg cg (fun c => { c with blksfree := ffsSetblock fs c.blksfree (fs.fragstoblks cgbno) })
        = (s.modCg cg fun c => { c with blksfree := ffsSetblock fs c.blksfree (fs.fragstoblks cgbno) }).emit e := rfl
    rw [hmap, ffsClusteracct_emit]
    rfl
  · have hgive : giveFrags fs (s.emit e) cg cgbno (fs.numfrags size) (cgbno - fs.fragnum cgbno)
        = (giveFrags fs s cg cgbno (fs.numfrags size) (cgbno - fs.fragnum cgbno)).emit e := rfl
    simp only [blkfreeFrags, hgive, State.emit_cgs]
    generalize giveFrags fs s cg cgbno (fs.numfrags size) (cgbno - fs.fragnum cgbno) = t
    have hcount : (t.emit e).addNffree cg cg (-fs.frag) = (t.addNffree cg cg (-fs.frag)).emit e := rfl
    rw [hcount, ffsClusteracct_emit]
    split
    · rfl
    · rfl

/-! ### `cgbfree` and `ffs_blkfree_cg` -/

/-- The same free maps, cluster maps, counts and totals. -/
structure SameBooks (s s' : State) : Prop where
  blksfree : ∀ g, (s.cgs g).blksfree = (s'.cgs g).blksfree
  clustersfree : ∀ g, (s.cgs g).clustersfree = (s'.cgs g).clustersfree
  cs : ∀ g, (s.cgs g).cs = (s'.cgs g).cs
  csp : s.csp = s'.csp
  cstotal : s.cstotal = s'.cstotal

theorem SameBooks.of_eq {s s' : State} (hcgs : s.cgs = s'.cgs) (hcsp : s.csp = s'.csp) (htot : s.cstotal = s'.cstotal) :
    SameBooks s s' :=
  ⟨fun g => by rw [hcgs], fun g => by rw [hcgs], fun g => by rw [hcgs], hcsp, htot⟩

/-- The group is right below `2 ^ 31` and nowhere else; `fs_fpg` is an `int32_t`. -/
theorem cgbfreeGroup_iff (hfpg : fs.fpg < 2 ^ 31) (a : Nat) : cgbfreeGroup fs a = fs.dtog a ↔ a < 2 ^ 31 := by
  have hpos := fs.fpg_pos
  constructor
  · intro heq
    by_contra hge
    obtain ⟨hlo, hhi⟩ := toI32_bounds a
    have hmod : toI32 a ≤ (a : Int) - 2 ^ 32 := by
      unfold toI32 at hhi ⊢
      rw [Int.bmod_def] at hhi ⊢
      split at hhi
      · rename_i hlt
        rw [if_pos hlt]
        omega
      · rename_i hlt
        rw [if_neg hlt]
        omega
    -- the group of the low word lies in front of the group of `a`
    have hdiv : (1 : Int) ≤ fs.dtog a := by
      have hone : 1 ≤ a / fs.fpg := (Nat.one_le_div_iff hpos).mpr (by omega)
      exact_mod_cast hone
    have hlow : cgbfreeGroup fs a < fs.dtog a := by
      unfold cgbfreeGroup
      rcases lt_or_ge (toI32 a) 0 with hneg | hnonneg
      · have hle := Int.tdiv_nonneg (by omega : 0 ≤ -toI32 a) (by omega : (0 : Int) ≤ fs.fpg)
        rw [Int.neg_tdiv] at hle
        omega
      · rw [Int.tdiv_eq_ediv_of_nonneg hnonneg]
        have hstep : toI32 a + 1 * fs.fpg ≤ (a : Int) := by omega
        have hmono := Int.ediv_le_ediv (by omega : (0 : Int) < fs.fpg) hstep
        rw [Int.add_mul_ediv_right _ _ (by omega)] at hmono
        have hcast : ((a : Int)) / fs.fpg = (fs.dtog a : Nat) := by
          unfold Fs.dtog
          exact (Int.natCast_ediv ..).symm
        omega
    omega
  · intro hlt
    unfold cgbfreeGroup Fs.dtog
    rw [toI32_eq_self (by omega) (by omega), Int.tdiv_eq_ediv_of_nonneg (by omega)]
    exact (Int.natCast_ediv ..).symm

variable {d : CgDisk}

theorem mem_of_read (g : Nat) (hcgx : (d.st.cgs g).cgx = g) : ({ d with cg := d.st.cgs g } : CgDisk).mem = d.st := by
  unfold CgDisk.mem State.setCg
  simp only [hcgx, Function.update_eq_self]

theorem cgwrite_store (writeOk : Bool) (d : CgDisk) (s : State) :
    (cgwrite writeOk (d.store s)).2.st.cgs
        = (if writeOk then Function.update d.st.cgs (s.cgs d.cg.cgx).cgx (s.cgs d.cg.cgx) else d.st.cgs)
      ∧ (cgwrite writeOk (d.store s)).2.st.csp = s.csp ∧ (cgwrite writeOk (d.store s)).2.st.cstotal = s.cstotal := by
  cases writeOk with
  | false => exact ⟨rfl, rfl, rfl⟩
  | true => exact ⟨rfl, rfl, rfl⟩

theorem cgbfree_of_read {a : Nat} {readOk : Bool} {d₁ : CgDisk} (writeOk : Bool) (size : Nat)
    (hread : cgread1 fs readOk d (cgbfreeGroup fs a) = some d₁) :
    cgbfree fs readOk writeOk d a size
      = cgwrite writeOk (d₁.store (cgbfreeStores fs d₁.mem (cgbfreeGroup fs a).toNat (fs.dtogd a) size)) := by
  unfold cgbfree
  rw [hread]

/-- What `cgbfree` leaves on the disk and in the summaries when it has read group `g`. -/
theorem cgbfree_read {a g : Nat} (writeOk : Bool) (size : Nat) (hgroup : cgbfreeGroup fs a = g) (hg : g < fs.ncg)
    (hcgx : (d.st.cgs g).cgx = g) :
    (cgbfree fs true writeOk d a size).2.st.cgs
        = (if writeOk then (cgbfreeStores fs d.st g (fs.dtogd a) size).cgs else d.st.cgs)
      ∧ (cgbfree fs true writeOk d a size).2.st.csp = (cgbfreeStores fs d.st g (fs.dtogd a) size).csp
      ∧ (cgbfree fs true writeOk d a size).2.st.cstotal = (cgbfreeStores fs d.st g (fs.dtogd a) size).cstotal := by
  have hread : cgread1 fs true d (cgbfreeGroup fs a) = some { d with cg := d.st.cgs g } := by
    unfold cgread1
    rw [hgroup, Int.toNat_natCast, if_pos ⟨rfl, Int.natCast_nonneg g, by exact_mod_cast hg, by exact_mod_cast hcgx⟩]
  have honly : OnlyGroup g d.st (cgbfreeStores fs d.st g (fs.dtogd a) size) := .stores d.st g _ size
  have hcgbfree : cgbfree fs true writeOk d a size
      = cgwrite writeOk (({ d with cg := d.st.cgs g } : CgDisk).store (cgbfreeStores fs d.st g (fs.dtogd a) size)) := by
    rw [cgbfree_of_read writeOk size hread, mem_of_read g hcgx, hgroup, Int.toNat_natCast]
  obtain ⟨hcgs, hcsp, htot⟩ := cgwrite_store writeOk { d with cg := d.st.cgs g }
    (cgbfreeStores fs d.st g (fs.dtogd a) size)
  rw [hcgbfree, hcgs, hcsp, htot, hcgx, honly.cgx, hcgx, ← honly.cgs_eq]
  exact ⟨rfl, rfl, rfl⟩

/-- A group that does not exist is not read. -/
theorem cgbfree_unread {a : Nat} (writeOk : Bool) (size : Nat) {readOk : Bool}
    (h : readOk = false ∨ ¬ (0 ≤ cgbfreeGroup fs a ∧ cgbfreeGroup fs a < fs.ncg)) :
    (cgbfree fs readOk writeOk d a size).2 = d := by
  have hread : cgread1 fs readOk d (cgbfreeGroup fs a) = none := by
    unfold cgread1
    refine if_neg ?_
    rintro ⟨hok, h0, hlt, -⟩
    obtain hfail | hout := h
    · rw [hfail] at hok
      cases hok
    · exact hout ⟨h0, hlt⟩
  unfold cgbfree
  rw [hread]

/-- `ffs_blkfree_cg` frees a range in use through the vnodes that it knows. -/
theorem ffsBlkfreeCg_stores {s : State} {a n : Nat} {devvp : Vtype} (h : FsOk fs s) (huse : InUse fs s a n)
    (hdev : devvp = .vreg ∨ devvp = .vchr) :
    ∃ s', ffsBlkfreeCg fs s devvp 0 a (n * fs.fsize) = .ok s' ∧
      SameBooks (cgbfreeStores fs s (fs.dtog a) (fs.dtogd a) (n * fs.fsize)) s' := by
  have hlay := (h.cg _ huse.cg).layout
  have hsize := hlay.ndblk_size
  have haddr := address_eq fs a
  have hle := huse.le
  have hpos := huse.pos
  have hstores : cgbfreeStores fs ((s.emit (.getcg (fs.dtog a))).emit .lock) (fs.dtog a) (fs.dtogd a) (n * fs.fsize)
      = ((cgbfreeStores fs s (fs.dtog a) (fs.dtogd a) (n * fs.fsize)).emit (.getcg (fs.dtog a))).emit .lock := by
    rw [stores_emit, stores_emit]
  rw [ffsBlkfreeCg_inRange hdev huse.cg (by omega)]
  simp only
  unfold cgbfreeStores at hstores ⊢
  by_cases hfull : n * fs.fsize = fs.bsize
  · -- no fragment of the block is free
    have hfree : ffsIsfreeblock fs (s.cgs (fs.dtog a)).blksfree (fs.fragstoblks (fs.dtogd a)) = true := by
      rw [ffsIsfreeblock_iff]
      intro j hj
      obtain ⟨hoff, -, -⟩ := dtogd_eq fs a
      have hn : n = fs.frag := Nat.eq_of_mul_eq_mul_right fs.fsize_pos (by rw [hfull, fs.bsize_eq])
      have hblock := huse.block
      have hq : fs.fragnum a = 0 := by omega
      rw [hq, Nat.add_zero] at hoff
      have hused := huse.used j (by omega)
      rwa [hoff] at hused
    rw [if_pos hfull, if_neg (by rw [hfree]; decide)]
    refine ⟨_, rfl, ?_⟩
    rw [if_pos hfull, if_pos hfull] at hstores
    rw [if_pos hfull, hstores]
    exact SameBooks.of_eq rfl rfl rfl
  · rw [if_neg hfull, if_neg (by
      rintro ⟨i, hi, hset⟩
      rw [numfrags_mul] at hi
      rw [huse.used i hi] at hset
      cases hset)]
    refine ⟨_, rfl, ?_⟩
    rw [if_neg hfull, if_neg hfull] at hstores
    rw [if_neg hfull, hstores]
    exact SameBooks.of_eq rfl rfl rfl

/-- A group number that is one. -/
theorem exists_group {a : Nat} (hin : 0 ≤ cgbfreeGroup fs a ∧ cgbfreeGroup fs a < fs.ncg) :
    ∃ g : Nat, cgbfreeGroup fs a = g ∧ g < fs.ncg := by
  obtain ⟨g, hg⟩ := Int.eq_ofNat_of_zero_le hin.1
  refine ⟨g, hg, ?_⟩
  have hlt := hin.2
  rw [hg] at hlt
  exact_mod_cast hlt

/-- Unless the right group is read and written, the group of `a` stays as it is. -/
theorem cgbfree_group_eq (hok : FsOk fs d.st) (hfpg : fs.fpg < 2 ^ 31) {a : Nat} {writeOk : Bool} (size : Nat)
    (h : ¬ (writeOk = true ∧ a < 2 ^ 31)) :
    (cgbfree fs true writeOk d a size).2.st.cgs (fs.dtog a) = d.st.cgs (fs.dtog a) := by
  by_cases hin : 0 ≤ cgbfreeGroup fs a ∧ cgbfreeGroup fs a < fs.ncg
  · obtain ⟨g, hg, hlt⟩ := exists_group hin
    rw [(cgbfree_read writeOk size hg hlt (hok.cg g hlt).layout.cgx).1]
    cases writeOk with
    | false => rfl
    | true =>
        have hne : fs.dtog a ≠ g := by
          intro heq
          rw [← heq] at hg
          exact h ⟨rfl, (cgbfreeGroup_iff hfpg a).mp hg⟩
        exact (OnlyGroup.stores d.st g (fs.dtogd a) size).other _ hne
  · rw [cgbfree_unread writeOk size (.inr hin)]

theorem cgbfree_same_iff (hok : FsOk fs d.st) (hfpg : fs.fpg < 2 ^ 31) {a n : Nat} (huse : InUse fs d.st a n)
    (devvp : Vtype) (readOk writeOk : Bool) {s' : State}
    (hkernel : ffsBlkfreeCg fs d.st devvp (if readOk then 0 else 5) a (n * fs.fsize) = .ok s') :
    SameBooks (cgbfree fs readOk writeOk d a (n * fs.fsize)).2.st s' ↔
      readOk = false ∨ (if devvp = .vreg ∨ devvp = .vchr then writeOk = true ∧ a < 2 ^ 31
        else ¬ (0 ≤ (toI32 a).tdiv fs.fpg ∧ (toI32 a).tdiv fs.fpg < fs.ncg)) := by
  cases readOk with
  | false =>
      rw [ffsBlkfreeCg_skipped fs d.st devvp _ a _ (.inr (by decide))] at hkernel
      cases hkernel
      rw [cgbfree_unread writeOk _ (.inl rfl)]
      exact iff_of_true (SameBooks.of_eq rfl rfl rfl) (.inl rfl)
  | true =>
      rw [if_pos rfl] at hkernel
      by_cases hdev : devvp = .vreg ∨ devvp = .vchr
      · rw [if_pos hdev]
        constructor
        · intro hsame
          by_contra hnot
          rw [not_or] at hnot
          -- the kernel has freed the first fragment, and `cgbfree` has not
          obtain ⟨t, ht, hfreed⟩ := ffsBlkfreeCg_freed devvp hok huse hdev
          obtain rfl : t = s' := Except.ok.inj (ht.symm.trans hkernel)
          have hused := huse.used 0 huse.pos
          have hmap := hsame.blksfree (fs.dtog a)
          have hgave := hfreed.gave (fs.dtogd a)
          rw [decide_eq_true ⟨Nat.le_refl _, Nat.lt_add_of_pos_right huse.pos⟩, Bool.true_or] at hgave
          rw [cgbfree_group_eq hok hfpg _ hnot.2] at hmap
          rw [Nat.add_zero, hmap, hgave] at hused
          cases hused
        · intro h
          obtain ⟨hw, hlt⟩ : writeOk = true ∧ a < 2 ^ 31 := h.resolve_left (by decide)
          obtain ⟨t, ht, hstores⟩ := ffsBlkfreeCg_stores hok huse hdev
          obtain rfl : t = s' := Except.ok.inj (ht.symm.trans hkernel)
          obtain ⟨hcgs, hcsp, htot⟩ := cgbfree_read writeOk (n * fs.fsize) ((cgbfreeGroup_iff hfpg a).mpr hlt)
            huse.cg (hok.cg _ huse.cg).layout.cgx
          rw [if_pos hw] at hcgs
          refine ⟨fun g => ?_, fun g => ?_, fun g => ?_, ?_, ?_⟩
          · rw [hcgs, hstores.blksfree]
          · rw [hcgs, hstores.clustersfree]
          · rw [hcgs, hstores.cs]
          · rw [hcsp, hstores.csp]
          · rw [htot, hstores.cstotal]
      · rw [if_neg hdev]
        rw [ffsBlkfreeCg_skipped fs d.st devvp _ a _ (.inl (not_or.mp hdev))] at hkernel
        cases hkernel
        constructor
        · intro hsame
          refine .inr fun hin => ?_
          obtain ⟨g, hg, hlt⟩ := exists_group hin
          have htot := (cgbfree_read writeOk (n * fs.fsize) hg hlt (hok.cg g hlt).layout.cgx).2.2
          exact stores_cstotal d.st g (fs.dtogd a) huse.pos (htot.symm.trans hsame.cstotal)
        · intro h
          rw [cgbfree_unread writeOk _ (.inr (h.resolve_left (by decide)))]
          exact SameBooks.of_eq rfl rfl rfl

/-! ### `cgballoc` -/

/-- The file system with the group in memory in its place is consistent. -/
structure Consistent (fs : Fs) (d : CgDisk) : Prop where
  lt : d.cg.cgx < fs.ncg
  blocks : FsOk fs d.mem
  inodes : InoOk fs d.mem

theorem mem_cgs (d : CgDisk) : d.mem.cgs d.cg.cgx = d.cg := Function.update_self ..

theorem mem_store {s : State} (honly : OnlyGroup d.cg.cgx d.mem s) : (d.store s).mem = s := by
  have hcgx := honly.cgx
  rw [mem_cgs] at hcgx
  have hcgs := honly.cgs_eq
  have hmem : d.mem.cgs = Function.update d.st.cgs d.cg.cgx d.cg := rfl
  rw [hmem, Function.update_idem] at hcgs
  unfold CgDisk.store CgDisk.mem State.setCg
  simp only [hcgx, ← hcgs]

theorem store_cgx {s : State} (honly : OnlyGroup d.cg.cgx d.mem s) : (d.store s).cg.cgx = d.cg.cgx := by
  have hcgx := honly.cgx
  rw [mem_cgs] at hcgx
  exact hcgx

theorem OnlyGroup.takeBlock (s : State) (cg cgx b : Nat) : OnlyGroup cg s (takeBlock fs s cg cgx b) :=
  ((modCg s cg _ fun _ => by rfl).trans (clusteracct _ cg b (-1))).trans (of_update rfl rfl)

/-- What the inode invariant reads of a group. -/
def inoPart (c : Cg) : Bitmap × Nat × Nat × Nat × Int × Int :=
  (c.inosused, c.irotor, c.niblk, c.initediblk, c.cs.nifree, c.cs.ndir)

/-- The inodes and their counts have not changed. -/
structure InodesSame (s s' : State) : Prop where
  part : ∀ g, inoPart (s'.cgs g) = inoPart (s.cgs g)
  csp_nifree : ∀ g, (s'.csp g).nifree = (s.csp g).nifree
  csp_ndir : ∀ g, (s'.csp g).ndir = (s.csp g).ndir
  nifree : s'.cstotal.nifree = s.cstotal.nifree
  ndir : s'.cstotal.ndir = s.cstotal.ndir

namespace InodesSame

variable {s s' s'' : State}

theorem trans (h : InodesSame s s') (h' : InodesSame s' s'') : InodesSame s s'' :=
  ⟨fun g => (h'.part g).trans (h.part g), fun g => (h'.csp_nifree g).trans (h.csp_nifree g),
    fun g => (h'.csp_ndir g).trans (h.csp_ndir g), h'.nifree.trans h.nifree, h'.ndir.trans h.ndir⟩

theorem update_part {cgs : Nat → Cg} {cg : Nat} {c' : Cg} (hpart : inoPart c' = inoPart (cgs cg)) (g : Nat) :
    inoPart (Function.update cgs cg c' g) = inoPart (cgs g) := by
  by_cases hg : g = cg
  · rw [hg, Function.update_self, hpart]
  · rw [Function.update_of_ne hg]

theorem clusteracct (fs : Fs) (s : State) (cg b : Nat) (cnt : Int) : InodesSame s (ffsClusteracct fs s cg b cnt) := by
  unfold ffsClusteracct
  split
  · exact ⟨fun _ => rfl, fun _ => rfl, fun _ => rfl, rfl, rfl⟩
  · exact ⟨update_part rfl, fun _ => rfl, fun _ => rfl, rfl, rfl⟩

theorem addNbfree (s : State) (cg cgx : Nat) (n : Int) : InodesSame s (s.addNbfree cg cgx n) := by
  refine ⟨update_part rfl, fun g => ?_, fun g => ?_, rfl, rfl⟩
  · by_cases hg : g = cgx <;> simp [State.addNbfree, hg]
  · by_cases hg : g = cgx <;> simp [State.addNbfree, hg]

theorem takeBlock (s : State) (cg cgx b : Nat) : InodesSame s (takeBlock fs s cg cgx b) := by
  have hmap : InodesSame s (s.modCg cg fun c => { c with blksfree := ffsClrblock fs c.blksfree b }) :=
    ⟨update_part rfl, fun _ => rfl, fun _ => rfl, rfl, rfl⟩
  have hall := (hmap.trans (clusteracct fs _ cg b (-1))).trans (addNbfree _ cg cgx (-1))
  exact ⟨hall.part, hall.csp_nifree, hall.csp_ndir, hall.nifree, hall.ndir⟩

/-- Then the inode invariant holds as before. -/
theorem ok (h : InodesSame s s') (hino : InoOk fs s) : InoOk fs s' := by
  have hpart : ∀ g, (s'.cgs g).inosused = (s.cgs g).inosused ∧ (s'.cgs g).irotor = (s.cgs g).irotor
      ∧ (s'.cgs g).niblk = (s.cgs g).niblk ∧ (s'.cgs g).initediblk = (s.cgs g).initediblk
      ∧ (s'.cgs g).cs.nifree = (s.cgs g).cs.nifree ∧ (s'.cgs g).cs.ndir = (s.cgs g).cs.ndir := by
    intro g
    have hg := h.part g
    simp only [inoPart, Prod.mk.injEq] at hg
    exact hg
  refine ⟨fun g hg => ?_, fun g hg => ?_, fun g hg => ?_, ?_, ?_, ?_⟩
  · obtain ⟨hmap, hrotor, hniblk, hini, hnifree, -⟩ := hpart g
    obtain ⟨hn, hr, hi⟩ := hino.group g hg
    refine ⟨by rw [hnifree, hmap, hn], by rw [hrotor]; exact hr, fun h2 => ?_⟩
    obtain ⟨h3, h4, h5, h6⟩ := hi h2
    exact ⟨by rw [hniblk, h3], by rw [hini, hniblk]; exact h4, by rw [hini]; exact h5, by rw [hmap, hini]; exact h6⟩
  · rw [h.csp_nifree, hino.csp_nifree g hg, (hpart g).2.2.2.2.1]
  · rw [h.csp_ndir, hino.csp_ndir g hg, (hpart g).2.2.2.2.2]
  · rw [h.nifree, hino.nifree]
    exact sum_congr rfl fun g _ => (hpart g).2.2.2.2.1.symm
  · rw [h.ndir, hino.ndir]
    exact sum_congr rfl fun g _ => (hpart g).2.2.2.2.2.symm
  · rw [(hpart 0).1]
    exact hino.zero

end InodesSame

/-- `cgballoc` hands out a block of the group that was free, and keeps the file system
consistent. -/
structure BallocOk (fs : Fs) (d : CgDisk) (r : Nat × CgDisk) : Prop where
  ok : Consistent fs r.2
  result : AllocResult fs d.mem d.cg.cgx fs.frag (r.1, r.2.mem)

theorem cgballoc_spec (h : Consistent fs d) : BallocOk fs d (cgballoc fs d) := by
  unfold cgballoc
  cases hfind : (List.range fs.nblk).find? fun bno => ffsIsblock fs d.cg.blksfree bno with
  | none => exact ⟨h, .inl ⟨rfl, h.blocks, fun _ => ⟨rfl, rfl⟩⟩⟩
  | some b =>
      have hb : b < fs.nblk := List.mem_range.mp (List.mem_of_find?_eq_some hfind)
      have hfree : ffsIsblock fs d.cg.blksfree b = true := List.find?_some hfind
      have hw : whole fs (blkBits fs (d.mem.cgs d.cg.cgx).blksfree b) = true := by
        rw [mem_cgs, ← ffsIsblock_eq_whole, hfree]
      have hsame : d.mem.setCg d.cg.cgx (d.mem.cgs d.cg.cgx) = d.mem := by
        rw [State.setCg, Function.update_eq_self]
      have hpos : 0 < fs.numfrags fs.bsize := by
        rw [numfrags_bsize]
        exact fs.frag_pos
      obtain ⟨s', htake, halloc⟩ := alloccgblkTake_allocd h.blocks h.lt
        (stepped_setCg (d.mem.cgs d.cg.cgx) (h.blocks.csp _ h.lt) rfl) (h.blocks.cg _ h.lt) rfl rfl hb hw
        hpos numfrags_bsize.le
      rw [hsame] at htake
      unfold alloccgblkTake at htake
      simp only [fs.fragstoblks_mul, mem_cgs, numfrags_bsize, ne_eq, not_true_eq_false, if_false, Prod.mk.injEq,
        true_and] at htake
      have honly : OnlyGroup d.cg.cgx d.mem (takeBlock fs d.mem d.cg.cgx d.cg.cgx b) := .takeBlock d.mem _ _ b
      have hmem := mem_store honly
      have halloc' : Allocd fs d.mem (takeBlock fs d.mem d.cg.cgx d.cg.cgx b) d.cg.cgx (b * fs.frag) fs.frag := by
        rw [← htake, numfrags_bsize] at halloc
        exact halloc.congr rfl rfl rfl rfl
      refine ⟨⟨by rw [store_cgx honly]; exact h.lt, by rw [hmem]; exact halloc'.ok, ?_⟩, .inr ⟨b * fs.frag, rfl, ?_, ?_⟩⟩
      · rw [hmem]
        exact (InodesSame.takeBlock d.mem d.cg.cgx d.cg.cgx b).ok h.inodes
      · rw [hmem]
        exact halloc'
      · rw [Nat.mul_mod_left, Nat.min_self, Nat.zero_add]

/-! ### `cgialloc` -/

theorem stepped_addNifree {s : State} {cg : Nat} (hcsp : s.csp cg = (s.cgs cg).cs) (n : Int) :
    Stepped s (s.addNifree cg n) cg
      { s.cgs cg with cs := { (s.cgs cg).cs with nifree := (s.cgs cg).cs.nifree + n } } := by
  refine ⟨rfl, fun g => ?_, ?_, ?_, ?_, ?_⟩
  · simp only [State.addNifree, Function.update_apply]
    split_ifs
    · rw [hcsp]
    · rfl
  all_goals simp only [State.addNifree]; omega

/-- The blocks of a group do not depend on its inodes. -/
theorem CgOk.inodes {cg : Nat} {c : Cg} (h : CgOk fs cg c) (inosused : Bitmap) (irotor : Nat) (nifree : Int) :
    CgOk fs cg { c with inosused, irotor, cs := { c.cs with nifree } } :=
  ⟨⟨h.layout.cgx, h.layout.ndblk_le, h.layout.ndblk_size, h.layout.beyond, h.layout.frotor, h.layout.nclusterblks⟩,
    h.nbfree, h.nffree, h.frsum, h.clusters⟩

theorem cgiallocTake_stepped {s : State} {cg : Nat} (hcsp : s.csp cg = (s.cgs cg).cs) (ino : Nat) :
    Stepped s (cgiallocTake s cg ino) cg { s.cgs cg with
      inosused := (s.cgs cg).inosused.setbit ino
      irotor := ino
      cs := { (s.cgs cg).cs with nifree := (s.cgs cg).cs.nifree + (-1) } } := by
  have h1 := stepped_setCg { s.cgs cg with
      inosused := (s.cgs cg).inosused.setbit ino
      irotor := ino } hcsp rfl
  have h2 := h1.trans (stepped_addNifree h1.csp_self (-1))
  rw [h1.cgs_self] at h2
  exact h2.congr _ rfl rfl rfl

theorem cgiallocTake_moves (s : State) (cg ino : Nat) : InoMoves cg s (cgiallocTake s cg ino) := by
  have hmap : InoMoves cg s (s.modCg cg fun c => { c with inosused := c.inosused.setbit ino, irotor := ino }) :=
    InoMoves.modCg _ fun _ => by rfl
  have hall := hmap.trans (InoMoves.addNifree (-1))
  exact ⟨hall.cgs, hall.csp_nifree, hall.csp_ndir, hall.nifree, hall.ndir⟩

/-- `cgialloc` keeps the file system consistent and hands out an inode of the group that was
free, in an initialized block, or takes none; a block of new inodes is written at its byte
address. -/
structure IallocOk (fs : Fs) (d : CgDisk) (r : IallocResult) : Prop where
  ok : Consistent fs r.disk
  none : r.ino = 0 → r.disk = d
  inode : r.ino ≠ 0 → ∃ i < fs.ipg, r.ino = d.cg.cgx * fs.ipg + i ∧ d.cg.inosused.isclr i = true
    ∧ r.disk.cg.inosused.isset i = true ∧ (fs.magic = .ufs2 → i < r.disk.cg.initediblk)
  written : ∀ offset, r.written = some offset →
    offset = fs.inoToFsba (d.cg.cgx * fs.ipg + d.cg.initediblk) * fs.fsize

/-- The first free inode of the group lies in a block that is not initialized. -/
def BlockDue (fs : Fs) (d : CgDisk) : Prop := ∃ ino, firstFree fs d.cg = some ino ∧ inodeBlockDue fs d.cg ino = true

/-- It lies in an initialized block. -/
def InodeReady (fs : Fs) (d : CgDisk) : Prop := ∃ ino, firstFree fs d.cg = some ino ∧ ¬ inodeBlockDue fs d.cg ino = true

/-- The number of the first inode of the block that is due. -/
def firstDue (fs : Fs) (d : CgDisk) : Nat := d.cg.cgx * fs.ipg + d.cg.initediblk

/-- The fragment address of that block is its address on the device. Where the number wraps, the
address is that of another block. -/
def BlockAt (fs : Fs) (d : CgDisk) : Prop :=
  if firstDue fs d < 2 ^ 32 then fs.fsbtodb = 0 ∨ fs.inoToFsba (firstDue fs d) = 0
  else fs.inoToFsba (firstDue fs d % 2 ^ 32) = fs.inoToFsba (firstDue fs d) * 2 ^ fs.fsbtodb

theorem firstFree_spec {c : Cg} {ino : Nat} (h : firstFree fs c = some ino) : ino < fs.ipg ∧ c.inosused.isclr ino = true :=
  ⟨List.mem_range.mp (List.mem_of_find?_eq_some h), by simpa using List.find?_some h⟩

/-- The number of an inode in 32 bits. -/
theorem toU32_toNat (n : Nat) : (toU32 n).toNat = n % 2 ^ 32 := by
  unfold toU32
  omega

/-- A block that would have to be written first: no inode is handed out, whether the write
succeeds or not. -/
theorem cgialloc_due {ino : Nat} (writeOk : Bool) (hfind : firstFree fs d.cg = some ino)
    (hdue : inodeBlockDue fs d.cg ino = true) :
    cgialloc fs writeOk d
      = ⟨0, d, if writeOk then some (blockOffset fs (fs.inoToFsba (firstDue fs d % 2 ^ 32))) else none⟩ := by
  have hret : (if writeOk then (fs.bsize : Int) else -1) ≠ 0 := by
    have hb : 0 < fs.bsize := Nat.two_pow_pos _
    split <;> omega
  have hfirst : (toU32 (d.cg.cgx * fs.ipg + d.cg.initediblk)).toNat = firstDue fs d % 2 ^ 32 := by
    rw [← toU32_toNat]
    unfold firstDue
    push_cast
    rfl
  unfold cgialloc
  simp only [hfind, if_pos hdue, if_pos hret, hfirst]

/-- Without that, the inode is taken. -/
theorem cgialloc_ready {ino : Nat} (writeOk : Bool) (hfind : firstFree fs d.cg = some ino)
    (hdue : ¬ inodeBlockDue fs d.cg ino = true) :
    cgialloc fs writeOk d
      = ⟨ino + d.cg.cgx * fs.ipg % 2 ^ 32, d.store (cgiallocTake d.mem d.cg.cgx ino), none⟩ := by
  have hbase : (toU32 (d.cg.cgx * fs.ipg)).toNat = d.cg.cgx * fs.ipg % 2 ^ 32 := by
    rw [← toU32_toNat]
    push_cast
    rfl
  unfold cgialloc
  simp only [hfind, if_neg hdue, hbase]

theorem cgialloc_take {ino : Nat} (writeOk : Bool) (h : Consistent fs d) (hfind : firstFree fs d.cg = some ino)
    (hdue : ¬ inodeBlockDue fs d.cg ino = true) (hnum : d.cg.cgx * fs.ipg < 2 ^ 32) :
    IallocOk fs d (cgialloc fs writeOk d) := by
  obtain ⟨hlt, hclr⟩ := firstFree_spec hfind
  have heq := cgialloc_ready writeOk hfind hdue
  rw [Nat.mod_eq_of_lt hnum] at heq
  have honly : OnlyGroup d.cg.cgx d.mem (cgiallocTake d.mem d.cg.cgx ino) :=
    (OnlyGroup.modCg d.mem _ _ fun _ => by rfl).trans (.of_update rfl rfl)
  have hst := cgiallocTake_stepped (h.blocks.csp _ h.lt) ino
  have hgroup := h.inodes.group _ h.lt
  have hcg := hst.cgs_self
  rw [mem_cgs] at hgroup hcg
  -- either the block of the inode is initialized, or all blocks are
  have hinited : fs.magic = .ufs2 → ino < d.cg.initediblk := by
    intro h2
    obtain ⟨hn, hle, -, -⟩ := hgroup.inited h2
    have hpos := fs.inopb_pos
    simp only [inodeBlockDue, h2, true_and, decide_eq_true_eq] at hdue
    omega
  rw [heq]
  refine ⟨⟨by rw [store_cgx honly]; exact h.lt, ?_, ?_⟩, fun hnone : ino + d.cg.cgx * fs.ipg = 0 => ?_,
    fun _ => ⟨ino, hlt, Nat.add_comm .., hclr, ?_, ?_⟩, fun offset hw => by cases hw⟩
  · rw [mem_store honly]
    have hcgok := h.blocks.cg _ h.lt
    exact h.blocks.step h.lt hst (CgOk.inodes hcgok _ _ _)
  · rw [mem_store honly]
    refine h.inodes.moves h.lt (cgiallocTake_moves d.mem _ ino) ?_ fun h0 => ?_
    · rw [hcg]
      exact setbit_ok hgroup hlt hclr hinited ⟨rfl, rfl, rfl, rfl, rfl⟩
    · have hzero := h.inodes.zero
      have hmem := mem_cgs d
      rw [h0] at hmem
      rw [hmem] at hzero
      rw [hcg, Bitmap.isset_setbit, hzero, Bool.or_true]
  · -- inode 0 is in use
    have hpos := fs.ipg_pos
    have hino : ino = 0 := by omega
    have hcgx : d.cg.cgx = 0 := by
      have hprod : d.cg.cgx * fs.ipg = 0 := by omega
      exact (Nat.mul_eq_zero.mp hprod).resolve_right hpos.ne'
    have hzero := h.inodes.zero
    have hmem := mem_cgs d
    rw [hcgx] at hmem
    rw [hmem] at hzero
    rw [hino, Bitmap.isclr, hzero] at hclr
    cases hclr
  · show ((cgiallocTake d.mem d.cg.cgx ino).cgs d.cg.cgx).inosused.isset ino = true
    rw [hcg, Bitmap.isset_setbit, decide_eq_true rfl, Bool.true_or]
  · show fs.magic = .ufs2 → ino < ((cgiallocTake d.mem d.cg.cgx ino).cgs d.cg.cgx).initediblk
    rw [hcg]
    exact hinited

/-- A block goes where it belongs when device blocks are fragments. -/
theorem blockOffset_eq_iff (f : Int) : blockOffset fs f = f * fs.fsize ↔ fs.fsbtodb = 0 ∨ f = 0 := by
  have hmul := dBsize_mul fs
  have hpos : (0 : Int) < fs.fsize := by exact_mod_cast fs.fsize_pos
  unfold blockOffset
  constructor
  · intro heq
    by_cases hf : f = 0
    · exact .inr hf
    · have hsize : dBsize fs = fs.fsize := Int.eq_of_mul_eq_mul_left hf heq
      rw [hsize] at hmul
      have hone : (2 : Int) ^ fs.fsbtodb = 1 := by
        refine Int.eq_of_mul_eq_mul_right hpos.ne' ?_
        rw [hmul, Int.one_mul]
      refine .inl ?_
      by_contra hk
      have htwo : (2 : Int) ^ 1 ≤ 2 ^ fs.fsbtodb := by
        exact_mod_cast Nat.pow_le_pow_right (by decide : 0 < 2) (Nat.pos_of_ne_zero hk)
      omega
  · rintro (hk | hf)
    · rw [hk, Int.pow_zero, Int.one_mul] at hmul
      rw [hmul]
    · rw [hf, Int.zero_mul, Int.zero_mul]

/-- The block that is due is written where it belongs. -/
theorem blockAt_iff : blockOffset fs (fs.inoToFsba (firstDue fs d % 2 ^ 32)) = fs.inoToFsba (firstDue fs d) * fs.fsize
    ↔ BlockAt fs d := by
  unfold BlockAt
  split
  case isTrue hlt => rw [Nat.mod_eq_of_lt hlt, blockOffset_eq_iff]
  case isFalse =>
      have hmul := dBsize_mul fs
      have hpos : (0 : Int) < fs.fsize := by exact_mod_cast fs.fsize_pos
      have hsize : dBsize fs ≠ 0 := by
        intro hzero
        rw [hzero, Int.mul_zero] at hmul
        omega
      unfold blockOffset
      rw [← hmul, ← Int.mul_assoc]
      exact ⟨Int.eq_of_mul_eq_mul_right hsize, fun heq => by rw [heq]⟩

/-- A number that wraps is not that of the inode taken. -/
theorem number_lt (hipg : fs.ipg < 2 ^ 32) {ino : Nat} {writeOk : Bool} (hok : Consistent fs d) (hfind : firstFree fs d.cg = some ino)
    (hdue : ¬ inodeBlockDue fs d.cg ino = true) (h : IallocOk fs d (cgialloc fs writeOk d)) :
    d.cg.cgx * fs.ipg < 2 ^ 32 := by
  obtain ⟨hlt, hclr⟩ := firstFree_spec hfind
  by_contra hwrap
  rw [cgialloc_ready writeOk hfind hdue] at h
  by_cases hino : ino + d.cg.cgx * fs.ipg % 2 ^ 32 = 0
  · -- 0 stands for no inode, but one has been taken
    have hsame : (d.store (cgiallocTake d.mem d.cg.cgx ino)).cg.inosused = d.cg.inosused :=
      congrArg (fun d' : CgDisk => d'.cg.inosused) (h.none hino)
    have hset : (d.store (cgiallocTake d.mem d.cg.cgx ino)).cg.inosused.isset ino = true := by
      show ((cgiallocTake d.mem d.cg.cgx ino).cgs d.cg.cgx).inosused.isset ino = true
      rw [(cgiallocTake_stepped (hok.blocks.csp _ hok.lt) ino).cgs_self, Bitmap.isset_setbit, decide_eq_true rfl,
        Bool.true_or]
    rw [hsame] at hset
    rw [Bitmap.isclr, hset] at hclr
    cases hclr
  · obtain ⟨i, hi, heq : ino + d.cg.cgx * fs.ipg % 2 ^ 32 = d.cg.cgx * fs.ipg + i, -⟩ := h.inode hino
    have hmod := Nat.mod_add_div (d.cg.cgx * fs.ipg) (2 ^ 32)
    have hone : 1 ≤ d.cg.cgx * fs.ipg / 2 ^ 32 := (Nat.one_le_div_iff (by decide)).mpr (not_lt.mp hwrap)
    omega

theorem cgialloc_iff (hipg : fs.ipg < 2 ^ 32) (writeOk : Bool) (h : Consistent fs d) :
    IallocOk fs d (cgialloc fs writeOk d)
      ↔ (BlockDue fs d → writeOk = true → BlockAt fs d) ∧ (InodeReady fs d → d.cg.cgx * fs.ipg < 2 ^ 32) := by
  cases hfind : firstFree fs d.cg with
  | none =>
      have heq : cgialloc fs writeOk d = ⟨0, d, none⟩ := by
        unfold cgialloc
        simp only [hfind]
      rw [heq]
      refine iff_of_true ⟨h, fun _ => rfl, fun hne => absurd rfl hne, fun _ hw => by cases hw⟩ ⟨?_, ?_⟩
      · rintro ⟨ino, hsome, -⟩
        rw [hfind] at hsome
        cases hsome
      · rintro ⟨ino, hsome, -⟩
        rw [hfind] at hsome
        cases hsome
  | some ino =>
      by_cases hdue : inodeBlockDue fs d.cg ino = true
      · have hready : ¬ InodeReady fs d := by
          rintro ⟨i, hi, hno⟩
          rw [hfind] at hi
          cases hi
          exact hno hdue
        rw [cgialloc_due writeOk hfind hdue, and_iff_left fun hr => absurd hr hready,
          forall_prop_of_true (p := BlockDue fs d) ⟨ino, hfind, hdue⟩]
        cases writeOk with
        | false => exact iff_of_true ⟨h, fun _ => rfl, fun hne => absurd rfl hne, fun _ hw => by cases hw⟩ nofun
        | true =>
            rw [forall_prop_of_true rfl, ← blockAt_iff]
            exact ⟨fun hok => hok.written _ rfl, fun hoff =>
              ⟨h, fun _ => rfl, fun hne => absurd rfl hne, fun offset hw => hoff ▸ (Option.some.inj hw).symm⟩⟩
      · have hnodue : ¬ BlockDue fs d := by
          rintro ⟨i, hi, hyes⟩
          rw [hfind] at hi
          cases hi
          exact hdue hyes
        rw [and_iff_right fun hd => absurd hd hnodue, forall_prop_of_true (p := InodeReady fs d) ⟨ino, hfind, hdue⟩]
        exact ⟨number_lt hipg h hfind hdue, cgialloc_take writeOk h hfind hdue⟩

/-! ### The three functions -/

/-- `cgbfree` against the kernel, for every range in use, and what `cgballoc` and `cgialloc`
promise. `fs_fpg` is an `int32_t`, `fs_ipg` a `uint32_t`. -/
theorem libufs_cgroup (fs : Fs) (hfpg : fs.fpg < 2 ^ 31) (hipg : fs.ipg < 2 ^ 32) (d : CgDisk) (devvp : Vtype)
    (readOk writeOk : Bool) :
    (∀ (a n : Nat) (s' : State), FsOk fs d.st → InUse fs d.st a n →
      ffsBlkfreeCg fs d.st devvp (if readOk then 0 else 5) a (n * fs.fsize) = .ok s' →
        (SameBooks (cgbfree fs readOk writeOk d a (n * fs.fsize)).2.st s' ↔
          readOk = false ∨ (if devvp = .vreg ∨ devvp = .vchr then writeOk = true ∧ a < 2 ^ 31
            else ¬ (0 ≤ (toI32 a).tdiv fs.fpg ∧ (toI32 a).tdiv fs.fpg < fs.ncg))))
      ∧ (Consistent fs d → BallocOk fs d (cgballoc fs d))
      ∧ (Consistent fs d → (IallocOk fs d (cgialloc fs writeOk d) ↔
          (BlockDue fs d → writeOk = true → BlockAt fs d) ∧ (InodeReady fs d → d.cg.cgx * fs.ipg < 2 ^ 32))) :=
  ⟨fun _ _ _ hok huse hkernel => cgbfree_same_iff hok hfpg huse devvp readOk writeOk hkernel, cgballoc_spec,
    cgialloc_iff hipg writeOk⟩

/-! ### A small disk and a large one -/

/-- The group of `inoState` is in memory. -/
def inoDisk : CgDisk := ⟨inoState, inoCg⟩

theorem cgOk_inoCg : CgOk inoFs 0 inoCg := by
  have hmap : CgOk inoFs 0 (Cg.ofMap inoFs 0 16 (Bitmap.ofFun fun i => decide (2 ≤ i ∧ i < 16))) := by
    refine cgOk_ofMap (by decide) fun i hlo _ => ?_
    rw [Bitmap.isset_ofFun, decide_eq_false]
    have hfpg : inoFs.fpg = 16 := rfl
    omega
  exact ⟨⟨rfl, hmap.layout.ndblk_le, hmap.layout.ndblk_size, hmap.layout.beyond, hmap.layout.frotor,
    hmap.layout.nclusterblks⟩, hmap.nbfree, hmap.nffree, hmap.frsum, hmap.clusters⟩

theorem fsOk_inoState : FsOk inoFs inoState where
  cg g hg := by
    obtain rfl : g = 0 := Nat.lt_one_iff.mp hg
    exact cgOk_inoCg
  csp _ _ := rfl
  ndir := rfl
  nbfree := rfl
  nifree := rfl
  nffree := rfl

theorem mem_inoDisk : inoDisk.mem = inoState := by
  unfold CgDisk.mem State.setCg
  have hself : Function.update inoState.cgs 0 (inoState.cgs 0) = inoState.cgs := Function.update_eq_self ..
  exact congrArg (fun cgs => { inoState with cgs := cgs }) hself

theorem consistent_inoDisk : Consistent inoFs inoDisk where
  lt := by decide
  blocks := by
    rw [mem_inoDisk]
    exact fsOk_inoState
  inodes := by
    rw [mem_inoDisk]
    exact inoOk_inoState

/-- The first block is in use. -/
theorem inUse_inoState : InUse inoFs inoState 0 2 where
  pos := by decide
  block := by decide
  cg := by decide
  le := by decide
  used i hi := by
    show (Bitmap.ofFun fun i => decide (2 ≤ i ∧ i < 16)).isset (0 + i) = false
    rw [Bitmap.isset_ofFun, Nat.zero_add, decide_eq_false]
    omega

/-- The first block is freed, a block is allocated, and an inode is not, as the write of its
block fails. -/
theorem libufs_cgroup_small : (∃ s', ffsBlkfreeCg inoFs inoState .vchr 0 0 (2 * inoFs.fsize) = .ok s' ∧
      SameBooks (cgbfree inoFs true true inoDisk 0 (2 * inoFs.fsize)).2.st s') ∧
    BallocOk inoFs inoDisk (cgballoc inoFs inoDisk) ∧ IallocOk inoFs inoDisk (cgialloc inoFs false inoDisk) := by
  have hfpg : inoFs.fpg < 2 ^ 31 := by decide
  obtain ⟨s', hkernel, -⟩ := ffsBlkfreeCg_freed .vchr fsOk_inoState inUse_inoState (.inr rfl)
  obtain ⟨hfree, hballoc, -⟩ := libufs_cgroup inoFs hfpg (by decide) inoDisk .vchr true true
  obtain ⟨-, -, hialloc⟩ := libufs_cgroup inoFs hfpg (by decide) inoDisk .vchr true false
  refine ⟨⟨s', hkernel, ?_⟩, hballoc consistent_inoDisk, ?_⟩
  · exact (hfree 0 2 s' fsOk_inoState inUse_inoState hkernel).mpr (.inr ⟨rfl, by decide⟩)
  · exact (hialloc consistent_inoDisk).mpr ⟨fun _ => nofun, fun _ => by decide⟩

theorem high_dvd : 2 ^ 1 ∣ 2 ^ 14 := by decide

theorem high_ncg_lt : 2 ^ 18 < 2 ^ 32 := by decide

theorem high_size_lt : Magic.ufs2 = .ufs1 → 2 ^ 32 < 2 ^ 31 := fun h => by cases h

/-- `2 ^ 32` fragments, in `2 ^ 18` groups. -/
def highFs : Fs :=
  { tinyFs with
    size := 2 ^ 32, ncg := 2 ^ 18, fpg := 2 ^ 14, ipg := 64
    fpg_pos := Nat.two_pow_pos _, frag_dvd_fpg := high_dvd, ncg_pos := Nat.two_pow_pos _, ncg_lt := high_ncg_lt
    ipg_pos := Nat.two_pow_pos 6, size_lt := high_size_lt }

/-- Every block is in use. -/
def highDisk : CgDisk := ⟨State.ofMaps highFs fun _ _ => 0#8, Cg.ofMap highFs 0 highFs.fpg fun _ => 0#8⟩

theorem isset_zero (i : Nat) : Bitmap.isset (fun _ => 0#8) i = false := by
  unfold Bitmap.isset
  simp

theorem cgbfree_high : ¬ ∀ (fs : Fs) (d : CgDisk) (a n : Nat) (s' : State), fs.magic = .ufs2 → fs.fpg < 2 ^ 31 →
    InoGeometry fs → FsOk fs d.st → InUse fs d.st a n → ffsBlkfreeCg fs d.st .vchr 0 a (n * fs.fsize) = .ok s' →
      SameBooks (cgbfree fs true true d a (n * fs.fsize)).2.st s' := by
  intro hall
  have hok : FsOk highFs highDisk.st := fsOk_ofMaps (by decide) fun _ _ i _ _ => isset_zero i
  have huse : InUse highFs highDisk.st (2 ^ 31) 2 :=
    ⟨by decide, by decide, by decide, by decide, fun i _ => isset_zero _⟩
  have hfpg : highFs.fpg < 2 ^ 31 := by decide
  obtain ⟨s', hkernel, -⟩ := ffsBlkfreeCg_freed .vchr hok huse (.inr rfl)
  have hsame := hall highFs highDisk _ _ s' rfl hfpg ⟨by decide, by decide, by decide⟩ hok huse hkernel
  obtain hread | hlow := (cgbfree_same_iff hok hfpg huse .vchr true true hkernel).mp hsame
  · cases hread
  · exact absurd hlow.2 (by decide)

end UfsX.Proofs.LibufsCgroup
