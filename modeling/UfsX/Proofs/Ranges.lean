import UfsX.Ffs.Handle
import UfsX.Proofs.Discipline
import UfsX.Proofs.LibufsCgroup

/-!
# `UfsX.Proofs.Ranges`: what is out of range

`ffs_blkfree_cg` looks at the low 32 bits of a block number, and computes the group with its
own 32 bits of the quotient. `blkfree_exact_iff` says which block numbers outside of the file
system get through to the maps. The four tests of inode numbers compare with a product of
32-bit numbers (`ino_exact_iff`).
-/

set_option autoImplicit false

namespace UfsX.Proofs.Ranges

open UfsX.Lib UfsX.Ffs UfsX.Libufs UfsX.Proofs.LibufsCgroup
open UfsX.Ffs.Handle (Ufid InoState ffsFhtovp ufsFhtovp)

variable {fs : Fs}

/-! ### Blocks -/

/-- A block number is none of the file system's. -/
def Outside (fs : Fs) (bno : Int) : Prop := bno < 0 ∨ (fs.size : Int) ≤ bno

/-- Outside of the file system nothing is freed; inside, only the group of the block
changes, and it is a group. `n` is the number of fragments. -/
def BlkfreeExact (fs : Fs) (s : State) (devvp : Vtype) (gerr : Nat) (bno : Int) (n : Nat) : Prop :=
  (Outside fs bno → ∃ s', ffsBlkfreeCg fs s devvp gerr bno (n * fs.fsize) = .ok s' ∧ MapsKept s s') ∧
    (¬ Outside fs bno → fs.dtog bno.toNat < fs.ncg ∧
      ∀ s', ffsBlkfreeCg fs s devvp gerr bno (n * fs.fsize) = .ok s' →
        ∀ g, g ≠ fs.dtog bno.toNat → s'.cgs g = s.cgs g ∧ s'.csp g = s.csp g)

/-- The group that `ffs_blkfree_cg` reads. -/
def blkfreeGroup (fs : Fs) (bno : Int) : Nat := (toU32 (bno.tdiv fs.fpg)).toNat

/-- A number outside does no harm: the vnode is none that counts, the low 32 bits are out
of range as well, the group cannot be read, or a whole block is freed through a snapshot in
which a part of the block named is free. -/
def BlkfreeSafe (fs : Fs) (s : State) (devvp : Vtype) (gerr : Nat) (bno : Int) (n : Nat) : Prop :=
  (devvp ≠ .vreg ∧ devvp ≠ .vchr) ∨ (fs.size : Int) ≤ toU32 bno ∨ gerr ≠ 0 ∨
    (0 ≤ bno.tmod fs.fpg ∧ devvp = .vreg ∧ n = fs.frag ∧
      ffsIsfreeblock fs (s.cgs (blkfreeGroup fs bno)).blksfree (fs.fragstoblks (bno.tmod fs.fpg).toNat) = false)

/-- The stores touch the summary of their own group only. -/
theorem stores_csp (s : State) (cg cgbno size g : Nat) (hg : g ≠ cg) :
    (cgbfreeStores fs s cg cgbno size).csp g = s.csp g := by
  have hacct : ∀ (t : State) (b : Nat) (d : Int), (ffsClusteracct fs t cg b d).csp = t.csp := by
    intro t b d
    unfold ffsClusteracct
    split <;> rfl
  unfold cgbfreeStores
  split
  · simp only [blkfreeBlock, State.addNbfree, hacct, State.modCg_csp, Function.update_of_ne hg]
  · simp only [blkfreeFrags]
    split
    · simp only [State.addNbfree, State.addNffree, hacct, giveFrags, State.modCg_csp, Function.update_of_ne hg]
    · simp only [giveFrags, State.addNffree, State.modCg_csp, Function.update_of_ne hg]

/-- Behind its tests the function makes the stores in the group that it read, or refuses. -/
theorem ffsBlkfreeCg_stored {s s' : State} {devvp : Vtype} {bno : Int} {size : Nat}
    (hdev : devvp = .vreg ∨ devvp = .vchr) (hlow : toU32 bno < fs.size) (hoff : 0 ≤ bno.tmod fs.fpg)
    (h : ffsBlkfreeCg fs s devvp 0 bno size = .ok s') :
    let t := (s.emit (.getcg (blkfreeGroup fs bno))).emit .lock
    (s' = (({ cgbfreeStores fs t (blkfreeGroup fs bno) (bno.tmod fs.fpg).toNat size with fmod := true }.emit .unlock).emit
        (.bdwrite (blkfreeGroup fs bno)))) ∨
      (devvp = .vreg ∧ size = fs.bsize ∧
        ffsIsfreeblock fs (s.cgs (blkfreeGroup fs bno)).blksfree (fs.fragstoblks (bno.tmod fs.fpg).toNat) = false ∧
        s' = (t.emit .unlock).emit (.brelse (blkfreeGroup fs bno))) := by
  intro t
  unfold ffsBlkfreeCg at h
  rw [if_neg (by rcases hdev with hd | hd <;> simp [hd]), if_neg (by omega), if_neg (by decide),
    if_neg (Int.not_lt.mpr hoff)] at h
  simp only at h
  split at h
  · next hsize =>
      have hstores : cgbfreeStores fs t (blkfreeGroup fs bno) (bno.tmod fs.fpg).toNat size =
          blkfreeBlock fs t (blkfreeGroup fs bno) (fs.fragstoblks (bno.tmod fs.fpg).toNat) := if_pos hsize
      rw [hstores]
      split at h
      · next hfree =>
          split at h
          · next hreg => exact .inr ⟨hreg, hsize, hfree, (Except.ok.inj h).symm⟩
          · cases h
      · exact .inl (Except.ok.inj h).symm
  · next hsize =>
      have hstores : cgbfreeStores fs t (blkfreeGroup fs bno) (bno.tmod fs.fpg).toNat size =
          blkfreeFrags fs t (blkfreeGroup fs bno) (bno.tmod fs.fpg).toNat (fs.numfrags size) := if_neg hsize
      rw [hstores]
      split at h
      · cases h
      · exact .inl (Except.ok.inj h).symm

/-- Freeing in a group changes the total counts, so the maps are kept only when nothing is
freed. -/
theorem outside_kept_iff (s : State) (devvp : Vtype) (gerr : Nat) (bno : Int) {n : Nat} (hn : 0 < n) :
    (∃ s', ffsBlkfreeCg fs s devvp gerr bno (n * fs.fsize) = .ok s' ∧ MapsKept s s') ↔
      BlkfreeSafe fs s devvp gerr bno n := by
  have hrefl : MapsKept s s := MapsKept.of_cgs rfl rfl rfl
  by_cases hdev : devvp ≠ .vreg ∧ devvp ≠ .vchr
  · exact iff_of_true ⟨s, if_pos hdev, hrefl⟩ (.inl hdev)
  by_cases hlow : (fs.size : Int) ≤ toU32 bno
  · exact iff_of_true ⟨s, by unfold ffsBlkfreeCg; rw [if_neg hdev, if_pos hlow], hrefl⟩ (.inr (.inl hlow))
  by_cases hgerr : gerr ≠ 0
  · refine iff_of_true ⟨s, ?_, hrefl⟩ (.inr (.inr (.inl hgerr)))
    unfold ffsBlkfreeCg
    rw [if_neg hdev, if_neg hlow, if_pos hgerr]
  obtain rfl : gerr = 0 := not_not.mp hgerr
  have hdev' : devvp = .vreg ∨ devvp = .vchr := by tauto
  have hsize : n * fs.fsize = fs.bsize ↔ n = fs.frag := by
    rw [fs.bsize_eq]
    exact ⟨fun h => Nat.eq_of_mul_eq_mul_right fs.fsize_pos h, fun h => by rw [h]⟩
  constructor
  · rintro ⟨s', hok, hkept⟩
    by_cases hoff : 0 ≤ bno.tmod fs.fpg
    · rcases ffsBlkfreeCg_stored hdev' (Int.not_le.mp hlow) hoff hok with rfl | ⟨hreg, hfull, hfree, -⟩
      · exact absurd hkept.cstotal (stores_cstotal _ _ _ hn)
      · exact .inr (.inr (.inr ⟨hoff, hreg, hsize.mp hfull, hfree⟩))
    · -- the map is read in front of its first byte
      unfold ffsBlkfreeCg at hok
      rw [if_neg hdev, if_neg hlow, if_neg (by decide), if_pos (Int.not_le.mp hoff)] at hok
      cases hok
  · rintro (h | h | h | ⟨hoff, hreg, hfull, hfree⟩)
    · exact absurd h hdev
    · exact absurd h hlow
    · exact absurd rfl h
    · refine ⟨(((s.emit (.getcg (blkfreeGroup fs bno))).emit .lock).emit .unlock).emit (.brelse (blkfreeGroup fs bno)), ?_,
        MapsKept.of_cgs rfl rfl rfl⟩
      unfold ffsBlkfreeCg
      rw [if_neg hdev, if_neg hlow, if_neg (by decide), if_neg (Int.not_lt.mpr hoff)]
      simp only
      rw [if_pos (hsize.mpr hfull)]
      exact (if_pos hfree).trans (if_pos hreg)

/-- Inside of the file system. -/
theorem inside_only {s s' : State} {devvp : Vtype} {gerr a n : Nat} (ha : a < fs.size) (hcg : fs.dtog a < fs.ncg)
    (h : ffsBlkfreeCg fs s devvp gerr a (n * fs.fsize) = .ok s') {g : Nat} (hg : g ≠ fs.dtog a) :
    s'.cgs g = s.cgs g ∧ s'.csp g = s.csp g := by
  by_cases hskip : (devvp ≠ .vreg ∧ devvp ≠ .vchr) ∨ gerr ≠ 0
  · rw [ffsBlkfreeCg_skipped fs s devvp gerr a _ hskip] at h
    obtain rfl := Except.ok.inj h
    exact ⟨rfl, rfl⟩
  · obtain rfl : gerr = 0 := by tauto
    have hgroup : blkfreeGroup fs a = fs.dtog a := blkfreeCg_group hcg
    have hoff : (0 : Int) ≤ (a : Int).tmod fs.fpg := by
      rw [blkfreeCg_offset]
      exact Int.natCast_nonneg _
    have hlow : toU32 (a : Int) < fs.size := by
      unfold toU32
      omega
    rcases ffsBlkfreeCg_stored (by tauto) hlow hoff h with rfl | ⟨-, -, -, rfl⟩
    · rw [hgroup]
      exact ⟨(OnlyGroup.stores _ (fs.dtog a) _ _).other g hg, stores_csp _ _ _ _ g hg⟩
    · exact ⟨rfl, rfl⟩

theorem blkfree_exact_iff (hlaid : fs.size ≤ fs.ncg * fs.fpg) (s : State) (devvp : Vtype) (gerr : Nat) (bno : Int) {n : Nat}
    (hn : 0 < n) : BlkfreeExact fs s devvp gerr bno n ↔ (Outside fs bno → BlkfreeSafe fs s devvp gerr bno n) := by
  unfold BlkfreeExact
  rw [outside_kept_iff s devvp gerr bno hn]
  refine ⟨fun h => h.1, fun h => ⟨h, fun hin => ?_⟩⟩
  unfold Outside at hin
  obtain ⟨a, rfl⟩ := Int.eq_ofNat_of_zero_le (show 0 ≤ bno by omega)
  have ha : a < fs.size := by omega
  have hcg : fs.dtog a < fs.ncg := Nat.div_lt_of_lt_mul (by rw [Nat.mul_comm]; omega)
  exact ⟨hcg, fun s' hok g hg => inside_only ha hcg hok hg⟩

/-! ### Inodes -/

/-- The four functions take an inode number for one in range exactly below the product.
`ffs_freefile` panics for the others, `ffs_checkfreefile` reads no group for them, and
`ffs_valloc` prefers inode 0 instead. `ffs_fhtovp` calls every handle of theirs stale, as it
does with the numbers below `UFS_ROOTINO`. -/
structure InoExact (mp : InodeMount) (ino : Nat) : Prop where
  freefile : ∀ (s : State) devvp gerr mode, devvp = .vreg ∨ devvp = .vchr →
    (ffsFreefile mp.fs s devvp gerr ino mode ≠ .error .inodeRange ↔ ino < mp.fs.ipg * mp.fs.ncg)
  checkfreefile : ∀ (s : State) devvp, devvp = .vreg ∨ devvp = .vchr →
    ((∃ cg, (ffsCheckfreefile mp.fs s devvp 0 ino).2.log = .brelse cg :: .getcg cg :: s.log) ↔
      ino < mp.fs.ipg * mp.fs.ncg)
  fhtovp : 2 ≤ ino → ∀ gen life,
    ((∃ getcg rnd s, ffsFhtovp mp getcg rnd s ⟨ino, gen, life⟩ ≠ some (.error .estale)) ↔
      ino < mp.fs.ipg * mp.fs.ncg)
  valloc : vallocPref mp.fs ino = ino ↔ ino < mp.fs.ipg * mp.fs.ncg

/-- The number lies below the product, but not below what 32 bits leave of it. -/
def CutOff (fs : Fs) (ino : Nat) : Prop := fs.ipg * fs.ncg % 2 ^ 32 ≤ ino ∧ ino < fs.ipg * fs.ncg

section Inodes

variable {mp : InodeMount} {ino : Nat}

theorem toU32_product (m n : Nat) : toU32 ((m : Int) * n) = (m * n % 2 ^ 32 : Nat) := by
  unfold toU32
  push_cast
  rfl

theorem freefile_accepts_iff (s : State) {devvp : Vtype} (gerr mode : Nat) (hdev : devvp = .vreg ∨ devvp = .vchr) :
    ffsFreefile mp.fs s devvp gerr ino mode ≠ .error .inodeRange ↔ ino < mp.fs.ipg * mp.fs.ncg % 2 ^ 32 := by
  unfold ffsFreefile
  rw [if_neg (by rcases hdev with hd | hd <;> simp [hd]), toU32_product]
  by_cases hin : ino < mp.fs.ipg * mp.fs.ncg % 2 ^ 32
  · rw [if_neg (by exact_mod_cast Nat.not_le.mpr hin)]
    refine iff_of_true ?_ hin
    split
    · exact fun h => by cases h
    · simp only
      split <;> exact fun h => by cases h
  · rw [if_pos (by exact_mod_cast Nat.not_lt.mp hin)]
    exact iff_of_false (fun h => h rfl) hin

theorem checkfreefile_accepts_iff (s : State) {devvp : Vtype} (hdev : devvp = .vreg ∨ devvp = .vchr) :
    (∃ cg, (ffsCheckfreefile mp.fs s devvp 0 ino).2.log = .brelse cg :: .getcg cg :: s.log) ↔
      ino < mp.fs.ipg * mp.fs.ncg % 2 ^ 32 := by
  unfold ffsCheckfreefile
  rw [if_neg (by rcases hdev with hd | hd <;> simp [hd]), toU32_product]
  by_cases hin : ino < mp.fs.ipg * mp.fs.ncg % 2 ^ 32
  · rw [if_neg (by exact_mod_cast Nat.not_le.mpr hin), if_neg (by decide)]
    exact iff_of_true ⟨_, rfl⟩ hin
  · rw [if_pos (by exact_mod_cast Nat.not_lt.mp hin)]
    refine iff_of_false ?_ hin
    rintro ⟨cg, hlog⟩
    have hlen := congrArg List.length hlog
    simp only [List.length_cons] at hlen
    omega

def blankDinode : Dinode := ⟨0, 0, 0, 0, 0, 0, 0, 0, []⟩

/-- An inode in memory to which the handle belongs. -/
def coreOf (gen : Nat) : IncoreInode where
  number := 0
  din := blankDinode
  mode := 1
  nlink := 1
  effnlink := 1
  size := 0
  flags := 0
  gen := gen
  uid := 0
  gid := 0
  modified := false

theorem fhtovp_accepts_iff (h2 : 2 ≤ ino) (gen life : Nat) :
    (∃ getcg rnd s, ffsFhtovp mp getcg rnd s ⟨ino, gen, life⟩ ≠ some (.error .estale)) ↔
      ino < mp.fs.ipg * mp.fs.ncg % 2 ^ 32 := by
  unfold ffsFhtovp
  rw [Nat.mul_comm mp.fs.ncg]
  by_cases hin : ino < mp.fs.ipg * mp.fs.ncg % 2 ^ 32
  · refine iff_of_true ?_ hin
    have hpass : ¬ (ino < 2 ∨ mp.fs.ipg * mp.fs.ncg % 2 ^ 32 ≤ ino) := by omega
    simp only [if_neg hpass]
    cases mp.fs.magic with
    | ufs1 =>
        -- the inode is in memory, with the generation of the handle
        refine ⟨.ok 0, [], ⟨blankDinode, some (coreOf gen), 0, []⟩, fun h => ?_⟩
        simp [ufsFhtovp, Handle.ffsVgetf, coreOf] at h
    | ufs2 => exact ⟨.error .eio, [], ⟨blankDinode, none, 0, []⟩, fun h => by cases h⟩
  · refine iff_of_false ?_ hin
    rintro ⟨getcg, rnd, s, hne⟩
    exact hne (if_pos (.inr (Nat.not_lt.mp hin)))

theorem valloc_accepts_iff :
    vallocPref mp.fs ino = ino ↔ ino = 0 ∨ ino < mp.fs.ipg * mp.fs.ncg % 2 ^ 32 := by
  unfold vallocPref
  rw [toU32_product, Nat.mul_comm mp.fs.ncg]
  by_cases hin : ino < mp.fs.ipg * mp.fs.ncg % 2 ^ 32
  · rw [if_neg (by exact_mod_cast Nat.not_le.mpr hin)]
    exact iff_of_true rfl (.inr hin)
  · rw [if_pos (by exact_mod_cast Nat.not_lt.mp hin)]
    constructor
    · exact fun h => .inl h.symm
    · rintro (rfl | h)
      · rfl
      · exact absurd h hin

theorem inoExact_iff (mp : InodeMount) (ino : Nat) : InoExact mp ino ↔ ¬ CutOff mp.fs ino := by
  have hpos : 0 < mp.fs.ipg * mp.fs.ncg := Nat.mul_pos mp.fs.ipg_pos mp.fs.ncg_pos
  have hle : mp.fs.ipg * mp.fs.ncg % 2 ^ 32 ≤ mp.fs.ipg * mp.fs.ncg := Nat.mod_le _ _
  have hsame : ¬ CutOff mp.fs ino ↔ (ino < mp.fs.ipg * mp.fs.ncg % 2 ^ 32 ↔ ino < mp.fs.ipg * mp.fs.ncg) := by
    unfold CutOff
    constructor
    · exact fun h => ⟨fun hlt => by omega, fun hlt => by omega⟩
    · exact fun h hcut => by
        have hlt := h.mpr hcut.2
        omega
  rw [hsame]
  constructor
  · intro h
    rw [← @freefile_accepts_iff mp _ tinyState _ 0 0 (.inr rfl)]
    exact h.freefile tinyState .vchr 0 0 (.inr rfl)
  · intro hiff
    refine ⟨fun s devvp gerr mode hdev => ?_, fun s devvp hdev => ?_, fun h2 gen life => ?_, ?_⟩
    · rw [freefile_accepts_iff s gerr mode hdev, hiff]
    · rw [checkfreefile_accepts_iff s hdev, hiff]
    · rw [fhtovp_accepts_iff h2 gen life, hiff]
    · rw [valloc_accepts_iff, hiff]
      exact ⟨fun h => h.elim (fun h0 => by omega) id, .inr⟩

end Inodes

/-! ### Blocks and inodes -/

/-- For every file system whose groups cover it, every state, vnode, block number and size in a
block: what lies outside frees nothing and what lies inside changes its own group only,
exactly when a number outside is stopped by its low 32 bits, by the vnode, by the read of the
group or by a snapshot. And for every inode number the four tests are exact just when the
number is not one that the product loses in 32 bits. -/
theorem ranges_exact_iff (mp : InodeMount) (hlaid : mp.fs.size ≤ mp.fs.ncg * mp.fs.fpg) :
    (∀ (s : State) (devvp : Vtype) (gerr : Nat) (bno : Int) (n : Nat), 0 < n →
        (BlkfreeExact mp.fs s devvp gerr bno n ↔ (Outside mp.fs bno → BlkfreeSafe mp.fs s devvp gerr bno n))) ∧
      ∀ ino, InoExact mp ino ↔ ¬ CutOff mp.fs ino :=
  ⟨fun s devvp gerr bno _ hn => blkfree_exact_iff hlaid s devvp gerr bno hn, inoExact_iff mp⟩

/-- A mount of the small file system. -/
def smallMount : InodeMount := ⟨tinyFs, false, false, false, fun _ => 0⟩

/-- Block 20 of a file system of 16 fragments is refused, and inode 7 is in range. -/
theorem ranges_exact_iff_small :
    BlkfreeExact smallMount.fs tinyState .vchr 0 20 2 ∧ InoExact smallMount 7 := by
  obtain ⟨hblk, hino⟩ := ranges_exact_iff smallMount (by decide)
  exact ⟨(hblk tinyState .vchr 0 20 2 (by decide)).mpr fun _ => .inr (.inl (by decide)),
    (hino 7).mpr fun h => absurd h.1 (by decide)⟩

/-- Block 2^36 lies behind the end. Its low 32 bits are 0, and so are those of its group: the
first block of the file system is freed. -/
theorem not_blkfree_exact_far : ¬ BlkfreeExact tinyFs tinyState .vchr 0 (2 ^ 36) 2 := by
  intro h
  have hsafe := (outside_kept_iff tinyState .vchr 0 (2 ^ 36) (by decide)).mp (h.1 (.inr (by decide)))
  rcases hsafe with h | h | h | h
  · exact absurd h (by decide)
  · exact absurd h (by decide)
  · exact absurd h (by decide)
  · exact absurd h.2.1 (by decide)

end UfsX.Proofs.Ranges
