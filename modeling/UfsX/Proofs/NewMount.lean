import UfsX.Proofs.AllocSystem
import UfsX.Proofs.NewFs

/-!
# `UfsX.Proofs.NewMount`: the kernel on a new file system

What `newfs` writes is what the allocators of the kernel start from. `NewFs` says that a new
file system is consistent in the terms of `newfs`; here it is consistent in those of the kernel
(`fsOk_mounted`, `inoOk_mounted`), so that the invariant of `AllocSystem` holds in all that
follows the first mount (`systemInv_of_newfs`).

The two count over a different number of blocks: `newfs` over those of the group, the kernel
over those that any group has. The fragments between are not free.
-/

set_option autoImplicit false

namespace UfsX.Proofs.NewMount

open UfsX.Lib UfsX.Ffs UfsX.Newfs UfsX.Proofs UfsX.Proofs.Mkfs UfsX.Proofs.Initcg UfsX.Proofs.NewFs
  UfsX.Proofs.AllocSystem Finset Relation

variable {L : Limits} {o : Options} {g : Geometry} {φ k : Nat} {nflag : Bool} {fs : Fs} {back : Cg → Cg}
  {nf nf' : NewFs}

/-! ### What the loops do not change -/

/-- What a group says of itself. -/
def head (acg : Cg) : Nat × Nat × Nat × Nat × Nat := (acg.cgx, acg.frotor, acg.irotor, acg.niblk, acg.initediblk)

theorem head_of_rest {acg acg' : Cg} (h : rest acg' = rest acg) : head acg' = head acg := by
  have hhead : head (rest acg') = head (rest acg) := by rw [h]
  exact hhead

theorem head_useInodes (acg : Cg) (n : Nat) : head (useInodes acg n) = head acg := by
  induction n with
  | zero => rfl
  | succ n ih => exact ih

theorem head_header (g : Geometry) (c : Nat) : head (header g c) = head (g.emptyCg c) := by
  unfold header
  simp only []
  split
  · exact head_useInodes _ _
  · rfl

theorem head_sumClusters (s : Super) (acg : Cg) : head (sumClusters s acg) = head acg := by
  unfold sumClusters
  split
  · rfl
  · rfl

theorem head_initcg (hw : Written g φ k) {c : Nat} (hroom : firstBlock g c * g.super.frag ≤ g.groupSize c) :
    head (g.initcg c) = head (g.emptyCg c) := by
  obtain ⟨acg, hinit, -, -, -, hrest⟩ := freed_filled hw hroom
  rw [hinit, head_sumClusters, head_of_rest hrest, head_header]

section Fsinit

variable (hback : ∀ acg, back acg = acg)
include hback

theorem head_cgwrite {acg : Cg} (hacg : head acg = head (nf.cgs 0)) (c : Nat) :
    head ((cgwrite back nf acg).cgs c) = head (nf.cgs c) := by
  show head (Function.update nf.cgs 0 (back acg) c) = _
  rcases eq_or_ne c 0 with rfl | hc
  · rw [Function.update_self, hback, hacg]
  · rw [Function.update_of_ne hc]

theorem head_alloc {size d : Nat} (h : alloc g back nf size = some (nf', d)) (c : Nat) :
    head (nf'.cgs c) = head (nf.cgs c) := by
  unfold alloc at h
  simp only [] at h
  split at h
  case isTrue => cases h
  case isFalse =>
      cases hfind : findBlock g (nf.cgs 0) ((nf.cgs 0).ndblk + 1) 0 with
      | none =>
          rw [hfind] at h
          cases h
      | some d' =>
          rw [hfind] at h
          simp only [Option.bind_eq_bind, Option.bind_some] at h
          split at h
          all_goals
            obtain ⟨rfl, -⟩ := Prod.mk.inj (Option.some.inj h)
            refine (head_cgwrite hback ?_ c).trans rfl
            rfl

theorem head_iput (nf : NewFs) (ino c : Nat) : head ((iput back nf ino).cgs c) = head (nf.cgs c) := by
  refine (head_cgwrite hback ?_ c).trans rfl
  rfl

theorem head_fsinit (h : fsinit g back nflag nf = some nf') (c : Nat) : head (nf'.cgs c) = head (nf.cgs c) := by
  unfold fsinit at h
  cases halloc₁ : alloc g back nf g.super.fsize with
  | none =>
      rw [halloc₁] at h
      cases h
  | some r₁ =>
      obtain ⟨nf₁, d₁⟩ := r₁
      rw [halloc₁] at h
      have hroot := (head_iput hback nf₁ UFS_ROOTINO c).trans (head_alloc hback halloc₁ c)
      cases nflag with
      | true =>
          obtain rfl := Option.some.inj h
          exact hroot
      | false =>
          have hsnap : ((alloc g back (iput back nf₁ UFS_ROOTINO) g.super.fsize).bind fun r =>
              some (iput back r.1 (UFS_ROOTINO + 1))) = some nf' := h
          cases halloc₂ : alloc g back (iput back nf₁ UFS_ROOTINO) g.super.fsize with
          | none =>
              rw [halloc₂] at hsnap
              cases hsnap
          | some r₂ =>
              rw [halloc₂] at hsnap
              obtain rfl := Option.some.inj hsnap
              exact ((head_iput hback r₂.1 _ c).trans (head_alloc hback halloc₂ c)).trans hroot

theorem head_writeFs (hw : Written g φ k) (hc : Completes g nflag) (hfs : writeFs g back nflag = some nf) {c : Nat}
    (hlt : c < g.ncg) : head (nf.cgs c) = head (g.emptyCg c) := by
  unfold writeFs at hfs
  split at hfs
  case isTrue => cases hfs
  case isFalse =>
      split at hfs
      case isTrue => cases hfs
      case isFalse =>
          rw [head_fsinit hback hfs c]
          show head (back (g.initcg c)) = _
          rw [hback]
          exact head_initcg hw (room_of_completes hw hc hlt)

end Fsinit

/-! ### The kernel's view -/

/-- The superblock that the kernel reads is the one that has been written. -/
structure Describes (g : Geometry) (fs : Fs) : Prop where
  magic : fs.magic = g.super.Oflag
  fragshift : fs.fragshift = g.super.fragshift
  fshift : fs.fshift = g.super.fshift
  fsbtodb : fs.fsbtodb = g.super.fsbtodb
  size : fs.size = g.super.size
  ncg : fs.ncg = g.ncg
  fpg : fs.fpg = g.fpg
  ipg : fs.ipg = g.ipg
  sblkno : fs.sblkno = g.super.sblkno
  cblkno : fs.cblkno = g.super.cblkno
  iblkno : fs.iblkno = g.super.iblkno
  dblkno : fs.dblkno = g.dblkno
  contigsumsize : fs.contigsumsize = g.super.contigsumsize
  dsize : fs.dsize = g.dsize
  inopb : fs.inopb = g.super.inopb

/-- `ffs_sbget` and `ffs_mountfs` on a new file system: the summaries are those on the disk, and
the longest cluster is taken to be there in every group. -/
def mounted (fs : Fs) (nf : NewFs) : State where
  cstotal := nf.cstotal
  csp := nf.csp
  maxcluster := fun _ => fs.contigsumsize
  fmod := false
  cgs := nf.cgs
  log := []

section Groups

variable {c n : Nat} {acg : Cg} (hw : Written g φ k) (hd : Describes g fs)

include hw hd

theorem frag_eq : fs.frag = g.super.frag := by
  rw [Fs.frag, hd.fragshift, hw.shape.fragshift, hw.shape.frag]

theorem nblk_eq : fs.nblk = g.fpg / g.super.frag := by
  rw [Fs.nblk, hd.fpg, frag_eq hw hd]

/-- What is counted in the blocks of the group is what is in those that any group has. -/
theorem counted_nblk (hok : GroupOk g c acg) :
    FreeMap.Counted g.super.frag fs.nblk acg.blksfree acg.cs.nbfree acg.cs.nffree acg.frsum := by
  have hfrag := hw.shape.frag_pos
  have hdvd : g.super.frag ∣ g.fpg := by
    rw [← frag_eq hw hd, ← hd.fpg]
    exact fs.frag_dvd_fpg
  have hsize : g.groupSize c ≤ g.fpg := Nat.min_le_left ..
  have hblocks : howmany acg.ndblk g.super.frag ≤ fs.nblk := by
    rw [nblk_eq hw hd, howmany_le_iff hfrag, Nat.div_mul_cancel hdvd, hok.ndblk]
    exact hsize
  refine hok.counted.extend hfrag hblocks fun b hb hbn j hj => hok.beyond _ ?_ ?_
  · have hup := (howmany_le_iff hfrag).mp hb
    omega
  · have hend := (Nat.lt_iff_add_one_le.mp hbn).trans_eq (nblk_eq hw hd)
    rw [Nat.le_div_iff_mul_le hfrag, Nat.add_mul, Nat.one_mul] at hend
    have hmap := le_howmany_mul (x := g.fpg) (by decide : 0 < 8)
    omega

theorem cgOk_of_groupOk (hlt : c < g.ncg) (hok : GroupOk g c acg) (hhead : head acg = head (g.emptyCg c)) :
    CgOk fs c acg := by
  have hfrag := frag_eq hw hd
  have hcounted := counted_nblk hw hd hok
  have hcgx : acg.cgx = c := congrArg Prod.fst hhead
  have hfrotor : acg.frotor = 0 := congrArg (fun h => h.2.1) hhead
  rw [← hfrag] at hcounted
  refine ⟨⟨hcgx, ?_, ?_, ?_, ?_, ?_⟩, hcounted.blocks, hcounted.frags, hcounted.sizes, ?_⟩
  · rw [hok.ndblk, hd.fpg]
    exact Nat.min_le_left ..
  · have hin : c * g.fpg < g.super.size := by
      rw [← lt_howmany_iff hw.fpg_pos]
      have hncg := hw.sound.ncg_eq
      omega
    have hleft : g.groupSize c ≤ g.super.size - c * g.fpg := Nat.min_le_right ..
    rw [hok.ndblk, hd.size, Fs.cgbase, hd.fpg, Nat.mul_comm]
    omega
  · intro i hi hmap
    refine hok.beyond i hi ?_
    rw [Fs.mapBytes, hd.fpg] at hmap
    exact hmap
  · rw [hfrotor]
    exact fs.fpg_pos
  · intro hc
    rw [hd.contigsumsize] at hc
    rw [(hok.clusters hc).1, hfrag]
  · intro hc
    obtain ⟨-, hmap, hsum⟩ := hok.clusters (hd.contigsumsize ▸ hc)
    rw [← hfrag] at hmap hsum
    refine (clustersOk_iff hc).mpr ⟨hmap, fun j hj hle => ?_⟩
    rw [hsum j hj (hle.trans_eq hd.contigsumsize), hd.contigsumsize]
    exact congrArg _ (sum_congr rfl fun l _ => runs_congr (fun b hb => (hmap b hb).symm) l)

/-- The inodes of a group, of which the first `n` are in use. -/
theorem cgInoOk_of_head (hn : n ≤ min g.ipg 4) (hhead : head acg = head (g.emptyCg c))
    (hnifree : acg.cs.nifree = ((range g.ipg).filter fun i => acg.inosused.isset i = false).card)
    (hused : ∀ i, acg.inosused.isset i = decide (i < n)) : CgInoOk fs acg := by
  have hirotor : acg.irotor = 0 := congrArg (fun h => h.2.2.1) hhead
  refine ⟨?_, ?_, fun h2 => ?_⟩
  · rw [hnifree, freeInodes, hd.ipg]
    refine congrArg (fun s : Finset Nat => (s.card : Int)) (filter_congr fun i _ => ?_)
    rw [Bitmap.isclr, Bool.not_eq_true']
  · rw [hirotor]
    exact fs.ipg_pos
  · have hO : g.super.Oflag = .ufs2 := hd.magic.symm.trans h2
    have hniblk : acg.niblk = g.ipg := by
      have heq : acg.niblk = (g.emptyCg c).niblk := congrArg (fun h => h.2.2.2.1) hhead
      rw [heq, Geometry.emptyCg, hO]
    have hinited : acg.initediblk = min g.ipg (2 * g.super.inopb) := by
      have heq : acg.initediblk = (g.emptyCg c).initediblk := congrArg (fun h => h.2.2.2.2) hhead
      rw [heq, Geometry.emptyCg, hO]
    have hinopb := hw.shape.inopb_bounds.1
    refine ⟨hniblk.trans hd.ipg.symm, ?_, ?_, ?_⟩
    · rw [hinited, hniblk]
      exact Nat.min_le_left ..
    · rw [hinited, hd.inopb]
      rcases min_choice g.ipg (2 * g.super.inopb) with hmin | hmin
      · rw [hmin]
        exact hw.inopb_dvd
      · rw [hmin]
        exact Nat.dvd_mul_left ..
    · intro i _ hset
      rw [hused, decide_eq_true_iff] at hset
      rw [hinited]
      omega

end Groups

/-! ### After the first mount -/

/-- The fragments for data that the directories have not taken. -/
def Data (g : Geometry) (nflag : Bool) (c i : Nat) : Prop :=
  i < g.groupSize c ∧ ¬ Reserved g c i ∧ ¬ (c = 0 ∧ ∃ t < dirs nflag, i = (firstBlock g 0 + t) * g.super.frag)

section Mount

variable (hw : Written g φ k) (hd : Describes g fs) (hb : InBlock g back) (hfits : Fits g nflag)
  (hfs : writeFs g back nflag = some nf)
include hw hd hb hfits hfs

omit hd in
theorem newOk_of_fits : NewOk g nf ∧ Completes g nflag ∧ ∃ acg, Made g (dirs nflag) (dirs nflag) nf acg ∧ nf.cgs 0 = acg := by
  have hc := completes_of_writeFs hw hb hfs
  have hback := back_eq hb hfits.map
  obtain ⟨nf', acg, hwrite, hmade, hzero⟩ := writeFs_made hw hc back fun acg _ => hback acg
  obtain rfl : nf = nf' := Option.some.inj (hfs.symm.trans hwrite)
  rw [hback] at hzero
  refine ⟨(newOk_iff_of_made hw hc hmade hzero).mpr ⟨hfits.groups, hfits.inodes, hfits.metadata, hfits.clusters⟩, hc,
    acg, hmade, hzero⟩

theorem fsOk_mounted : FsOk fs (mounted fs nf) := by
  obtain ⟨hok, hc, -⟩ := newOk_of_fits hw hb hfits hfs
  have hback := back_eq hb hfits.map
  refine ⟨fun c hlt => ?_, fun c hlt => ?_, ?_, ?_, ?_, ?_⟩
  · rw [hd.ncg] at hlt
    exact cgOk_of_groupOk hw hd hlt (hok.group c hlt) (head_writeFs hback hw hc hfs hlt)
  · rw [hd.ncg] at hlt
    exact hok.csp c hlt
  all_goals rw [hd.ncg]
  · exact hok.ndir
  · exact hok.nbfree
  · exact hok.nifree
  · exact hok.nffree

theorem inoOk_mounted : InoOk fs (mounted fs nf) := by
  obtain ⟨hok, hc, acg, hmade, hzero⟩ := newOk_of_fits hw hb hfits hfs
  have hback := back_eq hb hfits.map
  have hmounted := fsOk_mounted hw hd hb hfits hfs
  have hdirs : dirs nflag ≤ 2 := by
    unfold dirs
    split <;> omega
  refine ⟨fun c hlt => ?_, fun c hlt => ?_, fun c hlt => ?_, hmounted.nifree, hmounted.ndir, ?_⟩
  · rw [hd.ncg] at hlt
    have hhead := head_writeFs hback hw hc hfs hlt
    have hnifree := (hok.group c hlt).nifree
    rcases Nat.eq_zero_or_pos c with rfl | hpos
    · have hroom := hc.room
      have hpos := dirs_pos nflag
      have hipg := inopb_le_of_room hw (by omega)
      refine cgInoOk_of_head hw hd (n := 2 + dirs nflag) (by omega) hhead hnifree fun i => ?_
      show (nf.cgs 0).inosused.isset i = _
      rw [hzero, hmade.taken.inosused]
    · refine cgInoOk_of_head hw hd (n := 0) (Nat.zero_le _) hhead hnifree fun i => ?_
      show (nf.cgs c).inosused.isset i = _
      rw [(hmade.others c hpos hlt).1, (initcg_built hw (room_of_completes hw hc hlt)).inosused]
      exact decide_eq_decide.mpr (by omega)
  · exact congrArg Csum.nifree (hmounted.csp c hlt)
  · exact congrArg Csum.ndir (hmounted.csp c hlt)
  · show (nf.cgs 0).inosused.isset 0 = true
    rw [hzero, hmade.taken.inosused]
    exact decide_eq_true (by omega)

omit hd hb hfits hfs in
/-- A block of inodes fills whole bytes of the map. -/
theorem eight_dvd_inopb : 8 ∣ g.super.inopb := by
  have hinopb := hw.shape.inopb
  have hbig := hw.shape.bsize_ge
  have hsize : ∃ e, dinodeSize g.super.Oflag = 2 ^ e ∧ e ≤ 8 := by
    cases g.super.Oflag with
    | ufs1 => exact ⟨7, rfl, by omega⟩
    | ufs2 => exact ⟨8, rfl, le_rfl⟩
  obtain ⟨e, he, hle⟩ := hsize
  rw [he, hw.shape.bsize, show φ + k = φ + k - e + e from by omega, Nat.pow_add] at hinopb
  rw [Nat.eq_of_mul_eq_mul_right (Nat.two_pow_pos e) hinopb]
  exact Nat.pow_dvd_pow 2 (by omega : 3 ≤ φ + k - e)

omit hb hfs in
theorem inoGeometry_of_fits : InoGeometry fs := by
  refine ⟨?_, ?_, ?_⟩
  · rw [hd.inopb, hd.ipg]
    exact hw.inopb_dvd
  · rw [hd.inopb]
    exact eight_dvd_inopb hw
  · rw [hd.ipg, hd.ncg, Nat.mul_comm]
    exact hfits.inodes

/-- What is free on the new file system is what is for data, but for the directories. -/
theorem freeAt_mounted {x : Nat} (hx : fs.dtog x < fs.ncg) :
    freeAt fs (mounted fs nf) x = true ↔ Data g nflag (fs.dtog x) (fs.dtogd x) := by
  obtain ⟨-, hc, acg, hmade, hzero⟩ := newOk_of_fits hw hb hfits hfs
  rw [hd.ncg] at hx
  show (nf.cgs (fs.dtog x)).blksfree.isset (fs.dtogd x) = true ↔ _
  generalize fs.dtog x = c at hx
  generalize fs.dtogd x = i
  have hmeta := sblkno_lt_dblkno hw
  have hsize := groups_of_completes hw hc hx
  rw [Data, reserved_iff hw]
  rcases Nat.eq_zero_or_pos c with rfl | hpos
  · have hdupper : g.dupper 0 = g.dblkno + g.csfrags := if_pos rfl
    rw [hzero, hmade.taken.filled.bits, freeAt_zero, if_pos rfl, ← and_assoc]
    refine and_congr (by omega) ?_
    simp
  · have hdupper : g.dupper c = g.dblkno := if_neg hpos.ne'
    rw [(hmade.others c hpos hx).1, (initcg_built hw (room_of_completes hw hc hx)).filled.bits, FreeAt, if_neg hpos.ne',
      hdupper]
    omega

theorem boot_mounted : freeAt fs (mounted fs nf) 0 = false := by
  have hgroup : fs.dtog 0 = 0 := Nat.zero_div _
  have hin : fs.dtog 0 < fs.ncg := hgroup.trans_lt fs.ncg_pos
  have hlt := sblkno_lt_dblkno hw
  rw [Bool.eq_false_iff]
  intro hfree
  -- the boot blocks are in front of the superblock
  refine ((freeAt_mounted hw hd hb hfits hfs hin).mp hfree).2.1 ?_
  rw [reserved_iff hw, hgroup, if_pos rfl, Fs.dtogd, Nat.zero_mod, Geometry.dupper, if_pos rfl]
  omega

end Mount

/-! ### Every run -/

/-- From a new file system on, whatever is allocated and freed, in any order: the groups and the
totals are consistent, each fragment for data is either free or in one of the ranges that are
handed out, no other ever is, and no legal call panics. -/
theorem systemInv_of_newfs (hmkfs : mkfs L o = .writing g) (hb : InBlock g back) (hfits : Fits g nflag)
    (hfs : writeFs g back nflag = some nf) (hd : Describes g fs) {s : State} {l : List Range}
    (hrun : ReflTransGen (SystemStep fs) (mounted fs nf, []) (s, l)) :
    SystemInv fs (mounted fs nf) s l
      ∧ (∀ x, fs.dtog x < fs.ncg →
        (freeAt fs s x = true ↔ Data g nflag (fs.dtog x) (fs.dtogd x) ∧ ∀ r ∈ l, ¬ r.Has x))
      ∧ (∀ r ∈ l, ∀ x, r.Has x → Data g nflag (fs.dtog x) (fs.dtogd x))
      ∧ (∀ op : Op, op.Legal fs s → ∃ r s', op.exec fs s = .ok (r, s'))
      ∧ (∀ busy cg ipref mode, cg < fs.ncg → ∃ ino s', ffsNodealloccg fs s (fun _ => 0) busy cg ipref mode = .ok (ino, s'))
      ∧ ∀ devvp ino mode, ino ≠ 0 → InoUsed fs s ino → ∃ s', ffsFreefile fs s devvp 0 ino mode = .ok (0, s') := by
  obtain ⟨φ, k, hw⟩ := mkfs_written hmkfs
  have hgeo := inoGeometry_of_fits hw hd hfits
  have hboot := boot_mounted hw hd hb hfits hfs
  have hinv := SystemInv.run hgeo (fsOk_mounted hw hd hb hfits hfs) (inoOk_mounted hw hd hb hfits hfs) hboot hrun
  refine ⟨hinv, fun x hx => ?_, fun r hr x hhas => ?_, SystemInv.returns hgeo hboot hinv⟩
  · rw [hinv.ledger.map x hx, freeAt_mounted hw hd hb hfits hfs hx]
  · have hin : fs.dtog x < fs.ncg := by
      obtain ⟨hcg, -, hlo, hhi⟩ := hinv.ledger.inside r hr
      have hndblk := ((fsOk_mounted hw hd hb hfits hfs).cg r.cg hcg).layout.ndblk_le
      have hspan := dtog_of_span (hlo.trans hhas.1) (by have := hhas.2; omega)
      exact hspan.1.trans_lt hcg
    exact (freeAt_mounted hw hd hb hfits hfs hin).mp (hinv.ledger.fresh r hr x hhas)

/-! A file system of thirteen blocks. -/

def thirteen : Geometry := ⟨{ smallSuper with size := 104 }, 2, 104, 128, 1⟩

theorem mkfs_thirteen : mkfs macos (defaults 832) = .writing thirteen := rfl

/-- Its superblock, as the kernel reads it. -/
def thirteenFs : Fs where
  magic := thirteen.super.Oflag
  fragshift := thirteen.super.fragshift
  fshift := thirteen.super.fshift
  fsbtodb := thirteen.super.fsbtodb
  size := thirteen.super.size
  ncg := thirteen.ncg
  fpg := thirteen.fpg
  ipg := thirteen.ipg
  sblkno := thirteen.super.sblkno
  cblkno := thirteen.super.cblkno
  iblkno := thirteen.super.iblkno
  dblkno := thirteen.dblkno
  metaspace := 0
  oldCgoffset := 0
  oldCgmask := 0
  contigsumsize := thirteen.super.contigsumsize
  dsize := 55
  minfree := 8
  nindir := 4096
  inopb := thirteen.super.inopb
  fragshift_le := by decide
  bshift_le := by decide
  fpg_pos := by decide
  frag_dvd_fpg := by decide
  ncg_pos := by decide
  ncg_lt := by decide
  ipg_pos := by decide
  inopb_pos := by decide
  size_lt := by decide
  fsbtodb_le := by decide
  four_le_nindir := by decide
  nindir_le := by decide

theorem describes_thirteen : Describes thirteen thirteenFs :=
  ⟨rfl, rfl, rfl, rfl, rfl, rfl, rfl, rfl, rfl, rfl, rfl, rfl, rfl, by decide, rfl⟩

theorem completes_thirteen : Completes thirteen false := ⟨by decide, by decide, by decide⟩

theorem fits_thirteen : Fits thirteen false := ⟨by decide, by decide, by decide, by decide, .inr (by decide)⟩

theorem inBlock_id (g : Geometry) : InBlock g id :=
  ⟨fun _ => rfl, fun _ _ _ => rfl, fun _ _ _ => rfl, fun _ _ _ => rfl, fun _ _ _ => rfl⟩

/-- Its first fragment is handed out. -/
theorem systemInv_thirteen :
    ∃ nf r s, writeFs thirteen id false = some nf
      ∧ ffsAlloccg thirteenFs (mounted thirteenFs nf) 0 0 0 4096 4096 = .ok (r, s)
      ∧ SystemInv thirteenFs (mounted thirteenFs nf) s (if r = 0 then [] else [⟨0, r, 1⟩]) := by
  obtain ⟨φ, k, hw⟩ := mkfs_written mkfs_thirteen
  obtain ⟨nf, -, hwrite, -⟩ := writeFs_made hw completes_thirteen id fun _ _ => rfl
  have hrun {s : State} {l : List Range} := systemInv_of_newfs (s := s) (l := l) mkfs_thirteen (inBlock_id thirteen)
    fits_thirteen hwrite describes_thirteen
  obtain ⟨⟨r, s⟩, halloc, -⟩ := ffsAlloccg_spec 0 0 (hrun ReflTransGen.refl).1.ledger.ok (by decide : 0 < thirteenFs.ncg)
    (by decide : 0 < 1) (by decide : 1 ≤ thirteenFs.frag) (.inl rfl)
  refine ⟨nf, r, s, hwrite, halloc, (hrun (.single (.block (.alloccg ?_ ?_ ?_ (.inl rfl) halloc)))).1⟩
  · decide
  · decide
  · decide

end UfsX.Proofs.NewMount
