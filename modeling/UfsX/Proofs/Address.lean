import UfsX.Libufs.Address
import UfsX.Proofs.LibufsInode

/-!
# `UfsX.Proofs.Address`: is every structure read where it was written?

A structure in fragment `f` belongs at byte `f * fs_fsize`. With `x` the number of the device
block of `f`, in blocks of 512 bytes, each function turns out to calculate `x` modulo `2 ^ 32`,
times a block size, in some width; so each is right up to its own limit (`Fits`): 1 TiB for a
product that starts from a `daddr_t`, 4 GiB for `dbtob`, 2 GiB for `cgget`. `newfs` multiplies
by the real sector size instead, and adds `part_ofs` in some places and not in others.
-/

set_option autoImplicit false

namespace UfsX.Proofs.Address

open UfsX.Lib UfsX.Compat UfsX.Ffs UfsX.Libufs UfsX.Proofs.LibufsInode
open UfsX.Ufs (fsbtodb)

/-! ### Conversions -/

/-- A conversion to `int32_t` keeps exactly the numbers that fit. -/
theorem toI32_eq_iff {x : Int} (h : 0 ≤ x) : toI32 x = x ↔ x < 2 ^ 31 :=
  ⟨fun heq => heq ▸ (toI32_bounds x).2, fun hlt => toI32_eq_self (by omega) hlt⟩

theorem toU32_eq_iff {x : Int} (h : 0 ≤ x) : toU32 x = x ↔ x < 2 ^ 32 :=
  ⟨fun heq => heq ▸ toU32_lt x, fun hlt => toU32_eq_self h hlt⟩

theorem fsbtodb_eq_toI32 (fs : Fs) (f : Int) : fsbtodb fs f = toI32 (f * 2 ^ fs.fsbtodb) := toI32_toI32_mul ..

/-! ### One structure

`x` is the block of a structure on the device, in units of `DEV_BSIZE` bytes. -/

section Offsets

variable (n : Newfs)

theorem fshift_ge : 9 ≤ n.fs.fshift := by
  have hge := n.fsize_ge
  by_contra hlt
  have hle : 2 ^ n.fs.fshift ≤ 2 ^ 8 := Nat.pow_le_pow_right (by decide) (by omega)
  exact absurd (Nat.le_trans hge hle) (by decide)

theorem fsbtodb_add : n.fs.fsbtodb + 9 = n.fs.fshift := by
  have hge := fshift_ge n
  have hdiv : n.fs.fsize / DEV_BSIZE = 2 ^ (n.fs.fshift - 9) := Nat.pow_div hge (by decide : 0 < 2)
  have heq := n.fsbtodb_eq
  rw [hdiv, Nat.log2_two_pow] at heq
  omega

/-- A fragment has `2 ^ fs_fsbtodb` blocks of 512 bytes. -/
theorem fsize_eq : (n.fs.fsize : Int) = 2 ^ n.fs.fsbtodb * DEV_BSIZE := by
  unfold Fs.fsize
  rw [← fsbtodb_add n, Nat.pow_add]
  push_cast
  rfl

theorem dBsize_eq : dBsize n.fs = DEV_BSIZE := by
  have hpos : (0 : Int) < 2 ^ n.fs.fsbtodb := Int.pow_pos (by decide)
  have hmul := dBsize_mul n.fs
  rw [fsize_eq n] at hmul
  exact Int.eq_of_mul_eq_mul_left hpos.ne' hmul

theorem mul_fsize (f : Int) : f * n.fs.fsize = f * 2 ^ n.fs.fsbtodb * DEV_BSIZE := by
  rw [fsize_eq n, Int.mul_assoc]

theorem mul_devBsize_inj {x y : Int} : x * DEV_BSIZE = y * DEV_BSIZE ↔ x = y :=
  ⟨fun h => Int.eq_of_mul_eq_mul_right (by decide) h, fun h => by rw [h]⟩

variable {f : Int}

theorem block_nonneg (h : 0 ≤ f) : 0 ≤ f * 2 ^ n.fs.fsbtodb := Int.mul_nonneg h (Int.pow_nonneg (by decide))

/-- The kernel, and libufs with the block size of `sbread`: right while `daddr_t` lasts. -/
theorem kernelOffset_eq_iff (h : 0 ≤ f) :
    kernelOffset n.fs f = f * n.fs.fsize ↔ f * 2 ^ n.fs.fsbtodb < 2 ^ 31 := by
  unfold kernelOffset
  rw [mul_fsize, mul_devBsize_inj, fsbtodb_eq_toI32]
  exact toI32_eq_iff (block_nonneg n h)

theorem blockOffset_eq_kernelOffset : blockOffset n.fs (fsbtodb n.fs f) = kernelOffset n.fs f := by
  unfold blockOffset kernelOffset
  rw [dBsize_eq]

theorem cgputOffset_eq_kernelOffset (c : Nat) : cgputOffset n.fs c = kernelOffset n.fs (n.fs.cgtod c) := by
  unfold cgputOffset kernelOffset
  rw [dBsize_eq]

/-- `cgget`: right while the byte offset fits an `int`. -/
theorem cggetOffset_eq_iff {c : Nat} (h : 0 ≤ n.fs.cgtod c) :
    cggetOffset n.fs c = n.fs.cgtod c * n.fs.fsize ↔ n.fs.cgtod c * n.fs.fsize < 2 ^ 31 := by
  have hoff : cggetOffset n.fs c = toI32 (n.fs.cgtod c * n.fs.fsize) := by
    unfold cggetOffset
    rw [dBsize_eq, fsbtodb_eq_toI32, toI32_toI32_mul, mul_fsize]
  rw [hoff]
  exact toI32_eq_iff (Int.mul_nonneg h (Int.natCast_nonneg _))

/-- `sbput`: right while the byte offset fits `unsigned`. -/
theorem sbputOffset_eq_iff {c : Nat} (h : 0 ≤ n.fs.cgsblock c) :
    sbputOffset n.fs c = n.fs.cgsblock c * n.fs.fsize ↔ n.fs.cgsblock c * n.fs.fsize < 2 ^ 32 := by
  have hoff : sbputOffset n.fs c = toU32 (n.fs.cgsblock c * n.fs.fsize) := by
    unfold sbputOffset dbtob
    rw [toU32_toU32_mul, fsbtodb_eq_toI32, ← toU32_toU32_mul, toU32_toI32, toU32_toU32_mul, mul_fsize]
  rw [hoff]
  exact toU32_eq_iff (Int.mul_nonneg h (Int.natCast_nonneg _))

theorem cgsblock_nonneg (c : Nat) : 0 ≤ n.fs.cgsblock c := by
  unfold Fs.cgsblock Fs.cgstart
  rw [n.cgoffset_eq, Int.zero_mul, Int.add_zero]
  split <;> positivity

theorem cgtod_nonneg (c : Nat) : 0 ≤ n.fs.cgtod c := by
  unfold Fs.cgtod Fs.cgstart
  rw [n.cgoffset_eq, Int.zero_mul, Int.add_zero]
  split <;> positivity

theorem inoToFsba_nonneg (ino : Nat) : 0 ≤ n.fs.inoToFsba ino := by
  unfold Fs.inoToFsba Fs.cgimin Fs.cgstart
  rw [n.cgoffset_eq, Int.zero_mul, Int.add_zero]
  split <;> positivity

theorem sblockloc_cases : n.sblockloc = 8192 ∨ n.sblockloc = 65536 := by
  unfold Libufs.Newfs.sblockloc
  cases n.fs.magic with
  | ufs1 => exact .inl rfl
  | ufs2 => exact .inr rfl

/-- The fixed place of the superblock is a whole number of blocks. -/
theorem useBreadOffset_sblockloc (i : Nat) :
    useBreadOffset n.sblockloc i = n.sblockloc + DEV_BSIZE * i := by
  unfold useBreadOffset btodb DEV_BSIZE
  rcases sblockloc_cases n with hloc | hloc
  · rw [hloc, toU32_eq_self (by decide) (by decide)]
    omega
  · rw [hloc, toU32_eq_self (by decide) (by decide)]
    omega

end Offsets

/-! ### `newfs` on sectors of 512 bytes -/

section Sector

variable {n : Newfs}

theorem bwriteOffset_eq (hs : n.realsectorsize = DEV_BSIZE) {b : Int} (h0 : -2 ^ 31 ≤ b) (h1 : b < 2 ^ 31) :
    n.bwriteOffset b = b * DEV_BSIZE := by
  unfold Newfs.bwriteOffset
  rw [hs]
  unfold DEV_BSIZE
  exact toI64_eq_self (by omega) (by omega)

theorem wtfsOffset_eq (hs : n.realsectorsize = DEV_BSIZE) (hp : n.partOfs = 0) (f : Int) :
    n.wtfsOffset f = kernelOffset n.fs f := by
  have hb := toI32_bounds (toI32 f * 2 ^ n.fs.fsbtodb)
  unfold Newfs.wtfsOffset
  rw [hp, Nat.cast_zero, Int.zero_add]
  exact bwriteOffset_eq hs hb.1 hb.2

theorem iputOffset_eq (hs : n.realsectorsize = DEV_BSIZE) (ino : Nat) :
    n.iputOffset ino = kernelOffset n.fs (n.fs.inoToFsba ino) := by
  have hb := toI32_bounds (toI32 (n.fs.inoToFsba ino) * 2 ^ n.fs.fsbtodb)
  exact bwriteOffset_eq hs hb.1 hb.2

/-- `initcg` multiplies in 64 bits, and is right up to 2 TiB. -/
theorem initcgOffset_eq (hs : n.realsectorsize = DEV_BSIZE) {c : Nat}
    (h : n.fs.cgsblock c * 2 ^ n.fs.fsbtodb < 2 ^ 32) : n.initcgOffset c = n.fs.cgsblock c * n.fs.fsize := by
  unfold Newfs.initcgOffset dbtobLong
  rw [hs, mul_fsize, fsbtodb_eq_toI32, toU32_toI32, toU32_eq_self (block_nonneg n (cgsblock_nonneg n c)) h]

end Sector

/-! ### All structures -/

/-- Every structure is written to, and read from, its own place. -/
structure Addressed (n : Newfs) : Prop where
  /-- The kernel reads the superblock in 16 pieces. -/
  sblock : ∀ i, i < 16 → useBreadOffset n.sblockloc i = n.sblockloc + DEV_BSIZE * i
  copies : ∀ c, c < n.fs.ncg →
    sbputOffset n.fs c = n.fs.cgsblock c * n.fs.fsize ∧ n.initcgOffset c = n.fs.cgsblock c * n.fs.fsize
  groups : ∀ c, c < n.fs.ncg →
    cgputOffset n.fs c = n.fs.cgtod c * n.fs.fsize ∧ cggetOffset n.fs c = n.fs.cgtod c * n.fs.fsize ∧
      kernelOffset n.fs (n.fs.cgtod c) = n.fs.cgtod c * n.fs.fsize
  first : n.allocOffset = n.fs.cgtod 0 * n.fs.fsize
  inodes : ∀ ino, ino < n.fs.ipg * n.fs.ncg →
    n.wtfsOffset (n.fs.inoToFsba ino) = n.fs.inoToFsba ino * n.fs.fsize ∧
      n.iputOffset ino = n.fs.inoToFsba ino * n.fs.fsize ∧
      inoOffset n.fs ino = n.fs.inoToFsba ino * n.fs.fsize ∧
      kernelOffset n.fs (n.fs.inoToFsba ino) = n.fs.inoToFsba ino * n.fs.fsize
  data : ∀ f, f < n.fs.size →
    n.wtfsOffset f = f * n.fs.fsize ∧ blockOffset n.fs (fsbtodb n.fs f) = f * n.fs.fsize ∧
      kernelOffset n.fs f = f * n.fs.fsize

/-- The real sectors are device blocks, the file system starts where its image does, and no
structure lies behind the limit of a function that accesses it. -/
structure Fits (n : Newfs) : Prop where
  sector : n.realsectorsize = DEV_BSIZE
  partOfs : n.partOfs = 0
  copies : ∀ c, c < n.fs.ncg → n.fs.cgsblock c * n.fs.fsize < 2 ^ 32
  groups : ∀ c, c < n.fs.ncg → n.fs.cgtod c * n.fs.fsize < 2 ^ 31
  inodes : ∀ ino, ino < n.fs.ipg * n.fs.ncg → n.fs.inoToFsba ino * 2 ^ n.fs.fsbtodb < 2 ^ 31
  data : ∀ f : Nat, f < n.fs.size → (f : Int) * 2 ^ n.fs.fsbtodb < 2 ^ 31

section All

variable {n : Newfs}

/-- Fragment 0 shows where `newfs` starts. -/
theorem partOfs_eq_zero (h : n.wtfsOffset 0 = 0) : n.partOfs = 0 := by
  have hge : (1 : Int) ≤ n.realsectorsize := by
    have := n.sector_ge
    unfold DEV_BSIZE at this
    omega
  have hzero : fsbtodb n.fs 0 = 0 := by
    rw [fsbtodb_eq_toI32, Int.zero_mul]
    rfl
  unfold Newfs.wtfsOffset Newfs.bwriteOffset at h
  rw [hzero, Int.add_zero] at h
  have hlt : (n.partOfs : Int) * n.realsectorsize < 2 ^ 63 := by
    exact_mod_cast Nat.mul_lt_mul'' n.partOfs_lt n.sector_lt
  have hnonneg : 0 ≤ (n.partOfs : Int) * n.realsectorsize :=
    Int.mul_nonneg (Int.natCast_nonneg _) (Int.natCast_nonneg _)
  rw [toI64_eq_self (by omega) hlt] at h
  rcases Int.mul_eq_zero.mp h with h | h
  · exact_mod_cast h
  · omega

/-- Fragment 1 shows what `newfs` multiplies by. -/
theorem sector_eq (hp : n.partOfs = 0) (h : n.wtfsOffset 1 = n.fs.fsize) : n.realsectorsize = DEV_BSIZE := by
  have hpos : (0 : Int) < 2 ^ n.fs.fsbtodb := Int.pow_pos (by decide)
  have hpow : (2 : Int) ^ n.fs.fsbtodb ≤ 2 ^ 20 := by
    have h16 := n.fs.bshift_le
    have hle := n.fs.fsbtodb_le
    exact_mod_cast Nat.pow_le_pow_right (by decide : 0 < 2) (by omega : n.fs.fsbtodb ≤ 20)
  have hone : fsbtodb n.fs 1 = 2 ^ n.fs.fsbtodb := by
    rw [fsbtodb_eq_toI32, Int.one_mul, toI32_eq_self (by omega) (by omega)]
  have hlt : (2 : Int) ^ n.fs.fsbtodb * n.realsectorsize < 2 ^ 63 := by
    have hs : (n.realsectorsize : Int) < 2 ^ 31 := by exact_mod_cast n.sector_lt
    have hle := Int.mul_le_mul_of_nonneg_right hpow (Int.natCast_nonneg n.realsectorsize)
    omega
  have hnonneg : 0 ≤ (2 : Int) ^ n.fs.fsbtodb * n.realsectorsize :=
    Int.mul_nonneg hpos.le (Int.natCast_nonneg _)
  unfold Newfs.wtfsOffset Newfs.bwriteOffset at h
  rw [hp, Nat.cast_zero, Int.zero_add, hone, toI64_eq_self (by omega) hlt, fsize_eq] at h
  exact_mod_cast Int.eq_of_mul_eq_mul_left hpos.ne' h

theorem Addressed.fits (h : Addressed n) : Fits n := by
  have hsize := n.size_ge
  have hp : n.partOfs = 0 := by
    refine partOfs_eq_zero ?_
    have hzero := (h.data 0 (by omega)).1
    rwa [Nat.cast_zero, Int.zero_mul] at hzero
  refine ⟨sector_eq hp ?_, hp, fun c hc => ?_, fun c hc => ?_, fun ino hino => ?_, fun f hf => ?_⟩
  · have hone := (h.data 1 (by omega)).1
    rwa [Nat.cast_one, Int.one_mul] at hone
  · exact (sbputOffset_eq_iff n (cgsblock_nonneg n c)).mp (h.copies c hc).1
  · exact (cggetOffset_eq_iff n (cgtod_nonneg n c)).mp (h.groups c hc).2.1
  · exact (kernelOffset_eq_iff n (inoToFsba_nonneg n ino)).mp (h.inodes ino hino).2.2.2
  · exact (kernelOffset_eq_iff n (Int.natCast_nonneg f)).mp (h.data f hf).2.2

/-- Below a byte offset of 4 GiB every block number fits. -/
theorem block_lt {f : Int} (h : f * n.fs.fsize < 2 ^ 32) : f * 2 ^ n.fs.fsbtodb < 2 ^ 23 := by
  rw [mul_fsize] at h
  unfold DEV_BSIZE at h
  omega

theorem Fits.addressed (h : Fits n) : Addressed n := by
  have hcg : ∀ c : Nat, c < n.fs.ncg → kernelOffset n.fs (n.fs.cgtod c) = n.fs.cgtod c * n.fs.fsize := by
    intro c hc
    have hlt := block_lt (n := n) (f := n.fs.cgtod c) (by have := h.groups c hc; omega)
    exact (kernelOffset_eq_iff n (cgtod_nonneg n c)).mpr (by omega)
  refine ⟨fun i _ => useBreadOffset_sblockloc n i, fun c hc => ⟨?_, ?_⟩, fun c hc => ⟨?_, ?_, hcg c hc⟩, ?_,
    fun ino hino => ?_, fun f hf => ?_⟩
  · exact (sbputOffset_eq_iff n (cgsblock_nonneg n c)).mpr (h.copies c hc)
  · have hlt := block_lt (h.copies c hc)
    exact initcgOffset_eq h.sector (by omega)
  · rw [cgputOffset_eq_kernelOffset]
    exact hcg c hc
  · exact (cggetOffset_eq_iff n (cgtod_nonneg n c)).mpr (h.groups c hc)
  · exact (wtfsOffset_eq h.sector h.partOfs _).trans (hcg 0 n.fs.ncg_pos)
  · have heq := (kernelOffset_eq_iff n (inoToFsba_nonneg n ino)).mpr (h.inodes ino hino)
    exact ⟨(wtfsOffset_eq h.sector h.partOfs _).trans heq, (iputOffset_eq h.sector ino).trans heq,
      (blockOffset_eq_kernelOffset n).trans heq, heq⟩
  · have heq := (kernelOffset_eq_iff n (Int.natCast_nonneg f)).mpr (h.data f hf)
    exact ⟨(wtfsOffset_eq h.sector h.partOfs _).trans heq, (blockOffset_eq_kernelOffset n).trans heq, heq⟩

end All

/-- Every structure is accessed at its own place exactly in file systems that fit. -/
theorem addressed_iff (n : Newfs) : Addressed n ↔ Fits n := ⟨Addressed.fits, Fits.addressed⟩

theorem imageFs_fragshift_le : 3 ≤ 3 := le_rfl

theorem imageFs_bshift_le : 12 + 3 ≤ 20 := by decide

theorem imageFs_fpg_pos : 0 < 16384 := by decide

theorem imageFs_frag_dvd_fpg : 2 ^ 3 ∣ 16384 := by decide

theorem imageFs_ncg_pos : 0 < 1 := by decide

theorem imageFs_ncg_lt : 1 < 2 ^ 32 := by decide

theorem imageFs_ipg_pos : 0 < 1024 := by decide

theorem imageFs_inopb_pos : 0 < 128 := by decide

theorem imageFs_size_lt : Magic.ufs2 = .ufs1 → 16384 < 2 ^ 31 := by decide

theorem imageFs_fsbtodb_le : 3 ≤ 12 := by decide

theorem imageFs_four_le_nindir : 4 ≤ 4096 := by decide

theorem imageFs_nindir_le : 4 * 4096 ≤ 2 ^ (12 + 3) := by decide

/-- 64 MiB in one group, with fragments of 4096 bytes. -/
def imageFs : Fs where
  magic := .ufs2
  fragshift := 3
  fshift := 12
  fsbtodb := 3
  size := 16384
  ncg := 1
  fpg := 16384
  ipg := 1024
  sblkno := 24
  cblkno := 32
  iblkno := 40
  dblkno := 104
  metaspace := 0
  oldCgoffset := 0
  oldCgmask := 0
  contigsumsize := 0
  dsize := 16280
  minfree := 8
  nindir := 4096
  inopb := 128
  fragshift_le := imageFs_fragshift_le
  bshift_le := imageFs_bshift_le
  fpg_pos := imageFs_fpg_pos
  frag_dvd_fpg := imageFs_frag_dvd_fpg
  ncg_pos := imageFs_ncg_pos
  ncg_lt := imageFs_ncg_lt
  ipg_pos := imageFs_ipg_pos
  inopb_pos := imageFs_inopb_pos
  size_lt := imageFs_size_lt
  fsbtodb_le := imageFs_fsbtodb_le
  four_le_nindir := imageFs_four_le_nindir
  nindir_le := imageFs_nindir_le

theorem largeFs_ncg_pos : 0 < 64 := by decide

theorem largeFs_ncg_lt : 64 < 2 ^ 32 := by decide

theorem largeFs_size_lt : imageFs.magic = .ufs1 → 1048576 < 2 ^ 31 := by decide

/-- 64 such groups. -/
def largeFs : Fs :=
  { imageFs with
    size := 1048576, ncg := 64
    ncg_pos := largeFs_ncg_pos, ncg_lt := largeFs_ncg_lt
    size_lt := largeFs_size_lt }

/-- `newfs` of a file system on an image file. -/
def newfsOf (fs : Fs) (sector : Nat) (sector_ge : DEV_BSIZE ≤ sector) (sector_lt : sector < 2 ^ 31)
    (fsize_ge : DEV_BSIZE ≤ fs.fsize) (fsbtodb_eq : fs.fsbtodb = Nat.log2 (fs.fsize / DEV_BSIZE))
    (cgoffset_eq : fs.oldCgoffset = 0) (size_ge : 2 ≤ fs.size) : Newfs where
  fs := fs
  realsectorsize := sector
  partOfs := 0
  sector_ge := sector_ge
  sector_lt := sector_lt
  partOfs_lt := by decide
  fsize_ge := fsize_ge
  fsbtodb_eq := fsbtodb_eq
  cgoffset_eq := cgoffset_eq
  size_ge := size_ge

/-- Sectors of 4096 bytes. -/
def bigSectors : Newfs := newfsOf imageFs 4096 (by decide) (by decide) (by decide) (by decide) rfl (by decide)

/-- 4 GiB on sectors of 512 bytes. -/
def bigDisk : Newfs := newfsOf largeFs 512 (by decide) (by decide) (by decide) (by decide) rfl (by decide)

/-- With larger sectors fragment 1 is written eight fragments behind its place, and in a
larger file system `cgget` looks for group 40 in front of the device. -/
theorem not_addressed : ¬ Addressed bigSectors ∧ ¬ Addressed bigDisk := by
  constructor
  · intro h
    exact absurd (h.data 1 (by decide)).1 (by decide)
  · intro h
    exact absurd (h.groups 40 (by decide)).2.1 (by decide)

end UfsX.Proofs.Address
