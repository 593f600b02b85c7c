import UfsX.Compat.Param
import UfsX.Ffs.Fs
import UfsX.Ffs.Superblock

/-!
# `UfsX.Newfs.Mkfs`: the geometry of a new file system

The first part of `mkfs`: from the options of `newfs` to the sizes in the superblock, before
anything is written but the last sector. The block size is chosen first, then the density
of inodes, then the size of a group, which grows while its map fits in a block and shrinks
until the last group has room. A file system with too many fragments for its inodes starts
again with blocks of twice the size.

The variables of `newfs` are kept from one start to the next, as they are in the source:
`fssize` counts sectors at first, and fragments after. `int`s do not overflow on media below
2^62 bytes. `sectorsize` is `DEV_BSIZE` here; `newfs` sees to that.
-/

set_option autoImplicit false

namespace UfsX.Newfs

open UfsX.Compat UfsX.Ffs

def MAXFRAG : Nat := 8
def FS_MAXCONTIG : Nat := 16
def MINCYLGRPS : Nat := 4
def NFPI : Nat := 2

def howmany (x y : Nat) : Nat := (x + (y - 1)) / y

def roundup (x y : Nat) : Nat := (x + (y - 1)) / y * y

/-- `MAXBSIZE` and `MAXPHYS` of `sys/param.h`. -/
structure Limits extends SysParam where
  MAXPHYS : Nat

/-- The variables of `newfs` that the sizes come from. 0 is the default where there is one. -/
structure Options where
  fssize : Nat
  Oflag : Magic
  bsize : Nat
  fsize : Nat
  maxbsize : Nat
  maxcontig : Nat
  maxblkspercg : Nat
  density : Nat
  /-- What an earlier start has left in `fs_contigsumsize`. -/
  contigsumsize : Nat
  bsize_pos : 0 < bsize
  fsize_pos : 0 < fsize
  contigsumsize_le : contigsumsize ≤ FS_MAXCONTIG

/-- The fields of the superblock that are known before the groups. -/
structure Super where
  Oflag : Magic
  bsize : Nat
  fsize : Nat
  contigsumsize : Nat
  fshift : Nat
  frag : Nat
  fragshift : Nat
  fsbtodb : Nat
  size : Nat
  inopb : Nat
  sblkno : Nat
  cblkno : Nat
  iblkno : Nat
  deriving DecidableEq, Repr

/-! ### Blocks and fragments -/

/-- `POWEROF2` -/
def POWEROF2 (num : Nat) : Bool := num &&& (num - 1) = 0

/-- `fs_fsize` and `fs_bsize`, from the sizes that are asked for. -/
def chooseSizes (L : Limits) (bsize fsize : Nat) : Nat × Nat :=
  let fsize := if fsize < DEV_BSIZE then DEV_BSIZE else fsize
  let bsize := if bsize > L.MAXBSIZE then L.MAXBSIZE else bsize
  let bsize := if bsize < MINBSIZE then MINBSIZE else bsize
  let fsize := if fsize > L.MAXBSIZE then L.MAXBSIZE else fsize
  let bsize := if bsize < fsize then fsize else bsize
  let fsize := if fsize * MAXFRAG < bsize then bsize / MAXFRAG else fsize
  (fsize, bsize)

/-- `maxbsize` and `maxcontig` with their defaults. -/
def withDefaults (L : Limits) (o : Options) : Options :=
  { o with
    maxbsize := if o.maxbsize = 0 then o.bsize else o.maxbsize
    maxcontig := if o.maxcontig = 0 then max 1 (L.MAXPHYS / o.bsize) else o.maxcontig }

/-- `fs_maxbsize` -/
def chooseMaxbsize (o : Options) (bsize : Nat) : Nat :=
  if o.maxbsize < o.bsize ∨ POWEROF2 o.maxbsize = false then bsize
  else if o.maxbsize > FS_MAXCONTIG * bsize then FS_MAXCONTIG * bsize
  else o.maxbsize

/-- `fs_contigsumsize`, which stays what it was where a cluster is a block. -/
def chooseContigsumsize (o : Options) (bsize : Nat) : Nat :=
  let maxcontig := max o.maxcontig (chooseMaxbsize o bsize / bsize)
  if maxcontig > 1 then min maxcontig FS_MAXCONTIG else o.contigsumsize

theorem chooseContigsumsize_le (o : Options) (bsize : Nat) : chooseContigsumsize o bsize ≤ FS_MAXCONTIG := by
  unfold chooseContigsumsize
  simp only []
  split
  case isTrue => exact Nat.min_le_right ..
  case isFalse => exact o.contigsumsize_le

/-- `fs_sblockloc` -/
def sblockloc : Magic → Nat
  | .ufs1 => 8192
  | .ufs2 => 65536

/-- The size of an inode on the disk. -/
def dinodeSize : Magic → Nat
  | .ufs1 => 128
  | .ufs2 => 256

/-- From the label `restart` to the numbers of the first blocks of a group. -/
def setup (L : Limits) (o : Options) : Super :=
  let (fsize, bsize) := chooseSizes L o.bsize o.fsize
  let fshift := Nat.log2 fsize
  let frag := bsize >>> fshift
  let fsbtodb := Nat.log2 (fsize / DEV_BSIZE)
  let sblkno := roundup (howmany (sblockloc o.Oflag + SBLOCKSIZE) fsize) frag
  let cblkno := sblkno + roundup (howmany SBLOCKSIZE fsize) frag
  { Oflag := o.Oflag
    bsize := bsize
    fsize := fsize
    contigsumsize := chooseContigsumsize o bsize
    fshift := fshift
    frag := frag
    fragshift := Nat.log2 frag
    fsbtodb := fsbtodb
    size := o.fssize >>> fsbtodb
    inopb := bsize / dinodeSize o.Oflag
    sblkno := sblkno
    cblkno := cblkno
    iblkno := cblkno + frag }

/-! ### The density of inodes -/

namespace Super

variable (s : Super)

/-- `INOPF` -/
def inopf : Nat := s.inopb >>> s.fragshift

def maxinum : Nat := 2 ^ 32 - s.inopb

def minfragsperinode : Nat := 1 + s.size / s.maxinum

/-- `fs_old_cpg` -/
def oldCpg : Nat :=
  match s.Oflag with
  | .ufs1 => 1
  | .ufs2 => 0

/-- `CGSIZE`. A `struct cg` has 176 bytes. -/
def CGSIZE (fpg ipg : Nat) : Nat :=
  176 + 4 + s.oldCpg * 4 + s.oldCpg * 2 + howmany ipg 8 + howmany fpg 8
    + if s.contigsumsize = 0 then 0 else s.contigsumsize * 4 + howmany (fpg >>> s.fragshift) 8

/-- `fs_ipg` of a group of `fpg` fragments. -/
def ipg (fragsperinode fpg : Nat) : Nat := roundup (howmany fpg fragsperinode) s.inopb

/-- The fragments of a group before its data, in whole blocks. -/
def lastminfpg (ipg : Nat) : Nat := roundup (s.iblkno + ipg / s.inopf) s.frag

/-- The smallest group for a density: `fs_fpg` and `fs_ipg`. -/
def group (fragsperinode : Nat) : Nat × Nat :=
  let minfpg := fragsperinode * s.inopb
  let minfpg := if minfpg > s.size then s.size else minfpg
  let fpg := s.lastminfpg s.inopb
  let fpg := if fpg < minfpg then minfpg else fpg
  let fpg := s.lastminfpg (s.ipg fragsperinode fpg)
  let fpg := if fpg < minfpg then minfpg else fpg
  (fpg, s.ipg fragsperinode fpg)

end Super

/-- `density` as it is when the loop starts. -/
def startDensity (o : Options) (s : Super) : Nat :=
  if o.density = 0 then max NFPI s.minfragsperinode * o.fsize
  else if o.density < s.minfragsperinode * o.fsize then s.minfragsperinode * o.fsize
  else o.density

/-- How the loop for the density ends. -/
inductive DensityEnd where
  /-- With this `fragsperinode`. -/
  | fits (fragsperinode : Nat)
  /-- At `goto restart`. -/
  | restart (density : Nat)
  | loops

/-- Reduce the density until a group fits in a block. -/
def densityLoop (s : Super) : Nat → Nat → DensityEnd
  | 0, _ => .loops
  | fuel + 1, density =>
      let fragsperinode := max (density >>> s.fshift) 1
      if fragsperinode < s.minfragsperinode then .restart density
      else
        let (fpg, ipg) := s.group fragsperinode
        if s.CGSIZE fpg ipg < s.bsize then .fits fragsperinode
        else densityLoop s fuel (density - s.fsize)

/-! ### The size of a group -/

/-- Pack blocks into a group. The result is `fs_fpg` and `fs_ipg`. -/
def growLoop (s : Super) (fragsperinode maxblkspercg : Nat) : Nat → Nat → Nat → Option (Nat × Nat)
  | 0, _, _ => none
  | fuel + 1, fpg, ipg =>
      let back := (fpg - s.frag, s.ipg fragsperinode (fpg - s.frag))
      if fpg < maxblkspercg then
        let ipg := s.ipg fragsperinode fpg
        if s.Oflag = .ufs2 ∨ ipg ≤ 0x7fff then
          if s.size / fpg < MINCYLGRPS then some (fpg, ipg)
          else if s.CGSIZE fpg ipg < s.bsize then
            growLoop s fragsperinode maxblkspercg fuel (fpg + s.frag) ipg
          else if s.CGSIZE fpg ipg = s.bsize then some (fpg, ipg)
          else some back
        else some back
      else some (fpg, ipg)

/-- How the loop for the last group ends. -/
inductive LastEnd where
  | ok (fpg ipg ncg : Nat)
  | exit (code : Nat)
  | dividesByZero
  | loops

/-- Reduce the group until the last one is large enough. `fs_ncg` has 32 bits. -/
def lastLoop (s : Super) (fragsperinode : Nat) : Nat → Nat → Nat → LastEnd
  | 0, _, _ => .loops
  | fuel + 1, fpg, ipg =>
      if fpg = 0 then .dividesByZero
      else
        let ncg := howmany s.size fpg % 2 ^ 32
        if s.size < s.lastminfpg ipg then .exit 28
        else if s.size % fpg ≥ s.lastminfpg ipg ∨ s.size % fpg = 0 then .ok fpg ipg ncg
        else lastLoop s fragsperinode fuel (fpg - s.frag) (s.ipg fragsperinode (fpg - s.frag))

/-- The superblock with its groups. -/
structure Geometry where
  super : Super
  fragsperinode : Nat
  fpg : Nat
  ipg : Nat
  ncg : Nat
  deriving DecidableEq, Repr

namespace Geometry

variable (g : Geometry)

def CGSIZE : Nat := g.super.CGSIZE g.fpg g.ipg

/-- `fs_dblkno` -/
def dblkno : Nat := g.super.iblkno + g.ipg / g.super.inopf

/-- The fragments of group `c`. -/
def groupSize (c : Nat) : Nat := min g.fpg (g.super.size - c * g.fpg)

end Geometry

/-- How `mkfs`, or one start of it, ends. -/
inductive MkfsEnd where
  /-- The groups are about to be written. -/
  | writing (g : Geometry)
  | exit (code : Nat)
  | restart (o : Options)
  | dividesByZero (s : Super)
  | loops

/-- The variables at `goto restart`. -/
def restartOptions (L : Limits) (o : Options) (density : Nat) : Options :=
  { o with
    fssize := (setup L o).size
    bsize := 2 * o.bsize
    fsize := 2 * o.fsize
    density := density
    contigsumsize := (setup L o).contigsumsize
    contigsumsize_le := chooseContigsumsize_le ..
    bsize_pos := Nat.mul_pos Nat.two_pos o.bsize_pos
    fsize_pos := Nat.mul_pos Nat.two_pos o.fsize_pos }

/-- From the size of a group on. -/
def sizeGroups (s : Super) (maxblkspercg fragsperinode : Nat) : MkfsEnd :=
  let (fpg, ipg) := s.group fragsperinode
  match growLoop s fragsperinode maxblkspercg (8 * s.bsize + 2) fpg ipg with
  | none => .loops
  | some (fpg, ipg) =>
      match lastLoop s fragsperinode (fpg + 1) fpg ipg with
      | .ok fpg ipg ncg => .writing ⟨s, fragsperinode, fpg, ipg, ncg⟩
      | .exit code => .exit code
      | .dividesByZero => .dividesByZero s
      | .loops => .loops

/-- One start, from the label `restart` on. -/
def pass (L : Limits) (o : Options) : MkfsEnd :=
  if POWEROF2 o.bsize = false then .exit 16
  else if POWEROF2 o.fsize = false then .exit 17
  else
    let o := withDefaults L o
    let s := setup L o
    let density := startDensity o s
    match densityLoop s (density + 1) density with
    | .loops => .loops
    | .restart density => .restart (restartOptions L o density)
    | .fits fragsperinode => sizeGroups s o.maxblkspercg fragsperinode

/-- All the starts. -/
def passes (L : Limits) : Nat → Options → MkfsEnd
  | 0, _ => .loops
  | fuel + 1, o =>
      match pass L o with
      | .restart o => passes L fuel o
      | e => e

/-- `mkfs`, up to the point where the groups are written. -/
def mkfs (L : Limits) (o : Options) : MkfsEnd :=
  if o.fssize = 0 then .exit 13 else passes L (Nat.log2 o.fssize + 12) o

end UfsX.Newfs
