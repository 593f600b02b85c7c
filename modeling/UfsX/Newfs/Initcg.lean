import UfsX.Newfs.Mkfs

/-!
# `UfsX.Newfs.Initcg`: the groups and the first directories

The second part of `mkfs`. With the sizes known it fills in the totals of the superblock,
builds the groups (`initcg`), and makes the root directory and `.snap` in group 0 (`fsinit`),
for which it reads that group back from the disk and writes it again.

A group that is larger than a block reaches into the blocks of inodes behind it, which are
written after it. `back` is what is then on the disk where a group has been written. The
writes themselves succeed, and so does `malloc`. Time stamps, check-hashes and what is in the
inodes play no part, and neither do the options that only print or stop half way.

`none` is an `exit`. A summary that is too large for the `int32_t` `fs_cssize` is one as
well: `calloc` fails for a negative size, and `fscs` is too short for one that has been cut.
-/

set_option autoImplicit false

namespace UfsX.Newfs

open UfsX.Lib UfsX.Compat UfsX.Ffs

/-- `sizeof(struct csum)` -/
def csumSize : Nat := 16

def UFS_ROOTINO : Nat := 2

/-- `offsetof(struct cg, cg_space)` -/
def cgSpace : Nat := 168

/-! ### Blocks of the map -/

/-- Check if a block is available. -/
def isblock (frag : Nat) (cp : Bitmap) (h : Nat) : Bool :=
  match frag with
  | 8 => cp h == 0xff#8
  | 4 =>
      let mask : BitVec 8 := 0x0f#8 <<< ((h &&& 0x1) <<< 2)
      (cp (h >>> 1) &&& mask) == mask
  | 2 =>
      let mask : BitVec 8 := 0x03#8 <<< ((h &&& 0x3) <<< 1)
      (cp (h >>> 2) &&& mask) == mask
  | 1 =>
      let mask : BitVec 8 := 0x01#8 <<< (h &&& 0x7)
      (cp (h >>> 3) &&& mask) == mask
  | _ => false

/-- Take a block out of the map. -/
def clrblock (frag : Nat) (cp : Bitmap) (h : Nat) : Bitmap :=
  match frag with
  | 8 => Function.update cp h 0#8
  | 4 => Function.update cp (h >>> 1) (cp (h >>> 1) &&& ~~~(0x0f#8 <<< ((h &&& 0x1) <<< 2)))
  | 2 => Function.update cp (h >>> 2) (cp (h >>> 2) &&& ~~~(0x03#8 <<< ((h &&& 0x3) <<< 1)))
  | 1 => Function.update cp (h >>> 3) (cp (h >>> 3) &&& ~~~(0x01#8 <<< (h &&& 0x7)))
  | _ => cp

/-- Put a block into the map. -/
def setblock (frag : Nat) (cp : Bitmap) (h : Nat) : Bitmap :=
  match frag with
  | 8 => Function.update cp h 0xff#8
  | 4 => Function.update cp (h >>> 1) (cp (h >>> 1) ||| (0x0f#8 <<< ((h &&& 0x1) <<< 2)))
  | 2 => Function.update cp (h >>> 2) (cp (h >>> 2) ||| (0x03#8 <<< ((h &&& 0x3) <<< 1)))
  | 1 => Function.update cp (h >>> 3) (cp (h >>> 3) ||| (0x01#8 <<< (h &&& 0x7)))
  | _ => cp

/-! ### The layout of a group -/

/-- The offsets of the maps in a group. -/
structure CgOffsets where
  oldBtotoff : Nat
  oldBoff : Nat
  iusedoff : Nat
  freeoff : Nat
  clustersumoff : Nat
  clusteroff : Nat
  nextfreeoff : Nat
  deriving DecidableEq, Repr

namespace Geometry

variable (g : Geometry)

/-- `fs_cgsize` -/
def cgsize : Nat := roundup g.CGSIZE g.super.fsize

/-- `cg_iusedoff` and the offsets in front of it. -/
def iusedoff : Nat × Nat × Nat :=
  match g.super.Oflag with
  | .ufs2 => (0, 0, cgSpace)
  | .ufs1 =>
      let oldBtotoff := cgSpace
      let oldBoff := oldBtotoff + g.super.oldCpg * 4
      (oldBtotoff, oldBoff, oldBoff + g.super.oldCpg * 2)

def offsets : CgOffsets :=
  let (oldBtotoff, oldBoff, iusedoff) := g.iusedoff
  let freeoff := iusedoff + howmany g.ipg 8
  let nextfreeoff := freeoff + howmany g.fpg 8
  if g.super.contigsumsize > 0 then
    let clustersumoff := roundup nextfreeoff 4 - 4
    let clusteroff := clustersumoff + (g.super.contigsumsize + 1) * 4
    ⟨oldBtotoff, oldBoff, iusedoff, freeoff, clustersumoff, clusteroff,
      clusteroff + howmany (g.fpg >>> g.super.fragshift) 8⟩
  else ⟨oldBtotoff, oldBoff, iusedoff, freeoff, 0, 0, nextfreeoff⟩

/-- `fs_cssize` -/
def cssize : Int := toI32 (roundup (g.ncg * csumSize) g.super.fsize)

/-- The fragments of the summary. -/
def csfrags : Nat := howmany g.cssize.toNat g.super.fsize

/-- `fs_dsize`, before the summary is taken off. The product has the 32 bits of `fs_ncg`. -/
def dsizeAll : Int :=
  g.super.size - g.super.sblkno - toU32 (g.ncg * ((g.dblkno : Int) - g.super.sblkno))

/-- `fs_dsize` -/
def dsize : Int := g.dsizeAll - g.csfrags

/-- `fs_cstotal`, as the groups are to be. -/
def cstotal : Csum where
  ndir := 0
  nbfree := g.dsizeAll / g.super.frag - howmany g.csfrags g.super.frag
  nifree := toU32 (g.ncg * g.ipg) - UFS_ROOTINO
  nffree := g.super.size % g.super.frag
    + if g.csfrags % g.super.frag > 0 then g.super.frag - g.csfrags % g.super.frag else 0

end Geometry

/-! ### The loops of `initcg` -/

section Loops

variable (s : Super)

/-- What is done for each whole block. -/
def freeBlock (acg : Cg) (blkno : Nat) : Cg :=
  { acg with
    blksfree := setblock s.frag acg.blksfree blkno
    clustersfree := if s.contigsumsize > 0 then acg.clustersfree.setbit blkno else acg.clustersfree
    cs := { acg.cs with nbfree := acg.cs.nbfree + 1 } }

/-- The blocks in front of the superblock. `fuel` bounds the rounds. -/
def lowerLoop (dlower : Nat) : Nat → Nat → Cg → Cg
  | 0, _, acg => acg
  | fuel + 1, d, acg =>
      if d < dlower then lowerLoop dlower fuel (d + s.frag) (freeBlock s acg (d / s.frag)) else acg

/-- The blocks behind the inodes: `d` at the end, and the group. -/
def upperLoop : Nat → Nat → Cg → Nat × Cg
  | 0, d, acg => (d, acg)
  | fuel + 1, d, acg =>
      if d + s.frag ≤ acg.ndblk then upperLoop fuel (d + s.frag) (freeBlock s acg (d / s.frag))
      else (d, acg)

end Loops

/-- Free the `n` fragments from `d` on. -/
def freeFragments (acg : Cg) (d : Nat) : Nat → Cg
  | 0 => acg
  | n + 1 =>
      freeFragments { acg with
        blksfree := acg.blksfree.setbit d
        cs := { acg.cs with nffree := acg.cs.nffree + 1 } } (d + 1) n

/-- `acg.cg_frsum[size]++` -/
def countFrags (acg : Cg) (size : Nat) : Cg :=
  { acg with frsum := Function.update acg.frsum size (acg.frsum size + 1) }

/-- The fragments for data in front of a whole block: where that block is, and the group. -/
def freeFront (s : Super) (acg : Cg) (dupper : Nat) : Nat × Cg :=
  let i := dupper % s.frag
  if i ≠ 0 then (dupper + (s.frag - i), freeFragments (countFrags acg (s.frag - i)) dupper (s.frag - i))
  else (dupper, acg)

/-- The fragments behind the last whole block. -/
def freeBehind (acg : Cg) (d : Nat) : Cg :=
  if d < acg.ndblk then freeFragments (countFrags acg (acg.ndblk - d)) d (acg.ndblk - d) else acg

/-- `sump[run]++`, with `run` capped. -/
def countRun (contigsumsize run : Nat) (sump : Nat → Int) : Nat → Int :=
  let run := if run > contigsumsize then contigsumsize else run
  Function.update sump run (sump run + 1)

/-- The loop over the map of the clusters, with the rounds that are left. -/
def clusterLoop (contigsumsize : Nat) (clustersfree : Bitmap) :
    Nat → Nat → BitVec 8 → Nat → BitVec 8 → Nat → (Nat → Int) → Nat × (Nat → Int)
  | 0, _, _, _, _, run, sump => (run, sump)
  | n + 1, i, map, mapp, bit, run, sump =>
      let (run, sump) :=
        if map &&& bit ≠ 0#8 then (run + 1, sump)
        else if run ≠ 0 then (0, countRun contigsumsize run sump)
        else (run, sump)
      if i &&& 7 ≠ 7 then
        clusterLoop contigsumsize clustersfree n (i + 1) map mapp (bit <<< 1) run sump
      else clusterLoop contigsumsize clustersfree n (i + 1) (clustersfree mapp) (mapp + 1) 1#8 run sump

/-- `cg_clustersum`, from the map. -/
def countClusters (contigsumsize nclusterblks : Nat) (clustersfree : Bitmap) (sump : Nat → Int) : Nat → Int :=
  let (run, sump) := clusterLoop contigsumsize clustersfree nclusterblks 0 (clustersfree 0) 1 1#8 0 sump
  if run ≠ 0 then countRun contigsumsize run sump else sump

/-- Count the clusters, if they are counted. -/
def sumClusters (s : Super) (acg : Cg) : Cg :=
  if s.contigsumsize > 0 then
    { acg with clustersum := countClusters s.contigsumsize acg.nclusterblks acg.clustersfree acg.clustersum }
  else acg

/-- The first `n` inodes are in use. -/
def useInodes (acg : Cg) : Nat → Cg
  | 0 => acg
  | n + 1 =>
      let acg := useInodes acg n
      { acg with
        inosused := acg.inosused.setbit n
        cs := { acg.cs with nifree := acg.cs.nifree - 1 } }

/-! ### A group -/

namespace Geometry

variable (g : Geometry)

/-- The header of group `cylno`, all of whose maps are clear. -/
def emptyCg (cylno : Nat) : Cg where
  cgx := cylno
  ndblk := g.groupSize cylno
  cs := ⟨0, 0, 0, 0⟩
  rotor := 0
  frotor := 0
  irotor := 0
  frsum := fun _ => 0
  blksfree := fun _ => 0
  nclusterblks := if g.super.contigsumsize > 0 then g.groupSize cylno / g.super.frag else 0
  clustersum := fun _ => 0
  clustersfree := fun _ => 0
  inosused := fun _ => 0
  niblk := match g.super.Oflag with
    | .ufs2 => g.ipg
    | .ufs1 => 0
  initediblk := match g.super.Oflag with
    | .ufs2 => min g.ipg (2 * g.super.inopb)
    | .ufs1 => 0

/-- `dupper`: the first fragment for data. -/
def dupper (cylno : Nat) : Nat := if cylno = 0 then g.dblkno + g.csfrags else g.dblkno

/-- `initcg(cylno)`: the group that is written. -/
def initcg (cylno : Nat) : Cg :=
  let s := g.super
  let acg := g.emptyCg cylno
  let acg := { acg with cs := { acg.cs with nifree := acg.cs.nifree + g.ipg } }
  let acg := if cylno = 0 then useInodes acg UFS_ROOTINO else acg
  -- in group 0 the space in front is for the boot blocks
  let acg := if cylno > 0 then lowerLoop s s.sblkno s.sblkno 0 acg else acg
  let (dupper, acg) := freeFront s acg (g.dupper cylno)
  let (d, acg) := upperLoop s acg.ndblk dupper acg
  sumClusters s (freeBehind acg d)

end Geometry

/-! ### The first directories -/

/-- A new file system: what is in the groups on the disk, and the summaries. -/
structure NewFs where
  cgs : Nat → Cg
  /-- `fscs` -/
  csp : Nat → Csum
  cstotal : Csum

section Fsinit

variable (g : Geometry) (back : Cg → Cg)

/-- Write group 0. -/
def cgwrite (fs : NewFs) (acg : Cg) : NewFs := { fs with cgs := Function.update fs.cgs 0 (back acg) }

/-- Add to the summaries of group 0 and of the file system. -/
def addCsum (fs : NewFs) (f : Csum → Csum) : NewFs :=
  { fs with cstotal := f fs.cstotal, csp := Function.update fs.csp 0 (f (fs.csp 0)) }

/-- The loop of `alloc` for a free block, with the rounds that are left: its first fragment. -/
def findBlock (acg : Cg) : Nat → Nat → Option Nat
  | 0, _ => none
  | fuel + 1, d =>
      if d < acg.ndblk then
        if isblock g.super.frag acg.blksfree (d / g.super.frag) then some d
        else findBlock acg fuel (d + g.super.frag)
      else none

/-- `alloc(size, IFDIR)`: a block or a fragment of group 0 for a directory. -/
def alloc (fs : NewFs) (size : Nat) : Option (NewFs × Nat) := do
  let acg := fs.cgs 0
  if acg.cs.nbfree = 0 then none
  else
    let d ← findBlock g acg (acg.ndblk + 1) 0
    let blkno := d / g.super.frag
    let taken : Csum → Csum := fun cs => { cs with nbfree := cs.nbfree - 1, ndir := cs.ndir + 1 }
    let acg :=
      { acg with
        blksfree := clrblock g.super.frag acg.blksfree blkno
        clustersfree := if g.super.contigsumsize > 0 then acg.clustersfree.clrbit blkno else acg.clustersfree
        cs := taken acg.cs }
    let fs := addCsum fs taken
    if size ≠ g.super.bsize then
      let frag := howmany size g.super.fsize
      let given : Csum → Csum := fun cs => { cs with nffree := cs.nffree + (g.super.frag - frag) }
      let acg :=
        { acg with
          cs := given acg.cs
          frsum := Function.update acg.frsum (g.super.frag - frag) (acg.frsum (g.super.frag - frag) + 1)
          blksfree := acg.blksfree.setRange (d + frag) (g.super.frag - frag) }
      some (cgwrite back (addCsum fs given) acg, d)
    else some (cgwrite back fs acg, d)

/-- `iput(ip, ino)`, without the inode itself. -/
def iput (fs : NewFs) (ino : Nat) : NewFs :=
  let acg := fs.cgs 0
  let used : Csum → Csum := fun cs => { cs with nifree := cs.nifree - 1 }
  addCsum (cgwrite back fs { acg with cs := used acg.cs, inosused := acg.inosused.setbit ino }) used

/-- `fsinit`: the root directory, and `.snap` unless `nflag` is set. -/
def fsinit (nflag : Bool) (fs : NewFs) : Option NewFs := do
  let (fs, _) ← alloc g back fs g.super.fsize
  let fs := iput back fs UFS_ROOTINO
  if nflag then some fs
  else
    let (fs, _) ← alloc g back fs g.super.fsize
    some (iput back fs (UFS_ROOTINO + 1))

/-- `mkfs`, from where the totals are filled in. Where there are no groups, `alloc` reads none
that has a magic number. -/
def writeFs (nflag : Bool) : Option NewFs :=
  if g.ncg = 0 ∨ g.cssize < g.ncg * csumSize then none
  else if g.offsets.nextfreeoff > g.cgsize then none
  else fsinit g back nflag ⟨fun cylno => back (g.initcg cylno), fun cylno => (g.initcg cylno).cs, g.cstotal⟩

end Fsinit

end UfsX.Newfs
