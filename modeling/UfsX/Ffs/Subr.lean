import UfsX.Ffs.Fs

/-!
# `UfsX.Ffs.Subr`: the map helpers of `ffs_subr.c` and `scanc`

The block operations `ffs_isblock`, `ffs_isfreeblock`, `ffs_clrblock` and
`ffs_setblock`, the fragment summary update `ffs_fragacct`, the cluster
summary update `ffs_clusteracct`, and the table scan `scanc`.

Loops that walk a map with a running byte and a running mask keep these two
variables here as well. A loop over a C `int` whose bounds are known before it
starts recurses on the number of iterations left.
-/

set_option autoImplicit false

namespace UfsX.Ffs

open UfsX.Lib

variable (fs : Fs)

/-- `blkmap`: the bits of the block at fragment `loc`. -/
def blkmap (m : Bitmap) (loc : Nat) : Nat :=
  ((m (loc / 8)).toNat >>> (loc % 8)) &&& (0xff >>> (8 - fs.frag))

/-- Check if a block is available. -/
def ffsIsblock (cp : Bitmap) (h : Nat) : Bool :=
  match fs.frag with
  | 8 => cp h == 0xff#8
  | 4 =>
      let mask : BitVec 8 := 0x0f#8 <<< ((h &&& 0x1) <<< 2)
      (cp (h >>> 1) &&& mask) == mask
  | 2 =>
      let mask : BitVec 8 := 0x03#8 <<< ((h &&& 0x3) <<< 1)
      (cp (h >>> 2) &&& mask) == mask
  | 1 =>
      let mask : BitVec 8 := 0x01#8 <<< (h &&& 0x7)
      (cp (h >>> 3) &&& mask) == mask
  | _ => false

/-- Check if a block is free, in the sense of the name: no bit of it is set in
the free map. -/
def ffsIsfreeblock (cp : Bitmap) (h : Nat) : Bool :=
  match fs.frag with
  | 8 => cp h == 0#8
  | 4 => (cp (h >>> 1) &&& (0x0f#8 <<< ((h &&& 0x1) <<< 2))) == 0#8
  | 2 => (cp (h >>> 2) &&& (0x03#8 <<< ((h &&& 0x3) <<< 1))) == 0#8
  | 1 => (cp (h >>> 3) &&& (0x01#8 <<< (h &&& 0x7))) == 0#8
  | _ => false

/-- Take a block out of the map. -/
def ffsClrblock (cp : Bitmap) (h : Nat) : Bitmap :=
  match fs.frag with
  | 8 => Function.update cp h 0#8
  | 4 => Function.update cp (h >>> 1)
      (cp (h >>> 1) &&& ~~~(0x0f#8 <<< ((h &&& 0x1) <<< 2)))
  | 2 => Function.update cp (h >>> 2)
      (cp (h >>> 2) &&& ~~~(0x03#8 <<< ((h &&& 0x3) <<< 1)))
  | 1 => Function.update cp (h >>> 3)
      (cp (h >>> 3) &&& ~~~(0x01#8 <<< (h &&& 0x7)))
  | _ => cp

/-- Put a block into the map. -/
def ffsSetblock (cp : Bitmap) (h : Nat) : Bitmap :=
  match fs.frag with
  | 8 => Function.update cp h 0xff#8
  | 4 => Function.update cp (h >>> 1)
      (cp (h >>> 1) ||| (0x0f#8 <<< ((h &&& 0x1) <<< 2)))
  | 2 => Function.update cp (h >>> 2)
      (cp (h >>> 2) ||| (0x03#8 <<< ((h &&& 0x3) <<< 1)))
  | 1 => Function.update cp (h >>> 3)
      (cp (h >>> 3) ||| (0x01#8 <<< (h &&& 0x7)))
  | _ => cp

/-- The inner loop of `ffs_fragacct`: every match of the pattern adds `cnt` to
`fraglist[siz]` and skips the run it matched. `fuel` bounds the iterations;
`pos` grows in each. -/
def fragacctScan (fragmap siz : Nat) (cnt : Int) :
    Nat → Nat → Nat → Nat → (Nat → Int) → (Nat → Int)
  | 0, _, _, _, fraglist => fraglist
  | fuel + 1, pos, field, subfield, fraglist =>
      if pos ≤ fs.frag then
        if fragMatch fragmap field subfield then
          fragacctScan fragmap siz cnt fuel (pos + siz + 1) (field <<< siz <<< 1)
            (subfield <<< siz <<< 1)
            (Function.update fraglist siz (fraglist siz + cnt))
        else
          fragacctScan fragmap siz cnt fuel (pos + 1) (field <<< 1) (subfield <<< 1) fraglist
      else fraglist

/-- The outer loop of `ffs_fragacct` over the sizes `siz, siz + 1, ...`. -/
def fragacctSizes (fragmap : Nat) (cnt : Int) : Nat → Nat → (Nat → Int) → (Nat → Int)
  | 0, _, fraglist => fraglist
  | fuel + 1, siz, fraglist =>
      if siz < fs.frag then
        let inblk := (fragtbl fs.frag).getD fragmap 0 <<< 1
        if inblk &&& (1 <<< (siz + fs.frag % 8)) = 0 then
          fragacctSizes fragmap cnt fuel (siz + 1) fraglist
        else
          fragacctSizes fragmap cnt fuel (siz + 1)
            (fragacctScan fs (fragmap <<< 1) siz cnt (fs.frag + 1) siz (around siz) (inside siz)
              fraglist)
      else fraglist

/-- Update the `frsum` fields to reflect addition or deletion of some
frags. -/
def ffsFragacct (fragmap : Nat) (fraglist : Nat → Int) (cnt : Int) : Nat → Int :=
  fragacctSizes fs fragmap cnt fs.frag 1 fraglist

/-- The forward loop of `ffs_clusteracct`: the number of set bits found from
`i` on. `left` is `end - i`, `map` the current byte, `mapp` the index of the
next one. -/
def clusterForw (freemapp : Bitmap) : Nat → Nat → BitVec 8 → BitVec 8 → Nat → Nat
  | 0, _, _, _, _ => 0
  | left + 1, i, map, bit, mapp =>
      if map &&& bit == 0#8 then 0
      else if i &&& 7 ≠ 7 then clusterForw freemapp left (i + 1) map (bit <<< 1) mapp + 1
      else clusterForw freemapp left (i + 1) (freemapp mapp) 1#8 (mapp + 1) + 1

/-- The backward loop of `ffs_clusteracct`. `left` is `i - end`; the block
looked at is `i - 1`, since `i` counts from the block above. -/
def clusterBack (freemapp : Bitmap) : Nat → Nat → BitVec 8 → BitVec 8 → Nat → Nat
  | 0, _, _, _, _ => 0
  | left + 1, i, map, bit, mapp =>
      if map &&& bit == 0#8 then 0
      else if (i - 1) &&& 7 ≠ 0 then clusterBack freemapp left (i - 1) map (bit >>> 1) mapp + 1
      else clusterBack freemapp left (i - 1) (freemapp (mapp - 1)) 0x80#8 (mapp - 1) + 1

/-- The last loop of `ffs_clusteracct`: the largest size, at most `i`, with a
non-zero count, or 0. -/
def maxClusterLoop (sump : Nat → Int) : Nat → Nat
  | 0 => 0
  | i + 1 => if sump (i + 1) > 0 then i + 1 else maxClusterLoop sump i

/-- The two searches of `ffs_clusteracct` from block `blkno`: the number of
free blocks found going forward and going backward, each limited to
`fs_contigsumsize` and to the blocks of the group. -/
def clusterSpan (c : Cg) (freemapp : Bitmap) (blkno : Nat) : Nat × Nat :=
  let start := blkno + 1
  let stop := min (start + fs.contigsumsize) c.nclusterblks
  let forw := clusterForw freemapp (stop - start) start (freemapp (start / 8))
    (1#8 <<< (start % 8)) (start / 8 + 1)
  let back := clusterBack freemapp (min blkno fs.contigsumsize) blkno
    (freemapp ((blkno - 1) / 8)) (1#8 <<< ((blkno - 1) % 8)) ((blkno - 1) / 8)
  (forw, back)

/-- `ffs_clusteracct`: update the cluster map because of an allocation
(`cnt = -1`) or a free (`cnt = 1`) of block `blkno` in group `cg`. -/
def ffsClusteracct (s : State) (cg blkno : Nat) (cnt : Int) : State :=
  if fs.contigsumsize = 0 then s
  else
    let c := s.cgs cg
    -- Allocate or clear the actual block.
    let freemapp := if cnt > 0 then c.clustersfree.setbit blkno else c.clustersfree.clrbit blkno
    let (forw, back) := clusterSpan fs c freemapp blkno
    -- Account for old cluster and the possibly new forward and back clusters.
    let i := min (back + forw + 1) fs.contigsumsize
    let sump := Function.update c.clustersum i (c.clustersum i + cnt)
    let sump := if back > 0 then Function.update sump back (sump back - cnt) else sump
    let sump := if forw > 0 then Function.update sump forw (sump forw - cnt) else sump
    -- Update cluster summary information.
    { s.setCg cg { c with clustersfree := freemapp, clustersum := sump } with
      maxcluster := Function.update s.maxcluster c.cgx (maxClusterLoop sump fs.contigsumsize) }

/-- `scanc`: the number of bytes left when the first byte with a table entry
in `mask` is found, or 0. `i` is the index of the byte `cp` points to. -/
def scanc (cp : Bitmap) (table : List Nat) (mask : Nat) : Nat → Nat → Nat
  | 0, _ => 0
  | size + 1, i =>
      if Nat.land (table.getD (cp i).toNat 0) mask ≠ 0 then size + 1
      else scanc cp table mask size (i + 1)

end UfsX.Ffs
