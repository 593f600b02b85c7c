import UfsX.Ffs.Subr

/-!
# `UfsX.Ffs.Alloc`: block allocation inside a cylinder group

The functions of `ffs_alloc.c` that change the free map of one cylinder
group: `ffs_mapsearch`, `ffs_alloccgblk`, `ffs_alloccg`, `ffs_fragextend`,
`ffs_clusteralloc` and `ffs_blkfree_cg`.

A function that can panic returns `Except Panic`. A function that returns an
address returns 0 for failure, as in the source. `gerr` is the error that
`ffs_getcg` reports for the group (0 for success); a failing `ffs_getcg`
stores a null buffer. Soft updates are off: the `DOINGSOFTDEP` and
`MOUNTEDSOFTDEP` branches are not part of the model.

The UFS lock and the group buffers are visible in `State.log` only.
-/

set_option autoImplicit false

namespace UfsX.Ffs

open UfsX.Lib

variable (fs : Fs)

/-- The position loop at the end of `ffs_mapsearch` inside one block: the
first `pos` whose pattern matches. `left` positions are still to be looked
at. -/
def mapsearchPos (blk : Nat) : Nat → Nat → Nat → Nat → Option Nat
  | 0, _, _, _ => none
  | left + 1, pos, field, subfield =>
      if fragMatch blk field subfield then some pos
      else mapsearchPos blk left (pos + 1) (field <<< 1) (subfield <<< 1)

/-- The block loop at the end of `ffs_mapsearch`: sift through the blocks of
the byte found, `left` of them from fragment `bno` on. -/
def mapsearchSift (m : Bitmap) (allocsiz : Nat) : Nat → Nat → Option Nat
  | 0, _ => none
  | left + 1, bno =>
      match mapsearchPos (blkmap fs m bno <<< 1) (fs.frag + 1 - allocsiz) 0 (around allocsiz)
          (inside allocsiz) with
      | some pos => some (bno + pos)
      | none => mapsearchSift m allocsiz left (bno + fs.frag)

/-- The bit of a `fragtbl` entry that stands for `allocsiz`. -/
def Fs.fragMask (allocsiz : Nat) : Nat := (1 <<< (allocsiz - 1 + fs.frag % 8)) % 256

/-- `ffs_mapsearch`: find a run of exactly `allocsiz` fragments in the group.
Returns the new `cg_frotor`, and the first fragment. -/
def ffsMapsearch (c : Cg) (bpref allocsiz : Nat) : Except Panic (Nat × Nat) :=
  -- Find the fragment by searching through the free block map for an
  -- appropriate bit pattern.
  let start := if bpref ≠ 0 then fs.dtogd bpref / 8 else c.frotor / 8
  let len := fs.mapBytes - start
  let loc := scanc c.blksfree (fragtbl fs.frag) (fs.fragMask allocsiz) len start
  let (start, len, loc) :=
    if loc = 0 then
      (0, start + 1, scanc c.blksfree (fragtbl fs.frag) (fs.fragMask allocsiz) (start + 1) 0)
    else (start, len, loc)
  if loc = 0 then .error .mapCorrupted
  else
    let frotor := (start + len - loc) * 8
    match mapsearchSift fs c.blksfree allocsiz (8 / fs.frag) frotor with
    | some bno => .ok (frotor, bno)
    | none => .error .blockNotInMap

/-- The preference that `ffs_alloccgblk` starts from: the rotor when there is
none, and a block of the right zone of this group when it is in another one.
`dtog` is truncated to an `int`, and compared as an unsigned number. -/
def alloccgblkPref (c : Cg) (bpref : Nat) : Nat :=
  if bpref = 0 then fs.cgbase c.cgx + c.rotor + fs.frag
  else
    let cgbpref := toI32 (fs.dtog bpref)
    if toU32 cgbpref ≠ c.cgx then
      if (bpref : Int) < fs.cgdata cgbpref then (fs.cgmeta c.cgx).toNat
      else (fs.cgdata c.cgx).toNat
    else bpref

/-- Take block `blkno` out of the map and the summaries. -/
def takeBlock (s : State) (cg cgx blkno : Nat) : State :=
  let s := s.modCg cg fun c => { c with blksfree := ffsClrblock fs c.blksfree blkno }
  let s := ffsClusteracct fs s cg blkno (-1)
  { s.addNbfree cg cgx (-1) with fmod := true }

/-- Give the fragments after the first `size` of the block at `bno` back. -/
def giveTail (s : State) (cg cgx bno size : Nat) : State :=
  let i := fs.frag - size
  let s := s.modCg cg fun c => { c with
    blksfree := c.blksfree.setRange (bno + size) i
    frsum := Function.update c.frsum i (c.frsum i + 1) }
  { s.addNffree cg cgx i with fmod := true }

/-- The part of `ffs_alloccgblk` from the label `gotit` on. -/
def alloccgblkTake (s : State) (cg bno size : Nat) : Nat × State :=
  let cgx := (s.cgs cg).cgx
  let s := takeBlock fs s cg cgx (fs.fragstoblks bno)
  let blkno := fs.cgbase cgx + bno
  -- If the caller didn't want the whole block free the frags here.
  let size := fs.numfrags size
  if size ≠ fs.frag then (blkno, giveTail fs s cg cgx (fs.dtogd blkno) size) else (blkno, s)

/-- `ffs_alloccgblk`: allocate a block in a cylinder group. -/
def ffsAlloccgblk (s : State) (cg bpref size : Nat) : Except Panic (Nat × State) :=
  let c := s.cgs cg
  let bpref := alloccgblkPref fs c bpref
  -- If the requested block is available, use it.
  let bno := fs.dtogd (fs.blknum bpref)
  if ffsIsblock fs c.blksfree (fs.fragstoblks bno) then
    let (blkno, s) := alloccgblkTake fs s cg bno size
    .ok (blkno, (s.emit .unlock).emit .lock)
  else do
    -- Take the next available block in this cylinder group.
    let (frotor, bno) ← ffsMapsearch fs c bpref fs.frag
    -- Update cg_rotor only if allocated from the data zone.
    let s := s.modCg cg fun c => { c with
      frotor := frotor
      rotor := if bno ≥ fs.dtogd (fs.cgdata c.cgx).toNat then bno else c.rotor }
    let (blkno, s) := alloccgblkTake fs s cg bno size
    .ok (blkno, (s.emit .unlock).emit .lock)

/-- The search of `ffs_alloccg` for a fragment size that is available, from
`frags` on; `fs_frag` when there is none. -/
def allocsizLoop (c : Cg) : Nat → Nat → Nat
  | 0, allocsiz => allocsiz
  | fuel + 1, allocsiz =>
      if c.frsum allocsiz ≠ 0 then allocsiz else allocsizLoop c fuel (allocsiz + 1)

/-- The common end of `ffs_alloccg` after `ffs_alloccgblk`. -/
def alloccgBlock (s : State) (cg bpref rsize : Nat) : Except Panic (Nat × State) := do
  let (blkno, s) ← ffsAlloccgblk fs (s.emit .lock) cg bpref rsize
  .ok (blkno, (s.emit .unlock).emit (.bdwrite cg))

/-- The exit `fail` of `ffs_alloccg` and `ffs_fragextend`, with the buffer that
`ffs_getcg` stored. -/
def cgFail (s : State) (gerr cg : Nat) : Nat × State :=
  (0, (s.emit (if gerr ≠ 0 then .brelseNull else .brelse cg)).emit .lock)

/-- The calls around `ffs_getcg`: the lock is dropped, and a successful call
hands out the group's buffer. -/
def cgOpen (s : State) (gerr cg : Nat) : State :=
  let s := s.emit .unlock
  if gerr ≠ 0 then s else s.emit (.getcg cg)

section CgOpen

variable (s : State) (gerr cg : Nat)

@[simp] theorem cgOpen_cgs : (cgOpen s gerr cg).cgs = s.cgs := by
  unfold cgOpen
  split <;> rfl

@[simp] theorem cgOpen_csp : (cgOpen s gerr cg).csp = s.csp := by
  unfold cgOpen
  split <;> rfl

@[simp] theorem cgOpen_cstotal : (cgOpen s gerr cg).cstotal = s.cstotal := by
  unfold cgOpen
  split <;> rfl

@[simp] theorem cgOpen_maxcluster : (cgOpen s gerr cg).maxcluster = s.maxcluster := by
  unfold cgOpen
  split <;> rfl

end CgOpen

/-- Take `frags` fragments from `bno` on, the low end of a run of `allocsiz`
free fragments, out of the map and the summaries. -/
def takeFrags (s : State) (cg bno frags allocsiz : Nat) : State :=
  let s := s.modCg cg fun c =>
    let frsum := Function.update c.frsum allocsiz (c.frsum allocsiz - 1)
    { c with
      blksfree := c.blksfree.clrRange bno frags
      frsum := if frags ≠ allocsiz then
          Function.update frsum (allocsiz - frags) (frsum (allocsiz - frags) + 1)
        else frsum }
  { s.addNffree cg cg (-frags) with fmod := true }

/-- `ffs_alloccg`: determine whether a block can be allocated in group `cg`,
and allocate it. `size` is the size searched for and `rsize` the size
wanted. -/
def ffsAlloccg (s : State) (gerr cg bpref size rsize : Nat) : Except Panic (Nat × State) :=
  if (s.csp cg).nbfree = 0 ∧ size = fs.bsize then .ok (0, s)
  else
    let s := cgOpen s gerr cg
    let c := s.cgs cg
    if gerr ≠ 0 ∨ (c.cs.nbfree = 0 ∧ size = fs.bsize) then .ok (cgFail s gerr cg)
    else if size = fs.bsize then alloccgBlock fs s cg bpref rsize
    else
      -- Check to see if any fragments are already available; `allocsiz` is the
      -- size which will be allocated, hacking it down to a smaller size if
      -- necessary.
      let frags := fs.numfrags size
      let allocsiz := allocsizLoop c (fs.frag - frags) frags
      if allocsiz = fs.frag then
        -- No fragments were available, so a block will be allocated, and
        -- hacked up.
        if c.cs.nbfree = 0 then .ok (cgFail s gerr cg)
        else alloccgBlock fs s cg bpref rsize
      else if size ≠ rsize then .error .sizeMismatch
      else do
        let (frotor, bno) ← ffsMapsearch fs c bpref allocsiz
        let s := s.modCg cg fun c => { c with frotor := frotor }
        let s := (takeFrags s cg bno frags allocsiz).emit .lock
        .ok (fs.cgbase cg + bno, (s.emit .unlock).emit (.bdwrite cg))

/-- The second loop of `ffs_fragextend`: the first clear bit at or after `i`
in the `left` bits that are left in the block. -/
def fragextendEnd (m : Bitmap) (bno : Nat) : Nat → Nat → Nat
  | 0, i => i
  | left + 1, i => if m.isclr (bno + i) then i else fragextendEnd m bno left (i + 1)

/-- `ffs_fragextend`: extend the fragment of `osize` bytes at `bprev` to
`nsize` bytes in place, if the space after it is free. -/
def ffsFragextend (s : State) (gerr cg bprev osize nsize : Nat) : Nat × State :=
  if (s.csp cg).nffree < fs.numfrags (nsize - osize) then (0, s)
  else
    let frags := fs.numfrags nsize
    let bbase := fs.fragnum bprev
    -- Cannot extend across a block boundary.
    if bbase > fs.fragnum (bprev + frags - 1) then (0, s)
    else
      let s := cgOpen s gerr cg
      if gerr ≠ 0 then cgFail s gerr cg
      else
        let c := s.cgs cg
        let bno := fs.dtogd bprev
        let ofrags := fs.numfrags osize
        if ∃ i < frags, ofrags ≤ i ∧ c.blksfree.isclr (bno + i) then cgFail s gerr cg
        else
          -- The current fragment can be extended: deduct the count on fragment
          -- being extended into, increase the count on the remaining fragment
          -- (if any), allocate the extended piece.
          let i := fragextendEnd c.blksfree bno (fs.frag - bbase - frags) frags
          let s := (takeFrags s cg (bno + ofrags) (frags - ofrags) (i - ofrags)).emit .lock
          (bprev, (s.emit .unlock).emit (.bdwrite cg))

/-- The first loop of `ffs_clusteralloc`: the first size from `i` on, up to
`fs_contigsumsize`, with a non-zero count. -/
def clusterSizeLoop (sump : Nat → Int) : Nat → Nat → Nat
  | 0, i => i
  | left + 1, i => if sump i > 0 then i else clusterSizeLoop sump left (i + 1)

/-- The cluster map search of `ffs_clusteralloc`: the block `got` at which a
run of `len` free blocks is complete. `left` blocks are still to be looked
at. -/
def clusterSearch (mapp : Bitmap) (len : Nat) :
    Nat → Nat → Nat → BitVec 8 → BitVec 8 → Nat → Option Nat
  | 0, _, _, _, _, _ => none
  | left + 1, run, got, map, bit, next =>
      let run := if map &&& bit == 0#8 then 0 else run + 1
      if map &&& bit != 0#8 ∧ run = len then some got
      else if got &&& 7 ≠ 7 then clusterSearch mapp len left run (got + 1) map (bit <<< 1) next
      else clusterSearch mapp len left run (got + 1) (mapp next) 1#8 (next + 1)

/-- The last loop of `ffs_clusteralloc`: allocate `n` blocks from `bno` on,
each of which must be the one asked for. -/
def clusterTake (cg : Nat) : Nat → Nat → State → Except Panic State
  | 0, _, s => .ok s
  | n + 1, bno, s => do
      let (got, s) ← ffsAlloccgblk fs s cg bno fs.bsize
      if got ≠ bno then .error .clusterLostBlock
      else clusterTake cg n (bno + fs.frag) s

/-- `ffs_clusteralloc`: determine whether a cluster of `len` blocks can be
allocated in group `cg`, and allocate it. -/
def ffsClusteralloc (s : State) (gerr cg bpref len : Nat) : Except Panic (Nat × State) :=
  if s.maxcluster cg < len then .ok (0, s)
  else
    let s := cgOpen s gerr cg
    if gerr ≠ 0 then .ok (0, s.emit .lock)
    else
      let c := s.cgs cg
      -- Check to see if a cluster of the needed size (or bigger) is available
      -- in this cylinder group.
      let i := clusterSizeLoop c.clustersum (fs.contigsumsize + 1 - len) len
      if i > fs.contigsumsize then
        -- Update the cluster summary information to reflect the true maximum
        -- sized cluster.
        let maxcluster :=
          Function.update s.maxcluster cg (maxClusterLoop c.clustersum (len - 1) : Int)
        let s := { s.emit .lock with maxcluster := maxcluster }
        .ok (0, s.emit (.brelse cg))
      else
        -- Search the cluster map to find a big enough cluster, not before the
        -- preference point.
        let bpref := if fs.dtog bpref ≠ cg then (fs.cgdata cg).toNat else fs.blknum bpref
        let bpref := fs.fragstoblks (fs.dtogd bpref)
        match clusterSearch c.clustersfree len (c.nclusterblks - bpref) 0 bpref
            (c.clustersfree (bpref / 8)) (1#8 <<< (bpref % 8)) (bpref / 8 + 1) with
        | none => .ok (0, (s.emit .lock).emit (.brelse cg))
        | some got =>
            -- Allocate the cluster that we have found.
            let first := got + 1 - len
            if ∃ i < len, ffsIsblock fs c.blksfree (first + i) = false then
              .error .clusterMapMismatch
            else
              let bno := fs.cgbase cg + fs.blkstofrags first
              if fs.dtog bno ≠ cg then .error .clusterOutOfGroup
              else do
                let s ← clusterTake fs cg len bno (s.emit .lock)
                .ok (bno, (s.emit .unlock).emit (.bdwrite cg))

/-- `vnode_vtype`, as far as `ffs_blkfree_cg` tells types apart. -/
inductive Vtype where
  | vreg
  | vchr
  | vblk
  | other
  deriving DecidableEq, Repr

/-- The block case of `ffs_blkfree_cg`: put block `fragno` back. -/
def blkfreeBlock (s : State) (cg fragno : Nat) : State :=
  let s := s.modCg cg fun c => { c with blksfree := ffsSetblock fs c.blksfree fragno }
  let s := ffsClusteracct fs s cg fragno 1
  s.addNbfree cg cg 1

/-- Put `frags` fragments from `cgbno` on back into the map and the fragment
counts. `bbase` is the first fragment of their block. -/
def giveFrags (s : State) (cg cgbno frags bbase : Nat) : State :=
  -- Decrement the counts associated with the old frags, deallocate the
  -- fragment, add back in counts associated with the new frags.
  let s := s.modCg cg fun c =>
    let frsum := ffsFragacct fs (blkmap fs c.blksfree bbase) c.frsum (-1)
    let blksfree := c.blksfree.setRange cgbno frags
    { c with
      blksfree := blksfree
      frsum := ffsFragacct fs (blkmap fs blksfree bbase) frsum 1 }
  s.addNffree cg cg frags

/-- The fragment case of `ffs_blkfree_cg`. -/
def blkfreeFrags (s : State) (cg cgbno frags : Nat) : State :=
  let bbase := cgbno - fs.fragnum cgbno
  let s := giveFrags fs s cg cgbno frags bbase
  -- If a complete block has been reassembled, account for it.
  let fragno := fs.fragstoblks bbase
  if ffsIsblock fs (s.cgs cg).blksfree fragno then
    let s := s.addNffree cg cg (-fs.frag)
    let s := ffsClusteracct fs s cg fragno 1
    s.addNbfree cg cg 1
  else s

/-- `ffs_blkfree_cg`: free a block or fragment of `size` bytes at `bno`.
`devvp` is the type of the vnode the group is read through: a snapshot
(`VREG`), a disk device (`VCHR`), or anything else. The range check compares
the low 32 bits of `bno`, and the group number is cut to 32 bits. -/
def ffsBlkfreeCg (s : State) (devvp : Vtype) (gerr : Nat) (bno : Int) (size : Nat) :
    Except Panic State :=
  if devvp ≠ .vreg ∧ devvp ≠ .vchr then .ok s
  else if toU32 bno ≥ fs.size then .ok s
  else if gerr ≠ 0 then .ok s
  -- the remainder has the sign of `bno`
  else if bno.tmod fs.fpg < 0 then .error .wildAccess
  else
    let cg := (toU32 (bno.tdiv fs.fpg)).toNat
    let cgbno := (bno.tmod fs.fpg).toNat
    let s := (s.emit (.getcg cg)).emit .lock
    let c := s.cgs cg
    if size = fs.bsize then
      let fragno := fs.fragstoblks cgbno
      if ffsIsfreeblock fs c.blksfree fragno = false then
        if devvp = .vreg then .ok ((s.emit .unlock).emit (.brelse cg))
        else .error .freeingFreeBlock
      else
        let s := { blkfreeBlock fs s cg fragno with fmod := true }
        .ok ((s.emit .unlock).emit (.bdwrite cg))
    else if ∃ i < fs.numfrags size, c.blksfree.isset (cgbno + i) then .error .freeingFreeFrag
    else
      let s := { blkfreeFrags fs s cg cgbno (fs.numfrags size) with fmod := true }
      .ok ((s.emit .unlock).emit (.bdwrite cg))

end UfsX.Ffs
