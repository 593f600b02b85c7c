import UfsX.Ufs.Inode

/-!
# `UfsX.Ufs.Bmap`: `ufs_bmap.c`

From a file's logical block number to a device block, and how many blocks
after it lie next to each other on the device.

`ufs_getlbns` turns the block number into the path of indirect blocks,
`readindir` gets one of them, `ufs_bmaparray` follows the path and
`ufs_bmap` answers the macOS block-map call.
-/

set_option autoImplicit false

namespace UfsX.Ufs

open UfsX.Lib
open UfsX.Ffs (Fs)

/-- `struct indir`: an indirect block and a slot in it. -/
structure Indir where
  lbn : Int
  off : Nat
  deriving DecidableEq, Repr

/-! ### `ufs_getlbns` -/

/-- The first loop: how many levels of indirection are needed. `i` counts the
levels down from `UFS_NIADDR`; the result is `i`, the number of data blocks
below the inode's pointer, and the block number relative to the first of them.
-/
def getlbnsLevel (nindir : Nat) : Nat → Nat → Nat → Option (Nat × Nat × Nat)
  | 0, _, _ => none
  | i + 1, blockcnt, bn =>
      if bn < blockcnt * nindir then some (i + 1, blockcnt * nindir, bn)
      else getlbnsLevel nindir i (blockcnt * nindir) (bn - blockcnt * nindir)

/-- The second loop, with `n` levels to go: the logical number of the block at
this level and the slot of the next one. It stops at once at the block that is
itself looked for. -/
def getlbnsPath (nindir : Nat) (realbn : Int) (bn : Nat) : Nat → Nat → Int → List Indir
  | 0, _, _ => []
  | n + 1, blockcnt, metalbn =>
      if metalbn = realbn then []
      else
        let blockcnt := blockcnt / nindir
        let off := bn / blockcnt % nindir
        ⟨metalbn, off⟩ :: getlbnsPath nindir realbn bn n blockcnt (metalbn - (-1 + off * blockcnt))

/-- `ufs_getlbns`: the path to logical block `realbn`, which is negative for
an indirect block. `*nump` is the length of the result. -/
def ufsGetlbns (nindir : Nat) (realbn : Int) : Except Errno (List Indir) :=
  let bn := realbn.natAbs
  if bn < ndaddr then .ok []
  else
    match getlbnsLevel nindir niaddr 1 (bn - ndaddr) with
    | none => .error .efbig
    | some (i, blockcnt, rel) =>
        let metalbn : Int := -((bn : Int) - rel + niaddr - i)
        .ok (⟨metalbn, niaddr - i⟩ ::
          getlbnsPath nindir realbn rel (niaddr - i + 1) blockcnt metalbn)

/-! ### Buffers of a file -/

/-- The two numbers of a buffer: the logical one, by which it is cached, and
the physical one, by which it is transferred. -/
structure BufNums where
  lblkno : Int
  blkno : Int
  deriving DecidableEq, Repr

/-- A new buffer has the requested number twice. -/
def BufNums.getblk (n : Int) : BufNums := ⟨n, n⟩

def BufNums.setlblkno (b : BufNums) (n : Int) : BufNums := { b with lblkno := n }

/-- Where the pointers of a file's indirect blocks come from. -/
structure Store where
  /-- The valid buffers of the file's vnode, by logical number. -/
  cached : Int → Option (Nat → Int)
  /-- The pointers in a block of the device. -/
  disk : Int → Nat → Int
  /-- The error with which the transfer of a device block fails. -/
  ioerr : Int → Option Errno
  /-- The file's own block map, through which `buf_strategy` goes when a
  buffer's two numbers are equal. -/
  blockmap : Int → Except Errno Int

namespace Store

variable (st : Store)

/-- Transfer of one device block. -/
def transfer (n : Int) : Except Errno (Nat → Int) :=
  match st.ioerr n with
  | some e => .error e
  | none => .ok (st.disk n)

/-- `buf_strategy` with `B_READ`. -/
def strategy (b : BufNums) : Except Errno (Nat → Int) :=
  if b.lblkno = b.blkno then
    match st.blockmap b.lblkno with
    | .error e => .error e
    | .ok n => st.transfer n
  else st.transfer b.blkno

/-- The pointers that the file's indirect block `lbn` at address `daddr` has
now: those in its buffer, or those on the device. -/
def ind (fs : Fs) (lbn daddr : Int) : Nat → Int :=
  (st.cached lbn).getD (st.disk (blkptrtodb fs daddr))

end Store

/-- `readindir`. The address goes into the buffer with `buf_setlblkno`. -/
def readindir (fs : Fs) (st : Store) (lbn daddr : Int) : Except Errno (Nat → Int) :=
  match st.cached lbn with
  | some blk => .ok blk
  | none => st.strategy ((BufNums.getblk lbn).setlblkno (blkptrtodb fs daddr))

/-! ### `ufs_bmaparray` -/

/-- `ffs_check_blkno`, which an untrusted mount installs as `um_check_blkno`. -/
def ffsCheckBlkno (fs : Fs) (daddr : Int) (blksize : Nat) : Option Errno :=
  let cg := toI32 (daddr.tdiv fs.fpg)
  let endDaddr := daddr + fs.numfrags blksize
  if toU64 daddr ≤ 2 ∨
      (toU64 endDaddr ≤ fs.size ∧
        ((0 < cg ∧ endDaddr ≤ fs.cgsblock cg) ∨
          (fs.cgdmin cg ≤ daddr ∧ endDaddr ≤ fs.fpg * cg + fs.fpg))) then none
  else some .estale

/-- `UFS_CHECK_BLKNO` -/
def ufsCheckBlkno (fs : Fs) (untrusted : Bool) (daddr : Int) : Option Errno :=
  if untrusted then ffsCheckBlkno fs daddr fs.bsize else none

/-- `is_sequential`; `um_seqinc` is `fs_frag`. -/
def isSequential (fs : Fs) (a b : Int) : Bool := b = a + fs.frag

/-- The loop that counts the sequential pointers from `bn` up; `n` of them are
left below the loop's bound. -/
def runForward (fs : Fs) (ptr : Nat → Int) (maxrun : Int) : Nat → Nat → Nat → Nat
  | 0, _, run => run
  | n + 1, bn, run =>
      if (run : Int) < maxrun ∧ isSequential fs (ptr (bn - 1)) (ptr bn) then
        runForward fs ptr maxrun n (bn + 1) (run + 1)
      else run

/-- The loop that counts the sequential pointers before slot `bn`. -/
def runBackward (fs : Fs) (ptr : Nat → Int) (maxrun : Int) : Nat → Nat → Nat
  | 0, runb => runb
  | bn + 1, runb =>
      if (runb : Int) < maxrun ∧ isSequential fs (ptr bn) (ptr (bn + 1)) then
        runBackward fs ptr maxrun bn (runb + 1)
      else runb

/-- What `ufs_bmaparray` stores through its pointer arguments; a run is 0 when
its pointer is null. -/
@[ext] structure BmapResult where
  bnp : Int
  run : Nat
  runb : Nat
  deriving DecidableEq, Repr

/-- The options of one call: `runp` and `runb` not null, `maxrun`, whether the
mount checks block numbers, and `nbp` not null. -/
structure BmapArgs where
  runp : Bool
  runb : Bool
  maxrun : Int
  untrusted : Bool
  nbp : Bool

/-- The run counts around slot `bn` of an array of `lim` pointers. -/
def bmapRuns (fs : Fs) (args : BmapArgs) (ptr : Nat → Int) (lim bn : Nat) (daddr : Int) :
    BmapResult :=
  if args.runp then
    { bnp := daddr
      run := runForward fs ptr args.maxrun (lim - (bn + 1)) (bn + 1) 0
      runb := if args.runb then runBackward fs ptr args.maxrun bn 0 else 0 }
  else ⟨daddr, 0, 0⟩

/-- The loop over the indirect blocks of the path. `bnp` of the result is
still a pointer here. -/
def bmapWalk (fs : Fs) (args : BmapArgs) (readindir : Int → Int → Except Errno (Nat → Int))
    (bn : Int) : Int → List Indir → Except Errno BmapResult
  | daddr, [] => .ok ⟨daddr, 0, 0⟩
  | daddr, ap :: rest =>
      if daddr = 0 ∨ ap.lbn = bn then .ok ⟨daddr, 0, 0⟩
      else
        match readindir ap.lbn daddr with
        | .error .enoent => .ok ⟨daddr, 0, 0⟩
        | .error e => .error e
        | .ok blk =>
            match ufsCheckBlkno fs args.untrusted (toI32 (blk ap.off)) with
            | some e => .error e
            | none =>
                if rest = [] ∧ blk ap.off ≠ 0 then
                  .ok (bmapRuns fs args blk fs.nindir ap.off (blk ap.off))
                else bmapWalk fs args readindir bn (blk ap.off) rest

/-- A snapshot's mark for a block that is not copied, or is part of itself. -/
def isSnapMark (fs : Fs) (ip : Inode) (daddr : Int) : Bool :=
  ip.snapshot && decide (0 < daddr ∧ daddr < fs.frag)

/-- From a pointer to the block number reported: a snapshot's marks read as
holes and its holes as the block of the same number, any other hole as -1. -/
def bmapReport (fs : Fs) (ip : Inode) (bn : Int) (r : BmapResult) : BmapResult :=
  { r with bnp :=
      if isSnapMark fs ip r.bnp then -1
      else if blkptrtodb fs r.bnp = 0 then
        if ip.snapshot then blkptrtodb fs (bn * fs.frag) else -1
      else blkptrtodb fs r.bnp }

/-- The case of a direct block: a hole has no run. -/
def bmapDirect (fs : Fs) (args : BmapArgs) (ip : Inode) (bn : Nat) : BmapResult :=
  if isSnapMark fs ip (ip.db bn) ∨ blkptrtodb fs (ip.db bn) = 0 then ⟨ip.db bn, 0, 0⟩
  else bmapRuns fs args ip.db ndaddr bn (ip.db bn)

/-- `ufs_bmaparray`, with `readindir` as a parameter. -/
def ufsBmaparray (fs : Fs) (args : BmapArgs) (readindir : Int → Int → Except Errno (Nat → Int))
    (ip : Inode) (bn : Int) : Except Errno BmapResult :=
  match ufsGetlbns fs.nindir bn with
  | .error e => .error e
  | .ok [] =>
      if 0 ≤ bn ∧ bn < ndaddr then
        .ok (bmapReport fs ip bn (bmapDirect fs args ip bn.toNat))
      else if bn < 0 ∧ -(nxaddr : Int) ≤ bn then
        if args.nbp then
          let b := blkptrtodb fs (ip.extb (-1 - bn).toNat)
          .ok ⟨if b = 0 then -1 else b, 0, 0⟩
        else .error .einval
      else .error .einval
  | .ok (ap :: rest) =>
      match bmapWalk fs args readindir bn (ip.ib ap.off) rest with
      | .error e => .error e
      | .ok r => .ok (bmapReport fs ip bn r)

/-! ### `ufs_bmap` -/

end UfsX.Ufs
