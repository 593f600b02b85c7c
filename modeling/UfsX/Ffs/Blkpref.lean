import UfsX.Ffs.Fs
import UfsX.Ufs.Bmap

/-!
# `UfsX.Ffs.Blkpref`: `ffs_blkpref_ufs1` and `ffs_blkpref_ufs2`

Where the next block of a file should go. The two functions are copies of one another, for
the two pointer widths, and are transcribed one by one. Both are entered with the UFS lock
held, and on an untrusted mount they call `ffs_check_blkno`, which has its own protocol with
that lock.

The result is `none` where C leaves the behaviour undefined: an `int` overflows, or
`fs_maxbpg` is 0 and divides.
-/

set_option autoImplicit false

namespace UfsX.Ffs

open UfsX.Lib
open UfsX.Ufs (Errno ndaddr ffsCheckBlkno)

/-- The inode for which a block is to be placed. It belongs to the file system. -/
structure PrefInode (fs : Fs) where
  /-- `i_number` -/
  number : Nat
  number_lt : number < fs.ipg * fs.ncg
  /-- `(i_mode & IFMT) == IFDIR` -/
  isDir : Bool
  /-- `di_db` and `di_ib` -/
  db : Nat → Int
  ib : Nat → Int

/-- What the functions read besides. -/
structure PrefMount where
  fs : Fs
  /-- `fs_maxbpg` -/
  maxbpg : Int
  /-- The mount installs `ffs_check_blkno`. -/
  untrusted : Bool
  /-- `ppsratecheck` lets the message through. -/
  ratecheck : Bool

/-- What the functions write: `fs_cgrotor`, and the lock operations in the log. -/
structure PrefState where
  st : State
  cgrotor : Int

namespace PrefState

def emit (s : PrefState) (e : Event) : PrefState := { s with st := s.st.emit e }

end PrefState

/-- `ino_to_cg` -/
def Fs.inoToCg (fs : Fs) (number : Nat) : Nat := number / fs.ipg

/-- `ffs_check_blkno`: the test, and what it does with the lock before it returns `ESTALE`. -/
def ffsCheckBlknoMtx (m : PrefMount) (s : PrefState) (daddr : Int) (havemtx : Bool) : Option Errno × PrefState :=
  match ffsCheckBlkno m.fs daddr m.fs.bsize with
  | none => (none, s)
  | some e =>
      let s := if havemtx then s else s.emit .lock
      if m.ratecheck then
        let s := s.emit .unlock
        (some e, if havemtx then s.emit .lock else s)
      else (some e, if havemtx then s else s.emit .unlock)

/-- `UFS_CHECK_BLKNO` -/
def ufsCheckBlknoMtx (m : PrefMount) (s : PrefState) (daddr : Int) (havemtx : Bool) : Option Errno × PrefState :=
  if m.untrusted then ffsCheckBlknoMtx m s daddr havemtx else (none, s)

/-- The first group of `n` from `cg` on with `avgbfree` free blocks. The comparison is
unsigned. -/
def prefSweep (s : State) (avgbfree : Int) : Nat → Nat → Option Nat
  | 0, _ => none
  | n + 1, cg => if avgbfree ≤ toU32 (s.csp cg).nbfree then some cg else prefSweep s avgbfree n (cg + 1)

/-- `ffs_blkpref_ufs1` -/
def ffsBlkprefUfs1 (m : PrefMount) (s : PrefState) (ip : PrefInode m.fs) (lbn indx : Int) (bap : Nat → Int) :
    Option (Int × PrefState) :=
  let fs := m.fs
  let inocg := fs.inoToCg ip.number
  if indx < 0 then
    let pref := fs.cgmeta inocg
    if indx = -1 ∧ lbn < ndaddr + fs.nindir ∧ ip.db (ndaddr - 1) ≠ 0 then do
      -- both operands are 32 bits wide
      let pref ← i32 (ip.db (ndaddr - 1) + fs.frag)
      some (pref, s)
    else some (pref, s)
  else
    let pref := ip.ib 0
    if lbn = ndaddr ∧ pref ≠ 0 ∧ fs.cgdata inocg ≤ pref ∧ pref < fs.cgbase (inocg + 1) then some (pref + fs.frag, s)
    else
      let (prevbn, s) :=
        if indx = 0 then (0, s)
        else
          match ufsCheckBlknoMtx m s (bap (indx - 1).toNat) false with
          | (none, s) => (bap (indx - 1).toNat, s)
          | (some _, s) => (0, s)
      if m.maxbpg = 0 then none
      else if indx.tmod m.maxbpg = 0 ∨ prevbn = 0 then
        if ip.isDir then some (fs.cgmeta inocg, s)
        else if lbn < ndaddr + fs.nindir then some (fs.cgdata inocg, s)
        else
          let startcg :=
            if indx = 0 ∨ prevbn = 0 then toU32 (toI32 (inocg + lbn.tdiv m.maxbpg))
            else toU32 (toI32 (prevbn.tdiv fs.fpg) + 1)
          let startcg := startcg.toNat % fs.ncg
          let avgbfree := toU32 (toI32 s.st.cstotal.nbfree) / fs.ncg
          match prefSweep s.st avgbfree (fs.ncg - startcg) startcg with
          | some cg => some (fs.cgdata cg, { s with cgrotor := toI32 cg })
          | none =>
              match prefSweep s.st avgbfree (startcg + 1) 0 with
              | some cg => some (fs.cgdata cg, { s with cgrotor := toI32 cg })
              | none => some (0, s)
      else some (prevbn + fs.frag, s)

/-- `ffs_blkpref_ufs2` -/
def ffsBlkprefUfs2 (m : PrefMount) (s : PrefState) (ip : PrefInode m.fs) (lbn indx : Int) (bap : Nat → Int) :
    Option (Int × PrefState) :=
  let fs := m.fs
  let inocg := fs.inoToCg ip.number
  if indx < 0 then
    let pref := fs.cgmeta inocg
    if indx = -1 ∧ lbn < ndaddr + fs.nindir ∧ ip.db (ndaddr - 1) ≠ 0 then do
      let pref ← i64 (ip.db (ndaddr - 1) + fs.frag)
      some (pref, s)
    else some (pref, s)
  else
    let pref := ip.ib 0
    if lbn = ndaddr ∧ pref ≠ 0 ∧ fs.cgdata inocg ≤ pref ∧ pref < fs.cgbase (inocg + 1) then some (pref + fs.frag, s)
    else
      let (prevbn, s) :=
        if indx = 0 then (0, s)
        else
          match ufsCheckBlknoMtx m s (bap (indx - 1).toNat) true with
          | (none, s) => (bap (indx - 1).toNat, s)
          | (some _, s) => (0, s)
      if m.maxbpg = 0 then none
      else if indx.tmod m.maxbpg = 0 ∨ prevbn = 0 then
        if ip.isDir then some (fs.cgmeta inocg, s)
        else if lbn < ndaddr + fs.nindir then some (fs.cgdata inocg, s)
        else
          let startcg :=
            if indx = 0 ∨ prevbn = 0 then toU32 (toI32 (inocg + lbn.tdiv m.maxbpg))
            else toU32 (toI32 (prevbn.tdiv fs.fpg) + 1)
          let startcg := startcg.toNat % fs.ncg
          let avgbfree := toU32 (toI32 s.st.cstotal.nbfree) / fs.ncg
          match prefSweep s.st avgbfree (fs.ncg - startcg) startcg with
          | some cg => some (fs.cgdata cg, { s with cgrotor := toI32 cg })
          | none =>
              match prefSweep s.st avgbfree (startcg + 1) 0 with
              | some cg => some (fs.cgdata cg, { s with cgrotor := toI32 cg })
              | none => some (0, s)
      else some (prevbn + fs.frag, s)

end UfsX.Ffs
