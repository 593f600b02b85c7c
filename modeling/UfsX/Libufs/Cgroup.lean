import UfsX.Ffs.Alloc
import UfsX.Ffs.Inoalloc
import UfsX.Ffs.Update
import UfsX.Libufs.Block

/-!
# `UfsX.Libufs.Cgroup`: `cgballoc`, `cgbfree` and `cgialloc`

`cgroup.c` of libufs. A `uufsd` keeps one cylinder group in memory, `d_cg`. The functions
change it, and the summaries of `d_fs`; only `cgbfree` reads a group first and writes it back.

`cgget` and `cgput` find a group by its number here. A number that is not one of a group
gives an error: what stands in that place is no group with that number.
-/

set_option autoImplicit false

namespace UfsX.Libufs

open UfsX.Lib UfsX.Ffs

/-- The part of `struct uufsd` that the functions use, and the groups on the disk. -/
structure CgDisk where
  /-- The summaries of `d_fs`, and the groups on the disk. -/
  st : State
  /-- `d_cg` -/
  cg : Cg

namespace CgDisk

/-- The group in memory stands in its place, instead of the one on the disk. -/
def mem (d : CgDisk) : State := d.st.setCg d.cg.cgx d.cg

/-- The summaries and the group in memory are those of `s`; the disk stays as it is. -/
def store (d : CgDisk) (s : State) : CgDisk := ⟨{ s with cgs := d.st.cgs }, s.cgs d.cg.cgx⟩

end CgDisk

variable (fs : Fs)

/-- `cgread1(disk, c)` -/
def cgread1 (readOk : Bool) (d : CgDisk) (c : Int) : Option CgDisk :=
  if readOk ∧ 0 ≤ c ∧ c < fs.ncg ∧ (d.st.cgs c.toNat).cgx = c then some { d with cg := d.st.cgs c.toNat }
  else none

/-- `cgwrite(disk)` -/
def cgwrite (writeOk : Bool) (d : CgDisk) : Int × CgDisk :=
  if writeOk then (0, { d with st := d.st.setCg d.cg.cgx d.cg }) else (-1, d)

/-- `cgballoc(disk)`. The stores are those of `ffs_alloccgblk`. -/
def cgballoc (d : CgDisk) : Nat × CgDisk :=
  match (List.range fs.nblk).find? fun bno => ffsIsblock fs d.cg.blksfree bno with
  | none => (0, d)
  | some bno =>
      (fs.cgbase d.cg.cgx + fs.blkstofrags bno, d.store (takeBlock fs d.mem d.cg.cgx d.cg.cgx bno))

/-- The group that `cgbfree` reads: `dtog(fs, (ufs1_daddr_t)bno)`, a division of `int`s. -/
def cgbfreeGroup (bno : Nat) : Int := (toI32 bno).tdiv fs.fpg

/-- The stores of `cgbfree`, those of `ffs_blkfree_cg`. -/
def cgbfreeStores (s : State) (cg cgbno size : Nat) : State :=
  if size = fs.bsize then blkfreeBlock fs s cg (fs.fragstoblks cgbno)
  else blkfreeFrags fs s cg cgbno (fs.numfrags size)

/-- `cgbfree(disk, bno, size)`. It checks nothing. -/
def cgbfree (readOk writeOk : Bool) (d : CgDisk) (bno size : Nat) : Int × CgDisk :=
  match cgread1 fs readOk d (cgbfreeGroup fs bno) with
  | none => (-1, d)
  | some d =>
      cgwrite writeOk (d.store (cgbfreeStores fs d.mem (cgbfreeGroup fs bno).toNat (fs.dtogd bno) size))

/-- The end of `cgialloc`: mark inode `ino` of the group used. -/
def cgiallocTake (s : State) (cgx ino : Nat) : State :=
  let s := s.modCg cgx fun c => { c with inosused := c.inosused.setbit ino, irotor := ino }
  { s.addNifree cgx (-1) with fmod := true }

/-- The search of `cgialloc`: the first free inode of a group. -/
def firstFree (c : Cg) : Option Nat := (List.range fs.ipg).find? fun ino => c.inosused.isclr ino

/-- What `cgialloc` returns, and where it has written a block of new inodes. -/
structure IallocResult where
  ino : Nat
  disk : CgDisk
  written : Option Int

/-- `cgialloc(disk)`. `bwrite` returns the number of bytes it has written, or -1. -/
def cgialloc (writeOk : Bool) (d : CgDisk) : IallocResult :=
  let c := d.cg
  -- products and sums of 32-bit numbers
  let base := (toU32 (c.cgx * fs.ipg)).toNat
  match firstFree fs c with
  | none => ⟨0, d, none⟩
  | some ino =>
      if inodeBlockDue fs c ino then
        let first := (toU32 (c.cgx * fs.ipg + c.initediblk)).toNat
        let written := if writeOk then some (blockOffset fs (fs.inoToFsba first)) else none
        let ret : Int := if writeOk then fs.bsize else -1
        if ret ≠ 0 then ⟨0, d, written⟩
        else
          let d := { d with cg := { c with initediblk := c.initediblk + fs.inopb } }
          ⟨ino + base, d.store (cgiallocTake d.mem c.cgx ino), written⟩
      else ⟨ino + base, d.store (cgiallocTake d.mem c.cgx ino), none⟩

end UfsX.Libufs
