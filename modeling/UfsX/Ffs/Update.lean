import UfsX.Ufs.Inode

/-!
# `UfsX.Ffs.Update`: `ffs_update`, and how an inode is read again

`ffs_update` writes the dinode of an inode to disk, in the block of inodes that it
belongs to. `ffs_vgetf` reads that block and `ffs_load_inode` takes the dinode out of
it. In UFS2 a dinode has a check-hash.

A block of the device is read as an array of dinodes, whatever is in it. A buffer of
the device is transferred at its own number. A buffer of a file is transferred where
the file's block map says, and nowhere in a hole. The contents of a buffer that is
being read, and has not been waited for, are not defined: `undef` stands for what they
are when the buffer is written. The time stamps have been updated (`ufs_itimes`).
There are no soft updates, the inode is no snapshot, and no cleanup after a failed
device is going on.
-/

set_option autoImplicit false

namespace UfsX.Ffs

open UfsX.Ufs (Errno Outcome)

/-- A dinode: what `ffs_load_inode` copies, the check-hash of UFS2, and the other
bytes. -/
structure Dinode where
  mode : Nat
  nlink : Int
  size : Nat
  flags : Nat
  gen : Nat
  uid : Nat
  gid : Nat
  ckhash : Nat
  /-- Time stamps, block counts and pointers. -/
  rest : List UInt8
  deriving DecidableEq, Repr

/-- A block, as an array of dinodes. -/
abbrev InoBlock : Type := Nat → Dinode

/-- The in-core inode. Its own copies of the fields are those of the dinode. -/
structure IncoreInode where
  number : Nat
  din : Dinode
  mode : Nat
  nlink : Int
  effnlink : Int
  size : Nat
  flags : Nat
  gen : Nat
  uid : Nat
  gid : Nat
  /-- `IN_MODIFIED` -/
  modified : Bool

/-- The part of the mount that `ffs_update` and `ffs_load_inode` read. -/
structure InodeMount where
  fs : Fs
  /-- `CK_INODE` in `fs_metackhash` -/
  ckInode : Bool
  ronly : Bool
  /-- `um_fsckpid` is not 0. -/
  fsck : Bool
  /-- `calculate_crc32c(~0L, dip, sizeof(*dip))` -/
  crc : Dinode → Nat

/-- The device and its buffers. -/
structure DevState where
  /-- The blocks of the device, by device block number. -/
  disk : Int → InoBlock
  /-- The valid buffers of `um_devvp`. -/
  devbuf : Int → Option InoBlock
  /-- The valid buffers of the file's vnode, by logical number. -/
  filebuf : Int → Option InoBlock
  /-- The blocks of the file that have been read or written, latest first. -/
  moved : List Int

namespace Fs

variable (fs : Fs)

/-- `ino_to_fsba` -/
def inoToFsba (ino : Nat) : Int :=
  fs.cgimin (ino / fs.ipg : Nat) + (fs.blkstofrags (ino % fs.ipg / fs.inopb) : Nat)

/-- `ino_to_fsbo` -/
def inoToFsbo (ino : Nat) : Nat := ino % fs.inopb

/-- The device block number of the block that an inode is in. -/
def inodeBn (ino : Nat) : Int := Ufs.fsbtodb fs (fs.inoToFsba ino)

end Fs

namespace InodeMount

variable (mp : InodeMount)

/-- `ffs_verify_dinode_ckhash`, also that of `getinode` in libufs. -/
def ffsVerifyDinodeCkhash (dip : Dinode) : Bool :=
  dip.mode = 0 ∨ mp.ckInode = false ∨ dip.ckhash = mp.crc { dip with ckhash := 0 }

/-- `ffs_update_dinode_ckhash` -/
def ffsUpdateDinodeCkhash (dip : Dinode) : Dinode :=
  if dip.mode = 0 ∨ mp.ckInode = false then dip
  else { dip with ckhash := mp.crc { dip with ckhash := 0 } }

/-- `ffs_load_inode`, from the buffer of the block. -/
def ffsLoadInode (bp : InoBlock) (ino : Nat) : Except Errno IncoreInode :=
  let dip := bp (mp.fs.inoToFsbo ino)
  if mp.fs.magic = .ufs2 ∧ mp.ffsVerifyDinodeCkhash dip = false then .error .einval
  else
    .ok {
      number := ino
      din := dip
      mode := dip.mode
      nlink := dip.nlink
      effnlink := dip.nlink
      size := dip.size
      flags := dip.flags
      gen := dip.gen
      uid := dip.uid
      gid := dip.gid
      modified := false }

/-- The block of an inode as `ffs_vgetf` reads it, through `um_devvp`. -/
def vgetBlock (s : DevState) (ino : Nat) : InoBlock :=
  let dbn := mp.fs.inodeBn ino
  (s.devbuf dbn).getD (s.disk dbn)

/-- The dinode that goes to disk. -/
def dinodeOut (dip : Dinode) : Dinode :=
  match mp.fs.magic with
  | .ufs1 => dip
  | .ufs2 => mp.ffsUpdateDinodeCkhash dip

/-- `VNOP_STRATEGY` on a buffer of the file's vnode that is not valid: the read is
started, and its result is not looked at. -/
def startRead (blockmap : Int → Except Errno (Option Int)) (bn : Int) (s : DevState) : DevState :=
  match blockmap bn with
  | .ok (some a) => { s with moved := a :: s.moved }
  | _ => s

/-- `bwrite` on a buffer of the file's vnode. Nothing is written in a hole. -/
def bwrite (blockmap : Int → Except Errno (Option Int)) (bn : Int) (data : InoBlock) (s : DevState) :
    Except Errno DevState :=
  match blockmap bn with
  | .error e => .error e
  | .ok none => .ok s
  | .ok (some a) =>
      .ok { s with
        disk := Function.update s.disk a data
        filebuf := Function.update s.filebuf bn (some data)
        moved := a :: s.moved }

/-- `ffs_update` -/
def ffsUpdate (blockmap : Int → Except Errno (Option Int)) (undef : InoBlock) (ip : IncoreInode)
    (waitfor : Bool) (s : DevState) : Outcome (IncoreInode × DevState) :=
  if ip.modified = false ∧ waitfor = false then .ok (ip, s)
  else
    let ip := { ip with modified := false }
    if mp.ronly ∧ mp.fsck = false then .ok (ip, s)
    else
      let bn := mp.fs.inodeBn ip.number
      -- `buf_getblk(vp, bn, ...)`: the buffer is one of the file
      let (data, s) :=
        match s.filebuf bn with
        | some data => (some data, s)
        | none => (none, startRead blockmap bn s)
      if ip.effnlink ≠ ip.nlink then .panic
      else
        let din := mp.dinodeOut ip.din
        let ip := { ip with din := din }
        let data :=
          match data with
          | some data => Function.update data (mp.fs.inoToFsbo ip.number) din
          | none => undef
        if waitfor then
          match bwrite blockmap bn data s with
          | .error e => .error e
          | .ok s => .ok (ip, s)
        else .ok (ip, { s with filebuf := Function.update s.filebuf bn (some data) })

end InodeMount

end UfsX.Ffs
