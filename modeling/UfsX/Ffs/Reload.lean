import UfsX.Ffs.Mountfs

/-!
# `UfsX.Ffs.Reload`: reading a mounted file system again

`ffs_reload` (`ffs_vfsops.c`) reads the superblock, the summary table and the in-core
inodes of a mounted file system again, after a checker has changed the disk. What a mount
makes of the same disk is in `UfsX.Ffs.Mountfs` and, for an inode, in `VgetBuilds`.

A buffer is named by its block of 512 bytes. `buf_invalidateblks` is called without a
signal or a time limit that could end its wait, and returns 0. `fs_si` stays where it is;
the table and the two arrays behind it are one allocation, which the reload replaces. The
inodes are those of UFS2, the only file systems that `ffs_mountfs` gets through.
-/

set_option autoImplicit false

namespace UfsX.Ffs

open UfsX.Lib UfsX.Compat

def CK_INODE : Nat := 0x4

namespace Sb

variable (fs : Sb)

def iblkno : Nat := fs.read32 16
def fragshift : Nat := fs.read32 96
def inopb : Nat := fs.read32 120
def ipg : Nat := fs.read32 184
def contigsumsize : Int := toI32 (fs.read32 1316)

/-- `ino_to_fsba`, with the `cgstart` of UFS2. -/
def inoToFsba (ino : Nat) : Int :=
  fs.fpg * (ino / fs.ipg : Nat) + fs.iblkno + (ino % fs.ipg / fs.inopb * 2 ^ fs.fragshift : Nat)

/-- The device block with an inode, `fsbtodb(fs, ino_to_fsba(fs, ino))`. -/
def inodeBn (ino : Nat) : Int := fs.fsbtodb (fs.inoToFsba ino)

end Sb

namespace Reload

def EIO : Nat := 5

/-- The buffer at a block of the device. -/
def bread (dev : Mem) (blk : Int) : Mem := fun x => dev ((blk * DEV_BSIZE).toNat + x)

/-! ### Inodes -/

/-- An in-core inode: the bytes of its dinode, and its own copies of some fields. -/
structure Ip where
  number : Nat
  din : List UInt8
  mode : Nat
  nlink : Nat
  effnlink : Nat
  size : Nat
  flags : Nat
  gen : Nat
  uid : Nat
  gid : Nat
  deriving DecidableEq, Repr

/-- The dinode of an inode in the buffer of its block. -/
def dinode (fs : Sb) (bp : Mem) (ino : Nat) : Mem := fun x => bp (256 * (ino % fs.inopb) + x)

/-- `ffs_verify_dinode_ckhash` -/
def ffsVerifyDinodeCkhash (fs : Sb) (dip : Mem) : Bool :=
  dip.read16 0 = 0 || fs.metackhash &&& CK_INODE = 0 ||
    dip.read32 244 = calculateCrc32c 0xffffffff ((dip.write32 244 0).readBytes 0 256)

/-- `ffs_load_inode`; `none` is its error. `fsfail` says that `ffs_fsfail_cleanup` has begun. -/
def ffsLoadInode (fsfail : Bool) (fs : Sb) (bp : Mem) (ino : Nat) : Option Ip :=
  let dip := dinode fs bp ino
  if !ffsVerifyDinodeCkhash fs dip && !fsfail then none
  else
    some {
      number := ino
      din := dip.readBytes 0 256
      mode := dip.read16 0
      nlink := dip.read16 2
      effnlink := dip.read16 2
      size := dip.read64 16
      flags := dip.read32 88
      gen := dip.read32 80
      uid := dip.read32 4
      gid := dip.read32 8 }

/-- What `ffs_vgetf` builds on a new mount for reading. A generation number of 0 is replaced
by a random one. -/
def VgetBuilds (dev : Mem) (fs : Sb) (ip : Ip) : Prop :=
  ∃ ip₀, ffsLoadInode false fs (bread dev (fs.inodeBn ip.number)) ip.number = some ip₀ ∧
    ip.gen ≠ 0 ∧ ip = if ip₀.gen = 0 then { ip₀ with gen := ip.gen } else ip₀

/-! ### The summary -/

inductive Ptr (α : Type) where
  | null
  | to (a : α)
  /-- The memory has been freed. -/
  | freed
  deriving DecidableEq, Repr

/-- A pointer into memory that is now freed. -/
def Ptr.free {α : Type} : Ptr α → Ptr α
  | .null => .null
  | _ => .freed

/-- The summary table, and how many of its bytes have been read; behind it,
`fs_maxcluster` and `fs_contigdirs`. -/
structure Summary where
  csp : Mem
  filled : Nat
  maxcluster : Ptr (List Int)
  contigdirs : Ptr (List UInt8)

/-- `ffs_sbget` sets `fs_maxcluster` only if there are cluster summaries. -/
def sbgetMaxcluster (fs : Sb) : Ptr (List Int) :=
  if 0 < fs.contigsumsize then .to (List.replicate fs.ncg fs.contigsumsize) else .null

def sbgetContigdirs (fs : Sb) : Ptr (List UInt8) := .to (List.replicate fs.ncg 0)

/-- The bytes of the table that are read from the disk. -/
def tableSize (fs : Sb) : Nat := (fs.pieces.map fs.pieceSize).sum

/-! ### `ffs_reload` -/

/-- A vnode that `vnode_iterate` comes to. -/
structure Vnode where
  ip : Ip
  /-- `vnode_recycle` finds no reference, and reclaims the vnode. -/
  recycled : Bool
  deriving DecidableEq, Repr

structure State (τ : Type*) where
  /-- `um_fs` -/
  fs : Sb
  summary : Summary
  savedmaxfilesize : Nat
  maxsymlen : Nat
  /-- The vnodes of the mount, in the order of `vnode_iterate`. -/
  vnodes : List Vnode
  bsd : Bsdmount τ
  /-- `UM_FSFAIL_CLEANUP` -/
  fsfail : Bool

structure Call where
  /-- The device as it is now, and the mount point. -/
  mount : Mountfs.Request
  /-- The error of `buf_meta_bread` at a block, or 0. -/
  readErr : Int → Nat
  /-- `FFSR_FORCE` and `FFSR_UNSUSPEND` -/
  force : Bool
  unsuspend : Bool
  /-- What `malloc` leaves in the new table. -/
  garbage : Mem

variable {τ : Type*} (c : Call)

/-- What the reload asks of a superblock. -/
def Plausible [SysParam] (fs : Sb) : Prop :=
  (fs.magic = FS_UFS1_MAGIC ∨ fs.magic = FS_UFS2_MAGIC) ∧ toI32 fs.bsize ≤ SysParam.MAXBSIZE ∧
    sizeofFs ≤ (toU64 (toI32 fs.bsize)).toNat

instance [SysParam] (fs : Sb) : Decidable (Plausible fs) := inferInstanceAs (Decidable (_ ∧ _))

/-- Step 2: the superblock from the buffer, over the one in core. -/
def newSb (s : State τ) (newfs : Sb) : Sb × Nat :=
  let newfs := newfs.setSi s.fs.si
  -- `fs_ronly`
  let newfs : Sb := newfs.write8 210 (s.fs 210)
  let sblockloc := s.fs.sblockloc
  let fs : Sb := s.fs.copy 0 newfs 0 s.fs.sbsize.toNat
  let r := ffsOldfscompatRead c.mount.bigcgs s.savedmaxfilesize fs sblockloc
  (Mountfs.clearPending r.1, r.2)

/-- The block of a piece of the summary table. -/
def pieceBlk (fs : Sb) (i : Nat) : Int := fs.fsbtodb (fs.csaddr + i)

/-- The loop of step 3: its error, the table, and how far it is read. -/
def readTable (fs : Sb) : List Nat → Nat → Mem → Nat × Mem × Nat
  | [], space, csp => (0, csp, space)
  | i :: is, space, csp =>
      let blk := pieceBlk fs i
      if c.readErr blk ≠ 0 then (c.readErr blk, csp, space)
      else readTable fs is (space + fs.pieceSize i) (csp.copy space (bread c.mount.dev blk) 0 (fs.pieceSize i))

/-- `ffs_reload_callback` for each vnode. `VNODE_RETURNED_DONE` ends the iteration. -/
def reloadVnodes (fs : Sb) (fsfail : Bool) : List Vnode → List Vnode
  | [] => []
  | v :: vs =>
      if v.recycled then reloadVnodes fs fsfail vs
      else
        let bn := fs.inodeBn v.ip.number
        if c.readErr bn ≠ 0 then v :: vs
        else
          match ffsLoadInode fsfail fs (bread c.mount.dev bn) v.ip.number with
          | none => v :: vs
          | some ip => { v with ip } :: reloadVnodes fs fsfail vs

/-- Step 3, and what comes after it. -/
def reloadSummary (s : State τ) : Nat × State τ :=
  let fs := s.fs
  -- `free(fs->fs_csp)`
  let summary := { s.summary with
    maxcluster := s.summary.maxcluster.free
    contigdirs := s.summary.contigdirs.free }
  let (error, csp, filled) := readTable c fs fs.pieces 0 c.garbage
  let summary := { summary with csp, filled }
  if error ≠ 0 then (error, { s with summary })
  else
    let summary :=
      if 0 < fs.contigsumsize then
        { summary with maxcluster := .to (List.replicate fs.ncg fs.contigsumsize) }
      else summary
    let summary := { summary with contigdirs := .to (List.replicate fs.ncg 0) }
    let bsd := if c.unsuspend then { s.bsd with suspended := false, suspend2 := false } else s.bsd
    -- the error of the callback is not looked at
    (0, { s with summary, bsd, vnodes := reloadVnodes c fs s.fsfail s.vnodes })

/-- `ffs_reload(mp, context, flags)`: what it returns, and the mount. -/
def ffsReload [SysParam] (s : State τ) : Nat × State τ :=
  if c.mount.rdonly = false ∧ c.force = false then (EINVAL, s)
  else
    let blk := btodb s.fs.sblockloc DEV_BSIZE
    if c.readErr blk ≠ 0 then (c.readErr blk, s)
    else
      let newfs : Sb := bread c.mount.dev blk
      if ¬ Plausible newfs then ( EIO, s)
      else
        let r := newSb c s newfs
        reloadSummary c { s with fs := r.1, savedmaxfilesize := r.2, maxsymlen := r.1.maxsymlinklen }

end Reload

end UfsX.Ffs
