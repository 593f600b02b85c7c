import UfsX.Lib.Mem

/-!
# `UfsX.Ffs.Cgroup`: cylinder groups as bytes, and their check-hash

`ffs_getcg` and `breadn_flags` of the kernel and `cgget` of libufs read the same block.
A group is a memory of `fs_cgsize` bytes. What an allocation or a free does to the bytes
of a group is an `Update`: none of the functions of `ffs_alloc.c` writes to `cg_magic`,
`cg_cgx` or `cg_ckhash`, and all of them hand the block to `buf_bdwrite`, `buf_bawrite`
or `bwrite` as it is.

The kernel keeps its own data about a block in `struct bufpriv`, if the block has one.
-/

set_option autoImplicit false

namespace UfsX.Ffs

open UfsX.Lib

/-! ### `calculate_crc32c` -/

/-- An entry of `sctp_crc_tableil8_o32`: eight shifts, with the polynomial of CRC-32C
bit-reversed. -/
def crcTable (i : Nat) : Nat :=
  let shift (c : Nat) := if c % 2 = 1 then (c >>> 1) ^^^ 0x82F63B78 else c >>> 1
  shift (shift (shift (shift (shift (shift (shift (shift i)))))))

/-- `calculate_crc32c`, a byte at a time. -/
def calculateCrc32c (crc : Nat) (bytes : List UInt8) : Nat :=
  bytes.foldl (fun crc b => crcTable ((crc ^^^ b.toNat) % 256) ^^^ (crc >>> 8)) crc

/-! ### The group -/

def CG_MAGIC : Nat := 0x090255

/-- Offsets in `struct cg`. -/
def cgMagicOff : Nat := 4
def cgCgxOff : Nat := 12
def cgNifreeOff : Nat := 32
def cgIrotorOff : Nat := 48
def cgIusedoffOff : Nat := 92
def cgCkhashOff : Nat := 132

/-- What is used of the superblock. -/
structure CgFs where
  fsCgsize : Nat
  /-- `CK_CYLGRP` in `fs_metackhash` -/
  ckCylgrp : Bool

/-- The CRC-32C of the group with `cg_ckhash` zeroed. -/
def cgHash (fs : CgFs) (cg : Mem) : Nat :=
  calculateCrc32c 0xffffffff ((cg.write32 cgCkhashOff 0).readBytes 0 fs.fsCgsize)

/-- `cg_chkmagic`, and the number of the group. -/
def CgNumbered (cgx : Nat) (cg : Mem) : Prop :=
  cg.read32 cgMagicOff = CG_MAGIC ∧ cg.read32 cgCgxOff = cgx

instance (cgx : Nat) (cg : Mem) : Decidable (CgNumbered cgx cg) := inferInstanceAs (Decidable (_ ∧ _))

/-- `cgget` of libufs, with the bytes that `pread` gives. -/
def cgget (fs : CgFs) (cgx : Nat) (cg : Mem) : Bool :=
  let calchash := if fs.ckCylgrp then cgHash fs cg else cg.read32 cgCkhashOff
  ¬ (cg.read32 cgCkhashOff ≠ calchash ∨ ¬ CgNumbered cgx cg)

/-! ### Buffers -/

/-- `struct bufpriv`: `b_ckhash`, and `BC_CKHASH` in `b_cflags`. -/
structure Bufpriv where
  ckhash : Nat
  bcCkhash : Bool
  deriving DecidableEq, Repr

structure CgBuf where
  data : Mem
  priv : Option Bufpriv

inductive GetcgResult where
  | ok (bp : CgBuf)
  /-- `EIO`. The block leaves the cache. -/
  | eio
  /-- The block has no `struct bufpriv`, and it is written to. -/
  | crash

/-- `ffs_getcg`, with the block that `buf_bread` gives. `breadn_flags` calls
`ffs_ckhash_cg` for every block; nothing sets `BC_CKHASH`. -/
def ffsGetcg (fs : CgFs) (cgx : Nat) (bp : CgBuf) : GetcgResult :=
  match bp.priv with
  | none => .crash
  | some bpriv =>
      let bpriv := { bpriv with ckhash := cgHash fs bp.data }
      if fs.ckCylgrp ∧ bpriv.bcCkhash ∧ bp.data.read32 cgCkhashOff ≠ bpriv.ckhash then .eio
      else if ¬ CgNumbered cgx bp.data then .eio
      else .ok { bp with priv := some { bpriv with bcCkhash := false } }

/-! ### Allocations and frees -/

/-- What a function of `ffs_alloc.c` does to the bytes of a group. -/
structure Update where
  apply : Mem → Mem
  keeps : ∀ (cg : Mem), (apply cg).read32 cgMagicOff = cg.read32 cgMagicOff
    ∧ (apply cg).read32 cgCgxOff = cg.read32 cgCgxOff
    ∧ (apply cg).read32 cgCkhashOff = cg.read32 cgCkhashOff

/-- The stores of `ffs_nodealloccg` for inode `ino` of the group, a plain file in an inode
block that has been initialised: `setbit`, `cg_irotor`, `cs_nifree`. The maps stand behind
the fixed part of the structure. -/
def nodeallocStores (ino : Nat) (cg : Mem) : Mem :=
  let byte := cg.read32 cgIusedoffOff + ino / 8
  if 168 ≤ byte then
    let cg₁ : Mem := fun x => if x = byte then UInt8.ofNat ((cg x).toNat ||| 2 ^ (ino % 8)) else cg x
    (cg₁.write32 cgIrotorOff ino).write32 cgNifreeOff (cg.read32 cgNifreeOff - 1)
  else cg

/-- Outside the map and the two words nothing changes. -/
theorem nodeallocStores_of_lt (ino : Nat) (cg : Mem) {x : Nat} (hx : x < 168)
    (hirotor : x < 48 ∨ 52 ≤ x) (hnifree : x < 32 ∨ 36 ≤ x) : nodeallocStores ino cg x = cg x := by
  unfold nodeallocStores
  simp only
  split
  · have hmap : x ≠ cg.read32 cgIusedoffOff + ino / 8 := by omega
    rw [Mem.write32, if_neg (by unfold cgNifreeOff; omega), Mem.write32,
      if_neg (by unfold cgIrotorOff; omega), if_neg hmap]
  · rfl

def nodealloc (ino : Nat) : Update where
  apply := nodeallocStores ino
  keeps cg := by
    have hbyte : ∀ x, x < 168 → x < 48 ∨ 52 ≤ x → x < 32 ∨ 36 ≤ x →
        nodeallocStores ino cg x = cg x := fun x => nodeallocStores_of_lt ino cg
    simp only [Mem.read32, Mem.read16, cgMagicOff, cgCgxOff, cgCkhashOff]
    refine ⟨?_, ?_, ?_⟩ <;> simp [hbyte]

inductive CgOp where
  /-- Get the group, change it, and hand it to the buffer layer. -/
  | modify (cgx : Nat) (u : Update)
  /-- The block leaves the cache and is read again. The buffer layer decides whether it
  has a `struct bufpriv`. -/
  | reload (cgx : Nat) (priv : Option Bufpriv)

/-- The blocks of the groups, and the images that were handed to the buffer layer. -/
structure CgState where
  bufs : Nat → CgBuf
  written : List (Nat × Mem)

/-- One operation; `none` is a crash. -/
def CgOp.exec (fs : CgFs) (s : CgState) : CgOp → Option CgState
  | .modify cgx u =>
      match ffsGetcg fs cgx (s.bufs cgx) with
      | .crash => none
      | .eio => some { s with bufs := Function.update s.bufs cgx { s.bufs cgx with priv := none } }
      | .ok bp =>
          let bp := { bp with data := u.apply bp.data }
          some ⟨Function.update s.bufs cgx bp, (cgx, bp.data) :: s.written⟩
  | .reload cgx priv =>
      some { s with bufs := Function.update s.bufs cgx { s.bufs cgx with priv := priv } }

/-- Operations one after the other, up to a crash. -/
def CgOp.run (fs : CgFs) (s : CgState) : List CgOp → CgState
  | [] => s
  | op :: ops =>
      match op.exec fs s with
      | none => s
      | some s' => CgOp.run fs s' ops

end UfsX.Ffs
