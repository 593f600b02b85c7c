import UfsX.Compat.Buf
import UfsX.Ffs.Cgroup

/-!
# `UfsX.Ffs.Bread`: reads of metadata, and the clean-up after `ENXIO`

`ffs_bread` and `ffs_meta_bread` (`ffs_vfsops.c`) call the wrappers of
`UfsX.Compat.Buf` and start a forced unmount at an `ENXIO`. `ffs_getcg` (`ffs_alloc.c`)
calls `breadn_flags` itself. `none` is a panic.
-/

set_option autoImplicit false

namespace UfsX.Ffs

open UfsX.Compat.Buf

/-- Of `struct ufsmount`: `UM_FSFAIL_CLEANUP`, and how often the forced unmount has been
asked for. -/
structure FailState where
  fsfailCleanup : Bool
  unmounts : Nat
  deriving DecidableEq, Repr

/-- `ffs_fsfail_cleanup`, and whether a clean-up is in progress. -/
def ffsFsfailCleanup (ump : FailState) (error : Nat) : Bool × FailState :=
  let ump :=
    if error = ENXIO ∧ ump.fsfailCleanup = false then ⟨true, ump.unmounts + 1⟩ else ump
  (ump.fsfailCleanup, ump)

section FsBread

variable (ump : FailState) (lblkno : Int) (flags : BitVec 32) (read : ReadResult)
  (bpp : Option Nat)

/-- What `ffs_bread` and `ffs_meta_bread` do with what their wrapper returns. -/
def cleanupBread (call : Option ReadCall) : Option (ReadCall × FailState) :=
  match call with
  | none => none
  | some call =>
      if call.value ≠ 0 then
        match ffsFsfailCleanup ump call.value with
        -- `ASSERT(error == 0)` after `getblk`, where `error` is what the read returned
        | (true, _) => none
        | (false, ump) => some (call, ump)
      else some (call, ump)

/-- `ffs_bread` -/
def ffsBread : Option (ReadCall × FailState) :=
  cleanupBread ump (breadnFlags lblkno flags read bpp)

/-- `ffs_meta_bread` -/
def ffsMetaBread : Option (ReadCall × FailState) :=
  cleanupBread ump (metaBreadFlags lblkno flags read bpp)

end FsBread

def GB_CKHASH : BitVec 32 := 0x0020#32

/-- The buffers in `ffs_getcg`, whose block is `cgBuf` when the read succeeds. The local
variable `bp` is not initialised. -/
def ffsGetcgBuffers (fs : CgFs) (cgx : Nat) (cgBuf : CgBuf) (blkno : Int) (flags : BitVec 32)
    (read : ReadResult) (bp : Option Nat) : Option ReadCall :=
  let flags := if fs.ckCylgrp then flags ||| GB_CKHASH else flags
  match breadnFlags blkno flags read bp with
  | none => none
  | some call =>
      -- `*bpp` has been set to `NULL`
      if call.value ≠ 0 then some { call with bpp := none }
      else
        match ffsGetcg fs cgx cgBuf with
        | .crash => none
        | .eio => some ⟨ EIO, none, call.released ++ [read.bp]⟩
        | .ok _ => some call

end UfsX.Ffs
