import UfsX.Lib.Marks

/-!
# `UfsX.Compat.Buf`: buffers with FreeBSD's flags

`struct bufpriv` (`buf.h`) holds two words of flags, the `BX_` ones and the `BV_` ones.
The arguments of the functions are `int`s and the words `uint64_t`s: a mask is widened
with its sign, and a result is cut to 32 bits.

`breadn_flags` and `meta_bread_flags` wrap the reads of XNU. A pointer to a buffer is its
address, `NULL` is `none`.
-/

set_option autoImplicit false

namespace UfsX.Compat.Buf

def BX_XFLAGMASK : BitVec 32 := 0x00FF00FF#32
def BX_VFLAGMASK : BitVec 32 := 0x0FF00000#32

/-- `b_vflags` and `b_xflags` of `struct bufpriv`. -/
structure Bufpriv where
  vflags : BitVec 64
  xflags : BitVec 64
  deriving DecidableEq, Repr

/-- `bufpriv_create`; the allocation is `M_ZERO`. -/
def bufprivCreate : Bufpriv := ⟨0#64, 0#64⟩

/-- `buf_xflags` -/
def bufXflags (bpriv : Bufpriv) : BitVec 32 :=
  (bpriv.xflags &&& BX_XFLAGMASK.signExtend 64).setWidth 32

/-- `buf_vflags` -/
def bufVflags (bpriv : Bufpriv) : BitVec 32 :=
  (bpriv.vflags &&& BX_VFLAGMASK.signExtend 64).setWidth 32

/-- `buf_setxflags`. It is `b_vflags` that it sets. -/
def bufSetxflags (bpriv : Bufpriv) (flags : BitVec 32) : Bufpriv :=
  { bpriv with vflags := bpriv.vflags ||| (flags &&& BX_XFLAGMASK).signExtend 64 }

/-- `buf_setvflags` -/
def bufSetvflags (bpriv : Bufpriv) (flags : BitVec 32) : Bufpriv :=
  { bpriv with vflags := bpriv.vflags ||| (flags &&& BX_VFLAGMASK).signExtend 64 }

/-- `buf_clearxflags` -/
def bufClearxflags (bpriv : Bufpriv) (flags : BitVec 32) : Bufpriv :=
  { bpriv with xflags := bpriv.xflags &&& (~~~(flags &&& BX_XFLAGMASK)).signExtend 64 }

/-- `buf_clearvflags` -/
def bufClearvflags (bpriv : Bufpriv) (flags : BitVec 32) : Bufpriv :=
  { bpriv with vflags := bpriv.vflags &&& (~~~(flags &&& BX_VFLAGMASK)).signExtend 64 }

/-- A call of one of the four. -/
inductive FlagCall where
  | setx (flags : BitVec 32)
  | clearx (flags : BitVec 32)
  | setv (flags : BitVec 32)
  | clearv (flags : BitVec 32)
  deriving DecidableEq, Repr

def FlagCall.exec (bpriv : Bufpriv) : FlagCall → Bufpriv
  | .setx flags => bufSetxflags bpriv flags
  | .clearx flags => bufClearxflags bpriv flags
  | .setv flags => bufSetvflags bpriv flags
  | .clearv flags => bufClearvflags bpriv flags

/-- A buffer's private data after the calls. -/
def runFlagCalls (calls : List FlagCall) : Bufpriv :=
  calls.foldl FlagCall.exec bufprivCreate

/-! ### Reading -/

def GB_CVTENXIO : BitVec 32 := 0x0080#32

def EIO : Nat := 5
def ENXIO : Nat := 6
def ELAST : Nat := 106

/-- An error number of XNU. -/
structure ErrorNumber where
  value : Nat
  pos : 0 < value
  le : value ≤ ELAST
  deriving DecidableEq, Repr

/-- What `buf_bread`, `buf_breadn` and `buf_meta_bread` give: an error or none, and a
buffer either way. -/
structure ReadResult where
  error : Option ErrorNumber
  /-- the buffer, and its `buf_lblkno` -/
  bp : Nat
  lblkno : Int
  deriving DecidableEq, Repr

/-- The end of a call: the value it returns, `*bpp`, and the buffers it has passed to
`buf_brelse`. -/
structure ReadCall where
  value : Nat
  bpp : Option Nat
  released : List Nat
  deriving DecidableEq, Repr

/-- The label `out`: `if (flags && error != 0) error = (GB_CVTENXIO);`. -/
def cvtError (flags : BitVec 32) (error : ErrorNumber) : Nat :=
  if flags ≠ 0#32 then GB_CVTENXIO.toNat else error.value

/-- The two wrappers, with what the read gives. They differ in the buffer that is released
after an error, if `*bpp` is not `NULL`. `ckhashfunc` keeps no buffer. -/
def readFlags (victim : Nat → Nat) (lblkno : Int) (flags : BitVec 32) (read : ReadResult)
    (bpp : Option Nat) : Option ReadCall :=
  match read.error with
  | some error => some ⟨cvtError flags error, none, (bpp.map victim).toList⟩
  -- `ASSERT(lblkno == buf_lblkno(bp))`
  | none => if lblkno = read.lblkno then some ⟨0, some read.bp, []⟩ else none

/-- `breadn_flags`: `buf_brelse(bp)` -/
def breadnFlags (lblkno : Int) (flags : BitVec 32) (read : ReadResult) (bpp : Option Nat) :
    Option ReadCall :=
  readFlags (fun _ => read.bp) lblkno flags read bpp

/-- `meta_bread_flags`: `buf_brelse(*bpp)` -/
def metaBreadFlags (lblkno : Int) (flags : BitVec 32) (read : ReadResult) (bpp : Option Nat) :
    Option ReadCall :=
  readFlags (fun old => old) lblkno flags read bpp

end UfsX.Compat.Buf
