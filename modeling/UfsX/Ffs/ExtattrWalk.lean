import UfsX.Lib.CInt
import UfsX.Lib.Mem

/-!
# `UfsX.Ffs.ExtattrWalk`: what the walks over an attribute area read

`ffs_rdextattr` checks the records of the area that it has read from the device, and
`ffs_findextattr`, `ffs_getextattr` and `ffs_listextattr` go over them later. The area starts
at address 0 of a memory and is `size` bytes long; what lies behind it is not known. Each
function comes with the bytes that it reads, in order.

A walk takes a number of rounds. One that is not done by then has no result.
-/

set_option autoImplicit false

namespace UfsX.Ffs.ExtattrWalk

open UfsX.Lib

/-- A run of a function: the bytes it reads, and what it returns. -/
structure Walk (α : Type*) where
  reads : List Span
  result : α

/-- The run after `rs` has been read. -/
def Walk.after {α : Type*} (rs : List Span) (w : Walk α) : Walk α := { w with reads := rs ++ w.reads }

/-! ### `struct extattr` -/

/-- `sizeof(struct extattr)` -/
def sizeofExtattr : Nat := 8

/-- `sizeof(struct extattr) - 1`, where the name starts. -/
def eaHeader : Nat := 7

section Record

variable (m : Mem) (eap : Nat)

def eaLength : Nat := m.read32 eap

def eaNamespace : Nat := (m (eap + 4)).toNat

def eaContentpadlen : Nat := (m (eap + 5)).toNat

def eaNamelength : Nat := (m (eap + 6)).toNat

/-- The first `n` bytes of `ea_name`. -/
def eaName (n : Nat) : List UInt8 := m.readBytes (eap + eaHeader) n

/-- `EXTATTR_BASE_LENGTH` -/
def eaBaseLength : Nat := (eaHeader + eaNamelength m eap + 7) / 8 * 8

/-- `EXTATTR_NEXT` -/
def eaNext : Nat := eap + eaLength m eap

/-- `EXTATTR_CONTENT` -/
def eaContent : Nat := eap + eaBaseLength m eap

/-- `EXTATTR_CONTENT_SIZE`, which is returned as an `int`. -/
def eaContentSize : Int := toI32 ((eaLength m eap : Int) - eaBaseLength m eap - eaContentpadlen m eap)

end Record

variable (m : Mem) (size : Nat)

/-! ### `ffs_rdextattr` -/

/-- The validation loop of `ffs_rdextattr`; `false` is `ESTALE`. -/
def validate : Nat → Nat → Walk (Option Bool)
  | 0, eap => ⟨[], if eap < size then none else some true⟩
  | fuel + 1, eap =>
      if eap < size then
        if eaLength m eap < sizeofExtattr ∨ size < eaNext m eap then ⟨[(eap, 4)], some false⟩
        else (validate fuel (eaNext m eap)).after [(eap, 4)]
      else ⟨[], some true⟩

/-! ### `ffs_findextattr` -/

/-- How a look-up ends. -/
inductive Find where
  | missing
  /-- The record, its content and the size that is returned. -/
  | found (eap content : Nat) (ealen : Int)
  /-- An assertion fails. -/
  | panic
  deriving DecidableEq, Repr

section Record

variable (nspace : Int) (name : List UInt8) (eap : Nat)

/-- The test that `ffs_findextattr` makes of a record. -/
def Matches : Prop :=
  (eaNamespace m eap : Int) = nspace ∧ eaNamelength m eap = name.length ∧ eaName m eap name.length = name

instance : Decidable (Matches m nspace name eap) := inferInstanceAs (Decidable (_ ∧ _))

/-- What it reads for the test: each part only if the one before is equal. -/
def compared : List Span :=
  (eap + 4, 1) ::
    if (eaNamespace m eap : Int) = nspace then
      (eap + 6, 1) :: if eaNamelength m eap = name.length then [(eap + eaHeader, name.length)] else []
    else []

end Record

/-- `ffs_findextattr`, from the record at `eap` on. -/
def ffsFindextattr (nspace : Int) (name : List UInt8) : Nat → Nat → Walk (Option Find)
  | 0, eap => ⟨[], if eap < size then none else some .missing⟩
  | fuel + 1, eap =>
      if eap < size then
        if size < eaNext m eap then ⟨[(eap, 4)], some .panic⟩
        else if Matches m nspace name eap then
          ⟨(eap, 4) :: compared m nspace name eap ++ [(eap + 6, 1), (eap, 4), (eap + 6, 1), (eap + 5, 1)],
            some (.found eap (eaContent m eap) (eaContentSize m eap))⟩
        else
          (ffsFindextattr nspace name fuel (eaNext m eap)).after ((eap, 4) :: compared m nspace name eap ++ [(eap, 4)])
      else ⟨[], some .missing⟩

/-! ### `ffs_getextattr` and `ffs_listextattr` -/

/-- Where the answer goes: `a_size`, or `a_uio` with room for some bytes, or nowhere. -/
inductive Sink where
  | size
  | uio (resid : Nat)
  | null
  deriving DecidableEq, Repr

/-- `ffs_getextattr` once the area is open. -/
def ffsGetextattr (name : List UInt8) (sink : Sink) (fuel : Nat) : Walk (Option Find) :=
  let w := ffsFindextattr m size 0 name fuel 0
  match w.result, sink with
  | some (.found _ p ealen), .uio resid =>
      if 0 ≤ ealen then { w with reads := w.reads ++ [(p, min ealen.toNat resid)] } else w
  | _, _ => w

/-- The body of the loop of `ffs_listextattr` for a record: what it reads, and what is left of
the sink unless `uiomove` fails. -/
def listRecord (fault : Bool) (sink : Sink) (eap : Nat) : List Span × Option Sink :=
  if eaNamespace m eap ≠ 0 then ([(eap, 4), (eap + 4, 1), (eap, 4)], some sink)
  else
    match sink with
    | .uio resid =>
        -- `uiomove` gets the length of the name and the name
        let n := min (eaNamelength m eap + 1) resid
        ([(eap, 4), (eap + 4, 1), (eap + 6, 1), (eap + 6, n), (eap, 4)], if fault then none else some (.uio (resid - n)))
    | sink => ([(eap, 4), (eap + 4, 1), (eap + 6, 1), (eap, 4)], some sink)

/-- The loop of `ffs_listextattr`; `fault` says of which record `uiomove` cannot deliver the
name. The result is `false` when an assertion fails. -/
def ffsListextattr (fault : Nat → Bool) : Sink → Nat → Nat → Walk (Option Bool)
  | _, 0, eap => ⟨[], if eap < size then none else some true⟩
  | sink, fuel + 1, eap =>
      if eap < size then
        if size < eaNext m eap then ⟨[(eap, 4)], some false⟩
        else
          match listRecord m (fault eap) sink eap with
          | (rs, none) => ⟨rs, some true⟩
          | (rs, some sink) => (ffsListextattr fault sink fuel (eaNext m eap)).after rs
      else ⟨[], some true⟩

end UfsX.Ffs.ExtattrWalk
