import UfsX.Ufs.Inode

/-!
# `UfsX.Ffs.Extattr`: the extended attribute area of an inode

The area is a sequence of records (`struct extattr`): the length of the record, the name
space, the length of the padding at the end, the length of the name, the name, padding to
a multiple of 8, the content and its padding. `ffs_open_ea` reads the area into memory,
where it stays while somebody uses it, and `ffs_close_ea` writes it back.

A pointer into the area is the list of the bytes from there on. The bytes that are stored
on the device are read back as they were written, and no read or write fails.

Both transfers name `&liovec` as the memory to use, not the area: the bytes on the stack
from there on are written to the device, and the area that has been read is what
`malloc` returned. Sixteen bytes of the stack belong to `liovec`; a longer read runs over
the stack, which is a crash here.
-/

set_option autoImplicit false

namespace UfsX.Ffs.Extattr

open UfsX.Lib (toI32)
open UfsX.Ufs (nxaddr)

abbrev Bytes : Type := List UInt8

inductive EaErrno where
  | einval
  | eopnotsupp
  | enotsup
  | erofs
  | efbig
  | estale
  | enospc
  | enoattr
  | efault
  deriving DecidableEq, Repr

/-! ### Records -/

/-- `sizeof(struct extattr) - 1` -/
def eaHeader : Nat := 7

/-- `roundup2(n, 8)` -/
def roundup8 (n : Nat) : Nat := (n + 7) / 8 * 8

def eaByte (eap : Bytes) (i : Nat) : Nat := (eap.getD i 0).toNat

def eaLength (eap : Bytes) : Nat :=
  eaByte eap 0 + 2 ^ 8 * eaByte eap 1 + 2 ^ 16 * eaByte eap 2 + 2 ^ 24 * eaByte eap 3

def eaNamespace (eap : Bytes) : Nat := eaByte eap 4

def eaContentpadlen (eap : Bytes) : Nat := eaByte eap 5

def eaNamelength (eap : Bytes) : Nat := eaByte eap 6

/-- The first `n` bytes of `ea_name`. -/
def eaName (eap : Bytes) (n : Nat) : Bytes := (eap.drop eaHeader).take n

/-- `EXTATTR_BASE_LENGTH` -/
def eaBaseLength (eap : Bytes) : Nat := roundup8 (eaHeader + eaNamelength eap)

/-- `EXTATTR_CONTENT` -/
def eaContent (eap : Bytes) : Bytes := eap.drop (eaBaseLength eap)

/-- `EXTATTR_CONTENT_SIZE`, which is returned as an `int`. -/
def eaContentSize (eap : Bytes) : Int :=
  toI32 ((eaLength eap : Int) - eaBaseLength eap - eaContentpadlen eap)

/-- `EXTATTR_NEXT` -/
def eaNext (eap : Bytes) : Bytes := eap.drop (eaLength eap)

def le32 (n : Nat) : Bytes :=
  [UInt8.ofNat n, UInt8.ofNat (n / 2 ^ 8), UInt8.ofNat (n / 2 ^ 16), UInt8.ofNat (n / 2 ^ 24)]

/-- The length of the record that `ffs_setextattr` makes. -/
def recordLength (name value : Bytes) : Nat := roundup8 (eaHeader + name.length) + roundup8 value.length

/-- The record that `ffs_setextattr` makes. -/
def eaRecord (nspace : UInt8) (name value : Bytes) : Bytes :=
  let eapad1 := roundup8 (eaHeader + name.length) - (eaHeader + name.length)
  let eapad2 := roundup8 value.length - value.length
  le32 (recordLength name value) ++ [nspace, UInt8.ofNat eapad2, UInt8.ofNat name.length] ++ name
    ++ List.replicate eapad1 0 ++ value ++ List.replicate eapad2 0

def EXTATTR_NAMESPACE_SYSTEM : UInt8 := 2

/-! ### Looking for a name -/

/-- `ffs_findextattr` from the record at offset `off` on, in name space `nspace`: the
offset of the record and the size of its content, or nothing for -1. There is no result
when an assertion fails, and when a record of length 0 keeps the loop in its place. -/
def findFrom (nspace : Nat) (name : Bytes) : Nat → Nat → Bytes → Option (Option (Nat × Int))
  | _, _, [] => some none
  | 0, _, _ :: _ => none
  | fuel + 1, off, eap =>
      if eap.length < eaLength eap then none
      else if eaNamespace eap ≠ nspace ∨ eaNamelength eap ≠ name.length ∨ eaName eap name.length ≠ name then
        findFrom nspace name fuel (off + eaLength eap) (eaNext eap)
      else some (some (off, eaContentSize eap))

/-- `ffs_findextattr`. A content of size -1 is not told from no record. -/
def ffsFindextattr (ptr : Bytes) (nspace : Nat) (name : Bytes) : Option (Option (Nat × Int)) :=
  (findFrom nspace name ptr.length 0 ptr).map fun r => r.filter fun found => found.2 ≠ -1

/-! ### The area in memory -/

/-- What does not change from call to call. -/
structure Vnode where
  fs : Fs
  /-- `VCHR` or `VBLK` -/
  special : Bool
  /-- `MNT_RDONLY` -/
  rdonly : Bool
  /-- `malloc` of 0 bytes returns a null pointer. -/
  nullMalloc : Bool

/-- The part of the inode that is about extended attributes. `i_ea_len` is the length of
the area. -/
structure Ea where
  /-- The bytes on the device, `di_extsize` of them. -/
  store : Bytes
  /-- `i_ea_area` -/
  area : Option Bytes
  /-- `i_ea_refs` -/
  refs : Nat
  /-- `i_ea_error` -/
  error : Option EaErrno
  deriving DecidableEq, Repr

/-- What the memory holds in a call. -/
structure Env where
  /-- What is in the memory that `malloc` returns. -/
  heap : Nat → UInt8
  /-- The stack from `&liovec` on. -/
  stack : Nat → UInt8

/-- `lblktosize(fs, UFS_NXADDR)` -/
def Vnode.maxArea (vp : Vnode) : Nat := vp.fs.lblktosize nxaddr

/-- `sizeof(liovec)` -/
def iovecSize : Nat := 16

/-- The check of the records in `ffs_rdextattr`. -/
def validate : Nat → Bytes → Bool
  | _, [] => true
  | 0, _ :: _ => false
  | fuel + 1, eap =>
      if eaLength eap < eaHeader + 1 ∨ eap.length < eaLength eap then false else validate fuel (eaNext eap)

/-- `ffs_rdextattr`, with the pointer that it returns; there is no result for a crash. -/
def ffsRdextattr (env : Env) (vp : Vnode) (store : Bytes) : Option (Except EaErrno (Option Bytes)) :=
  let easize := store.length
  if vp.maxArea < easize then some (.error .efbig)
  else if iovecSize < easize then none
  else
    let eae := (List.range easize).map env.heap
    if validate easize eae then some (.ok (if easize = 0 ∧ vp.nullMalloc then none else some eae))
    else some (.error .estale)

/-- `ffs_open_ea` -/
def ffsOpenEa (env : Env) (vp : Vnode) (ip : Ea) : Option (Except EaErrno Ea) :=
  match ip.area with
  | some _ => some (.ok { ip with refs := ip.refs + 1 })
  | none =>
      match ffsRdextattr env vp ip.store with
      | none => none
      | some (.error e) => some (.error e)
      | some (.ok area) => some (.ok { ip with area, error := none, refs := ip.refs + 1 })

/-- `ffs_close_ea`, with the error it returns. -/
def ffsCloseEa (env : Env) (ip : Ea) (commit : Bool) : Option EaErrno × Ea :=
  match ip.area with
  | none => (some .einval, ip)
  | some area =>
      let store := if commit ∧ ip.error = none then (List.range area.length).map env.stack else ip.store
      if ip.refs - 1 = 0 then (ip.error, { store, area := none, refs := 0, error := none })
      else (ip.error, { ip with store, refs := ip.refs - 1 })

/-! ### The operations -/

inductive Op where
  | get (name : Bytes)
  | list
  | delete (name : Bytes)
  /-- The request, which may be null, and the error with which it cannot be copied in. -/
  | set (name : Bytes) (uio : Option Bytes) (fault : Option EaErrno)
  deriving DecidableEq, Repr

/-- What an operation returns. -/
inductive Res where
  | ok
  | value (v : Bytes)
  | names (l : List Bytes)
  | error (e : EaErrno)
  | crash
  deriving DecidableEq, Repr

def Res.ofError : Option EaErrno → Res
  | none => .ok
  | some e => .error e

/-- The names in name space 0, as `ffs_listextattr` collects them. -/
def listFrom : Nat → Bytes → Option (List Bytes)
  | _, [] => some []
  | 0, _ :: _ => none
  | fuel + 1, eap =>
      if eap.length < eaLength eap then none
      else if eaNamespace eap ≠ 0 then listFrom fuel (eaNext eap)
      else (listFrom fuel (eaNext eap)).map (eaName eap (eaNamelength eap) :: ·)

/-- `ffs_getextattr` -/
def ffsGetextattr (env : Env) (vp : Vnode) (ip : Ea) (name : Bytes) : Ea × Res :=
  if vp.special then (ip, .error .eopnotsupp)
  else
    match ffsOpenEa env vp ip with
    | none => (ip, .crash)
    | some (.error e) => (ip, .error e)
    | some (.ok ip) =>
        let eae := ip.area.getD []
        match ffsFindextattr eae 0 name with
        | none => (ip, .crash)
        | some found =>
            let res :=
              match found with
              | some (off, ealen) =>
                  if 0 ≤ ealen then .value ((eaContent (eae.drop off)).take ealen.toNat)
                  else .error .enoattr
              | none => .error .enoattr
            ((ffsCloseEa env ip false).2, res)

/-- `ffs_listextattr` on a UFS2 inode. -/
def ffsListextattr (env : Env) (vp : Vnode) (ip : Ea) : Ea × Res :=
  if vp.special then (ip, .error .eopnotsupp)
  else
    match ffsOpenEa env vp ip with
    | none => (ip, .crash)
    | some (.error e) => (ip, .error e)
    | some (.ok ip) =>
        let eae := ip.area.getD []
        match listFrom eae.length eae with
        | none => (ip, .crash)
        | some names => ((ffsCloseEa env ip false).2, .names names)

/-- `ffs_deleteextattr` -/
def ffsDeleteextattr (env : Env) (vp : Vnode) (ip : Ea) (name : Bytes) : Ea × Res :=
  if vp.special then (ip, .error .eopnotsupp)
  else if name.length = 0 then (ip, .error .einval)
  else if vp.rdonly then (ip, .error .erofs)
  else
    match ffsOpenEa env vp ip with
    | none => (ip, .crash)
    | some (.error e) => (ip, .error e)
    | some (.ok ip) =>
        let eae := ip.area.getD []
        match ffsFindextattr eae 0 name with
        | none => (ip, .crash)
        | some none => ((ffsCloseEa env ip false).2, .error .enoattr)
        | some (some (off, _)) =>
            let (error, ip) := ffsCloseEa env { ip with area := some (eae.take off ++ eaNext (eae.drop off)) } true
            (ip, .ofError error)

/-- What `ffs_setextattr` does after an error half way. -/
def setextattrFail (env : Env) (ip : Ea) (e : EaErrno) : Ea × Res :=
  let ip := (ffsCloseEa env ip false).2
  if ip.area.isSome ∧ ip.error = none then ({ ip with error := some e }, .error e) else (ip, .error e)

/-- The part of `ffs_setextattr` from `ffs_open_ea` on. -/
def setextattrOpen (env : Env) (vp : Vnode) (ip : Ea) (name value : Bytes) (fault : Option EaErrno) : Ea × Res :=
  match ffsOpenEa env vp ip with
  | none => (ip, .crash)
  | some (.error e) => (ip, .error e)
  | some (.ok ip) =>
      let eae := ip.area.getD []
      let record := eaRecord EXTATTR_NAMESPACE_SYSTEM name value
      match ffsFindextattr eae 0 name with
      | none => (ip, .crash)
      | some found =>
          let eae :=
            match found with
            | none => eae ++ record
            | some (off, _) => eae.take off ++ record ++ eaNext (eae.drop off)
          if vp.maxArea < eae.length then setextattrFail env ip .enospc
          else
            match fault with
            | some e => setextattrFail env ip e
            | none =>
                let (error, ip) := ffsCloseEa env { ip with area := some eae } true
                (ip, .ofError error)

/-- `ffs_setextattr` -/
def ffsSetextattr (env : Env) (vp : Vnode) (ip : Ea) (name : Bytes) (uio : Option Bytes) (fault : Option EaErrno) :
    Ea × Res :=
  if vp.special then (ip, .error .eopnotsupp)
  else if name.length = 0 then (ip, .error .einval)
  else
    match uio with
    | none => (ip, .error .eopnotsupp)
    | some value =>
        if vp.rdonly then (ip, .error .erofs)
        else if vp.maxArea < value.length then (ip, .error .einval)
        else setextattrOpen env vp ip name value fault

def exec (env : Env) (vp : Vnode) (ip : Ea) : Op → Ea × Res
  | .get name => ffsGetextattr env vp ip name
  | .list => ffsListextattr env vp ip
  | .delete name => ffsDeleteextattr env vp ip name
  | .set name uio fault => ffsSetextattr env vp ip name uio fault

end UfsX.Ffs.Extattr
