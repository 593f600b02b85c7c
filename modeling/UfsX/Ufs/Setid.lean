import UfsX.Ffs.Write

/-!
# `UfsX.Ufs.Setid`: the mode of a file and who changes it

The four functions that write `i_mode` of an existing file: `ufs_chmod` and `ufs_chown`
of `ufs_vnops.c`, `ffs_write` and `ffs_extwrite` of `ffs_vnops.c`. Modes and permissions
are 16-bit words, as `i_mode` and `di_mode` are.

`vnode_authorize`, `UFS_UPDATE`, `UFS_BALLOC`, `uiomove`, `cluster_write` and
`ffs_truncate` come in as what their calls come to. Errors are numbers, 0 for none. A
write hands its bytes to the buffer of one block at a time; how many of them the block
takes is part of the call's `Round`.
-/

set_option autoImplicit false

namespace UfsX.Ufs.Setid

open UfsX.Lib
open UfsX.Ffs (Fs)
open UfsX.Ffs.Write (Uio Ioflag scan)

def ISUID : BitVec 16 := 0x800#16
def ISGID : BitVec 16 := 0x400#16
def ISTXT : BitVec 16 := 0x200#16

/-- `ISUID | ISGID` -/
def setid : BitVec 16 := ISUID ||| ISGID

/-- `ALLPERMS`, the mode without the file type. -/
def allperms : BitVec 16 := 0xfff#16

def EPERM : Nat := 1
def ENXIO : Nat := 6
def EFBIG : Nat := 27
def EFTYPE : Nat := 79

/-- `VNOVAL` as a user or group number. -/
def vnoval : Nat := 2 ^ 32 - 1

/-- `vnode_vtype`, as far as the four functions tell types apart. -/
inductive Vtype where
  | vreg
  | vdir
  | vlnk
  | other
  deriving DecidableEq, Repr

/-- The credential of a caller. -/
structure Cred where
  uid : Nat
  /-- `groupmember` -/
  member : Nat → Bool

/-- `kauth_cred_issuser` -/
def Cred.issuser (cred : Cred) : Bool := cred.uid == 0

/-- A file: the fields of the in-core inode, and of its dinode those that have the prefix
`di`. -/
structure Node where
  vtype : Vtype
  mode : BitVec 16
  uid : Nat
  gid : Nat
  size : Nat
  /-- `APPEND` in `i_flags`. -/
  append : Bool
  diMode : BitVec 16
  diUid : Nat
  diGid : Nat
  diExtsize : Nat

/-- `UFS_INODE_SET_MODE` followed by `DIP_SET(ip, i_mode, ip->i_mode)`. -/
def Node.setMode (ip : Node) (mode : BitVec 16) : Node := { ip with mode, diMode := mode }

/-! ### `ufs_chmod` and `ufs_chown` -/

/-- `ufs_chmod(vp, mode, cred)`. The file type in `mode` is not looked at. -/
def ufsChmod (cred : Cred) (authErr updateErr : Nat) (ip : Node) (mode : BitVec 16) : Nat × Node :=
  if authErr ≠ 0 then (authErr, ip)
  else if ip.vtype ≠ .vdir ∧ mode &&& ISTXT ≠ 0 ∧ cred.issuser = false then (EFTYPE, ip)
  else if cred.member ip.gid = false ∧ mode &&& ISGID ≠ 0 ∧ cred.issuser = false then (EPERM, ip)
  else if mode &&& ISUID ≠ 0 ∧ ip.uid ≠ cred.uid ∧ cred.issuser = false then (EPERM, ip)
  else (updateErr, ip.setMode (ip.mode &&& ~~~allperms ||| mode &&& allperms))

/-- `ufs_chown(vp, uid, gid, cred)` -/
def ufsChown (cred : Cred) (authErr updateErr : Nat) (ip : Node) (uid gid : Nat) : Nat × Node :=
  let uid := if uid = vnoval then ip.uid else uid
  let gid := if gid = vnoval then ip.gid else gid
  if authErr ≠ 0 then (authErr, ip)
  else if (uid ≠ ip.uid ∧ uid ≠ cred.uid ∨ gid ≠ ip.gid ∧ cred.member gid = false) ∧ cred.issuser = false then
    (EPERM, ip)
  else
    let changed := ip.uid ≠ uid ∨ ip.gid ≠ gid
    let ip := { ip with gid, diGid := gid, uid, diUid := uid }
    let ip :=
      if ip.mode &&& setid ≠ 0 ∧ changed then
        if cred.issuser then ip.setMode (ip.mode &&& ~~~setid) else ip
      else ip
    (updateErr, ip)

/-! ### `ffs_write` and `ffs_extwrite` -/

/-- What one round of a write loop comes to. -/
structure Round where
  /-- `UFS_BALLOC` -/
  ballocErr : Nat
  /-- The size of the block less `buf_resid`. -/
  room : Int
  /-- `uiomove`, and the number of bytes that it moves before an error. -/
  moveErr : Nat
  moved : Nat

/-- The bytes that `uiomove` moves out of `xfersize`. -/
def Round.bytes (r : Round) (xfersize : Int) : Nat :=
  if r.moveErr = 0 then xfersize.toNat else min r.moved xfersize.toNat

/-- The request after `n` bytes of it were moved. -/
def advance (uio : Uio) (n : Nat) : Uio := { uio with offset := uio.offset + n, resid := uio.resid - n }

/-- The loop over the blocks of a request, with at most `fuel` rounds: the error, the new
size of the file or of its attribute area, and what is left of the request. -/
def transfer (fs : Fs) (rounds : Nat → Round) : Nat → Nat → Nat → Uio → Option (Nat × Nat × Uio)
  | 0, _, _, _ => none
  | fuel + 1, k, size, uio =>
      if uio.resid ≤ 0 then some (0, size, uio)
      else
        let r := rounds k
        let xfersize := min (fs.bsize - uio.offset % fs.bsize) uio.resid
        if r.ballocErr ≠ 0 then some (r.ballocErr, size, uio)
        else
          let size := max size (uio.offset + xfersize).toNat
          let xfersize := min xfersize r.room
          let uio := advance uio (r.bytes xfersize)
          if r.moveErr ≠ 0 ∨ xfersize = 0 then some (r.moveErr, size, uio)
          else transfer fs rounds fuel (k + 1) size uio

/-- What a write call calls. -/
structure WriteEnv where
  rounds : Nat → Round
  /-- `cluster_write`: the error, and the bytes that it takes from the request. -/
  cluster : Nat × Nat
  /-- `ffs_truncate` back to the old size. -/
  truncErr : Nat
  /-- `ffs_update` -/
  updateErr : Nat
  /-- `ffs_fsfail_cleanup` -/
  fsfail : Bool

/-- How a write call returns: the error, the file, and how many bytes of the request it
took. -/
structure Ret where
  error : Nat
  ip : Node
  stored : Nat

/-- The bits are cleared when something was written. -/
def clearSetid (cred : Cred) (ip : Node) (resid left : Int) : Node :=
  if ip.mode &&& setid ≠ 0 ∧ left < resid then
    if cred.issuser then ip.setMode (ip.mode &&& ~~~setid) else ip
  else ip

/-- `ffs_write` from the check of the size on. -/
def writeAt (env : WriteEnv) (fs : Fs) (maxfilesize : UInt64) (cred : Cred) (ioflag : Ioflag) (fuel : Nat)
    (ip : Node) (uio : Uio) : Option Ret :=
  if uio.resid < 0 ∨ uio.offset < 0 then none
  else if maxfilesize.toNat < toU64 (uio.offset + uio.resid) then some ⟨EFBIG, ip, 0⟩
  else
    -- the error, the new size, the local variable `resid` and what is left of the request
    let done : Option (Nat × Nat × Int × Int) :=
      if ip.vtype = .vreg then
        (scan fs fuel { ubcResid := uio.resid, resid := uio.resid, filepos := uio.offset, xfersize := fs.bsize }).map
          fun s => (env.cluster.1, ip.size, s.resid, uio.resid - min env.cluster.2 uio.resid.toNat)
      else
        (transfer fs env.rounds fuel 0 ip.size uio).map fun t => (t.1, t.2.1, uio.resid, t.2.2.resid)
    done.map fun (error, size, resid, left) =>
      let ip' := clearSetid cred { ip with size } resid left
      let stored := (uio.resid - left).toNat
      if error ≠ 0 then
        if ioflag.unit ∧ env.truncErr = 0 then ⟨error, { ip' with size := ip.size }, stored⟩ else ⟨error, ip', stored⟩
      else if left < resid ∧ ioflag.sync then ⟨if env.fsfail then ENXIO else env.updateErr, ip', stored⟩
      else ⟨0, ip', stored⟩

/-- `ffs_write`. The result is `none` for a panic, and while the loop needs more fuel. -/
def ffsWrite (env : WriteEnv) (fs : Fs) (maxfilesize : UInt64) (cred : Cred) (ioflag : Ioflag) (fuel : Nat)
    (ip : Node) (uio : Uio) : Option Ret :=
  if ioflag.ext then none
  else
    match ip.vtype with
    | .vreg =>
        let uio := if ioflag.append then { uio with offset := ip.size } else uio
        if ip.append ∧ uio.offset ≠ ip.size then some ⟨EPERM, ip, 0⟩
        else writeAt env fs maxfilesize cred ioflag fuel ip uio
    | .vlnk => writeAt env fs maxfilesize cred ioflag fuel ip uio
    | .vdir | .other => none

/-- `ffs_extwrite` -/
def ffsExtwrite (env : WriteEnv) (fs : Fs) (cred : Cred) (ioflag : Ioflag) (fuel : Nat) (ip : Node) (uio : Uio) :
    Option Ret :=
  let uio := if ioflag.append then { uio with offset := ip.diExtsize } else uio
  if uio.resid < 0 ∨ uio.offset < 0 then none
  else if (nxaddr * fs.bsize : Int) < uio.offset + uio.resid then some ⟨EFBIG, ip, 0⟩
  else
    (transfer fs env.rounds fuel 0 ip.diExtsize uio).map fun (error, extsize, rest) =>
      let ip' := clearSetid cred { ip with diExtsize := extsize } uio.resid rest.resid
      let stored := (uio.resid - rest.resid).toNat
      if error ≠ 0 then
        if ioflag.unit ∧ env.truncErr = 0 then ⟨error, { ip' with diExtsize := ip.diExtsize }, stored⟩
        else ⟨error, ip', stored⟩
      else if rest.resid < uio.resid ∧ ioflag.sync then ⟨env.updateErr, ip', stored⟩
      else ⟨0, ip', stored⟩

/-! ### Calls -/

/-- One call on a file, with the credential of its caller and what the functions that it
calls come to. -/
inductive Call where
  | write (env : WriteEnv) (maxfilesize : UInt64) (ioflag : Ioflag) (fuel : Nat) (uio : Uio)
  | extwrite (env : WriteEnv) (ioflag : Ioflag) (fuel : Nat) (uio : Uio)
  | chown (authErr updateErr : Nat) (uid gid : Nat)
  | chmod (authErr updateErr : Nat) (mode : BitVec 16)

/-- The call is made; it may not return. -/
def Call.exec (fs : Fs) (cred : Cred) (ip : Node) : Call → Option Ret
  | .write env maxfilesize ioflag fuel uio => ffsWrite env fs maxfilesize cred ioflag fuel ip uio
  | .extwrite env ioflag fuel uio => ffsExtwrite env fs cred ioflag fuel ip uio
  | .chown authErr updateErr uid gid =>
      let r := ufsChown cred authErr updateErr ip uid gid
      some ⟨r.1, r.2, 0⟩
  | .chmod authErr updateErr mode =>
      let r := ufsChmod cred authErr updateErr ip mode
      some ⟨r.1, r.2, 0⟩

end UfsX.Ufs.Setid
