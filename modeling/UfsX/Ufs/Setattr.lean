import UfsX.Ufs.Setid

/-!
# `UfsX.Ufs.Setattr`: changing the attributes of a file

`ufs_setattr` of `ufs_vnops.c`, one stage after the other: the file flags, the check for
immutable files, owner, size, times and mode. A stage hands the file on, or returns for the
whole call. `ufs_chmod` and `ufs_chown` are those of `UfsX.Ufs.Setid`, with `UFS_UPDATE`
after them.

`vnode_authorize`, `UFS_UPDATE` and `UFS_TRUNCATE` come in as what their calls come to, the
calls of the first two counted from 0 on. `UFS_UPDATE` stamps the times before it writes.
Access control lists and quotas are compiled out. `di_flags` is written with `i_flags` and
left out, as are `i_modrev` and the bits of `i_flag` that say when the inode is written.
-/

set_option autoImplicit false

namespace UfsX.Ufs.Setattr

open UfsX.Lib
open UfsX.Ufs.Setid

/-! ### Files -/

/-- `i_flags` and `va_flags`. -/
abbrev Flags := BitVec 32

def UF_SETTABLE : Flags := 0x0000ffff#32
def UF_IMMUTABLE : Flags := 0x00000002#32
def UF_APPEND : Flags := 0x00000004#32
def SF_SETTABLE : Flags := 0x3fff0000#32
def SF_ARCHIVED : Flags := 0x00010000#32
def SF_IMMUTABLE : Flags := 0x00020000#32
def SF_APPEND : Flags := 0x00040000#32
def SF_NOUNLINK : Flags := 0x00100000#32
def SF_SNAPSHOT : Flags := 0x00200000#32

def IMMUTABLE : Flags := UF_IMMUTABLE ||| SF_IMMUTABLE
def APPEND : Flags := UF_APPEND ||| SF_APPEND

/-- What `va_flags` may hold. `UF_SETTABLE` has in it all the other bits that the source names. -/
def supported : Flags := SF_APPEND ||| SF_ARCHIVED ||| SF_IMMUTABLE ||| SF_NOUNLINK ||| SF_SNAPSHOT ||| UF_SETTABLE

def EISDIR : Nat := 21
def EINVAL : Nat := 22
def EROFS : Nat := 30
def EOPNOTSUPP : Nat := 102

/-- Seconds and nanoseconds, as a dinode has them. -/
abbrev Stamp := Int × Int

structure Times where
  atime : Stamp
  mtime : Stamp
  ctime : Stamp
  birthtime : Stamp
  deriving DecidableEq, Repr

/-- `IN_ACCESS`, `IN_CHANGE` and `IN_UPDATE` in `i_flag`. -/
structure Marks where
  access : Bool
  change : Bool
  update : Bool
  deriving DecidableEq, Repr

structure File where
  node : Node
  flags : Flags
  marks : Marks
  times : Times
  /-- `I_IS_UFS2` -/
  ufs2 : Bool

/-! ### Calls -/

/-- `VATTR_IS_ACTIVE`, for the attributes that are asked about. -/
structure Active where
  flags : Bool
  uid : Bool
  gid : Bool
  dataSize : Bool
  accessTime : Bool
  modifyTime : Bool
  createTime : Bool
  deriving DecidableEq, Repr

/-- `struct vnode_attr` -/
structure VnodeAttr where
  /-- `va_type` is `VNON`. -/
  typeNone : Bool
  nlink : BitVec 64
  fsid : BitVec 32
  fileid : BitVec 64
  iosize : BitVec 32
  rdev : BitVec 32
  gen : BitVec 32
  dataSize : BitVec 64
  flags : Flags
  uid : Nat
  gid : Nat
  mode : BitVec 16
  accessTime : Int × Int
  modifyTime : Int × Int
  createTime : Int × Int
  active : Active

/-- What `UFS_TRUNCATE` comes to. -/
structure Truncated where
  err : Nat
  size : Nat
  marks : Marks
  times : Times

/-- What a call finds, and what the functions that it calls come to. -/
structure Env where
  /-- `vfs_isrdonly` -/
  rdonly : Bool
  /-- `UFS_RDONLY` -/
  fsRonly : Bool
  authErr : Nat → Nat
  updateErr : Nat → Nat
  /-- `getnanotime` -/
  now : Nat → Stamp
  truncate : Truncated

/-- `tv_sec` is not `VNOVAL`. -/
def given (t : Int × Int) : Bool := t.1 ≠ -1

/-- A time as `DIP_SET` stores it, through an `int`. -/
def toStamp (t : Int × Int) : Stamp := (toI32 t.1, toI32 t.2)

/-- The times that `ufs_itimes` leaves. -/
def stamped (fsRonly : Bool) (now : Stamp) (marks : Marks) (times : Times) : Times :=
  if fsRonly then times
  else
    { times with
      atime := if marks.access then now else times.atime
      mtime := if marks.update then now else times.mtime
      ctime := if marks.change then now else times.ctime }

namespace File

variable (f : File)

/-- `ufs_itimes` -/
def itimes (fsRonly : Bool) (now : Stamp) : File :=
  { f with times := stamped fsRonly now f.marks f.times, marks := ⟨false, false, false⟩ }

/-- `UFS_INODE_SET_FLAG(ip, IN_CHANGE)` and the `k`-th `UFS_UPDATE`. -/
def changed (env : Env) (k : Nat) : File :=
  { f with marks := { f.marks with change := true } }.itimes env.fsRonly (env.now k)

end File

/-- The value of a stage: the file for the next one, or what the call returns. -/
abbrev Stage := Except (Nat × File) File

/-! ### The stages -/

section Stages

variable (env : Env) (cred : Cred) (vap : VnodeAttr)

/-- An attribute is given that cannot be set. `va_data_size` is compared in its low 32 bits. -/
def unsettable : Bool :=
  !vap.typeNone || vap.nlink ≠ BitVec.allOnes 64 || vap.fsid ≠ BitVec.allOnes 32
    || vap.fileid ≠ BitVec.allOnes 64 || vap.iosize ≠ BitVec.allOnes 32 || vap.rdev ≠ BitVec.allOnes 32
    || vap.dataSize.setWidth 32 ≠ BitVec.allOnes 32 || vap.gen ≠ BitVec.allOnes 32

def checkSettable (f : File) : Stage := if unsettable vap then .error (EINVAL, f) else .ok f

/-- The test of the source for a privileged caller: the owner, when in the group of the file. -/
def owns (f : File) : Bool := cred.uid = f.node.uid && cred.member f.node.gid

/-- `EPERM` for the flags. -/
def flagsDenied (f : File) : Bool :=
  if owns cred f then (vap.flags ^^^ f.flags) &&& SF_SNAPSHOT ≠ 0
  else f.flags &&& (SF_NOUNLINK ||| SF_IMMUTABLE ||| SF_APPEND) ≠ 0 || (vap.flags ^^^ f.flags) &&& SF_SETTABLE ≠ 0

def setFlags (f : File) : Stage :=
  if vap.active.flags then
    if vap.flags &&& ~~~supported ≠ 0 then .error (EOPNOTSUPP, f)
    else if env.rdonly then .error (EROFS, f)
    else if env.authErr 0 ≠ 0 then .error (env.authErr 0, f)
    else if flagsDenied cred vap f then .error (EPERM, f)
    else
      let f := { f with flags := vap.flags, node := { f.node with append := vap.flags &&& APPEND ≠ 0 } }.changed env 0
      if f.flags &&& (IMMUTABLE ||| APPEND) ≠ 0 then .error (env.updateErr 0, f) else .ok f
  else .ok f

def checkImmutable (f : File) : Stage :=
  if f.flags &&& (IMMUTABLE ||| APPEND) ≠ 0 then .error (EPERM, f) else .ok f

/-- `ufs_chown`. Each of the two numbers is looked at when the other attribute is active. -/
def setOwner (f : File) : Stage :=
  if vap.uid ≠ vnoval ∧ vap.active.gid ∨ vap.gid ≠ vnoval ∧ vap.active.uid then
    if env.rdonly then .error (EROFS, f)
    else
      let (err, node) := ufsChown cred (env.authErr 1) 0 f.node vap.uid vap.gid
      if err ≠ 0 then .error (err, f)
      else
        let f := { f with node }.changed env 1
        if env.updateErr 1 ≠ 0 then .error (env.updateErr 1, f) else .ok f
  else .ok f

def truncateTo (f : File) : Stage :=
  if env.rdonly then .error (EROFS, f)
  else if f.flags &&& SF_SNAPSHOT ≠ 0 then .error (EPERM, f)
  else
    let t := env.truncate
    let f := { f with node := { f.node with size := t.size }, marks := t.marks, times := t.times }
    if t.err ≠ 0 then .error (t.err, f) else .ok f

def setSize (f : File) : Stage :=
  if vap.active.dataSize then
    match f.node.vtype with
    | .vdir => .error (EISDIR, f)
    | .vlnk | .vreg => truncateTo env f
    | .other => .error (0, f)
  else .ok f

/-- The times and marks before `UFS_UPDATE`. -/
def putTimes (f : File) : File :=
  { f with
    marks :=
      { access := f.marks.access && !given vap.accessTime
        change := true
        update := f.marks.update && !given vap.modifyTime }
    times :=
      { f.times with
        atime := if given vap.accessTime then toStamp vap.accessTime else f.times.atime
        mtime := if given vap.modifyTime then toStamp vap.modifyTime else f.times.mtime
        birthtime :=
          if given vap.createTime && f.ufs2 then (vap.createTime.1, toI32 vap.createTime.2)
          else f.times.birthtime } }

def setTimes (f : File) : Stage :=
  if vap.active.accessTime || vap.active.modifyTime || vap.active.createTime then
    if env.rdonly then .error (EROFS, f)
    else if f.flags &&& SF_SNAPSHOT ≠ 0 then .error (EPERM, f)
    else
      let f := (putTimes vap f).itimes env.fsRonly (env.now 2)
      if env.updateErr 2 ≠ 0 then .error (env.updateErr 2, f) else .ok f
  else .ok f

/-- `S_IXUSR | S_IWUSR` and so on, for the group and the others too. -/
def writeExec : BitVec 16 := 0xdb#16

/-- The last stage returns in any case. -/
def setMode (f : File) : Nat × File :=
  if vap.mode = BitVec.allOnes 16 then (0, f)
  else if env.rdonly then (EROFS, f)
  else if f.flags &&& SF_SNAPSHOT ≠ 0 ∧ vap.mode &&& writeExec ≠ 0 then (EPERM, f)
  else
    let (err, node) := ufsChmod cred (env.authErr 3) 0 f.node vap.mode
    if err ≠ 0 then (err, f) else (env.updateErr 3, { f with node }.changed env 3)

def stages (f : File) : Stage := do
  let f ← checkSettable vap f
  let f ← setFlags env cred vap f
  let f ← checkImmutable f
  let f ← setOwner env cred vap f
  let f ← setSize env vap f
  setTimes env vap f

/-- `ufs_setattr` -/
def ufsSetattr (f : File) : Nat × File :=
  match stages env cred vap f with
  | .ok f => setMode env cred vap f
  | .error r => r

end Stages

/-- A call with the credential of its caller. -/
structure Call where
  env : Env
  cred : Cred
  vap : VnodeAttr

/-- The file after a call. -/
def Call.run (c : Call) (f : File) : File := (ufsSetattr c.env c.cred c.vap f).2

end UfsX.Ufs.Setattr
