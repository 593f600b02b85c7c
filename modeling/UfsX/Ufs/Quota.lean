import UfsX.Ufs.Inode

/-!
# `UfsX.Ufs.Quota`: block charges, `chkdq` and `chkdqchg`

An inode has a quota record for its user and one for its group, `i_dquot`, each null when
that quota is off. `chkdq` charges both, or gives a charge back. A charge that the group's
record refuses is taken off the user's record again.

The lock of a record and the messages about an exceeded quota are left out. Inode counts
(`chkiq`) are a table of their own, which block charges do not read.
-/

set_option autoImplicit false

namespace UfsX.Ufs

open UfsX.Lib

/-- User and group. -/
def MAXQUOTAS : Nat := 2

/-- `struct dquot`, the part about blocks. The counts are `u_int64_t`. -/
structure Dquot where
  curblocks : Nat
  bsoftlimit : Nat
  bhardlimit : Nat
  btime : Int
  /-- `DQ_BLKS` in `dq_flags` -/
  blks : Bool
  /-- `DQ_MOD` in `dq_flags` -/
  mod : Bool
  deriving DecidableEq, Repr

/-- `i_dquot` -/
abbrev Dquots := Nat → Option Dquot

/-- What `chkdq` is called with, the change and `FORCE` apart. -/
structure QuotaCall where
  /-- `vnode_issystem` -/
  system : Bool
  uid : Nat
  gid : Nat
  /-- `cr_uid` of the credential. -/
  crUid : Nat
  /-- `priv_check_cred` refuses `PRIV_VFS_EXCEEDQUOTA`. -/
  limited : Bool
  /-- `time_seconds` -/
  now : Int
  /-- `um_btime` -/
  umBtime : Nat → Int

/-- Take a change of `dq_curblocks` in, 0 when that would be negative. -/
def Dquot.settle (dq : Dquot) (change : Int) : Dquot :=
  let ncurblocks := toI64 (dq.curblocks + change)
  { dq with curblocks := if 0 ≤ ncurblocks then ncurblocks.toNat else 0, blks := false, mod := true }

/-- The warning about a limit is given once to the owner. -/
def Dquot.warn (dq : Dquot) (q : QuotaCall) : Dquot :=
  if dq.blks = false ∧ q.uid = q.crUid then { dq with blks := true } else dq

/-- `chkdqchg`: check for a valid change to a user's allocation. -/
def chkdqchg (q : QuotaCall) (change : Int) (type : Nat) (dq : Dquot) : Option Errno × Dquot :=
  let ncurblocks := toU64 (dq.curblocks + change)
  -- If user would exceed their hard limit, disallow space allocation.
  if (dq.bhardlimit : Int) ≤ ncurblocks ∧ dq.bhardlimit ≠ 0 then (some .edquot, dq.warn q)
  -- If user is over their soft limit for too long, disallow space allocation. Reset time
  -- limit as they cross their soft limit.
  else if (dq.bsoftlimit : Int) ≤ ncurblocks ∧ dq.bsoftlimit ≠ 0 then
    if dq.curblocks < dq.bsoftlimit then (none, { dq with btime := q.now + q.umBtime type })
    else if dq.btime < q.now then (some .edquot, dq.warn q)
    else (none, dq)
  else (none, dq)

/-- Roll back the changes of the `i` records before the one that refused. -/
def chkdqRollback (change : Int) : Nat → Dquots → Dquots
  | 0, dqs => dqs
  | i + 1, dqs =>
      chkdqRollback change i (Function.update dqs i ((dqs i).map fun dq => dq.settle (-change)))

/-- The end of a round of the loop: the record is charged. -/
def Dquot.charge (dq : Dquot) (q : QuotaCall) (change : Int) (type : Nat) : Dquot :=
  let ncurblocks := toU64 (dq.curblocks + change)
  -- Reset timer when crossing soft limit
  let dq :=
    if (dq.bsoftlimit : Int) ≤ ncurblocks ∧ dq.curblocks < dq.bsoftlimit then
      { dq with btime := q.now + q.umBtime type }
    else dq
  { dq with curblocks := ncurblocks.toNat, mod := true }

/-- The loop of `chkdq` over the records for a positive change, `left` of them from record
`i` on. -/
def chkdqLoop (q : QuotaCall) (change : Int) (doCheck : Bool) : Nat → Nat → Dquots → Option Errno × Dquots
  | 0, _, dqs => (none, dqs)
  | left + 1, i, dqs =>
      match dqs i with
      | none => chkdqLoop q change doCheck left (i + 1) dqs
      | some dq =>
          match (if doCheck then chkdqchg q change i dq else (none, dq)) with
          | (some e, dq) => (some e, chkdqRollback change i (Function.update dqs i (some dq)))
          | (none, dq) =>
              chkdqLoop q change doCheck left (i + 1) (Function.update dqs i (some (dq.charge q change i)))

/-- `chkdq`: update disk usage, and take corrective action. -/
def chkdq (q : QuotaCall) (dqs : Dquots) (change : Int) (force : Bool) : Option Errno × Dquots :=
  -- Disk quotas must be turned off for system files.
  if q.system then (none, dqs)
  else if toI32 q.uid < 0 ∨ toI32 q.gid < 0 then (none, dqs)
  else if change = 0 then (none, dqs)
  else if change < 0 then
    (none, fun i => if i < MAXQUOTAS then (dqs i).map fun dq => dq.settle change else dqs i)
  else chkdqLoop q change (!force && q.limited) MAXQUOTAS 0 dqs

end UfsX.Ufs
