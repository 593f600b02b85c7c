import UfsX.Ffs.Update

/-!
# `UfsX.Ffs.Handle`: generation numbers and file handles

The life of one inode number: the inode is allocated (`ffs_valloc`), gets links,
loses them, is freed (`ufs_inactive`), leaves memory and is read in again
(`ffs_vgetf`). `ffs_vptofh` makes a handle of an inode in memory, `ffs_fhtovp` looks a
handle up.

The generation number has 64 bits in the in-core inode and 32 in the dinode and in
the handle. `random` comes in as the list of the values it returns. What
`ffs_update` leaves in the place on the device that `ffs_vgetf` reads comes in as the
dinode found there afterwards; `UfsX.Ffs.Update` has the function itself.
-/

set_option autoImplicit false

namespace UfsX.Ffs.Handle

open UfsX.Ufs (Errno)

/-- `struct ufid`, with the number of allocations of the inode before the handle was
made, which the code does not have. -/
structure Ufid where
  ino : Nat
  gen : Nat
  life : Nat
  deriving DecidableEq, Repr

/-- One inode number on the device and in memory. -/
structure InoState where
  /-- The dinode, where `ffs_vgetf` reads it. -/
  disk : Dinode
  core : Option IncoreInode
  /-- How often the inode has been allocated. -/
  life : Nat
  /-- The handles that have been made. -/
  handles : List Ufid

/-! ### Generations -/

/-- `while (ip->i_gen == 0 || ++ip->i_gen == 0) ip->i_gen = random();` -/
def vallocGen : List Nat → Nat → Option Nat
  | [], gen => if gen ≠ 0 ∧ (gen + 1) % 2 ^ 64 ≠ 0 then some ((gen + 1) % 2 ^ 64) else none
  | r :: rs, gen => if gen ≠ 0 ∧ (gen + 1) % 2 ^ 64 ≠ 0 then some ((gen + 1) % 2 ^ 64) else vallocGen rs r

/-- `DIP_SET(ip, i_gen, (int)gen)` with `ip->i_gen = gen`. -/
def setGen (ip : IncoreInode) (gen : Nat) : IncoreInode :=
  { ip with gen, din := { ip.din with gen := gen % 2 ^ 32 } }

/-- The end of `ffs_vgetf`: an inode without a generation number gets one. -/
def vgetGen (mp : InodeMount) (rnd : List Nat) (ip : IncoreInode) : Option IncoreInode :=
  if ip.gen = 0 then
    match rnd.find? (· ≠ 0) with
    | none => none
    | some r =>
        if mp.ronly then some { ip with gen := r }
        else some { setGen ip r with modified := true }
  else some ip

/-! ### In and out of memory -/

/-- `ffs_vgetf` for an inode that is not in memory. There is no result while `random`
has returned nothing but 0. -/
def vgetDisk (mp : InodeMount) (ino : Nat) (rnd : List Nat) (s : InoState) : Option (Except Errno IncoreInode) :=
  match mp.ffsLoadInode (fun _ => s.disk) ino with
  | .error e => some (.error e)
  | .ok ip => (vgetGen mp rnd ip).map .ok

/-- `ffs_vgetf` -/
def ffsVgetf (mp : InodeMount) (ino : Nat) (rnd : List Nat) (s : InoState) : Option (Except Errno (IncoreInode × InoState)) :=
  match s.core with
  | some ip => some (.ok (ip, s))
  | none => (vgetDisk mp ino rnd s).map fun r => r.map fun ip => (ip, { s with core := some ip })

/-- `ffs_valloc`, and the mode and the link count that its callers set. `FFSV_REPLACE`
has the inode read again, even if it is in memory. There is no result for a panic. -/
def ffsValloc (mp : InodeMount) (ino : Nat) (rnd rnd' : List Nat) (mode : Nat) (s : InoState) : Option InoState :=
  match vgetDisk mp ino rnd s with
  | some (.ok ip) =>
      if ip.mode ≠ 0 then none
      else
        (vallocGen rnd' ip.gen).map fun gen =>
          let ip := setGen { ip with flags := 0, din := { ip.din with flags := 0 } } gen
          { s with
            core := some { ip with
              mode, nlink := 1, effnlink := 1, modified := true
              din := { ip.din with mode, nlink := 1 } }
            life := s.life + 1 }
  | some (.error _) => some s
  | none => none

/-- The part of `ufs_inactive` that frees the inode. -/
def ufsInactive (mp : InodeMount) (ip : IncoreInode) : IncoreInode :=
  if ip.mode ≠ 0 ∧ ip.nlink ≤ 0 ∧ mp.ronly = false then
    { ip with mode := 0, modified := true, din := { ip.din with mode := 0 } }
  else ip

/-! ### Handles -/

/-- `ffs_vptofh` -/
def ffsVptofh (s : InoState) (ip : IncoreInode) : Ufid := ⟨ip.number % 2 ^ 32, ip.gen % 2 ^ 32, s.life⟩

/-- `ufs_fhtovp`; `ESTALE` for a handle that names no inode in use. -/
def ufsFhtovp (mp : InodeMount) (rnd : List Nat) (s : InoState) (fh : Ufid) :
    Option (Except Errno (IncoreInode × InoState)) :=
  match ffsVgetf mp fh.ino rnd s with
  | none => none
  | some (.error e) => some (.error e)
  | some (.ok (ip, s)) =>
      if ip.mode = 0 ∨ ip.gen ≠ fh.gen ∨ ip.effnlink ≤ 0 then some (.error .estale)
      else some (.ok (ip, s))

/-- `ffs_fhtovp`. `getcg` is what `ffs_getcg` returns for the inode's group: an error, or
the group with this `cg_initediblk`. -/
def ffsFhtovp (mp : InodeMount) (getcg : Except Errno Nat) (rnd : List Nat) (s : InoState) (fh : Ufid) :
    Option (Except Errno (IncoreInode × InoState)) :=
  if fh.ino < 2 ∨ mp.fs.ncg * mp.fs.ipg % 2 ^ 32 ≤ fh.ino then some (.error .estale)
  else
    match mp.fs.magic with
    | .ufs1 => ufsFhtovp mp rnd s fh
    | .ufs2 =>
        match getcg with
        | .error e => some (.error e)
        | .ok initediblk =>
            if fh.ino / mp.fs.ipg * mp.fs.ipg + initediblk ≤ fh.ino then some (.error .estale)
            else ufsFhtovp mp rnd s fh

/-! ### What can happen -/

inductive Op where
  /-- The inode is looked up. -/
  | vget (rnd : List Nat)
  /-- `ffs_update`; `after` is then on the device. -/
  | update (after : Dinode)
  /-- `ufs_reclaim`, which begins with an update. -/
  | reclaim (after : Dinode)
  | valloc (rnd rnd' : List Nat) (mode : Nat)
  /-- The link count is set, when a name is made or removed. -/
  | setNlink (nlink : Int)
  | inactive
  | vptofh
  deriving DecidableEq, Repr

/-- One operation on inode `ino`. All but `vget` and `valloc` need the inode in memory. -/
def step (mp : InodeMount) (ino : Nat) (s : InoState) : Op → Option InoState
  | .vget rnd =>
      match ffsVgetf mp ino rnd s with
      | none => none
      | some (.error _) => some s
      | some (.ok (_, s')) => some s'
  | .update after => s.core.map fun ip => { s with disk := after, core := some { ip with modified := false } }
  | .reclaim after => s.core.map fun _ => { s with disk := after, core := none }
  | .valloc rnd rnd' mode => if mode = 0 then none else ffsValloc mp ino rnd rnd' mode s
  | .setNlink nlink =>
      s.core.map fun ip =>
        { s with core := some { ip with nlink, effnlink := nlink, modified := true, din := { ip.din with nlink } } }
  | .inactive => s.core.map fun ip => { s with core := some (ufsInactive mp ip) }
  | .vptofh => s.core.map fun ip => { s with handles := ffsVptofh s ip :: s.handles }

end UfsX.Ffs.Handle
