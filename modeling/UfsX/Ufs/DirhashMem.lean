import UfsX.Lib.CInt
import UfsX.Lib.RwLock
import UfsX.Ufs.Dirhash
import Mathlib.Logic.Function.Basic

/-!
# `UfsX.Ufs.DirhashMem`: the memory of the directory hashes

Threads build, use and free the hash tables of any number of directories, and take tables away when
memory is short. An event is what a thread does up to the next place where another one can come in
between: a region under `ufsdirhash_mtx`, one under the lock of the inode, or the work between two
such places by the thread that has `dh_lock`.

`sx_try_xlock` gets a lock that nobody has, and `sx_try_upgrade` fails when there is another reader. A new
structure has an address that was not used before. Of a table, only whether there is one is kept.
`refs` says who has the references that `dh_refcount` counts, with `none` for the inode.
-/

set_option autoImplicit false

namespace UfsX.Ufs.DirhashMem

open UfsX.Lib UfsX.Ufs

def DH_SCOREINIT : Int := 8
def DH_SCOREMAX : Int := 64

/-- `memreqd` of a directory of this size. -/
def memreqd (sizeofDh isize : Nat) : Nat :=
  let nslots := isize / directsiz 1
  let nslots := (nslots * 3 + 1) / 2
  let narrays := howmany nslots DH_NBLKOFF
  let dirblocks := howmany isize DIRBLKSIZ
  let nblocks := (dirblocks * 3 + 1) / 2
  sizeofDh + narrays * 8 + narrays * DH_NBLKOFF * 4 + nblocks

/-- What the system is set up with. -/
structure Params where
  /-- `sizeof(struct dirhash)` -/
  sizeofDh : Nat
  /-- `ufs_dirhashmaxmem` is never set to more than this. -/
  limit : Nat

/-- The memory for one directory can be added to `ufs_dirhashmaxmem` in an `int`. -/
def Params.Fits (q : Params) : Prop := memreqd q.sizeofDh MAXDIRSIZE + q.limit < 2 ^ 31

/-- How far the call has come that has a structure to itself. No code reads it. -/
inductive Phase where
  /-- It belongs to no inode yet. -/
  | fresh
  | resting
  /-- Between `ufs_dirhashmem += memreqd` and `dh->dh_memreq = memreqd`. -/
  | reserved (memreqd : Nat)
  /-- From there to the insertion in the list. -/
  | recorded
  /-- `ufsdirhash_free_locked` has cleared `i_dirhash`. -/
  | leaving
  /-- `ufsdirhash_free_locked` has taken it off. -/
  | gone
  deriving DecidableEq, Repr

/-- `struct dirhash` -/
structure Dh (Tid : Type) where
  /-- `dh_hash` is not null. -/
  hash : Bool
  memreq : Int
  score : Int
  onlist : Bool
  lock : RwLock Tid
  refs : Multiset (Option Tid)
  phase : Phase

/-- Where a thread is. -/
inductive Pc (Dir : Type) where
  | idle
  -- `ufsdirhash_create`, from the top of its loop on
  | createTop (d : Dir) (ndh : Option Nat) (excl : Bool)
  | createFind (d : Dir) (ndh : Option Nat) (excl : Bool)
  | createLock (d : Dir) (ndh : Option Nat) (excl : Bool) (dh : Nat)
  | createCheck (d : Dir) (ndh : Option Nat) (excl : Bool) (dh : Nat)
  -- `ufsdirhash_build`, with the structure locked exclusively
  | reserve (d : Dir) (dh : Nat)
  | recycle (d : Dir) (dh : Nat) (memreqd : Nat)
  | record (d : Dir) (dh : Nat) (memreqd : Nat)
  | allocHash (d : Dir) (dh : Nat)
  | fill (d : Dir) (dh : Nat)
  | downgrade (d : Dir) (dh : Nat)
  /-- With a table, and its lock. -/
  | held (d : Dir) (dh : Nat) (hold : Hold)
  -- `ufsdirhash_free_locked`
  | freeLocked (d : Dir) (dh : Nat)
  | takeOff (dh : Nat)
  | unlock (dh : Nat)
  | drop (dh : Nat)
  -- `ufsdirhash_free`
  | freeFind (d : Dir)
  | freeLock (d : Dir) (dh : Nat)
  | freeCheck (d : Dir) (dh : Nat)
  deriving DecidableEq, Repr

structure State (Tid Dir : Type) where
  /-- The structure at an address. -/
  dh : Nat → Dh Tid
  /-- The next address that `malloc` gives. -/
  next : Nat
  /-- `i_dirhash` -/
  idirhash : Dir → Option Nat
  /-- `ufsdirhash_list` -/
  list : List Nat
  /-- `ufsdirhash_mtx` is held. -/
  listLock : Bool
  dirhashmem : Int
  dirhashmaxmem : Int
  pc : Tid → Pc Dir

inductive Event (Tid Dir : Type) where
  /-- `ufs_dirhashmaxmem` is set. -/
  | sysctl (maxmem : Int)
  /-- `ufsdirhash_lowmem`, which has read `ufs_dirhashmem` before it took the lock. -/
  | lowmem (memwanted : Int)
  /-- A round of the first loop of `ufsdirhash_build`. -/
  | trim
  | build (t : Tid) (d : Dir)
  | free (t : Tid) (d : Dir)
  /-- `ufsdirhash_acquire`. No other thread changes `i_dirhash`, by the lock of the vnode. -/
  | acquire (t : Tid) (d : Dir)
  /-- The thread goes on. An allocation or a read has succeeded, and the directory has a size. -/
  | step (t : Tid) (ok : Bool) (isize : Nat)
  /-- The start of `ufsdirhash_lookup`. -/
  | lookup (t : Tid)
  | release (t : Tid)
  /-- An operation on the table that has to free it. -/
  | discard (t : Tid)

variable {Tid Dir : Type} [DecidableEq Tid] [DecidableEq Dir]

namespace Dh

variable (x : Dh Tid) (t : Tid)

/-- Memory that has not been given out, or is zeroed. -/
def blank : Dh Tid := ⟨false, 0, 0, false, .free, 0, .fresh⟩

/-- A new structure with its lock held. -/
def new : Dh Tid := { (blank : Dh Tid) with lock := ⟨some t, 0, .inr rfl⟩, refs := {some t} }

/-- `ufsdirhash_hold` -/
def hold : Dh Tid := { x with refs := some t ::ₘ x.refs }

/-- `ufsdirhash_drop` -/
def drop : Dh Tid := { x with refs := x.refs.erase (some t) }

/-- The reference of the thread is that of the inode from now on. -/
def give : Dh Tid := { x with refs := none ::ₘ x.refs.erase (some t), phase := .resting }

/-- The reference of the inode is that of the thread from now on. -/
def take : Dh Tid := { x with refs := some t ::ₘ x.refs.erase none, phase := .leaving }

def setLock (l : RwLock Tid) : Dh Tid := { x with lock := l }

/-- `sx_try_xlock` gets the lock. -/
def canLock : Bool := x.lock.excl = none ∧ x.lock.shared = 0

end Dh

namespace State

variable (s : State Tid Dir)

def goto (t : Tid) (p : Pc Dir) : State Tid Dir := { s with pc := Function.update s.pc t p }

def modify (a : Nat) (f : Dh Tid → Dh Tid) : State Tid Dir := { s with dh := Function.update s.dh a (f (s.dh a)) }

/-- `ufs_dirhashmem += mem` -/
def addMem (mem : Int) : State Tid Dir := { s with dirhashmem := toI32 (s.dirhashmem + mem) }

/-- `ufsdirhash_destroy`, with the lock of the structure, which it gives up. -/
def destroy (a : Nat) : State Tid Dir :=
  ({ s with list := s.list.erase a }.modify a fun x => { x with onlist := false, hash := false, memreq := 0 }).addMem
    (-(s.dh a).memreq)

def decScore (a : Nat) : State Tid Dir := s.modify a fun x => { x with score := toI32 (x.score - 1) }

/-- The loop of `ufsdirhash_recycle`, from `dh`, the first of `rest`, on. -/
def recycleLoop (wanted : Int) : Nat → List Nat → State Tid Dir → Option (Int × State Tid Dir)
  | 0, _, _ => none
  | fuel + 1, rest, s =>
      if toI32 (wanted + s.dirhashmem) > s.dirhashmaxmem then
        match rest with
        | [] => some (-1, { s with listLock := false })
        | a :: rest =>
            let s := s.decScore a
            if (s.dh a).score > 0 then some (-1, { s with listLock := false })
            else if (s.dh a).canLock then
              let s := s.destroy a
              recycleLoop wanted fuel s.list s
            else recycleLoop wanted fuel rest s
      else some (0, s)

/-- `ufsdirhash_recycle` -/
def recycle (wanted : Int) : Option (Int × State Tid Dir) :=
  recycleLoop wanted ((s.list.length + 1) * (s.list.length + 2)) s.list { s with listLock := true }

/-- The loop of `ufsdirhash_lowmem`. -/
def lowmemLoop (memwanted : Int) : List Nat → Int → State Tid Dir → State Tid Dir
  | [], _, s => s
  | a :: rest, memfreed, s =>
      let memfreed := if (s.dh a).canLock then memfreed + (s.dh a).memreq else memfreed
      let s := if (s.dh a).canLock then s.destroy a else s
      if memfreed ≥ memwanted then s else lowmemLoop memwanted rest memfreed s

/-- The memory is reserved. -/
def reserve (a memreqd : Nat) : State Tid Dir := (s.addMem memreqd).modify a fun x => { x with phase := .reserved memreqd }

/-- The structure that was allocated is not needed. -/
def dropNew (t : Tid) : Option Nat → State Tid Dir
  | none => s
  | some b => s.modify b fun x => (x.setLock .free).drop t

/-- The end of `ufsdirhash_create` with the structure at `a`. -/
def created (t : Tid) (d : Dir) (ndh : Option Nat) (hold : Hold) (a : Nat) : State Tid Dir :=
  (s.dropNew t ndh).goto t (if (s.dh a).hash then .held d a hold else .reserve d a)

/-- A structure goes past the next one in the list, unless that one has a greater score. -/
def passNext (score : Nat → Int) (a : Nat) : List Nat → List Nat
  | x :: y :: rest =>
      if x = a then (if score y ≤ score a then y :: x :: rest else x :: y :: rest)
      else x :: passNext score a (y :: rest)
  | rest => rest

/-- The next step of a thread. -/
def step (q : Params) (t : Tid) (ok : Bool) (isize : Nat) : Option (State Tid Dir) :=
  match s.pc t with
  | .idle | .held _ _ _ => none
  | .createTop d ndh excl =>
      if s.idirhash d = none ∧ ndh = none then
        if ok then
          some ({ s with dh := Function.update s.dh s.next (.new t), next := s.next + 1 }.goto t
            (.createFind d (some s.next) excl))
        else some (s.goto t .idle)
      else some (s.goto t (.createFind d ndh excl))
  | .createFind d ndh excl =>
      match s.idirhash d, ndh with
      | some a, _ => some ((s.modify a (·.hold t)).goto t (.createLock d ndh excl a))
      | none, none => some (s.goto t (.createTop d none excl))
      | none, some a =>
          some (({ s with idirhash := Function.update s.idirhash d (some a) }.modify a (·.give t)).goto t (.reserve d a))
  | .createLock d ndh excl a =>
      ((s.dh a).lock.lock t (if excl then .exclusive else .shared)).map fun l =>
        (s.modify a (·.setLock l)).goto t (.createCheck d ndh excl a)
  | .createCheck d ndh excl a =>
      if s.idirhash d ≠ some a then
        ((s.dh a).lock.unlock t (if excl then .exclusive else .shared)).map fun l =>
          (s.modify a fun x => (x.setLock l).drop t).goto t (.createTop d ndh excl)
      else if (s.dh a).hash ∨ excl then
        some ((s.modify a (·.drop t)).created t d ndh (if excl then .exclusive else .shared) a)
      else
        match (s.dh a).lock.upgrade t with
        | some l => some ((s.modify a fun x => (x.setLock l).drop t).created t d ndh .exclusive a)
        | none =>
            ((s.dh a).lock.unlockShared t).map fun l =>
              (s.modify a fun x => (x.setLock l).drop t).goto t (.createTop d ndh true)
  | .reserve d a =>
      if isize > MAXDIRSIZE then none
      else if toI32 (memreqd q.sizeofDh isize + s.dirhashmem) > s.dirhashmaxmem then
        if (memreqd q.sizeofDh isize : Int) > s.dirhashmaxmem.tdiv 2 then some (s.goto t (.freeLocked d a))
        else some (s.goto t (.recycle d a (memreqd q.sizeofDh isize)))
      else some ((s.reserve a (memreqd q.sizeofDh isize)).goto t (.record d a (memreqd q.sizeofDh isize)))
  | .recycle d a memreqd =>
      (s.recycle memreqd).map fun (ret, s) =>
        if ret ≠ 0 then s.goto t (.freeLocked d a)
        else { s.reserve a memreqd with listLock := false }.goto t (.record d a memreqd)
  | .record d a memreqd =>
      some ((s.modify a fun x => { x with memreq := memreqd, score := DH_SCOREINIT, phase := .recorded }).goto t (.allocHash d a))
  | .allocHash d a =>
      if ok then some ((s.modify a fun x => { x with hash := true }).goto t (.fill d a))
      else some (s.goto t (.freeLocked d a))
  | .fill d a =>
      if ok then
        some (({ s with list := s.list ++ [a] }.modify a fun x => { x with onlist := true, phase := .resting }).goto t
          (.downgrade d a))
      else some (s.goto t (.freeLocked d a))
  | .downgrade d a =>
      ((s.dh a).lock.downgrade t).map fun l => (s.modify a (·.setLock l)).goto t (.held d a .shared)
  | .freeLocked d _ =>
      match s.idirhash d with
      | none => none
      | some a =>
          some (({ s with idirhash := Function.update s.idirhash d none }.modify a (·.take t)).goto t (.takeOff a))
  | .takeOff a =>
      let list := if (s.dh a).onlist then s.list.erase a else s.list
      some ((({ s with list }.addMem (-(s.dh a).memreq)).modify a fun x => { x with phase := .gone }).goto t (.unlock a))
  | .unlock a =>
      ((s.dh a).lock.unlockExclusive t).map fun l => (s.modify a (·.setLock l)).goto t (.drop a)
  | .drop a => some ((s.modify a (·.drop t)).goto t .idle)
  | .freeFind d =>
      match s.idirhash d with
      | none => some (s.goto t .idle)
      | some a => some ((s.modify a (·.hold t)).goto t (.freeLock d a))
  | .freeLock d a =>
      ((s.dh a).lock.lockExclusive t).map fun l => (s.modify a (·.setLock l)).goto t (.freeCheck d a)
  | .freeCheck d a =>
      if s.idirhash d = some a then some ((s.modify a (·.drop t)).goto t (.freeLocked d a))
      else
        ((s.dh a).lock.unlockExclusive t).map fun l =>
          (s.modify a fun x => (x.setLock l).drop t).goto t (.freeFind d)

/-- What an event does. `none` is an event that cannot be now. -/
def exec (q : Params) : Event Tid Dir → Option (State Tid Dir)
  | .sysctl maxmem => if maxmem ≤ q.limit then some { s with dirhashmaxmem := maxmem } else none
  | .lowmem memwanted => some (lowmemLoop memwanted s.list 0 s)
  | .trim => (s.recycle 0).map fun (_, s) => { s with listLock := false }
  | .build t d => if s.pc t = .idle then some (s.goto t (.createTop d none false)) else none
  | .free t d => if s.pc t = .idle then some (s.goto t (.freeFind d)) else none
  | .acquire t d =>
      if s.pc t = .idle then
        match s.idirhash d with
        | none => some s
        | some a =>
            ((s.dh a).lock.lockExclusive t).map fun l =>
              (s.modify a (·.setLock l)).goto t (if (s.dh a).hash then .held d a .exclusive else .freeLocked d a)
      else none
  | .step t ok isize => s.step q t ok isize
  | .lookup t =>
      match s.pc t with
      | .held _ a _ =>
          some ({ s with list := passNext (fun b => (s.dh b).score) a s.list }.modify a fun x =>
            { x with score := if x.score < DH_SCOREMAX then x.score + 1 else x.score })
      | _ => none
  | .release t =>
      match s.pc t with
      | .held _ a hold => ((s.dh a).lock.unlock t hold).map fun l => (s.modify a (·.setLock l)).goto t .idle
      | _ => none
  | .discard t =>
      match s.pc t with
      | .held d a .exclusive => some (s.goto t (.freeLocked d a))
      | _ => none

/-- No hash yet. -/
def init (dirhashmaxmem : Int) : State Tid Dir where
  dh _ := .blank
  next := 0
  idirhash _ := none
  list := []
  listLock := false
  dirhashmem := 0
  dirhashmaxmem := dirhashmaxmem
  pc _ := .idle

end State

end UfsX.Ufs.DirhashMem
