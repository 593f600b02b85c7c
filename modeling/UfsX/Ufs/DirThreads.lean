import UfsX.Ufs.Lookup
import UfsX.Ufs.Makedirentry
import Mathlib.Logic.Function.Basic

/-!
# `UfsX.Ufs.DirThreads`: threads that change one directory

A thread changes a directory by two calls. `ufs_lookup` finds a place for the new
entry, or the entry to remove, and leaves it in the inode of the directory. It drops
the lock at its end. `ufs_makeinode`, `ufs_link` and `ufs_mkdir` then call
`ufs_makedirentry`, whose first assertion wants the flag `savename`, and
`ufs_direnter`; `ufs_remove` and `ufs_rmdir` call `ufs_dirremove`. The calls of other
threads may come in between.

Each call is one step. A call that fails before it has changed the directory
(`EPERM`, `EMLINK`, no inode, no space) leaves it alone.
-/

set_option autoImplicit false

namespace UfsX.Ufs

variable {Tid : Type} [DecidableEq Tid]

/-- What the lookup of a thread has returned. -/
inductive Pending where
  | create (name : List UInt8)
  | delete (name : List UInt8) (ino : Nat)
  deriving DecidableEq, Repr

/-- A directory and its threads. No code reads the last two fields. -/
structure DirThreads (Tid : Type) where
  dir : Dir
  /-- The hash function of the table of the directory. -/
  fnv : List UInt8 → Nat
  pending : Tid → Option Pending
  panicked : Bool
  /-- The thread whose lookup has written `i_offset` and `i_count`, up to the next
  change of the directory. -/
  owner : Option Tid
  /-- Name, inode number and type of the entries that should be there, by the calls
  that have returned 0. -/
  expected : List (List UInt8 × Nat × Nat)

/-- The calls. -/
inductive DirCall (Tid : Type) where
  /-- `ufs_lookup` for `CREATE`. -/
  | lookupCreate (t : Tid) (name : List UInt8)
  /-- `ufs_lookup` for `DELETE`. -/
  | lookupDelete (t : Tid) (name : List UInt8)
  /-- A call that makes the entry and ends with `ufs_direnter`. -/
  | enter (t : Tid) (cnFlags : UInt32) (dirp : Direct)
  /-- A call that ends with `ufs_dirremove`. -/
  | remove (t : Tid)
  /-- A call that fails. -/
  | fail (t : Tid)
  /-- A hash table is built. -/
  | build (fnv : List UInt8 → Nat)
  /-- The hash table is freed. -/
  | free

namespace DirThreads

variable (s : DirThreads Tid)

/-- A thread goes to its next state. -/
def goto (t : Tid) (p : Option Pending) : DirThreads Tid :=
  { s with pending := Function.update s.pending t p }

/-- The end of a lookup of thread `t`. -/
def afterLookup (t : Tid) (d : Dir) : Option Pending → DirThreads Tid
  | none => { s with dir := d }
  | some p => { s with dir := d, owner := some t }.goto t (some p)

/-- A lookup. `CREATE` goes on when the name is not there (`EJUSTRETURN`), `DELETE`
when it is. -/
def lookup (ofs : Bool) (t : Tid) (nameiop : Nameiop) (name : List UInt8) : DirThreads Tid :=
  match s.dir.ufsLookupIno s.fnv ofs nameiop name with
  | none => { s with panicked := true }
  | some (r, d) =>
      s.afterLookup t d
        (match nameiop, r with
        | .create, .ejustreturn => some (.create name)
        | .delete, .found ino => some (.delete name ino)
        | _, _ => none)

/-- The end of a call that changes the directory. -/
def afterChange (t : Tid) (expected : List (List UInt8 × Nat × Nat)) : Option Dir → DirThreads Tid
  | none => { s with panicked := true }
  | some d => { s with dir := d, owner := none, expected := expected }.goto t none

/-- One call. `none` is a call that cannot be made now. -/
def exec (savename : UInt32) (ofs : Bool) : DirCall Tid → Option (DirThreads Tid)
  | .lookupCreate t name =>
      if s.panicked ∨ s.pending t ≠ none then none else some (s.lookup ofs t .create name)
  | .lookupDelete t name =>
      if s.panicked ∨ s.pending t ≠ none then none else some (s.lookup ofs t .delete name)
  | .enter t cnFlags dirp =>
      if s.panicked ∨ s.pending t ≠ some (.create dirp.name) then none
      else if nameSaved savename cnFlags = false then some { s with panicked := true }
      else
        some (s.afterChange t ((dirp.name, dirp.ino, dirp.type) :: s.expected)
          (s.dir.ufsDirenter s.fnv ofs dirp false))
  | .remove t =>
      match s.pending t with
      | some (.delete name ino) =>
          if s.panicked then none
          else
            some (s.afterChange t (s.expected.filter fun e => e.1 ≠ name)
              (s.dir.ufsDirremove s.fnv ino))
      | _ => none
  | .fail t => if s.panicked ∨ s.pending t = none then none else some (s.goto t none)
  | .build fnv =>
      if s.panicked ∨ ofs ∨ s.dir.dirhash.isSome then none
      else
        match ufsdirhashBuild fnv s.dir.data s.dir.size with
        | none => none
        | some dh => some { s with dir := { s.dir with dirhash := some dh }, fnv := fnv }
  | .free => if s.panicked then none else some { s with dir := { s.dir with dirhash := none } }

end DirThreads

end UfsX.Ufs
