import UfsX.Lib.CInt
import UfsX.Ufs.Dir

/-!
# `UfsX.Ufs.Dirempty`: is a directory empty?

`ufs_dirempty` of `ufs_lookup.c`. The first `MINDIRSIZ` bytes of each record go through
`vn_rdwr` into a variable on the stack, and `vn_rdwr` stores how much it could not read. It stores
an `int`, and the variable for it is a `ssize_t` that nothing initialises: its upper half keeps
what was on the stack.
-/

set_option autoImplicit false

namespace UfsX.Ufs.Dirempty

open UfsX.Lib UfsX.Ufs

/-- Half the size of `struct dirtemplate`. -/
def MINDIRSIZ : Nat := 12

/-- `'.'` -/
def dot : UInt8 := 46

/-- The variables that the function does not initialise. -/
structure Stack where
  dbuf : Mem
  /-- 64 bits. -/
  count : Nat

/-- What `ufs_dirempty` is given: the directory's bytes and `i_size`, the errors of reads, by
offset, and the two inode numbers. -/
structure Arg where
  ofs : Bool
  data : Mem
  size : Nat
  readError : Nat → Nat
  /-- `i_number` -/
  number : Nat
  parentino : Nat
  /-- Files are not longer than `fs_maxfilesize`. -/
  size_lt : size < 2 ^ 63

/-- `vn_rdwr(UIO_READ, …)` of `len` bytes: the buffer, and how many bytes could not be read. -/
def vnRdwr (data : Mem) (size off len : Nat) (dbuf : Mem) : Mem × Nat :=
  (fun x => if x < min len (size - off) then data (off + x) else dbuf x, len - (size - off))

/-- A store of 32 bits through `(int *)&count`. -/
def storeInt (count resid : Nat) : Nat := count / 2 ^ 32 * 2 ^ 32 + resid % 2 ^ 32

/-- The loop goes on after a record: it is free, a whiteout, "." or "..". -/
def passes (arg : Arg) (dp : Mem) : Bool :=
  if dIno dp 0 = 0 ∨ dIno dp 0 = UFS_WINO then true
  else if 2 < dNamlen arg.ofs dp 0 then false
  else if dp 8 ≠ dot then false
  else if dNamlen arg.ofs dp 0 = 1 ∧ dIno dp 0 = arg.number then true
  else dp 9 = dot ∧ dIno dp 0 = arg.parentino

/-- The loop, with at most `fuel` rounds. `off` is a 32-bit variable. -/
def diremptyLoop (arg : Arg) : Nat → Int → Stack → Option Bool
  | 0, _, _ => none
  | fuel + 1, off, s =>
      if ¬ toU64 off < arg.size then some true
      else
        let (dbuf, resid) := vnRdwr arg.data arg.size off.toNat MINDIRSIZ s.dbuf
        let count := storeInt s.count resid
        if arg.readError off.toNat ≠ 0 ∨ count ≠ 0 then some false
        else if dReclen dbuf 0 = 0 then some false
        else if passes arg dbuf then diremptyLoop arg fuel (toI32 (off + dReclen dbuf 0)) ⟨dbuf, count⟩
        else some false

def ufsDirempty (arg : Arg) (fuel : Nat) (s : Stack) : Option Bool := diremptyLoop arg fuel 0 s

end UfsX.Ufs.Dirempty
