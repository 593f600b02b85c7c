import UfsX.Ufs.InodeLock

/-!
# `UfsX.Ufs.TidString`: the reader keys of the inode lock, character by character

`UfsX.Ufs.InodeLock` names a reader by the list of the digits of its thread id. Here
`tid_string` of `ffs_inode_lock.cpp` works as the code does, on a scratch array and a
buffer of the caller, and the three functions that keep the readers make their key from
what it leaves in the buffer.

A pointer into an array is an index, which may also stand before the first element. A
store or a load outside the array gives `none`. Two `OSString`s are the same key when
their characters are.
-/

set_option autoImplicit false

namespace UfsX.Ufs.TidString

/-- `*p = v` for a pointer into `buf`. -/
def store (buf : List UInt8) (p : Int) (v : UInt8) : Option (List UInt8) :=
  if 0 ≤ p ∧ p < buf.length then some (buf.set p.toNat v) else none

/-- `*p` for a pointer into `buf`. -/
def load (buf : List UInt8) (p : Int) : Option UInt8 := if 0 ≤ p then buf[p.toNat]? else none

/-- `for (long i = num; i > 0 && s; i /= 10, s++, n++)`. The pointer is never null. -/
def digitLoop (i s : Int) (n : Nat) (str : List UInt8) : Option (Int × Nat × List UInt8) :=
  if 0 < i then do
    let str ← store str s (UInt8.ofNat ((i.tmod 10).toNat + 0x30))
    digitLoop (i.tdiv 10) (s + 1) (n + 1) str
  else some (s, n, str)
termination_by i.toNat
decreasing_by
  rw [Int.tdiv_eq_ediv_of_nonneg (by omega)]
  omega

/-- `for (s--; n > 0; n--, s--, p++)`, after the `s--`. -/
def copyLoop (str : List UInt8) : Nat → Int → Int → List UInt8 → Option (List UInt8)
  | 0, _, _, result => some result
  | n + 1, s, p, result => do
      let c ← load str s
      let result ← store result p c
      copyLoop str n (s - 1) (p + 1) result

/-- `tid_string(result, num)`: the buffer afterwards. -/
def tidString (result : List UInt8) (num : Int64) : Option (List UInt8) := do
  let (s, n, str) ← digitLoop num.toInt 0 0 (List.replicate 32 0)
  copyLoop str n (s - 1) 0 result

/-! ### The readers of a lock -/

/-- The characters of a string that starts at the beginning of `buf`. -/
def cString (buf : List UInt8) : List UInt8 := buf.takeWhile (· ≠ 0)

/-- The key of thread `tid`: `char tidString[32] = {0}; tid_string(tidString, tid);` -/
def readerKey (tid : Int64) : Option (List UInt8) := (tidString (List.replicate 32 0) tid).map cString

/-- The keys of `lock_readers`. -/
abbrev Readers : Type := Finset (List UInt8)

def hasReadlock (lock : Readers) (tid : Int64) : Option Bool := do
  let str ← readerKey tid
  some (str ∈ lock)

def setReadlock (lock : Readers) (tid : Int64) : Option Readers := do
  let tidStr ← readerKey tid
  some (insert tidStr lock)

/-- It asserts that the thread is there. -/
def clearReadlock (lock : Readers) (tid : Int64) : Option Readers := do
  let tidStr ← readerKey tid
  if tidStr ∈ lock then some (lock.erase tidStr) else none

end UfsX.Ufs.TidString
