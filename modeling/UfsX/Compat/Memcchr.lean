import UfsX.Ffs.Inoalloc

/-!
# `UfsX.Compat.Memcchr`: `memcchr` with its words

`UfsX.Ffs.memcchr`, which inode allocation uses, says of a word that all its bytes are `c`.
The code (`memcchr.c`) compares one `unsigned long` with another, which it has made of
`c` by shifts. Here the words are numbers of 64 bits, `LONG_BIT` being 64, and the loops
run as long as their pointers say.

A pointer is an address. No buffer reaches the last word of the address space.
-/

set_option autoImplicit false

namespace UfsX.Compat.Memcchr

/-- `sizeof(long)` -/
def sizeofLong : Nat := 8

/-- `(unsigned char)c` -/
def uchar (c : BitVec 32) : BitVec 8 := c.setWidth 8

/-- Eight repetitions of `c`. -/
def word (c : BitVec 32) : BitVec 64 :=
  let word : BitVec 64 := (uchar c).setWidth 64
  let word := word ||| word <<< 8
  let word := word ||| word <<< 16
  word ||| word <<< 32

section Loops

variable (mem : Nat → BitVec 8) (c : BitVec 32)

/-- `*lp`, least significant byte first. -/
def readLong (lp : Nat) : BitVec 64 :=
  mem (lp + 7) ++ mem (lp + 6) ++ mem (lp + 5) ++ mem (lp + 4) ++
    mem (lp + 3) ++ mem (lp + 2) ++ mem (lp + 1) ++ mem lp

/-- `for (p = begin; p < lp;) TESTBYTE;` stops at a byte that is not `c`, or at `lp`. -/
def firstWord (p lp : Nat) : Option Nat :=
  if p < lp then
    if mem p ≠ uchar c then some p else firstWord (p + 1) lp
  else none
termination_by lp - p

/-- `p` after `n` times `TESTBYTE`. -/
def testByte : Nat → Nat → Nat
  | 0, p => p
  | n + 1, p => if mem p ≠ uchar c then p else testByte n (p + 1)

/-- The loop that goes by words, up to `end`. The eighth byte of a word that differs is
not tested. -/
def wordLoop (lp stop : Nat) : Option Nat :=
  if lp < stop then
    if readLong mem lp ≠ word c then some (testByte mem c 7 lp)
    else wordLoop (lp + sizeofLong) stop
  else none
termination_by stop - lp
decreasing_by
  unfold sizeofLong
  omega

/-- `memcchr(begin, c, n)`, with `NULL` as `none`. -/
def memcchr (start n : Nat) : Option Nat :=
  if n = 0 then none
  else
    -- `(uintptr_t)begin & ~LONGPTR_MASK`
    let lp := start / sizeofLong * sizeofLong
    let stop := start + n
    let found := if readLong mem lp ≠ word c then firstWord mem c start (lp + sizeofLong) else none
    match found.or (wordLoop mem c (lp + sizeofLong) stop) with
    -- the label `done`
    | some p => if p < stop then some p else none
    | none => none

end Loops

end UfsX.Compat.Memcchr
