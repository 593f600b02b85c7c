import UfsX.Ufs.Bmap

/-!
# `UfsX.Ufs.Getlbns`: the arithmetic of `ufs_getlbns`

`ufsGetlbns64` is `ufs_getlbns` operation by operation, with the types of the source:
`ufs2_daddr_t` and `ufs_lbn_t` are 64 bits wide and signed, `off` is an `int`. The result is
`none` when an operation leaves its type or divides by 0. `MNINDIR` is a `u_long`; a product
with it goes back into a signed variable.
-/

set_option autoImplicit false

namespace UfsX.Ufs

open UfsX.Lib

section Arithmetic

variable (nindir : Int)

/-- The first loop. The inner result is `none` for `EFBIG`. -/
def getlbnsLevel64 : Nat → Int → Int → Option (Option (Nat × Int × Int))
  | 0, _, _ => some none
  | i + 1, blockcnt, bn => do
      let blockcnt ← i64 (blockcnt * nindir)
      if bn < blockcnt then some (some (i + 1, blockcnt, bn))
      else
        let bn ← i64 (bn - blockcnt)
        getlbnsLevel64 i blockcnt bn

/-- The second loop. -/
def getlbnsPath64 (realbn bn : Int) : Nat → Int → Int → Option (List Indir)
  | 0, _, _ => some []
  | n + 1, blockcnt, metalbn =>
      if metalbn = realbn then some []
      else do
        let blockcnt ← div64 blockcnt nindir
        let quot ← div64 bn blockcnt
        let off ← i32 (← mod64 quot nindir)
        let skip ← i64 (off * blockcnt)
        let step ← i64 (-1 + skip)
        let next ← i64 (metalbn - step)
        let rest ← getlbnsPath64 realbn bn n blockcnt next
        some (⟨metalbn, off.toNat⟩ :: rest)

/-- `ufs_getlbns` -/
def ufsGetlbns64 (realbn : Int) : Option (Except Errno (List Indir)) := do
  let bn ← if realbn < 0 then i64 (-realbn) else some realbn
  if bn < ndaddr then some (.ok [])
  else
    let bn ← i64 (bn - ndaddr)
    match ← getlbnsLevel64 nindir niaddr 1 bn with
    | none => some (.error .efbig)
    | some (i, blockcnt, rel) =>
        -- the address of the first meta-block
        let realbn' ← if 0 ≤ realbn then some realbn else i64 (-realbn)
        let before ← i64 (realbn' - rel)
        let sum ← i64 (before + niaddr)
        let diff ← i64 (sum - i)
        let metalbn ← i64 (-diff)
        let path ← getlbnsPath64 nindir realbn rel (niaddr - i + 1) blockcnt metalbn
        some (.ok (⟨metalbn, niaddr - i⟩ :: path))

end Arithmetic

end UfsX.Ufs
