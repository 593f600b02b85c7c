import UfsX.Ffs.Balloc

/-!
# `UfsX.Ffs.Buffers`: the buffer cache of a file

A file's buffers are found by their logical number. A use of a buffer
(`BufUse`) says which block it was obtained for and which numbers it has at
that moment; `Cache.put` is what the cache knows of it afterwards.
-/

set_option autoImplicit false

namespace UfsX.Ffs

open UfsX.Lib UfsX.Ufs

/-- The buffers of a file's vnode. -/
abbrev Cache : Type := List BufNums

/-- The buffer that `getblk` returns for block `n`: the one with this logical
number, else a new one. -/
def Cache.getblk (cache : Cache) (n : Int) : BufNums :=
  (cache.find? fun b => b.lblkno = n).getD (BufNums.getblk n)

/-- The cache after a use. A read is followed by another use of the buffer. -/
def Cache.put (cache : Cache) (u : BufUse) : Cache :=
  match u.act with
  | .read => cache
  | _ => u.nums :: cache.filter fun b => b.lblkno ≠ u.req

/-- The cache after the uses of a call, latest first. -/
def Cache.putAll (cache : Cache) (us : List BufUse) : Cache :=
  us.foldr (fun u cache => cache.put u) cache

/-- What `readindir` does with the buffer of indirect block `lbn` at address
`daddr`, latest first. The caller, `ufs_bmaparray`, releases it. -/
def readindirUses (fs : Fs) (cache : Cache) (valid : Bool) (lbn daddr : Int) : List BufUse :=
  let bp := cache.getblk lbn
  if valid then [⟨lbn, bp, .release⟩]
  else
    let bp := bp.setlblkno (blkptrtodb fs daddr)
    [⟨lbn, bp, .release⟩, ⟨lbn, bp, .read⟩]

end UfsX.Ffs
