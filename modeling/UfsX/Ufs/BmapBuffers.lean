import UfsX.Lib.Heap
import UfsX.Ufs.Bmap

/-!
# `UfsX.Ufs.BmapBuffers`: the buffers of `ufs_bmaparray`

The loop of `ufs_bmaparray` once more, with its variable `bp` and with every buffer that
`readindir` hands out and `buf_brelse` takes back. A buffer goes by the logical number of its
block.
-/

set_option autoImplicit false

namespace UfsX.Ufs

open UfsX.Lib
open UfsX.Ffs (Fs)

/-- `if (bp) buf_brelse(bp)` -/
def brelseOpt (bp : Option Int) (h : Heap Int) : Heap Int :=
  match bp with
  | none => h
  | some lbn => h.free lbn

/-- `bmapWalk` with the buffers. -/
def bmapWalkBufs (fs : Fs) (args : BmapArgs) (readindir : Int → Int → Except Errno (Nat → Int)) (bn : Int) :
    Option Int → Heap Int → Int → List Indir → Except Errno BmapResult × Heap Int
  | bp, h, daddr, [] => (.ok ⟨daddr, 0, 0⟩, brelseOpt bp h)
  | bp, h, daddr, ap :: rest =>
      if daddr = 0 ∨ ap.lbn = bn then (.ok ⟨daddr, 0, 0⟩, brelseOpt bp h)
      else
        let h := brelseOpt bp h
        match readindir ap.lbn daddr with
        -- `bp` is still the buffer that was released just before
        | .error .enoent => (.ok ⟨daddr, 0, 0⟩, brelseOpt bp h)
        | .error e => (.error e, h)
        | .ok blk =>
            let h := h.alloc ap.lbn
            match ufsCheckBlkno fs args.untrusted (toI32 (blk ap.off)) with
            | some e => (.error e, h.free ap.lbn)
            | none =>
                if rest = [] ∧ blk ap.off ≠ 0 then
                  (.ok (bmapRuns fs args blk fs.nindir ap.off (blk ap.off)), h.free ap.lbn)
                else bmapWalkBufs fs args readindir bn (some ap.lbn) h (blk ap.off) rest

/-- `ufs_bmaparray` with the buffers. -/
def ufsBmaparrayBufs (fs : Fs) (args : BmapArgs) (readindir : Int → Int → Except Errno (Nat → Int)) (ip : Inode)
    (bn : Int) : Except Errno BmapResult × Heap Int :=
  match ufsGetlbns fs.nindir bn with
  | .ok (ap :: rest) =>
      match bmapWalkBufs fs args readindir bn none Heap.empty (ip.ib ap.off) rest with
      | (.error e, h) => (.error e, h)
      | (.ok r, h) => (.ok (bmapReport fs ip bn r), h)
  | _ => (ufsBmaparray fs args readindir ip bn, Heap.empty)

end UfsX.Ufs
