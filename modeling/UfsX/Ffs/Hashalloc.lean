import UfsX.Ffs.Inoalloc
import UfsX.Lib.First

/-!
# `UfsX.Ffs.Hashalloc`: the search over all cylinder groups

`ffs_hashalloc` calls an allocator for one group after the other: the preferred
group, then a quadratic rehash, then all others. The groups it goes through do
not depend on what the calls do, only on when it stops.

The source counts with 32-bit numbers; up to `2 ^ 31` groups nothing overflows.
-/

set_option autoImplicit false

namespace UfsX.Ffs

open UfsX.Lib

variable (fs : Fs)

/-- The loop of the quadratic rehash: `i` doubles until it reaches `fs_ncg`. -/
def rehashGroups (ncg : Nat) : Nat → Nat → Nat → List Nat
  | 0, _, _ => []
  | fuel + 1, i, cg =>
      if i < ncg then
        let cg := if cg + i ≥ ncg then cg + i - ncg else cg + i
        cg :: rehashGroups ncg fuel (i * 2) cg
      else []

/-- The loop of the brute force search, over the `left` groups from `cg` on. -/
def bruteGroups (ncg : Nat) : Nat → Nat → List Nat
  | 0, _ => []
  | left + 1, cg => cg :: bruteGroups ncg left (if cg + 1 = ncg then 0 else cg + 1)

/-- The groups that `ffs_hashalloc` tries, each with the preference it is called
with. -/
def hashallocTries (icg pref : Nat) : List (Nat × Nat) :=
  (icg, pref) :: (rehashGroups fs.ncg fs.ncg 1 icg
    ++ bruteGroups fs.ncg (fs.ncg - 2) ((icg + 2) % fs.ncg)).map fun cg => (cg, 0)

/-- An allocator, as `ffs_hashalloc` calls it: the number of the call, the
group and the preference. The outcome of the calls of `ffs_getcg` may depend on
the number. -/
abbrev Allocator := Nat → State → Nat → Nat → Except Panic (Nat × State)

/-- Call the allocator for each group until it returns something. -/
def tryGroups (allocator : Allocator) : List (Nat × Nat) → Nat → State →
    Except Panic (Nat × State)
  | [], _, s => .ok (0, s)
  | (cg, pref) :: rest, k, s => do
      let (result, s) ← allocator k s cg pref
      if result ≠ 0 then .ok (result, s) else tryGroups allocator rest (k + 1) s

/-- `ffs_hashalloc`. -/
def ffsHashalloc (allocator : Allocator) (s : State) (cg pref : Nat) :
    Except Panic (Nat × State) :=
  tryGroups allocator (hashallocTries fs cg pref) 0 s

/-- `ffs_alloccg` as an allocator for blocks of `size` bytes. -/
def blockAllocator (gerr : Nat → Nat) (size rsize : Nat) : Allocator := fun k s cg pref =>
  ffsAlloccg fs s (gerr k) cg pref size rsize

/-- `ffs_nodealloccg` as an allocator for inodes. -/
def inodeAllocator (gerr : Nat → Nat → Nat) (busy : Nat → List Bool) (mode : Nat) : Allocator :=
  fun k s cg pref => ffsNodealloccg fs s (gerr k) (busy k) cg pref mode

/-! ### `ffs_dirpref` -/

/-- What `ffs_dirpref` reads beside the summaries: two fields of the superblock, and
`fs_contigdirs`, the number of directories made one after the other in each group. -/
structure DirPolicy where
  avgfilesize : Nat
  avgfpdir : Nat
  contigdirs : Nat → Nat

namespace State

variable (s : State)

def avgifree : Int := toU32 s.cstotal.nifree / fs.ncg

def avgbfree : Int := toU32 s.cstotal.nbfree / fs.ncg

def avgndir : Int := toU32 s.cstotal.ndir / fs.ncg

/-- Group `cg` has no fewer free inodes and blocks than the average. -/
def roomy (cg : Nat) : Bool :=
  s.avgifree fs ≤ toU32 (s.csp cg).nifree ∧ s.avgbfree fs ≤ toU32 (s.csp cg).nbfree

end State

/-- One round of the loops for a first level directory: `mincg` and `minndir`. -/
def rootRound (s : State) (best : Nat × Int) (cg : Nat) : Nat × Int :=
  if toU32 (s.csp cg).ndir < best.2 ∧ s.roomy fs cg then (cg, toU32 (s.csp cg).ndir) else best

section Limits

variable (p : DirPolicy) (s : State)

def maxndir : Int := min (toU32 (s.avgndir fs + fs.ipg / 16)) fs.ipg

def minifree : Int := max (s.avgifree fs - s.avgifree fs / 4) 1

def minbfree : Int := max (s.avgbfree fs - s.avgbfree fs / 4) 1

/-- The size of a directory with its files: what the superblock expects, or the average. -/
def dirsize : Int :=
  let cgsize := toI32 (fs.fsize * fs.fpg)
  let dirsize := toI32 (p.avgfilesize * p.avgfpdir)
  let curdirsize := if s.avgndir fs ≠ 0 then toU32 (cgsize - s.avgbfree fs * fs.bsize) / s.avgndir fs else 0
  if toU32 dirsize < curdirsize then toI32 curdirsize else dirsize

def maxcontigdirs : Int :=
  let maxcontigdirs :=
    if dirsize fs p s ≤ 0 then 0 -- "dirsize overflowed"
    else min (toU32 (s.avgbfree fs * fs.bsize) / dirsize fs p s) 255
  let maxcontigdirs := if 0 < p.avgfpdir then min maxcontigdirs (fs.ipg / p.avgfpdir) else maxcontigdirs
  if maxcontigdirs = 0 then 1 else maxcontigdirs

/-- Group `cg` is suitable for a directory. -/
def suitable (cg : Nat) : Bool :=
  toU32 (s.csp cg).ndir < maxndir fs s ∧ minifree fs s ≤ toU32 (s.csp cg).nifree
    ∧ minbfree fs s ≤ toU32 (s.csp cg).nbfree ∧ p.contigdirs cg < maxcontigdirs fs p s

/-- "a backstop when we have deficit in space" -/
def backstop (cg : Nat) : Bool := s.avgifree fs ≤ toU32 (s.csp cg).nifree

/-- The group that `ffs_dirpref` finds for a directory in directory `inumber`. `rnd` is what
`random` returns. -/
def dirprefCg (vroot : Bool) (rnd inumber : Nat) : Nat :=
  if vroot then
    let prefcg := rnd % fs.ncg
    ((circle fs.ncg prefcg).foldl (rootRound fs s) (prefcg, fs.ipg)).1
  else
    let prefcg := inumber / fs.ipg
    match (circle fs.ncg prefcg).find? (suitable fs p s) with
    | some cg => cg
    -- the last loop ends at `prefcg` if it finds nothing
    | none => ((circle fs.ncg prefcg).find? (backstop fs s)).getD prefcg

/-- `ffs_dirpref` -/
def ffsDirpref (vroot : Bool) (rnd inumber : Nat) : Nat :=
  (toU32 (fs.ipg * dirprefCg fs p s vroot rnd inumber)).toNat

end Limits

/-! ### `ffs_valloc` -/

/-- The number of directories made one after the other changes with the mode of the new inode. -/
def DirPolicy.track (p : DirPolicy) (cg mode : Nat) : DirPolicy :=
  let n := p.contigdirs cg
  let n := if isDir mode then (if n < 255 then n + 1 else n) else (if 0 < n then n - 1 else n)
  { p with contigdirs := Function.update p.contigdirs cg n }

/-- What happens around one search of `ffs_valloc`: the random number, the errors of
`ffs_getcg`, and whether other threads have the inode blocks. -/
structure VallocTry where
  rnd : Nat
  gerr : Nat → Nat → Nat
  busy : Nat → List Bool

/-- `ffs_valloc` from the label `retry` to the inode number, or 0 for `noinodes`. -/
def vallocTry (t : VallocTry) (vroot : Bool) (inumber mode : Nat) (p : DirPolicy) (s : State) :
    Except Panic (Nat × DirPolicy × State) :=
  if s.cstotal.nifree = 0 then .ok (0, p, s)
  else
    let ipref := vallocPref fs (if isDir mode then ffsDirpref fs p s vroot t.rnd inumber else inumber)
    let cg := ipref / fs.ipg
    (ffsHashalloc fs (inodeAllocator fs t.gerr t.busy mode) s cg ipref).map fun q => (q.1, p.track cg mode, q.2)

/-- `ffs_valloc` in directory `inumber`, until it has an inode number: it tries once more after
`softdep_request_cleanup`, which does nothing. 0 stands for `ENOSPC` and `ENXIO`. -/
def vallocIno (t t' : VallocTry) (vroot : Bool) (inumber mode : Nat) (p : DirPolicy) (s : State) :
    Except Panic (Nat × DirPolicy × State) :=
  (vallocTry fs t vroot inumber mode p s).bind fun q =>
    if q.1 ≠ 0 then .ok q else vallocTry fs t' vroot inumber mode q.2.1 q.2.2

end UfsX.Ffs
