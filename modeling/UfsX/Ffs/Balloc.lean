import UfsX.Ufs.Bmap

/-!
# `UfsX.Ffs.Balloc`: `ffs_balloc_ufs1`, `ffs_balloc_ufs2` and `ffs_realloccg`

The two functions differ in the width of a pointer only (`ptrCast`); here they
are one, for calls without `IO_EXT`. The file system has no soft updates.

What the calls into the allocator, the buffer layer and the device come to is
given by `BallocCall`, so a statement about every `BallocCall` is one about
every pattern of successes and failures. The preferences that only steer which
free block the allocator picks are left out for the same reason.

A buffer has two numbers (`BufNums`). Every read, write, release and return of
a buffer is recorded with the logical block it was obtained for and the
numbers it has at that moment.
-/

set_option autoImplicit false

namespace UfsX.Ffs

open UfsX.Lib UfsX.Ufs

/-- What is done with a buffer. -/
inductive BufAct where
  | read
  | write
  | release
  | ret
  deriving DecidableEq, Repr

/-- One use of a buffer that was obtained for logical block `req`. -/
structure BufUse where
  req : Int
  nums : BufNums
  act : BufAct
  deriving DecidableEq, Repr

/-- A range that `ffs_alloc` or `ffs_realloccg` returned for a logical block. -/
structure Grant where
  lbn : Int
  addr : Int
  deriving DecidableEq, Repr

/-- A file, and what has happened in the current call, latest first. -/
structure Growth where
  ip : Inode
  /-- The pointers in the file's indirect blocks, by logical number. -/
  ind : Int → Nat → Int
  /-- What `ffs_alloc` returned. -/
  allocs : List Grant
  /-- What `ffs_realloccg` returned. -/
  moves : List Grant
  /-- The calls of `ffs_blkfree`: address and size. -/
  frees : List (Int × Nat)
  bufs : List BufUse

/-- One attempt of `ffs_realloccg`: is there space above the reserve, does the
read of the old block fail, can the fragment be extended in place, and where
is there room for a new one. -/
structure ReallocTry where
  space : Bool
  readErr : Option Errno
  extended : Bool
  found : Option Int

/-- The flags of a call, and what the functions it calls come to. A function
that is called for a logical block has its outcome by that block's number. -/
structure BallocCall where
  sync : Bool
  clrbuf : Bool
  metaonly : Bool
  buflocked : Bool
  /-- The file system is being torn down, `ffs_fsfail_cleanup_locked`. -/
  fsfail : Bool
  /-- The search of `ffs_alloc` for a block. -/
  alloc : Int → Except Errno Int
  /-- The attempts of `ffs_realloccg` to make the last fragment a block. -/
  promote : Nat → ReallocTry
  /-- The attempts of `ffs_realloccg` to enlarge the requested fragment. -/
  grow : Nat → ReallocTry
  /-- The buffer of this block is valid, so that reading it transfers nothing. -/
  valid : Int → Bool
  readErr : Int → Option Errno
  writeErr : Int → Option Errno
  /-- The physical number of the buffer that a read returns. -/
  phys : Int → Int
  /-- The physical number of the buffer that `getblk` finds without creating
  one. -/
  incore : Int → Option Int
  /-- The read that undoes a new pointer. -/
  unwindErr : Option Errno

namespace Growth

/-- Charge `n` bytes to the file. -/
def charge (s : Growth) (mp : Ump) (n : Nat) : Growth :=
  { s with ip := s.ip.setBlocks (s.ip.blocks + btodb mp n) }

/-- `ffs_alloc` returns `b` for logical block `lbn`. -/
def grant (s : Growth) (mp : Ump) (lbn b : Int) (size : Nat) : Growth :=
  { s.charge mp size with allocs := ⟨lbn, b⟩ :: s.allocs }

def use (s : Growth) (req : Int) (nums : BufNums) (act : BufAct) : Growth :=
  { s with bufs := ⟨req, nums, act⟩ :: s.bufs }

def setDb (s : Growth) (i : Nat) (b : Int) : Growth :=
  { s with ip := { s.ip with db := Function.update s.ip.db i b } }

def setIb (s : Growth) (i : Nat) (b : Int) : Growth :=
  { s with ip := { s.ip with ib := Function.update s.ip.ib i b } }

/-- Store a pointer in an indirect block. -/
def setInd (s : Growth) (lbn : Int) (off : Nat) (b : Int) : Growth :=
  { s with ind := Function.update s.ind lbn (Function.update (s.ind lbn) off b) }

/-- `buf_clear` of an indirect block's buffer. -/
def clear (s : Growth) (lbn : Int) : Growth :=
  { s with ind := Function.update s.ind lbn fun _ => 0 }

@[simp] theorem setInd_self (s : Growth) (lbn : Int) (off : Nat) (b : Int) (i : Nat) :
    (s.setInd lbn off b).ind lbn i = if i = off then b else s.ind lbn i := by
  simp only [setInd, Function.update_self, Function.update_apply]

@[simp] theorem setInd_of_ne (s : Growth) {lbn n : Int} (h : n ≠ lbn) (off : Nat) (b : Int) :
    (s.setInd lbn off b).ind n = s.ind n :=
  Function.update_of_ne h _ _

@[simp] theorem clear_self (s : Growth) (lbn : Int) (i : Nat) : (s.clear lbn).ind lbn i = 0 := by
  simp only [clear, Function.update_self]

@[simp] theorem clear_of_ne (s : Growth) {lbn n : Int} (h : n ≠ lbn) :
    (s.clear lbn).ind n = s.ind n :=
  Function.update_of_ne h _ _

@[simp] theorem grant_ind (s : Growth) (mp : Ump) (lbn b : Int) (size : Nat) :
    (s.grant mp lbn b size).ind = s.ind := rfl

/-- `bread`: a transfer, unless the buffer is valid. -/
def bread (s : Growth) (c : BallocCall) (n : Int) : Growth × BufNums :=
  (if c.valid n then s else s.use n (BufNums.getblk n) .read, ⟨n, c.phys n⟩)

end Growth

/-- `ffs_alloc`, given what its search comes to. -/
def ffsAlloc (mp : Ump) (found : Except Errno Int) (s : Growth) (lbn : Int) (size : Nat) :
    Except Errno (Int × Growth) :=
  match found with
  | .error e => .error e
  | .ok b => .ok (b, s.grant mp lbn b size)

/-! ### `ffs_realloccg` -/

/-- The end of an attempt that has the old block in a buffer. -/
def realloccgPlace (mp : Ump) (t : ReallocTry) (s : Growth) (lbprev bprev : Int)
    (osize nsize : Nat) (bp : BufNums) : Option (Outcome BufNums) × Growth :=
  if t.extended then
    if bp.blkno = fsbtodb mp.fs bprev then
      (some (.ok bp),
        { s.charge mp (nsize - osize) with moves := ⟨lbprev, bprev⟩ :: s.moves })
    else (some .panic, s)
  else
    match t.found with
    | some bno =>
        (some (.ok (bp.setlblkno (fsbtodb mp.fs bno))),
          { s.charge mp (nsize - osize) with
            moves := ⟨lbprev, bno⟩ :: s.moves, frees := (bprev, osize) :: s.frees })
    | none => (none, s.use lbprev bp .release)

/-- One attempt; `none` when there is no space. -/
def realloccgTry (mp : Ump) (c : BallocCall) (t : ReallocTry) (s : Growth) (lbprev bprev : Int)
    (osize nsize : Nat) : Option (Outcome BufNums) × Growth :=
  if t.space = false then (none, s)
  else if bprev = 0 then (some .panic, s)
  else
    match t.readErr with
    | some e => (some (.error e), s)
    | none =>
        let (s, bp) := s.bread c lbprev
        if bp.blkno = bp.lblkno then
          if (ndaddr : Int) ≤ lbprev then (some .panic, s)
          else realloccgPlace mp t s lbprev bprev osize nsize (bp.setlblkno (fsbtodb mp.fs bprev))
        else realloccgPlace mp t s lbprev bprev osize nsize bp

/-- `ffs_realloccg`: without space it tries once more. -/
def ffsRealloccg (mp : Ump) (c : BallocCall) (tries : Nat → ReallocTry) (s : Growth)
    (lbprev bprev : Int) (osize nsize : Nat) : Outcome BufNums × Growth :=
  match realloccgTry mp c (tries 0) s lbprev bprev osize nsize with
  | (some r, s) => (r, s)
  | (none, s) =>
      let nospace : Errno := if c.fsfail then .enxio else .enospc
      if c.buflocked then (.error nospace, s)
      else
        match realloccgTry mp c (tries 1) s lbprev bprev osize nsize with
        | (some r, s) => (r, s)
        | (none, s) => (.error nospace, s)

/-! ### `ffs_balloc_ufs1` and `ffs_balloc_ufs2` -/

/-- The file's last direct block is a fragment, and block `lbn` is behind it. -/
def needsPromotion (fs : Fs) (ip : Inode) (lbn : Nat) : Bool :=
  let lastlbn := ip.size / fs.bsize
  let osize := blksize fs ip lastlbn
  decide (lastlbn < ndaddr ∧ lastlbn < lbn ∧ osize < fs.bsize ∧ 0 < osize)

/-- The first step: a fragment that will not be the last block any more is
extended to a full block. -/
def ballocPromote (mp : Ump) (c : BallocCall) (s : Growth) (lbn : Nat) : Outcome Unit × Growth :=
  if needsPromotion mp.fs s.ip lbn then
    let nb := s.ip.size / mp.fs.bsize
    match ffsRealloccg mp c c.promote s nb (s.ip.db nb) (blksize mp.fs s.ip nb) mp.fs.bsize with
    | (.ok bp, s) =>
        let s := { s with ip := { s.ip with size := mp.fs.lblktosize (nb + 1) } }
        (.ok (), (s.setDb nb (ptrCast mp.fs (dbtofsb mp.fs bp.blkno))).use nb bp .write)
    | (.error e, s) => (.error e, s)
    | (.panic, s) => (.panic, s)
  else (.ok (), s)

/-- The end of the direct case: the new pointer is read off the buffer. -/
def ballocStore (mp : Ump) (s : Growth) (lbn : Nat) (bp : BufNums) : Outcome Unit × Growth :=
  (.ok (), (s.setDb lbn (ptrCast mp.fs (dbtofsb mp.fs bp.blkno))).use lbn bp .ret)

/-- A direct block that is there, as a full block. -/
def ballocFull (mp : Ump) (c : BallocCall) (s : Growth) (lbn : Nat) : Outcome Unit × Growth :=
  let nb := s.ip.db lbn
  if c.clrbuf then
    match c.readErr lbn with
    | some e => (.error e, s)
    | none =>
        let (s, bp) := s.bread c lbn
        (.ok (), s.use lbn (bp.setlblkno (fsbtodb mp.fs nb)) .ret)
  else (.ok (), s.use lbn ((BufNums.getblk lbn).setlblkno (fsbtodb mp.fs nb)) .ret)

/-- A direct block that is there as a fragment, or not at all. `size` is where
the request ends in the block. -/
def ballocFragment (mp : Ump) (c : BallocCall) (s : Growth) (lbn size : Nat) :
    Outcome Unit × Growth :=
  let fs := mp.fs
  let nb := s.ip.db lbn
  if nb ≠ 0 then
    let osize := fs.fragroundup (fs.blkoff s.ip.size)
    let nsize := fs.fragroundup size
    if nsize ≤ osize then
      match c.readErr lbn with
      | some e => (.error e, s)
      | none =>
          let (s, bp) := s.bread c lbn
          ballocStore mp s lbn (bp.setlblkno (fsbtodb fs nb))
    else
      match ffsRealloccg mp c c.grow s lbn nb osize nsize with
      | (.ok bp, s) => ballocStore mp s lbn bp
      | (.error e, s) => (.error e, s)
      | (.panic, s) => (.panic, s)
  else
    let nsize :=
      if s.ip.size < fs.lblktosize (lbn + 1) then fs.fragroundup size else fs.bsize
    match ffsAlloc mp (c.alloc lbn) s lbn nsize with
    | .error e => (.error e, s)
    | .ok (newb, s) =>
        ballocStore mp s lbn ((BufNums.getblk lbn).setlblkno (fsbtodb fs newb))

/-- The case of a direct block. -/
def ballocDirect (mp : Ump) (c : BallocCall) (s : Growth) (lbn size : Nat) :
    Outcome Unit × Growth :=
  if c.metaonly then (.panic, s)
  else if s.ip.db lbn ≠ 0 ∧ mp.fs.lblktosize (lbn + 1) ≤ s.ip.size then ballocFull mp c s lbn
  else ballocFragment mp c s lbn size

/-- The buffer of a new indirect block is cleared and written; the write is
waited for unless the mount is asynchronous. -/
def ballocNewIndir (mp : Ump) (c : BallocCall) (s : Growth) (lbn nb : Int) :
    Option Errno × Growth :=
  let bp := (BufNums.getblk lbn).setlblkno (fsbtodb mp.fs nb)
  let s := (s.clear lbn).use lbn bp .write
  if c.sync = false ∧ mp.async then (none, s) else (c.writeErr lbn, s)

/-- Where the walk through the indirect blocks stands when it ends. -/
structure WalkEnd where
  st : Growth
  /-- The slot of the first new pointer in an old block, `unwindidx`. -/
  unwind : Option Indir
  /-- The error that led to `fail`. -/
  err : Option Errno

/-- The data block, with its indirect block `ap` in a buffer. -/
def ballocData (mp : Ump) (c : BallocCall) (s : Growth) (lbn : Nat) (ap : Indir)
    (bp : BufNums) : Growth × Option Errno :=
  let nb := s.ind ap.lbn ap.off
  if c.metaonly then (s.use ap.lbn bp .ret, none)
  else if nb = 0 then
    match ffsAlloc mp (c.alloc lbn) s lbn mp.fs.bsize with
    | .error e => (s.use ap.lbn bp .release, some e)
    | .ok (newb, s) =>
        let nb := ptrCast mp.fs newb
        let nbp := (BufNums.getblk lbn).setlblkno (fsbtodb mp.fs nb)
        (((s.setInd ap.lbn ap.off nb).use ap.lbn bp .write).use lbn nbp .ret, none)
  else
    let s := s.use ap.lbn bp .release
    if c.clrbuf then
      match c.readErr (toI32 lbn) with
      | some e => (s, some e)
      | none =>
          let (s, nbp) := s.bread c (toI32 lbn)
          (s.use lbn nbp .ret, none)
    else
      (s.use lbn ((BufNums.getblk lbn).setlblkno (fsbtodb mp.fs nb)) .ret, none)

/-- The loop through the indirect blocks. `ap` is the block to read next. -/
def ballocWalk (mp : Ump) (c : BallocCall) (lbn : Nat) (allocib : Bool) :
    Growth → Option Indir → Indir → List Indir → WalkEnd
  | s, unwind, ap, rest =>
      match c.readErr ap.lbn with
      | some e => ⟨s, unwind, some e⟩
      | none =>
          let (s, bp) := s.bread c ap.lbn
          let nb := s.ind ap.lbn ap.off
          match ufsCheckBlkno mp.fs mp.untrusted nb with
          | some e => ⟨s.use ap.lbn bp .release, unwind, some e⟩
          | none =>
              match rest with
              | [] =>
                  let (s, err) := ballocData mp c s lbn ap bp
                  ⟨s, unwind, err⟩
              | ap' :: rest =>
                  if nb ≠ 0 then
                    -- `buf_qrelse` marks the buffer for a delayed write
                    ballocWalk mp c lbn allocib (s.use ap.lbn bp .write) unwind ap' rest
                  else
                    match ffsAlloc mp (c.alloc ap'.lbn) s ap'.lbn mp.fs.bsize with
                    | .error e => ⟨s.use ap.lbn bp .release, unwind, some e⟩
                    | .ok (newb, s) =>
                        let nb := ptrCast mp.fs newb
                        match ballocNewIndir mp c s ap'.lbn nb with
                        | (some e, s) => ⟨s.use ap.lbn bp .release, unwind, some e⟩
                        | (none, s) =>
                            let unwind :=
                              if allocib = false ∧ unwind = none then some ap else unwind
                            ballocWalk mp c lbn allocib
                              ((s.setInd ap.lbn ap.off nb).use ap.lbn bp .write) unwind ap' rest

/-- The buffers that `fail` finds for the new blocks carry their addresses. -/
def failBufsOk (mp : Ump) (c : BallocCall) (gs : List Grant) : Bool :=
  gs.all fun g =>
    match c.incore g.lbn with
    | none => true
    | some n => n = fsbtodb mp.fs (ptrCast mp.fs g.addr)

/-- Take back the topmost new pointer. -/
def failUnwind (c : BallocCall) (s : Growth) (allocib : Option Nat) (unwind : Option Indir) :
    Option Growth :=
  match allocib, unwind with
  | some i, _ => some (s.setIb i 0)
  | none, none => some s
  | none, some ap =>
      if c.unwindErr.isSome then none
      else
        let (s, bp) := s.bread c ap.lbn
        some ((s.setInd ap.lbn ap.off 0).use ap.lbn bp .write)

/-- The label `fail`. `new` are the blocks allocated in this path. -/
def ballocFail (mp : Ump) (c : BallocCall) (s : Growth) (new : List Grant)
    (allocib : Option Nat) (unwind : Option Indir) (e : Errno) : Outcome Unit × Growth :=
  if new = [] ∧ allocib = none ∧ unwind = none then (.error e, s)
  else if failBufsOk mp c new = false then (.panic, s)
  else
    match failUnwind c s allocib unwind with
    | none => (.panic, s)
    | some s =>
        let n := btodb mp (new.length * mp.fs.bsize)
        (.error e,
          { s with
            ip := { s.ip with blocks := blocksCast mp.fs (s.ip.blocks - n) }
            frees := (new.map fun g => (ptrCast mp.fs g.addr, mp.fs.bsize)) ++ s.frees })

/-- The end of the indirect case. The list of new blocks is what was allocated
since `old`. -/
def ballocFinish (mp : Ump) (c : BallocCall) (old : List Grant) (allocib : Option Nat)
    (w : WalkEnd) : Outcome Unit × Growth :=
  match w.err with
  | none => (.ok (), w.st)
  | some e =>
      ballocFail mp c w.st (w.st.allocs.take (w.st.allocs.length - old.length)) allocib w.unwind e

/-- The case of a block behind indirect blocks: `top` is the slot in the inode,
`ap` the first indirect block. -/
def ballocIndir (mp : Ump) (c : BallocCall) (s : Growth) (lbn : Nat) (top ap : Indir)
    (rest : List Indir) : Outcome Unit × Growth :=
  if s.ip.ib top.off ≠ 0 then
    ballocFinish mp c s.allocs none (ballocWalk mp c lbn false s none ap rest)
  else
    match ffsAlloc mp (c.alloc ap.lbn) s ap.lbn mp.fs.bsize with
    | .error e => (.error e, s)
    | .ok (newb, s') =>
        let nb := ptrCast mp.fs newb
        match ballocNewIndir mp c s' ap.lbn nb with
        | (some e, s') => ballocFinish mp c s.allocs none ⟨s', none, some e⟩
        | (none, s') =>
            ballocFinish mp c s.allocs (some top.off)
              (ballocWalk mp c lbn true (s'.setIb top.off nb) none ap rest)

/-- `ffs_balloc_ufs1` and `ffs_balloc_ufs2`, after the fragment step. -/
def ballocBlock (mp : Ump) (c : BallocCall) (s : Growth) (lbn size : Nat) :
    Outcome Unit × Growth :=
  if lbn < ndaddr then ballocDirect mp c s lbn size
  else
    match ufsGetlbns mp.fs.nindir lbn with
    | .error e => (.error e, s)
    | .ok (top :: ap :: rest) => ballocIndir mp c s lbn top ap rest
    | .ok _ => (.panic, s)

/-- `ffs_balloc_ufs1` and `ffs_balloc_ufs2`. -/
def ffsBalloc (mp : Ump) (c : BallocCall) (s : Growth) (startoffset : Int) (size : Nat) :
    Outcome Unit × Growth :=
  let lbn := mp.fs.lblkno startoffset
  let size := (startoffset % mp.fs.bsize).toNat + size
  if mp.fs.bsize < size then (.panic, s)
  else if lbn < 0 then (.error .efbig, s)
  else
    match ballocPromote mp c s lbn.toNat with
    | (.ok (), s) => ballocBlock mp c s lbn.toNat size
    | (.error e, s) => (.error e, s)
    | (.panic, s) => (.panic, s)

end UfsX.Ffs
