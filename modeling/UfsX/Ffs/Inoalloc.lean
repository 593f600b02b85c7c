import UfsX.Ffs.Alloc

/-!
# `UfsX.Ffs.Inoalloc`: inode allocation inside a cylinder group

`memcchr`, `ffs_nodealloccg` and `ffs_freefile`. As in `UfsX.Ffs.Alloc`, a
function that can panic returns `Except Panic`, 0 stands for failure, and the
UFS lock and the buffers are visible in `State.log` only.

On UFS2 the inode blocks of a group are initialized when they are first needed.
`ffs_nodealloccg` gives the group's buffer back while it writes a new inode
block, and then starts again.
-/

set_option autoImplicit false

namespace UfsX.Ffs

open UfsX.Lib

/-! ### `memcchr` -/

/-- A word at `lp` has the byte `c` in all its eight places. -/
def wordIs (mem : Nat → BitVec 8) (c : BitVec 8) (lp : Nat) : Bool :=
  (List.range 8).all fun i => mem (lp + i) == c

/-- The first of the `n` bytes from `p` on that is not `c`. -/
def testBytes (mem : Nat → BitVec 8) (c : BitVec 8) : Nat → Nat → Option Nat
  | 0, _ => none
  | n + 1, p => if mem p ≠ c then some p else testBytes mem c n (p + 1)

/-- The loop of `memcchr` that goes by words. The last byte of a word that
differs is not tested. -/
def memcchrWords (mem : Nat → BitVec 8) (c : BitVec 8) (stop : Nat) : Nat → Nat → Option Nat
  | 0, _ => none
  | n + 1, lp =>
      if stop ≤ lp then none
      else if wordIs mem c lp then memcchrWords mem c stop n (lp + 8)
      else some ((testBytes mem c 7 lp).getD (lp + 7))

/-- `memcchr`: the address of the first of the `n` bytes from `start` on that is
not `c`. It compares aligned words of eight bytes, of which the first may begin
before `start` and the last may end after the buffer. -/
def memcchr (mem : Nat → BitVec 8) (start : Nat) (c : BitVec 8) (n : Nat) : Option Nat :=
  if n = 0 then none
  else
    let lp := start / 8 * 8
    let first := if wordIs mem c lp then none else testBytes mem c (lp + 8 - start) start
    match first.or (memcchrWords mem c (start + n) n (lp + 8)) with
    | some p => if p < start + n then some p else none
    | none => none

/-! ### `ffs_nodealloccg` -/

/-- The file type bits of a mode are those of a directory. -/
def isDir (mode : Nat) : Bool := mode &&& 0o170000 = 0o040000

/-- `ffs(~b) - 1`: the lowest clear bit of a byte. -/
def firstClear (b : BitVec 8) : Nat := ((List.range 8).find? fun i => !b.getLsbD i).getD 8

namespace State

/-- Add to the number of free inodes of group `cg` in its three places. -/
def addNifree (s : State) (cg : Nat) (d : Int) : State :=
  { s.modCg cg fun c => { c with cs := { c.cs with nifree := c.cs.nifree + d } } with
    cstotal := { s.cstotal with nifree := s.cstotal.nifree + d }
    csp := Function.update s.csp cg { s.csp cg with nifree := (s.csp cg).nifree + d } }

/-- Add to the number of directories of group `cg` in its three places. -/
def addNdir (s : State) (cg : Nat) (d : Int) : State :=
  { s.modCg cg fun c => { c with cs := { c.cs with ndir := c.cs.ndir + d } } with
    cstotal := { s.cstotal with ndir := s.cstotal.ndir + d }
    csp := Function.update s.csp cg { s.csp cg with ndir := (s.csp cg).ndir + d } }

end State

variable (fs : Fs)

/-- The search of `ffs_nodealloccg` from the rotor on, with wrap-around. -/
def inodeSearch (c : Cg) : Except Panic Nat :=
  let start := c.irotor / 8
  let len := (fs.ipg - c.irotor + 7) / 8
  match (memcchr c.inosused start 0xff len).or (memcchr c.inosused 0 0xff (start + 1)) with
  | none => .error .inodeMapCorrupted
  | some loc => .ok (loc * 8 + firstClear (c.inosused loc))

/-- The inode that is tried: the preferred one if it is free. -/
def inodePick (c : Cg) (ipref : Nat) : Except Panic Nat :=
  if ipref ≠ 0 ∧ c.inosused.isclr (ipref % fs.ipg) then .ok (ipref % fs.ipg) else inodeSearch fs c

/-- The end of `ffs_nodealloccg`: mark inode `ipref` of the group used. The
product of the result is one of 32-bit numbers. -/
def nodeTake (s : State) (cg ipref mode : Nat) : Nat × State :=
  let s := (s.modCg cg fun c => { c with irotor := ipref }).emit .lock
  let s := s.modCg cg fun c => { c with inosused := c.inosused.setbit ipref }
  let s := { s.addNifree cg (-1) with fmod := true }
  let s := if isDir mode then s.addNdir cg 1 else s
  ((toU32 (cg * fs.ipg)).toNat + ipref, (s.emit .unlock).emit (.bdwrite cg))

/-- The label `check_nifree`: the result of the call when it ends there. Else
it goes on to `restart`, in state `cgOpen`. `gerr` is what `ffs_getcg`
reports. -/
def nodeCheck (s : State) (gerr cg : Nat) : Option (Nat × State) :=
  if (s.csp cg).nifree = 0 then some (0, s)
  else if gerr ≠ 0 then some (0, (cgOpen s gerr cg).emit .lock)
  else none

/-- The inode block that is to be initialized next, if that has to be done
before inode `ipref` is used. -/
def inodeBlockDue (c : Cg) (ipref : Nat) : Bool :=
  fs.magic = .ufs2 ∧ c.initediblk < ipref + fs.inopb ∧ c.initediblk < c.niblk

/-- After an inode block has been written: move `cg_initediblk` on, unless
another thread has done so since it was `old`. -/
def inodesInited (old : Nat) (c : Cg) : Cg :=
  if c.initediblk = old then { c with initediblk := c.initediblk + fs.inopb } else c

theorem inodesInited_old (c : Cg) :
    inodesInited fs c.initediblk c = { c with initediblk := c.initediblk + fs.inopb } :=
  if_pos rfl

/-- Give the group back, and wait for the buffer of inode block `i`, which
another thread has. -/
def inodeWait (s : State) (cg i : Nat) : State :=
  (((s.emit (.brelse cg)).emit (.getino cg i)).emit (.inoRelse cg i)).emit .lock

/-- Give the group back, and write inode block `i`. -/
def inodeWrite (s : State) (cg i : Nat) : State :=
  ((s.emit (.getino cg i)).emit (.brelse cg)).emit (.inoWrite cg i)

/-- Read the group again. -/
def inodeReread (s : State) (cg : Nat) : State := ((s.emit (.getcg cg)).emit .lock).emit .unlock

@[simp] theorem cgs_inodeWait (s : State) (cg i : Nat) : (inodeWait s cg i).cgs = s.cgs := rfl

@[simp] theorem cgs_inodeWrite (s : State) (cg i : Nat) : (inodeWrite s cg i).cgs = s.cgs := rfl

@[simp] theorem cgs_inodeReread (s : State) (cg : Nat) : (inodeReread s cg).cgs = s.cgs := rfl

/-- From the label `restart` on. `busy` says of each attempt to get the next
inode block whether another thread has it, and `gerr` what the calls of
`ffs_getcg` report. When the group cannot be read again after an inode block
has been written, the error number is returned. -/
def nodeRestart (cg mode : Nat) (gerr : Nat → Nat) (k : Nat) (busy : List Bool) (s : State)
    (ipref : Nat) : Except Panic (Nat × State) :=
  let c := s.cgs cg
  if c.cs.nifree = 0 then .ok (0, (s.emit (.brelse cg)).emit .lock)
  else
    match inodePick fs c ipref with
    | .error e => .error e
    | .ok ipref =>
        if hdue : inodeBlockDue fs c ipref then
          if hbusy : busy.head? = some true then
            -- the other thread initializes the block; wait for it and start again
            let s₁ := inodeWait s cg c.initediblk
            match nodeCheck s₁ (gerr k) cg with
            | some r => .ok r
            | none => nodeRestart cg mode gerr (k + 1) busy.tail (cgOpen s₁ (gerr k) cg) ipref
          else
            let s₁ := inodeWrite s cg c.initediblk
            if gerr k ≠ 0 then .ok (gerr k, (s₁.emit .lock).emit .unlock)
            else
              nodeRestart cg mode gerr (k + 1) busy.tail
                ((inodeReread s₁ cg).modCg cg (inodesInited fs c.initediblk)) ipref
        else .ok (nodeTake fs s cg ipref mode)
termination_by busy.length + ((s.cgs cg).niblk - (s.cgs cg).initediblk)
decreasing_by
  · have hlen : busy.tail.length < busy.length := by
      cases busy with
      | nil => simp at hbusy
      | cons => simp
    simp only [cgOpen_cgs, cgs_inodeWait]
    omega
  · have hle : busy.tail.length ≤ busy.length := by simp
    have hpos := fs.inopb_pos
    simp only [inodeBlockDue, decide_eq_true_eq, c] at hdue
    simp only [State.modCg_cgs, cgs_inodeReread, cgs_inodeWrite, Function.update_self,
      inodesInited_old]
    omega

/-- `ffs_nodealloccg`: allocate an inode in group `cg`, `ipref` if possible. -/
def ffsNodealloccg (s : State) (gerr : Nat → Nat) (busy : List Bool) (cg ipref mode : Nat) :
    Except Panic (Nat × State) :=
  match nodeCheck s (gerr 0) cg with
  | some r => .ok r
  | none => nodeRestart fs cg mode gerr 1 busy (cgOpen s (gerr 0) cg) ipref

/-! ### `ffs_freefile` -/

/-- Mark inode `cgino` of group `cg` free. -/
def freefileGive (s : State) (cg cgino mode : Nat) : State :=
  let s := s.modCg cg fun c => { c with
    inosused := c.inosused.clrbit cgino
    irotor := if cgino < c.irotor then cgino else c.irotor }
  let s := (s.emit .lock).addNifree cg 1
  let s := if isDir mode then s.addNdir cg (-1) else s
  { s with fmod := true }

/-- `ffs_freefile` on a writable file system: free inode `ino`, of which `mode`
says whether it is a directory. The bound is a product of 32-bit numbers.
Returns 0 or the error of `ffs_getcg`. -/
def ffsFreefile (s : State) (devvp : Vtype) (gerr ino mode : Nat) : Except Panic (Nat × State) :=
  if devvp ≠ .vreg ∧ devvp ≠ .vchr then .ok (0, s)
  else if toU32 (fs.ipg * fs.ncg) ≤ ino then .error .inodeRange
  else if gerr ≠ 0 then .ok (gerr, s)
  else
    let cg := ino / fs.ipg
    let cgino := ino % fs.ipg
    let s := s.emit (.getcg cg)
    if (s.cgs cg).inosused.isclr cgino then .error .freeingFreeInode
    else .ok (0, ((freefileGive s cg cgino mode).emit .unlock).emit (.bdwrite cg))

/-- `ffs_checkfreefile`: 1 when inode `ino` is free, or is none. The group is read for an
inode in range only. -/
def ffsCheckfreefile (s : State) (devvp : Vtype) (gerr ino : Nat) : Nat × State :=
  if devvp ≠ .vreg ∧ devvp ≠ .vchr then (1, s)
  else if toU32 (fs.ipg * fs.ncg) ≤ ino then (1, s)
  else if gerr ≠ 0 then (1, s)
  else
    let cg := ino / fs.ipg
    let s := s.emit (.getcg cg)
    ((if (s.cgs cg).inosused.isclr (ino % fs.ipg) then 1 else 0), s.emit (.brelse cg))

/-- The preference of `ffs_valloc`, from what `ffs_dirpref` returns for a directory or from
the number of the parent. -/
def vallocPref (ipref : Nat) : Nat := if toU32 (fs.ncg * fs.ipg) ≤ ipref then 0 else ipref

end UfsX.Ffs
