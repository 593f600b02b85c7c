import UfsX.Ffs.Balloc

/-!
# `UfsX.Ffs.Truncate`: `ffs_truncate` and `ffs_indirtrunc`

For the data of a file that is neither a snapshot nor a short symbolic link
(`IO_NORMAL`), without soft updates. Truncation of extended attributes
(`IO_EXT`) is left out.

`ffs_indirtrunc` is called with the device address of the indirect block where
its parameter list has `lastbn`, and with the last block to keep where it has
`dbn`, which it does not use. The model keeps both parameters and the callers'
order.
-/

set_option autoImplicit false

namespace UfsX.Ffs

open UfsX.Lib UfsX.Ufs

/-- What the functions that `ffs_truncate` calls come to. -/
structure TruncCall where
  /-- `fs_maxfilesize` -/
  maxfilesize : Nat
  /-- `UFS_BALLOC` for the indirect block that leads to the new end. -/
  toMeta : BallocCall
  /-- `UFS_BALLOC` for the block of the new end, first and second call. -/
  toEnd : BallocCall
  toEndAgain : BallocCall
  syncErr : Option Errno
  updateErr : Option Errno
  setsizeErr : Option Errno
  /-- Reads and writes of indirect blocks, by logical number. -/
  readErr : Int → Option Errno
  writeErr : Int → Option Errno

namespace Growth

/-- `ffs_blkfree` -/
def blkfree (s : Growth) (b : Int) (size : Nat) : Growth :=
  { s with frees := (b, size) :: s.frees }

def setSize (s : Growth) (n : Nat) : Growth := { s with ip := { s.ip with size := n } }

/-- Clear the pointers of an indirect block from slot `from_` on. -/
def zeroFrom (s : Growth) (lbn from_ : Int) : Growth :=
  { s with ind := Function.update s.ind lbn fun i => if from_ ≤ i then 0 else s.ind lbn i }

end Growth

/-! ### The numbers of indirect blocks in `fs.h` -/

/-- `lbn_level` -/
def lbnLevel (lbn : Int) : Int :=
  if 0 ≤ lbn then 0
  else
    match lbn % 4 with
    | 0 => 0
    | 2 => 2
    | 3 => 1
    | _ => -1

/-- `lbn_offset`: the data blocks below one slot of a block of this level. -/
def lbnOffset (nindir : Nat) : Nat → Int
  | 0 => 1
  | level + 1 => lbnOffset nindir level * nindir

/-! ### `ffs_indirtrunc` -/

/-- The error to return, the device blocks released, and the file. -/
structure IndirEnd where
  err : Option Errno
  count : Nat
  st : Growth

/-- The result of a nested call is taken in. -/
def IndirEnd.add (r t : IndirEnd) : IndirEnd := ⟨t.err.or r.err, r.count + t.count, t.st⟩

/-- The block at `nb` is freed. -/
def IndirEnd.free (r : IndirEnd) (mp : Ump) (nb : Int) : IndirEnd :=
  { r with count := r.count + btodb mp mp.fs.bsize, st := r.st.blkfree nb mp.fs.bsize }

/-- The loop over the slots above `last`, from slot `i - 1` down. -/
def indirtruncLoop (mp : Ump) (child : Growth → Int → Int → Int → Option IndirEnd)
    (blk : Nat → Int) (lbn factor last : Int) : Nat → IndirEnd → Option IndirEnd
  | 0, r => some r
  | i + 1, r =>
      if (i : Int) ≤ last then some r
      else if blk i = 0 then indirtruncLoop mp child blk lbn factor last i r
      else
        match child r.st (lbn + 1 - i * factor) (fsbtodb mp.fs (blk i)) (-1) with
        | none => none
        | some t => indirtruncLoop mp child blk lbn factor last i ((r.add t).free mp (blk i))

/-- The body of `ffs_indirtrunc`. `child` is the call for a block below this one;
a block of level `SINGLE` has none. The result is `none` when C leaves the
behaviour undefined: a slot below 0 is written. -/
def indirtruncBlock (mp : Ump) (c : TruncCall) (level : Nat)
    (child : Growth → Int → Int → Int → Option IndirEnd) (s : Growth) (lbn lastbn : Int) :
    Option IndirEnd :=
  let factor : Int := mp.fs.nindir ^ level
  let last := if 0 < lastbn then lastbn / factor else lastbn
  match c.readErr lbn with
  | some e => some ⟨some e, 0, s⟩
  | none =>
      if lastbn ≠ -1 ∧ (toI32 (toU32 (last + 1)) < 0 ∨ last < -1) then none
      else
        -- without anything to keep the block is not written back
        let werr := if lastbn = -1 ∨ mp.async then none else c.writeErr lbn
        let s' := if lastbn = -1 then s else s.zeroFrom lbn (toI32 (toU32 (last + 1)))
        match indirtruncLoop mp child (s.ind lbn) lbn factor last mp.fs.nindir ⟨werr, 0, s'⟩ with
        | none => none
        | some r =>
            let i := (min last (mp.fs.nindir - 1)).toNat
            if level = 0 ∨ lastbn < 0 ∨ s.ind lbn i = 0 then some r
            else
              match child r.st (lbn + 1 - i * factor) (fsbtodb mp.fs (s.ind lbn i))
                (lastbn % factor) with
              | none => none
              | some t => some (r.add t)

/-- `ffs_indirtrunc(ip, lbn, lastbn, dbn, level, countp)`. All its callers have
the device address in the place of `lastbn` and the last block to keep in the
place of `dbn`. -/
def ffsIndirtrunc (mp : Ump) (c : TruncCall) :
    Nat → Growth → (lbn lastbn dbn : Int) → Option IndirEnd
  | 0, s, lbn, lastbn, _ => indirtruncBlock mp c 0 (fun s _ _ _ => some ⟨none, 0, s⟩) s lbn lastbn
  | level + 1, s, lbn, lastbn, _ =>
      indirtruncBlock mp c (level + 1) (ffsIndirtrunc mp c level) s lbn lastbn

/-! ### `ffs_truncate` -/

/-- `NINDIR(fs)`, and `NINDIR(fs) * NINDIR(fs)`: a product of `int`s. -/
def nindirPow (nindir level : Nat) : Int := toI32 (nindir ^ level : Nat)

/-- `lastiblock[level]`, before it is normalized to -1. -/
def lastiblock (nindir : Nat) (lastblock : Int) : Nat → Int
  | 0 => lastblock - ndaddr
  | level + 1 => lastiblock nindir lastblock level - nindirPow nindir (level + 1)

/-- `indir_lbn[level]` -/
def truncIndirLbn (nindir : Nat) : Nat → Int
  | 0 => -ndaddr
  | level + 1 => truncIndirLbn nindir level - nindirPow nindir (level + 1) - 1

/-- The loop over the inode's indirect pointers, `n - 1` down to `SINGLE`. It
stops at the first level of which something is kept; the flag says that it went
through to the end. -/
def truncIndirs (mp : Ump) (c : TruncCall) (lastblock : Int) :
    Nat → IndirEnd → Option (IndirEnd × Bool)
  | 0, r => some (r, true)
  | level + 1, r =>
      let bn := r.st.ip.ib level
      let last := lastiblock mp.fs.nindir lastblock level
      let keep := decide (0 ≤ last)
      match (if bn = 0 then some ⟨none, 0, r.st⟩
        else ffsIndirtrunc mp c level r.st (truncIndirLbn mp.fs.nindir level) (fsbtodb mp.fs bn)
          (if keep then last else -1)) with
      | none => none
      | some t =>
          let r := r.add t
          let r := if bn ≠ 0 ∧ keep = false then
            { r with st := r.st.setIb level 0 : IndirEnd }.free mp bn else r
          if keep then some (r, false) else truncIndirs mp c lastblock level r

/-- The loop over the direct blocks behind `lastblock`, `i - 1` down. -/
def truncDirects (mp : Ump) (lastblock : Int) : Nat → IndirEnd → IndirEnd
  | 0, r => r
  | i + 1, r =>
      if (i : Int) ≤ lastblock then r
      else
        let bn := r.st.ip.db i
        if bn = 0 then truncDirects mp lastblock i r
        else
          let size := blksize mp.fs r.st.ip i
          truncDirects mp lastblock i
            { r with count := r.count + btodb mp size, st := (r.st.setDb i 0).blkfree bn size }

/-- The last direct block gives back the fragments it does not need any more.
`none` is the panic "newspace". -/
def truncFrags (mp : Ump) (lastblock length : Nat) (r : IndirEnd) : Option IndirEnd :=
  let bn := r.st.ip.db lastblock
  if bn = 0 then some r
  else
    let oldspace := blksize mp.fs r.st.ip lastblock
    let s := r.st.setSize length
    let newspace := blksize mp.fs s.ip lastblock
    if newspace = 0 then none
    else if newspace < oldspace then
      some { r with
        count := r.count + btodb mp (oldspace - newspace)
        st := s.blkfree (bn + mp.fs.numfrags newspace) (oldspace - newspace) }
    else some { r with st := s }

/-- The pointers as `ffs_truncate` puts them back: `DIP_SET` and the casts in
its arguments narrow them to the UFS1 type. -/
def truncRestore (s : Growth) : Growth :=
  { s with ip :=
      { s.ip with
        db := fun i => if i < ndaddr then toI32 (s.ip.db i) else s.ip.db i
        ib := fun i => if i < niaddr then toI32 (s.ip.ib i) else s.ip.ib i } }

/-- The end: the new size, and the released blocks taken off `di_blocks`. -/
def truncSettle (length : Nat) (r : IndirEnd) : Growth :=
  let s := r.st.setSize length
  { s with ip :=
      if (r.count : Int) ≤ s.ip.blocks then s.ip.setBlocks (toU32 s.ip.blocks - toU32 r.count)
      else s.ip.setBlocks 0 }

/-- The last block to keep, -1 when the file becomes empty. -/
def truncLastblock (fs : Fs) (length : Nat) : Int := fs.lblkno (length + fs.bsize - 1) - 1

/-- The freeing part of `ffs_truncate`, from the computation of `lastblock` on.
`s` is the file with its old size. -/
def truncFree (mp : Ump) (c : TruncCall) (s : Growth) (length : Nat) :
    Option (Outcome Unit × Growth) :=
  let lastblock := truncLastblock mp.fs length
  let err := c.updateErr.or c.setsizeErr
  match truncIndirs mp c lastblock niaddr ⟨err, 0, truncRestore s⟩ with
  | none => none
  | some (r, through) =>
      let r := if through then truncDirects mp lastblock ndaddr r else r
      match (if through = true ∧ 0 ≤ lastblock then truncFrags mp lastblock.toNat length r
        else some r) with
      | none => some (.panic, r.st)
      | some r =>
          match r.err with
          | none => some (.ok (), truncSettle length r)
          | some e => some (.error e, truncSettle length r)

/-- The address of the block that holds the new end, -1 for an empty file. A
missing indirect block on the way is allocated. -/
def truncBlkno (mp : Ump) (c : TruncCall) (s : Growth) (length : Nat) : Outcome Int × Growth :=
  if length = 0 then (.ok (-1), s)
  else
    let lbn := (length - 1) / mp.fs.bsize
    if lbn < ndaddr then (.ok (s.ip.db lbn), s)
    else
      match ffsBalloc mp { c.toMeta with metaonly := true } s (mp.fs.lblktosize lbn) mp.fs.bsize with
      | (.error e, s) => (.error e, s)
      | (.panic, s) => (.panic, s)
      | (.ok (), s) =>
          match ufsGetlbns mp.fs.nindir lbn with
          | .ok path =>
              (.ok (s.ind (path.getLast?.elim 0 Indir.lbn) ((lbn - ndaddr) % mp.fs.nindir)), s)
          | .error e => (.error e, s)

/-- The block of the new end is allocated when it is a hole, and read when a
part of it is to be cleared. -/
def truncAlloc (mp : Ump) (c : TruncCall) (s : Growth) (length : Nat) : Outcome Unit × Growth :=
  match truncBlkno mp c s length with
  | (.error e, s) => (.error e, s)
  | (.panic, s) => (.panic, s)
  | (.ok blkno, s) =>
      match (if blkno = 0 then c.syncErr else none) with
      | some e => (.error e, s)
      | none =>
          if blkno ≠ 0 ∧ mp.fs.blkoff length = 0 then (.ok (), s)
          else
            match ffsBalloc mp { c.toEnd with clrbuf := true } s ((length : Int) - 1) 1 with
            | (.error e, s) => (.error e, s)
            | (.panic, s) => (.panic, s)
            | (.ok (), s) =>
                ffsBalloc mp { c.toEndAgain with clrbuf := true } s ((length : Int) - 1) 1

/-- A longer file: its last byte is allocated. -/
def truncExtend (mp : Ump) (c : TruncCall) (s : Growth) (length : Nat) : Outcome Unit × Growth :=
  match ffsBalloc mp { c.toEnd with clrbuf := true } s ((length : Int) - 1) 1 with
  | (.error e, s) => (.error e, s)
  | (.panic, s) => (.panic, s)
  | (.ok (), s) =>
      match c.updateErr with
      | none => (.ok (), s.setSize length)
      | some e => (.error e, s.setSize length)

/-- A file, with the length that the unified buffer cache has for its vnode. There is none when the vnode has no part in
that cache. The file's size is `i_size` in core and in the dinode: these functions never store one without the other. -/
structure UbcFile where
  file : Growth
  ubc : Option Nat

/-- `ubc_setsize` -/
def UbcFile.setsize (f : UbcFile) (n : Nat) : UbcFile := { f with ubc := f.ubc.map fun _ => n }

/-- `truncExtend` with its calls of `ubc_setsize`. -/
def truncExtendUbc (mp : Ump) (c : TruncCall) (f : UbcFile) (length : Nat) : Outcome Unit × UbcFile :=
  let osize := f.file.ip.size
  let f := f.setsize length
  match ffsBalloc mp { c.toEnd with clrbuf := true } f.file ((length : Int) - 1) 1 with
  | (.error e, s) => (.error e, UbcFile.setsize { f with file := s } osize)
  | (.panic, s) => (.panic, { f with file := s })
  | (.ok (), s) =>
      match c.updateErr with
      | none => (.ok (), { f with file := s.setSize length })
      | some e => (.error e, { f with file := s.setSize length })

/-- `ffs_truncate` -/
def ffsTruncate (mp : Ump) (c : TruncCall) (s : Growth) (length : Int) :
    Option (Outcome Unit × Growth) :=
  if length < 0 then some (.error .einval, s)
  else if (c.maxfilesize : Int) < length then some (.error .efbig, s)
  else if (s.ip.size : Int) = length then
    match c.updateErr with
    | none => some (.ok (), s)
    | some e => some (.error e, s)
  else if (s.ip.size : Int) < length then some (truncExtend mp c s length.toNat)
  else
    match truncAlloc mp c s length.toNat with
    | (.ok (), s) => truncFree mp c s length.toNat
    | r => some r

end UfsX.Ffs
