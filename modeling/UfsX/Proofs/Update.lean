import UfsX.Ffs.Update
import UfsX.Proofs.Consistent

/-!
# `UfsX.Proofs.Update`: where `ffs_update` writes

`Updated` is what an update is for: the block of the inode, as `ffs_vgetf` reads it,
holds the dinode, and nothing else has changed. `ffs_update` takes the device block
number of the inode for a block number of the file, so it never writes that block. The
update is right only when there is nothing to write (`ffsUpdate_updated_iff`).
-/

set_option autoImplicit false

namespace UfsX.Proofs

open UfsX.Ffs
open UfsX.Ufs (Errno Outcome)

/-- The inode is on the disk, as it is in core. -/
structure Updated (mp : InodeMount) (ip ip' : IncoreInode) (s s' : DevState) : Prop where
  inode : mp.vgetBlock s' ip.number (mp.fs.inoToFsbo ip.number) = ip'.din
  /-- The other inodes of the block. -/
  others : ∀ i, i < mp.fs.inopb → i ≠ mp.fs.inoToFsbo ip.number →
    mp.vgetBlock s' ip.number i = mp.vgetBlock s ip.number i
  /-- No data block of the file has been read or written. -/
  data : s'.moved = s.moved
  hash : mp.fs.magic = .ufs2 → mp.ffsVerifyDinodeCkhash ip'.din = true
  /-- The inode can be loaded again. -/
  load : ∃ loaded, mp.ffsLoadInode (mp.vgetBlock s' ip.number) ip.number = .ok loaded
    ∧ loaded.mode = ip.mode ∧ loaded.nlink = ip.nlink ∧ loaded.size = ip.size
    ∧ loaded.flags = ip.flags ∧ loaded.gen = ip.gen ∧ loaded.uid = ip.uid ∧ loaded.gid = ip.gid

/-- The in-core copies of the fields are those of the dinode. -/
structure Synced (ip : IncoreInode) : Prop where
  mode : ip.mode = ip.din.mode
  nlink : ip.nlink = ip.din.nlink
  size : ip.size = ip.din.size
  flags : ip.flags = ip.din.flags
  gen : ip.gen = ip.din.gen
  uid : ip.uid = ip.din.uid
  gid : ip.gid = ip.din.gid
  effnlink : ip.effnlink = ip.nlink

section Hash

variable (mp : InodeMount) (dip : Dinode)

/-- The hash that is written is the one that is checked. -/
theorem verify_update : mp.ffsVerifyDinodeCkhash (mp.ffsUpdateDinodeCkhash dip) = true := by
  unfold InodeMount.ffsVerifyDinodeCkhash InodeMount.ffsUpdateDinodeCkhash
  by_cases hskip : dip.mode = 0 ∨ mp.ckInode = false
  · rw [if_pos hskip]
    obtain hmode | hck := hskip
    · simp [hmode]
    · simp [hck]
  · rw [if_neg hskip]
    simp

theorem verify_dinodeOut (h : mp.fs.magic = .ufs2) :
    mp.ffsVerifyDinodeCkhash (mp.dinodeOut dip) = true := by
  unfold InodeMount.dinodeOut
  rw [h]
  exact verify_update mp dip

/-- Only the hash changes. -/
theorem dinodeOut_eq : ∃ ckhash, mp.dinodeOut dip = { dip with ckhash := ckhash } := by
  unfold InodeMount.dinodeOut
  cases mp.fs.magic with
  | ufs1 => exact ⟨dip.ckhash, rfl⟩
  | ufs2 =>
      simp only [InodeMount.ffsUpdateDinodeCkhash]
      split
      · exact ⟨dip.ckhash, rfl⟩
      · exact ⟨_, rfl⟩

end Hash

section Update

variable {mp : InodeMount} {blockmap : Int → Except Errno (Option Int)} {undef : InoBlock}
variable {ip : IncoreInode} {s : DevState}

/-- The inode after the call. -/
def written (mp : InodeMount) (ip : IncoreInode) : IncoreInode :=
  { ip with din := mp.dinodeOut ip.din, modified := false }

/-- A buffer of the file is read if need be, and written. -/
theorem ffsUpdate_eq (blockmap : Int → Except Errno (Option Int)) (undef : InoBlock) (s : DevState)
    (hronly : mp.ronly = false) (hlink : ip.effnlink = ip.nlink) :
    ∃ data s₁, mp.ffsUpdate blockmap undef ip true s
        = (match InodeMount.bwrite blockmap (mp.fs.inodeBn ip.number) data s₁ with
          | .error e => .error e
          | .ok s' => .ok (written mp ip, s'))
      ∧ (s₁ = s ∨ s₁ = InodeMount.startRead blockmap (mp.fs.inodeBn ip.number) s) := by
  have hlink' : ¬ ip.effnlink ≠ ip.nlink := not_not.mpr hlink
  unfold InodeMount.ffsUpdate
  simp only [hronly, hlink', Bool.true_eq_false, and_false, if_false, Bool.false_eq_true, false_and,
    if_true]
  cases s.filebuf (mp.fs.inodeBn ip.number) with
  | some data => exact ⟨_, s, rfl, .inl rfl⟩
  | none => exact ⟨undef, _, rfl, .inr rfl⟩

/-- In a hole of the file nothing is transferred. -/
theorem ffsUpdate_hole (hronly : mp.ronly = false) (hlink : ip.effnlink = ip.nlink)
    (hmap : blockmap (mp.fs.inodeBn ip.number) = .ok none) :
    mp.ffsUpdate blockmap undef ip true s = .ok (written mp ip, s) := by
  obtain ⟨data, s₁, hupdate, hs₁⟩ := ffsUpdate_eq blockmap undef s hronly hlink
  have hsame : s₁ = s := by
    obtain hs₁ | hs₁ := hs₁
    · exact hs₁
    · rw [hs₁]
      unfold InodeMount.startRead
      rw [hmap]
  rw [hupdate, hsame]
  unfold InodeMount.bwrite
  rw [hmap]

/-- A block of the file is written. -/
theorem ffsUpdate_mapped {a : Int} (hronly : mp.ronly = false) (hlink : ip.effnlink = ip.nlink)
    (hmap : blockmap (mp.fs.inodeBn ip.number) = .ok (some a)) :
    ∃ s', mp.ffsUpdate blockmap undef ip true s = .ok (written mp ip, s') ∧ s'.moved ≠ s.moved := by
  obtain ⟨data, s₁, hupdate, hs₁⟩ := ffsUpdate_eq blockmap undef s hronly hlink
  have hlen : s.moved.length ≤ s₁.moved.length := by
    obtain rfl | rfl := hs₁
    · exact le_refl _
    · unfold InodeMount.startRead
      rw [hmap]
      exact Nat.le_succ _
  unfold InodeMount.bwrite at hupdate
  rw [hmap] at hupdate
  refine ⟨_, hupdate, fun hno => ?_⟩
  have hlen' := congrArg List.length hno
  rw [List.length_cons] at hlen'
  omega

theorem ffsUpdate_error {e : Errno} (hronly : mp.ronly = false) (hlink : ip.effnlink = ip.nlink)
    (hmap : blockmap (mp.fs.inodeBn ip.number) = .error e) :
    mp.ffsUpdate blockmap undef ip true s = .error e := by
  obtain ⟨data, s₁, hupdate, -⟩ := ffsUpdate_eq blockmap undef s hronly hlink
  rw [hupdate]
  unfold InodeMount.bwrite
  rw [hmap]

/-- What was on the disk already is all right. -/
theorem updated_of_same (hsync : Synced ip)
    (hsame : mp.vgetBlock s ip.number (mp.fs.inoToFsbo ip.number) = mp.dinodeOut ip.din) :
    Updated mp ip (written mp ip) s s where
  inode := hsame
  others := fun _ _ _ => rfl
  data := rfl
  hash := fun h => verify_dinodeOut mp ip.din h
  load := by
    obtain ⟨ckhash, hout⟩ := dinodeOut_eq mp ip.din
    have hload : mp.ffsLoadInode (mp.vgetBlock s ip.number) ip.number = .ok {
        number := ip.number
        din := mp.dinodeOut ip.din
        mode := (mp.dinodeOut ip.din).mode
        nlink := (mp.dinodeOut ip.din).nlink
        effnlink := (mp.dinodeOut ip.din).nlink
        size := (mp.dinodeOut ip.din).size
        flags := (mp.dinodeOut ip.din).flags
        gen := (mp.dinodeOut ip.din).gen
        uid := (mp.dinodeOut ip.din).uid
        gid := (mp.dinodeOut ip.din).gid
        modified := false } := by
      unfold InodeMount.ffsLoadInode
      simp only [hsame]
      rw [if_neg]
      rintro ⟨hmagic, hbad⟩
      rw [verify_dinodeOut mp ip.din hmagic] at hbad
      cases hbad
    refine ⟨_, hload, ?_⟩
    rw [hout]
    exact ⟨hsync.mode.symm, hsync.nlink.symm, hsync.size.symm, hsync.flags.symm, hsync.gen.symm,
      hsync.uid.symm, hsync.gid.symm⟩

end Update

/-- An update that waits is right exactly when it has nothing to write: the file has a
hole at the number of the inode block, and the dinode is on the disk already. -/
theorem ffsUpdate_updated_iff {mp : InodeMount} {blockmap : Int → Except Errno (Option Int)}
    {undef : InoBlock} {ip : IncoreInode} {s : DevState} (hronly : mp.ronly = false)
    (hsync : Synced ip) :
    (∀ ip' s', mp.ffsUpdate blockmap undef ip true s = .ok (ip', s') → Updated mp ip ip' s s')
      ↔ ∀ a, blockmap (mp.fs.inodeBn ip.number) = .ok a →
        a = none ∧ mp.vgetBlock s ip.number (mp.fs.inoToFsbo ip.number) = mp.dinodeOut ip.din := by
  constructor
  · intro hok a hmap
    cases a with
    | some a =>
        -- the block of the file that is written is a data block
        obtain ⟨s', hupdate, hmoved⟩ := ffsUpdate_mapped hronly hsync.effnlink hmap
        exact absurd (hok _ _ hupdate).data hmoved
    | none =>
        have hupdate : mp.ffsUpdate blockmap undef ip true s = .ok (written mp ip, s) :=
          ffsUpdate_hole hronly hsync.effnlink hmap
        exact ⟨rfl, (hok _ _ hupdate).inode⟩
  · intro hcond ip' s' hupdate
    cases hmap : blockmap (mp.fs.inodeBn ip.number) with
    | error e =>
        rw [ffsUpdate_error hronly hsync.effnlink hmap] at hupdate
        cases hupdate
    | ok a =>
        obtain ⟨rfl, hsame⟩ := hcond a hmap
        rw [ffsUpdate_hole hronly hsync.effnlink hmap] at hupdate
        cases hupdate
        exact updated_of_same hsync hsame

/-! ### An inode that has changed -/

/-- An inode of a file of 10 bytes. -/
def changedInode : IncoreInode where
  number := 4
  din := ⟨33188, 1, 10, 0, 7, 501, 20, 0, []⟩
  mode := 33188
  nlink := 1
  effnlink := 1
  size := 10
  flags := 0
  gen := 7
  uid := 501
  gid := 20
  modified := true

theorem changedInode_synced : Synced changedInode := ⟨rfl, rfl, rfl, rfl, rfl, rfl, rfl, rfl⟩

def hashedMount : InodeMount := ⟨tinyFs, true, false, false, fun dip => dip.size⟩

/-- A device with nothing but this dinode on it. -/
def deviceOf (dip : Dinode) : DevState := ⟨fun _ _ => dip, fun _ => none, fun _ => none, []⟩

/-- The file was empty when it was last written. -/
def staleDevice : DevState := deviceOf { changedInode.din with size := 0 }

theorem ffsUpdate_updated_same :
    ∃ ip' s', hashedMount.ffsUpdate (fun _ => .ok none) (fun _ => changedInode.din) changedInode true
        (deviceOf (hashedMount.dinodeOut changedInode.din)) = .ok (ip', s')
      ∧ Updated hashedMount changedInode ip' (deviceOf (hashedMount.dinodeOut changedInode.din)) s' := by
  have hupdate : hashedMount.ffsUpdate (fun _ => .ok none) (fun _ => changedInode.din) changedInode true
      (deviceOf (hashedMount.dinodeOut changedInode.din)) = _ := ffsUpdate_hole rfl rfl rfl
  refine ⟨_, _, hupdate, ?_⟩
  exact (ffsUpdate_updated_iff rfl changedInode_synced).mpr (fun _ ha => ⟨(Except.ok.inj ha).symm, rfl⟩) _ _ hupdate

/-- `ffs_update` returns 0, and the disk still has the old size. -/
theorem ffsUpdate_lost :
    ∃ ip' s', hashedMount.ffsUpdate (fun _ => .ok none) (fun _ => changedInode.din) changedInode true
        staleDevice = .ok (ip', s')
      ∧ ¬ Updated hashedMount changedInode ip' staleDevice s' := by
  refine ⟨_, _, ffsUpdate_hole rfl rfl rfl, fun hno => ?_⟩
  have hsize := congrArg Dinode.size hno.inode
  exact absurd hsize (by decide)

end UfsX.Proofs
