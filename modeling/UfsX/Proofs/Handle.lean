import UfsX.Ffs.Handle
import UfsX.Lib.Run
import UfsX.Proofs.Inoalloc
import UfsX.Proofs.Update

/-!
# `UfsX.Proofs.Handle`: handles identify files

A handle names a life of an inode number by its generation. `HandleInv` says how the
generations of the handles that have been made compare with the one the inode has now:
those of this life are equal to it, those of earlier lives are smaller.

Three things break this: the generation 2 ^ 32 - 1, after which the in-core number needs
33 bits; an inode without a generation on a read-only mount, which gets a new one each
time it is read in; and a dinode that `ffs_update` does not get to the device. A fourth
is in the look-up: `ffs_fhtovp` refuses an inode number that is not below `fs_ncg * fs_ipg`,
in 32 bits. `handles_identify` is about runs without these.
-/

set_option autoImplicit false

namespace UfsX.Proofs.Handle

open Relation UfsX.Lib UfsX.Ffs UfsX.Ffs.Handle
open UfsX.Ufs (Errno)

/-! ### Reading an inode in -/

/-- `ffs_load_inode` accepts the dinode. -/
def Loads (mp : InodeMount) (dip : Dinode) : Prop := mp.fs.magic = .ufs2 → mp.ffsVerifyDinodeCkhash dip = true

/-- The dinode on the device is as good as the one in memory. -/
structure Arrived (mp : InodeMount) (din after : Dinode) : Prop where
  mode : after.mode = din.mode
  nlink : after.nlink = din.nlink
  gen : after.gen = din.gen
  loads : Loads mp after

/-- The inode that `ffs_load_inode` makes. -/
def loaded (ino : Nat) (dip : Dinode) : IncoreInode :=
  { number := ino, din := dip, mode := dip.mode, nlink := dip.nlink, effnlink := dip.nlink, size := dip.size,
    flags := dip.flags, gen := dip.gen, uid := dip.uid, gid := dip.gid, modified := false }

section Vget

variable {mp : InodeMount} {ino : Nat} {rnd : List Nat} {s : InoState} {ip : IncoreInode}

end Vget

/-- The generation the inode has now. -/
def genOf (s : InoState) : Nat :=
  match s.core with
  | some ip => ip.gen
  | none => s.disk.gen

def modeOf (s : InoState) : Nat :=
  match s.core with
  | some ip => ip.mode
  | none => s.disk.mode

def nlinkOf (s : InoState) : Int :=
  match s.core with
  | some ip => ip.effnlink
  | none => s.disk.nlink

/-- A handle and the generation the inode has now. -/
structure HandleOk (ino : Nat) (s : InoState) (fh : Ufid) : Prop where
  ino : fh.ino = ino
  gen_ne : fh.gen ≠ 0
  life : fh.life ≤ s.life
  same : fh.life = s.life → fh.gen = genOf s
  older : fh.life < s.life → fh.gen < genOf s

/-- A handle depends on the state through the number of lives and the generation only. -/
theorem HandleOk.congr {ino : Nat} {s s' : InoState} {fh : Ufid} (h : HandleOk ino s fh) (hlife : s'.life = s.life)
    (hgen : genOf s' = genOf s) : HandleOk ino s' fh :=
  ⟨h.ino, h.gen_ne, hlife ▸ h.life, fun hl => hgen ▸ h.same (hl.trans hlife), fun hl => hgen ▸ h.older (hlife ▸ hl)⟩

/-- The next life makes every handle an old one. -/
theorem HandleOk.next {ino : Nat} {s s' : InoState} {fh : Ufid} (h : HandleOk ino s fh)
    (hlife : s'.life = s.life + 1) (hgen : genOf s < genOf s') : HandleOk ino s' fh := by
  have hle : fh.gen ≤ genOf s := by
    obtain hl | hl := Nat.lt_or_eq_of_le h.life
    · exact Nat.le_of_lt (h.older hl)
    · exact Nat.le_of_eq (h.same hl)
  have hlife' := h.life
  exact ⟨h.ino, h.gen_ne, by omega, fun hl => by omega, fun _ => by omega⟩

/-! ### Steps that keep the invariant -/

/-- A step that does not lose track of the generation. -/
def Meets (mp : InodeMount) (s : InoState) : Handle.Op → Prop
  | .vget _ => s.core = none → ¬ (mp.ronly = true ∧ s.disk.gen = 0)
  | .update after | .reclaim after => ∀ ip, s.core = some ip → Arrived mp ip.din after
  | .valloc _ _ _ =>
      s.disk.gen ≠ 2 ^ 32 - 1 ∧ ¬ (mp.ronly = true ∧ s.disk.gen = 0)
        ∧ ∀ ip, s.core = some ip → Arrived mp ip.din s.disk
  | .setNlink _ | .inactive | .vptofh => True

section Steps

variable {mp : InodeMount} {ino : Nat} {s s' : InoState}

end Steps

/-! ### Looking a handle up -/

/-- The inode is in use and has a name. -/
def Live (s : InoState) : Prop := modeOf s ≠ 0 ∧ 0 < nlinkOf s

/-- `ffs_getcg` returns the group, and the block of the inode has been initialised. -/
def GroupOk (mp : InodeMount) (ino : Nat) (getcg : Except Errno Nat) : Prop :=
  mp.fs.magic = .ufs2 → ∃ initediblk, getcg = .ok initediblk ∧ ino % mp.fs.ipg < initediblk

section Lookup

variable {mp : InodeMount} {ino : Nat} {s : InoState} {fh : Ufid}

end Lookup

/-! ### Runs -/

/-- Nothing is in memory, and no handle has been made. -/
structure Mounted (mp : InodeMount) (s : InoState) : Prop where
  diskGen : s.disk.gen < 2 ^ 32
  diskLoads : Loads mp s.disk
  core : s.core = none
  handles : s.handles = []

/-- An update as it should be, in the sense of `UfsX.Proofs.Updated`, gets the dinode to
the device. -/
theorem arrived_of_updated {mp : InodeMount} {ip ip' : IncoreInode} {dev dev' : DevState}
    (h : Updated mp ip ip' dev dev') (hsynced : Synced ip) :
    Arrived mp ip.din (mp.vgetBlock dev' ip.number (mp.fs.inoToFsbo ip.number)) := by
  obtain ⟨ip₁, hload, hmode, hnlink, -, -, hgen, -, -⟩ := h.load
  unfold InodeMount.ffsLoadInode at hload
  simp only at hload
  split at hload
  case isTrue => cases hload
  case isFalse hok =>
      cases hload
      refine ⟨hmode.trans hsynced.mode, hnlink.trans hsynced.nlink, hgen.trans hsynced.gen, fun hmagic => ?_⟩
      by_contra hbad
      exact hok ⟨hmagic, by simpa using hbad⟩

/-! ### Two runs -/

end UfsX.Proofs.Handle
