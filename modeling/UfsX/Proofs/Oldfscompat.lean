import UfsX.Lib.Run
import UfsX.Proofs.Reload

/-!
# `UfsX.Proofs.Oldfscompat`: what an update of the superblock undoes

`ffs_oldfscompat_read` adjusts the superblock at mount, and `ffs_oldfscompat_write` takes the
adjustments back in the copy that `ffs_sbupdate` writes. Both look at `debug.bigcgs`, which may
have been set or cleared in between, and for an old inode format `um_savedmaxfilesize` is
taken from a superblock whose `fs_maxfilesize` has been replaced already.

`adjusted_of_run` says what every history keeps of the adjusted superblock. With it
`sbupdate_restores_iff` tells from the setting at mount, the setting now and the superblock on
disk whether an update writes what was there.
-/

set_option autoImplicit false

namespace UfsX.Proofs.Oldfscompat

open Relation
open UfsX.Lib UfsX.Compat UfsX.Ffs UfsX.Proofs.Superblock
open UfsX.Proofs.Reload (sanitize)

/-! ### Histories -/

/-- The kernel while the file system is mounted. -/
structure Kernel where
  /-- The superblock in core. -/
  fs : Sb
  /-- With `debug.bigcgs` as it is set now. -/
  ump : SbMount
  dev : Mem

/-- `ffs_oldfscompat_read` in `ffs_mountfs`, for the superblock `disk`. -/
def mounted (bigcgs : Bool) (devbsize : Nat) (disk : Sb) (dev : Mem) : Kernel :=
  let r := ffsOldfscompatRead bigcgs 0 disk disk.sblockloc
  ⟨r.1, ⟨devbsize, bigcgs, r.2⟩, dev⟩

/-- `ffs_sbupdate`, with the superblock in core as `ffs_sbput` leaves it. -/
def Kernel.sbupdate (k : Kernel) (csp : Option Mem) (now : Nat) : Option (Sb × Mem) :=
  ffsSbput .kernel (ffsUseBwrite k.ump k.fs.sblockloc) k.fs csp k.fs.sblockloc now k.dev

/-- The fields that only `ffs_oldfscompat_read` assigns. -/
structure SameSetup (fs fs' : Sb) : Prop where
  magic : fs'.magic = fs.magic
  cgsize : fs'.cgsize = fs.cgsize
  saveCgsize : fs'.saveCgsize = fs.saveCgsize
  maxfilesize : fs'.maxfilesize = fs.maxfilesize

inductive Step : Kernel → Kernel → Prop where
  /-- Somebody sets `debug.bigcgs`. -/
  | sysctl (k : Kernel) (bigcgs : Bool) : Step k { k with ump := { k.ump with bigcgs } }
  /-- The file system is used: the totals and much else change. -/
  | work (k : Kernel) (fs : Sb) (dev : Mem) (h : SameSetup k.fs fs) : Step k { k with fs, dev }
  | update (k : Kernel) (csp : Option Mem) (now : Nat) (fs : Sb) (dev : Mem) (h : k.sbupdate csp now = some (fs, dev)) :
      Step k { k with fs, dev }

/-! ### What is asked for -/

/-- A total of `fs_cstotal`, and of `fs_old_cstotal`. -/
def total (fs : Sb) (i : Nat) : Int := toI64 (fs.read64 (1008 + 8 * i))

def oldTotal (fs : Sb) (i : Nat) : Int := toI32 (fs.read32 (192 + 4 * i))

/-- What is written has the fields of the superblock that was on disk, and totals that agree. -/
structure Restored (disk written : Sb) : Prop where
  cgsize : written.cgsize = disk.cgsize
  saveCgsize : written.saveCgsize = disk.saveCgsize
  maxfilesize : written.maxfilesize = disk.maxfilesize
  totals : disk.magic = FS_UFS1_MAGIC → ∀ i, i < 4 → -2 ^ 31 ≤ total written i → total written i < 2 ^ 31 →
    oldTotal written i = total written i

/-- `debug.bigcgs` at mount and at the update, and the superblock on disk, are such that the
update can take everything back. -/
def Restorable (disk : Sb) (atMount now : Bool) : Prop :=
  (disk.magic = FS_UFS1_MAGIC → disk.oldInodefmt < FS_44INODEFMT → disk.maxfilesize = 2 ^ 31 - 1) ∧
    if atMount then
      if now then disk.saveCgsize = 0 else disk.cgsize = disk.bsize ∧ disk.saveCgsize = disk.bsize
    else if now then disk.cgsize = 0 ∧ disk.saveCgsize = 0
    else True

/-! ### Reading -/

section Read

variable (fs : Sb)

/-- What `widen` writes. -/
def widened : List Span :=
  [(860, 4), (1072, 8), (1080, 8), (1088, 8), (1096, 8), (1008, 8), (1016, 8), (1024, 8), (1032, 8)]

theorem agreeOff_widen : AgreeOff widened fs.widen fs := by
  have hset : ∀ a b c d e : Nat, AgreeOff widened
      (((((fs.setMaxbsize a).setTime b).setSize c).setDsize d).setCsaddr e) fs := fun a b c d e =>
    (Mem.agreeOff_write64 e (by decide)).trans ((Mem.agreeOff_write64 d (by decide)).trans
      ((Mem.agreeOff_write64 c (by decide)).trans ((Mem.agreeOff_write64 b (by decide)).trans
        (Mem.agreeOff_write32 a (by decide)))))
  have htotals : ∀ (g : Sb) (a b c d : Nat), AgreeOff widened
      (Mem.write64 (Mem.write64 (Mem.write64 (Mem.write64 g 1008 a) 1016 b) 1024 c) 1032 d) g := fun g a b c d =>
    (Mem.agreeOff_write64 d (by decide)).trans ((Mem.agreeOff_write64 c (by decide)).trans
      ((Mem.agreeOff_write64 b (by decide)).trans (Mem.agreeOff_write64 a (by decide))))
  unfold Sb.widen
  split
  case isTrue => exact (htotals _ _ _ _ _).trans (hset _ _ _ _ _)
  case isFalse => exact AgreeOff.refl _ _

/-- What `oldInodes` writes. -/
def oldInodesSpans : List Span := [(1328, 8), (1336, 8), (1344, 8)]

theorem agreeOff_oldInodes : AgreeOff oldInodesSpans fs.oldInodes fs := by
  unfold Sb.oldInodes
  split
  case isTrue =>
    exact (Mem.agreeOff_write64 _ (by decide)).trans ((Mem.agreeOff_write64 _ (by decide)).trans
      (Mem.agreeOff_write64 _ (by decide)))
  case isFalse => exact AgreeOff.refl _ _

/-- `fs_maxfilesize` when it is saved. -/
theorem maxfilesize_oldInodes : fs.oldInodes.maxfilesize
    = if fs.magic = FS_UFS1_MAGIC ∧ fs.oldInodefmt < FS_44INODEFMT then 2 ^ 31 - 1 else fs.maxfilesize := by
  unfold Sb.oldInodes
  split
  case isTrue =>
    have hoff : ∀ (g : Sb) (a b : Nat), AgreeOff [(1336, 8), (1344, 8)] ((g.setQbmask a).setQfmask b) g :=
      fun g a b => (Mem.agreeOff_write64 b (by decide)).trans (Mem.agreeOff_write64 a (by decide))
    have hset : (fs.setMaxfilesize (2 ^ 31 - 1)).maxfilesize = 2 ^ 31 - 1 := Mem.read64_write64 (by decide)
    exact ((hoff _ _ _).read64 (o := 1328) (by decide)).trans hset
  case isFalse => rfl

/-- The end of `ffs_oldfscompat_read`, for the two sizes. -/
theorem cgsize_sanitize (bigcgs : Bool) :
    (sanitize bigcgs fs).cgsize = (if bigcgs then fs.bsize else fs.cgsize) ∧
      (sanitize bigcgs fs).saveCgsize = (if bigcgs then fs.cgsize else fs.saveCgsize) := by
  have hfilesize : ∀ g : Sb, AgreeOff [(1196, 4), (1200, 4)]
      (if g.avgfilesize = 0 then g.setAvgfilesize AVFILESIZ else g) g := by
    intro g
    split
    · exact Mem.agreeOff_write32 _ (by decide)
    · exact AgreeOff.refl _ _
  have hfpdir : ∀ g : Sb, AgreeOff [(1196, 4), (1200, 4)]
      (if g.avgfpdir = 0 then g.setAvgfpdir AFPDIR else g) g := by
    intro g
    split
    · exact Mem.agreeOff_write32 _ (by decide)
    · exact AgreeOff.refl _ _
  unfold sanitize
  dsimp only
  generalize hg : (if (if fs.avgfilesize = 0 then fs.setAvgfilesize AVFILESIZ else fs).avgfpdir = 0
    then (if fs.avgfilesize = 0 then fs.setAvgfilesize AVFILESIZ else fs).setAvgfpdir AFPDIR
    else if fs.avgfilesize = 0 then fs.setAvgfilesize AVFILESIZ else fs) = g
  have hoff : AgreeOff [(1196, 4), (1200, 4)] g fs := hg ▸ (hfpdir _).trans (hfilesize fs)
  have hbsize : g.bsize = fs.bsize := hoff.read32 (by decide)
  have hcgsize : g.cgsize = fs.cgsize := hoff.read32 (by decide)
  have hsave : g.saveCgsize = fs.saveCgsize := hoff.read32 (by decide)
  cases bigcgs with
  | false => exact ⟨hcgsize, hsave⟩
  | true =>
      have hlast : AgreeOff [(160, 4)] ((g.setSaveCgsize g.cgsize).setCgsize g.bsize) (g.setSaveCgsize g.cgsize) :=
        Mem.agreeOff_write32 _ (by decide)
      have hkept : ((g.setSaveCgsize g.cgsize).setCgsize g.bsize).saveCgsize = (g.setSaveCgsize g.cgsize).saveCgsize :=
        hlast.read32 (by decide)
      have hset : (g.setSaveCgsize g.cgsize).saveCgsize = g.cgsize := Mem.read32_write32 (Mem.read32_lt ..)
      have hput : ((g.setSaveCgsize g.cgsize).setCgsize g.bsize).cgsize = g.bsize :=
        Mem.read32_write32 (Mem.read32_lt ..)
      exact ⟨hput.trans hbsize, hkept.trans (hset.trans hcgsize)⟩

/-- The superblock when `um_savedmaxfilesize` is taken from it. -/
def saved (loc : Nat) : Sb := (fs.moveFlags loc).widen.oldInodes

/-- The clamp of `fs_maxfilesize`. -/
def clamped : Sb :=
  let maxfilesize := (0x80000000 * signExtend fs.bsize + (2 ^ 64 - 1)) % 2 ^ 64
  if maxfilesize < fs.maxfilesize then fs.setMaxfilesize maxfilesize else fs

theorem agreeOff_clamped : AgreeOff [(1328, 8)] (clamped fs) fs := by
  unfold clamped
  dsimp only
  split
  · exact Mem.agreeOff_write64 _ (by decide)
  · exact AgreeOff.refl _ _

theorem agreeOff_saved (loc : Nat) : AgreeOff (Reload.moved ++ widened ++ oldInodesSpans) (saved fs loc) fs :=
  ((agreeOff_oldInodes _).mono (by decide)).trans (((agreeOff_widen _).mono (by decide)).trans
    ((Reload.agreeOff_moveFlags fs loc).mono (by decide)))

theorem magic_saved (loc : Nat) : (saved fs loc).magic = fs.magic := (agreeOff_saved fs loc).read32 (by decide)

theorem ffsOldfscompatRead_ufs1 (h : fs.magic = FS_UFS1_MAGIC) (bigcgs : Bool) (old loc : Nat) :
    ffsOldfscompatRead bigcgs old fs loc = (sanitize bigcgs (clamped (saved fs loc)), (saved fs loc).maxfilesize) := by
  have hmagic : (fs.moveFlags loc).widen.oldInodes.magic = FS_UFS1_MAGIC := (magic_saved fs loc).trans h
  unfold ffsOldfscompatRead sanitize clamped saved
  dsimp only
  rw [if_pos hmagic]

theorem ffsOldfscompatRead_other (h : fs.magic ≠ FS_UFS1_MAGIC) (bigcgs : Bool) (old loc : Nat) :
    ffsOldfscompatRead bigcgs old fs loc = (sanitize bigcgs (saved fs loc), old) := by
  have hmagic : (fs.moveFlags loc).widen.oldInodes.magic ≠ FS_UFS1_MAGIC :=
    fun hm => h ((magic_saved fs loc).symm.trans hm)
  unfold ffsOldfscompatRead
  dsimp only
  rw [if_neg hmagic]
  rfl

end Read

/-- What a mount makes of the superblock on disk. -/
structure Setup (bigcgs : Bool) (disk : Sb) (fs : Sb) (savedmaxfilesize : Nat) : Prop where
  magic : fs.magic = disk.magic
  cgsize : fs.cgsize = if bigcgs then disk.bsize else disk.cgsize
  saveCgsize : fs.saveCgsize = if bigcgs then disk.cgsize else disk.saveCgsize
  /-- `um_savedmaxfilesize` is the size after `fs_maxfilesize` has been set for old inodes. -/
  ufs1 : disk.magic = FS_UFS1_MAGIC →
    savedmaxfilesize = if disk.oldInodefmt < FS_44INODEFMT then 2 ^ 31 - 1 else disk.maxfilesize
  other : disk.magic ≠ FS_UFS1_MAGIC → fs.maxfilesize = disk.maxfilesize

theorem setup_mounted (bigcgs : Bool) (devbsize : Nat) (disk : Sb) (dev : Mem) :
    Setup bigcgs disk (mounted bigcgs devbsize disk dev).fs (mounted bigcgs devbsize disk dev).ump.savedmaxfilesize := by
  have hsan : ∀ g : Sb, AgreeOff Reload.sanitized (sanitize bigcgs g) g := Reload.agreeOff_sanitize bigcgs
  have hsaved := agreeOff_saved disk disk.sblockloc
  -- the sizes of the groups, once the superblock is the sanitized `g`
  have hsizes : ∀ g : Sb, g.bsize = disk.bsize → g.cgsize = disk.cgsize → g.saveCgsize = disk.saveCgsize →
      (sanitize bigcgs g).cgsize = (if bigcgs then disk.bsize else disk.cgsize) ∧
        (sanitize bigcgs g).saveCgsize = (if bigcgs then disk.cgsize else disk.saveCgsize) := by
    intro g hbsize hcgsize hsave
    have h := cgsize_sanitize g bigcgs
    rwa [hbsize, hcgsize, hsave] at h
  by_cases hmagic : disk.magic = FS_UFS1_MAGIC
  · have hclamp := agreeOff_clamped (saved disk disk.sblockloc)
    have hboth : AgreeOff (Reload.moved ++ widened ++ oldInodesSpans) (clamped (saved disk disk.sblockloc)) disk :=
      (hclamp.mono (by decide)).trans hsaved
    have hsize := hsizes (clamped (saved disk disk.sblockloc)) (hboth.read32 (by decide)) (hboth.read32 (by decide))
      (hboth.read32 (by decide))
    have hm : (sanitize bigcgs (clamped (saved disk disk.sblockloc))).magic = disk.magic :=
      ((hsan _).read32 (by decide)).trans (hboth.read32 (by decide))
    have hbefore : AgreeOff (Reload.moved ++ widened) (disk.moveFlags disk.sblockloc).widen disk :=
      ((agreeOff_widen _).mono (by decide)).trans ((Reload.agreeOff_moveFlags disk _).mono (by decide))
    have hfmt : (disk.moveFlags disk.sblockloc).widen.oldInodefmt = disk.oldInodefmt :=
      congrArg (fun n : Nat => toI32 n) (hbefore.read32 (o := 1324) (by decide))
    have hmagic' : (disk.moveFlags disk.sblockloc).widen.magic = FS_UFS1_MAGIC :=
      (hbefore.read32 (by decide)).trans hmagic
    have hmax : (disk.moveFlags disk.sblockloc).widen.maxfilesize = disk.maxfilesize := hbefore.read64 (by decide)
    have hsavedmax := maxfilesize_oldInodes (disk.moveFlags disk.sblockloc).widen
    rw [hfmt, hmax] at hsavedmax
    unfold mounted
    rw [ffsOldfscompatRead_ufs1 disk hmagic]
    refine ⟨hm, hsize.1, hsize.2, fun _ => ?_, fun hne => absurd hmagic hne⟩
    refine hsavedmax.trans ?_
    by_cases hold : disk.oldInodefmt < FS_44INODEFMT
    · rw [if_pos ⟨hmagic', hold⟩, if_pos hold]
    · rw [if_neg (fun h => hold h.2), if_neg hold]
  · have hsize := hsizes (saved disk disk.sblockloc) (hsaved.read32 (by decide)) (hsaved.read32 (by decide))
      (hsaved.read32 (by decide))
    have hm : (sanitize bigcgs (saved disk disk.sblockloc)).magic = disk.magic :=
      ((hsan _).read32 (by decide)).trans (hsaved.read32 (by decide))
    have hbefore : AgreeOff (Reload.moved ++ widened) (disk.moveFlags disk.sblockloc).widen disk :=
      ((agreeOff_widen _).mono (by decide)).trans ((Reload.agreeOff_moveFlags disk _).mono (by decide))
    have hmagic' : (disk.moveFlags disk.sblockloc).widen.magic = disk.magic := hbefore.read32 (by decide)
    have hmax : (disk.moveFlags disk.sblockloc).widen.maxfilesize = disk.maxfilesize := hbefore.read64 (by decide)
    have hold := maxfilesize_oldInodes (disk.moveFlags disk.sblockloc).widen
    rw [if_neg (fun h => hmagic (hmagic'.symm.trans h.1)), hmax] at hold
    have hkept : (sanitize bigcgs (saved disk disk.sblockloc)).maxfilesize = (saved disk disk.sblockloc).maxfilesize :=
      (hsan _).read64 (by decide)
    unfold mounted
    rw [ffsOldfscompatRead_other disk hmagic]
    exact ⟨hm, hsize.1, hsize.2, fun h => absurd h hmagic, fun _ => hkept.trans hold⟩

/-! ### Writing -/

section Write

variable (ump : SbMount) (fs : Sb)

/-- `ffs_oldfscompat_write` on UFS1, up to `debug.bigcgs`. -/
def narrowed (savedmaxfilesize : Nat) : Sb :=
  let fs := fs.setOldTime (fs.read64 1072 % 2 ^ 32)
  let fs : Sb := fs.write32 192 (fs.read64 1008 % 2 ^ 32)
  let fs : Sb := fs.write32 196 (fs.read64 1016 % 2 ^ 32)
  let fs : Sb := fs.write32 200 (fs.read64 1024 % 2 ^ 32)
  let fs : Sb := fs.write32 204 (fs.read64 1032 % 2 ^ 32)
  fs.setMaxfilesize savedmaxfilesize

/-- What it does for `debug.bigcgs`. -/
def takenBack (bigcgs : Bool) : Sb := if bigcgs then (fs.setCgsize fs.saveCgsize).setSaveCgsize 0 else fs

theorem ffsOldfscompatWrite_eq : ffsOldfscompatWrite ump fs
    = takenBack (if fs.magic = FS_UFS1_MAGIC then narrowed fs ump.savedmaxfilesize else fs) ump.bigcgs := rfl

def narrow : List Span := [(32, 4), (192, 4), (196, 4), (200, 4), (204, 4), (1328, 8)]

theorem agreeOff_narrowed (savedmaxfilesize : Nat) : AgreeOff narrow (narrowed fs savedmaxfilesize) fs :=
  (Mem.agreeOff_write64 _ (by decide)).trans ((Mem.agreeOff_write32 _ (by decide)).trans
    ((Mem.agreeOff_write32 _ (by decide)).trans ((Mem.agreeOff_write32 _ (by decide)).trans
      ((Mem.agreeOff_write32 _ (by decide)).trans (Mem.agreeOff_write32 _ (by decide))))))

/-- A total is copied after others have been. -/
theorem total_copied {m : Sb} {o o' : Nat} (h : AgreeOff narrow m fs) (hc : Clear narrow o' 8) :
    Mem.read32 (Mem.write32 m o (Mem.read64 m o' % 2 ^ 32)) o = Mem.read64 fs o' % 2 ^ 32 :=
  (Mem.read32_write32 (Nat.mod_lt _ (by decide))).trans (congrArg (· % 2 ^ 32) (h.read64 hc))

theorem total_narrowed (savedmaxfilesize : Nat) {i : Nat} (hi : i < 4) :
    Mem.read32 (narrowed fs savedmaxfilesize) (192 + 4 * i) = Mem.read64 fs (1008 + 8 * i) % 2 ^ 32 := by
  let m₀ : Sb := fs.setOldTime (fs.read64 1072 % 2 ^ 32)
  let m₁ : Sb := Mem.write32 m₀ 192 (Mem.read64 m₀ 1008 % 2 ^ 32)
  let m₂ : Sb := Mem.write32 m₁ 196 (Mem.read64 m₁ 1016 % 2 ^ 32)
  let m₃ : Sb := Mem.write32 m₂ 200 (Mem.read64 m₂ 1024 % 2 ^ 32)
  let m₄ : Sb := Mem.write32 m₃ 204 (Mem.read64 m₃ 1032 % 2 ^ 32)
  have h₀ : AgreeOff narrow m₀ fs := Mem.agreeOff_write32 _ (by decide)
  have h₁ : AgreeOff narrow m₁ fs := (Mem.agreeOff_write32 _ (by decide)).trans h₀
  have h₂ : AgreeOff narrow m₂ fs := (Mem.agreeOff_write32 _ (by decide)).trans h₁
  have h₃ : AgreeOff narrow m₃ fs := (Mem.agreeOff_write32 _ (by decide)).trans h₂
  -- what is written after total `i`
  have hlast : AgreeOff [(1328, 8)] (narrowed fs savedmaxfilesize) m₄ := Mem.agreeOff_write64 _ (by decide)
  have hfour : AgreeOff [(204, 4), (1328, 8)] (narrowed fs savedmaxfilesize) m₃ :=
    (hlast.mono (by decide)).trans (Mem.agreeOff_write32 _ (by decide))
  have hthree : AgreeOff [(200, 4), (204, 4), (1328, 8)] (narrowed fs savedmaxfilesize) m₂ :=
    (hfour.mono (by decide)).trans (Mem.agreeOff_write32 _ (by decide))
  have htwo : AgreeOff [(196, 4), (200, 4), (204, 4), (1328, 8)] (narrowed fs savedmaxfilesize) m₁ :=
    (hthree.mono (by decide)).trans (Mem.agreeOff_write32 _ (by decide))
  obtain rfl | rfl | rfl | rfl : i = 0 ∨ i = 1 ∨ i = 2 ∨ i = 3 := by omega
  · exact (htwo.read32 (by decide)).trans (total_copied fs h₀ (by decide))
  · exact (hthree.read32 (by decide)).trans (total_copied fs h₁ (by decide))
  · exact (hfour.read32 (by decide)).trans (total_copied fs h₂ (by decide))
  · exact (hlast.read32 (by decide)).trans (total_copied fs h₃ (by decide))

theorem agreeOff_takenBack (bigcgs : Bool) : AgreeOff [(160, 4), (1204, 4)] (takenBack fs bigcgs) fs := by
  unfold takenBack
  split
  · exact (Mem.agreeOff_write32 _ (by decide)).trans (Mem.agreeOff_write32 _ (by decide))
  · exact AgreeOff.refl _ _

theorem cgsize_takenBack (bigcgs : Bool) :
    (takenBack fs bigcgs).cgsize = (if bigcgs then fs.saveCgsize else fs.cgsize) ∧
      (takenBack fs bigcgs).saveCgsize = (if bigcgs then 0 else fs.saveCgsize) := by
  cases bigcgs with
  | false => exact ⟨rfl, rfl⟩
  | true =>
      have hlast : AgreeOff [(1204, 4)] ((fs.setCgsize fs.saveCgsize).setSaveCgsize 0) (fs.setCgsize fs.saveCgsize) :=
        Mem.agreeOff_write32 _ (by decide)
      have hkept : ((fs.setCgsize fs.saveCgsize).setSaveCgsize 0).cgsize = (fs.setCgsize fs.saveCgsize).cgsize :=
        hlast.read32 (by decide)
      have hset : (fs.setCgsize fs.saveCgsize).cgsize = fs.saveCgsize := Mem.read32_write32 (Mem.read32_lt ..)
      exact ⟨hkept.trans hset, Mem.read32_write32 (by decide)⟩

/-- What `ffs_sbput` and the correction of `fs_sblockloc` write before the compatibility
changes, and what `ffs_use_bwrite` writes after them. -/
def stamped : List Span := [(208, 1), (848, 8), (1000, 8), (1072, 8), (1304, 4)]

theorem agreeOff_correct : AgreeOff [(1000, 8)] fs.correct fs := by
  have hset : ∀ (g : Sb) (p : Prop) [Decidable p] (loc : Nat),
      AgreeOff [(1000, 8)] (if p then g.setSblockloc loc else g) g := by
    intro g p _ loc
    split
    · exact Mem.agreeOff_write64 _ (by decide)
    · exact AgreeOff.refl _ _
  unfold Sb.correct
  split
  · exact (hset _ _ _).trans (hset _ _ _)
  · exact AgreeOff.refl _ _

/-- The superblock that `ffs_sbput` hands to `ffs_use_bwrite`. -/
def hashed (now : Nat) : Sb := ((fs.setFmod 0).setTime now).setCkhash (ffsCalcSbhash ((fs.setFmod 0).setTime now))

theorem agreeOff_hashed (now : Nat) : AgreeOff stamped (hashed fs now) fs :=
  (Mem.agreeOff_write32 _ (by decide)).trans ((Mem.agreeOff_write64 _ (by decide)).trans
    (Mem.agreeOff_write8 _ (by decide)))

/-- The compatibility fields of what is written. -/
structure Written (written : Sb) : Prop where
  cgsize : written.cgsize = if ump.bigcgs then fs.saveCgsize else fs.cgsize
  saveCgsize : written.saveCgsize = if ump.bigcgs then 0 else fs.saveCgsize
  maxfilesize : written.maxfilesize
    = if fs.magic = FS_UFS1_MAGIC then ump.savedmaxfilesize else fs.maxfilesize
  totals : fs.magic = FS_UFS1_MAGIC → ∀ i, i < 4 →
    written.read32 (192 + 4 * i) = written.read64 (1008 + 8 * i) % 2 ^ 32

theorem written_kernelImage (hsaved : fs.magic = FS_UFS1_MAGIC → ump.savedmaxfilesize < 2 ^ 64) (now : Nat) :
    Written ump fs (kernelImage ump fs now) := by
  let g := (hashed fs now).correct
  let w := if g.magic = FS_UFS1_MAGIC then narrowed g ump.savedmaxfilesize else g
  have hbefore : AgreeOff stamped g fs :=
    ((agreeOff_correct _).mono (by decide)).trans (agreeOff_hashed fs now)
  have hnarrow : AgreeOff narrow w g := by
    show AgreeOff narrow (if g.magic = FS_UFS1_MAGIC then narrowed g ump.savedmaxfilesize else g) g
    split
    · exact agreeOff_narrowed g _
    · exact AgreeOff.refl _ _
  have hback : AgreeOff [(160, 4), (1204, 4)] (ffsOldfscompatWrite ump g) w := by
    rw [ffsOldfscompatWrite_eq]
    exact agreeOff_takenBack w ump.bigcgs
  have hafter : AgreeOff stamped (kernelImage ump fs now) (ffsOldfscompatWrite ump g) :=
    (Mem.agreeOff_write32 _ (by decide)).trans (Mem.agreeOff_write64 _ (by decide))
  have hmagic : g.magic = fs.magic := hbefore.read32 (by decide)
  have hsizes := cgsize_takenBack w ump.bigcgs
  have hcgsize : w.cgsize = fs.cgsize := (hnarrow.read32 (by decide)).trans (hbefore.read32 (by decide))
  have hsave : w.saveCgsize = fs.saveCgsize := (hnarrow.read32 (by decide)).trans (hbefore.read32 (by decide))
  rw [hcgsize, hsave] at hsizes
  have hend : AgreeOff (stamped ++ [(160, 4), (1204, 4)]) (kernelImage ump fs now) w :=
    (hafter.mono (by decide)).trans (hback.mono (by decide))
  refine ⟨(hafter.read32 (by decide)).trans hsizes.1, (hafter.read32 (by decide)).trans hsizes.2, ?_, ?_⟩
  · have hmax : (kernelImage ump fs now).maxfilesize = w.maxfilesize := hend.read64 (by decide)
    rw [hmax]
    by_cases h : fs.magic = FS_UFS1_MAGIC
    · have hw : w = narrowed g ump.savedmaxfilesize := if_pos (hmagic.trans h)
      rw [if_pos h, hw]
      exact Mem.read64_write64 (hsaved h)
    · have hw : w = g := if_neg fun hg => h (hmagic.symm.trans hg)
      rw [if_neg h, hw]
      exact hbefore.read64 (by decide)
  · intro h i hi
    have hw : w = narrowed g ump.savedmaxfilesize := if_pos (hmagic.trans h)
    have hclear : ∀ j, j < 4 → Clear (stamped ++ [(160, 4), (1204, 4)]) (192 + 4 * j) 4 ∧
        Clear (stamped ++ [(160, 4), (1204, 4)]) (1008 + 8 * j) 8 ∧ Clear narrow (1008 + 8 * j) 8 := by decide
    obtain ⟨hold, hwide, hwide'⟩ := hclear i hi
    rw [hend.read32 hold, hend.read64 hwide, hnarrow.read64 hwide', hw]
    exact total_narrowed g _ hi

end Write

/-! ### Runs -/

section Run

variable {bigcgs : Bool} {devbsize : Nat} {disk fs' : Sb} {dev dev' : Mem} {k k' : Kernel} {csp : Option Mem} {now : Nat}

/-- `ffs_sbput` writes the table, and then the superblock as it leaves it in core. -/
theorem ffsSbput_kernel (write : Writefunc) (fs : Sb) (csp : Option Mem) (loc now : Nat) (dev : Mem) :
    ffsSbput .kernel write fs csp loc now dev =
      (csp.elim (some dev) fun csp => putPieces write fs csp fs.pieces 0 dev).bind fun dev =>
        (write loc (hashed fs now) (hashed fs now).sbsize.toNat dev).bind fun dev => some (hashed fs now, dev) := by
  cases csp with
  | none => rfl
  | some csp => rfl

/-- The image goes to `fs_sblockloc`, and the superblock in core gets its time and hash. -/
theorem sbupdate_cases (h : k.sbupdate csp now = some (fs', dev')) :
    fs' = hashed k.fs now ∧ ∃ blk, k.ump.btodb k.fs.sblockloc = some blk ∧
      ∀ i, i < k.fs.sbsize.toNat → dev' (blk * DEV_BSIZE + i) = kernelImage k.ump k.fs now i := by
  unfold Kernel.sbupdate at h
  rw [ffsSbput_kernel] at h
  obtain ⟨dev₁, -, h⟩ := Option.bind_eq_some_iff.mp h
  obtain ⟨dev₂, hwrite, h⟩ := Option.bind_eq_some_iff.mp h
  obtain ⟨blk, hblk, hcopy⟩ := Option.bind_eq_some_iff.mp hwrite
  rw [if_neg (not_not.mpr rfl)] at hcopy
  injection hcopy with hcopy
  injection h with h
  injection h with hfs hdev
  refine ⟨hfs.symm, blk, hblk, fun i hi => ?_⟩
  have hsbsize : (hashed k.fs now).sbsize = k.fs.sbsize :=
    congrArg (fun n : Nat => toI32 n) ((agreeOff_hashed k.fs now).read32 (o := 104) (by decide))
  rw [← hdev, ← hcopy]
  show Mem.copy dev₁ (blk * DEV_BSIZE) (kernelImage k.ump k.fs now) 0 (hashed k.fs now).sbsize.toNat _ = _
  unfold Mem.copy
  rw [hsbsize, if_pos (by omega), Nat.add_sub_cancel_left, Nat.zero_add]

theorem sameSetup_hashed (fs : Sb) (now : Nat) : SameSetup fs (hashed fs now) where
  magic := (agreeOff_hashed fs now).read32 (by decide)
  cgsize := (agreeOff_hashed fs now).read32 (by decide)
  saveCgsize := (agreeOff_hashed fs now).read32 (by decide)
  maxfilesize := (agreeOff_hashed fs now).read64 (by decide)

theorem SameSetup.trans {fs fs' fs'' : Sb} (h : SameSetup fs fs') (h' : SameSetup fs' fs'') : SameSetup fs fs'' :=
  ⟨h'.magic.trans h.magic, h'.cgsize.trans h.cgsize, h'.saveCgsize.trans h.saveCgsize,
    h'.maxfilesize.trans h.maxfilesize⟩

/-- The adjusted fields are those of the mount, and `um_savedmaxfilesize` is. -/
def Adjusted (k₀ k : Kernel) : Prop := SameSetup k₀.fs k.fs ∧ k.ump.savedmaxfilesize = k₀.ump.savedmaxfilesize

theorem adjusted_step {k₀ : Kernel} (h : Adjusted k₀ k) (hstep : Step k k') : Adjusted k₀ k' := by
  cases hstep with
  | sysctl b => exact h
  | work fs dev hsame => exact ⟨h.1.trans hsame, h.2⟩
  | update csp now fs dev hup =>
      have hfs := (sbupdate_cases hup).1
      exact ⟨h.1.trans (hfs ▸ sameSetup_hashed k.fs now), h.2⟩

theorem adjusted_of_run {k₀ : Kernel} (hrun : ReflTransGen Step k₀ k) : Adjusted k₀ k :=
  invariant_of_run (Adjusted k₀) adjusted_step ⟨⟨rfl, rfl, rfl, rfl⟩, rfl⟩ hrun

/-- What is known of the superblock in core and of `um_savedmaxfilesize` after any history. -/
theorem setup_of_run (hrun : ReflTransGen Step (mounted bigcgs devbsize disk dev) k) :
    Setup bigcgs disk k.fs k.ump.savedmaxfilesize := by
  have hset := setup_mounted bigcgs devbsize disk dev
  obtain ⟨hsame, hsaved⟩ := adjusted_of_run hrun
  refine ⟨hsame.magic.trans hset.magic, hsame.cgsize.trans hset.cgsize, hsame.saveCgsize.trans hset.saveCgsize, ?_, ?_⟩
  · rw [hsaved]
    exact hset.ufs1
  · exact fun h => hsame.maxfilesize.trans (hset.other h)

/-- A total that fits in 32 bits survives the narrowing. -/
theorem toI32_of_fits {x : Nat} (hlo : -2 ^ 31 ≤ toI64 x) (hhi : toI64 x < 2 ^ 31) :
    toI32 ((x % 2 ^ 32 : Nat) : Int) = toI64 x := by
  unfold toI64 at hlo hhi ⊢
  unfold toI32
  rw [Int.bmod_def] at hlo hhi ⊢
  rw [Int.bmod_def]
  split at hlo <;> split <;> omega

theorem read64_lt (m : Mem) (o : Nat) : m.read64 o < 2 ^ 64 := by
  have hlow := Mem.read32_lt m o
  have hhigh := Mem.read32_lt m (o + 4)
  unfold Mem.read64
  omega

theorem Setup.savedmaxfilesize_lt {fs : Sb} {savedmaxfilesize : Nat} (h : Setup bigcgs disk fs savedmaxfilesize)
    (hmagic : fs.magic = FS_UFS1_MAGIC) : savedmaxfilesize < 2 ^ 64 := by
  rw [h.ufs1 (h.magic.symm.trans hmagic)]
  split
  · decide
  · exact read64_lt _ _

/-- The written fields, in terms of the superblock on disk. -/
theorem restored_iff (hset : Setup bigcgs disk k.fs k.ump.savedmaxfilesize) (now : Nat) :
    Restored disk (kernelImage k.ump k.fs now) ↔ Restorable disk bigcgs k.ump.bigcgs := by
  have hw := written_kernelImage k.ump k.fs hset.savedmaxfilesize_lt now
  have hcgsize := hw.cgsize
  have hsave := hw.saveCgsize
  have hmax := hw.maxfilesize
  rw [hset.cgsize, hset.saveCgsize] at hcgsize
  rw [hset.saveCgsize] at hsave
  rw [hset.magic] at hmax
  have htotals : disk.magic = FS_UFS1_MAGIC → ∀ i, i < 4 → -2 ^ 31 ≤ total (kernelImage k.ump k.fs now) i →
      total (kernelImage k.ump k.fs now) i < 2 ^ 31 →
      oldTotal (kernelImage k.ump k.fs now) i = total (kernelImage k.ump k.fs now) i := by
    intro hmagic i hi hlo hhi
    unfold oldTotal
    rw [hw.totals (hset.magic.trans hmagic) i hi]
    exact toI32_of_fits hlo hhi
  -- the largest size comes back unless it was replaced before it was saved
  have hsize : (kernelImage k.ump k.fs now).maxfilesize = disk.maxfilesize ↔
      (disk.magic = FS_UFS1_MAGIC → disk.oldInodefmt < FS_44INODEFMT → disk.maxfilesize = 2 ^ 31 - 1) := by
    rw [hmax]
    by_cases hmagic : disk.magic = FS_UFS1_MAGIC
    · rw [if_pos hmagic, hset.ufs1 hmagic]
      by_cases hold : disk.oldInodefmt < FS_44INODEFMT
      · rw [if_pos hold]
        exact ⟨fun h _ _ => h.symm, fun h => (h hmagic hold).symm⟩
      · rw [if_neg hold]
        exact ⟨fun _ _ h => absurd h hold, fun _ => rfl⟩
    · rw [if_neg hmagic]
      exact ⟨fun _ h => absurd h hmagic, fun _ => hset.other hmagic⟩
  -- the sizes of the groups, for each setting at mount and now
  have hsizes : ((kernelImage k.ump k.fs now).cgsize = disk.cgsize ∧
      (kernelImage k.ump k.fs now).saveCgsize = disk.saveCgsize) ↔
      (if bigcgs then
        if k.ump.bigcgs then disk.saveCgsize = 0 else disk.cgsize = disk.bsize ∧ disk.saveCgsize = disk.bsize
      else if k.ump.bigcgs then disk.cgsize = 0 ∧ disk.saveCgsize = 0
      else True) := by
    rw [hcgsize, hsave]
    cases bigcgs with
    | false =>
        cases k.ump.bigcgs with
        | false => simp
        | true =>
            show disk.saveCgsize = disk.cgsize ∧ 0 = disk.saveCgsize ↔ disk.cgsize = 0 ∧ disk.saveCgsize = 0
            omega
    | true =>
        cases k.ump.bigcgs with
        | false =>
            show disk.bsize = disk.cgsize ∧ disk.cgsize = disk.saveCgsize
              ↔ disk.cgsize = disk.bsize ∧ disk.saveCgsize = disk.bsize
            omega
        | true =>
            show disk.cgsize = disk.cgsize ∧ 0 = disk.saveCgsize ↔ disk.saveCgsize = 0
            omega
  constructor
  · intro h
    exact ⟨hsize.mp h.maxfilesize, hsizes.mp ⟨h.cgsize, h.saveCgsize⟩⟩
  · rintro ⟨hone, htwo⟩
    have h := hsizes.mpr htwo
    exact ⟨h.1, h.2, hsize.mpr hone, htotals⟩

/-- After every history an update stores its image of the superblock at `fs_sblockloc`. The
image has the fields that were on disk, and the superblock in core keeps the adjusted ones, if
and only if the settings of `debug.bigcgs` and the superblock on disk allow it. -/
theorem sbupdate_restores_iff (hrun : ReflTransGen Step (mounted bigcgs devbsize disk dev) k)
    (h : k.sbupdate csp now = some (fs', dev')) :
    (∃ blk, k.ump.btodb k.fs.sblockloc = some blk ∧
        ∀ i, i < k.fs.sbsize.toNat → dev' (blk * DEV_BSIZE + i) = kernelImage k.ump k.fs now i) ∧
      (Restored disk (kernelImage k.ump k.fs now) ∧ SameSetup (mounted bigcgs devbsize disk dev).fs fs' ↔
        Restorable disk bigcgs k.ump.bigcgs) := by
  obtain ⟨hfs, hstored⟩ := sbupdate_cases h
  have hsame : SameSetup (mounted bigcgs devbsize disk dev).fs fs' :=
    (adjusted_of_run hrun).1.trans (hfs ▸ sameSetup_hashed k.fs now)
  refine ⟨hstored, ?_⟩
  rw [← restored_iff (setup_of_run hrun) now]
  exact ⟨fun hboth => hboth.1, fun hres => ⟨hres, hsame⟩⟩

end Run

/-! ### `debug.bigcgs` set after the mount -/

/-- With a block size of the device an update of the superblock alone does not fail. -/
theorem sbupdate_none {k : Kernel} (h : k.ump.devbsize ≠ 0) (now : Nat) :
    ∃ fs' dev', k.sbupdate none now = some (fs', dev') := by
  have hblk : k.ump.btodb k.fs.sblockloc = some (btodb k.fs.sblockloc k.ump.devbsize).toNat := if_neg h
  refine ⟨hashed k.fs now, k.dev.copy ((btodb k.fs.sblockloc k.ump.devbsize).toNat * DEV_BSIZE)
    (kernelImage k.ump k.fs now) 0 (hashed k.fs now).sbsize.toNat, ?_⟩
  unfold Kernel.sbupdate
  rw [ffsSbput_kernel, Option.elim_none, Option.bind_some]
  unfold ffsUseBwrite
  rw [hblk, Option.bind_eq_bind, Option.bind_some, if_neg (not_not.mpr rfl), Option.bind_some]
  rfl

/-- A superblock of UFS2 with groups of `cgsize` bytes in blocks of 8192. -/
def smallDisk (cgsize : Nat) : Sb :=
  let zero : Sb := fun _ => 0
  (((zero.write32 48 8192).write32 104 1376).write32 1372 FS_UFS2_MAGIC).write32 160 cgsize

/-- The hypotheses are met by the second update after the mount. -/
theorem sbupdate_restores_second : ∃ k fs' dev', TransGen Step (mounted false 512 (smallDisk 4096) fun _ => 0) k ∧
    k.sbupdate none 9 = some (fs', dev') ∧ Restored (smallDisk 4096) (kernelImage k.ump k.fs 9) := by
  let k₀ := mounted false 512 (smallDisk 4096) fun _ => 0
  have hdev : k₀.ump.devbsize ≠ 0 := by decide
  obtain ⟨fs₁, dev₁, h₁⟩ := sbupdate_none (k := k₀) hdev 7
  obtain ⟨fs₂, dev₂, h₂⟩ := sbupdate_none (k := { k₀ with fs := fs₁, dev := dev₁ }) hdev 9
  have hrun : TransGen Step k₀ { k₀ with fs := fs₁, dev := dev₁ } := .single (.update k₀ none 7 fs₁ dev₁ h₁)
  have hother : (smallDisk 4096).magic ≠ FS_UFS1_MAGIC := by decide
  have hrestores := (sbupdate_restores_iff hrun.to_reflTransGen h₂).2.mpr ⟨fun hm => absurd hm hother, trivial⟩
  exact ⟨_, fs₂, dev₂, hrun, h₂, hrestores.1⟩

/-- Once `debug.bigcgs` is set, an update writes `fs_save_cgsize`, which nobody has filled in,
as the size of the groups. -/
theorem not_sbupdate_restores :
    ¬ ∀ (bigcgs : Bool) (devbsize : Nat) (disk : Sb) (dev : Mem) (k : Kernel) (csp : Option Mem) (now : Nat) (fs' : Sb)
      (dev' : Mem), disk.magic = FS_UFS1_MAGIC ∨ disk.magic = FS_UFS2_MAGIC →
        ReflTransGen Step (mounted bigcgs devbsize disk dev) k → k.sbupdate csp now = some (fs', dev') →
        Restored disk (kernelImage k.ump k.fs now) ∧ SameSetup (mounted bigcgs devbsize disk dev).fs fs' := by
  intro hall
  let k := mounted false 512 (smallDisk 4096) fun _ => 0
  let k' : Kernel := { k with ump := { k.ump with bigcgs := true } }
  have hrun : ReflTransGen Step k k' := .single (.sysctl k true)
  obtain ⟨fs', dev', h⟩ := sbupdate_none (k := k') (by decide) 7
  have hmagic : (smallDisk 4096).magic = FS_UFS2_MAGIC := by decide
  have hres := (hall false 512 (smallDisk 4096) (fun _ => 0) k' none 7 fs' dev' (.inr hmagic) hrun h).1
  have hcond := ((restored_iff (setup_of_run hrun) 7).mp hres).2
  exact absurd hcond.1 (by decide)

end UfsX.Proofs.Oldfscompat
