import UfsX.Proofs.Mountfs
import UfsX.Ffs.Reload

/-!
# `UfsX.Proofs.Reload`: a reload against a fresh mount

Both put the superblock of the disk through `ffs_oldfscompat_read`, so that they agree
except in a few fields (`sameOff_fresh`); `steady_iff` says when they agree in these too.
The tables are copies of the same pieces, read by two routes (`Mem.fill_eq_iff`), and
`reloadVnodes_fresh` follows the inodes. `ffsReload_meets` puts this together.
-/

set_option autoImplicit false

namespace UfsX.Proofs.Reload

open UfsX.Lib (Mem Heap AgreeOff AgreeOn SameBytes Span Outside Clear)
open UfsX.Compat (DEV_BSIZE btodb)
open UfsX.Ffs
open UfsX.Ffs.Mountfs (markUnclean clearPending gjournal ffsMountfs Request)
open UfsX.Ffs.Reload
open UfsX.Proofs.Superblock (SameOff agreeOff_mask)
open UfsX.Proofs.Mountfs (mounted agreeOff_setFsmnt)

variable {τ : Type*} {c : Call} {s : State τ}

/-! ### What is asked for -/

/-- The mount that would be made afresh from the disk as it is now. -/
def fresh (c : Call) : Request := { c.mount with readErr := fun _ => 0, devblocksize := DEV_BSIZE, rdonly := true }

/-- All but the pointer `fs_si`. -/
def SameSb (fs fs' : Sb) : Prop := SameOff [(848, 8)] fs fs'

/-- A mount that is as if made afresh, with the superblock `fs` and the table `csp`. -/
structure FreshLike (c : Call) (fs : Sb) (csp : Mem) (t : State τ) : Prop where
  sb : SameSb t.fs fs
  table : AgreeOn t.summary.csp csp 0 (tableSize fs)
  filled : tableSize fs ≤ t.summary.filled
  maxcluster : t.summary.maxcluster = sbgetMaxcluster fs
  contigdirs : t.summary.contigdirs = sbgetContigdirs fs
  inodes : ∀ v ∈ t.vnodes, VgetBuilds c.mount.dev fs v.ip

/-- The table is read as a whole, and the arrays behind it are there. -/
def Complete (t : State τ) : Prop :=
  tableSize t.fs ≤ t.summary.filled ∧ t.summary.contigdirs = sbgetContigdirs t.fs

/-- What a call from `s` returns, and what it leaves. -/
def Meets [SysParam] (c : Call) (s : State τ) (r : Nat × State τ) : Prop :=
  if r.1 = 0 then
    ∃ (m : Mountfs.State Unit) (loc : Nat) (fs : Sb), ffsMountfs (fresh c) = .ret 0 m ∧ m.fs = some (loc, fs) ∧
      FreshLike c fs m.csp r.2
  else (r.2.fs = s.fs ∧ r.2.summary = s.summary) ∨ Complete r.2

/-- A file system that is mounted for reading. -/
structure MountedRo (c : Call) (s : State τ) : Prop where
  rdonly : c.mount.rdonly = true
  sblockloc : s.fs.sblockloc = SBLOCK_UFS2
  sbsize : sizeofFs ≤ s.fs.sbsize.toNat
  ronly : s.fs 210 = 1
  contigdirs : ∃ dirs, s.summary.contigdirs = .to dirs

/-! ### When it holds -/

/-- The superblock on the disk. -/
def raw (c : Call) : Sb := bread c.mount.dev (btodb SBLOCK_UFS2 DEV_BSIZE)

/-- What `readsuper` makes of it, if it accepts it. -/
def accepted [SysParam] (c : Call) : Option Sb :=
  match readsuper .kernel c.mount.dev SBLOCK_UFS2 false (!c.mount.rootfs) with
  | .ok g => some g
  | .ignored g => some g
  | _ => none

/-- `readsuper` and `ffs_mountfs` find nothing to correct in the superblock. `fs_flags` are
only looked at if they are at their new place. -/
structure Steady (c : Call) (g : Sb) : Prop where
  flags : (raw c).oldFlags &&& FS_FLAGS_UPDATED ≠ 0 → (raw c).flags = (markUnclean g).flags
  metackhash : (raw c).metackhash = g.metackhash
  sblockactualloc : (raw c).sblockactualloc = g.sblockactualloc
  fmod : raw c 208 = g 208
  fsmnt : AgreeOn (raw c) ((raw c).setFsmnt c.mount.mntonname) 212 680

/-- Every inode can be loaded and has a generation number, up to the first that cannot be
read. That one and all that come after it are still what is on the disk. -/
def InodesOk (c : Call) (fs : Sb) (fsfail : Bool) : List Vnode → Prop
  | [] => True
  | v :: vs =>
      let bp := bread c.mount.dev (fs.inodeBn v.ip.number)
      if v.recycled = true then InodesOk c fs fsfail vs
      else if c.readErr (fs.inodeBn v.ip.number) ≠ 0 ∨ ffsLoadInode fsfail fs bp v.ip.number = none then
        ∀ w ∈ v :: vs, VgetBuilds c.mount.dev fs w.ip
      else (∃ ip, ffsLoadInode false fs bp v.ip.number = some ip ∧ ip.gen ≠ 0) ∧ InodesOk c fs fsfail vs

/-- What else a reload that returns 0 needs. -/
structure Faithful (c : Call) (s : State τ) (g : Sb) : Prop where
  gjournal : gjournal (clearPending (markUnclean g)) = false
  reads : ∀ i ∈ (raw c).pieces, c.readErr (pieceBlk (raw c) i) = 0
  steady : Steady c g
  /-- The two routes to the summary table lead to the same bytes. -/
  table : ∀ i ∈ (raw c).pieces, SameBytes (bread c.mount.dev (pieceBlk (raw c) i)) 0
    (readfunc .kernel c.mount.dev ((raw c).pieceLoc i)) 0 ((raw c).pieceSize i)
  maxcluster : 0 < (raw c).contigsumsize ∨ s.summary.maxcluster = .null
  inodes : InodesOk c g s.fsfail s.vnodes

/-- The superblock cannot be read, or is refused; or a fresh mount takes it and all the rest. -/
def ReloadOk [SysParam] (c : Call) (s : State τ) : Prop :=
  c.readErr (btodb SBLOCK_UFS2 DEV_BSIZE) ≠ 0 ∨ ¬ Plausible (raw c) ∨ ∃ g, accepted c = some g ∧ Faithful c s g

/-! ### Superblocks that agree in part -/

section Same

variable {rs : List Span} {fs fs' : Sb} {o : Nat}

theorem sameOff_write32 (h : SameOff rs fs fs') (v : Nat) : SameOff rs (fs.write32 o v) (fs'.write32 o v) := by
  intro k hk hout
  unfold Mem.write32
  split
  · rfl
  · exact h k hk hout

theorem sameOff_write64 (h : SameOff rs fs fs') (v : Nat) : SameOff rs (fs.write64 o v) (fs'.write64 o v) := by
  intro k hk hout
  unfold Mem.write64
  split
  · rfl
  · exact h k hk hout

theorem sameOff_write8 (h : SameOff rs fs fs') (v : UInt8) : SameOff rs (fs.write8 o v) (fs'.write8 o v) := by
  intro k hk hout
  unfold Mem.write8
  split
  · rfl
  · exact h k hk hout

end Same

/-! ### `ffs_oldfscompat_read` on UFS2 -/

/-- The end of `ffs_oldfscompat_read`. -/
def sanitize (bigcgs : Bool) (fs : Sb) : Sb :=
  let fs := if fs.avgfilesize = 0 then fs.setAvgfilesize AVFILESIZ else fs
  let fs := if fs.avgfpdir = 0 then fs.setAvgfpdir AFPDIR else fs
  if bigcgs then (fs.setSaveCgsize fs.cgsize).setCgsize fs.bsize else fs

/-- What `moveFlags` writes. -/
def moved : List Span := [(211, 1), (1000, 8), (1312, 4)]

/-- What `sanitize` writes. -/
def sanitized : List Span := [(160, 4), (1196, 4), (1200, 4), (1204, 4)]

theorem agreeOff_moveFlags (fs : Sb) (loc : Nat) : AgreeOff moved (fs.moveFlags loc) fs := by
  unfold Sb.moveFlags
  split
  case isTrue =>
    have hflags : AgreeOff moved (fs.setFlags fs.oldFlags) fs := Mem.agreeOff_write32 _ (by decide)
    have hold : AgreeOff moved ((fs.setFlags fs.oldFlags).setOldFlags
        ((fs.setFlags fs.oldFlags).oldFlags ||| FS_FLAGS_UPDATED)) (fs.setFlags fs.oldFlags) :=
      Mem.agreeOff_write8 _ (by decide)
    exact (Mem.agreeOff_write64 loc (by decide)).trans (hold.trans hflags)
  case isFalse => exact AgreeOff.refl _ _

theorem agreeOff_sanitize (bigcgs : Bool) (fs : Sb) : AgreeOff sanitized (sanitize bigcgs fs) fs := by
  have hfilesize : ∀ fs : Sb, AgreeOff sanitized (if fs.avgfilesize = 0 then fs.setAvgfilesize AVFILESIZ else fs) fs := by
    intro fs
    split
    · exact Mem.agreeOff_write32 _ (by decide)
    · exact AgreeOff.refl _ _
  have hfpdir : ∀ fs : Sb, AgreeOff sanitized (if fs.avgfpdir = 0 then fs.setAvgfpdir AFPDIR else fs) fs := by
    intro fs
    split
    · exact Mem.agreeOff_write32 _ (by decide)
    · exact AgreeOff.refl _ _
  have hcgs : ∀ fs : Sb, AgreeOff sanitized
      (if bigcgs then (fs.setSaveCgsize fs.cgsize).setCgsize fs.bsize else fs) fs := by
    intro fs
    split
    · have hsave : AgreeOff sanitized (fs.setSaveCgsize fs.cgsize) fs := Mem.agreeOff_write32 _ (by decide)
      exact (Mem.agreeOff_write32 _ (by decide)).trans hsave
    · exact AgreeOff.refl _ _
  exact (hcgs _).trans ((hfpdir _).trans (hfilesize fs))

theorem magic_moveFlags (fs : Sb) (loc : Nat) : (fs.moveFlags loc).magic = fs.magic :=
  (agreeOff_moveFlags fs loc).read32 (o := 1372) (by decide)

/-- A superblock of UFS2 gets its flags moved, and some defaults. -/
theorem ffsOldfscompatRead_ufs2 {fs : Sb} (h : fs.magic = FS_UFS2_MAGIC) (bigcgs : Bool) (saved loc : Nat) :
    ffsOldfscompatRead bigcgs saved fs loc = (sanitize bigcgs (fs.moveFlags loc), saved) := by
  have hne : (fs.moveFlags loc).magic ≠ FS_UFS1_MAGIC := by
    rw [magic_moveFlags, h]
    decide
  have hwiden : (fs.moveFlags loc).widen = fs.moveFlags loc := by
    unfold Sb.widen
    rw [if_neg (fun hw => hne hw.1)]
  have hold : (fs.moveFlags loc).oldInodes = fs.moveFlags loc := by
    unfold Sb.oldInodes
    rw [if_neg (fun hw => hne hw.1)]
  unfold ffsOldfscompatRead
  dsimp only
  rw [hwiden, hold, if_neg hne]
  rfl

/-- Where the flags end up. -/
theorem flags_moveFlags (fs : Sb) (loc : Nat) :
    (fs.moveFlags loc).flags = if fs.oldFlags &&& FS_FLAGS_UPDATED = 0 then fs.oldFlags else fs.flags := by
  unfold Sb.moveFlags
  split
  case isTrue =>
    have hlt : fs.oldFlags < 4294967296 := (fs 211).toNat_lt.trans (by decide)
    have hset : (fs.setFlags fs.oldFlags).flags = fs.oldFlags := Mem.read32_write32 hlt
    have hoff : AgreeOff [(211, 1), (1000, 8)] (((fs.setFlags fs.oldFlags).setOldFlags
        ((fs.setFlags fs.oldFlags).oldFlags ||| FS_FLAGS_UPDATED)).setSblockloc loc) (fs.setFlags fs.oldFlags) :=
      (Mem.agreeOff_write64 loc (by decide)).trans (Mem.agreeOff_write8 _ (by decide))
    exact (hoff.read32 (o := 1312) (by decide)).trans hset
  case isFalse => rfl

section Congr

variable {rs : List Span} {fs fs' : Sb}

theorem sameOff_moveFlags (h : SameOff rs fs fs') (hold : Clear rs 211 1) (loc : Nat) :
    SameOff rs (fs.moveFlags loc) (fs'.moveFlags loc) := by
  have heq : fs.oldFlags = fs'.oldFlags := congrArg UInt8.toNat (h.byte (by decide) hold)
  have hset : SameOff rs (fs.setFlags fs.oldFlags) (fs'.setFlags fs'.oldFlags) := by
    rw [heq]
    exact sameOff_write32 h _
  have hset' : (fs.setFlags fs.oldFlags).oldFlags = (fs'.setFlags fs'.oldFlags).oldFlags :=
    congrArg UInt8.toNat (hset.byte (by decide) hold)
  unfold Sb.moveFlags
  rw [heq]
  rw [heq] at hset hset'
  split
  · dsimp only
    rw [hset']
    exact sameOff_write64 (sameOff_write8 hset _) _
  · exact h

theorem sameOff_sanitize (h : SameOff rs fs fs') (bigcgs : Bool)
    (hc : Clear rs 48 4 ∧ Clear rs 160 4 ∧ Clear rs 1196 4 ∧ Clear rs 1200 4) :
    SameOff rs (sanitize bigcgs fs) (sanitize bigcgs fs') := by
  obtain ⟨hbsize, hcgsize, hfilesize, hfpdir⟩ := hc
  have h₁ : SameOff rs (if fs.avgfilesize = 0 then fs.setAvgfilesize AVFILESIZ else fs)
      (if fs'.avgfilesize = 0 then fs'.setAvgfilesize AVFILESIZ else fs') := by
    have heq : fs.avgfilesize = fs'.avgfilesize := h.read32 (by decide) hfilesize
    rw [heq]
    split
    · exact sameOff_write32 h _
    · exact h
  -- each correction looks at a field that the two superblocks share
  have h₂ : ∀ {fs fs' : Sb}, SameOff rs fs fs' → SameOff rs (if fs.avgfpdir = 0 then fs.setAvgfpdir AFPDIR else fs)
      (if fs'.avgfpdir = 0 then fs'.setAvgfpdir AFPDIR else fs') := by
    intro fs fs' h
    have heq : fs.avgfpdir = fs'.avgfpdir := h.read32 (by decide) hfpdir
    rw [heq]
    split
    · exact sameOff_write32 h _
    · exact h
  have h₃ : ∀ {fs fs' : Sb}, SameOff rs fs fs' →
      SameOff rs (if bigcgs then (fs.setSaveCgsize fs.cgsize).setCgsize fs.bsize else fs)
        (if bigcgs then (fs'.setSaveCgsize fs'.cgsize).setCgsize fs'.bsize else fs') := by
    intro fs fs' h
    split
    · have heq : fs.cgsize = fs'.cgsize := h.read32 (by decide) hcgsize
      rw [heq]
      have hsave : SameOff rs (fs.setSaveCgsize fs'.cgsize) (fs'.setSaveCgsize fs'.cgsize) := sameOff_write32 h _
      have heq' : (fs.bsize) = fs'.bsize := h.read32 (by decide) hbsize
      rw [heq']
      exact sameOff_write32 hsave _
    · exact h
  exact h₃ (h₂ h₁)

end Congr

/-! ### The superblock on the disk -/

theorem raw_eq (c : Call) : raw c = readfunc .kernel c.mount.dev SBLOCK_UFS2 := by
  rw [Superblock.readfunc_eq .kernel c.mount.dev (by decide) (by decide)]
  rfl

/-- What `readsuper` may change. -/
def readsuperSpans : List Span := [(208, 1), (848, 8), (992, 8), (1308, 4), (1312, 4)]

/-- Only a superblock of UFS2 is accepted. -/
theorem accepted_spec [SysParam] {g : Sb} (h : accepted c = some g) :
    (raw c).magic = FS_UFS2_MAGIC ∧ (raw c).sblockloc = SBLOCK_UFS2 ∧ AgreeOff readsuperSpans g (raw c) := by
  -- the check of the hash goes over a copy with the hash masked
  have hmask : AgreeOff readsuperSpans (raw c).mask (raw c) := (agreeOff_mask (raw c)).mono (by decide)
  have hread : ∀ {fs : Sb}, (accepted c = some fs →
      Acceptable (raw c) SBLOCK_UFS2 false ∧ AgreeOff readsuperSpans fs (raw c)) := by
    intro fs hfs
    unfold accepted readsuper at hfs
    rw [← raw_eq] at hfs
    dsimp only at hfs
    by_cases hbad : (raw c).magic = FS_BAD_MAGIC
    · rw [if_pos hbad] at hfs
      cases hfs
    rw [if_neg hbad] at hfs
    by_cases hacc : Acceptable (raw c) SBLOCK_UFS2 false
    · refine ⟨hacc, ?_⟩
      rw [if_pos hacc] at hfs
      by_cases hhash : (raw c).mask.ckhash ≠ ffsCalcSbhash (raw c).mask
      · rw [if_pos hhash] at hfs
        split at hfs
        · rename_i heq
          split at heq <;> cases heq
        · rename_i heq
          split at heq
          · cases heq
          · injection heq with heq
            obtain rfl := Option.some.inj hfs
            subst heq
            exact (Mem.agreeOff_write8 _ (by decide)).trans ((Mem.agreeOff_write32 _ (by decide)).trans hmask)
        · cases hfs
      · rw [if_neg hhash] at hfs
        obtain rfl := Option.some.inj hfs
        exact (Mem.agreeOff_write64 _ (by decide)).trans ((Mem.agreeOff_write64 _ (by decide)).trans hmask)
    · rw [if_neg hacc] at hfs
      cases hfs
  obtain ⟨hacc, hagree⟩ := hread h
  -- a superblock of UFS1 would have to start before `SBLOCK_UFS2`
  rcases hacc.1 with ⟨-, hno | hle⟩ | ⟨hmagic, hno | hloc⟩
  · cases hno
  · exact absurd hle (by decide)
  · cases hno
  · exact ⟨hmagic, hloc.symm, hagree⟩

/-! ### The two superblocks -/

/-- The superblock of the reload, before `ffs_oldfscompat_read`. -/
def copied (c : Call) (s : State τ) : Sb :=
  s.fs.copy 0 (((raw c).setSi s.fs.si).write8 210 (s.fs 210)) 0 s.fs.sbsize.toNat

theorem sameOff_copied (hs : sizeofFs ≤ s.fs.sbsize.toNat) : SameOff [(210, 1), (848, 8)] (copied c s) (raw c) := by
  intro k hk hout
  have hsi : AgreeOff [(210, 1), (848, 8)] (((raw c).setSi s.fs.si).write8 210 (s.fs 210)) (raw c) :=
    (Mem.agreeOff_write8 _ (by decide)).trans (Mem.agreeOff_write64 _ (by decide))
  unfold copied Mem.copy
  rw [if_pos (by omega), Nat.zero_add, Nat.sub_zero]
  exact hsi k hout

theorem ronly_copied (hs : sizeofFs ≤ s.fs.sbsize.toNat) : copied c s 210 = s.fs 210 := by
  have hlt : 210 < s.fs.sbsize.toNat := Nat.lt_of_lt_of_le (by decide) hs
  unfold copied Mem.copy Mem.write8
  rw [if_pos (by omega), if_pos rfl]

/-- Step 2 of the reload, with a superblock of UFS2. -/
theorem newSb_ufs2 (hm : MountedRo c s) (hmagic : (raw c).magic = FS_UFS2_MAGIC) :
    newSb c s (raw c) = (clearPending (sanitize c.mount.bigcgs ((copied c s).moveFlags SBLOCK_UFS2)),
      s.savedmaxfilesize) := by
  have hcopied : (copied c s).magic = FS_UFS2_MAGIC :=
    ((sameOff_copied hm.sbsize).read32 (o := 1372) (by decide) (by decide)).trans hmagic
  have hcompat := ffsOldfscompatRead_ufs2 hcopied c.mount.bigcgs s.savedmaxfilesize SBLOCK_UFS2
  rw [newSb, hm.sblockloc, ← copied, hcompat]

theorem agreeOff_clearPending (fs : Sb) : AgreeOff [(1104, 8), (1112, 4)] (clearPending fs) fs := by
  unfold Mountfs.clearPending
  split
  · exact (Mem.agreeOff_write32 _ (by decide)).trans (Mem.agreeOff_write64 _ (by decide))
  · exact AgreeOff.refl _ _

theorem agreeOff_markUnclean (fs : Sb) : AgreeOff [(1312, 4)] (markUnclean fs) fs := by
  have hset : ∀ (fs : Sb) (v : Nat), AgreeOff [(1312, 4)] (fs.setFlags v) fs :=
    fun fs v => Mem.agreeOff_write32 v (by decide)
  unfold Mountfs.markUnclean
  dsimp only
  split
  · exact (hset _ _).trans (hset _ _)
  · exact hset _ _

/-- The superblock after a reload. -/
def reloaded (c : Call) (s : State τ) : Sb :=
  clearPending (sanitize c.mount.bigcgs ((copied c s).moveFlags SBLOCK_UFS2))

/-- What `ffs_mountfs` hands to `ffs_oldfscompat_read`. -/
def prepared (g : Sb) : Sb := clearPending (markUnclean g)

/-- The superblock after a fresh mount. -/
def freshSb (c : Call) (g : Sb) : Sb := mounted (fresh c) (prepared g)

theorem agreeOff_prepared (g : Sb) : AgreeOff [(1104, 8), (1112, 4), (1312, 4)] (prepared g) g :=
  ((agreeOff_clearPending _).mono (by decide)).trans ((agreeOff_markUnclean g).mono (by decide))

section Accepted

variable {g : Sb}

theorem freshSb_eq [SysParam] (h : accepted c = some g) :
    freshSb c g
      = ((sanitize c.mount.bigcgs ((prepared g).moveFlags SBLOCK_UFS2)).setRonly true).setFsmnt c.mount.mntonname := by
  obtain ⟨hmagic, hloc, hagree⟩ := accepted_spec h
  have hprep := agreeOff_prepared g
  have hmagic' : (prepared g).magic = FS_UFS2_MAGIC :=
    (hprep.read32 (o := 1372) (by decide)).trans ((hagree.read32 (o := 1372) (by decide)).trans hmagic)
  have hloc' : (prepared g).sblockloc = SBLOCK_UFS2 :=
    (hprep.read64 (o := 1000) (by decide)).trans ((hagree.read64 (o := 1000) (by decide)).trans hloc)
  have hcompat := ffsOldfscompatRead_ufs2 hmagic' c.mount.bigcgs 0 SBLOCK_UFS2
  have hfst := congrArg Prod.fst hcompat
  dsimp only at hfst
  rw [freshSb, mounted, hloc', ← hfst]
  rfl

/-- Where the superblock of a reload and that of a fresh mount can differ. -/
def differ : List Span :=
  [(208, 1), (210, 1), (212, 468), (848, 8), (992, 8), (1104, 8), (1112, 4), (1308, 4), (1312, 4)]

theorem agreeOff_ronlyFsmnt {rs : List Span} (fs : Sb) (v : Bool) (name : List UInt8) (hronly : (210, 1) ∈ rs)
    (hfsmnt : (212, 468) ∈ rs) : AgreeOff rs ((fs.setRonly v).setFsmnt name) fs :=
  ((agreeOff_setFsmnt _ name).mono (List.cons_subset.mpr ⟨hfsmnt, List.nil_subset _⟩)).trans (Mem.agreeOff_write8 _ hronly)

theorem sameOff_fresh [SysParam] (hm : MountedRo c s) (h : accepted c = some g) :
    SameOff differ (reloaded c s) (freshSb c g) := by
  obtain ⟨-, -, hagree⟩ := accepted_spec h
  have hraw : SameOff differ (copied c s) (raw c) := (sameOff_copied hm.sbsize).mono (by decide)
  have hg : AgreeOff differ (prepared g) (raw c) :=
    ((agreeOff_prepared g).mono (by decide)).trans (hagree.mono (by decide))
  have hsame : SameOff differ (sanitize c.mount.bigcgs ((copied c s).moveFlags SBLOCK_UFS2))
      (sanitize c.mount.bigcgs ((prepared g).moveFlags SBLOCK_UFS2)) :=
    sameOff_sanitize (sameOff_moveFlags (hraw.trans (SameOff.of_agreeOff hg.symm)) (by decide) _) _ (by decide)
  have hpending : SameOff differ (reloaded c s) (sanitize c.mount.bigcgs ((copied c s).moveFlags SBLOCK_UFS2)) :=
    SameOff.of_agreeOff ((agreeOff_clearPending _).mono (by decide))
  rw [freshSb_eq h]
  exact hpending.trans (hsame.trans (SameOff.of_agreeOff (agreeOff_ronlyFsmnt _ _ _ (by decide) (by decide)).symm))

/-- What a reload changes in the superblock that it reads. -/
def changed : List Span := [(210, 1), (848, 8), (1104, 8), (1112, 4)] ++ moved ++ sanitized

theorem sameOff_reloaded (hm : MountedRo c s) : SameOff changed (reloaded c s) (raw c) := by
  have hcopied : SameOff changed (copied c s) (raw c) := (sameOff_copied hm.sbsize).mono (by decide)
  have hcompat : AgreeOff changed (sanitize c.mount.bigcgs ((copied c s).moveFlags SBLOCK_UFS2)) (copied c s) :=
    ((agreeOff_sanitize _ _).mono (by decide)).trans ((agreeOff_moveFlags _ _).mono (by decide))
  have hpending : AgreeOff changed (reloaded c s) _ := (agreeOff_clearPending _).mono (by decide)
  exact (SameOff.of_agreeOff (hpending.trans hcompat)).trans hcopied

/-- What a fresh mount changes in the superblock that `readsuper` returns. -/
def changedFresh : List Span := [(210, 1), (212, 468), (1104, 8), (1112, 4)] ++ moved ++ sanitized

theorem agreeOff_freshSb [SysParam] (h : accepted c = some g) : AgreeOff changedFresh (freshSb c g) g := by
  have hprep : AgreeOff changedFresh (prepared g) g := (agreeOff_prepared g).mono (by decide)
  have hcompat : AgreeOff changedFresh (sanitize c.mount.bigcgs ((prepared g).moveFlags SBLOCK_UFS2)) (prepared g) :=
    ((agreeOff_sanitize _ _).mono (by decide)).trans ((agreeOff_moveFlags _ _).mono (by decide))
  rw [freshSb_eq h]
  exact (agreeOff_ronlyFsmnt _ _ _ (by decide) (by decide)).trans (hcompat.trans hprep)

/-! ### The fields in which they can differ -/

theorem flags_reloaded (hm : MountedRo c s) :
    (reloaded c s).flags = if (raw c).oldFlags &&& FS_FLAGS_UPDATED = 0 then (raw c).oldFlags else (raw c).flags := by
  have hcopied := sameOff_copied (c := c) hm.sbsize
  have hold : (copied c s).oldFlags = (raw c).oldFlags := congrArg UInt8.toNat (hcopied.byte (by decide) (by decide))
  have hflags : (copied c s).flags = (raw c).flags := hcopied.read32 (o := 1312) (by decide) (by decide)
  have hpending : (reloaded c s).flags = _ := (agreeOff_clearPending _).read32 (o := 1312) (by decide)
  have hsanitize : (sanitize c.mount.bigcgs ((copied c s).moveFlags SBLOCK_UFS2)).flags = _ :=
    (agreeOff_sanitize _ _).read32 (o := 1312) (by decide)
  have hmoved := flags_moveFlags (copied c s) SBLOCK_UFS2
  rw [hold, hflags] at hmoved
  exact hpending.trans (hsanitize.trans hmoved)

theorem flags_freshSb [SysParam] (h : accepted c = some g) :
    (freshSb c g).flags
      = if (raw c).oldFlags &&& FS_FLAGS_UPDATED = 0 then (raw c).oldFlags else (markUnclean g).flags := by
  obtain ⟨-, -, hagree⟩ := accepted_spec h
  have hold : (prepared g).oldFlags = (raw c).oldFlags :=
    congrArg UInt8.toNat (((agreeOff_prepared g).byte (by decide)).trans (hagree.byte (by decide)))
  have hflags : (prepared g).flags = (markUnclean g).flags := (agreeOff_clearPending _).read32 (o := 1312) (by decide)
  have hronly : (((sanitize c.mount.bigcgs ((prepared g).moveFlags SBLOCK_UFS2)).setRonly true).setFsmnt
      c.mount.mntonname).flags = (sanitize c.mount.bigcgs ((prepared g).moveFlags SBLOCK_UFS2)).flags := by
    have hoff := agreeOff_ronlyFsmnt (sanitize c.mount.bigcgs ((prepared g).moveFlags SBLOCK_UFS2)) true
      c.mount.mntonname (List.mem_cons_self (l := [(212, 468)])) (by decide)
    exact hoff.read32 (o := 1312) (by decide)
  have hsanitize : (sanitize c.mount.bigcgs ((prepared g).moveFlags SBLOCK_UFS2)).flags = _ :=
    (agreeOff_sanitize _ _).read32 (o := 1312) (by decide)
  have hmoved := flags_moveFlags (prepared g) SBLOCK_UFS2
  rw [hold, hflags] at hmoved
  rw [freshSb_eq h]
  exact hronly.trans (hsanitize.trans hmoved)

/-- `fs_pendingblocks` and `fs_pendinginodes` are cleared byte by byte. -/
theorem clearPending_zero (fs : Sb) {k : Nat} (hlo : 1104 ≤ k) (hhi : k < 1116) : clearPending fs k = 0 := by
  have hzero : ∀ v, Mem.byteOf 0 v = 0 := fun v => by simp [Mem.byteOf]
  unfold Mountfs.clearPending
  by_cases hp : fs.pendingblocks ≠ 0 ∨ fs.pendinginodes ≠ 0
  · rw [if_pos hp]
    unfold Sb.setPendinginodes Sb.setPendingblocks Mem.write32 Mem.write64
    split
    · exact hzero _
    · rw [if_pos (by omega)]
      exact hzero _
  · rw [if_neg hp]
    obtain ⟨hblocks, hinodes⟩ : Mem.read64 fs 1104 = 0 ∧ Mem.read32 fs 1112 = 0 := by
      simpa [Sb.pendingblocks, Sb.pendinginodes] using hp
    have hzero₆₄ : Mem.read64 (fun _ => 0) 0 = 0 := by decide
    have hzero₃₂ : Mem.read32 (fun _ => 0) 0 = 0 := by decide
    rw [← hzero₆₄] at hblocks
    rw [← hzero₃₂] at hinodes
    by_cases hk : k < 1112
    · have hb := Mem.byte_of_read64 (i := k - 1104) hblocks (by omega)
      rwa [Nat.add_sub_cancel' hlo] at hb
    · have hb := Mem.byte_of_read32 (i := k - 1112) hinodes (by omega)
      rwa [Nat.add_sub_cancel' (by omega)] at hb

theorem freshSb_pending [SysParam] (h : accepted c = some g) {k : Nat} (hlo : 1104 ≤ k) (hhi : k < 1116) :
    freshSb c g k = 0 := by
  have hoff : AgreeOff ([(210, 1), (212, 468)] ++ moved ++ sanitized) (freshSb c g) (prepared g) := by
    rw [freshSb_eq h]
    exact (agreeOff_ronlyFsmnt _ _ _ (by decide) (by decide)).trans
      (((agreeOff_sanitize _ _).mono (by decide)).trans ((agreeOff_moveFlags _ _).mono (by decide)))
  have hclear : Clear ([(210, 1), (212, 468)] ++ moved ++ sanitized) 1104 12 := by decide
  rw [hoff k (hclear.outside hlo hhi)]
  exact clearPending_zero _ hlo hhi

/-- `fs_fsmnt` is overwritten whatever was in it. -/
theorem setFsmnt_congr (fs fs' : Sb) (name : List UInt8) : AgreeOn (fs.setFsmnt name) (fs'.setFsmnt name) 212 680 := by
  intro k hlo hhi
  have hzero : Mem.zero fs 212 MAXMNTLEN k = Mem.zero fs' 212 MAXMNTLEN k := by
    have hlen : k < 212 + MAXMNTLEN := by unfold MAXMNTLEN; omega
    unfold Mem.zero
    rw [if_pos ⟨hlo, hlen⟩, if_pos ⟨hlo, hlen⟩]
  unfold Sb.setFsmnt Mem.copy
  split
  · rfl
  · exact hzero

theorem freshSb_fsmnt [SysParam] (h : accepted c = some g) (fs : Sb) :
    AgreeOn (freshSb c g) (fs.setFsmnt c.mount.mntonname) 212 680 := by
  rw [freshSb_eq h]
  exact setFsmnt_congr _ _ _

theorem ronly_reloaded (hm : MountedRo c s) : reloaded c s 210 = 1 := by
  have hoff : AgreeOff ([(1104, 8), (1112, 4)] ++ moved ++ sanitized) (reloaded c s) (copied c s) :=
    ((agreeOff_clearPending _).mono (by decide)).trans
      (((agreeOff_sanitize _ _).mono (by decide)).trans ((agreeOff_moveFlags _ _).mono (by decide)))
  exact (hoff.byte (by decide)).trans ((ronly_copied hm.sbsize).trans hm.ronly)

theorem ronly_freshSb [SysParam] (h : accepted c = some g) : freshSb c g 210 = 1 := by
  rw [freshSb_eq h]
  exact (agreeOff_setFsmnt _ _).byte (o := 210) (by decide)

/-- A reload and a fresh mount make the same superblock exactly when there is nothing to
correct. -/
theorem steady_iff [SysParam] (hm : MountedRo c s) (h : accepted c = some g) :
    SameSb (reloaded c s) (freshSb c g) ↔ Steady c g := by
  have hreload := sameOff_reloaded (c := c) hm
  have hfresh := agreeOff_freshSb h
  -- the spans in which the two may differ, one by one: what the reload leaves in each, and what the mount does
  have hmeta : (reloaded c s).metackhash = (raw c).metackhash := hreload.read32 (o := 1308) (by decide) (by decide)
  have hmeta' : (freshSb c g).metackhash = g.metackhash := hfresh.read32 (o := 1308) (by decide)
  have hactual : (reloaded c s).sblockactualloc = (raw c).sblockactualloc :=
    hreload.read64 (o := 992) (by decide) (by decide)
  have hactual' : (freshSb c g).sblockactualloc = g.sblockactualloc := hfresh.read64 (o := 992) (by decide)
  have hfmod : reloaded c s 208 = raw c 208 := hreload.byte (by decide) (by decide)
  have hfmod' : freshSb c g 208 = g 208 := hfresh.byte (by decide)
  have hfsmnt : AgreeOn (reloaded c s) (raw c) 212 680 := by
    intro k hlo hhi
    have hclear : Clear changed 212 468 := by decide
    exact hreload k (Nat.lt_trans hhi (by decide)) (hclear.outside hlo hhi)
  have hfsmnt' := freshSb_fsmnt h (raw c)
  constructor
  · intro hsame
    exact {
      flags := fun hupd => by
        have hf : (reloaded c s).flags = (freshSb c g).flags := hsame.read32 (o := 1312) (by decide) (by decide)
        rwa [flags_reloaded hm, flags_freshSb h, if_neg hupd, if_neg hupd] at hf
      metackhash := hmeta.symm.trans ((hsame.read32 (o := 1308) (by decide) (by decide)).trans hmeta')
      sblockactualloc := hactual.symm.trans ((hsame.read64 (o := 992) (by decide) (by decide)).trans hactual')
      fmod := hfmod.symm.trans ((hsame.byte (by decide) (by decide)).trans hfmod')
      fsmnt := fun k hlo hhi => by
        have hclear : Clear [(848, 8)] 212 468 := by decide
        rw [← hfsmnt k hlo hhi, hsame k (Nat.lt_trans hhi (by decide)) (hclear.outside hlo hhi)]
        exact hfsmnt' k hlo hhi }
  · intro hsteady k hk hout
    by_cases hdiffer : Outside differ k
    · exact sameOff_fresh hm h k hk hdiffer
    have hflags : (reloaded c s).flags = (freshSb c g).flags := by
      rw [flags_reloaded hm, flags_freshSb h]
      split
      · rfl
      · exact hsteady.flags ‹_›
    have hmetaEq : (reloaded c s).metackhash = (freshSb c g).metackhash :=
      hmeta.trans (hsteady.metackhash.trans hmeta'.symm)
    have hactualEq : (reloaded c s).sblockactualloc = (freshSb c g).sblockactualloc :=
      hactual.trans (hsteady.sblockactualloc.trans hactual'.symm)
    have hpending : 1104 ≤ k → k < 1116 → reloaded c s k = freshSb c g k := fun hlo hhi =>
      (clearPending_zero _ hlo hhi).trans (freshSb_pending h hlo hhi).symm
    -- one span after the other
    obtain ⟨r, hr, hlo, hhi⟩ : ∃ r ∈ differ, r.1 ≤ k ∧ k < r.1 + r.2 := by
      simpa [Outside, not_or, not_lt] using hdiffer
    simp only [differ, List.mem_cons, List.not_mem_nil, or_false] at hr
    rcases hr with rfl | rfl | rfl | rfl | rfl | rfl | rfl | rfl | rfl
    · obtain rfl : k = 208 := Nat.le_antisymm (Nat.le_of_lt_succ hhi) hlo
      exact hfmod.trans (hsteady.fmod.trans hfmod'.symm)
    · obtain rfl : k = 210 := Nat.le_antisymm (Nat.le_of_lt_succ hhi) hlo
      exact (ronly_reloaded hm).trans (ronly_freshSb h).symm
    · exact (hfsmnt k hlo hhi).trans ((hsteady.fsmnt k hlo hhi).trans (hfsmnt' k hlo hhi).symm)
    · -- `fs_si` is not compared
      have hsi := hout _ (List.mem_singleton_self _)
      exact absurd hsi (by omega)
    · have hb := Mem.byte_of_read64 (i := k - 992) hactualEq (by omega)
      rwa [Nat.add_sub_cancel' hlo] at hb
    · exact hpending hlo (Nat.lt_trans hhi (by decide))
    · exact hpending (Nat.le_trans (by decide) hlo) hhi
    · have hb := Mem.byte_of_read32 (i := k - 1308) hmetaEq (by omega)
      rwa [Nat.add_sub_cancel' hlo] at hb
    · have hb := Mem.byte_of_read32 (i := k - 1312) hflags (by omega)
      rwa [Nat.add_sub_cancel' hlo] at hb

end Accepted

/-! ### The fresh mount -/

/-- In the kernel `ffs_sbget` gets no further than the first place it looks at. -/
theorem searchSuper_kernel [SysParam] (dev : Mem) (chkhash : Bool) :
    searchSuper .kernel dev chkhash sblockTry = readsuper .kernel dev SBLOCK_UFS2 false chkhash := by
  have hne : ∀ e, readsuper .kernel dev SBLOCK_UFS2 false chkhash = .error e → e ≠ ENOENT := by
    intro e he
    unfold readsuper at he
    dsimp only at he
    split at he
    · cases he
      decide
    split at he
    · split at he
      · split at he
        · cases he
          decide
        · cases he
      · cases he
    · cases he
  unfold sblockTry searchSuper
  cases hr : readsuper .kernel dev SBLOCK_UFS2 false chkhash with
  | error e => exact if_neg (hne e hr)
  | panic => rfl
  | ignored fs => rfl
  | ok fs => rfl

/-- The summary table that `ffs_sbget` reads. -/
def sbgetTable (c : Call) (g : Sb) : Mem := getPieces .kernel c.mount.dev g g.pieces 0 fun _ => 0

/-- A mount of the disk as it is now. -/
theorem ffsSbget_fresh [SysParam] (c : Call) :
    (Mountfs.ffsSbget (fresh c) .empty).1.map (fun got => (got.fs, got.csp))
      = Mountfs.collapse ((readsuper .kernel c.mount.dev SBLOCK_UFS2 false (!c.mount.rootfs)).map
          fun g => (g, sbgetTable c g)) := by
  have hneg : ¬ 0 ≤ if c.mount.rootfs then STDSB_NOHASHFAIL else STDSB := by
    cases c.mount.rootfs <;> decide
  have hflag : decide ((if c.mount.rootfs then STDSB_NOHASHFAIL else STDSB) ≠ STDSB_NOHASHFAIL) = !c.mount.rootfs := by
    cases c.mount.rootfs <;> decide
  rw [Mountfs.ffsSbget_eq (fun _ => rfl)]
  show Mountfs.collapse (ffsSbget .kernel c.mount.dev (if c.mount.rootfs then STDSB_NOHASHFAIL else STDSB)) = _
  rw [ffsSbget, if_neg hneg, hflag, searchSuper_kernel]
  rfl

/-- What `ffs_sbget` brings is what `readsuper` accepts. -/
theorem accepted_eq [SysParam] (c : Call) :
    accepted c = (match (Mountfs.ffsSbget (fresh c) .empty).1 with
      | .ok got => some got.fs
      | .ignored got => some got.fs
      | _ => none) ∧
    ∀ got, (Mountfs.ffsSbget (fresh c) .empty).1 = .ok got → got.csp = sbgetTable c got.fs := by
  have hsbget := ffsSbget_fresh c
  unfold accepted
  generalize (Mountfs.ffsSbget (fresh c) .empty).1 = r at hsbget ⊢
  generalize readsuper .kernel c.mount.dev SBLOCK_UFS2 false (!c.mount.rootfs) = r' at hsbget
  cases r <;> cases r' <;>
    simp only [ReadResult.map, Mountfs.collapse, reduceCtorEq, ReadResult.ok.injEq, Prod.mk.injEq] at hsbget ⊢
  case error.error => exact ⟨trivial, fun _ h => h.elim⟩
  case panic.panic => exact ⟨trivial, fun _ h => h.elim⟩
  case ok.ignored got g =>
    refine ⟨by rw [hsbget.1], fun got' h => ?_⟩
    obtain rfl := h
    rw [hsbget.2, hsbget.1]
  case ok.ok got g =>
    refine ⟨by rw [hsbget.1], fun got' h => ?_⟩
    obtain rfl := h
    rw [hsbget.2, hsbget.1]

/-- `ffs_mountfs` goes on with what `readsuper` accepts, or it fails. -/
theorem ffsMountfs_fresh [SysParam] (c : Call) :
    (∃ got h, Mountfs.Loaded got.loc [] h ∧ accepted c = some got.fs ∧ got.csp = sbgetTable c got.fs ∧
      (ffsMountfs (fresh c) : Mountfs.Outcome Unit) = Mountfs.mountSb (fresh c) got h) ∨
    accepted c = none ∧ ∀ m : Mountfs.State Unit, ffsMountfs (fresh c) ≠ .ret 0 m := by
  obtain ⟨hacc, htable⟩ := accepted_eq c
  have hspec := Mountfs.ffsSbget_spec (fresh c)
  have hzero : ¬ (fresh c).devblocksize = 0 := show ¬ DEV_BSIZE = 0 by decide
  have hmod : ¬ SBLOCKSIZE % (fresh c).devblocksize ≠ 0 := show ¬ SBLOCKSIZE % DEV_BSIZE ≠ 0 by decide
  rw [Mountfs.ffsMountfs, if_neg hzero, if_neg hmod]
  generalize Mountfs.ffsSbget (fresh c) .empty = r at hacc htable hspec ⊢
  rcases r with ⟨_ | _ | _ | got, h⟩ <;> dsimp only at hacc ⊢
  case error => exact .inr ⟨hacc, fun m => Mountfs.out_ne hspec.1 _ _⟩
  case panic =>
    right
    refine ⟨hacc, fun m hret => ?_⟩
    cases hret
  case ignored => exact hspec.elim
  case ok => exact .inl ⟨got, h, hspec, hacc, htable got rfl, rfl⟩

theorem fresh_ret [SysParam] {g : Sb} (h : accepted c = some g) (hgj : gjournal (prepared g) = false) :
    ∃ (m : Mountfs.State Unit) (loc : Nat), ffsMountfs (fresh c) = .ret 0 m ∧ m.fs = some (loc, freshSb c g) ∧
      m.csp = sbgetTable c g := by
  rcases ffsMountfs_fresh c with ⟨got, heap, hl, hacc, hcsp, heq⟩ | ⟨hnone, -⟩
  · rw [hacc] at h
    obtain rfl := Option.some.inj h
    have hro : (fresh c).rdonly = true := rfl
    obtain ⟨m, hret, hfs, htable⟩ := Mountfs.mountSb_rdonly hl hro hgj
    exact ⟨m, got.loc, heq.trans hret, hfs, htable.trans hcsp⟩
  · rw [hnone] at h
    cases h

/-- What a fresh mount that returns 0 has taken. -/
theorem accepted_of_ret [SysParam] {m : Mountfs.State Unit} (h : ffsMountfs (fresh c) = .ret 0 m) :
    ∃ g, accepted c = some g ∧ gjournal (prepared g) = false := by
  rcases ffsMountfs_fresh c with ⟨got, heap, hl, hacc, hcsp, heq⟩ | ⟨-, hno⟩
  · refine ⟨got.fs, hacc, ?_⟩
    by_contra hgj
    have hdenied : Mountfs.denied (fresh c) (markUnclean got.fs) = false := by simp [Mountfs.denied, fresh]
    rw [heq, Mountfs.mountSb] at h
    dsimp only at h
    rw [hdenied, if_neg Bool.false_ne_true, if_pos (by simpa [prepared] using hgj)] at h
    cases h
  · exact absurd h (hno m)

/-! ### The geometry -/

/-- Where the fields are that the tables and the inodes are found by. -/
def geometry : List Span := [(16, 4), (44, 16), (96, 8), (120, 4), (156, 4), (184, 8), (1096, 8), (1316, 4)]

structure SameGeometry (fs fs' : Sb) : Prop where
  pieces : fs.pieces = fs'.pieces
  pieceSize : fs.pieceSize = fs'.pieceSize
  pieceLoc : fs.pieceLoc = fs'.pieceLoc
  pieceBlk : pieceBlk fs = pieceBlk fs'
  ncg : fs.ncg = fs'.ncg
  contigsumsize : fs.contigsumsize = fs'.contigsumsize
  inodeBn : fs.inodeBn = fs'.inodeBn
  inopb : fs.inopb = fs'.inopb

theorem sameGeometry {rs : List Span} {fs fs' : Sb} (h : SameOff rs fs fs') (hc : ∀ r ∈ geometry, Clear rs r.1 r.2) :
    SameGeometry fs fs' := by
  have hsame : ∀ r ∈ geometry, SameBytes fs r.1 fs' r.1 r.2 := by
    intro r hr
    refine h.sameBytes ?_ (hc r hr)
    exact (by decide : ∀ r ∈ geometry, r.1 + r.2 ≤ sizeofFs) r hr
  have hiblkno : fs.iblkno = fs'.iblkno := (hsame (16, 4) (by decide)).read32 (i := 0) (by decide)
  have hncg : fs.ncg = fs'.ncg := (hsame (44, 16) (by decide)).read32 (i := 0) (by decide)
  have hbsize : fs.bsize = fs'.bsize := (hsame (44, 16) (by decide)).read32 (i := 4) (by decide)
  have hfsize : fs.fsize = fs'.fsize := (hsame (44, 16) (by decide)).read32 (i := 8) (by decide)
  have hfrag : fs.frag = fs'.frag := (hsame (44, 16) (by decide)).read32 (i := 12) (by decide)
  have hfragshift : fs.fragshift = fs'.fragshift := (hsame (96, 8) (by decide)).read32 (i := 0) (by decide)
  have hshift : fs.fsbtodbShift = fs'.fsbtodbShift := (hsame (96, 8) (by decide)).read32 (i := 4) (by decide)
  have hinopb : fs.inopb = fs'.inopb := (hsame (120, 4) (by decide)).read32 (i := 0) (by decide)
  have hcssize : fs.cssize = fs'.cssize := (hsame (156, 4) (by decide)).read32 (i := 0) (by decide)
  have hipg : fs.ipg = fs'.ipg := (hsame (184, 8) (by decide)).read32 (i := 0) (by decide)
  have hfpg : fs.fpg = fs'.fpg := (hsame (184, 8) (by decide)).read32 (i := 4) (by decide)
  have hcsaddr : fs.csaddr = fs'.csaddr := (hsame (1096, 8) (by decide)).read64 (i := 0) (by decide)
  have hcontig : fs.contigsumsize = fs'.contigsumsize :=
    congrArg (fun v : Nat => UfsX.Lib.toI32 v) ((hsame (1316, 4) (by decide)).read32 (i := 0) (by decide))
  have hfsbtodb : fs.fsbtodb = fs'.fsbtodb := by
    funext b
    rw [Sb.fsbtodb, Sb.fsbtodb, hshift]
  exact {
    pieces := by rw [Sb.pieces, Sb.pieces, hcssize, hfsize, hfrag]
    pieceSize := by
      funext i
      rw [Sb.pieceSize, Sb.pieceSize, hcssize, hfsize, hfrag, hbsize]
    pieceLoc := by
      funext i
      rw [Sb.pieceLoc, Sb.pieceLoc, hfsbtodb, hcsaddr]
    pieceBlk := by
      funext i
      rw [Reload.pieceBlk, Reload.pieceBlk, hfsbtodb, hcsaddr]
    ncg := hncg
    contigsumsize := hcontig
    inodeBn := by
      funext ino
      rw [Sb.inodeBn, Sb.inodeBn, Sb.inoToFsba, Sb.inoToFsba, hfsbtodb, hfpg, hipg, hiblkno, hinopb, hfragshift]
    inopb := hinopb }

namespace SameGeometry

variable {fs fs' fs'' : Sb}

theorem symm (h : SameGeometry fs fs') : SameGeometry fs' fs :=
  ⟨h.1.symm, h.2.symm, h.3.symm, h.4.symm, h.5.symm, h.6.symm, h.7.symm, h.8.symm⟩

theorem trans (h : SameGeometry fs fs') (h' : SameGeometry fs' fs'') : SameGeometry fs fs'' :=
  ⟨h.1.trans h'.1, h.2.trans h'.2, h.3.trans h'.3, h.4.trans h'.4, h.5.trans h'.5, h.6.trans h'.6, h.7.trans h'.7,
    h.8.trans h'.8⟩

theorem ffsLoadInode (h : SameGeometry fs fs') (hm : fs.metackhash = fs'.metackhash) (fsfail : Bool) :
    ffsLoadInode fsfail fs = ffsLoadInode fsfail fs' := by
  funext bp ino
  unfold Reload.ffsLoadInode dinode ffsVerifyDinodeCkhash
  rw [h.inopb, hm]

theorem reloadVnodes (h : SameGeometry fs fs') (hm : fs.metackhash = fs'.metackhash) (c : Call) (fsfail : Bool)
    (vs : List Vnode) : reloadVnodes c fs fsfail vs = reloadVnodes c fs' fsfail vs := by
  induction vs with
  | nil => rfl
  | cons v vs ih =>
      unfold Reload.reloadVnodes
      rw [h.ffsLoadInode hm, h.inodeBn, ih]

theorem vgetBuilds (h : SameGeometry fs fs') (hm : fs.metackhash = fs'.metackhash) (dev : Mem) (ip : Ip) :
    VgetBuilds dev fs ip ↔ VgetBuilds dev fs' ip := by
  unfold VgetBuilds
  rw [h.ffsLoadInode hm, h.inodeBn]

theorem tableSize (h : SameGeometry fs fs') : tableSize fs = tableSize fs' := by
  rw [Reload.tableSize, Reload.tableSize, h.pieces, h.pieceSize]

end SameGeometry

/-! ### The summary table -/

/-- The loop of the reload copies every piece, or stops at an error. -/
theorem readTable_spec (c : Call) (fs : Sb) (is : List Nat) : ∀ (space : Nat) (csp : Mem),
    ((∀ i ∈ is, c.readErr (pieceBlk fs i) = 0) ∧
      readTable c fs is space csp = (0, Mem.fill (fun i => bread c.mount.dev (pieceBlk fs i)) fs.pieceSize is space csp,
        space + (is.map fs.pieceSize).sum)) ∨
    (¬ (∀ i ∈ is, c.readErr (pieceBlk fs i) = 0) ∧ (readTable c fs is space csp).1 ≠ 0) := by
  induction is with
  | nil => exact fun _ _ => .inl ⟨fun _ hi => absurd hi List.not_mem_nil, rfl⟩
  | cons i is ih =>
      intro space csp
      rw [readTable, List.forall_mem_cons]
      by_cases hr : c.readErr (pieceBlk fs i) ≠ 0
      · rw [if_pos hr]
        exact .inr ⟨fun h => hr h.1, hr⟩
      · rw [if_neg hr]
        rcases ih (space + fs.pieceSize i) (csp.copy space (bread c.mount.dev (pieceBlk fs i)) 0 (fs.pieceSize i))
          with ⟨hall, heq⟩ | ⟨hnot, hne⟩
        · refine .inl ⟨⟨not_not.mp hr, hall⟩, ?_⟩
          rw [heq, List.map_cons, List.sum_cons, Nat.add_assoc]
          rfl
        · exact .inr ⟨fun h => hnot h.2, hne⟩

theorem getPieces_eq (dev : Mem) (fs : Sb) (is : List Nat) : ∀ (space : Nat) (csp : Mem),
    getPieces .kernel dev fs is space csp
      = Mem.fill (fun i => readfunc .kernel dev (fs.pieceLoc i)) fs.pieceSize is space csp := by
  induction is with
  | nil => exact fun _ _ => rfl
  | cons i is ih => exact fun space csp => ih _ _

/-! ### The inodes -/

theorem ffsLoadInode_number {fsfail : Bool} {fs : Sb} {bp : Mem} {ino : Nat} {ip : Ip}
    (h : ffsLoadInode fsfail fs bp ino = some ip) : ip.number = ino := by
  unfold Reload.ffsLoadInode at h
  dsimp only at h
  split at h
  · cases h
  · obtain rfl := Option.some.inj h
    rfl

/-- A check-hash that is good is loaded in any case. -/
theorem ffsLoadInode_mono {fs : Sb} {bp : Mem} {ino : Nat} {ip : Ip} (h : ffsLoadInode false fs bp ino = some ip)
    (fsfail : Bool) : ffsLoadInode fsfail fs bp ino = some ip := by
  unfold Reload.ffsLoadInode at h ⊢
  dsimp only at h ⊢
  cases hv : ffsVerifyDinodeCkhash fs (dinode fs bp ino) with
  | false =>
      rw [hv] at h
      cases h
  | true =>
      rw [hv] at h
      exact h

/-- An inode that is loaded from the disk is what `ffs_vgetf` builds, unless its hash is bad or
it has no generation number. -/
theorem vgetBuilds_loaded {fs : Sb} {fsfail : Bool} {dev : Mem} {ino : Nat} {ip : Ip}
    (h : ffsLoadInode fsfail fs (bread dev (fs.inodeBn ino)) ino = some ip) :
    VgetBuilds dev fs ip ↔ ∃ ip', ffsLoadInode false fs (bread dev (fs.inodeBn ino)) ino = some ip' ∧ ip'.gen ≠ 0 := by
  have hnumber := ffsLoadInode_number h
  unfold VgetBuilds
  rw [hnumber]
  constructor
  · rintro ⟨ip₀, hload, hgen, -⟩
    have heq := ffsLoadInode_mono hload fsfail
    rw [h] at heq
    obtain rfl := Option.some.inj heq
    exact ⟨ip, hload, hgen⟩
  · rintro ⟨ip', hload, hgen⟩
    have heq := ffsLoadInode_mono hload fsfail
    rw [h] at heq
    obtain rfl := Option.some.inj heq
    exact ⟨ip, hload, hgen, by rw [if_neg hgen]⟩

/-- The inodes after the iteration. The induction follows `reloadVnodes`: a vnode that is
reclaimed is gone, one that cannot be loaded ends it. -/
theorem reloadVnodes_fresh (c : Call) (fs : Sb) (fsfail : Bool) (vs : List Vnode) :
    (∀ v ∈ reloadVnodes c fs fsfail vs, VgetBuilds c.mount.dev fs v.ip) ↔ InodesOk c fs fsfail vs := by
  induction vs with
  | nil => exact iff_of_true (fun _ hv => absurd hv List.not_mem_nil) trivial
  | cons v vs ih =>
      unfold reloadVnodes InodesOk
      by_cases hrec : v.recycled = true
      · rw [if_pos hrec, if_pos hrec]
        exact ih
      rw [if_neg hrec, if_neg hrec]
      by_cases hr : c.readErr (fs.inodeBn v.ip.number) ≠ 0
      · rw [if_pos hr, if_pos (.inl hr)]
      rw [if_neg hr]
      cases hload : ffsLoadInode fsfail fs (bread c.mount.dev (fs.inodeBn v.ip.number)) v.ip.number with
      | none => rw [if_pos (.inr rfl)]
      | some ip =>
          rw [if_neg (by simpa using hr), List.forall_mem_cons, ih, vgetBuilds_loaded hload]

/-! ### The whole call -/

section Whole

variable {g : Sb}

theorem geometry_reloaded (hm : MountedRo c s) : SameGeometry (reloaded c s) (raw c) :=
  sameGeometry (sameOff_reloaded hm) (by decide)

theorem geometry_accepted [SysParam] (h : accepted c = some g) : SameGeometry g (raw c) :=
  sameGeometry (SameOff.of_agreeOff (accepted_spec h).2.2) (by decide)

theorem geometry_freshSb [SysParam] (h : accepted c = some g) : SameGeometry (freshSb c g) g :=
  sameGeometry (SameOff.of_agreeOff (agreeOff_freshSb h)) (by decide)

/-- Step 3 and the iteration, when every piece of the table is read. -/
theorem reloadSummary_ok {s' : State τ} (hreads : ∀ i ∈ s'.fs.pieces, c.readErr (pieceBlk s'.fs i) = 0) :
    (reloadSummary c s').1 = 0 ∧ (reloadSummary c s').2.fs = s'.fs ∧
      (reloadSummary c s').2.vnodes = reloadVnodes c s'.fs s'.fsfail s'.vnodes ∧
      (reloadSummary c s').2.summary = {
        csp := Mem.fill (fun i => bread c.mount.dev (pieceBlk s'.fs i)) s'.fs.pieceSize s'.fs.pieces 0 c.garbage
        filled := tableSize s'.fs
        maxcluster := if 0 < s'.fs.contigsumsize then .to (List.replicate s'.fs.ncg s'.fs.contigsumsize)
          else s'.summary.maxcluster.free
        contigdirs := sbgetContigdirs s'.fs } := by
  rcases readTable_spec c s'.fs s'.fs.pieces 0 c.garbage with ⟨-, heq⟩ | ⟨hnot, -⟩
  · have hsum : 0 + (s'.fs.pieces.map s'.fs.pieceSize).sum = tableSize s'.fs := Nat.zero_add _
    rw [hsum] at heq
    unfold reloadSummary
    generalize Mem.fill (fun i => bread c.mount.dev (pieceBlk s'.fs i)) s'.fs.pieceSize s'.fs.pieces 0 c.garbage = csp at heq ⊢
    simp only [heq, ne_eq, not_true_eq_false, if_false, true_and]
    split <;> rfl
  · exact absurd hreads hnot

/-- A piece of the table that is not read: the new table is not complete, and the arrays point
into the old one. -/
theorem reloadSummary_error {s' : State τ} (hreads : ¬ ∀ i ∈ s'.fs.pieces, c.readErr (pieceBlk s'.fs i) = 0) :
    (reloadSummary c s').1 ≠ 0 ∧ (reloadSummary c s').2.summary.contigdirs = s'.summary.contigdirs.free := by
  rcases readTable_spec c s'.fs s'.fs.pieces 0 c.garbage with ⟨hall, -⟩ | ⟨-, hne⟩
  · exact absurd hall hreads
  · unfold reloadSummary
    dsimp only
    rw [if_pos hne]
    exact ⟨hne, rfl⟩

/-- Against the fresh mount, part by part. -/
theorem freshLike_iff [SysParam] {s' t : State τ} (hm : MountedRo c s) (h : accepted c = some g) (hfs : s'.fs = reloaded c s)
    (hsummary : s'.summary = s.summary) (hfsfail : s'.fsfail = s.fsfail) (hvnodes : s'.vnodes = s.vnodes)
    (hreads : ∀ i ∈ s'.fs.pieces, c.readErr (pieceBlk s'.fs i) = 0) (ht : t = (reloadSummary c s').2) :
    FreshLike c (freshSb c g) (sbgetTable c g) t ↔
      Steady c g ∧ (∀ i ∈ (raw c).pieces, SameBytes (bread c.mount.dev (pieceBlk (raw c) i)) 0
          (readfunc .kernel c.mount.dev ((raw c).pieceLoc i)) 0 ((raw c).pieceSize i)) ∧
        (0 < (raw c).contigsumsize ∨ s.summary.maxcluster = .null) ∧ InodesOk c g s.fsfail s.vnodes := by
  obtain ⟨-, htfs, htvnodes, htsummary⟩ := reloadSummary_ok hreads
  -- the three superblocks have one geometry, so the parts are compared in that of the disk
  have hgr := geometry_reloaded (c := c) hm
  have hga := geometry_accepted h
  have hgf := (geometry_freshSb h).trans hga
  have htable : AgreeOn t.summary.csp (sbgetTable c g) 0 (tableSize (freshSb c g)) ↔
      ∀ i ∈ (raw c).pieces, SameBytes (bread c.mount.dev (pieceBlk (raw c) i)) 0
        (readfunc .kernel c.mount.dev ((raw c).pieceLoc i)) 0 ((raw c).pieceSize i) := by
    rw [ht, htsummary, hfs, hgf.tableSize, hgr.pieces, hgr.pieceSize, hgr.pieceBlk, sbgetTable, getPieces_eq,
      hga.pieces, hga.pieceSize, hga.pieceLoc, ← Mem.fill_eq_iff (raw c).pieces 0 c.garbage fun _ => 0, Nat.zero_add]
    rfl
  have hcluster : t.summary.maxcluster = sbgetMaxcluster (freshSb c g) ↔
      0 < (raw c).contigsumsize ∨ s.summary.maxcluster = .null := by
    rw [ht, htsummary, hfs, hsummary, sbgetMaxcluster, hgf.contigsumsize, hgf.ncg, hgr.contigsumsize, hgr.ncg]
    by_cases hpos : 0 < (raw c).contigsumsize
    · simp [hpos]
    · simp only [hpos, if_false, false_or]
      -- the reload frees the old array and keeps the pointer
      cases s.summary.maxcluster <;> simp [Ptr.free]
  have hinodes : Steady c g → ((∀ v ∈ t.vnodes, VgetBuilds c.mount.dev (freshSb c g) v.ip) ↔
      InodesOk c g s.fsfail s.vnodes) := by
    intro hsteady
    -- the inodes are checked against `fs_metackhash`, which is the same if nothing is to be corrected
    have hmeta : (reloaded c s).metackhash = g.metackhash :=
      ((sameOff_reloaded hm).read32 (o := 1308) (by decide) (by decide)).trans hsteady.metackhash
    have hmeta' : (freshSb c g).metackhash = g.metackhash := (agreeOff_freshSb h).read32 (o := 1308) (by decide)
    rw [ht, htvnodes, hfs, hfsfail, hvnodes, (hgr.trans hga.symm).reloadVnodes hmeta, ← reloadVnodes_fresh]
    exact forall₂_congr fun v _ => (geometry_freshSb h).vgetBuilds hmeta' _ _
  constructor
  · intro hlike
    have hsame : SameSb (reloaded c s) (freshSb c g) := by
      have hsb := hlike.sb
      rwa [ht, htfs, hfs] at hsb
    have hsteady := (steady_iff hm h).mp hsame
    exact ⟨hsteady, htable.mp hlike.table, hcluster.mp hlike.maxcluster, (hinodes hsteady).mp hlike.inodes⟩
  · rintro ⟨hsteady, hpieces, hmax, hok⟩
    exact {
      sb := by
        rw [ht, htfs, hfs]
        exact (steady_iff hm h).mpr hsteady
      table := htable.mpr hpieces
      filled := by
        rw [ht, htsummary, hfs, hgf.tableSize, hgr.tableSize]
      maxcluster := hcluster.mpr hmax
      contigdirs := by
        rw [ht, htsummary, hfs]
        unfold sbgetContigdirs
        rw [hgf.ncg, hgr.ncg]
      inodes := (hinodes hsteady).mpr hok }

/-- After the checks: from step 2 on. -/
theorem meets_taken [SysParam] {fs₁ : Sb} {saved maxsymlen : Nat} (hm : MountedRo c s)
    (hfs : (raw c).magic = FS_UFS2_MAGIC → fs₁ = reloaded c s) :
    Meets c s (reloadSummary c { s with fs := fs₁, savedmaxfilesize := saved, maxsymlen }) ↔
      ∃ g, accepted c = some g ∧ Faithful c s g := by
  generalize hs' : { s with fs := fs₁, savedmaxfilesize := saved, maxsymlen } = s'
  have hfs₁ : s'.fs = fs₁ := by rw [← hs']
  have hsummary : s'.summary = s.summary := by rw [← hs']
  have hfsfail : s'.fsfail = s.fsfail := by rw [← hs']
  have hvnodes : s'.vnodes = s.vnodes := by rw [← hs']
  have hgeometry : ∀ {g : Sb}, accepted c = some g → SameGeometry s'.fs (raw c) := by
    intro g h
    rw [hfs₁, hfs (accepted_spec h).1]
    exact geometry_reloaded hm
  by_cases hreads : ∀ i ∈ s'.fs.pieces, c.readErr (pieceBlk s'.fs i) = 0
  · have hok := reloadSummary_ok hreads
    unfold Meets
    rw [if_pos hok.1]
    constructor
    · rintro ⟨m, loc, fs, hret, hmfs, hlike⟩
      -- the fresh mount that comes back is the one from `g`
      obtain ⟨g, hacc, hgj⟩ := accepted_of_ret hret
      obtain ⟨m', loc', hret', hmfs', htable⟩ := fresh_ret hacc hgj
      obtain rfl : m = m' := (Mountfs.Outcome.ret.inj (hret.symm.trans hret')).2
      obtain ⟨rfl, rfl⟩ := Prod.mk.inj (Option.some.inj (hmfs.symm.trans hmfs'))
      rw [htable] at hlike
      have hparts := (freshLike_iff hm hacc (hfs₁.trans (hfs (accepted_spec hacc).1)) hsummary hfsfail hvnodes hreads
        rfl).mp hlike
      have hgr := hgeometry hacc
      rw [hgr.pieces, hgr.pieceBlk] at hreads
      exact ⟨g, hacc, hgj, hreads, hparts.1, hparts.2.1, hparts.2.2.1, hparts.2.2.2⟩
    · rintro ⟨g, hacc, hf⟩
      obtain ⟨m, loc, hret, hmfs, htable⟩ := fresh_ret hacc hf.gjournal
      refine ⟨m, loc, _, hret, hmfs, ?_⟩
      rw [htable]
      exact (freshLike_iff hm hacc (hfs₁.trans (hfs (accepted_spec hacc).1)) hsummary hfsfail hvnodes hreads rfl).mpr
        ⟨hf.steady, hf.table, hf.maxcluster, hf.inodes⟩
  · obtain ⟨hne, hdirs⟩ := reloadSummary_error hreads
    obtain ⟨dirs, hto⟩ := hm.contigdirs
    rw [hsummary, hto] at hdirs
    unfold Meets
    rw [if_neg hne]
    refine iff_of_false ?_ ?_
    · -- the arrays are in freed memory
      rintro (⟨-, hold⟩ | ⟨-, hnew⟩)
      · rw [hold, hto] at hdirs
        cases hdirs
      · rw [hnew] at hdirs
        cases hdirs
    · rintro ⟨g, hacc, hf⟩
      have hgr := hgeometry hacc
      rw [hgr.pieces, hgr.pieceBlk] at hreads
      exact hreads hf.reads

/-- An error before step 2. -/
theorem meets_unchanged [SysParam] {error : Nat} (he : error ≠ 0) : Meets c s (error, s) := by
  unfold Meets
  rw [if_neg he]
  exact .inl ⟨rfl, rfl⟩

/-- A reload is as good as a fresh mount exactly when it reads nothing, or when a fresh mount
takes the disk as it is, by every route. -/
theorem ffsReload_meets [SysParam] (hm : MountedRo c s) : Meets c s (ffsReload c s) ↔ ReloadOk c s := by
  have hforce : ¬ (c.mount.rdonly = false ∧ c.force = false) := by
    rw [hm.rdonly]
    exact fun h => by cases h.1
  unfold ffsReload ReloadOk
  rw [if_neg hforce, hm.sblockloc]
  dsimp only
  by_cases hr : c.readErr (btodb SBLOCK_UFS2 DEV_BSIZE) ≠ 0
  · rw [if_pos hr]
    exact iff_of_true (meets_unchanged hr) (.inl hr)
  rw [if_neg hr]
  by_cases hp : Plausible (raw c)
  · rw [← raw, if_neg (not_not.mpr hp), or_iff_right hr, or_iff_right (not_not.mpr hp)]
    exact meets_taken hm fun hmagic => congrArg Prod.fst (newSb_ufs2 hm hmagic)
  · rw [← raw, if_pos hp]
    exact iff_of_true (meets_unchanged (Nat.succ_ne_zero 4)) (.inr (.inl hp))

end Whole

/-! ### Mounted file systems -/

/-! ### A bad check-hash -/

/-- A plausible superblock is taken whatever its check-hash. -/
theorem ffsReload_zero [SysParam] (hm : MountedRo c s) (hread : ∀ blk, c.readErr blk = 0)
    (hp : Plausible (raw c)) : (ffsReload c s).1 = 0 := by
  have hforce : ¬ (c.mount.rdonly = false ∧ c.force = false) := by
    rw [hm.rdonly]
    exact fun h => by cases h.1
  unfold ffsReload
  rw [if_neg hforce, hm.sblockloc]
  dsimp only
  rw [if_neg (not_not.mpr (hread _)), ← raw, if_neg (not_not.mpr hp)]
  exact (reloadSummary_ok fun i _ => hread _).1

/-- `readsuper` takes no superblock with a wrong check-hash. -/
theorem accepted_of_hash [SysParam] {fs : Sb} (hroot : c.mount.rootfs = false)
    (hread : readfunc .kernel c.mount.dev SBLOCK_UFS2 = fs) (hmagic : fs.magic ≠ FS_BAD_MAGIC)
    (hnormal : Superblock.Normal fs) (hck : fs.ckhash ≠ ffsCalcSbhash fs) : accepted c = none := by
  unfold accepted readsuper
  rw [hread, hroot, if_neg hmagic]
  by_cases hacc : Acceptable fs SBLOCK_UFS2 false
  · rw [if_pos hacc]
    dsimp only
    rw [hnormal.mask, if_pos hck]
    rfl
  · rw [if_neg hacc]

attribute [local instance] SysParam.macos

/-- A superblock with one wrong bit in its check-hash. -/
def wrongSb : Sb := (Superblock.sampleSb 0x200).setCkhash (Sb.crc (Superblock.sampleSb 0x200) ^^^ 1)

def callOf (dev : Mem) : Call where
  mount := { Mountfs.sampleRequest with dev := dev }
  readErr _ := 0
  force := false
  unsuspend := false
  garbage _ := 0

/-- The disk of a checker that has left this superblock there. -/
def sampleCall : Call := callOf fun x => wrongSb (x - SBLOCK_UFS2)

def sampleState : State Unit where
  fs := (Superblock.sampleSb 0).setRonly true
  summary := ⟨fun _ => 0, 512, .null, .to [0]⟩
  savedmaxfilesize := 0
  maxsymlen := 0
  vnodes := []
  bsd := Mountfs.newBsdmount
  fsfail := false

theorem mountedRo_sample : MountedRo sampleCall sampleState where
  rdonly := rfl
  sblockloc := by decide +kernel
  sbsize := by decide +kernel
  ronly := by decide +kernel
  contigdirs := ⟨_, rfl⟩

theorem ffsReload_meets_sample :
    Meets sampleCall sampleState (ffsReload sampleCall sampleState) ↔ ReloadOk sampleCall sampleState :=
  ffsReload_meets mountedRo_sample

theorem ckhash_wrongSb : Sb.ckhash wrongSb ≠ ffsCalcSbhash wrongSb := by
  have hmask : ¬ Sb.metackhash wrongSb &&& CK_SUPERBLOCK = 0 := by decide +kernel
  have hlt : Sb.crc (Superblock.sampleSb 0x200) ^^^ 1 < 2 ^ 32 :=
    Nat.xor_lt_two_pow (calculateCrc32c_lt _ (by decide)) (by decide)
  rw [ffsCalcSbhash, if_neg hmask, wrongSb, Superblock.ckhash_setCkhash _ hlt, Superblock.crc_setCkhash]
  intro hsame
  have hzero := congrArg (Sb.crc (Superblock.sampleSb 0x200) ^^^ ·) hsame
  simp at hzero

theorem dev_callOf (dev : Mem) : (callOf dev).mount.dev = dev := rfl

theorem accepted_sampleCall : accepted sampleCall = none := by
  have hmagic : Sb.magic wrongSb ≠ FS_BAD_MAGIC := by decide +kernel
  have hnormal : Superblock.Normal wrongSb := ⟨by decide +kernel, by decide +kernel, by decide +kernel⟩
  refine accepted_of_hash rfl ?_ hmagic hnormal ckhash_wrongSb
  rw [sampleCall, dev_callOf]
  exact Superblock.readfunc_here ..

theorem not_ffsReload :
    (ffsReload sampleCall sampleState).1 = 0 ∧ accepted sampleCall = none ∧
      ¬ ∀ (c : Call) (s : State Unit), MountedRo c s → Meets c s (ffsReload c s) := by
  have hzero : (ffsReload sampleCall sampleState).1 = 0 :=
    ffsReload_zero mountedRo_sample (fun _ => rfl) (by decide +kernel)
  refine ⟨hzero, accepted_sampleCall, fun h => ?_⟩
  have hmeets := h sampleCall sampleState mountedRo_sample
  unfold Meets at hmeets
  rw [if_pos hzero] at hmeets
  obtain ⟨m, -, -, hret, -, -⟩ := hmeets
  obtain ⟨g, hacc, -⟩ := accepted_of_ret hret
  rw [accepted_sampleCall] at hacc
  cases hacc

end UfsX.Proofs.Reload
