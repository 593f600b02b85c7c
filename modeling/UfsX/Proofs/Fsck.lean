import UfsX.Ffs.Fsck
import UfsX.Lib.Matched
import UfsX.Lib.Tiles
import UfsX.Proofs.Consistent

/-!
# `UfsX.Proofs.Fsck`: what `sysctl_ffs_fsck` opens and closes

* `blkfree_tiles`: the pieces that `FFS_BLK_FREE` frees, as long as no address wraps.
* `piecesExact_iff`: they are exact if and only if none does.
* `fsckSwitch_quiet`: a command leaves the write operation and the handle alone, unless it
  is `FFS_UNLINK`.
* `fsckSwitch_vnodes`: every command puts the vnodes that it gets.
* `fsckOk_iff`: when a call does all that is asked of it.
-/

set_option autoImplicit false

namespace UfsX.Proofs.Fsck

open UfsX.Lib UfsX.Ffs.Fsck
open UfsX.Ffs (Fs)

/-! ### What is asked of a call -/

/-- A write operation, from a `vn_start_write` that succeeds. -/
def writeRole : FsckEvent → Role
  | .startWrite error => if error = 0 then .opens else .other
  | .finishedWrite _ => .closes
  | _ => .other

/-- The file handle. -/
def fileRole : FsckEvent → Role
  | .fileVnode => .opens
  | .fileDrop => .closes
  | _ => .other

/-- The vnode `vp`. -/
def vnodeRole (vp : Nat) : FsckEvent → Role
  | .vnodeGot other => if other = vp then .opens else .other
  | .vnodePut other => if other = vp then .closes else .other
  | _ => .other

/-- The fragments of a call of `ffs_blkfree`: the first, and how many. -/
def piece (fs : Fs) : FsckEvent → Option (Int × Int)
  | .blkfree blkno size => some (blkno, size / fs.fsize)
  | _ => none

/-- Fragments of one block. -/
def InBlock (fs : Fs) (p : Int × Int) : Prop :=
  ∃ block : Int, block * fs.frag ≤ p.1 ∧ p.1 + p.2 ≤ (block + 1) * fs.frag

/-- The pieces are in order, disjoint, each in one block, and cover `size` fragments from
`value` on. -/
structure PiecesExact (fs : Fs) (value size : Int) (pieces : List (Int × Int)) : Prop where
  pos : ∀ p ∈ pieces, 0 < p.2
  ordered : pieces.Pairwise fun p q => p.1 + p.2 ≤ q.1
  inBlock : ∀ p ∈ pieces, InBlock fs p
  cover : ∀ x, (∃ p ∈ pieces, p.1 ≤ x ∧ x < p.1 + p.2) ↔ value ≤ x ∧ x < value + size

section Call

variable (env : FsckEnv) (cmd : FsckCmd) (oid : Int)

/-- `vn_start_write` is called. -/
def Starts : Prop :=
  env.newlen ≤ sizeofFsckCmd ∧ env.sysctlIn = 0 ∧ cmd.version = FFS_CMD_VERSION ∧
    env.fileVnode = 0 ∧ env.vtype ≠ .other

/-- The mount is one that may be changed. -/
def Changes : Prop := env.mp ≠ none ∧ env.ufsX = true ∧ ¬ (env.rdonly = true ∧ env.fsckpid = false)

/-- What is asked of a call. -/
structure FsckOk : Prop where
  writes : Matched writeRole (sysctlFfsFsck env cmd oid).2
  file : Matched fileRole (sysctlFfsFsck env cmd oid).2
  vnodes : ∀ vp, Matched (vnodeRole vp) (sysctlFfsFsck env cmd oid).2
  pieces : Starts env cmd → Changes env → FfsCommand.ofOid oid = .blkFree → 0 ≤ cmd.value →
    PiecesExact env.fs cmd.value cmd.size ((sysctlFfsFsck env cmd oid).2.filterMap (piece env.fs))

/-- When it does that: `vn_start_write` succeeds, the command is not `FFS_UNLINK`, and the
blocks to be freed end where 63 bits do. -/
def FsckHolds : Prop :=
  Starts env cmd → env.startWrite = 0 ∧ (Changes env → FfsCommand.ofOid oid ≠ .unlink ∧
    (FfsCommand.ofOid oid = .blkFree → 0 ≤ cmd.value → cmd.value + cmd.size ≤ 2 ^ 63))

end Call

/-! ### The pieces -/

section Pieces

variable (fs : Fs)

theorem frag_pos : (0 : Int) < fs.frag := by
  simp [Fs.frag]

theorem fsize_pos : (0 : Int) < fs.fsize := by
  simp [Fs.fsize]

/-- The number of fragments in a block divides every power of two that matters here. -/
theorem frag_dvd : ((fs.frag : Nat) : Int) ∣ 2 ^ 63 := by
  have hle : fs.fragshift ≤ 63 := Nat.le_trans fs.fragshift_le (by decide)
  have hdvd : 2 ^ fs.fragshift ∣ 2 ^ 63 := Nat.pow_dvd_pow 2 hle
  exact_mod_cast Int.natCast_dvd_natCast.mpr hdvd

theorem piece_blkfree (blkno size : Int) :
    piece fs (.blkfree blkno (size * fs.fsize)) = some (blkno, size) := by
  simp only [piece]
  rw [Int.mul_ediv_cancel size (Int.ne_of_gt (fsize_pos fs))]

/-- One round of the loop. -/
theorem blkfreeLoop_pos {blkcnt : Int} (blkno : Int) (blksize : { n : Int // 0 < n }) (h : 0 < blkcnt) :
    ∃ size, size = min blkcnt blksize ∧ (blkfreeLoop fs blkno blkcnt blksize).filterMap (piece fs) =
      (blkno, size) :: (blkfreeLoop fs (toI64 (blkno + size)) (blkcnt - size)
        ⟨fs.frag, frag_pos fs⟩).filterMap (piece fs) := by
  refine ⟨if blkcnt < blksize then blkcnt else blksize, ?_, ?_⟩
  · split <;> omega
  · rw [blkfreeLoop, if_pos h, List.filterMap_cons, piece_blkfree]

theorem blkfreeLoop_nil {blkno blkcnt : Int} {blksize : { n : Int // 0 < n }} (h : blkcnt ≤ 0) :
    blkfreeLoop fs blkno blkcnt blksize = [] := by
  rw [blkfreeLoop, if_neg (by omega)]

/-- A piece that is no longer than what its block has left. -/
theorem inBlock_of_le {blkno size : Int} (h : size ≤ fs.frag - blkno % fs.frag) :
    InBlock fs (blkno, size) := by
  have hmod0 := Int.emod_nonneg blkno (Int.ne_of_gt (frag_pos fs))
  have hdiv := Int.mul_ediv_add_emod blkno fs.frag
  refine ⟨blkno / fs.frag, ?_, ?_⟩
  · rw [Int.mul_comm]
    show _ ≤ blkno
    omega
  · rw [Int.add_mul, Int.one_mul, Int.mul_comm]
    show blkno + size ≤ _
    omega

/-- Behind what a block has left the next one starts. -/
theorem aligned_next {blkno size : Int} (h : size = fs.frag - blkno % fs.frag) :
    (blkno + size) % fs.frag = 0 := by
  have hdiv := Int.mul_ediv_add_emod blkno fs.frag
  have hsum : blkno + size = fs.frag * (blkno / fs.frag + 1) := by
    rw [Int.mul_add, Int.mul_one]
    omega
  rw [hsum]
  exact Int.mul_emod_right _ _

/-- Blocks before the end of 63 bits: the loop frees them in pieces that follow one
another, the first up to the end of its block and the rest from the start of theirs. -/
theorem blkfree_tiles {blkno blkcnt : Int} {blksize : { n : Int // 0 < n }} (hblkno : 0 ≤ blkno)
    (hblkcnt : 0 ≤ blkcnt) (hend : blkno + blkcnt ≤ 2 ^ 63)
    (hblksize : 0 < blkcnt → (blksize : Int) = fs.frag - blkno % fs.frag) :
    Tiles ((blkfreeLoop fs blkno blkcnt blksize).filterMap (piece fs)) blkno (blkno + blkcnt) ∧
      ∀ p ∈ (blkfreeLoop fs blkno blkcnt blksize).filterMap (piece fs), InBlock fs p := by
  -- on the number of fragments that are left
  generalize hn : blkcnt.toNat = n
  induction n using Nat.strongRecOn generalizing blkno blkcnt blksize with
  | ind n ih =>
      rcases Int.lt_or_le 0 blkcnt with hpos | hzero
      · obtain ⟨size, hsize, hpieces⟩ := blkfreeLoop_pos fs blkno blksize hpos
        have hblk := hblksize hpos
        have hblkpos := blksize.property
        have hfrag := frag_pos fs
        have hmod := Int.emod_lt_of_pos blkno hfrag
        have hin : InBlock fs (blkno, size) := inBlock_of_le fs (by omega)
        rw [hpieces]
        by_cases hlast : blkcnt - size = 0
        · -- the last piece, after which no address is used
          rw [blkfreeLoop_nil fs (by omega), List.filterMap_nil]
          refine ⟨⟨rfl, by show 0 < size; omega, by show blkno + size = blkno + blkcnt; omega⟩, ?_⟩
          intro p hp
          rw [List.mem_singleton.mp hp]
          exact hin
        · -- another one, from the start of the next block on
          have hnext : toI64 (blkno + size) = blkno + size := toI64_eq_self (by omega) (by omega)
          have haligned : (blkno + size) % fs.frag = 0 := aligned_next fs (by omega)
          have hrest := @ih (blkcnt - size).toNat (by omega) (blkno + size) (blkcnt - size)
            ⟨fs.frag, frag_pos fs⟩ (by omega) (by omega) (by omega) (fun _ => by rw [haligned, Int.sub_zero]) rfl
          rw [hnext]
          refine ⟨⟨rfl, by show 0 < size; omega, ?_⟩, ?_⟩
          · have hsum : blkno + size + (blkcnt - size) = blkno + blkcnt := by omega
            rw [← hsum]
            exact hrest.1
          · intro p hp
            rcases List.mem_cons.mp hp with hp | hp
            · rw [hp]
              exact hin
            · exact hrest.2 p hp
      · have hcnt : blkcnt = 0 := by omega
        rw [blkfreeLoop_nil fs hzero, hcnt, Int.add_zero]
        exact ⟨rfl, by simp⟩

/-- A piece starts at an `int64_t`. -/
theorem blkfree_start_lt {blkno blkcnt : Int} {blksize : { n : Int // 0 < n }}
    (hblkno : blkno < 2 ^ 63) :
    ∀ p ∈ (blkfreeLoop fs blkno blkcnt blksize).filterMap (piece fs), p.1 < 2 ^ 63 := by
  generalize hn : blkcnt.toNat = n
  induction n using Nat.strongRecOn generalizing blkno blkcnt blksize with
  | ind n ih =>
      intro p hp
      rcases Int.lt_or_le 0 blkcnt with hpos | hzero
      · obtain ⟨size, hsize, hpieces⟩ := blkfreeLoop_pos fs blkno blksize hpos
        have hblkpos := blksize.property
        rw [hpieces] at hp
        rcases List.mem_cons.mp hp with hp | hp
        · rw [hp]
          exact hblkno
        · -- also where the address has wrapped
          have hwrapped : toI64 (blkno + size) < 2 ^ 63 := by
            simp only [toI64]
            have := Int.bmod_lt (x := blkno + size) (m := 2 ^ 64) (by decide)
            omega
          exact ih (blkcnt - size).toNat (by omega) hwrapped rfl p hp
      · rw [blkfreeLoop_nil fs hzero] at hp
        cases hp

/-- The first piece of a number that is not negative ends where its block does. -/
theorem firstBlksize_eq {blkno : Int} (h : 0 ≤ blkno) :
    (firstBlksize fs blkno : Int) = fs.frag - blkno % fs.frag := by
  show fs.frag - blkno.tmod fs.frag = _
  rw [Int.tmod_eq_emod_of_nonneg h]

/-- `FFS_BLK_FREE` frees exactly what it is asked to if and only if that ends where 63 bits
do. -/
theorem piecesExact_iff {value size : Int} (hvalue : 0 ≤ value) (hlt : value < 2 ^ 63) :
    PiecesExact fs value size
        ((blkfreeLoop fs value size (firstBlksize fs value)).filterMap (piece fs)) ↔
      value + size ≤ 2 ^ 63 := by
  constructor
  · intro hexact
    by_contra hover
    -- the last fragment would be behind every block
    obtain ⟨p, hp, hlo, hhi⟩ := (hexact.cover (value + size - 1)).mpr (by omega)
    obtain ⟨block, hblock, hend⟩ := hexact.inBlock p hp
    have hstart := blkfree_start_lt fs hlt p hp
    obtain ⟨blocks, hblocks⟩ := frag_dvd fs
    have hfrag := frag_pos fs
    have hbelow : block < blocks := by
      by_contra hge
      have hmul := Int.mul_le_mul_of_nonneg_right (Int.not_lt.mp hge) (Int.le_of_lt hfrag)
      rw [Int.mul_comm blocks] at hmul
      omega
    have hmul := Int.mul_le_mul_of_nonneg_right (Int.add_one_le_of_lt hbelow) (Int.le_of_lt hfrag)
    rw [Int.mul_comm blocks] at hmul
    omega
  · intro hend
    rcases Int.lt_or_le 0 size with hpos | hzero
    · obtain ⟨htiles, hin⟩ := blkfree_tiles fs hvalue (Int.le_of_lt hpos) hend
        (fun _ => firstBlksize_eq fs hvalue)
      exact ⟨htiles.length_pos, htiles.pairwise, hin, htiles.cover⟩
    · rw [blkfreeLoop_nil fs hzero, List.filterMap_nil]
      refine ⟨by simp, List.Pairwise.nil, by simp, ?_⟩
      intro x
      simp only [List.not_mem_nil, false_and, exists_false, false_iff]
      omega

end Pieces

/-! ### The commands -/

section Commands

variable (env : FsckEnv) (cmd : FsckCmd)

theorem freefileLoop_mem (filetype size k : Nat) (value : Int) :
    ∀ e ∈ (freefileLoop env filetype size k value).2, ∃ ino, e = .freefile ino filetype := by
  induction size generalizing k value with
  | zero =>
      intro e he
      cases he
  | succ size ih =>
      intro e he
      simp only [freefileLoop] at he
      split at he
      · exact ⟨_, List.mem_singleton.mp he⟩
      · rcases List.mem_cons.mp he with he | he
        · exact ⟨_, he⟩
        · exact ih _ _ e he

theorem blkfreeLoop_mem (fs : Fs) (blkno blkcnt : Int) (blksize : { n : Int // 0 < n }) :
    ∀ e ∈ blkfreeLoop fs blkno blkcnt blksize, ∃ no size, e = .blkfree no size := by
  generalize hn : blkcnt.toNat = n
  induction n using Nat.strongRecOn generalizing blkno blkcnt blksize with
  | ind n ih =>
      intro e he
      rw [blkfreeLoop] at he
      split at he
      · rcases List.mem_cons.mp he with he | he
        · exact ⟨_, _, he⟩
        · have hpos := blksize.property
          exact ih _ (by split <;> omega) _ _ _ rfl e he
      · cases he

/-- No command touches the handle, and none but `FFS_UNLINK` the write operation. -/
theorem fsckSwitch_quiet (command : FfsCommand) :
    ∀ e ∈ (fsckSwitch env cmd command).2,
      fileRole e = .other ∧ (command ≠ .unlink → writeRole e = .other) := by
  -- `FFS_DIR_FREE` and `FFS_FILE_FREE`
  have hfree (filetype : Nat) : ∀ e ∈ (freefileLoop env filetype cmd.size.toNat 0 cmd.value).2,
      fileRole e = .other ∧ (command ≠ .unlink → writeRole e = .other) := by
    intro e he
    obtain ⟨ino, rfl⟩ := freefileLoop_mem env filetype _ _ _ e he
    exact ⟨rfl, fun _ => rfl⟩
  -- the commands that change one inode
  have hinode (change : Nat → FsckEvent)
      (hchange : ∀ vp, fileRole (change vp) = .other ∧ writeRole (change vp) = .other) :
      ∀ e ∈ (fsckInode env change).2,
        fileRole e = .other ∧ (command ≠ .unlink → writeRole e = .other) := by
    intro e he
    simp only [fsckInode] at he
    split at he
    · cases he
    · next vp _ =>
        simp only [List.mem_cons, List.not_mem_nil, or_false] at he
        rcases he with rfl | rfl | rfl | rfl
        · exact ⟨rfl, fun _ => rfl⟩
        · exact ⟨(hchange vp).1, fun _ => (hchange vp).2⟩
        · exact ⟨rfl, fun _ => rfl⟩
        · exact ⟨rfl, fun _ => rfl⟩
  intro e he
  cases command with
  | adjRefcnt => exact hinode _ (fun _ => ⟨rfl, rfl⟩) e he
  | adjBlkcnt => exact hinode _ (fun _ => ⟨rfl, rfl⟩) e he
  | setSize => exact hinode _ (fun _ => ⟨rfl, rfl⟩) e he
  | dirFree => exact hfree IFDIR e he
  | fileFree => exact hfree IFREG e he
  | blkFree =>
      rcases List.mem_cons.mp he with rfl | he
      · exact ⟨rfl, fun _ => rfl⟩
      · rcases List.mem_append.mp he with he | he
        · obtain ⟨no, size, rfl⟩ := blkfreeLoop_mem _ _ _ _ e he
          exact ⟨rfl, fun _ => rfl⟩
        · rw [List.mem_singleton.mp he]
          exact ⟨rfl, fun _ => rfl⟩
  | setFlags =>
      rw [List.mem_singleton.mp he]
      split
      · exact ⟨rfl, fun _ => rfl⟩
      · exact ⟨rfl, fun _ => rfl⟩
  | setDotdot =>
      change e ∈ (fsckSetDotdot env cmd).2 at he
      simp only [fsckSetDotdot] at he
      split at he
      · cases he
      · split at he
        all_goals
          simp only [List.mem_cons, List.not_mem_nil, or_false] at he
          rcases he with rfl | rfl | rfl | rfl | rfl | rfl | rfl
        all_goals exact ⟨rfl, fun _ => rfl⟩
  | unlink =>
      rw [List.mem_singleton.mp he]
      exact ⟨rfl, fun hne => absurd rfl hne⟩
  | setCwd => cases he
  | invalid => cases he
  | adjNdir | adjNbfree | adjNifree | adjNffree | adjNumclusters =>
      rw [List.mem_singleton.mp he]
      exact ⟨rfl, fun _ => rfl⟩

/-- A command that gets one vnode puts it. -/
theorem fsckInode_vnodes (change : Nat → FsckEvent)
    (hchange : ∀ vp other, vnodeRole vp (change other) = .other) (vp : Nat) :
    Matched (vnodeRole vp) (fsckInode env change).2 := by
  simp only [fsckInode]
  split
  · exact rfl
  · next got _ =>
      -- the change in between is of the inode alone
      by_cases hvp : got = vp
      · have hgot : vnodeRole vp (.vnodeGot got) = .opens := if_pos hvp
        have hput : vnodeRole vp (.vnodePut got) = .closes := if_pos hvp
        rw [Matched, matchedFrom_opens hgot, matchedFrom_other (hchange vp got),
          matchedFrom_other rfl, matchedFrom_closes hput]
        exact rfl
      · refine matched_of_other ?_
        intro e he
        simp only [List.mem_cons, List.not_mem_nil, or_false] at he
        rcases he with rfl | rfl | rfl | rfl
        · exact if_neg hvp
        · exact hchange vp got
        · rfl
        · exact if_neg hvp

/-- `FFS_SET_DOTDOT` puts both of its vnodes, in the other order, and also if they are one. -/
theorem fsckSetDotdot_vnodes (vp : Nat) : Matched (vnodeRole vp) (fsckSetDotdot env cmd).2 := by
  simp only [fsckSetDotdot]
  split
  · exact rfl
  · next fdvp _ =>
      by_cases hfdvp : fdvp = vp
      · by_cases hcwd : env.cwd = vp
        · split <;> simp [Matched, MatchedFrom, vnodeRole, hfdvp, hcwd]
        · split <;> simp [Matched, MatchedFrom, vnodeRole, hfdvp, hcwd]
      · by_cases hcwd : env.cwd = vp
        · split <;> simp [Matched, MatchedFrom, vnodeRole, hfdvp, hcwd]
        · split <;> simp [Matched, MatchedFrom, vnodeRole, hfdvp, hcwd]

/-- Every command puts the vnodes that it gets. -/
theorem fsckSwitch_vnodes (command : FfsCommand) (vp : Nat) :
    Matched (vnodeRole vp) (fsckSwitch env cmd command).2 := by
  cases command with
  | adjRefcnt => exact fsckInode_vnodes env _ (fun _ _ => rfl) vp
  | adjBlkcnt => exact fsckInode_vnodes env _ (fun _ _ => rfl) vp
  | setSize => exact fsckInode_vnodes env _ (fun _ _ => rfl) vp
  | dirFree | fileFree =>
      refine matched_of_other ?_
      intro e he
      obtain ⟨ino, rfl⟩ := freefileLoop_mem env _ _ _ _ e he
      rfl
  | blkFree =>
      refine matched_of_other ?_
      intro e he
      rcases List.mem_cons.mp he with rfl | he
      · rfl
      · rcases List.mem_append.mp he with he | he
        · obtain ⟨no, size, rfl⟩ := blkfreeLoop_mem _ _ _ _ e he
          rfl
        · rw [List.mem_singleton.mp he]
          rfl
  | setFlags =>
      refine matched_of_other ?_
      intro e he
      rw [List.mem_singleton.mp he]
      split
      · rfl
      · rfl
  | setDotdot => exact fsckSetDotdot_vnodes env cmd vp
  | setCwd | unlink | invalid | adjNdir | adjNbfree | adjNifree | adjNffree | adjNumclusters =>
      exact rfl

end Commands

/-! ### The call -/

section Call

variable {env : FsckEnv} {cmd : FsckCmd} (oid : Int)

/-- Before `vn_start_write` a call ends with the handle dropped, or never had it. -/
theorem trace_of_not_starts (h : ¬ Starts env cmd) :
    (sysctlFfsFsck env cmd oid).2 = [] ∨
      (sysctlFfsFsck env cmd oid).2 = [.fileVnode, .fileDrop] := by
  simp only [sysctlFfsFsck]
  split
  · exact Or.inl rfl
  split
  · exact Or.inl rfl
  split
  · exact Or.inl rfl
  split
  · exact Or.inl rfl
  split
  · exact Or.inr rfl
  · next hnewlen hin hversion hfile htype =>
      exact absurd ⟨Nat.not_lt.mp hnewlen, not_not.mp hin, not_not.mp hversion, not_not.mp hfile,
        htype⟩ h

theorem trace_of_starts (h : Starts env cmd) :
    (sysctlFfsFsck env cmd oid).2 =
      .fileVnode :: .startWrite env.startWrite :: (fsckStarted env cmd oid).2 := by
  obtain ⟨hnewlen, hin, hversion, hfile, htype⟩ := h
  simp only [sysctlFfsFsck]
  rw [if_neg (Nat.not_lt.mpr hnewlen), if_neg (not_not_intro hin), if_neg (not_not_intro hversion),
    if_neg (not_not_intro hfile), if_neg htype]

theorem started_of_not_changes (h : ¬ Changes env) :
    (fsckStarted env cmd oid).2 = [.finishedWrite env.mp, .fileDrop] := by
  simp only [fsckStarted]
  split
  · rfl
  split
  · rfl
  · next hmount hmode =>
      rw [not_or, Bool.not_eq_false] at hmount
      exact absurd ⟨hmount.1, hmount.2, hmode⟩ h

theorem started_of_changes (h : Changes env) :
    (fsckStarted env cmd oid).2 =
      (fsckSwitch env cmd (.ofOid oid)).2 ++ [.fileDrop, .finishedWrite env.mp] := by
  obtain ⟨hmp, hufs, hmode⟩ := h
  simp only [fsckStarted]
  rw [if_neg (by simp [hmp, hufs]), if_neg hmode]

/-- The handle is dropped once, on every path. -/
theorem file_matched : Matched fileRole (sysctlFfsFsck env cmd oid).2 := by
  by_cases hstarts : Starts env cmd
  · rw [trace_of_starts oid hstarts, Matched, matchedFrom_opens rfl, matchedFrom_other rfl]
    by_cases hchanges : Changes env
    · rw [started_of_changes oid hchanges,
        matchedFrom_append_other fun e he => (fsckSwitch_quiet env cmd _ e he).1,
        matchedFrom_closes rfl, matchedFrom_other rfl]
      exact rfl
    · rw [started_of_not_changes oid hchanges, matchedFrom_other rfl, matchedFrom_closes rfl]
      exact rfl
  · rcases trace_of_not_starts oid hstarts with htrace | htrace
    · rw [htrace]
      exact rfl
    · rw [htrace, Matched, matchedFrom_opens rfl, matchedFrom_closes rfl]
      exact rfl

theorem vnodes_matched (vp : Nat) : Matched (vnodeRole vp) (sysctlFfsFsck env cmd oid).2 := by
  by_cases hstarts : Starts env cmd
  · rw [trace_of_starts oid hstarts, Matched, matchedFrom_other rfl, matchedFrom_other rfl]
    by_cases hchanges : Changes env
    · rw [started_of_changes oid hchanges]
      refine (matchedFrom_append (fsckSwitch_vnodes env cmd _ vp) 0).mpr ?_
      exact rfl
    · rw [started_of_not_changes oid hchanges]
      exact rfl
  · rcases trace_of_not_starts oid hstarts with htrace | htrace
    · rw [htrace]
      exact rfl
    · rw [htrace]
      exact rfl

/-- The write operation is finished once if it has started and the command is not
`FFS_UNLINK`. -/
theorem writes_matched_iff :
    Matched writeRole (sysctlFfsFsck env cmd oid).2 ↔
      (Starts env cmd → env.startWrite = 0 ∧ (Changes env → FfsCommand.ofOid oid ≠ .unlink)) := by
  -- the calls that are refused before `vn_start_write` have nothing to match
  by_cases hstarts : Starts env cmd
  · rw [trace_of_starts oid hstarts, Matched, matchedFrom_other rfl, forall_prop_of_true hstarts]
    by_cases herror : env.startWrite = 0
    · have hopens : writeRole (.startWrite env.startWrite) = .opens := if_pos herror
      rw [matchedFrom_opens hopens, and_iff_right herror]
      by_cases hchanges : Changes env
      · rw [started_of_changes oid hchanges, forall_prop_of_true hchanges]
        by_cases hunlink : FfsCommand.ofOid oid = .unlink
        · -- the second finish finds nothing open
          have hnot : ¬ MatchedFrom writeRole 1
              [.finishedWrite env.mp, .fileDrop, .finishedWrite env.mp] := by
            rw [matchedFrom_closes rfl, matchedFrom_other rfl]
            exact not_matchedFrom_closes rfl
          rw [hunlink]
          exact iff_of_false hnot (fun hne => hne rfl)
        · rw [matchedFrom_append_other fun e he => (fsckSwitch_quiet env cmd _ e he).2 hunlink,
            matchedFrom_other rfl, matchedFrom_closes rfl]
          exact iff_of_true rfl hunlink
      · rw [started_of_not_changes oid hchanges, matchedFrom_closes rfl, matchedFrom_other rfl]
        exact iff_of_true rfl (fun h => absurd h hchanges)
    · -- nothing has started, and it is finished all the same
      have hother : writeRole (.startWrite env.startWrite) = .other := if_neg herror
      rw [matchedFrom_other hother]
      refine iff_of_false ?_ (fun h => herror h.1)
      by_cases hchanges : Changes env
      · rw [started_of_changes oid hchanges]
        by_cases hunlink : FfsCommand.ofOid oid = .unlink
        · rw [hunlink]
          exact not_matchedFrom_closes rfl
        · rw [matchedFrom_append_other fun e he => (fsckSwitch_quiet env cmd _ e he).2 hunlink,
            matchedFrom_other rfl]
          exact not_matchedFrom_closes rfl
      · rw [started_of_not_changes oid hchanges]
        exact not_matchedFrom_closes rfl
  · rcases trace_of_not_starts oid hstarts with htrace | htrace
    · rw [htrace]
      exact iff_of_true rfl (fun h => absurd h hstarts)
    · rw [htrace]
      exact iff_of_true rfl (fun h => absurd h hstarts)

/-- The pieces of a call are those of the loop. -/
theorem trace_pieces (hstarts : Starts env cmd) (hchanges : Changes env)
    (hfree : FfsCommand.ofOid oid = .blkFree) :
    (sysctlFfsFsck env cmd oid).2.filterMap (piece env.fs) =
      (blkfreeLoop env.fs cmd.value cmd.size (firstBlksize env.fs cmd.value)).filterMap
        (piece env.fs) := by
  rw [trace_of_starts oid hstarts, started_of_changes oid hchanges, hfree]
  simp only [fsckSwitch, List.cons_append, List.filterMap_cons, List.filterMap_append,
    List.filterMap_nil, piece, List.append_nil]

end Call

/-- A call does what is asked of it if and only if the write operation that it finishes has
started, it is not for `FFS_UNLINK`, and the blocks that it frees end where 63 bits do. -/
theorem fsckOk_iff (env : FsckEnv) (cmd : FsckCmd) (oid : Int) :
    FsckOk env cmd oid ↔ FsckHolds env cmd oid := by
  constructor
  · intro hok hstarts
    obtain ⟨herror, hunlink⟩ := (writes_matched_iff oid).mp hok.writes hstarts
    refine ⟨herror, ?_⟩
    intro hchanges
    refine ⟨hunlink hchanges, ?_⟩
    intro hfree hvalue
    have hexact := hok.pieces hstarts hchanges hfree hvalue
    rw [trace_pieces oid hstarts hchanges hfree] at hexact
    exact (piecesExact_iff env.fs hvalue cmd.value_lt).mp hexact
  · intro hholds
    have hwrites : Starts env cmd →
        env.startWrite = 0 ∧ (Changes env → FfsCommand.ofOid oid ≠ .unlink) := by
      intro hstarts
      obtain ⟨herror, hrest⟩ := hholds hstarts
      exact ⟨herror, fun hchanges => (hrest hchanges).1⟩
    refine ⟨(writes_matched_iff oid).mpr hwrites, file_matched oid, vnodes_matched oid, ?_⟩
    intro hstarts hchanges hfree hvalue
    rw [trace_pieces oid hstarts hchanges hfree]
    exact (piecesExact_iff env.fs hvalue cmd.value_lt).mpr
      (((hholds hstarts).2 hchanges).2 hfree hvalue)

/-- A mount that may be written to, where every call succeeds. -/
def fsckEnv : FsckEnv where
  newlen := 32
  sysctlIn := 0
  fileVnode := 0
  vtype := .vdir
  startWrite := 0
  mp := some 0x1000
  ufsX := true
  rdonly := false
  fsckpid := false
  vget := .ok 0x2000
  update := 0
  freefile := fun _ => 0
  cwd := 0x2000
  vnodeGet := 0
  dirrewrite := 0
  fs := tinyFs

/-- A command for inode 2. -/
def fsckCmd : FsckCmd where
  version := FFS_CMD_VERSION
  value := 2
  size := 1
  value_ge := by decide
  value_lt := by decide
  size_ge := by decide
  size_lt := by decide

/-- `FFS_UNLINK`: one write operation is started, and finished twice. -/
theorem fsck_unlink : (sysctlFfsFsck fsckEnv fsckCmd 14).2 =
      [.fileVnode, .startWrite 0, .finishedWrite (some 0x1000), .fileDrop,
        .finishedWrite (some 0x1000)] ∧
    ¬ FsckOk fsckEnv fsckCmd 14 := by
  have htrace : (sysctlFfsFsck fsckEnv fsckCmd 14).2 =
      [.fileVnode, .startWrite 0, .finishedWrite (some 0x1000), .fileDrop,
        .finishedWrite (some 0x1000)] := rfl
  refine ⟨htrace, ?_⟩
  intro hok
  have hwrites := hok.writes
  rw [htrace, Matched, matchedFrom_other rfl, matchedFrom_opens rfl, matchedFrom_closes rfl,
    matchedFrom_other rfl] at hwrites
  exact not_matchedFrom_closes rfl hwrites

end UfsX.Proofs.Fsck
