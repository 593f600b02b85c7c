import UfsX.Lib.Run
import UfsX.Libufs.Inode
import UfsX.Proofs.Update
import Mathlib.Tactic.Linarith

/-!
# `UfsX.Proofs.LibufsInode`: are `getinode` and `putinode` a map?

The user of `getinode` and `putinode` sees a map from inode numbers to dinodes: the dinode
last put for a number, or what the disk had at first. The map is on the disk at the byte
addresses of the inodes (`addr`).

A fetch that has to read asks neither whether the read has succeeded nor whether the
inode number fits `int`, and one that finds its block in memory takes what is there, also
where the caller has changed it and not put it. A put of a neighbour writes such a change.
Where none of this happens, the two functions are the map (`inodes_map`).
-/

set_option autoImplicit false

namespace UfsX.Proofs.LibufsInode

open UfsX.Lib UfsX.Ffs UfsX.Libufs Relation
open UfsX.Ufs (fsbtodb)

/-! ### Where an inode is -/

/-- The byte address of an inode. -/
def addr (fs : Fs) (inum : Nat) : Int := fs.inoToFsba inum * fs.fsize + (inum % fs.inopb : Nat) * dinodeSize fs

/-- What every file system promises about its inodes: a block is full of them, a group has
whole blocks of them, and the blocks of a group lie in front of those of the next. -/
structure InodeLayout (fs : Fs) : Prop where
  fill : fs.inopb * dinodeSize fs = fs.bsize
  whole : fs.inopb ∣ fs.ipg
  nonneg : ∀ c, c < fs.ncg → 0 ≤ fs.cgimin c
  apart : ∀ c c' : Nat, c < c' → c' < fs.ncg → fs.cgimin c + (fs.ipg / fs.inopb * fs.frag : Nat) ≤ fs.cgimin c'

/-- Block `b` of the inodes, counted over all groups. -/
def blockAddr (fs : Fs) (b : Nat) : Int :=
  fs.cgimin (b / (fs.ipg / fs.inopb) : Nat) + (b % (fs.ipg / fs.inopb) * fs.frag : Nat)

/-- The device block number fits `daddr_t`. -/
def Small (fs : Fs) (inum : Nat) : Prop := fs.inoToFsba inum * 2 ^ fs.fsbtodb < 2 ^ 31

section Layout

variable {fs : Fs}

theorem dinodeSize_pos (fs : Fs) : 0 < dinodeSize fs := by
  unfold dinodeSize
  split
  · decide
  · decide

theorem InodeLayout.inopb_le (h : InodeLayout fs) : fs.inopb ≤ 2 ^ 20 := by
  have hb : fs.bsize ≤ 2 ^ 20 := Nat.pow_le_pow_right (by decide) fs.bshift_le
  have hle := Nat.le_mul_of_pos_right fs.inopb (dinodeSize_pos fs)
  have hfill := h.fill
  omega

theorem InodeLayout.perGroup_pos (h : InodeLayout fs) : 0 < fs.ipg / fs.inopb :=
  Nat.div_pos (Nat.le_of_dvd fs.ipg_pos h.whole) fs.inopb_pos

theorem InodeLayout.ipg_eq (h : InodeLayout fs) : fs.ipg = fs.inopb * (fs.ipg / fs.inopb) :=
  (Nat.mul_div_cancel' h.whole).symm

/-- The block of an inode depends on the number of the block alone. -/
theorem InodeLayout.inoToFsba_eq (h : InodeLayout fs) (inum : Nat) :
    fs.inoToFsba inum = blockAddr fs (inum / fs.inopb) := by
  have hdiv : inum / fs.ipg = inum / fs.inopb / (fs.ipg / fs.inopb) := by
    rw [Nat.div_div_eq_div_mul, ← h.ipg_eq]
  have hmod : inum % fs.ipg / fs.inopb = inum / fs.inopb % (fs.ipg / fs.inopb) := by
    conv_lhs => rw [h.ipg_eq]
    exact Nat.mod_mul_right_div_self ..
  unfold Fs.inoToFsba blockAddr Fs.blkstofrags
  rw [hdiv, hmod]

/-- Different blocks lie at least a block apart. -/
theorem InodeLayout.blockAddr_lt (h : InodeLayout fs) {b b' : Nat} (hlt : b < b')
    (hb' : b' < fs.ipg / fs.inopb * fs.ncg) : blockAddr fs b + fs.frag ≤ blockAddr fs b' := by
  have hq := h.perGroup_pos
  have happ := h.apart
  unfold blockAddr
  generalize fs.ipg / fs.inopb = q at *
  have hmod := Nat.mod_lt b hq
  have hmod' := Nat.mod_lt b' hq
  rcases Nat.lt_or_ge (b / q) (b' / q) with hc | hc
  · have hncg : b' / q < fs.ncg := by rwa [Nat.div_lt_iff_lt_mul hq, Nat.mul_comm]
    have hap := happ _ _ hc hncg
    have hlast : (b % q + 1) * fs.frag ≤ q * fs.frag := Nat.mul_le_mul_right _ hmod
    rw [Nat.add_mul, Nat.one_mul] at hlast
    generalize b % q * fs.frag = x at *
    generalize q * fs.frag = y at *
    generalize b' % q * fs.frag = z at *
    omega
  · have heq : b / q = b' / q := Nat.le_antisymm (Nat.div_le_div_right (Nat.le_of_lt hlt)) hc
    have hlt' : b % q < b' % q := by
      have h1 := Nat.div_add_mod b q
      have h2 := Nat.div_add_mod b' q
      rw [heq] at h1
      omega
    have hmul : (b % q + 1) * fs.frag ≤ b' % q * fs.frag := Nat.mul_le_mul_right _ hlt'
    rw [Nat.add_mul, Nat.one_mul] at hmul
    rw [heq]
    generalize b % q * fs.frag = x at *
    generalize b' % q * fs.frag = z at *
    omega

/-- Different inodes have different addresses. -/
theorem InodeLayout.addr_inj (h : InodeLayout fs) {i j : Nat} (hi : i < fs.ipg * fs.ncg) (hj : j < fs.ipg * fs.ncg)
    (heq : addr fs i = addr fs j) : i = j := by
  have hsize := dinodeSize_pos fs
  have hdivlt : ∀ x, x < fs.ipg * fs.ncg → x / fs.inopb < fs.ipg / fs.inopb * fs.ncg := by
    intro x hx
    rw [Nat.div_lt_iff_lt_mul fs.inopb_pos, Nat.mul_right_comm, Nat.div_mul_cancel h.whole]
    exact hx
  -- the offset in the block is less than a block
  have hoff : ∀ x, (x % fs.inopb + 1) * dinodeSize fs ≤ fs.frag * fs.fsize := by
    intro x
    rw [← fs.bsize_eq, ← h.fill]
    exact Nat.mul_le_mul_right _ (Nat.mod_lt x fs.inopb_pos)
  have hblock : ∀ {x y}, x < fs.ipg * fs.ncg → y < fs.ipg * fs.ncg → x / fs.inopb < y / fs.inopb →
      addr fs x < addr fs y := by
    intro x y hx hy hlt
    have hfrag := h.blockAddr_lt hlt (hdivlt y hy)
    have hx' := hoff x
    unfold addr
    rw [h.inoToFsba_eq, h.inoToFsba_eq]
    have hmul := Int.mul_le_mul_of_nonneg_right hfrag (Int.natCast_nonneg fs.fsize)
    rw [Int.add_mul] at hmul
    have hx'' : ((x % fs.inopb : Nat) : Int) * dinodeSize fs + dinodeSize fs ≤ fs.frag * fs.fsize := by
      rw [Nat.add_mul, Nat.one_mul] at hx'
      exact_mod_cast hx'
    have hy'' : (0 : Int) ≤ ((y % fs.inopb : Nat) : Int) * dinodeSize fs :=
      Int.mul_nonneg (Int.natCast_nonneg _) (Int.natCast_nonneg _)
    have hpos : (0 : Int) < dinodeSize fs := by exact_mod_cast hsize
    linarith
  rcases Nat.lt_trichotomy (i / fs.inopb) (j / fs.inopb) with hlt | hb | hgt
  · exact absurd heq (Int.ne_of_lt (hblock hi hj hlt))
  · unfold addr at heq
    rw [h.inoToFsba_eq, h.inoToFsba_eq, hb] at heq
    have hmod : ((i % fs.inopb : Nat) : Int) * dinodeSize fs = (j % fs.inopb : Nat) * dinodeSize fs :=
      Int.add_left_cancel heq
    have hmod := Nat.eq_of_mul_eq_mul_right hsize (show i % fs.inopb * dinodeSize fs = j % fs.inopb * dinodeSize fs from
      by exact_mod_cast hmod)
    rw [← Nat.div_add_mod i fs.inopb, ← Nat.div_add_mod j fs.inopb, hb, hmod]
  · exact absurd heq.symm (Int.ne_of_lt (hblock hj hi hgt))

/-- The device block size times the blocks of a fragment. -/
theorem dBsize_mul (fs : Fs) : (2 : Int) ^ fs.fsbtodb * dBsize fs = fs.fsize := by
  have hk : fs.fsbtodb ≤ fs.fshift := fs.fsbtodb_le
  have h16 := fs.bshift_le
  have hone : fsbtodb fs 1 = 2 ^ fs.fsbtodb := by
    have hpow : (2 : Int) ^ fs.fsbtodb ≤ 2 ^ 20 := by
      exact_mod_cast Nat.pow_le_pow_right (by decide : 0 < 2) (by omega : fs.fsbtodb ≤ 20)
    have hpos : (0 : Int) < 2 ^ fs.fsbtodb := Int.pow_pos (by decide)
    have h1 : toI32 1 = 1 := toI32_eq_self (by decide) (by decide)
    unfold fsbtodb
    rw [h1, Int.one_mul, toI32_eq_self (by omega) (by omega)]
  unfold dBsize
  rw [hone]
  refine Int.mul_ediv_cancel' ?_
  exact ⟨2 ^ (fs.fshift - fs.fsbtodb), by
    unfold Fs.fsize
    push_cast
    rw [← Int.pow_add, Nat.add_sub_cancel' hk]⟩

/-- A block address that fits `daddr_t` is looked up at its byte address. -/
theorem blockOffset_fsbtodb {fs : Fs} {f : Int} (h0 : 0 ≤ f) (h1 : f * 2 ^ fs.fsbtodb < 2 ^ 31) :
    blockOffset fs (fsbtodb fs f) = f * fs.fsize := by
  have hpos : (0 : Int) < 2 ^ fs.fsbtodb := Int.pow_pos (by decide)
  have hf : f * 1 ≤ f * 2 ^ fs.fsbtodb := Int.mul_le_mul_of_nonneg_left hpos h0
  unfold blockOffset fsbtodb
  rw [toI32_eq_self (x := f) (by omega) (by omega), toI32_eq_self (by omega) h1, Int.mul_assoc, dBsize_mul]

theorem InodeLayout.inoToFsba_nonneg (h : InodeLayout fs) {inum : Nat} (hi : inum < fs.ipg * fs.ncg) :
    0 ≤ fs.inoToFsba inum := by
  have hcg : inum / fs.ipg < fs.ncg := by rwa [Nat.div_lt_iff_lt_mul fs.ipg_pos, Nat.mul_comm]
  exact Int.add_nonneg (h.nonneg _ hcg) (Int.natCast_nonneg _)

theorem InodeLayout.inoOffset_eq (h : InodeLayout fs) {inum : Nat} (hi : inum < fs.ipg * fs.ncg)
    (hs : Small fs inum) : inoOffset fs inum = fs.inoToFsba inum * fs.fsize :=
  blockOffset_fsbtodb (h.inoToFsba_nonneg hi) hs

/-! ### The block of an inode -/

/-- The number of the first inode in the block of an inode. -/
def first (fs : Fs) (inum : Nat) : Nat := fs.inopb * (inum / fs.inopb)

theorem first_add_mod (fs : Fs) (inum : Nat) : first fs inum + inum % fs.inopb = inum := Nat.div_add_mod ..

theorem first_add_div {k : Nat} (hk : k < fs.inopb) (inum : Nat) : (first fs inum + k) / fs.inopb = inum / fs.inopb := by
  unfold first
  rw [Nat.mul_add_div fs.inopb_pos, Nat.div_eq_of_lt hk, Nat.add_zero]

theorem first_add_mod_eq {k : Nat} (hk : k < fs.inopb) (inum : Nat) : (first fs inum + k) % fs.inopb = k := by
  unfold first
  rw [Nat.mul_add_mod, Nat.mod_eq_of_lt hk]

/-- The inodes of a block have the same first inode. -/
theorem first_eq_of_mem {i j : Nat} (hle : first fs i ≤ j) (hlt : j < first fs i + fs.inopb) :
    j / fs.inopb = i / fs.inopb ∧ j % fs.inopb = j - first fs i := by
  obtain ⟨k, rfl⟩ := Nat.exists_eq_add_of_le hle
  have hk : k < fs.inopb := by omega
  rw [first_add_div hk, first_add_mod_eq hk, Nat.add_sub_cancel_left]
  exact ⟨rfl, rfl⟩

theorem InodeLayout.first_add_lt (h : InodeLayout fs) {inum k : Nat} (hi : inum < fs.ipg * fs.ncg) (hk : k < fs.inopb) :
    first fs inum + k < fs.ipg * fs.ncg := by
  have hq : inum / fs.inopb < fs.ipg / fs.inopb * fs.ncg := by
    rw [Nat.div_lt_iff_lt_mul fs.inopb_pos, Nat.mul_right_comm, Nat.div_mul_cancel h.whole]
    exact hi
  have hmul := Nat.mul_le_mul_left fs.inopb (Nat.succ_le_of_lt hq)
  rw [← Nat.mul_assoc, ← h.ipg_eq, Nat.mul_succ] at hmul
  unfold first
  omega

/-- The inodes of a block stand one behind the other. -/
theorem InodeLayout.addr_first_add (h : InodeLayout fs) (inum : Nat) {k : Nat} (hk : k < fs.inopb) :
    addr fs (first fs inum + k) = fs.inoToFsba inum * fs.fsize + k * dinodeSize fs := by
  unfold addr
  rw [h.inoToFsba_eq, h.inoToFsba_eq, first_add_div hk, first_add_mod_eq hk]

/-- The inodes of a block are read from and written to the same place. -/
theorem InodeLayout.small_iff (h : InodeLayout fs) {i j : Nat} (hb : j / fs.inopb = i / fs.inopb) :
    Small fs j ↔ Small fs i := by
  unfold Small
  rw [h.inoToFsba_eq, h.inoToFsba_eq, hb]

theorem InodeLayout.inoOffset_first (h : InodeLayout fs) {inum : Nat} (hi : inum < fs.ipg * fs.ncg)
    (hs : Small fs inum) {k : Nat} (hk : k < fs.inopb) :
    inoOffset fs (first fs inum) + k * dinodeSize fs = addr fs (first fs inum + k) := by
  have hb := first_add_div fs.inopb_pos inum
  have hlt := h.first_add_lt hi fs.inopb_pos
  rw [Nat.add_zero] at hb hlt
  rw [h.inoOffset_eq hlt ((h.small_iff hb).mpr hs), h.addr_first_add inum hk, h.inoToFsba_eq, h.inoToFsba_eq, hb]

/-- A block that is read holds the dinodes of its addresses. -/
theorem InodeLayout.breadInodes_eq (h : InodeLayout fs) (dev : Int → Dinode) {inum : Nat}
    (hi : inum < fs.ipg * fs.ncg) (hs : Small fs inum) {k : Nat} (hk : k < fs.inopb) :
    breadInodes fs true dev (inoOffset fs inum) k = dev (addr fs (first fs inum + k)) := by
  rw [h.addr_first_add inum hk, ← h.inoOffset_eq hi hs]
  rfl

theorem bwriteInodes_mem (block : InoBlock) (dev : Int → Dinode) (offset : Int) {k : Nat} (hk : k < fs.inopb) :
    bwriteInodes fs block dev offset (offset + k * dinodeSize fs) = block k := by
  have hsize : (dinodeSize fs : Int) ≠ 0 := by exact_mod_cast (dinodeSize_pos fs).ne'
  have hdiv : (offset + k * dinodeSize fs - offset) / dinodeSize fs = k := by
    rw [add_sub_cancel_left, Int.mul_ediv_cancel _ hsize]
  unfold bwriteInodes
  simp only [hdiv]
  rw [if_pos ⟨Int.natCast_nonneg k, by exact_mod_cast hk, trivial⟩, Int.toNat_natCast]

theorem bwriteInodes_not_mem (block : InoBlock) (dev : Int → Dinode) {offset o : Int}
    (h : ∀ k < fs.inopb, o ≠ offset + k * dinodeSize fs) : bwriteInodes fs block dev offset o = dev o := by
  unfold bwriteInodes
  refine if_neg ?_
  rintro ⟨h0, hlt, heq⟩
  generalize (o - offset) / dinodeSize fs = q at *
  obtain ⟨k, rfl⟩ := Int.eq_ofNat_of_zero_le h0
  exact h k (by exact_mod_cast hlt) heq

end Layout

/-! ### The map -/

/-- A caller, a `uufsd` and the map that the caller believes in. -/
structure St where
  d : Uufsd
  map : Nat → Dinode
  /-- The number of the latest `getinode`. -/
  last : Option Nat
  /-- It has returned a dinode. -/
  returned : Bool
  /-- The dinode behind the pointer of the caller. -/
  value : Dinode
  /-- The inodes of the block in memory that the caller has stored to, or failed to put, and not put since. -/
  unput : List Nat
  /-- What each `getinode` has returned, and what it should have. -/
  results : List (Option Dinode × Option Dinode)
  /-- A `getinode` has followed a pointer behind its block. -/
  wild : Bool

inductive Act where
  | get (inum : Nat) (readOk : Bool)
  | store (dip : Dinode)
  | put (writeOk : Bool)

/-- `getinode` does not have to read. -/
def Hit (d : Uufsd) (inum : Nat) : Prop := d.inomin ≤ inum ∧ inum < d.inomax

instance (d : Uufsd) (inum : Nat) : Decidable (Hit d inum) := by
  unfold Hit
  infer_instance

/-- Nothing if the check-hash is wrong. -/
def checked (mp : InodeMount) (dip : Dinode) : Option Dinode :=
  if mp.fs.magic = .ufs2 ∧ mp.ffsVerifyDinodeCkhash dip = false then none else some dip

/-- What `getinode` should return: nothing if it has to read and cannot. -/
def expected (mp : InodeMount) (map : Nat → Dinode) (hit readOk : Bool) (inum : Nat) : Option Dinode :=
  if hit = false ∧ readOk = false then none else checked mp (map inum)

/-- One call. Inode numbers are those of the file system, and the caller stores only through
the pointer of the latest `getinode`. -/
def next (mp : InodeMount) (s : St) : Act → Option St
  | .get inum readOk =>
      if mp.fs.ipg * mp.fs.ncg ≤ inum then none
      else
        match getinode mp readOk s.d inum with
        | none => some { s with wild := true }
        | some (r, d) =>
            some { s with
              d
              last := some inum
              returned := r.isSome
              value := r.getD (s.map inum)
              unput := if Hit s.d inum then s.unput else []
              results := (r, expected mp s.map (decide (Hit s.d inum)) readOk inum) :: s.results }
  | .store dip =>
      if s.returned then some { s with d := storeDinode s.d dip, value := dip, unput := s.last.toList ++ s.unput }
      else none
  | .put writeOk =>
      let (done, d) := putinode mp writeOk s.d
      let value := mp.dinodeOut s.value
      match done, s.last with
      | true, some inum =>
          some { s with d, value, unput := s.unput.filter (· ≠ inum), map := Function.update s.map inum value }
      | _, _ => some { s with d, value, unput := s.last.toList ++ s.unput }

/-- The map is on the disk, nothing else on the disk has changed, and every `getinode` has
returned what it should. -/
structure Ok (mp : InodeMount) (dev₀ : Int → Dinode) (s : St) : Prop where
  disk : ∀ i < mp.fs.ipg * mp.fs.ncg, s.d.dev (addr mp.fs i) = s.map i
  others : ∀ o, (∀ i < mp.fs.ipg * mp.fs.ncg, o ≠ addr mp.fs i) → s.d.dev o = dev₀ o
  results : ∀ r ∈ s.results, r.1 = r.2
  wild : s.wild = false

/-- The state of a caller that has just opened the disk. -/
def start (mp : InodeMount) (dev₀ : Int → Dinode) : St where
  d := fillout dev₀
  map := fun i => dev₀ (addr mp.fs i)
  last := none
  returned := false
  value := zeroDinode mp.fs
  unput := []
  results := []
  wild := false

/-- A `getinode` that has to read does read, for a number that fits `int` and a block that
fits `daddr_t`. One that does not have to read is not for an inode that the caller has
stored to without a put. And there is a `putinode` before that for every inode of the block that
has been stored to, but for the latest. -/
def Meets (mp : InodeMount) (s : St) : Act → Prop
  | .get inum readOk =>
      if Hit s.d inum then inum ∉ s.unput else readOk = true ∧ inum < 2 ^ 31 ∧ Small mp.fs inum
  | .store _ => True
  | .put _ => ∀ i ∈ s.unput, s.last = some i

/-- One call. `P` restricts the calls. -/
inductive Step (mp : InodeMount) (P : St → Act → Prop) : St → St → Prop
  | mk {s s' : St} (a : Act) (hP : P s a) (hnext : next mp s a = some s') : Step mp P s s'

/-! ### What is in memory -/

/-- The block in memory is that of inode `inum`, and the pointer is to it. -/
structure Cached (fs : Fs) (d : Uufsd) (inum : Nat) : Prop where
  lt : inum < fs.ipg * fs.ncg
  small : Small fs inum
  inomin : d.inomin = first fs inum
  inomax : d.inomax = d.inomin + fs.inopb
  dp : d.dp = inum % fs.inopb

/-- The pointer is to no other inode of the block. -/
theorem Cached.ne_dp {fs : Fs} {d : Uufsd} {inum k : Nat} (h : Cached fs d inum) (hne : d.inomin + k ≠ inum) : k ≠ d.dp := by
  rintro rfl
  rw [h.inomin, h.dp, first_add_mod] at hne
  exact hne rfl

structure Inv (mp : InodeMount) (dev₀ : Int → Dinode) (s : St) : Prop where
  ok : Ok mp dev₀ s
  /-- Without a block there is no hit. -/
  empty : s.d.inoblock = none → s.d.inomax = 0
  cached : ∀ block, s.d.inoblock = some block →
    ∃ inum, s.last = some inum ∧ Cached mp.fs s.d inum ∧ block s.d.dp = s.value
  /-- What has not been stored to is as in the map. -/
  clean : ∀ block, s.d.inoblock = some block →
    ∀ k < mp.fs.inopb, s.d.inomin + k ∉ s.unput → block k = s.map (s.d.inomin + k)

section Get

variable {mp : InodeMount} {d : Uufsd} {inum : Nat}

theorem gotit_eq {block : InoBlock} {min : Int} {k : Nat} (hmin : toU64 (inum - min) = k) (hk : k < mp.fs.inopb) :
    gotit mp d block inum min = some (checked mp (block k), { d with inoblock := some block, dp := k }) := by
  unfold gotit checked
  rw [hmin, Int.toNat_natCast]
  simp only [if_neg (Nat.not_le_of_lt hk)]
  split
  · rfl
  · rfl

/-- A hit moves the pointer. -/
theorem getinode_hit {block : InoBlock} {i : Nat} (readOk : Bool) (hblock : d.inoblock = some block)
    (hcached : Cached mp.fs d i) (hhit : Hit d inum) (hi : inum < mp.fs.ipg * mp.fs.ncg) (hl : InodeLayout mp.fs) :
    getinode mp readOk d inum
        = some (checked mp (block (inum % mp.fs.inopb)), { d with inoblock := some block, dp := inum % mp.fs.inopb })
      ∧ Cached mp.fs { d with inoblock := some block, dp := inum % mp.fs.inopb } inum := by
  obtain ⟨hmin, hmax⟩ := hhit
  have hfirst := hcached.inomin
  have hlast := hcached.inomax
  have hsame : inum / mp.fs.inopb = i / mp.fs.inopb ∧ inum % mp.fs.inopb = inum - first mp.fs i :=
    first_eq_of_mem (by omega) (by omega)
  have hle := hl.inopb_le
  have hlt := Nat.mod_lt inum mp.fs.inopb_pos
  constructor
  · unfold getinode
    simp only [if_neg (Nat.not_le_of_lt hi), if_pos (And.intro hmin hmax), hblock, Option.getD_some]
    refine gotit_eq ?_ hlt
    have hdp := hsame.2
    rw [toU64_eq_self (by omega) (by omega)]
    omega
  · exact ⟨hi, (hl.small_iff hsame.1).mpr hcached.small, by rw [hcached.inomin, first, first, hsame.1],
      hcached.inomax, rfl⟩

/-- A read moves the window. -/
theorem getinode_miss (hmiss : ¬ Hit d inum) (hi : inum < mp.fs.ipg * mp.fs.ncg) (h31 : inum < 2 ^ 31)
    (hs : Small mp.fs inum) (hl : InodeLayout mp.fs) :
    ∃ block d', getinode mp true d inum = some (checked mp (block (inum % mp.fs.inopb)), d')
      ∧ (∀ k < mp.fs.inopb, block k = d.dev (addr mp.fs (first mp.fs inum + k)))
      ∧ d'.dev = d.dev ∧ d'.inoblock = some block ∧ Cached mp.fs d' inum := by
  have hle := hl.inopb_le
  have hlt := Nat.mod_lt inum mp.fs.inopb_pos
  have hfirst := first_add_mod mp.fs inum
  have hmin : toU64 (toI32 inum - (inum % mp.fs.inopb : Nat)) = first mp.fs inum := by
    rw [toI32_eq_self (by omega) (by omega), toU64_eq_self (by omega) (by omega)]
    omega
  have hmin32 : (toU32 (first mp.fs inum)).toNat = first mp.fs inum := by
    rw [toU32_eq_self (by omega) (by omega), Int.toNat_natCast]
  have hmax : (toU32 (toI32 (first mp.fs inum) + mp.fs.inopb)).toNat = first mp.fs inum + mp.fs.inopb := by
    rw [toI32_eq_self (by omega) (by omega), toU32_eq_self (by omega) (by omega)]
    omega
  let block := breadInodes mp.fs true d.dev (inoOffset mp.fs inum)
  refine ⟨block, { d with
    inoblock := some block
    inomin := first mp.fs inum
    inomax := first mp.fs inum + mp.fs.inopb
    dp := inum % mp.fs.inopb }, ?_, fun k hk => hl.breadInodes_eq d.dev hi hs hk, rfl, rfl, ⟨hi, hs, rfl, rfl, rfl⟩⟩
  have hdp : toU64 (inum - (first mp.fs inum : Int)) = (inum % mp.fs.inopb : Nat) := by
    rw [toU64_eq_self (by omega) (by omega)]
    omega
  have hread : ¬ (d.inomin ≤ inum ∧ inum < d.inomax) := hmiss
  unfold getinode
  simp only [if_neg (Nat.not_le_of_lt hi), if_neg hread, hmin, hmin32, hmax]
  rw [gotit_eq hdp hlt]

end Get

/-! ### Every call keeps the map -/

section Steps

variable {mp : InodeMount} {dev₀ : Int → Dinode} {s s' : St}

/-- A `getinode` that returns what it should. -/
theorem Inv.get (hinv : Inv mp dev₀ s) {inum : Nat} {readOk : Bool} {block : InoBlock} {d : Uufsd}
    (hvalue : block (inum % mp.fs.inopb) = s.map inum) (hhit : Hit s.d inum ∨ readOk = true)
    (hdev : d.dev = s.d.dev) (hblock : d.inoblock = some block) (hcached : Cached mp.fs d inum)
    (hclean : ∀ k < mp.fs.inopb, d.inomin + k ∉ (if Hit s.d inum then s.unput else []) →
      block k = s.map (d.inomin + k)) :
    Inv mp dev₀ { s with
      d
      last := some inum
      returned := (checked mp (block (inum % mp.fs.inopb))).isSome
      value := (checked mp (block (inum % mp.fs.inopb))).getD (s.map inum)
      unput := if Hit s.d inum then s.unput else []
      results := (checked mp (block (inum % mp.fs.inopb)),
        expected mp s.map (decide (Hit s.d inum)) readOk inum) :: s.results } where
  ok := by
    refine ⟨fun i hi => ?_, fun o ho => ?_, ?_, hinv.ok.wild⟩
    · rw [← hinv.ok.disk i hi, hdev]
    · rw [← hinv.ok.others o ho, hdev]
    · intro r hr
      obtain rfl | hr := List.mem_cons.mp hr
      · have hread : ¬ (decide (Hit s.d inum) = false ∧ readOk = false) := by
          rintro ⟨hmiss, hfail⟩
          obtain hhit | hok := hhit
          · exact of_decide_eq_false hmiss hhit
          · rw [hok] at hfail
            cases hfail
        rw [hvalue, expected, if_neg hread]
      · exact hinv.ok.results r hr
  empty := fun hnone => by
    rw [hblock] at hnone
    cases hnone
  cached := fun block' hblock' => by
    obtain rfl : block = block' := Option.some.inj (hblock.symm.trans hblock')
    refine ⟨inum, rfl, hcached, ?_⟩
    rw [hcached.dp, hvalue, checked]
    split
    · rfl
    · rfl
  clean := fun block' hblock' => by
    obtain rfl : block = block' := Option.some.inj (hblock.symm.trans hblock')
    exact hclean

theorem Inv.next_get (hinv : Inv mp dev₀ s) (hl : InodeLayout mp.fs) {inum : Nat} {readOk : Bool}
    (hmeets : Meets mp s (.get inum readOk)) (hnext : next mp s (.get inum readOk) = some s') : Inv mp dev₀ s' := by
  simp only [next] at hnext
  split at hnext
  · cases hnext
  · rename_i hlt
    have hi : inum < mp.fs.ipg * mp.fs.ncg := Nat.lt_of_not_le hlt
    simp only [Meets] at hmeets
    by_cases hhit : Hit s.d inum
    · rw [if_pos hhit] at hmeets
      cases hblock : s.d.inoblock with
      | none =>
          have hmax := hinv.empty hblock
          have hlt := hhit.2
          omega
      | some block =>
          obtain ⟨i, -, hcached, -⟩ := hinv.cached block hblock
          obtain ⟨hget, hcached'⟩ := getinode_hit readOk hblock hcached hhit hi hl
          have hsame : s.d.inomin + inum % mp.fs.inopb = inum := by
            rw [show s.d.inomin = first mp.fs inum from hcached'.inomin, first_add_mod]
          have hvalue := hinv.clean block hblock _ (Nat.mod_lt inum mp.fs.inopb_pos) (by rwa [hsame])
          rw [hsame] at hvalue
          rw [hget] at hnext
          cases hnext
          refine hinv.get hvalue (.inl hhit) rfl rfl hcached' ?_
          rw [if_pos hhit]
          exact hinv.clean block hblock
    · rw [if_neg hhit] at hmeets
      obtain ⟨rfl, h31, hs⟩ := hmeets
      obtain ⟨block, d', hget, hread, hdev, hblock, hcached⟩ := getinode_miss hhit hi h31 hs hl
      rw [hget] at hnext
      cases hnext
      have hclean : ∀ k < mp.fs.inopb, block k = s.map (first mp.fs inum + k) := fun k hk => by
        rw [hread k hk, hinv.ok.disk _ (hl.first_add_lt hi hk)]
      refine hinv.get ?_ (.inr rfl) hdev hblock hcached fun k hk _ => ?_
      · rw [hclean _ (Nat.mod_lt inum mp.fs.inopb_pos), first_add_mod]
      · rw [hcached.inomin]
        exact hclean k hk

/-- The caller changes its dinode. -/
theorem Inv.next_store (hinv : Inv mp dev₀ s) {dip : Dinode} (hnext : next mp s (.store dip) = some s') :
    Inv mp dev₀ s' := by
  simp only [next] at hnext
  split at hnext
  · cases hnext
    refine ⟨⟨hinv.ok.disk, hinv.ok.others, hinv.ok.results, hinv.ok.wild⟩, fun hnone => ?_, fun block hblock => ?_,
      fun block hblock k hk hnot => ?_⟩
    · exact hinv.empty (Option.map_eq_none_iff.mp hnone)
    · obtain ⟨block, hold, rfl⟩ := Option.map_eq_some_iff.mp hblock
      obtain ⟨inum, hlast, hcached, -⟩ := hinv.cached block hold
      exact ⟨inum, hlast, ⟨hcached.lt, hcached.small, hcached.inomin, hcached.inomax, hcached.dp⟩,
        Function.update_self ..⟩
    · obtain ⟨block, hold, rfl⟩ := Option.map_eq_some_iff.mp hblock
      obtain ⟨inum, hlast, hcached, -⟩ := hinv.cached block hold
      rw [hlast] at hnot
      obtain ⟨hne, hnot⟩ := not_or.mp (mt List.mem_cons.mpr hnot)
      rw [Function.update_of_ne (hcached.ne_dp hne)]
      exact hinv.clean block hold k hk hnot
  · cases hnext

/-- The block of the inode is written, and the map changes where the inode is. -/
theorem ok_put (hok : Ok mp dev₀ s) (hl : InodeLayout mp.fs) {inum : Nat} {block : InoBlock} {d : Uufsd} {value : Dinode}
    {last : Option Nat} {unput : List Nat}
    (hcached : Cached mp.fs s.d inum) (hvalue : block (inum % mp.fs.inopb) = value)
    (hrest : ∀ k < mp.fs.inopb, k ≠ inum % mp.fs.inopb → block k = s.map (first mp.fs inum + k))
    (hdev : d.dev = bwriteInodes mp.fs block s.d.dev (inoOffset mp.fs s.d.inomin)) :
    Ok mp dev₀ { s with d, value, last, unput, map := Function.update s.map inum value } where
  disk := fun j hj => by
    show d.dev _ = Function.update s.map inum value j
    rw [hdev, hcached.inomin]
    by_cases hmem : j / mp.fs.inopb = inum / mp.fs.inopb
    · -- an inode of the block
      have hk := Nat.mod_lt j mp.fs.inopb_pos
      have hj' : first mp.fs inum + j % mp.fs.inopb = j := by
        rw [first, ← hmem]
        exact Nat.div_add_mod ..
      rw [← hj', ← hl.inoOffset_first hcached.lt hcached.small hk, bwriteInodes_mem _ _ _ hk, hj']
      by_cases hsame : j = inum
      · rw [hsame, hvalue, Function.update_self]
      · rw [Function.update_of_ne hsame, hrest _ hk ?_, hj']
        intro hmod
        apply hsame
        rw [← hj', hmod, first_add_mod]
    · have hne : j ≠ inum := fun h => hmem (by rw [h])
      rw [Function.update_of_ne hne, ← hok.disk j hj]
      refine bwriteInodes_not_mem _ _ fun k hk heq => hmem ?_
      rw [hl.inoOffset_first hcached.lt hcached.small hk] at heq
      rw [hl.addr_inj hj (hl.first_add_lt hcached.lt hk) heq, first_add_div hk]
  others := fun o ho => by
    rw [← hok.others o ho]
    show d.dev o = s.d.dev o
    rw [hdev, hcached.inomin]
    refine bwriteInodes_not_mem _ _ fun k hk heq => ?_
    rw [hl.inoOffset_first hcached.lt hcached.small hk] at heq
    exact ho _ (hl.first_add_lt hcached.lt hk) heq
  results := hok.results
  wild := hok.wild

theorem Inv.next_put (hinv : Inv mp dev₀ s) (hl : InodeLayout mp.fs) {writeOk : Bool}
    (hmeets : Meets mp s (.put writeOk)) (hnext : next mp s (.put writeOk) = some s') : Inv mp dev₀ s' := by
  cases hblock : s.d.inoblock with
  | none =>
      simp only [next, putinode, hblock] at hnext
      cases hnext
      refine ⟨⟨hinv.ok.disk, hinv.ok.others, hinv.ok.results, hinv.ok.wild⟩, hinv.empty, fun block hsome => ?_,
        fun block hsome => ?_⟩
      · rw [hblock] at hsome
        cases hsome
      · rw [hblock] at hsome
        cases hsome
  | some block =>
      obtain ⟨inum, hlast, hcached, hvalue⟩ := hinv.cached block hblock
      have hcached' : ∀ {d : Uufsd}, d.inomin = s.d.inomin → d.inomax = s.d.inomax → d.dp = s.d.dp → Cached mp.fs d inum :=
        fun h1 h2 h3 => ⟨hcached.lt, hcached.small, h1.trans hcached.inomin, by rw [h2, h1, hcached.inomax],
          h3.trans hcached.dp⟩
      cases writeOk with
      | false =>
          simp only [next, putinode, hblock] at hnext
          cases hnext
          refine ⟨⟨hinv.ok.disk, hinv.ok.others, hinv.ok.results, hinv.ok.wild⟩, fun hnone => ?_, fun block' hsome => ?_,
            fun block' hsome k hk hnot => ?_⟩
          · cases hnone
          · cases hsome
            refine ⟨inum, hlast, hcached' rfl rfl rfl, ?_⟩
            rw [← hvalue]
            exact Function.update_self ..
          · cases hsome
            rw [hlast] at hnot
            obtain ⟨hne, hnot⟩ := not_or.mp (mt List.mem_cons.mpr hnot)
            rw [Function.update_of_ne (hcached.ne_dp hne)]
            exact hinv.clean block hblock k hk hnot
      | true =>
          -- the other inodes of the block have not been stored to
          have hrest : ∀ k < mp.fs.inopb, s.d.inomin + k ≠ inum → block k = s.map (s.d.inomin + k) := by
            intro k hk hne
            refine hinv.clean block hblock k hk fun hmem => hne ?_
            exact Option.some.inj ((hmeets _ hmem).symm.trans hlast)
          simp only [next, putinode, hblock, if_true, hlast] at hnext
          cases hnext
          refine ⟨ok_put hinv.ok hl hcached ?_ ?_ rfl, fun hnone => ?_, fun block' hsome => ?_,
            fun block' hsome k hk _ => ?_⟩
          · rw [← hcached.dp, Function.update_self, hvalue]
          · intro k hk hne
            rw [← hcached.dp] at hne
            rw [Function.update_of_ne hne, ← hcached.inomin]
            refine hrest k hk fun heq => hne ?_
            rw [hcached.dp, ← heq, hcached.inomin, first_add_mod_eq hk]
          · cases hnone
          · cases hsome
            refine ⟨inum, rfl, hcached' rfl rfl rfl, ?_⟩
            rw [← hvalue]
            exact Function.update_self ..
          · cases hsome
            show Function.update block s.d.dp _ k = Function.update s.map inum _ (s.d.inomin + k)
            by_cases heq : s.d.inomin + k = inum
            · have hdp : k = s.d.dp := by rw [hcached.dp, ← heq, hcached.inomin, first_add_mod_eq hk]
              rw [heq, hdp, Function.update_self, Function.update_self, hvalue]
            · rw [Function.update_of_ne heq, Function.update_of_ne (hcached.ne_dp heq)]
              exact hrest k hk heq

theorem Inv.step (hl : InodeLayout mp.fs) (hinv : Inv mp dev₀ s) (h : Step mp (Meets mp) s s') : Inv mp dev₀ s' := by
  obtain ⟨a, hmeets, hnext⟩ := h
  cases a with
  | get inum readOk => exact hinv.next_get hl hmeets hnext
  | store dip => exact hinv.next_store hnext
  | put writeOk => exact hinv.next_put hl hmeets hnext

theorem inv_start (mp : InodeMount) (dev₀ : Int → Dinode) : Inv mp dev₀ (start mp dev₀) where
  ok := ⟨fun _ _ => rfl, fun _ _ => rfl, fun r hr => absurd hr List.not_mem_nil, rfl⟩
  empty := fun _ => rfl
  cached := fun block hsome => by cases hsome
  clean := fun block hsome => by cases hsome

end Steps

/-- `getinode` and `putinode` are the map in every run of calls that meet the condition. -/
theorem inodes_map (mp : InodeMount) (hl : InodeLayout mp.fs) (dev₀ : Int → Dinode) (s : St)
    (hrun : ReflTransGen (Step mp (Meets mp)) (start mp dev₀) s) : Ok mp dev₀ s :=
  (invariant_of_run (Inv mp dev₀) (fun hinv hstep => hinv.step hl hstep) (inv_start mp dev₀) hrun).ok

/-! ### A disk of one block of inodes -/

theorem one_block_pos : 0 < 64 := by decide

/-- One block of inodes, in front of everything else. -/
def blockFs : Fs := { tinyFs with ipg := 64, ipg_pos := one_block_pos }

theorem blockFs_layout : InodeLayout blockFs where
  fill := by decide
  whole := by decide
  nonneg := fun c _ => by
    show (0 : Int) ≤ 16 * c + 0
    omega
  apart := fun c c' hlt hc' => by
    have h1 : c' < 1 := hc'
    omega

def blockMount : InodeMount := ⟨blockFs, true, false, false, fun dip => dip.size⟩

/-- An empty file on every place of the disk. -/
def fileDinode : Dinode := ⟨0x81a4, 1, 0, 0, 0, 0, 0, 0, []⟩

/-- The state of `blockMount` after a call. -/
def after (s : St) (a : Act) : St := (next blockMount s a).getD s

def opened : St := start blockMount fun _ => fileDinode

/-- An inode is fetched, changed and put, then its neighbour; and the first one is fetched again. -/
def calls : List Act :=
  [.get 1 true, .store { fileDinode with nlink := 2 }, .put true,
    .get 2 true, .store { fileDinode with nlink := 3 }, .put false, .put true, .get 1 true]

theorem inodes_map_neighbours : ∃ s, ReflTransGen (Step blockMount (Meets blockMount)) opened s
    ∧ s.results.map (fun r => r.1.map fun dip => dip.nlink) = [some 2, some 1, some 1]
    ∧ Ok blockMount (fun _ => fileDinode) s := by
  have hsmall : Small blockFs 1 := by
    unfold Small
    decide
  have hrun : ReflTransGen (Step blockMount (Meets blockMount)) opened (calls.foldl after opened) := by
    refine .head (.mk (.get 1 true) ⟨rfl, by decide, hsmall⟩ rfl) ?_
    refine .head (.mk (.store { fileDinode with nlink := 2 }) trivial rfl) ?_
    refine .head (.mk (.put true) (show ∀ i ∈ [1], some 1 = some i by decide) rfl) ?_
    refine .head (.mk (.get 2 true) (show 2 ∉ [] by decide) rfl) ?_
    refine .head (.mk (.store { fileDinode with nlink := 3 }) trivial rfl) ?_
    refine .head (.mk (.put false) (show ∀ i ∈ [2], some 2 = some i by decide) rfl) ?_
    refine .head (.mk (.put true) (show ∀ i ∈ [2, 2], some 2 = some i by decide) rfl) ?_
    exact .single (.mk (.get 1 true) (show 1 ∉ [] by decide) rfl)
  exact ⟨_, hrun, rfl, inodes_map blockMount blockFs_layout _ _ hrun⟩

/-- A read that fails hands out a dinode of zeros. -/
theorem getinode_fails : ¬ ∀ (mp : InodeMount) (dev₀ : Int → Dinode) (s : St), InodeLayout mp.fs →
    ReflTransGen (Step mp fun _ _ => True) (start mp dev₀) s → Ok mp dev₀ s := by
  intro hall
  have hget : next blockMount (start blockMount fun _ => fileDinode) (.get 1 false) = some _ := rfl
  have hok := hall blockMount _ _ blockFs_layout (ReflTransGen.single (.mk _ trivial hget))
  have hres := hok.results _ (List.mem_cons_self ..)
  have hval : (some (zeroDinode blockFs) : Option Dinode) = none := hres
  cases hval

end UfsX.Proofs.LibufsInode
