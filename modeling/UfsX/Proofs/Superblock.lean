import UfsX.Ffs.Superblock
import UfsX.Proofs.Cgroup
import Mathlib.Tactic.Linarith

/-!
# `UfsX.Proofs.Superblock`: does a superblock come back as it was written?

What `ffs_sbput` stores is an image of the superblock: its bytes, except for a few that belong
to memory or to the moment (`transient`), with a hash over exactly these bytes. `readsuper`
gets the image back, clears the bits in `fs_flags` and `fs_metackhash` that this kernel does
not maintain, and calculates the hash only then. An image without such bits (`Normal`) passes,
and is what was written; one with such bits is changed, or fails the check although its hash
is right.

The summary table goes out and comes back in pieces of a block, each behind the one before.
-/

set_option autoImplicit false

namespace UfsX.Proofs.Superblock

open UfsX.Lib UfsX.Compat UfsX.Ffs

/-! ### The hash -/

theorem crc_lt (fs : Sb) : fs.crc < 2 ^ 32 := calculateCrc32c_lt _ (by decide)

theorem ffsCalcSbhash_lt (fs : Sb) : ffsCalcSbhash fs < 2 ^ 32 := by
  unfold ffsCalcSbhash
  split
  · exact Mem.read32_lt ..
  · exact crc_lt fs

/-! A changed byte changes the hash: a step of the CRC can be undone, and the bytes behind the
changed one do not bring the two sums together again. -/

theorem calculateCrc32c_inj (bytes : List UInt8) : ∀ {crc crc' : Nat}, crc < 2 ^ 32 → crc' < 2 ^ 32 →
    calculateCrc32c crc bytes = calculateCrc32c crc' bytes → crc = crc' := by
  induction bytes with
  | nil => exact fun _ _ h => h
  | cons b bytes ih =>
      intro crc crc' h h' heq
      have hstep : calculateCrc32c crc [b] = calculateCrc32c crc' [b] :=
        ih (calculateCrc32c_lt [b] h) (calculateCrc32c_lt [b] h') heq
      exact Nat.xor_left_injective (xor_of_step h h' hstep)

theorem calculateCrc32c_append (crc : Nat) (l l' : List UInt8) :
    calculateCrc32c crc (l ++ l') = calculateCrc32c (calculateCrc32c crc l) l' := List.foldl_append

theorem calculateCrc32c_byte {crc : Nat} (h : crc < 2 ^ 32) (pre post : List UInt8) {b b' : UInt8} (hne : b ≠ b') :
    calculateCrc32c crc (pre ++ b :: post) ≠ calculateCrc32c crc (pre ++ b' :: post) := by
  intro heq
  rw [calculateCrc32c_append, calculateCrc32c_append] at heq
  have hpre := calculateCrc32c_lt pre h
  have hstep : calculateCrc32c _ [b] = calculateCrc32c _ [b'] :=
    calculateCrc32c_inj post (calculateCrc32c_lt [b] hpre) (calculateCrc32c_lt [b'] hpre) heq
  exact hne (UInt8.toNat_inj.mp (Nat.xor_right_injective (xor_of_step hpre hpre hstep)))

/-- Two memories that differ in one byte have different hashes. -/
theorem calculateCrc32c_ne {m m' : Mem} {n k : Nat} (hk : k < n) (hne : m k ≠ m' k) (hsame : ∀ j, j ≠ k → m j = m' j) :
    calculateCrc32c 0xffffffff (m.readBytes 0 n) ≠ calculateCrc32c 0xffffffff (m'.readBytes 0 n) := by
  have hlen : k < (m.readBytes 0 n).length := by simpa [Mem.readBytes]
  have hset : m'.readBytes 0 n = (m.readBytes 0 n).set k (m' k) := by
    refine List.ext_getElem (by simp [Mem.readBytes]) fun j hj hj' => ?_
    rw [List.getElem_set]
    by_cases h : k = j
    · simp [Mem.readBytes, h]
    · simp [Mem.readBytes, h, hsame j (Ne.symm h)]
  have hsplit : m.readBytes 0 n = (m.readBytes 0 n).take k ++ m k :: (m.readBytes 0 n).drop (k + 1) := by
    have hget : (m.readBytes 0 n)[k] = m k := by simp [Mem.readBytes]
    rw [← hget, List.getElem_cons_drop, List.take_append_drop]
  rw [hset, List.set_eq_take_append_cons_drop, if_pos hlen]
  exact fun heq => calculateCrc32c_byte (by decide) _ _ hne ((congrArg _ hsplit).symm.trans heq)

/-! ### Fields -/

/-- Two superblocks that agree in `sizeof(struct fs)` bytes, except for some ranges. -/
def SameOff (rs : List Span) (fs fs' : Sb) : Prop := ∀ k, k < sizeofFs → Outside rs k → fs k = fs' k

namespace SameOff

variable {rs rs' : List Span} {fs fs' fs'' : Sb} {o : Nat}

theorem of_agreeOff (h : AgreeOff rs fs fs') : SameOff rs fs fs' := fun k _ => h k

theorem symm (h : SameOff rs fs fs') : SameOff rs fs' fs := fun k hk hr => (h k hk hr).symm

theorem trans (h : SameOff rs fs fs') (h' : SameOff rs fs' fs'') : SameOff rs fs fs'' :=
  fun k hk hr => (h k hk hr).trans (h' k hk hr)

theorem mono (h : SameOff rs fs fs') (hsub : rs ⊆ rs') : SameOff rs' fs fs' :=
  fun k hk hr => h k hk fun r hmem => hr r (hsub hmem)

theorem sameBytes {n : Nat} (h : SameOff rs fs fs') (ho : o + n ≤ sizeofFs) (hc : Clear rs o n) :
    SameBytes fs o fs' o n := by
  intro k hk
  refine h (o + k) (by omega) fun r hr => ?_
  have hr := hc r hr
  omega

theorem read32 (h : SameOff rs fs fs') (ho : o + 4 ≤ sizeofFs) (hc : Clear rs o 4) :
    Mem.read32 fs o = Mem.read32 fs' o := (h.sameBytes ho hc).read32 (Nat.le_refl 4)

theorem read64 (h : SameOff rs fs fs') (ho : o + 8 ≤ sizeofFs) (hc : Clear rs o 8) :
    Mem.read64 fs o = Mem.read64 fs' o := (h.sameBytes ho hc).read64 (Nat.le_refl 8)

theorem byte (h : SameOff rs fs fs') (ho : o + 1 ≤ sizeofFs) (hc : Clear rs o 1) : fs o = fs' o :=
  h.sameBytes ho hc 0 (by decide)

end SameOff

section Set

variable (fs : Sb)

theorem ckhash_setCkhash {v : Nat} (h : v < 2 ^ 32) : (fs.setCkhash v).ckhash = v := Mem.read32_write32 h

theorem setCkhash_setCkhash (v w : Nat) : (fs.setCkhash v).setCkhash w = fs.setCkhash w := Mem.write32_write32 ..

theorem agreeOff_setCkhash (v : Nat) : AgreeOff [(1304, 4)] (fs.setCkhash v) fs :=
  Mem.agreeOff_write32 v (by decide)

theorem sbsize_setCkhash (v : Nat) : (fs.setCkhash v).sbsize = fs.sbsize :=
  congrArg (fun n : Nat => toI32 n) ((agreeOff_setCkhash fs v).read32 (by decide))

theorem metackhash_setCkhash (v : Nat) : (fs.setCkhash v).metackhash = fs.metackhash :=
  (agreeOff_setCkhash fs v).read32 (by decide)

theorem crc_setCkhash (v : Nat) : (fs.setCkhash v).crc = fs.crc := by
  unfold Sb.crc
  rw [setCkhash_setCkhash, sbsize_setCkhash]

/-- A superblock that has just been hashed passes its own check. -/
theorem ckhash_hashed : (fs.setCkhash (ffsCalcSbhash fs)).ckhash = ffsCalcSbhash (fs.setCkhash (ffsCalcSbhash fs)) := by
  have hlt := ffsCalcSbhash_lt fs
  rw [ckhash_setCkhash fs hlt]
  unfold ffsCalcSbhash
  rw [metackhash_setCkhash]
  split
  case isTrue => exact (ckhash_setCkhash fs (Mem.read32_lt ..)).symm
  case isFalse => exact (crc_setCkhash fs _).symm

end Set

/-! ### The masks -/

/-- There is nothing to clear. -/
structure Normal (fs : Sb) : Prop where
  flags : fs.flags &&& FS_SUPPORTED = fs.flags
  metackhash : fs.metackhash &&& CK_SUPPORTED = fs.metackhash
  unused : fs.flags &&& FS_METACKHASH = 0 → fs.metackhash = 0

section Mask

variable (fs : Sb)

/-- What `readsuper` makes of `fs_metackhash`. -/
def maskedMetackhash : Nat := if fs.flags &&& FS_METACKHASH = 0 then 0 else fs.metackhash &&& CK_SUPPORTED

theorem mask_eq : fs.mask = (fs.setMetackhash (maskedMetackhash fs)).setFlags (fs.flags &&& FS_SUPPORTED) := by
  have hoff : ∀ v, AgreeOff [(1308, 4)] (fs.setMetackhash v) fs := fun v => Mem.agreeOff_write32 v (by decide)
  have hflags : ∀ v, (fs.setMetackhash v).flags = fs.flags := fun v => (hoff v).read32 (by decide)
  have hzero : (fs.setMetackhash 0).metackhash = 0 := Mem.read32_write32 (by decide)
  have htwice : ∀ v w, (fs.setMetackhash v).setMetackhash w = fs.setMetackhash w := fun _ _ => Mem.write32_write32 ..
  unfold Sb.mask maskedMetackhash
  dsimp only
  split
  · rw [hzero, Nat.zero_and, htwice, hflags]
  · rw [hflags]

theorem maskedMetackhash_lt : maskedMetackhash fs < 4294967296 := by
  unfold maskedMetackhash
  split
  · decide
  · exact Nat.lt_of_le_of_lt Nat.and_le_right (by decide)

theorem agreeOff_mask : AgreeOff [(1308, 4), (1312, 4)] fs.mask fs := by
  rw [mask_eq]
  exact (Mem.agreeOff_write32 _ (by decide)).trans (Mem.agreeOff_write32 _ (by decide))

theorem flags_mask : fs.mask.flags = fs.flags &&& FS_SUPPORTED := by
  rw [mask_eq]
  exact Mem.read32_write32 (Nat.lt_of_le_of_lt Nat.and_le_left (Mem.read32_lt ..))

theorem metackhash_mask : fs.mask.metackhash = maskedMetackhash fs := by
  rw [mask_eq]
  have hoff : AgreeOff [(1312, 4)] ((fs.setMetackhash (maskedMetackhash fs)).setFlags (fs.flags &&& FS_SUPPORTED))
      (fs.setMetackhash (maskedMetackhash fs)) := Mem.agreeOff_write32 _ (by decide)
  exact (hoff.read32 (by decide)).trans (Mem.read32_write32 (maskedMetackhash_lt fs))

theorem ckhash_mask : fs.mask.ckhash = fs.ckhash := (agreeOff_mask fs).read32 (by decide)

theorem sbsize_mask : fs.mask.sbsize = fs.sbsize :=
  congrArg (fun n : Nat => toI32 n) ((agreeOff_mask fs).read32 (by decide))

variable {fs}

theorem Normal.masked (h : Normal fs) : maskedMetackhash fs = fs.metackhash := by
  unfold maskedMetackhash
  split
  case isTrue hk => exact (h.unused hk).symm
  case isFalse => exact h.metackhash

theorem Normal.mask (h : Normal fs) : fs.mask = fs := by
  rw [mask_eq, h.masked, h.flags]
  have hmeta : fs.setMetackhash fs.metackhash = fs := Mem.write32_read32 ..
  rw [hmeta]
  exact Mem.write32_read32 ..

/-- Only a superblock that is changed has something to clear. -/
theorem normal_of_mask (hf : fs.mask.flags = fs.flags) (hm : fs.mask.metackhash = fs.metackhash) : Normal fs := by
  rw [flags_mask] at hf
  rw [metackhash_mask] at hm
  unfold maskedMetackhash at hm
  refine ⟨hf, ?_, ?_⟩
  · split at hm
    · rw [← hm, Nat.zero_and]
    · exact hm
  · intro hk
    rw [if_pos hk] at hm
    exact hm.symm

theorem Normal.congr {fs' : Sb} (h : Normal fs) (hf : fs'.flags = fs.flags)
    (hm : fs'.metackhash = fs.metackhash) : Normal fs' := by
  refine ⟨?_, ?_, ?_⟩
  · rw [hf, h.flags]
  · rw [hm, h.metackhash]
  · rw [hf, hm]
    exact h.unused

end Mask

/-! ### `readsuper` -/

/-- What `readsuper` returns of what it has read. -/
def received (fs : Sb) (loc : Nat) : Sb := (fs.setSblockactualloc loc).setSi 0

section Read

variable {host : Host} {dev : Mem} {loc : Nat} {isaltsblk chkhash : Bool}

/-- The hash is compared after the masks. -/
theorem readsuper_acceptable [SysParam] (hbad : Sb.magic (readfunc host dev loc) ≠ FS_BAD_MAGIC)
    (hp : Acceptable (readfunc host dev loc) loc isaltsblk) {fs' : Sb} :
    readsuper host dev loc isaltsblk chkhash = .ok fs' ↔
      (Sb.mask (readfunc host dev loc)).ckhash = ffsCalcSbhash (Sb.mask (readfunc host dev loc)) ∧
        fs' = received (Sb.mask (readfunc host dev loc)) loc := by
  unfold readsuper
  simp only [if_neg hbad, if_pos hp]
  by_cases hck : (Sb.mask (readfunc host dev loc)).ckhash = ffsCalcSbhash (Sb.mask (readfunc host dev loc))
  · rw [if_neg (not_not.mpr hck)]
    constructor
    · intro h
      injection h with h
      exact ⟨hck, h.symm⟩
    · rintro ⟨-, rfl⟩
      rfl
  · rw [if_pos hck]
    constructor
    · intro h
      cases chkhash with
      | false =>
          rw [if_neg Bool.false_ne_true] at h
          cases h
      | true =>
          rw [if_pos rfl] at h
          cases h
    · exact fun h => absurd h.1 hck

/-- `pread` and the loop over blocks read the same. -/
theorem readfunc_eq (host : Host) (dev : Mem) (hd : DEV_BSIZE ∣ loc) (hlt : loc < 2 ^ 32) :
    readfunc host dev loc = fun x => dev (loc + x) := by
  cases host with
  | user => rfl
  | kernel =>
      funext x
      have hblk : (btodb loc DEV_BSIZE).toNat = loc / DEV_BSIZE := by
        unfold btodb
        rw [toU32_eq_self (Int.natCast_nonneg loc) (by exact_mod_cast hlt)]
        exact_mod_cast Int.toNat_natCast (loc / DEV_BSIZE)
      show dev (((btodb loc DEV_BSIZE).toNat + x / DEV_BSIZE) * DEV_BSIZE + x % DEV_BSIZE) = dev (loc + x)
      have hloc := Nat.div_mul_cancel hd
      have hx := Nat.div_add_mod' x DEV_BSIZE
      rw [hblk, Nat.add_mul, hloc, Nat.add_assoc, hx]

end Read

/-! ### The summary table -/

/-- The sizes of the file system fit together, and the summary table, which stands in the
first group, ends below 4 GiB. -/
structure Layout (fs : Sb) : Prop where
  fsize_eq : fs.fsize = DEV_BSIZE * 2 ^ fs.fsbtodbShift
  bsize_eq : fs.bsize = fs.frag * fs.fsize
  bsize_pos : 0 < fs.bsize
  cssize_dvd : fs.fsize ∣ fs.cssize
  area : fs.csaddr * fs.fsize + fs.cssize ≤ 2 ^ 32

/-- Pieces of the table that follow each other, from `s` to `e`, with the table at `base`. -/
def Tiled (fs : Sb) (base : Nat) : List Nat → Nat → Nat → Prop
  | [], s, e => s = e
  | i :: is, s, e => fs.pieceLoc i = base + s ∧ Tiled fs base is (s + fs.pieceSize i) e

section Table

variable {fs : Sb}

theorem Layout.frag_pos (h : Layout fs) : 0 < fs.frag := by
  have hpos := h.bsize_pos
  rw [h.bsize_eq] at hpos
  exact Nat.pos_of_mul_pos_right hpos

theorem Layout.fsize_pos (h : Layout fs) : 0 < fs.fsize := by
  have hpos := h.bsize_pos
  rw [h.bsize_eq] at hpos
  exact Nat.pos_of_mul_pos_left hpos

/-- No address of the table leaves 32 bits. -/
theorem Layout.pieceLoc_eq (h : Layout fs) {i : Nat} (hi : i * fs.fsize < fs.cssize) :
    fs.pieceLoc i = fs.csaddr * fs.fsize + i * fs.fsize := by
  have harea := h.area
  have hmul : (fs.csaddr + i) * fs.fsize = (fs.csaddr + i) * 2 ^ fs.fsbtodbShift * DEV_BSIZE := by
    rw [h.fsize_eq, Nat.mul_assoc, Nat.mul_comm DEV_BSIZE]
  have hlt : (fs.csaddr + i) * 2 ^ fs.fsbtodbShift * DEV_BSIZE < 2 ^ 32 := by
    rw [← hmul, Nat.add_mul]
    omega
  have hone : (fs.csaddr + i) * 1 ≤ (fs.csaddr + i) * 2 ^ fs.fsbtodbShift :=
    Nat.mul_le_mul_left _ (Nat.two_pow_pos _)
  have hcast : ((fs.csaddr : Int) + i) * 2 ^ fs.fsbtodbShift = ((fs.csaddr + i) * 2 ^ fs.fsbtodbShift : Nat) := by
    push_cast
    rfl
  rw [← Nat.add_mul, hmul]
  unfold Sb.pieceLoc Sb.fsbtodb dbtob
  unfold DEV_BSIZE at hlt ⊢
  rw [toI32_toI32_mul, hcast]
  generalize (fs.csaddr + i) * 2 ^ fs.fsbtodbShift = x at *
  rw [toI32_eq_self (by omega) (by omega), toU32_toU32_mul, toU32_eq_self (by omega) (by omega)]
  omega

theorem Layout.blks_eq (h : Layout fs) : (fs.cssize + (fs.fsize - 1)) / fs.fsize = fs.cssize / fs.fsize := by
  have hpos := h.fsize_pos
  obtain ⟨b, hb⟩ := h.cssize_dvd
  rw [hb, Nat.mul_add_div hpos, Nat.div_eq_of_lt (by omega), Nat.add_zero, Nat.mul_div_cancel_left _ hpos]

theorem Layout.tiled_from (h : Layout fs) (m : Nat) : ∀ k,
    k + m = (fs.cssize / fs.fsize + (fs.frag - 1)) / fs.frag →
    Tiled fs (fs.csaddr * fs.fsize) ((List.range' k m).map (· * fs.frag))
      (min (k * fs.frag) (fs.cssize / fs.fsize) * fs.fsize) fs.cssize := by
  have hfrag := h.frag_pos
  have hfsize := h.fsize_pos
  have hcs : fs.cssize / fs.fsize * fs.fsize = fs.cssize := Nat.div_mul_cancel h.cssize_dvd
  induction m with
  | zero =>
      intro k hk
      have hle : fs.cssize / fs.fsize ≤ k * fs.frag := by
        have hlt := Nat.lt_mul_of_div_lt (Nat.lt_succ_self ((fs.cssize / fs.fsize + (fs.frag - 1)) / fs.frag)) hfrag
        rw [← hk, Nat.add_zero, Nat.succ_mul] at hlt
        omega
      show min (k * fs.frag) (fs.cssize / fs.fsize) * fs.fsize = fs.cssize
      rw [Nat.min_eq_right hle, hcs]
  | succ m ih =>
      intro k hk
      have hlt : k * fs.frag < fs.cssize / fs.fsize := by
        have hle := (Nat.le_div_iff_mul_le hfrag).mp (show k + 1 ≤ _ by omega : k + 1 ≤ (fs.cssize / fs.fsize + (fs.frag - 1)) / fs.frag)
        rw [Nat.add_mul, Nat.one_mul] at hle
        omega
      have hpiece : k * fs.frag * fs.fsize < fs.cssize := by
        rw [← hcs]
        exact Nat.mul_lt_mul_of_pos_right hlt hfsize
      -- a whole block, or the rest
      have hsize : min (k * fs.frag) (fs.cssize / fs.fsize) * fs.fsize + fs.pieceSize (k * fs.frag)
          = min ((k + 1) * fs.frag) (fs.cssize / fs.fsize) * fs.fsize := by
        unfold Sb.pieceSize
        dsimp only
        rw [h.blks_eq, Nat.min_eq_left hlt.le, h.bsize_eq, Nat.add_mul, Nat.one_mul]
        split
        case isTrue hrest =>
          rw [Nat.min_eq_right hrest.le, ← Nat.add_mul, Nat.add_sub_cancel' hlt.le]
        case isFalse hrest =>
          rw [Nat.min_eq_left (by omega), ← Nat.add_mul]
      rw [List.range'_succ, List.map_cons]
      refine ⟨?_, ?_⟩
      · rw [Nat.min_eq_left hlt.le]
        exact h.pieceLoc_eq hpiece
      · rw [hsize]
        exact ih (k + 1) (by omega)

theorem Layout.tiled (h : Layout fs) : Tiled fs (fs.csaddr * fs.fsize) fs.pieces 0 fs.cssize := by
  have hall := h.tiled_from _ 0 (Nat.zero_add _)
  rw [Nat.zero_mul, Nat.zero_min, Nat.zero_mul] at hall
  unfold Sb.pieces
  dsimp only
  rw [h.blks_eq, List.range_eq_range']
  exact hall

/-- Every piece starts at a block of the device. -/
theorem Layout.piece_mem (h : Layout fs) {i : Nat} (hi : i ∈ fs.pieces) :
    DEV_BSIZE ∣ fs.pieceLoc i ∧ fs.pieceLoc i < 2 ^ 32 ∧ fs.csaddr * fs.fsize ≤ fs.pieceLoc i ∧
      fs.pieceLoc i < fs.csaddr * fs.fsize + fs.cssize := by
  have harea := h.area
  unfold Sb.pieces at hi
  dsimp only at hi
  rw [h.blks_eq] at hi
  obtain ⟨k, hk, rfl⟩ := List.mem_map.mp hi
  have hlt : k * fs.frag < fs.cssize / fs.fsize := by
    have hle := (Nat.le_div_iff_mul_le h.frag_pos).mp (Nat.succ_le_of_lt (List.mem_range.mp hk))
    have hfrag := h.frag_pos
    rw [Nat.succ_mul] at hle
    omega
  have hpiece : k * fs.frag * fs.fsize < fs.cssize := by
    rw [← Nat.div_mul_cancel h.cssize_dvd]
    exact Nat.mul_lt_mul_of_pos_right hlt h.fsize_pos
  rw [h.pieceLoc_eq hpiece]
  refine ⟨?_, by omega, by omega, by omega⟩
  rw [← Nat.add_mul, h.fsize_eq, Nat.mul_left_comm]
  exact Nat.dvd_mul_right ..

variable {base : Nat} {csp : Mem} {is : List Nat}

theorem Tiled.le : ∀ {is : List Nat} {s e : Nat}, Tiled fs base is s e → s ≤ e
  | [], _, _, h => Nat.le_of_eq h
  | _ :: _, _, _, h => Nat.le_trans (Nat.le_add_right ..) (Tiled.le h.2)

/-- The pieces go out as one range. -/
theorem putPieces_tiled {write : Writefunc} (hw : ∀ i ∈ is, ∀ buf size dev,
    write (fs.pieceLoc i) buf size dev = some (dev.copy (fs.pieceLoc i) buf 0 size)) :
    ∀ {s e : Nat} {dev : Mem}, Tiled fs base is s e →
      putPieces write fs csp is s dev = some (dev.copy (base + s) csp s (e - s)) := by
  induction is with
  | nil =>
      intro s e dev h
      have heq : s = e := h
      rw [heq, Nat.sub_self, Mem.copy_zero]
      rfl
  | cons i is ih =>
      intro s e dev h
      have hle := Tiled.le h.2
      unfold putPieces
      rw [hw i List.mem_cons_self, Option.bind_eq_bind, Option.bind_some,
        ih (fun j hj => hw j (List.mem_cons_of_mem _ hj)) h.2, Mem.copy_shift, h.1, ← Nat.add_assoc, Mem.copy_copy]
      congr 2
      omega

/-- The pieces come in as one range. -/
theorem getPieces_tiled {host : Host} {dev : Mem} (hr : ∀ i ∈ is,
    readfunc host dev (fs.pieceLoc i) = fun x => dev (fs.pieceLoc i + x)) :
    ∀ {s e : Nat} {csp : Mem}, Tiled fs base is s e →
      getPieces host dev fs is s csp = csp.copy s dev (base + s) (e - s) := by
  induction is with
  | nil =>
      intro s e csp h
      have heq : s = e := h
      rw [heq, Nat.sub_self, Mem.copy_zero]
      rfl
  | cons i is ih =>
      intro s e csp h
      have hle := Tiled.le h.2
      unfold getPieces
      dsimp only
      rw [hr i List.mem_cons_self, ih (fun j hj => hr j (List.mem_cons_of_mem _ hj)) h.2, Mem.copy_shift, h.1,
        ← Nat.add_assoc, Mem.copy_copy]
      congr 1
      omega

end Table

/-! ### Valid superblocks -/

/-- What belongs to memory or to the moment: `fs_fmod`, `fs_si`, `fs_sblockactualloc`,
`fs_time` and `fs_ckhash`. -/
def transient : List Span := [(208, 1), (848, 8), (992, 8), (1072, 8), (1304, 4)]

/-- What `ffs_oldfscompat_write` sets: `fs_old_time`, `fs_old_cstotal` and `fs_maxfilesize`
for UFS1, `fs_cgsize` and `fs_save_cgsize` with `bigcgs`. -/
def compat : List Span := 
  [(32, 4), (192, 4), (196, 4), (200, 4), (204, 4), (1328, 8), (160, 4), (1204, 4)]

def transientIn (ump : SbMount) (sb : Sb) : List Span :=
  transient
    ++ (if sb.magic = FS_UFS1_MAGIC then [(32, 4), (192, 4), (196, 4), (200, 4), (204, 4), (1328, 8)] else [])
    ++ (if ump.bigcgs then [(160, 4), (1204, 4)] else [])

/-- A superblock that every reader takes for one. -/
structure Valid [SysParam] (fs : Sb) : Prop extends Layout fs where
  magic : fs.magic = FS_UFS1_MAGIC ∨ fs.magic = FS_UFS2_MAGIC
  ncg : 1 ≤ fs.ncg
  bsize_ge : MINBSIZE ≤ fs.bsize
  bsize_le : fs.bsize ≤ SysParam.MAXBSIZE
  sbsize_ge : sizeofFs ≤ fs.sbsize
  sbsize_le : fs.sbsize ≤ SBLOCKSIZE

/-- The superblock at `loc` and the summary table do not meet. -/
structure Place (fs : Sb) (loc : Nat) : Prop where
  dvd : DEV_BSIZE ∣ loc
  lt : loc < 2 ^ 32
  apart : loc + SBLOCKSIZE ≤ fs.csaddr * fs.fsize ∨ fs.csaddr * fs.fsize + fs.cssize ≤ loc

section Valid

variable {fs fs' : Sb}

theorem transientIn_subset (ump : SbMount) (sb : Sb) : transientIn ump sb ⊆ transient ++ compat := by
  unfold transientIn
  intro r hr
  rcases List.mem_append.mp hr with hr | hr
  · rcases List.mem_append.mp hr with hr | hr
    · exact List.mem_append_left _ hr
    · split at hr
      · exact List.mem_append_right _ (List.mem_of_mem_take (i := 6) hr)
      · cases hr
  · split at hr
    · exact List.mem_append_right _ (List.mem_of_mem_drop (i := 6) hr)
    · cases hr

/-- Everything that decides about reading and writing is the same. -/
structure Alike (fs fs' : Sb) : Prop where
  magic : fs.magic = fs'.magic
  ncg : fs.ncg = fs'.ncg
  bsize : fs.bsize = fs'.bsize
  fsize : fs.fsize = fs'.fsize
  frag : fs.frag = fs'.frag
  shift : fs.fsbtodbShift = fs'.fsbtodbShift
  sbsize : fs.sbsize = fs'.sbsize
  cssize : fs.cssize = fs'.cssize
  csaddr : fs.csaddr = fs'.csaddr
  sblockloc : fs.sblockloc = fs'.sblockloc
  flags : fs.flags = fs'.flags
  metackhash : fs.metackhash = fs'.metackhash

theorem alike_of_sameOff (h : SameOff (transient ++ compat) fs fs') : Alike fs fs' where
  magic := h.read32 (by decide) (by decide)
  ncg := h.read32 (by decide) (by decide)
  bsize := h.read32 (by decide) (by decide)
  fsize := h.read32 (by decide) (by decide)
  frag := h.read32 (by decide) (by decide)
  shift := h.read32 (by decide) (by decide)
  sbsize := congrArg (fun n : Nat => toI32 n) (h.read32 (by decide) (by decide))
  cssize := h.read32 (by decide) (by decide)
  csaddr := h.read64 (by decide) (by decide)
  sblockloc := h.read64 (by decide) (by decide)
  flags := h.read32 (by decide) (by decide)
  metackhash := h.read32 (by decide) (by decide)

theorem Alike.valid [SysParam] (ha : Alike fs fs') (h : Valid fs') : Valid fs where
  fsize_eq := by rw [ha.fsize, ha.shift, h.fsize_eq]
  bsize_eq := by rw [ha.bsize, ha.frag, ha.fsize, h.bsize_eq]
  bsize_pos := by rw [ha.bsize]; exact h.bsize_pos
  cssize_dvd := by rw [ha.fsize, ha.cssize]; exact h.cssize_dvd
  area := by rw [ha.csaddr, ha.fsize, ha.cssize]; exact h.area
  magic := by rw [ha.magic]; exact h.magic
  ncg := by rw [ha.ncg]; exact h.ncg
  bsize_ge := by rw [ha.bsize]; exact h.bsize_ge
  bsize_le := by rw [ha.bsize]; exact h.bsize_le
  sbsize_ge := by rw [ha.sbsize]; exact h.sbsize_ge
  sbsize_le := by rw [ha.sbsize]; exact h.sbsize_le

theorem Alike.normal (ha : Alike fs fs') (h : Normal fs') : Normal fs := h.congr ha.flags ha.metackhash

theorem Alike.place {loc : Nat} (ha : Alike fs fs') (h : Place fs' loc) : Place fs loc where
  dvd := h.dvd
  lt := h.lt
  apart := by rw [ha.csaddr, ha.fsize, ha.cssize]; exact h.apart

theorem Valid.magic_ne [SysParam] (h : Valid fs) : fs.magic ≠ FS_BAD_MAGIC := by
  rcases h.magic with hm | hm
  · rw [hm]
    decide
  · rw [hm]
    decide

theorem Valid.acceptable [SysParam] (h : Valid fs) {loc : Nat} {isaltsblk : Bool}
    (hloc : isaltsblk = true ∨ (fs.magic = FS_UFS1_MAGIC → loc ≤ SBLOCK_UFS1) ∧ (fs.magic = FS_UFS2_MAGIC → loc = fs.sblockloc)) :
    Acceptable fs loc isaltsblk := by
  have hge := h.bsize_ge
  refine ⟨?_, h.ncg, hge, h.bsize_le, Nat.le_trans (by decide) hge, h.sbsize_le⟩
  rcases h.magic with hm | hm
  · exact .inl ⟨hm, hloc.imp_right fun hl => hl.1 hm⟩
  · exact .inr ⟨hm, hloc.imp_right fun hl => hl.2 hm⟩

end Valid

/-! ### Reading what is stored -/

/-- An image of a superblock stands at `loc`, and the summary table in its area. -/
structure Stored (img csp : Mem) (loc : Nat) (dev : Mem) : Prop where
  sb : ∀ k, k < (Sb.sbsize img).toNat → dev (loc + k) = img k
  table : ∀ k, k < Sb.cssize img → dev (Sb.csaddr img * Sb.fsize img + k) = csp k

/-- `ffs_sbget` gives back the superblock and the whole table, and has accepted the hash. -/
def Back (rs : List Span) (sb csp : Mem) (r : ReadResult (Sb × Mem)) : Prop :=
  ∃ fs' csp', r = .ok (fs', csp') ∧ SameOff rs fs' sb ∧ ∀ k, k < Sb.cssize sb → csp' k = csp k

/-- A call of `ffs_sbget` with `altsblock` looks at `loc`: it is asked to, or it searches and
finds no superblock at the places before. -/
def Reaches [SysParam] (host : Host) (dev : Mem) (sb : Sb) (loc : Nat) (altsblock : Int) : Prop :=
  altsblock = loc ∨
    altsblock < 0 ∧ (sb.magic = FS_UFS1_MAGIC → loc ≤ SBLOCK_UFS1) ∧ (sb.magic = FS_UFS2_MAGIC → loc = sb.sblockloc) ∧
      ∃ pre post, sblockTry = pre ++ loc :: post ∧
        ∀ l ∈ pre, readsuper host dev l false (decide (altsblock ≠ STDSB_NOHASHFAIL)) = .error ENOENT

section Stored

variable {host : Host} {dev : Mem} {loc : Nat} {img csp : Mem} {rs : List Span} {sb : Sb}

/-- The image as `readfunc` gives it. -/
theorem Stored.read (h : Stored img csp loc dev) (hp : Place img loc) (host : Host) :
    ∀ k, k < (Sb.sbsize img).toNat → readfunc host dev loc k = img k := by
  rw [readfunc_eq host dev hp.dvd hp.lt]
  exact h.sb

theorem sameOff_of_read [SysParam] {raw : Sb} (hv : Valid img) (h : ∀ k, k < (Sb.sbsize img).toNat → raw k = img k)
    (rs : List Span) : SameOff rs raw img := by
  have hge := hv.sbsize_ge
  exact fun k hk _ => h k (by omega)

/-- The hash of the image is that of the bytes read. -/
theorem hash_of_read [SysParam] {raw : Sb} (hv : Valid img) (h : ∀ k, k < (Sb.sbsize img).toNat → raw k = img k) :
    ffsCalcSbhash raw = ffsCalcSbhash img := by
  have hoff := sameOff_of_read hv h []
  have ha := alike_of_sameOff (sameOff_of_read hv h _)
  have hck : raw.ckhash = Sb.ckhash img := hoff.read32 (by decide) (by decide)
  have hbytes : Mem.readBytes (raw.setCkhash 0) 0 (Sb.sbsize img).toNat
      = Mem.readBytes (Sb.setCkhash img 0) 0 (Sb.sbsize img).toNat := readBytes_congr (write32_congr 1304 0 h)
  unfold ffsCalcSbhash Sb.crc
  rw [ha.metackhash, hck, ha.sbsize, hbytes]

theorem sameOff_received [SysParam] (fs : Sb) (loc : Nat) : SameOff transient (received fs loc) fs :=
  SameOff.of_agreeOff ((Mem.agreeOff_write64 _ (by decide)).trans (Mem.agreeOff_write64 _ (by decide)))

variable [SysParam] (hst : Stored img csp loc dev) (hv : Valid img) (hp : Place img loc)

include hst hv hp in
/-- A hashed image without bits to clear is accepted. -/
theorem Stored.readsuper_ok (hh : Sb.ckhash img = ffsCalcSbhash img) (hn : Normal img) (host : Host)
    {isaltsblk : Bool} (chkhash : Bool)
    (hloc : isaltsblk = true ∨
      (Sb.magic img = FS_UFS1_MAGIC → loc ≤ SBLOCK_UFS1) ∧ (Sb.magic img = FS_UFS2_MAGIC → loc = Sb.sblockloc img)) :
    readsuper host dev loc isaltsblk chkhash = .ok (received (readfunc host dev loc) loc) := by
  have hraw := hst.read hp host
  have hoff := sameOff_of_read hv hraw []
  have ha : Alike (readfunc host dev loc) img := alike_of_sameOff (sameOff_of_read hv hraw _)
  have hvr : Valid (readfunc host dev loc) := ha.valid hv
  have hck : Sb.ckhash (readfunc host dev loc) = Sb.ckhash img := hoff.read32 (by decide) (by decide)
  refine (readsuper_acceptable hvr.magic_ne (hvr.acceptable ?_)).mpr ⟨?_, ?_⟩
  · rw [ha.magic, ha.sblockloc]
    exact hloc
  · rw [(ha.normal hn).mask, hck, hash_of_read hv hraw, hh]
  · rw [(ha.normal hn).mask]

include hst hv in
/-- The table comes in with any superblock that agrees with the image. -/
theorem Stored.table_read (host : Host) {fs : Sb} (ha : Alike fs img) {k : Nat} (hk : k < Sb.cssize img) :
    getPieces host dev fs fs.pieces 0 (fun _ => 0) k = csp k := by
  have hl : Layout fs := (ha.valid hv).toLayout
  have hread : ∀ i ∈ fs.pieces, readfunc host dev (fs.pieceLoc i) = fun x => dev (fs.pieceLoc i + x) := by
    intro i hi
    have hmem := hl.piece_mem hi
    exact readfunc_eq host dev hmem.1 hmem.2.1
  rw [getPieces_tiled hread hl.tiled, ha.csaddr, ha.fsize, ha.cssize]
  unfold Mem.copy
  rw [if_pos ⟨Nat.zero_le k, by omega⟩, Nat.add_zero, Nat.sub_zero]
  exact hst.table k hk

/-- A search goes on from place to place until it finds a superblock. -/
theorem searchSuper_append {chkhash : Bool} {fs' : Sb} {pre post : List Nat}
    (hok : readsuper host dev loc false chkhash = .ok fs')
    (hpre : ∀ l ∈ pre, readsuper host dev l false chkhash = .error ENOENT) :
    searchSuper host dev chkhash (pre ++ loc :: post) = .ok fs' := by
  induction pre with
  | nil =>
      rw [List.nil_append]
      unfold searchSuper
      rw [hok]
  | cons l pre ih =>
      rw [List.cons_append]
      unfold searchSuper
      rw [hpre l List.mem_cons_self]
      show (if ENOENT = ENOENT then _ else _) = _
      rw [if_pos rfl]
      exact ih fun l' hl' => hpre l' (List.mem_cons_of_mem _ hl')

include hst hv hp in
theorem Stored.back (hh : Sb.ckhash img = ffsCalcSbhash img) (hsub : transient ⊆ rs) (hsub' : rs ⊆ transient ++ compat)
    (him : SameOff rs img sb) (hn : Normal img) {altsblock : Int} (hr : Reaches host dev img loc altsblock) :
    Back rs sb csp (ffsSbget host dev altsblock) := by
  have hraw := hst.read hp host
  have hrec : SameOff rs (received (readfunc host dev loc) loc) img :=
    ((sameOff_received _ _).mono hsub).trans (sameOff_of_read hv hraw _)
  have ha : Alike (received (readfunc host dev loc) loc) img := alike_of_sameOff (hrec.mono hsub')
  have hget : ffsSbget host dev altsblock = .ok (received (readfunc host dev loc) loc,
      getPieces host dev (received (readfunc host dev loc) loc)
        (Sb.pieces (received (readfunc host dev loc) loc)) 0 fun _ => 0) := by
    unfold ffsSbget
    rcases hr with rfl | ⟨hneg, hone, htwo, pre, post, htry, hpre⟩
    · rw [if_pos (Int.natCast_nonneg loc), Int.toNat_natCast, hst.readsuper_ok hv hp hh hn host false (.inl rfl)]
      rfl
    · rw [if_neg (by omega), htry, searchSuper_append (hst.readsuper_ok hv hp hh hn host _ (.inr ⟨hone, htwo⟩)) hpre]
      rfl
  have hcs : Sb.cssize sb = Sb.cssize img := (alike_of_sameOff (him.mono hsub')).cssize.symm
  refine ⟨_, _, hget, hrec.trans him, fun k hk => ?_⟩
  rw [hcs] at hk
  exact hst.table_read hv host ha hk

include hst hv hp in
/-- What comes back unchanged had no bits to clear. -/
theorem Stored.normal_of_back (hsub' : rs ⊆ transient ++ compat) (him : SameOff rs img sb)
    (hb : Back rs sb csp (ffsSbget host dev loc)) : Normal sb := by
  obtain ⟨fs', csp', hget, hoff, -⟩ := hb
  have hraw := hst.read hp host
  have ha : Alike (readfunc host dev loc) img := alike_of_sameOff (sameOff_of_read hv hraw _)
  have hvr : Valid (readfunc host dev loc) := ha.valid hv
  have hsb := alike_of_sameOff (him.mono hsub')
  have hfs := alike_of_sameOff (hoff.mono hsub')
  unfold ffsSbget at hget
  rw [if_pos (Int.natCast_nonneg loc), Int.toNat_natCast] at hget
  cases hread : readsuper host dev loc true false with
  | error e => rw [hread] at hget; cases hget
  | panic => rw [hread] at hget; cases hget
  | ignored fs => rw [hread] at hget; cases hget
  | ok fs =>
      rw [hread] at hget
      injection hget with hget
      have hfst : fs = fs' := congrArg Prod.fst hget
      have hmask := ((readsuper_acceptable hvr.magic_ne (hvr.acceptable (.inl rfl))).mp hread).2
      rw [hfst] at hmask
      have hrec := alike_of_sameOff ((sameOff_received (Sb.mask (readfunc host dev loc)) loc).mono
        (List.subset_append_left transient compat))
      rw [← hmask] at hrec
      -- the masked words are the words of `sb`
      have hflags : (Sb.mask (readfunc host dev loc)).flags = Sb.flags (readfunc host dev loc) := by
        rw [← hrec.flags, hfs.flags, ha.flags, hsb.flags]
      have hmeta : (Sb.mask (readfunc host dev loc)).metackhash = Sb.metackhash (readfunc host dev loc) := by
        rw [← hrec.metackhash, hfs.metackhash, ha.metackhash, hsb.metackhash]
      exact (normal_of_mask hflags hmeta).congr (by rw [ha.flags, hsb.flags]) (by rw [ha.metackhash, hsb.metackhash])

end Stored

/-! ### Writing with libufs -/

/-- What `ffs_sbput` writes in libufs. -/
def userImage (fs : Sb) (now : Nat) : Sb :=
  let fs := ((fs.setFmod 0).setTime now).setSi 0
  fs.setCkhash (ffsCalcSbhash fs)

/-- Where `sbput` writes copy `i`. -/
def copyLoc (fs : Sb) (i : Nat) : Nat := (dbtob (fs.fsbtodb (fs.cgsblock i)) DEV_BSIZE).toNat

/-- The first `n` copies meet neither the superblock at `loc` nor the summary table. -/
def CopiesApart (fs : Sb) (loc n : Nat) : Prop :=
  ∀ i, i < n →
    (copyLoc fs i + fs.sbsize.toNat ≤ loc ∨ loc + fs.sbsize.toNat ≤ copyLoc fs i) ∧
      (copyLoc fs i + fs.sbsize.toNat ≤ fs.csaddr * fs.fsize ∨ fs.csaddr * fs.fsize + fs.cssize ≤ copyLoc fs i)

section User

variable {fs sb csp dev : Mem} {loc : Nat}

theorem sameOff_userImage (fs : Sb) (now : Nat) : SameOff transient (userImage fs now) fs :=
  SameOff.of_agreeOff ((Mem.agreeOff_write32 _ (by decide)).trans ((Mem.agreeOff_write64 _ (by decide)).trans
    ((Mem.agreeOff_write64 _ (by decide)).trans (Mem.agreeOff_write8 _ (by decide)))))

theorem SameOff.alike (h : SameOff transient fs sb) : Alike fs sb :=
  alike_of_sameOff (h.mono (List.subset_append_left ..))

/-- The address of a copy depends on fields that `ffs_sbput` leaves alone. -/
theorem SameOff.copyLoc_eq (h : SameOff transient fs sb) (i : Nat) : copyLoc fs i = copyLoc sb i := by
  have hsblkno : Sb.sblkno fs = Sb.sblkno sb := h.read32 (by decide) (by decide)
  have hoff : Sb.oldCgoffset fs = Sb.oldCgoffset sb :=
    congrArg (fun n : Nat => toI32 n) (h.read32 (by decide) (by decide))
  have hmask : Sb.oldCgmask fs = Sb.oldCgmask sb :=
    congrArg (fun n : Nat => toI32 n) (h.read32 (by decide) (by decide))
  have hfpg : Sb.fpg fs = Sb.fpg sb := h.read32 (by decide) (by decide)
  unfold copyLoc Sb.fsbtodb Sb.cgsblock
  rw [h.alike.magic, h.alike.shift, hsblkno, hoff, hmask, hfpg]

/-- A superblock without table is written at its place, and nothing else happens. -/
theorem ffsSbput_copy (fs : Sb) (loc now : Nat) (dev : Mem) :
    ffsSbput .user usePwrite fs none loc now dev =
      some ((userImage fs now).setSi ((fs.setFmod 0).setTime now).si,
        dev.copy loc (userImage fs now) 0 (Sb.sbsize (userImage fs now)).toNat) := rfl

/-- The table is written first, as one range. -/
theorem ffsSbput_user (hl : Layout fs) (loc now : Nat) (dev : Mem) :
    ffsSbput .user usePwrite fs (some csp) loc now dev =
      ffsSbput .user usePwrite fs none loc now (dev.copy (Sb.csaddr fs * Sb.fsize fs) csp 0 (Sb.cssize fs)) := by
  have hwrite : ∀ i ∈ Sb.pieces fs, ∀ buf size dev,
      usePwrite (Sb.pieceLoc fs i) buf size dev = some (dev.copy (Sb.pieceLoc fs i) buf 0 size) :=
    fun _ _ _ _ _ => rfl
  have hput : putPieces usePwrite fs csp (Sb.pieces fs) 0 dev
      = some (dev.copy (Sb.csaddr fs * Sb.fsize fs) csp 0 (Sb.cssize fs)) := by
    rw [putPieces_tiled hwrite hl.tiled, Nat.add_zero, Nat.sub_zero]
  unfold ffsSbput
  dsimp only
  rw [hput]

/-- The copies change the device at their own places only. -/
theorem sbputCopies_off (now : Nat → Nat) (is : List Nat) : ∀ {fs : Sb} (dev : Mem), SameOff transient fs sb →
    ∃ dev', sbputCopies now is fs dev = some dev' ∧
      ∀ x, (∀ i ∈ is, x < copyLoc sb i ∨ copyLoc sb i + (Sb.sbsize sb).toNat ≤ x) → dev' x = dev x := by
  induction is with
  | nil => exact fun {fs} dev _ => ⟨dev, rfl, fun _ _ => rfl⟩
  | cons i is ih =>
      intro fs dev h
      have hset : SameOff transient (fs.setSblockactualloc (copyLoc fs i)) fs :=
        SameOff.of_agreeOff (Mem.agreeOff_write64 _ (by decide))
      have himg := (sameOff_userImage (fs.setSblockactualloc (copyLoc fs i)) (now (i + 1))).trans (hset.trans h)
      have hnext : SameOff transient ((userImage (fs.setSblockactualloc (copyLoc fs i)) (now (i + 1))).setSi
          (((fs.setSblockactualloc (copyLoc fs i)).setFmod 0).setTime (now (i + 1))).si) sb :=
        (SameOff.of_agreeOff (Mem.agreeOff_write64 _ (by decide))).trans himg
      obtain ⟨dev', heq, hoff⟩ := ih (dev.copy (copyLoc fs i)
        (userImage (fs.setSblockactualloc (copyLoc fs i)) (now (i + 1))) 0
        (Sb.sbsize (userImage (fs.setSblockactualloc (copyLoc fs i)) (now (i + 1)))).toNat) hnext
      refine ⟨dev', heq, fun x hx => ?_⟩
      rw [hoff x fun j hj => hx j (List.mem_cons_of_mem _ hj)]
      have hi := hx i List.mem_cons_self
      rw [himg.alike.sbsize, h.copyLoc_eq]
      unfold Mem.copy
      rw [if_neg (by omega)]

/-- After `sbput` the image and the table stand where they belong. -/
theorem stored_sbput [SysParam] (csp : Mem) (hv : Valid sb) (hp : Place sb (Sb.sblockactualloc sb)) {n : Nat}
    (hc : CopiesApart sb (Sb.sblockactualloc sb) n) (now : Nat → Nat) (dev : Mem) :
    ∃ dev', sbput sb csp n now dev = some dev' ∧ Stored (userImage sb (now 0)) csp (Sb.sblockactualloc sb) dev' := by
  have himg := sameOff_userImage sb (now 0)
  have hstart : SameOff transient ((userImage sb (now 0)).setSi ((Sb.setFmod sb 0).setTime (now 0)).si) sb :=
    (SameOff.of_agreeOff (Mem.agreeOff_write64 _ (by decide))).trans himg
  obtain ⟨dev', heq, hoff⟩ := sbputCopies_off now (List.range n)
    ((dev.copy (Sb.csaddr sb * Sb.fsize sb) csp 0 (Sb.cssize sb)).copy (Sb.sblockactualloc sb)
      (userImage sb (now 0)) 0 (Sb.sbsize (userImage sb (now 0))).toNat) hstart
  have hle : (Sb.sbsize sb).toNat ≤ SBLOCKSIZE := by
    have := hv.sbsize_le
    omega
  have hapart := hp.apart
  refine ⟨dev', ?_, ?_, ?_⟩
  · unfold sbput
    rw [ffsSbput_user hv.toLayout, ffsSbput_copy]
    exact heq
  · intro k hk
    rw [himg.alike.sbsize] at hk
    rw [hoff _ fun i hi => ?_]
    · unfold Mem.copy
      rw [himg.alike.sbsize, if_pos (by omega), Nat.add_sub_cancel_left, Nat.zero_add]
    · have hci := (hc i (List.mem_range.mp hi)).1
      omega
  · intro k hk
    rw [himg.alike.cssize] at hk
    rw [himg.alike.csaddr, himg.alike.fsize, hoff _ fun i hi => ?_]
    · unfold Mem.copy
      rw [himg.alike.sbsize, if_neg (by omega), if_pos (by omega), Nat.add_sub_cancel_left, Nat.zero_add]
    · have hci := (hc i (List.mem_range.mp hi)).2
      omega

end User

/-- `sbput`, and `ffs_sbget` afterwards, in libufs or in the kernel. -/
def UserRoundTrip [SysParam] (sb csp : Mem) (n : Nat) : Prop :=
  ∀ (now : Nat → Nat) (dev : Mem), ∃ dev', sbput sb csp n now dev = some dev' ∧
    ∀ (host : Host) (altsblock : Int), Reaches host dev' sb (Sb.sblockactualloc sb) altsblock →
      Back transient sb csp (ffsSbget host dev' altsblock)

theorem Reaches.congr [SysParam] {host : Host} {dev : Mem} {fs sb : Sb} {loc : Nat} {altsblock : Int} (ha : Alike fs sb)
    (h : Reaches host dev sb loc altsblock) : Reaches host dev fs loc altsblock := by
  unfold Reaches at *
  rw [ha.magic, ha.sblockloc]
  exact h

theorem userRoundTrip_iff [SysParam] {sb csp : Mem} {n : Nat} (hv : Valid sb) (hp : Place sb (Sb.sblockactualloc sb))
    (hc : CopiesApart sb (Sb.sblockactualloc sb) n) : UserRoundTrip sb csp n ↔ Normal sb := by
  constructor
  · intro h
    obtain ⟨dev', heq, hback⟩ := h (fun _ => 0) (fun _ => 0)
    obtain ⟨dev'', heq', hst⟩ := stored_sbput csp hv hp hc (fun _ => 0) (fun _ => 0)
    rw [heq] at heq'
    cases heq'
    have himg := sameOff_userImage sb 0
    exact hst.normal_of_back (himg.alike.valid hv) (himg.alike.place hp) (List.subset_append_left ..) himg
      (hback .user _ (.inl rfl))
  · intro hn now dev
    obtain ⟨dev', heq, hst⟩ := stored_sbput csp hv hp hc now dev
    have himg := sameOff_userImage sb (now 0)
    exact ⟨dev', heq, fun host altsblock hr => hst.back (himg.alike.valid hv) (himg.alike.place hp) (ckhash_hashed _)
      (List.Subset.refl _) (List.subset_append_left ..) himg (himg.alike.normal hn) (hr.congr himg.alike)⟩

/-! ### Writing in the kernel -/

/-- What `ffs_sbupdate` writes at time `now`. -/
def kernelImage (ump : SbMount) (fs : Sb) (now : Nat) : Sb :=
  let fs := (fs.setFmod 0).setTime now
  Sb.image ump (fs.setCkhash (ffsCalcSbhash fs))

/-- A superblock in use: `ffs_oldfscompat_read` has set `FS_FLAGS_UPDATED`. -/
structure Mounted [SysParam] (fs : Sb) : Prop extends Valid fs, Place fs fs.sblockloc where
  updated : fs.oldFlags &&& FS_FLAGS_UPDATED ≠ 0

section Kernel

variable {fs sb csp dev : Mem} {ump : SbMount}

theorem sameOff_compatWrite (ump : SbMount) (fs : Sb) :
    SameOff (transientIn ump fs) (ffsOldfscompatWrite ump fs) fs := by
  refine SameOff.of_agreeOff ?_
  unfold ffsOldfscompatWrite transientIn
  dsimp only
  have hone : ∀ g : Sb, AgreeOff (transient ++ [] ++ [(160, 4), (1204, 4)]) ((g.setCgsize g.saveCgsize).setSaveCgsize 0) g :=
    fun g => (Mem.agreeOff_write32 _ (by decide)).trans (Mem.agreeOff_write32 _ (by decide))
  have htwo : ∀ a b c d e f : Nat, AgreeOff
      (transient ++ [(32, 4), (192, 4), (196, 4), (200, 4), (204, 4), (1328, 8)] ++ [])
      (Sb.setMaxfilesize (Mem.write32 (Mem.write32 (Mem.write32 (Mem.write32 (fs.setOldTime a) 192 b) 196 c) 200 d) 204 e) f)
      fs := fun a b c d e f =>
    (Mem.agreeOff_write64 _ (by decide)).trans ((Mem.agreeOff_write32 _ (by decide)).trans
      ((Mem.agreeOff_write32 _ (by decide)).trans ((Mem.agreeOff_write32 _ (by decide)).trans
        ((Mem.agreeOff_write32 _ (by decide)).trans (Mem.agreeOff_write32 _ (by decide))))))
  have hsub : ∀ l : List Span, transient ++ [] ++ [(160, 4), (1204, 4)] ⊆ transient ++ l ++ [(160, 4), (1204, 4)] := by
    intro l r hr
    rw [List.append_nil] at hr
    rcases List.mem_append.mp hr with hr | hr
    · exact List.mem_append_left _ (List.mem_append_left _ hr)
    · exact List.mem_append_right _ hr
  have hsub' : ∀ l l' : List Span, transient ++ l ++ [] ⊆ transient ++ l ++ l' := by
    intro l l' r hr
    rw [List.append_nil] at hr
    exact List.mem_append_left _ hr
  split
  · split
    · exact ((hone _).mono (hsub _)).trans (AgreeOff.mono (htwo _ _ _ _ _ _) (hsub' _ _))
    · exact htwo _ _ _ _ _ _
  · split
    · exact hone _
    · exact AgreeOff.refl _ _

theorem sameOff_kernelImage (hu : Sb.oldFlags sb &&& FS_FLAGS_UPDATED ≠ 0) (now : Nat) :
    SameOff (transientIn ump sb) (kernelImage ump sb now) sb := by
  have hsub : transient ⊆ transientIn ump sb := fun r hr => List.mem_append_left _ (List.mem_append_left _ hr)
  let fs₁ := (Sb.setFmod sb 0).setTime now
  let fs₂ := fs₁.setCkhash (ffsCalcSbhash fs₁)
  have h₂ : SameOff transient fs₂ sb := SameOff.of_agreeOff ((Mem.agreeOff_write32 _ (by decide)).trans
    ((Mem.agreeOff_write64 _ (by decide)).trans (Mem.agreeOff_write8 _ (by decide))))
  have hflags : fs₂.oldFlags = Sb.oldFlags sb := congrArg UInt8.toNat (h₂.byte (by decide) (by decide))
  have hcorrect : fs₂.correct = fs₂ := by
    unfold Sb.correct
    rw [hflags, if_neg hu]
  have htrans : transientIn ump fs₂ = transientIn ump sb := by
    unfold transientIn
    rw [h₂.alike.magic]
  have hcompat : SameOff (transientIn ump sb) (ffsOldfscompatWrite ump fs₂.correct) fs₂ := by
    rw [hcorrect, ← htrans]
    exact sameOff_compatWrite ump fs₂
  have hlast : SameOff transient (kernelImage ump sb now) (ffsOldfscompatWrite ump fs₂.correct) :=
    SameOff.of_agreeOff ((Mem.agreeOff_write32 _ (by decide)).trans (Mem.agreeOff_write64 _ (by decide)))
  exact (hlast.mono hsub).trans (hcompat.trans (h₂.mono hsub))

/-- With device blocks of 512 bytes an address loses nothing. -/
theorem SbMount.btodb_eq (hd : ump.devbsize = DEV_BSIZE) {loc : Nat} (h : loc < 2 ^ 32) :
    ump.btodb loc = some (loc / DEV_BSIZE) := by
  have hblk : (btodb loc DEV_BSIZE).toNat = loc / DEV_BSIZE := by
    unfold btodb
    rw [toU32_eq_self (Int.natCast_nonneg loc) (by exact_mod_cast h)]
    exact_mod_cast Int.toNat_natCast (loc / DEV_BSIZE)
  unfold SbMount.btodb
  rw [hd, if_neg (by decide), hblk]

/-- `ffs_sbupdate` writes the table, and then the image. -/
theorem ffsSbupdate_eq [SysParam] (hd : ump.devbsize = DEV_BSIZE) (hm : Mounted sb) (now : Nat) (dev : Mem) :
    ffsSbupdate ump sb csp now dev =
      some ((dev.copy (Sb.csaddr sb * Sb.fsize sb) csp 0 (Sb.cssize sb)).copy (Sb.sblockloc sb)
        (kernelImage ump sb now) 0 (Sb.sbsize sb).toNat) := by
  have hapart := hm.apart
  unfold SBLOCKSIZE at hapart
  have hwrite : ∀ i ∈ Sb.pieces sb, ∀ buf size dev, ffsUseBwrite ump (Sb.sblockloc sb) (Sb.pieceLoc sb i) buf size dev
      = some (dev.copy (Sb.pieceLoc sb i) buf 0 size) := by
    intro i hi buf size dev
    obtain ⟨hdvd, hlt, hlo, hhi⟩ := hm.toLayout.piece_mem hi
    have hne : Sb.pieceLoc sb i ≠ Sb.sblockloc sb := by omega
    unfold ffsUseBwrite
    rw [SbMount.btodb_eq hd hlt, Option.bind_eq_bind, Option.bind_some, if_pos hne, Nat.div_mul_cancel hdvd]
  have hput : putPieces (ffsUseBwrite ump (Sb.sblockloc sb)) sb csp (Sb.pieces sb) 0 dev
      = some (dev.copy (Sb.csaddr sb * Sb.fsize sb) csp 0 (Sb.cssize sb)) := by
    rw [putPieces_tiled hwrite hm.toLayout.tiled, Nat.add_zero, Nat.sub_zero]
  let fs₁ := (Sb.setFmod sb 0).setTime now
  have h₂ : SameOff transient (fs₁.setCkhash (ffsCalcSbhash fs₁)) sb :=
    SameOff.of_agreeOff ((Mem.agreeOff_write32 _ (by decide)).trans
      ((Mem.agreeOff_write64 _ (by decide)).trans (Mem.agreeOff_write8 _ (by decide))))
  have hlast : ∀ dev, ffsUseBwrite ump (Sb.sblockloc sb) (Sb.sblockloc sb) (fs₁.setCkhash (ffsCalcSbhash fs₁))
      (Sb.sbsize (fs₁.setCkhash (ffsCalcSbhash fs₁))).toNat dev
      = some (dev.copy (Sb.sblockloc sb) (kernelImage ump sb now) 0 (Sb.sbsize sb).toNat) := by
    intro dev
    unfold ffsUseBwrite
    rw [SbMount.btodb_eq hd hm.lt, Option.bind_eq_bind, Option.bind_some, if_neg (not_not.mpr rfl),
      Nat.div_mul_cancel hm.dvd, h₂.alike.sbsize]
    rfl
  unfold ffsSbupdate ffsSbput
  dsimp only
  rw [SbMount.btodb_eq hd hm.lt, hput]
  simp only [Option.bind_eq_bind, Option.bind_some]
  rw [hlast]
  rfl

theorem stored_sbupdate [SysParam] (csp : Mem) (hd : ump.devbsize = DEV_BSIZE) (hm : Mounted sb) (now : Nat) (dev : Mem) :
    ∃ dev', ffsSbupdate ump sb csp now dev = some dev' ∧
      Stored (kernelImage ump sb now) csp (Sb.sblockloc sb) dev' := by
  have ha : Alike (kernelImage ump sb now) sb :=
    alike_of_sameOff ((sameOff_kernelImage hm.updated now).mono (transientIn_subset ump sb))
  have hle : (Sb.sbsize sb).toNat ≤ SBLOCKSIZE := by
    have := hm.sbsize_le
    omega
  have hapart := hm.apart
  refine ⟨_, ffsSbupdate_eq hd hm now dev, fun k hk => ?_, fun k hk => ?_⟩
  · rw [ha.sbsize] at hk
    unfold Mem.copy
    rw [if_pos (by omega), Nat.add_sub_cancel_left, Nat.zero_add]
  · rw [ha.cssize] at hk
    rw [ha.csaddr, ha.fsize]
    unfold Mem.copy
    rw [if_neg (by omega), if_pos (by omega), Nat.add_sub_cancel_left, Nat.zero_add]

end Kernel

/-- `ffs_sbupdate`, and `ffs_sbget` afterwards, in libufs or in the kernel. -/
def KernelRoundTrip [SysParam] (ump : SbMount) (sb csp : Mem) : Prop :=
  ∀ (now : Nat) (dev : Mem), ∃ dev', ffsSbupdate ump sb csp now dev = some dev' ∧
    ∀ (host : Host) (altsblock : Int), Reaches host dev' sb (Sb.sblockloc sb) altsblock →
      Back (transientIn ump sb) sb csp (ffsSbget host dev' altsblock)

theorem kernelRoundTrip_iff [SysParam] {ump : SbMount} {sb csp : Mem} (hd : ump.devbsize = DEV_BSIZE) (hm : Mounted sb) :
    KernelRoundTrip ump sb csp ↔ Normal sb := by
  have hsub' := transientIn_subset ump sb
  constructor
  · intro h
    obtain ⟨dev', heq, hback⟩ := h 0 (fun _ => 0)
    obtain ⟨dev'', heq', hst⟩ := stored_sbupdate csp hd hm 0 (fun _ => 0)
    rw [heq] at heq'
    cases heq'
    have himg : SameOff (transientIn ump sb) (kernelImage ump sb 0) sb := sameOff_kernelImage hm.updated 0
    have ha := alike_of_sameOff (himg.mono hsub')
    exact hst.normal_of_back (ha.valid hm.toValid) (ha.place hm.toPlace) hsub' himg (hback .user _ (.inl rfl))
  · intro hn now dev
    obtain ⟨dev', heq, hst⟩ := stored_sbupdate csp hd hm now dev
    have himg : SameOff (transientIn ump sb) (kernelImage ump sb now) sb := sameOff_kernelImage hm.updated now
    have ha := alike_of_sameOff (himg.mono hsub')
    exact ⟨dev', heq, fun host altsblock hr => hst.back (ha.valid hm.toValid) (ha.place hm.toPlace) (ckhash_hashed _)
      (fun r hr => List.mem_append_left _ (List.mem_append_left _ hr)) hsub' himg (ha.normal hn) (hr.congr ha)⟩

/-- A division by `um_devbsize` as `ffs_mountfs` leaves it. -/
theorem not_kernelRoundTrip [SysParam] {ump : SbMount} (hd : ump.devbsize = umDevbsize) (sb csp : Mem) :
    ¬ KernelRoundTrip ump sb csp := by
  intro h
  obtain ⟨dev', heq, -⟩ := h 0 (fun _ => 0)
  unfold ffsSbupdate SbMount.btodb at heq
  rw [if_pos (show ump.devbsize = 0 from hd)] at heq
  cases heq

/-! ### A superblock of another system -/

/-- The superblock has no hash, or its CRC is the same after the masks. -/
def HashKept (fs : Sb) : Prop :=
  fs.flags &&& FS_METACKHASH = 0 ∨ fs.metackhash &&& CK_SUPERBLOCK = 0 ∨ fs.mask.crc = fs.crc

/-- A superblock with a right hash over its stored bytes. -/
theorem accepted_iff [SysParam] {host : Host} {dev : Mem} {loc : Nat} {isaltsblk : Bool} (chkhash : Bool)
    (hbad : Sb.magic (readfunc host dev loc) ≠ FS_BAD_MAGIC) (hp : Acceptable (readfunc host dev loc) loc isaltsblk)
    (hh : Sb.ckhash (readfunc host dev loc) = ffsCalcSbhash (readfunc host dev loc)) :
    (∃ fs', readsuper host dev loc isaltsblk chkhash = .ok fs') ↔ HashKept (readfunc host dev loc) := by
  have hiff : (∃ fs', readsuper host dev loc isaltsblk chkhash = .ok fs') ↔
      (Sb.mask (readfunc host dev loc)).ckhash = ffsCalcSbhash (Sb.mask (readfunc host dev loc)) :=
    ⟨fun ⟨_, h⟩ => ((readsuper_acceptable hbad hp).mp h).1, fun h => ⟨_, (readsuper_acceptable hbad hp).mpr ⟨h, rfl⟩⟩⟩
  rw [hiff, ckhash_mask, hh]
  generalize hraw : (readfunc host dev loc : Sb) = raw at *
  unfold HashKept
  by_cases hk : Sb.flags raw &&& FS_METACKHASH = 0
  · have hzero : (Sb.mask raw).metackhash = 0 := by
      rw [metackhash_mask, maskedMetackhash, if_pos hk]
    refine iff_of_true ?_ (.inl hk)
    rw [← hh]
    unfold ffsCalcSbhash
    rw [hzero, Nat.zero_and, if_pos rfl, ckhash_mask]
  · have hmeta : (Sb.mask raw).metackhash &&& CK_SUPERBLOCK = Sb.metackhash raw &&& CK_SUPERBLOCK := by
      rw [metackhash_mask, maskedMetackhash, if_neg hk, Nat.and_assoc]
      rfl
    rw [or_iff_right hk]
    by_cases hs : Sb.metackhash raw &&& CK_SUPERBLOCK = 0
    · refine iff_of_true ?_ (.inl hs)
      rw [← hh]
      unfold ffsCalcSbhash
      rw [hmeta, if_pos hs, ckhash_mask]
    · rw [or_iff_right hs]
      unfold ffsCalcSbhash
      rw [hmeta, if_neg hs, if_neg hs]
      exact eq_comm

/-- An unsupported flag costs the superblock its hash, if nothing else is cleared. -/
theorem not_hashKept {fs : Sb} (hs : sizeofFs ≤ fs.sbsize) (hk : fs.flags &&& FS_METACKHASH ≠ 0)
    (hc : fs.metackhash &&& CK_SUPERBLOCK ≠ 0) (hm : fs.metackhash &&& CK_SUPPORTED = fs.metackhash)
    (hf : fs.flags &&& FS_SUPPORTED ≠ fs.flags) : ¬ HashKept fs := by
  have hmask : fs.mask = fs.setFlags (fs.flags &&& FS_SUPPORTED) := by
    have hmeta : fs.setMetackhash fs.metackhash = fs := Mem.write32_read32 ..
    rw [mask_eq, maskedMetackhash, if_neg hk, hm, hmeta]
  have hmod : fs.flags &&& FS_SUPPORTED = fs.flags % 2 ^ 24 := Nat.and_two_pow_sub_one_eq_mod _ 24
  have hlt : fs.flags < 4294967296 := Mem.read32_lt ..
  have hbyte : ∀ {i}, i < 4 → Mem.byteOf fs.flags i = fs (1312 + i) := fun hi => Mem.byteOf_read32 fs 1312 hi
  -- the bytes of the flags, before and after
  have hlow : ∀ i, i < 3 → Mem.byteOf (fs.flags % 2 ^ 24) i = Mem.byteOf fs.flags i := by
    intro i hi
    unfold Mem.byteOf
    refine UInt8.toNat_inj.mp ?_
    rw [UInt8.toNat_ofNat', UInt8.toNat_ofNat']
    rcases (by omega : i = 0 ∨ i = 1 ∨ i = 2) with rfl | rfl | rfl
    all_goals omega
  have htop : Mem.byteOf (fs.flags % 2 ^ 24) 3 ≠ Mem.byteOf fs.flags 3 := by
    intro heq
    have heq := congrArg UInt8.toNat heq
    unfold Mem.byteOf at heq
    rw [UInt8.toNat_ofNat', UInt8.toNat_ofNat'] at heq
    rw [hmod] at hf
    omega
  have hread : ∀ x, fs.mask x = if 1312 ≤ x ∧ x < 1316 then Mem.byteOf (fs.flags % 2 ^ 24) (x - 1312) else fs x := by
    intro x
    rw [hmask, hmod]
    rfl
  have hne : (fs.mask.setCkhash 0) 1315 ≠ (fs.setCkhash 0) 1315 := by
    show fs.mask 1315 ≠ fs 1315
    rw [hread, if_pos (by decide), ← hbyte (by decide : 3 < 4)]
    exact htop
  have hsame : ∀ x, x ≠ 1315 → (fs.mask.setCkhash 0) x = (fs.setCkhash 0) x := by
    intro x hx
    unfold Sb.setCkhash Mem.write32
    split
    · rfl
    · rw [hread]
      split
      case isTrue hin => rw [hlow _ (by omega), hbyte (by omega), Nat.add_sub_cancel' hin.1]
      case isFalse => rfl
  rintro (h | h | h)
  · exact hk h
  · exact hc h
  · unfold Sb.crc at h
    rw [sbsize_mask] at h
    unfold sizeofFs at hs
    exact calculateCrc32c_ne (by omega) hne hsame h

/-! ### Round trips -/

/-- Through `sbput` a superblock comes back exactly when it has no bits to clear; through
`ffs_sbupdate` it would with the unit that the device has, and does not with the unit that the
mount has; and a superblock of another system is accepted exactly when the masks leave its CRC
alone. -/
theorem superblock_round_trip [SysParam] {sb : Mem} (hv : Valid sb) (hp : Place sb (Sb.sblockactualloc sb)) (csp : Mem) :
    (∀ n, CopiesApart sb (Sb.sblockactualloc sb) n → (UserRoundTrip sb csp n ↔ Normal sb)) ∧
      (∀ ump : SbMount, ump.devbsize = umDevbsize → ¬ KernelRoundTrip ump sb csp) ∧
      (∀ ump : SbMount, ump.devbsize = DEV_BSIZE → Mounted sb → (KernelRoundTrip ump sb csp ↔ Normal sb)) ∧
      ∀ (host : Host) (dev : Mem) (loc : Nat) (isaltsblk chkhash : Bool),
        readfunc host dev loc = sb → Acceptable sb loc isaltsblk → Sb.ckhash sb = ffsCalcSbhash sb →
          ((∃ fs', readsuper host dev loc isaltsblk chkhash = .ok fs') ↔ HashKept sb) := by
  refine ⟨fun n hc => userRoundTrip_iff hv hp hc, fun ump hd => not_kernelRoundTrip hd sb csp,
    fun ump hd hm => kernelRoundTrip_iff hd hm, ?_⟩
  intro host dev loc isaltsblk chkhash hread hacc hh
  subst hread
  exact accepted_iff chkhash hv.magic_ne hacc hh

/-- One group with blocks of 4096 bytes, and the superblock of UFS2 at its place. -/
def sampleSb (flags : Nat) : Sb :=
  let fs : Sb := fun _ => 0
  let fs : Sb := ((((fs.write32 8 144).write32 44 1).write32 48 4096).write32 52 512).write32 56 8
  let fs : Sb := (((fs.write32 104 1536).write32 156 512).write32 188 4096).write8 211 0x80
  let fs : Sb := ((fs.write64 992 65536).write64 1000 65536).write64 1096 208
  ((fs.write32 1308 7).write32 1312 flags).write32 1372 FS_UFS2_MAGIC

/-- A plain superblock, and one with a flag from `FS_COOLOPT`. -/
theorem valid_sampleSb [SysParam] {flags : Nat} (h : flags = 0x200 ∨ flags = 0x1000200) : Valid (sampleSb flags) := by
  rcases h with rfl | rfl
  all_goals
    exact {
      fsize_eq := by decide +kernel
      bsize_eq := by decide +kernel
      bsize_pos := by decide +kernel
      cssize_dvd := by decide +kernel
      area := by decide +kernel
      magic := by decide +kernel
      ncg := by decide +kernel
      bsize_ge := by decide +kernel
      bsize_le := le_of_eq_of_le (by decide +kernel) SysParam.minbsize_le
      sbsize_ge := by decide +kernel
      sbsize_le := by decide +kernel }

theorem place_sampleSb : Place (sampleSb 0x200) (Sb.sblockactualloc (sampleSb 0x200)) where
  dvd := by decide +kernel
  lt := by decide +kernel
  apart := by decide +kernel

attribute [local instance] SysParam.macos

theorem superblock_round_trip_sample :
    (∀ n, CopiesApart (sampleSb 0x200) (Sb.sblockactualloc (sampleSb 0x200)) n →
        (UserRoundTrip (sampleSb 0x200) (fun _ => 0) n ↔ Normal (sampleSb 0x200))) ∧
      (∀ ump : SbMount, ump.devbsize = umDevbsize → ¬ KernelRoundTrip ump (sampleSb 0x200) fun _ => 0) ∧
      (∀ ump : SbMount, ump.devbsize = DEV_BSIZE → Mounted (sampleSb 0x200) →
        (KernelRoundTrip ump (sampleSb 0x200) (fun _ => 0) ↔ Normal (sampleSb 0x200))) ∧
      ∀ (host : Host) (dev : Mem) (loc : Nat) (isaltsblk chkhash : Bool),
        readfunc host dev loc = sampleSb 0x200 → Acceptable (sampleSb 0x200) loc isaltsblk →
          Sb.ckhash (sampleSb 0x200) = ffsCalcSbhash (sampleSb 0x200) →
          ((∃ fs', readsuper host dev loc isaltsblk chkhash = .ok fs') ↔ HashKept (sampleSb 0x200)) :=
  superblock_round_trip (valid_sampleSb (.inl rfl)) place_sampleSb fun _ => 0

theorem readfunc_here (host : Host) (fs : Sb) : readfunc host (fun x => fs (x - SBLOCK_UFS2)) SBLOCK_UFS2 = fs := by
  rw [readfunc_eq host _ (by decide) (by decide)]
  funext x
  exact congrArg fs (Nat.add_sub_cancel_left ..)

/-- The superblock with the unknown flag, and its right hash. -/
def foreignSb : Sb := (sampleSb 0x1000200).setCkhash (ffsCalcSbhash (sampleSb 0x1000200))

theorem sameOff_foreignSb : SameOff transient foreignSb (sampleSb 0x1000200) :=
  SameOff.of_agreeOff (Mem.agreeOff_write32 _ (by decide))

/-- The kernel divides by zero, and the superblock of another system is refused. -/
theorem superblock_lost :
    ¬ KernelRoundTrip ⟨umDevbsize, false, 0⟩ (sampleSb 0x200) (fun _ => 0) ∧
      ∃ dev, readfunc .user dev SBLOCK_UFS2 = foreignSb ∧ Sb.ckhash foreignSb = ffsCalcSbhash foreignSb ∧
        ∀ fs', readsuper .user dev SBLOCK_UFS2 false true ≠ .ok fs' := by
  have ha := sameOff_foreignSb.alike
  have hv : Valid foreignSb := ha.valid (valid_sampleSb (.inr rfl))
  have hread : readfunc .user (fun x => foreignSb (x - SBLOCK_UFS2)) SBLOCK_UFS2 = foreignSb := readfunc_here ..
  have hh : Sb.ckhash foreignSb = ffsCalcSbhash foreignSb := ckhash_hashed _
  have hmagic : foreignSb.magic = FS_UFS2_MAGIC := ha.magic.trans (by decide +kernel)
  have hloc : foreignSb.sblockloc = SBLOCK_UFS2 := ha.sblockloc.trans (by decide +kernel)
  have hacc : Acceptable foreignSb SBLOCK_UFS2 false := by
    refine hv.acceptable (.inr ⟨fun h => ?_, fun _ => hloc.symm⟩)
    rw [hmagic] at h
    exact absurd h (by decide)
  have hnot : ¬ HashKept foreignSb := by
    refine not_hashKept hv.sbsize_ge ?_ ?_ ?_ ?_
    · rw [ha.flags]
      decide +kernel
    · rw [ha.metackhash]
      decide +kernel
    · rw [ha.metackhash]
      decide +kernel
    · rw [ha.flags]
      decide +kernel
  refine ⟨not_kernelRoundTrip rfl _ _, _, hread, hh, fun fs' hok => ?_⟩
  rw [← hread] at hacc hh hnot
  refine hnot ((accepted_iff true ?_ hacc hh).mp ⟨fs', hok⟩)
  rw [hread]
  exact hv.magic_ne

end UfsX.Proofs.Superblock
