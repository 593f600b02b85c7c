import UfsX.Ufs.Makedirentry
import Mathlib.Data.List.GetD

/-!
# `UfsX.Proofs.Makedirentry`: a record that is made is a good one, and none is made

* `stores_bytes`: the stores of `ufs_makedirentry` leave the bytes of a `Direct`, whatever
  the memory held.
* `reads_of_bytes`: these pass `ufs_dirbadentry` and read back.
* `recordRight_iff`: so all that matters is whether the assertions hold.
* `not_recordRight`: with the flag that the code tests, they never do.
-/

set_option autoImplicit false

namespace UfsX.Proofs.Makedirentry

open UfsX.Lib UfsX.Ufs

/-- A `d_reclen`, and an offset at which the record fits in its block. -/
structure Place (args : EntryArgs) where
  reclen : Nat
  entryoffsetinblock : Nat
  size_le : args.size ≤ reclen
  dvd : 4 ∣ reclen
  fits : reclen ≤ DIRBLKSIZ - entryoffsetinblock % DIRBLKSIZ

/-- A record that passes the check and reads back what it was made of. -/
structure Reads (args : EntryArgs) (place : Place args) (ep : Mem) : Prop where
  passes : ufsDirbadentry args.ofs ep place.entryoffsetinblock = 0
  name : dName args.ofs ep 0 = args.cnName
  namlen : dNamlen args.ofs ep 0 = args.cnName.length
  ino : dIno ep 0 = args.iNumber.toNat

/-- The record is made, it is a good one, and its first `DIRSIZ` bytes are the same
whatever the memory held before. -/
def RecordRight (savename : UInt32) (args : EntryArgs) (place : Place args) (newdirp : Mem) :
    Prop :=
  ∃ made, ufsMakedirentry savename args newdirp = some made ∧
    Reads args place (setReclen made 0 place.reclen) ∧
    ∀ other made', ufsMakedirentry savename args other = some made' →
      SameBytes (setReclen made 0 place.reclen) 0 (setReclen made' 0 place.reclen) 0 args.size

variable {args : EntryArgs} {place : Place args}

/-! ### The bytes -/

/-- The entry, as the rest of the directory code has it. -/
def direct (args : EntryArgs) : Direct where
  ino := args.iNumber.toNat
  type := if args.ofs then 0 else (iftodt args.iMode).toNat
  name := args.cnName

/-- The name and the word under its end reach as far as the record must. -/
theorem size_eq (args : EntryArgs) :
    args.size = 8 + args.cnName.length / DIR_ROUNDUP * DIR_ROUNDUP + 4 := by
  simp only [EntryArgs.size, directsiz, DIR_ROUNDUP]
  omega

/-- The byte of the name at an offset, or zero behind it. -/
theorem nameStores_name (args : EntryArgs) (newdirp : Mem) {x : Nat} (hlo : 8 ≤ x)
    (hhi : x < args.size) : nameStores args newdirp x = args.cnName.getD (x - 8) 0 := by
  have hsize := size_eq args
  simp only [DIR_ROUNDUP] at hsize
  simp only [nameStores, Mem.copy, Mem.write32, DIR_ROUNDUP]
  by_cases hname : x < 8 + args.cnName.length
  · rw [if_pos ⟨hlo, hname⟩, Nat.zero_add]
  · -- in the word that is cleared, which the name was copied over
    rw [if_neg (by omega), if_pos (by omega)]
    have hlen : args.cnName.length ≤ x - 8 := by omega
    rw [List.getD_eq_default _ _ hlen]
    simp [Mem.byteOf]

/-- The name begins behind the fields. -/
theorem nameStores_field (args : EntryArgs) (newdirp : Mem) {x : Nat} (hx : x < 8) :
    nameStores args newdirp x =
      if x = 7 then UInt8.ofNat args.cnName.length
      else if x < 4 then Mem.byteOf args.iNumber.toNat x else newdirp x := by
  simp only [nameStores, Mem.copy, Mem.write32, Mem.write8]
  rw [if_neg (by omega), if_neg (by omega)]
  split
  · rfl
  · by_cases hino : x < 4
    · rw [if_pos (by omega), if_pos hino, Nat.sub_zero]
    · rw [if_neg (by omega), if_neg hino]

/-- The two bytes after the stores to `d_type`. -/
theorem typeStores_eq (args : EntryArgs) (newdirp : Mem) (x : Nat) :
    typeStores args newdirp x =
      if x = 6 then (if args.ofs then newdirp 7 else UInt8.ofNat (iftodt args.iMode).toNat)
      else if x = 7 then (if args.ofs then 0 else newdirp 7)
      else newdirp x := by
  by_cases hold : args.maxsymlen ≤ 0
  · have hofs : args.ofs = true := decide_eq_true hold
    simp only [typeStores, Mem.write8, if_neg (Int.not_lt.mpr hold), hofs, if_true]
    rcases (by omega : x = 6 ∨ x = 7 ∨ (x ≠ 6 ∧ x ≠ 7)) with rfl | rfl | ⟨h6, h7⟩
    · simp
    · simp
    · simp [h6, h7]
  · have hofs : args.ofs = false := decide_eq_false hold
    simp only [typeStores, Mem.write8, if_pos (Int.not_le.mp hold), hofs, Bool.false_eq_true,
      if_false]
    split
    · rfl
    · split
      · next h7 => rw [h7]
      · rfl

/-- The stores leave the bytes of the entry, whatever the memory held. -/
theorem stores_bytes (args : EntryArgs) (newdirp : Mem) (reclen : Nat) :
    AgreeOn (setReclen (typeStores args (nameStores args newdirp)) 0 reclen)
      ((direct args).bytes args.ofs reclen) 0 args.size := by
  intro x _ hx
  simp only [setReclen, Mem.write16, Direct.bytes, direct]
  by_cases hlen : 4 ≤ x ∧ x < 6
  · -- `d_reclen`
    rw [if_pos (by omega), if_neg (by omega), if_pos hlen.2]
  · rw [if_neg (by omega), typeStores_eq]
    by_cases hfield : x < 8
    · rcases (by omega : x < 4 ∨ x = 6 ∨ x = 7) with hino | rfl | rfl
      · rw [if_neg (by omega), if_neg (by omega), if_pos hino, nameStores_field args newdirp hfield,
          if_neg (by omega), if_pos hino]
      · cases hofs : args.ofs with
        | true => simp [nameStores_field args newdirp (show 7 < 8 by decide)]
        | false => simp
      · cases hofs : args.ofs with
        | true => simp
        | false => simp [nameStores_field args newdirp (show 7 < 8 by decide)]
    · rw [if_neg (by omega), if_neg (by omega), if_neg (by omega), if_neg (by omega),
        if_neg (by omega), if_neg (by omega), nameStores_name args newdirp (by omega) hx]

/-! ### The record -/

section Fields

variable {ep : Mem} (h : SameBytes ep 0 ((direct args).bytes args.ofs place.reclen) 0 args.size)
include h

theorem dIno_eq : dIno ep 0 = args.iNumber.toNat := by
  have hsize := size_eq args
  have hread := h.read32 (i := 0) (by omega)
  refine hread.trans (Mem.read32_bytes args.iNumber.toNat_lt ?_)
  intro i hi
  simp [Direct.bytes, direct, hi]

/-- A record in a block is shorter than `d_reclen` can say. -/
theorem dReclen_eq : dReclen ep 0 = place.reclen := by
  have hsize := size_eq args
  have hfits := place.fits
  simp only [DIRBLKSIZ] at hfits
  have hread := h.read16 (i := 4) (by omega)
  exact hread.trans (Mem.read16_bytes (by omega) rfl rfl)

theorem dNamlen_eq : dNamlen args.ofs ep 0 = args.cnName.length := by
  have hsize := size_eq args
  have hlen := args.name_le
  simp only [UFS_MAXNAMLEN] at hlen
  -- the old format has the length where the other one has the type
  cases hofs : args.ofs with
  | true =>
      have hbyte := h 6 (by omega)
      simp only [dNamlen, Nat.zero_add, if_true] at hbyte ⊢
      rw [hbyte]
      simp [Direct.bytes, direct, hofs]
      omega
  | false =>
      have hbyte := h 7 (by omega)
      simp only [dNamlen, Nat.zero_add] at hbyte ⊢
      rw [if_neg Bool.false_ne_true, hbyte]
      simp [Direct.bytes, direct, hofs]
      omega

/-- The name, and zeros behind it. -/
theorem name_byte (i : Nat) (hi : 8 + i < args.size) : ep (8 + i) = args.cnName.getD i 0 := by
  have hbyte := h (8 + i) hi
  rw [Nat.zero_add] at hbyte
  rw [hbyte]
  simp only [Direct.bytes, direct]
  rw [if_neg (by omega), if_neg (by omega), if_neg (by omega), if_neg (by omega),
    Nat.add_sub_cancel_left]

theorem dName_eq : dName args.ofs ep 0 = args.cnName := by
  have hsize := size_eq args
  simp only [DIR_ROUNDUP] at hsize
  rw [dName, dNamlen_eq h]
  refine List.ext_getElem (by simp [Mem.readBytes]) ?_
  intro i hi hi'
  simp only [Mem.readBytes, List.getElem_map, List.getElem_range, Nat.zero_add]
  rw [name_byte h i (by omega), List.getD_eq_getElem _ _ hi']

/-- The first `DIRSIZ` bytes decide whether a record is good. -/
theorem reads_of_bytes : Reads args place ep := by
  refine ⟨?_, dName_eq h, dNamlen_eq h, dIno_eq h⟩
  have hlen := args.name_le
  have hsize := size_eq args
  have hfits := place.fits
  have hle := place.size_le
  have hdvd : place.reclen % 4 = 0 := Nat.mod_eq_zero_of_dvd place.dvd
  simp only [DIRBLKSIZ, UFS_MAXNAMLEN, DIR_ROUNDUP] at hlen hsize hfits
  have hdirsiz : dirsiz args.ofs ep 0 = args.size := by
    rw [dirsiz, dNamlen_eq h]
    rfl
  have hgood : ¬ (dReclen ep 0 % 4 ≠ 0 ∨
      DIRBLKSIZ - place.entryoffsetinblock % DIRBLKSIZ < dReclen ep 0 ∨
      dReclen ep 0 < dirsiz args.ofs ep 0 ∨ UFS_MAXNAMLEN < dNamlen args.ofs ep 0) := by
    rw [dReclen_eq h, hdirsiz, dNamlen_eq h]
    simp only [DIRBLKSIZ, UFS_MAXNAMLEN]
    omega
  -- the name ends with a zero, also if it fills its words
  have hnul : ep (8 + dNamlen args.ofs ep 0) = 0 := by
    rw [dNamlen_eq h, name_byte h _ (by omega), List.getD_eq_default _ _ (Nat.le_refl _)]
  simp only [ufsDirbadentry]
  rw [if_neg hgood, dName_eq h, if_neg args.name_ne, if_neg (not_not_intro hnul), ite_self]

end Fields

/-- A good record is made if and only if the assertion on the flag holds. -/
theorem recordRight_iff (savename : UInt32) (args : EntryArgs) (place : Place args)
    (newdirp : Mem) :
    RecordRight savename args place newdirp ↔ args.cnFlags &&& savename ≠ 0 := by
  have hlen : ¬ UFS_MAXNAMLEN < args.cnName.length := Nat.not_lt.mpr args.name_le
  by_cases hflag : args.cnFlags &&& savename = 0
  · have hpanic : ufsMakedirentry savename args newdirp = none := if_pos hflag
    constructor
    · rintro ⟨made, hmade, -⟩
      rw [hpanic] at hmade
      cases hmade
    · intro hne
      exact absurd hflag hne
  · have hmakes (m : Mem) :
        ufsMakedirentry savename args m = some (typeStores args (nameStores args m)) := by
      rw [ufsMakedirentry, if_neg hflag, if_neg hlen]
    have hbytes (m : Mem) :
        SameBytes (setReclen (typeStores args (nameStores args m)) 0 place.reclen) 0
          ((direct args).bytes args.ofs place.reclen) 0 args.size :=
      (stores_bytes args m place.reclen).sameBytes (Nat.le_refl 0) (by omega)
    constructor
    · intro _
      exact hflag
    · intro _
      refine ⟨_, hmakes newdirp, reads_of_bytes (hbytes newdirp), ?_⟩
      intro other made' hmade' i hi
      rw [hmakes other] at hmade'
      rw [← Option.some.inj hmade', hbytes newdirp i hi, hbytes other i hi]

/-- `SAVENAME` has no bit, so that no record is ever made. -/
theorem not_recordRight (args : EntryArgs) (place : Place args) (newdirp : Mem) :
    ¬ RecordRight SAVENAME args place newdirp := by
  rw [recordRight_iff, not_not]
  exact UInt32.and_zero

/-- `a`, for inode 4. -/
theorem makedirentry_panics :
    ¬ RecordRight SAVENAME ⟨4, 0o100644, 0xffffffff, [97], by decide, by decide, by decide, 60⟩
      ⟨12, 24, by decide, by decide, by decide⟩ (fun _ => 0) := by
  rintro ⟨made, hmade, -⟩
  cases hmade

end UfsX.Proofs.Makedirentry
