import UfsX.Ufs.Lookup
import Mathlib.Data.List.Nodup
import Mathlib.Data.List.Perm.Basic
import Mathlib.Algebra.BigOperators.Group.List.Basic

/-!
# `UfsX.Proofs.DirRecords`: directories as lists of records

`Rec` is a record without its place: what the fields of the bytes at an offset say.
`Holds` says that a list of records stands one behind the other from an offset on,
and `DirOk` that a directory is well formed: its records tile the file, none of them
crosses a block boundary, each is long enough, and no two live ones have the same
name.

The lemmas say which bytes a record depends on (`Rec.foot`), how lists of records are
cut at a block boundary, and what the record of a new entry is.
-/

set_option autoImplicit false

namespace UfsX.Proofs

open UfsX.Lib UfsX.Ufs

/-- A record of a directory. A free one has no type and no name. -/
structure Rec where
  ino : Nat
  reclen : Nat
  type : Nat
  name : List UInt8
  deriving DecidableEq, Repr

/-- The record at offset `o`. -/
def recOf (ofs : Bool) (data : Mem) (o : Nat) : Rec :=
  if dIno data o = 0 then ⟨0, dReclen data o, 0, []⟩
  else ⟨dIno data o, dReclen data o, dType ofs data o, dName ofs data o⟩

namespace Rec

variable (r : Rec)

def live : Bool := r.ino ≠ 0

/-- The bytes that a record needs. -/
def used : Nat := if r.ino = 0 then 0 else directsiz r.name.length

/-- The bytes to spare. -/
def free : Nat := r.reclen - r.used

/-- The bytes that `recOf` reads, or fewer. -/
def foot : Nat := if r.ino = 0 then 8 else directsiz r.name.length

/-- What `ufs_lookup_ino` and `ufs_direnter` rely on. A live record is no
whiteout. -/
structure Ok (ofs : Bool) : Prop where
  dvd : 4 ∣ r.reclen
  foot_le : r.foot ≤ r.reclen
  not_wino : r.ino ≠ UFS_WINO
  not_wht : ofs = false → r.type ≠ DT_WHT

end Rec

/-- The total length of some records. -/
def recsLen (rs : List Rec) : Nat := (rs.map Rec.reclen).sum

/-- Records `rs` stand one behind the other from offset `o` on. -/
def Holds (ofs : Bool) (data : Mem) : Nat → List Rec → Prop
  | _, [] => True
  | o, r :: rs => recOf ofs data o = r ∧ Holds ofs data (o + r.reclen) rs

/-- No record crosses a block boundary. -/
def Fits : Nat → List Rec → Prop
  | _, [] => True
  | o, r :: rs => o % DIRBLKSIZ + r.reclen ≤ DIRBLKSIZ ∧ Fits (o + r.reclen) rs

/-- The live entries. -/
def liveOf (rs : List Rec) : List Rec := rs.filter Rec.live

def namesOf (rs : List Rec) : List (List UInt8) := (liveOf rs).map Rec.name

/-- Where the live entries stand, from offset `o` on. -/
def index : Nat → List Rec → List (Nat × List UInt8)
  | _, [] => []
  | o, r :: rs =>
      if r.live then (o, r.name) :: index (o + r.reclen) rs else index (o + r.reclen) rs

/-- Records that tile a directory. -/
structure Layout (ofs : Bool) (size : Nat) (rs : List Rec) : Prop where
  size_eq : size = recsLen rs
  blocks : DIRBLKSIZ ∣ size
  fits : Fits 0 rs
  recs : ∀ r ∈ rs, r.Ok ofs

/-- A well-formed directory. -/
structure DirOk (ofs : Bool) (data : Mem) (size : Nat) (rs : List Rec) : Prop
    extends Layout ofs size rs where
  holds : Holds ofs data 0 rs
  names : (namesOf rs).Nodup

/-! ### Lengths -/

@[simp] theorem recsLen_nil : recsLen [] = 0 := rfl

@[simp] theorem recsLen_cons (r : Rec) (rs : List Rec) : recsLen (r :: rs) = r.reclen + recsLen rs := by
  simp [recsLen]

@[simp] theorem recsLen_append (rs rs' : List Rec) :
    recsLen (rs ++ rs') = recsLen rs + recsLen rs' := by
  simp [recsLen]

theorem eight_le_directsiz (n : Nat) : 9 + n ≤ directsiz n := by
  unfold directsiz
  omega

theorem directsiz_dvd (n : Nat) : 4 ∣ directsiz n := Dvd.intro_left _ rfl

theorem directsiz_lt {n : Nat} (h : n ≤ 255) : directsiz n ≤ 264 := by
  unfold directsiz
  omega

namespace Rec

variable {ofs : Bool} {r : Rec}

theorem eight_le_foot (r : Rec) : 8 ≤ r.foot := by
  have h := eight_le_directsiz r.name.length
  unfold foot
  split <;> omega

theorem used_le_foot (r : Rec) : r.used ≤ r.foot := by
  unfold used foot
  split <;> omega

theorem Ok.pos (h : r.Ok ofs) : 0 < r.reclen := by
  have h₁ := r.eight_le_foot
  have h₂ := h.foot_le
  omega

theorem Ok.used_add_free (h : r.Ok ofs) : r.used + r.free = r.reclen := by
  have h₁ := r.used_le_foot
  have h₂ := h.foot_le
  unfold free
  omega

end Rec

/-! ### Which bytes count -/

section Bytes

variable {ofs : Bool} {m m' : Mem} {o : Nat} {r : Rec} {rs rs' : List Rec}

theorem recOf_ino : (recOf ofs m o).ino = dIno m o := by
  unfold recOf
  split <;> simp_all

theorem recOf_reclen : (recOf ofs m o).reclen = dReclen m o := by
  unfold recOf
  split <;> rfl

theorem recOf_name (h : dIno m o ≠ 0) : (recOf ofs m o).name = dName ofs m o := by
  unfold recOf
  rw [if_neg h]

theorem dName_length : (dName ofs m o).length = dNamlen ofs m o := by
  simp [dName, Mem.readBytes]

/-- The record's own size is `DIRSIZ`. -/
theorem recOf_used : (recOf ofs m o).used = if dIno m o = 0 then 0 else dirsiz ofs m o := by
  unfold Rec.used
  rw [recOf_ino]
  split
  · rfl
  · next h => rw [recOf_name h, dName_length, dirsiz]

/-- A record depends on its foot only. -/
theorem recOf_same {o' : Nat} (h : recOf ofs m o = r) (hsame : SameBytes m' o' m o r.foot) :
    recOf ofs m' o' = r := by
  have hfoot := r.eight_le_foot
  have hino : dIno m' o' = dIno m o := hsame.read32 (i := 0) (by omega)
  have hreclen : dReclen m' o' = dReclen m o := hsame.read16 (i := 4) (by omega)
  unfold recOf at h ⊢
  rw [hino, hreclen]
  by_cases hz : dIno m o = 0
  · rw [if_pos hz] at h ⊢
    exact h
  · rw [if_neg hz] at h ⊢
    have hname : r.name = dName ofs m o := by rw [← h]
    have hnamlen : dNamlen ofs m' o' = dNamlen ofs m o := by
      cases ofs
      · exact congrArg UInt8.toNat (hsame 7 (by omega))
      · exact congrArg UInt8.toNat (hsame 6 (by omega))
    have htype : dType ofs m' o' = dType ofs m o := by
      cases ofs
      · exact congrArg UInt8.toNat (hsame 6 (by omega))
      · exact congrArg UInt8.toNat (hsame 7 (by omega))
    have hlen : 8 + dNamlen ofs m o ≤ r.foot := by
      have hsize := eight_le_directsiz (dNamlen ofs m o)
      unfold Rec.foot
      rw [if_neg (by rw [← h]; exact hz), hname, dName_length]
      omega
    have hbytes : dName ofs m' o' = dName ofs m o := by
      unfold dName
      rw [hnamlen]
      exact hsame.readBytes (i := 8) hlen
    rw [htype, hbytes]
    exact h

theorem recOf_agree (h : recOf ofs m o = r) (hagree : AgreeOn m m' o (o + r.foot)) :
    recOf ofs m' o = r :=
  recOf_same h (hagree.symm.sameBytes (le_refl o) (le_refl _))

theorem holds_append :
    Holds ofs m o (rs ++ rs') ↔ Holds ofs m o rs ∧ Holds ofs m (o + recsLen rs) rs' := by
  induction rs generalizing o with
  | nil => simp [Holds]
  | cons r rs ih => simp [Holds, ih, and_assoc, Nat.add_assoc]

theorem Holds.agree (h : Holds ofs m o rs) (hok : ∀ r ∈ rs, r.Ok ofs)
    (hagree : AgreeOn m m' o (o + recsLen rs)) : Holds ofs m' o rs := by
  induction rs generalizing o with
  | nil => trivial
  | cons r rs ih =>
      obtain ⟨hr, hrest⟩ := h
      have hle := (hok r List.mem_cons_self).foot_le
      rw [recsLen_cons] at hagree
      refine ⟨recOf_agree hr (hagree.mono (le_refl _) (by omega)), ?_⟩
      exact ih hrest (fun r' hr' => hok r' (List.mem_cons_of_mem _ hr'))
        (hagree.mono (by omega) (by omega))

end Bytes

/-! ### Block boundaries -/

section Blocks

variable {o : Nat} {rs rs' : List Rec}

theorem fits_append : Fits o (rs ++ rs') ↔ Fits o rs ∧ Fits (o + recsLen rs) rs' := by
  induction rs generalizing o with
  | nil => simp [Fits]
  | cons r rs ih => simp [Fits, ih, and_assoc, Nat.add_assoc]

/-- Records that fit in one block together. -/
theorem fits_of_le (h : o % DIRBLKSIZ + recsLen rs ≤ DIRBLKSIZ) : Fits o rs := by
  induction rs generalizing o with
  | nil => trivial
  | cons r rs ih =>
      rw [recsLen_cons] at h
      refine ⟨by omega, ih ?_⟩
      by_cases hend : o % DIRBLKSIZ + r.reclen < DIRBLKSIZ
      · have hmod : (o + r.reclen) % DIRBLKSIZ = o % DIRBLKSIZ + r.reclen := by
          unfold DIRBLKSIZ at hend ⊢
          omega
        omega
      · have hmod : (o + r.reclen) % DIRBLKSIZ = 0 := by
          unfold DIRBLKSIZ at h hend ⊢
          omega
        unfold DIRBLKSIZ at h hmod ⊢
        omega

/-- Records can be cut at every block boundary. -/
theorem exists_cut {e : Nat} (h : Fits o rs) (hpos : ∀ r ∈ rs, 0 < r.reclen)
    (hblk : DIRBLKSIZ ∣ e) (hlo : o ≤ e) (hhi : e ≤ o + recsLen rs) :
    ∃ before after, rs = before ++ after ∧ o + recsLen before = e := by
  induction rs generalizing o with
  | nil => exact ⟨[], [], rfl, by simp at hhi ⊢; omega⟩
  | cons r rs ih =>
      by_cases heq : o = e
      · exact ⟨[], r :: rs, rfl, by simpa using heq⟩
      · obtain ⟨hfit, hrest⟩ := h
        rw [recsLen_cons] at hhi
        -- the record ends at the boundary or before it
        have hle : o + r.reclen ≤ e := by
          obtain ⟨k, rfl⟩ := hblk
          unfold DIRBLKSIZ at *
          omega
        obtain ⟨before, after, hrs, hlen⟩ := ih hrest
          (fun r' hr' => hpos r' (List.mem_cons_of_mem _ hr')) hle (by omega)
        refine ⟨r :: before, after, by rw [hrs]; rfl, ?_⟩
        rw [recsLen_cons]
        omega

end Blocks

/-! ### The live entries -/

@[simp] theorem liveOf_append (rs rs' : List Rec) : liveOf (rs ++ rs') = liveOf rs ++ liveOf rs' :=
  List.filter_append _ _

@[simp] theorem namesOf_append (rs rs' : List Rec) :
    namesOf (rs ++ rs') = namesOf rs ++ namesOf rs' := by
  simp [namesOf]

/-- A live entry is the only one with its name. -/
theorem name_once {before after : List Rec} {r : Rec} (hnames : (namesOf (before ++ r :: after)).Nodup)
    (hlive : r.live = true) : r.name ∉ namesOf before ∧ r.name ∉ namesOf after := by
  have hcons : namesOf (r :: after) = r.name :: namesOf after := by simp [namesOf, liveOf, hlive]
  rw [namesOf_append, hcons, List.nodup_append] at hnames
  obtain ⟨-, hrest, hapart⟩ := hnames
  exact ⟨fun hmem => hapart _ hmem r.name List.mem_cons_self rfl, (List.nodup_cons.mp hrest).1⟩

theorem liveOf_eq_nil {rs : List Rec} (h : ∀ r ∈ rs, r.live = false) : liveOf rs = [] := by
  refine List.filter_eq_nil_iff.mpr fun r hr => ?_
  rw [h r hr]
  exact Bool.false_ne_true

theorem index_append (o : Nat) (rs rs' : List Rec) :
    index o (rs ++ rs') = index o rs ++ index (o + recsLen rs) rs' := by
  induction rs generalizing o with
  | nil => simp [index]
  | cons r rs ih =>
      simp only [List.cons_append, index, ih, recsLen_cons, Nat.add_assoc]
      split <;> rfl

theorem index_names (o : Nat) (rs : List Rec) : (index o rs).map Prod.snd = namesOf rs := by
  induction rs generalizing o with
  | nil => rfl
  | cons r rs ih =>
      unfold index namesOf liveOf
      rw [List.filter_cons]
      split
      · exact congrArg (r.name :: ·) (ih _)
      · exact ih _

/-- The offsets lie where the records are. -/
theorem index_range {o : Nat} {rs : List Rec} (hpos : ∀ r ∈ rs, 0 < r.reclen)
    {p : Nat × List UInt8} (hp : p ∈ index o rs) : o ≤ p.1 ∧ p.1 < o + recsLen rs := by
  induction rs generalizing o with
  | nil => exact absurd hp List.not_mem_nil
  | cons r rs ih =>
      have hr := hpos r List.mem_cons_self
      have hrest := fun hp => ih (o := o + r.reclen)
        (fun r' hr' => hpos r' (List.mem_cons_of_mem _ hr')) hp
      rw [recsLen_cons]
      unfold index at hp
      split at hp
      · cases hp with
        | head => exact ⟨le_refl _, by omega⟩
        | tail _ hp => have := hrest hp; omega
      · have := hrest hp
        omega

/-- No two entries stand at one offset. -/
theorem index_offsets_nodup (o : Nat) {rs : List Rec} (hpos : ∀ r ∈ rs, 0 < r.reclen) :
    ((index o rs).map Prod.fst).Nodup := by
  induction rs generalizing o with
  | nil => exact List.nodup_nil
  | cons r rs ih =>
      have hrest : ∀ r' ∈ rs, 0 < r'.reclen := fun r' hr' => hpos r' (List.mem_cons_of_mem _ hr')
      unfold index
      split
      · rw [List.map_cons, List.nodup_cons]
        refine ⟨fun hmem => ?_, ih _ hrest⟩
        obtain ⟨p, hp, hpo⟩ := List.mem_map.mp hmem
        have hr := hpos r List.mem_cons_self
        have hlo := (index_range hrest hp).1
        change p.1 = o at hpo
        omega
      · exact ih _ hrest

/-- An entry of the index is a live record. -/
theorem exists_rec_of_mem_index {o : Nat} {rs : List Rec} {p : Nat × List UInt8} (hp : p ∈ index o rs) :
    ∃ before r after, rs = before ++ r :: after ∧ p.1 = o + recsLen before ∧ r.live = true
      ∧ p.2 = r.name := by
  induction rs generalizing o with
  | nil => exact absurd hp List.not_mem_nil
  | cons r rs ih =>
      have hrest : p ∈ index (o + r.reclen) rs → ∃ before r' after, r :: rs = before ++ r' :: after
          ∧ p.1 = o + recsLen before ∧ r'.live = true ∧ p.2 = r'.name := by
        intro hp
        obtain ⟨before, r', after, heq, hoff, hlive, hname⟩ := ih hp
        refine ⟨r :: before, r', after, by rw [heq]; rfl, ?_, hlive, hname⟩
        rw [hoff, recsLen_cons, Nat.add_assoc]
      unfold index at hp
      split at hp
      · next hlive =>
          cases hp with
          | head => exact ⟨[], r, rs, rfl, rfl, hlive, rfl⟩
          | tail _ hp => exact hrest hp
      · exact hrest hp

theorem index_eq_nil {o : Nat} {rs : List Rec} (h : index o rs = []) : ∀ r ∈ rs, r.live = false := by
  have hnames : namesOf rs = [] := by rw [← index_names o, h]; rfl
  intro r hr
  by_contra hlive
  have hmem : r ∈ liveOf rs := List.mem_filter.mpr ⟨hr, by simpa using hlive⟩
  rw [List.map_eq_nil_iff.mp hnames] at hmem
  exact absurd hmem List.not_mem_nil

/-! ### A new entry -/

section Entry

/-- An entry that can be made: a name of 1 to 255 bytes, an inode number that is
neither 0 nor that of a whiteout. -/
structure EntryOk (ofs : Bool) (d : Direct) : Prop where
  ino_ne : d.ino ≠ 0
  not_wino : d.ino ≠ UFS_WINO
  ino_lt : d.ino < 4294967296
  type_lt : d.type < 256
  not_wht : ofs = false → d.type ≠ DT_WHT
  name_pos : d.name ≠ []
  name_le : d.name.length ≤ UFS_MAXNAMLEN

/-- The record of an entry. -/
def entryRec (d : Direct) (reclen : Nat) : Rec := ⟨d.ino, reclen, d.type, d.name⟩

variable {ofs : Bool} {d : Direct} {reclen : Nat}

theorem entryRec_ok (h : EntryOk ofs d) (hdvd : 4 ∣ reclen) (hle : directsiz d.name.length ≤ reclen) :
    (entryRec d reclen).Ok ofs where
  dvd := hdvd
  foot_le := by
    unfold Rec.foot
    rw [if_neg (show (entryRec d reclen).ino ≠ 0 from h.ino_ne)]
    exact hle
  not_wino := h.not_wino
  not_wht := h.not_wht

theorem entryRec_live (h : EntryOk ofs d) : (entryRec d reclen).live = true :=
  decide_eq_true h.ino_ne

/-- The bytes of an entry, read back. -/
theorem recOf_bytes (h : EntryOk ofs d) (hreclen : reclen < 65536) :
    recOf ofs (d.bytes ofs reclen) 0 = entryRec d reclen := by
  have hino : dIno (d.bytes ofs reclen) 0 = d.ino := by
    refine Mem.read32_bytes h.ino_lt fun i hi => ?_
    simp [Direct.bytes, hi]
  have hlen : dReclen (d.bytes ofs reclen) 0 = reclen :=
    Mem.read16_bytes hreclen rfl rfl
  have hname_lt : d.name.length < 256 := Nat.lt_succ_of_le h.name_le
  have hnamlen : dNamlen ofs (d.bytes ofs reclen) 0 = d.name.length := by
    cases ofs <;> simp [dNamlen, Direct.bytes] <;> omega
  have htype : dType ofs (d.bytes ofs reclen) 0 = d.type := by
    have htype_lt := h.type_lt
    cases ofs <;> simp [dType, Direct.bytes] <;> omega
  have hname : dName ofs (d.bytes ofs reclen) 0 = d.name := by
    unfold dName Mem.readBytes
    rw [hnamlen]
    refine List.ext_getElem (by simp) fun i hi hi' => ?_
    have hbyte : d.bytes ofs reclen (8 + i) = d.name.getD i 0 := by
      unfold Direct.bytes
      rw [if_neg (by omega), if_neg (by omega), if_neg (by omega), if_neg (by omega),
        Nat.add_sub_cancel_left]
    simp [hbyte, hi']
  unfold recOf
  rw [hino, if_neg h.ino_ne, hlen, htype, hname]
  rfl

/-- Copied to an offset. -/
theorem recOf_copy_bytes (h : EntryOk ofs d) (hreclen : reclen < 65536) (m : Mem) (o : Nat) :
    recOf ofs (m.copy o (d.bytes ofs reclen) 0 (directsiz d.name.length)) o = entryRec d reclen := by
  have hfoot : (entryRec d reclen).foot = directsiz d.name.length := by
    unfold Rec.foot
    rw [if_neg (show (entryRec d reclen).ino ≠ 0 from h.ino_ne)]
    rfl
  refine recOf_same (recOf_bytes h hreclen) ?_
  rw [hfoot]
  exact Mem.sameBytes_copy _ _ _

end Entry

end UfsX.Proofs
