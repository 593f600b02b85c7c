import UfsX.Ffs.Extattr
import UfsX.Proofs.Consistent

/-!
# `UfsX.Proofs.Extattr`: extended attributes as a finite map

An area that is in memory is the list of its records (`area`). Looking a name up,
listing the names and cutting a record out are lookups, listing and removal in the map
from names to contents that the records of name space 0 make up (`attrsOf`).

`ffs_setextattr` puts its records in name space 2, where nothing looks for them, and the
area is neither read from the device nor written to it. `extattr_finite_map` is about the
runs in which neither matters, `extattr_lost` about those in which they do.
-/

set_option autoImplicit false

namespace UfsX.Proofs.Extattr

open UfsX.Ffs UfsX.Ffs.Extattr
open UfsX.Lib (toI32 toI32_eq_self)

/-! ### Records -/

theorem le_roundup8 (n : Nat) : n ≤ roundup8 n := by
  unfold roundup8
  omega

/-- A record that the macros of `extattr.h` can read. -/
structure Rec where
  nspace : UInt8
  name : Bytes
  pad1 : Bytes
  value : Bytes
  pad2 : Bytes
  name_lt : name.length < 256
  pad1_eq : eaHeader + name.length + pad1.length = roundup8 (eaHeader + name.length)
  pad2_lt : pad2.length < 256
  length_lt : roundup8 (eaHeader + name.length) + value.length + pad2.length < 2 ^ 31

namespace Rec

variable (r : Rec) (rest : Bytes)

def length : Nat := roundup8 (eaHeader + r.name.length) + r.value.length + r.pad2.length

def bytes : Bytes :=
  le32 r.length ++ [r.nspace, UInt8.ofNat r.pad2.length, UInt8.ofNat r.name.length] ++ r.name ++ r.pad1
    ++ r.value ++ r.pad2

theorem length_bytes : r.bytes.length = r.length := by
  have hpad := r.pad1_eq
  have hheader : eaHeader = 7 := rfl
  simp only [bytes, le32, length, List.length_append, List.length_cons, List.length_nil]
  omega

theorem length_pos : 0 < r.length := by
  have := le_roundup8 (eaHeader + r.name.length)
  have hheader : eaHeader = 7 := rfl
  unfold length
  omega

theorem bytes_ne_nil : r.bytes ++ rest ≠ [] := by
  intro h
  have hlen := congrArg List.length h
  have hpos := r.length_pos
  rw [List.length_append, r.length_bytes, List.length_nil] at hlen
  omega

/-- A number below 256 in a byte. -/
theorem toNat_ofNat {n : Nat} (h : n < 256) : (UInt8.ofNat n).toNat = n := by
  rw [UInt8.toNat_ofNat']
  exact Nat.mod_eq_of_lt h

theorem eaLength_bytes : eaLength (r.bytes ++ rest) = r.length := by
  have hlt : r.length < 2 ^ 31 := r.length_lt
  show (UInt8.ofNat r.length).toNat + 2 ^ 8 * (UInt8.ofNat (r.length / 2 ^ 8)).toNat
    + 2 ^ 16 * (UInt8.ofNat (r.length / 2 ^ 16)).toNat + 2 ^ 24 * (UInt8.ofNat (r.length / 2 ^ 24)).toNat = r.length
  simp only [UInt8.toNat_ofNat']
  omega

theorem eaNamespace_bytes : eaNamespace (r.bytes ++ rest) = 0 ↔ r.nspace = 0 := by
  rw [← UInt8.toNat_inj]
  exact Iff.rfl

theorem eaContentpadlen_bytes : eaContentpadlen (r.bytes ++ rest) = r.pad2.length := toNat_ofNat r.pad2_lt

theorem eaNamelength_bytes : eaNamelength (r.bytes ++ rest) = r.name.length := toNat_ofNat r.name_lt

theorem drop_header_bytes :
    (r.bytes ++ rest).drop eaHeader = r.name ++ (r.pad1 ++ (r.value ++ (r.pad2 ++ rest))) := by
  simp only [bytes, List.append_assoc]
  rfl

theorem eaName_bytes (n : Nat) (h : n = r.name.length) : eaName (r.bytes ++ rest) n = r.name := by
  unfold eaName
  rw [drop_header_bytes, h, List.take_left]

theorem eaContent_bytes : eaContent (r.bytes ++ rest) = r.value ++ (r.pad2 ++ rest) := by
  have hbase : eaBaseLength (r.bytes ++ rest) = eaHeader + (r.name.length + r.pad1.length) := by
    unfold eaBaseLength
    rw [eaNamelength_bytes, ← r.pad1_eq]
    omega
  unfold eaContent
  rw [hbase, ← List.drop_drop, drop_header_bytes, ← List.append_assoc r.name, ← List.length_append, List.drop_left]

theorem eaContentSize_bytes : eaContentSize (r.bytes ++ rest) = r.value.length := by
  have hlt := r.length_lt
  unfold eaContentSize eaBaseLength
  rw [eaLength_bytes, eaContentpadlen_bytes, eaNamelength_bytes]
  have hsize : (r.length : Int) - (roundup8 (eaHeader + r.name.length) : Nat) - r.pad2.length = r.value.length := by
    unfold length
    omega
  rw [hsize]
  exact toI32_eq_self (by omega) (by omega)

theorem eaNext_bytes : eaNext (r.bytes ++ rest) = rest := by
  unfold eaNext
  rw [eaLength_bytes, ← r.length_bytes, List.drop_left]

theorem not_length_lt : ¬ (r.bytes ++ rest).length < eaLength (r.bytes ++ rest) := by
  rw [eaLength_bytes, List.length_append, r.length_bytes]
  omega

end Rec

/-! ### Areas -/

/-- The bytes of a sequence of records. -/
def area (recs : List Rec) : Bytes := recs.flatMap Rec.bytes

@[simp] theorem area_nil : area [] = [] := rfl

@[simp] theorem area_cons (r : Rec) (recs : List Rec) : area (r :: recs) = r.bytes ++ area recs := rfl

@[simp] theorem area_append (recs recs' : List Rec) : area (recs ++ recs') = area recs ++ area recs' :=
  List.flatMap_append

/-- There are at least as many bytes as records. -/
theorem length_le_length_area (recs : List Rec) : recs.length ≤ (area recs).length := by
  induction recs with
  | nil => exact le_refl 0
  | cons r recs ih =>
      have hpos := r.length_pos
      rw [area_cons, List.length_append, r.length_bytes, List.length_cons]
      omega

/-- The record that a look-up in name space 0 is for. -/
def Named (name : Bytes) (r : Rec) : Prop := r.nspace = 0 ∧ r.name = name

instance (name : Bytes) (r : Rec) : Decidable (Named name r) := inferInstanceAs (Decidable (_ ∧ _))

theorem named_iff {name : Bytes} {r : Rec} (rest : Bytes) :
    Named name r ↔ ¬ (eaNamespace (r.bytes ++ rest) ≠ 0 ∨ eaNamelength (r.bytes ++ rest) ≠ name.length ∨
      eaName (r.bytes ++ rest) name.length ≠ name) := by
  have hns := r.eaNamespace_bytes rest
  rw [Rec.eaNamelength_bytes]
  constructor
  · rintro ⟨hzero, hname⟩
    rintro (h | h | h)
    · exact h (hns.mpr hzero)
    · exact h (by rw [hname])
    · exact h ((r.eaName_bytes rest _ (by rw [hname])).trans hname)
  · intro h
    have hzero : eaNamespace (r.bytes ++ rest) = 0 := by
      by_contra hne
      exact h (.inl hne)
    have hlen : r.name.length = name.length := by
      by_contra hne
      exact h (.inr (.inl hne))
    have heq : eaName (r.bytes ++ rest) name.length = name := by
      by_contra hne
      exact h (.inr (.inr hne))
    exact ⟨hns.mp hzero, (r.eaName_bytes rest _ hlen.symm).symm.trans heq⟩

/-! ### The loops -/

theorem findFrom_ne_nil {nspace fuel off : Nat} {name eap : Bytes} (h : eap ≠ []) :
    findFrom nspace name (fuel + 1) off eap =
      if eap.length < eaLength eap then none
      else if eaNamespace eap ≠ nspace ∨ eaNamelength eap ≠ name.length ∨ eaName eap name.length ≠ name then
        findFrom nspace name fuel (off + eaLength eap) (eaNext eap)
      else some (some (off, eaContentSize eap)) := by
  cases eap with
  | nil => exact absurd rfl h
  | cons b bs => rfl

/-- One record: the loop stops there or goes on behind it. -/
theorem findFrom_record (name rest : Bytes) (r : Rec) (fuel off : Nat) :
    findFrom 0 name (fuel + 1) off (r.bytes ++ rest) =
      if Named name r then some (some (off, (r.value.length : Int)))
      else findFrom 0 name fuel (off + r.length) rest := by
  rw [findFrom_ne_nil (r.bytes_ne_nil rest), if_neg (r.not_length_lt rest), r.eaNext_bytes, r.eaLength_bytes,
    r.eaContentSize_bytes]
  by_cases hnamed : Named name r
  · rw [if_pos hnamed, if_neg ((named_iff rest).mp hnamed)]
  · rw [if_neg hnamed, if_pos]
    by_contra h
    exact hnamed ((named_iff rest).mpr h)

theorem findFrom_none {name : Bytes} {recs : List Rec} (h : ∀ r ∈ recs, ¬ Named name r) :
    ∀ {fuel off : Nat}, recs.length ≤ fuel → findFrom 0 name fuel off (area recs) = some none := by
  induction recs with
  | nil =>
      intro fuel off _
      cases fuel <;> rfl
  | cons r recs ih =>
      intro fuel off hfuel
      cases fuel with
      | zero => cases hfuel
      | succ fuel =>
          rw [area_cons, findFrom_record, if_neg (h r List.mem_cons_self)]
          exact ih (fun r' hr' => h r' (List.mem_cons_of_mem _ hr')) (Nat.le_of_succ_le_succ hfuel)

theorem findFrom_some {name : Bytes} {pre post : List Rec} {r : Rec} (hpre : ∀ r ∈ pre, ¬ Named name r)
    (hr : Named name r) : ∀ {fuel off : Nat}, pre.length < fuel →
      findFrom 0 name fuel off (area (pre ++ r :: post)) = some (some (off + (area pre).length, (r.value.length : Int))) := by
  induction pre with
  | nil =>
      intro fuel off hfuel
      cases fuel with
      | zero => cases hfuel
      | succ fuel =>
          rw [List.nil_append, area_cons, findFrom_record, if_pos hr]
          rfl
  | cons q pre ih =>
      intro fuel off hfuel
      cases fuel with
      | zero => cases hfuel
      | succ fuel =>
          rw [List.cons_append, area_cons, findFrom_record, if_neg (hpre q List.mem_cons_self),
            ih (fun r' hr' => hpre r' (List.mem_cons_of_mem _ hr')) (Nat.lt_of_succ_lt_succ hfuel), area_cons,
            List.length_append, q.length_bytes, Nat.add_assoc]

theorem listFrom_record (rest : Bytes) (r : Rec) (fuel : Nat) :
    listFrom (fuel + 1) (r.bytes ++ rest) =
      if r.nspace = 0 then (listFrom fuel rest).map (r.name :: ·) else listFrom fuel rest := by
  have hstep : listFrom (fuel + 1) (r.bytes ++ rest) =
      if (r.bytes ++ rest).length < eaLength (r.bytes ++ rest) then none
      else if eaNamespace (r.bytes ++ rest) ≠ 0 then listFrom fuel (eaNext (r.bytes ++ rest))
      else (listFrom fuel (eaNext (r.bytes ++ rest))).map
        (eaName (r.bytes ++ rest) (eaNamelength (r.bytes ++ rest)) :: ·) := by
    cases h : r.bytes ++ rest with
    | nil => exact absurd h (r.bytes_ne_nil rest)
    | cons b bs => rfl
  have hns := r.eaNamespace_bytes rest
  rw [hstep, if_neg (r.not_length_lt rest), r.eaNext_bytes, r.eaName_bytes rest _ (r.eaNamelength_bytes rest)]
  by_cases hzero : r.nspace = 0
  · rw [if_pos hzero, if_neg (not_not.mpr (hns.mpr hzero))]
  · rw [if_neg hzero, if_pos fun h => hzero (hns.mp h)]

/-- The names in name space 0. -/
def namesOf (recs : List Rec) : List Bytes := (recs.filter (·.nspace = 0)).map (·.name)

theorem listFrom_area (recs : List Rec) : ∀ {fuel : Nat}, recs.length ≤ fuel →
    listFrom fuel (area recs) = some (namesOf recs) := by
  induction recs with
  | nil =>
      intro fuel _
      cases fuel <;> rfl
  | cons r recs ih =>
      intro fuel hfuel
      cases fuel with
      | zero => cases hfuel
      | succ fuel =>
          rw [area_cons, listFrom_record, ih (Nat.le_of_succ_le_succ hfuel)]
          unfold namesOf
          by_cases hzero : r.nspace = 0
          · simp [hzero]
          · simp [hzero]

/-! ### The map -/

abbrev Attrs : Type := Bytes → Option Bytes

/-- The map from names to contents. -/
def attrsOf (recs : List Rec) : Attrs := fun name => (recs.find? fun r => Named name r).map (·.value)

/-- No name is there twice. -/
def Distinct (recs : List Rec) : Prop := (namesOf recs).Nodup

theorem attrsOf_none {name : Bytes} {recs : List Rec} (h : ∀ r ∈ recs, ¬ Named name r) : attrsOf recs name = none := by
  unfold attrsOf
  rw [List.find?_eq_none.mpr fun r hr => by simpa using h r hr]
  rfl

theorem attrsOf_some {name : Bytes} {pre post : List Rec} {r : Rec} (hpre : ∀ r ∈ pre, ¬ Named name r)
    (hr : Named name r) : attrsOf (pre ++ r :: post) name = some r.value := by
  unfold attrsOf
  rw [List.find?_append, List.find?_eq_none.mpr fun r hr => by simpa using hpre r hr]
  simp [hr]

/-- A name is in no record, or there is a first record with it. -/
theorem named_cases (name : Bytes) (recs : List Rec) :
    (∀ r ∈ recs, ¬ Named name r) ∨
      ∃ pre r post, recs = pre ++ r :: post ∧ (∀ r ∈ pre, ¬ Named name r) ∧ Named name r := by
  induction recs with
  | nil => exact .inl nofun
  | cons q recs ih =>
      by_cases hq : Named name q
      · exact .inr ⟨[], q, recs, rfl, nofun, hq⟩
      · obtain hnone | ⟨pre, r, post, rfl, hpre, hr⟩ := ih
        · refine .inl fun r hr => ?_
          obtain rfl | hr := List.mem_cons.mp hr
          · exact hq
          · exact hnone r hr
        · refine .inr ⟨q :: pre, r, post, rfl, fun p hp => ?_, hr⟩
          obtain rfl | hp := List.mem_cons.mp hp
          · exact hq
          · exact hpre p hp

theorem mem_namesOf {name : Bytes} {recs : List Rec} : name ∈ namesOf recs ↔ ∃ r ∈ recs, Named name r := by
  unfold namesOf Named
  simp only [List.mem_map, List.mem_filter, decide_eq_true_eq, and_assoc]

theorem mem_namesOf_iff_attrsOf {name : Bytes} {recs : List Rec} : name ∈ namesOf recs ↔ attrsOf recs name ≠ none := by
  rw [mem_namesOf]
  obtain hnone | ⟨pre, r, post, rfl, hpre, hr⟩ := named_cases name recs
  · rw [attrsOf_none hnone]
    exact ⟨fun ⟨r, hr, hnamed⟩ => absurd hnamed (hnone r hr), fun h => absurd rfl h⟩
  · rw [attrsOf_some hpre hr]
    exact ⟨fun _ => nofun, fun _ => ⟨r, List.mem_append_right _ List.mem_cons_self, hr⟩⟩

/-- What is left when a record is cut out. -/
theorem distinct_cut {pre post : List Rec} {r : Rec} (h : Distinct (pre ++ r :: post)) : Distinct (pre ++ post) := by
  have hsub : (pre ++ post).Sublist (pre ++ r :: post) := (List.sublist_cons_self r post).append_left pre
  exact h.sublist ((hsub.filter _).map _)

theorem attrsOf_cut {name : Bytes} {pre post : List Rec} {r : Rec} (h : Distinct (pre ++ r :: post))
    (hr : Named name r) :
    attrsOf (pre ++ post) = Function.update (attrsOf (pre ++ r :: post)) name none := by
  have hcut : name ∉ namesOf (pre ++ post) := by
    have hperm : (namesOf (pre ++ r :: post)).Perm (name :: namesOf (pre ++ post)) := by
      have hmid : (pre ++ r :: post).Perm (r :: (pre ++ post)) := List.perm_middle
      have hmap := (hmid.filter (·.nspace = 0)).map (·.name)
      have hhead : ((r :: (pre ++ post)).filter (·.nspace = 0)).map (·.name) = name :: namesOf (pre ++ post) := by
        rw [List.filter_cons_of_pos (by simpa using hr.1), List.map_cons, hr.2]
        rfl
      exact hhead ▸ hmap
    exact (List.nodup_cons.mp (hperm.nodup_iff.mp h)).1
  funext name'
  by_cases heq : name' = name
  · rw [heq, Function.update_self]
    by_contra hne
    exact hcut (mem_namesOf_iff_attrsOf.mpr hne)
  · rw [Function.update_of_ne heq]
    have hother : ¬ Named name' r := fun h => heq (h.2.symm.trans hr.2)
    unfold attrsOf
    simp [List.find?_append, hother]

theorem ffsFindextattr_none {name : Bytes} {recs : List Rec} (h : ∀ r ∈ recs, ¬ Named name r) :
    ffsFindextattr (area recs) 0 name = some none := by
  unfold ffsFindextattr
  rw [findFrom_none h (length_le_length_area recs)]
  rfl

theorem ffsFindextattr_some {name : Bytes} {pre post : List Rec} {r : Rec} (hpre : ∀ r ∈ pre, ¬ Named name r)
    (hr : Named name r) :
    ffsFindextattr (area (pre ++ r :: post)) 0 name = some (some ((area pre).length, (r.value.length : Int))) := by
  have hlen := length_le_length_area (pre ++ r :: post)
  rw [List.length_append, List.length_cons] at hlen
  unfold ffsFindextattr
  rw [findFrom_some hpre hr (by omega), Nat.zero_add]
  have hne : (r.value.length : Int) ≠ -1 := by omega
  simp [hne]

theorem drop_area {pre post : List Rec} {r : Rec} :
    (area (pre ++ r :: post)).drop (area pre).length = r.bytes ++ area post := by
  rw [area_append, List.drop_left, area_cons]

/-! ### What the operations are for -/

/-- The result of an operation is one that the map allows. -/
def Allowed (vp : Vnode) (m : Attrs) : Extattr.Op → Res → Prop
  | .get name, .value v => m name = some v
  | .get name, .error e => (e = .enoattr ∧ m name = none) ∨ (e = .eopnotsupp ∧ vp.special = true)
  | .list, .names l => l.Nodup ∧ ∀ name, name ∈ l ↔ m name ≠ none
  | .list, .error e => e = .eopnotsupp ∧ vp.special = true
  | .delete name, .ok => m name ≠ none
  | .delete name, .error e =>
      (e = .enoattr ∧ m name = none) ∨ vp.special = true ∨ vp.rdonly = true ∨ name.length = 0
  | .set _ _ _, .ok => True
  | .set _ _ _, .error _ => True
  | _, _ => False

/-- The map after an operation. One that returns an error leaves it alone. -/
def after (m : Attrs) : Extattr.Op → Res → Attrs
  | .delete name, .ok => Function.update m name none
  | .set name (some value) _, .ok => Function.update m name (some value)
  | _, _ => m

/-- A sequence of operations behaves as on a finite map that is `m` at first. -/
def Conforms (vp : Vnode) : Attrs → Ea → List (Env × Extattr.Op) → Prop
  | _, _, [] => True
  | m, ip, (env, op) :: ops =>
      Allowed vp m op (exec env vp ip op).2 ∧
        Conforms vp (after m op (exec env vp ip op).2) (exec env vp ip op).1 ops

/-- The inode stores the map `m`: there is no area, or it is in memory and is held there. -/
inductive Represents (vp : Vnode) (ip : Ea) (m : Attrs) : Prop where
  | empty (hstore : ip.store = []) (harea : ip.area = none) (hrefs : vp.nullMalloc = true ∨ ip.refs = 0)
      (hm : m = fun _ => none)
  | held (recs : List Rec) (harea : ip.area = some (area recs)) (hrefs : 1 ≤ ip.refs) (herror : ip.error = none)
      (hdistinct : Distinct recs) (hm : m = attrsOf recs)

/-- An area of 0 bytes that has been opened. -/
def EmptyArea (vp : Vnode) (ip : Ea) : Prop :=
  (vp.nullMalloc = true ∧ ip.area = none) ∨ (vp.nullMalloc = false ∧ ip.area = some [] ∧ ip.refs = 1)

/-- The area between `ffs_open_ea` and `ffs_close_ea`. -/
inductive Opened (vp : Vnode) (ip : Ea) (recs : List Rec) : Prop where
  | empty (hstore : ip.store = []) (hrecs : recs = []) (harea : EmptyArea vp ip)
  | held (harea : ip.area = some (area recs)) (hrefs : 2 ≤ ip.refs) (herror : ip.error = none)

section Calls

variable {env : Env} {vp : Vnode} {ip : Ea} {m : Attrs} {recs : List Rec}

theorem ffsOpenEa_empty (env : Env) (hstore : ip.store = []) (harea : ip.area = none)
    (hrefs : vp.nullMalloc = true ∨ ip.refs = 0) :
    ∃ ip', ffsOpenEa env vp ip = some (.ok ip') ∧ ip'.store = [] ∧ EmptyArea vp ip' := by
  -- nothing is read, and the check of the records has nothing to look at
  have hread : ffsRdextattr env vp [] = some (.ok (if vp.nullMalloc = true then none else some [])) := by
    simp [ffsRdextattr, validate]
  cases hnull : vp.nullMalloc with
  | true =>
      refine ⟨{ ip with area := none, error := none, refs := ip.refs + 1 }, ?_, hstore, .inl ⟨hnull, rfl⟩⟩
      unfold ffsOpenEa
      simp only [harea, hstore, hread, hnull, if_true]
  | false =>
      have hzero : ip.refs = 0 := hrefs.resolve_left (by simp [hnull])
      refine ⟨{ ip with area := some [], error := none, refs := ip.refs + 1 }, ?_, hstore,
        .inr ⟨hnull, rfl, by rw [hzero]⟩⟩
      unfold ffsOpenEa
      simp only [harea, hstore, hread, hnull, Bool.false_eq_true, if_false]

theorem ffsOpenEa_of_represents (env : Env) (h : Represents vp ip m) :
    ∃ ip' recs, ffsOpenEa env vp ip = some (.ok ip') ∧ Opened vp ip' recs ∧ Distinct recs ∧ m = attrsOf recs := by
  cases h with
  | empty hstore harea hrefs hm =>
      obtain ⟨ip', hopen, hstore', harea'⟩ := ffsOpenEa_empty env hstore harea hrefs
      exact ⟨ip', [], hopen, .empty hstore' rfl harea', List.nodup_nil, hm⟩
  | held recs harea hrefs herror hdistinct hm =>
      refine ⟨{ ip with refs := ip.refs + 1 }, recs, ?_, .held harea (Nat.succ_le_succ hrefs) herror, hdistinct, hm⟩
      unfold ffsOpenEa
      simp only [harea]

theorem getD_area_of_opened (h : Opened vp ip recs) : ip.area.getD [] = area recs := by
  cases h with
  | empty _ hrecs harea =>
      obtain ⟨-, harea⟩ | ⟨-, harea, -⟩ := harea
      · rw [harea, hrecs]
        rfl
      · rw [harea, hrecs]
        rfl
  | held harea => rw [harea, Option.getD_some]

/-- Closing without a commit puts everything back. -/
theorem represents_ffsCloseEa (env : Env) (h : Opened vp ip recs) (hdistinct : Distinct recs) :
    Represents vp (ffsCloseEa env ip false).2 (attrsOf recs) := by
  cases h with
  | empty hstore hrecs harea =>
      subst hrecs
      obtain ⟨hnull, harea⟩ | ⟨-, harea, hrefs⟩ := harea
      · unfold ffsCloseEa
        rw [harea]
        exact .empty hstore harea (.inl hnull) rfl
      · unfold ffsCloseEa
        simp only [harea, hrefs]
        exact .empty hstore rfl (.inr rfl) rfl
  | held harea hrefs herror =>
      unfold ffsCloseEa
      simp only [harea]
      rw [if_neg (by omega)]
      exact .held recs rfl (show 1 ≤ ip.refs - 1 by omega) herror hdistinct rfl

/-- A commit of another area while somebody else holds it. -/
theorem ffsCloseEa_commit {recs' : List Rec} (env : Env) (vp : Vnode) (hrefs : 2 ≤ ip.refs) (herror : ip.error = none)
    (hdistinct : Distinct recs') :
    (ffsCloseEa env { ip with area := some (area recs') } true).1 = none
      ∧ Represents vp (ffsCloseEa env { ip with area := some (area recs') } true).2 (attrsOf recs') := by
  unfold ffsCloseEa
  simp only
  rw [if_neg (by omega)]
  exact ⟨herror, .held recs' rfl (show 1 ≤ ip.refs - 1 by omega) herror hdistinct rfl⟩

/-- `ffs_getextattr` is a look-up. -/
theorem get_step (env : Env) (h : Represents vp ip m) (name : Bytes) :
    Allowed vp m (.get name) (ffsGetextattr env vp ip name).2 ∧ Represents vp (ffsGetextattr env vp ip name).1 m := by
  unfold ffsGetextattr
  by_cases hspecial : vp.special = true
  · rw [if_pos hspecial]
    exact ⟨.inr ⟨rfl, hspecial⟩, h⟩
  rw [if_neg hspecial]
  obtain ⟨ip', recs, hopen, hopened, hdistinct, rfl⟩ := ffsOpenEa_of_represents env h
  have hclosed := represents_ffsCloseEa env hopened hdistinct
  simp only [hopen, getD_area_of_opened hopened]
  obtain hnone | ⟨pre, r, post, rfl, hpre, hr⟩ := named_cases name recs
  · simp only [ffsFindextattr_none hnone]
    exact ⟨.inl ⟨rfl, attrsOf_none hnone⟩, hclosed⟩
  · simp only [ffsFindextattr_some hpre hr]
    refine ⟨?_, hclosed⟩
    rw [if_pos (Int.natCast_nonneg _), drop_area, Rec.eaContent_bytes, Int.toNat_natCast, List.take_left]
    exact attrsOf_some hpre hr

theorem list_step (env : Env) (h : Represents vp ip m) :
    Allowed vp m .list (ffsListextattr env vp ip).2 ∧ Represents vp (ffsListextattr env vp ip).1 m := by
  unfold ffsListextattr
  by_cases hspecial : vp.special = true
  · rw [if_pos hspecial]
    exact ⟨⟨rfl, hspecial⟩, h⟩
  rw [if_neg hspecial]
  obtain ⟨ip', recs, hopen, hopened, hdistinct, rfl⟩ := ffsOpenEa_of_represents env h
  simp only [hopen, getD_area_of_opened hopened, listFrom_area recs (length_le_length_area recs)]
  exact ⟨⟨hdistinct, fun name => mem_namesOf_iff_attrsOf⟩, represents_ffsCloseEa env hopened hdistinct⟩

/-- `ffs_deleteextattr` removes a name. -/
theorem delete_step (env : Env) (h : Represents vp ip m) (name : Bytes) :
    Allowed vp m (.delete name) (ffsDeleteextattr env vp ip name).2
      ∧ Represents vp (ffsDeleteextattr env vp ip name).1
        (after m (.delete name) (ffsDeleteextattr env vp ip name).2) := by
  unfold ffsDeleteextattr
  by_cases hspecial : vp.special = true
  · rw [if_pos hspecial]
    exact ⟨.inr (.inl hspecial), h⟩
  rw [if_neg hspecial]
  by_cases hname : name.length = 0
  · rw [if_pos hname]
    exact ⟨.inr (.inr (.inr hname)), h⟩
  rw [if_neg hname]
  by_cases hrdonly : vp.rdonly = true
  · rw [if_pos hrdonly]
    exact ⟨.inr (.inr (.inl hrdonly)), h⟩
  rw [if_neg hrdonly]
  obtain ⟨ip', recs, hopen, hopened, hdistinct, rfl⟩ := ffsOpenEa_of_represents env h
  simp only [hopen, getD_area_of_opened hopened]
  obtain hnone | ⟨pre, r, post, rfl, hpre, hr⟩ := named_cases name recs
  · simp only [ffsFindextattr_none hnone]
    exact ⟨.inl ⟨rfl, attrsOf_none hnone⟩, represents_ffsCloseEa env hopened hdistinct⟩
  · -- a record is there, so the area was in memory before
    cases hopened with
    | empty _ hrecs => exact absurd hrecs (by simp)
    | held harea hrefs herror =>
        have hcut : (area (pre ++ r :: post)).take (area pre).length
            ++ eaNext ((area (pre ++ r :: post)).drop (area pre).length) = area (pre ++ post) := by
          rw [drop_area, Rec.eaNext_bytes, area_append, List.take_left, area_append]
        simp only [ffsFindextattr_some hpre hr, hcut]
        obtain ⟨hok, hrep⟩ := ffsCloseEa_commit env vp hrefs herror (distinct_cut hdistinct)
        rw [hok]
        refine ⟨?_, ?_⟩
        · change attrsOf (pre ++ r :: post) name ≠ none
          rw [attrsOf_some hpre hr]
          nofun
        · change Represents vp _ (Function.update (attrsOf (pre ++ r :: post)) name none)
          rw [← attrsOf_cut hdistinct hr]
          exact hrep

/-- The length of the record that `ffs_setextattr` makes is what it has calculated. -/
theorem length_eaRecord (nspace : UInt8) (name value : Bytes) :
    (eaRecord nspace name value).length = recordLength name value := by
  have hname := le_roundup8 (eaHeader + name.length)
  have hvalue := le_roundup8 value.length
  have hheader : eaHeader = 7 := rfl
  simp only [eaRecord, le32, recordLength, List.length_append, List.length_cons, List.length_nil,
    List.length_replicate]
  omega

/-- The call of `ffs_setextattr` is refused: before the area is opened, or, where there is
no area, because the record does not fit or cannot be copied in. -/
def Refused (vp : Vnode) (ip : Ea) (name : Bytes) (uio : Option Bytes) (fault : Option EaErrno) : Prop :=
  vp.special = true ∨ name.length = 0 ∨ vp.rdonly = true ∨ ∀ value, uio = some value →
    vp.maxArea < value.length ∨
      (ip.area = none ∧ (vp.maxArea < recordLength name value ∨ fault ≠ none))

/-- Where there is no area, a failure half way leaves everything as it was. -/
theorem setextattrFail_empty (env : Env) (e : EaErrno) (hstore : ip.store = []) (harea : EmptyArea vp ip) :
    ∃ ip', setextattrFail env ip e = (ip', .error e) ∧ Represents vp ip' (attrsOf []) := by
  have hclosed := represents_ffsCloseEa env (.empty hstore rfl harea) List.nodup_nil
  have hnone : (ffsCloseEa env ip false).2.area = none := by
    unfold ffsCloseEa
    obtain ⟨-, harea⟩ | ⟨-, harea, hrefs⟩ := harea
    · rw [harea]
      exact harea
    · simp only [harea, hrefs]
      rfl
  refine ⟨_, ?_, hclosed⟩
  unfold setextattrFail
  simp [hnone]

/-- The result is an error, and the map is what it was. -/
def Unchanged (vp : Vnode) (m : Attrs) (r : Ea × Res) : Prop := (∃ e, r.2 = .error e) ∧ Represents vp r.1 m

theorem setextattrOpen_refused {name value : Bytes} {fault : Option EaErrno} (h : Represents vp ip m)
    (harea : ip.area = none) (hbad : vp.maxArea < recordLength name value ∨ fault ≠ none) :
    Unchanged vp m (setextattrOpen env vp ip name value fault) := by
  cases h with
  | held recs harea' => exact absurd (harea.symm.trans harea') nofun
  | empty hstore _ hrefs hm =>
      obtain ⟨ip', hopen, hstore', harea'⟩ := ffsOpenEa_empty env hstore harea hrefs
      have hbytes : ip'.area.getD [] = area [] := getD_area_of_opened (.empty hstore' rfl harea')
      have hfind : ffsFindextattr [] 0 name = some none := rfl
      unfold setextattrOpen
      simp only [hopen, hbytes, hfind, area_nil, List.nil_append, length_eaRecord]
      by_cases hbig : vp.maxArea < recordLength name value
      · obtain ⟨ip'', heq, hrep⟩ := setextattrFail_empty env .enospc hstore' harea'
        rw [if_pos hbig, heq]
        exact ⟨⟨_, rfl⟩, hm ▸ hrep⟩
      · rw [if_neg hbig]
        cases fault with
        | none => exact absurd rfl (hbad.resolve_left hbig)
        | some e =>
            obtain ⟨ip'', heq, hrep⟩ := setextattrFail_empty env e hstore' harea'
            simp only [heq]
            exact ⟨⟨_, rfl⟩, hm ▸ hrep⟩

theorem set_refused {name : Bytes} {uio : Option Bytes} {fault : Option EaErrno} (env : Env) (h : Represents vp ip m)
    (hrefused : Refused vp ip name uio fault) : Unchanged vp m (ffsSetextattr env vp ip name uio fault) := by
  unfold ffsSetextattr
  by_cases hspecial : vp.special = true
  · rw [if_pos hspecial]
    exact ⟨⟨_, rfl⟩, h⟩
  rw [if_neg hspecial]
  by_cases hname : name.length = 0
  · rw [if_pos hname]
    exact ⟨⟨_, rfl⟩, h⟩
  rw [if_neg hname]
  cases uio with
  | none => exact ⟨⟨_, rfl⟩, h⟩
  | some value =>
      simp only
      by_cases hrdonly : vp.rdonly = true
      · rw [if_pos hrdonly]
        exact ⟨⟨_, rfl⟩, h⟩
      rw [if_neg hrdonly]
      by_cases hbig : vp.maxArea < value.length
      · rw [if_pos hbig]
        exact ⟨⟨_, rfl⟩, h⟩
      rw [if_neg hbig]
      -- what is left is a call that gets to the area
      obtain ⟨harea, hbad⟩ := (((hrefused.resolve_left hspecial).resolve_left hname).resolve_left hrdonly value
        rfl).resolve_left hbig
      exact setextattrOpen_refused h harea hbad

end Calls

/-! ### Runs -/

/-- An operation that does not add a record. -/
def Meets (vp : Vnode) (ip : Ea) : Extattr.Op → Prop
  | .set name uio fault => Refused vp ip name uio fault
  | _ => True

/-- All operations of a sequence meet the condition, each in the state it finds. -/
def AllMeet (vp : Vnode) : Ea → List (Env × Extattr.Op) → Prop
  | _, [] => True
  | ip, (env, op) :: ops => Meets vp ip op ∧ AllMeet vp (exec env vp ip op).1 ops

/-- One operation, of whatever kind. -/
theorem exec_step (env : Env) {vp : Vnode} {ip : Ea} {m : Attrs} {op : Extattr.Op} (h : Represents vp ip m)
    (hmeets : Meets vp ip op) :
    Allowed vp m op (exec env vp ip op).2
      ∧ Represents vp (exec env vp ip op).1 (after m op (exec env vp ip op).2) := by
  cases op with
  | get name =>
      obtain ⟨hallowed, hrep⟩ := get_step env h name
      exact ⟨hallowed, hrep⟩
  | list =>
      obtain ⟨hallowed, hrep⟩ := list_step env h
      exact ⟨hallowed, hrep⟩
  | delete name => exact delete_step env h name
  | set name uio fault =>
      obtain ⟨⟨e, herror⟩, hrep⟩ := set_refused env h hmeets
      simp only [exec, herror]
      refine ⟨trivial, ?_⟩
      cases uio <;> exact hrep

/-- In every sequence of operations none of which adds a record, on an inode that has no
area on the device or has it in memory, the extended attributes are a finite map. -/
theorem extattr_finite_map (vp : Vnode) (ip : Ea) (m : Attrs) (ops : List (Env × Extattr.Op)) (h : Represents vp ip m)
    (hmeets : AllMeet vp ip ops) : Conforms vp m ip ops := by
  induction ops generalizing ip m with
  | nil => trivial
  | cons first ops ih =>
      obtain ⟨env, op⟩ := first
      obtain ⟨hallowed, hrep⟩ := exec_step env h hmeets.1
      exact ⟨hallowed, ih _ _ hrep hmeets.2⟩

/-! ### Two inodes -/

def plainVnode (nullMalloc : Bool) : Vnode := ⟨tinyFs, false, false, nullMalloc⟩

/-- Memory that is 0 throughout. -/
def zeroEnv : Env := ⟨fun _ => 0, fun _ => 0⟩

/-- The name `a` with a content of two bytes. -/
def smallRec : Rec where
  nspace := 0
  name := [97]
  pad1 := []
  value := [1, 2]
  pad2 := [0, 0, 0, 0, 0, 0]
  name_lt := by decide
  pad1_eq := by decide
  pad2_lt := by decide
  length_lt := by decide

/-- An inode with this record in memory. -/
def heldEa : Ea := ⟨area [smallRec], some (area [smallRec]), 1, none⟩

/-- The name is found, deleted, and not found again. -/
theorem extattr_finite_map_held :
    Conforms (plainVnode true) (attrsOf [smallRec]) heldEa
      [(zeroEnv, .get [97]), (zeroEnv, .delete [97]), (zeroEnv, .get [97]), (zeroEnv, .list)] := by
  refine extattr_finite_map _ _ _ _ ?_ ⟨trivial, trivial, trivial, trivial, trivial⟩
  exact .held [smallRec] rfl (le_refl 1) rfl (List.nodup_singleton _) rfl

/-- An inode without attributes. -/
def emptyEa : Ea := ⟨[], none, 0, none⟩

/-- A value that has been set is not found: it stands in another name space where the area
stays in memory (the first look-up, which finds nothing, has left a reference behind), and
in no memory that anything looks at where it does not. -/
theorem extattr_lost :
    Represents (plainVnode true) emptyEa (fun _ => none)
      ∧ ¬ Conforms (plainVnode true) (fun _ => none) emptyEa
        [(zeroEnv, .get [97]), (zeroEnv, .set [97] (some [120]) none), (zeroEnv, .get [97])]
      ∧ ¬ Conforms (plainVnode false) (fun _ => none) emptyEa
        [(zeroEnv, .set [97] (some [120]) none), (zeroEnv, .get [97])] := by
  refine ⟨.empty rfl rfl (.inl rfl) rfl, ?_, ?_⟩
  · rintro ⟨-, -, hget, -⟩
    have hlost : Allowed (plainVnode true) (Function.update (fun _ => none) [97] (some [120])) (.get [97])
        (.error .enoattr) := hget
    obtain ⟨-, hnone⟩ | ⟨hno, -⟩ := hlost
    · exact absurd hnone (by decide)
    · cases hno
  · rintro ⟨-, hget, -⟩
    have hlost : Allowed (plainVnode false) (Function.update (fun _ => none) [97] (some [120])) (.get [97])
        (.error .estale) := hget
    obtain ⟨hno, -⟩ | ⟨hno, -⟩ := hlost <;> nomatch hno

end UfsX.Proofs.Extattr
