import UfsX.Ffs.Extattr
import UfsX.Ffs.ExtattrWalk
import UfsX.Proofs.Consistent
import Mathlib.Data.Fintype.Card
import Mathlib.Data.Fintype.Prod

/-!
# `UfsX.Proofs.ExtattrWalk`: is a validated attribute area safe to walk?

An area that the validation accepts is a chain of records, each at least a header long, that
ends with the area (`Chain`). Every walk goes along this chain, and what it reads of a record
is its header and, where the lengths agree, its name. The length of the name and the padding of
the content are not among the things that the validation looks at: `safe_iff` says what they
have to be.

The other direction needs a name that a look-up can use to get to a given record. An area is too
small to hold all names of a length of two or more (`exists_fresh`).
-/

set_option autoImplicit false

namespace UfsX.Proofs.ExtattrWalk

open UfsX.Lib UfsX.Ffs UfsX.Ffs.ExtattrWalk
open UfsX.Ufs (nxaddr)

variable {m : Mem} {size : Nat} {eap : Nat} {eaps : List Nat}

/-! ### What is asked for -/

/-- Only bytes of the area are read. -/
def Inside (size : Nat) (rs : List Span) : Prop := ∀ r ∈ rs, r.1 + r.2 ≤ size

/-- A look-up ends without a failed assertion, and a content that it returns lies in its record
and in the area. -/
def Answers (m : Mem) (size : Nat) (r : Option Find) : Prop :=
  ∃ res, r = some res ∧ res ≠ .panic ∧ ∀ eap content ealen, res = .found eap content ealen →
    0 ≤ ealen ∧ eap ≤ content ∧ content + ealen ≤ eaNext m eap ∧ eaNext m eap ≤ size

/-- A name as C has it. -/
def CString (name : List UInt8) : Prop := 0 ∉ name

/-- All walks over the area stay inside and come to an end. -/
structure Safe (m : Mem) (size : Nat) : Prop where
  find : ∀ (nspace : Int) (name : List UInt8), CString name →
    Inside size (ffsFindextattr m size nspace name size 0).reads ∧
      Answers m size (ffsFindextattr m size nspace name size 0).result
  get : ∀ (name : List UInt8) (sink : Sink), CString name →
    Inside size (ffsGetextattr m size name sink size).reads ∧ Answers m size (ffsGetextattr m size name sink size).result
  list : ∀ (fault : Nat → Bool) (sink : Sink),
    Inside size (ffsListextattr m size fault sink size 0).reads ∧
      (ffsListextattr m size fault sink size 0).result = some true

/-! ### The records -/

/-- The records from one offset on, in at most so many rounds. -/
def records (m : Mem) (size : Nat) : Nat → Nat → List Nat
  | 0, _ => []
  | fuel + 1, eap => if eap < size then eap :: records m size fuel (eaNext m eap) else []

/-- The first record of its name space with a name: the one that a look-up of the name finds. -/
def FoundFirst (m : Mem) (size : Nat) (eap : Nat) : Prop :=
  CString (eaName m eap (eaNamelength m eap)) ∧
    ∀ q ∈ records m size size 0, q < eap → ¬ Matches m (eaNamespace m eap) (eaName m eap (eaNamelength m eap)) q

/-- The name of a record is never looked at: it is not listed, and every name of its length
that can be looked up is found before. -/
def Passed (m : Mem) (size : Nat) (eap : Nat) : Prop :=
  eaNamespace m eap ≠ 0 ∧ ∀ name, CString name → name.length = eaNamelength m eap →
    ∃ q ∈ records m size size 0, q < eap ∧ Matches m (eaNamespace m eap) name q

/-- The name of each record lies in the area or is never looked at, and what a look-up can find is
long enough for its header, its name and its padding. -/
def Sound (m : Mem) (size : Nat) : Prop :=
  ∀ p ∈ records m size size 0, (p + eaHeader + eaNamelength m p ≤ size ∨ Passed m size p) ∧
    (FoundFirst m size p → eaBaseLength m p + eaContentpadlen m p ≤ eaLength m p)

/-- The records from one offset to the end of the area, as the validation leaves them. -/
inductive Chain (m : Mem) (size : Nat) : Nat → List Nat → Prop where
  | nil : Chain m size size []
  | cons {eap : Nat} {eaps : List Nat} (hlen : sizeofExtattr ≤ eaLength m eap) (hnext : eaNext m eap ≤ size)
      (h : Chain m size (eaNext m eap) eaps) : Chain m size eap (eap :: eaps)

namespace Chain

/-- Each record takes eight bytes or more. -/
theorem length_le (h : Chain m size eap eaps) : eap + 8 * eaps.length ≤ size := by
  induction h with
  | nil => exact le_refl _
  | cons hlen hnext h ih =>
      unfold sizeofExtattr at hlen
      unfold eaNext at ih
      rw [List.length_cons]
      omega

/-- The header of each record is in the area. -/
theorem header (h : Chain m size eap eaps) {q : Nat} (hq : q ∈ eaps) :
    eap ≤ q ∧ sizeofExtattr ≤ eaLength m q ∧ eaNext m q ≤ size := by
  induction h with
  | nil => cases hq
  | @cons p ps hlen hnext h ih =>
      rcases List.mem_cons.mp hq with rfl | hq
      · exact ⟨le_refl _, hlen, hnext⟩
      · have hrest := ih hq
        unfold eaNext at hrest ⊢
        exact ⟨by omega, hrest.2.1, hrest.2.2⟩

/-- The records stand in order. -/
theorem lt_of_split (h : Chain m size eap eaps) {pre post : List Nat} {q : Nat} (heq : eaps = pre ++ q :: post) :
    ∀ p ∈ eaps, p < q ↔ p ∈ pre := by
  induction h generalizing pre with
  | nil =>
      rw [List.nil_eq_append_iff] at heq
      exact absurd heq.2 (List.cons_ne_nil _ _)
  | @cons p ps hlen hnext h ih =>
      unfold sizeofExtattr at hlen
      cases pre with
      | nil =>
          injection heq with hp hps
          intro x hx
          rcases List.mem_cons.mp hx with rfl | hx
          · exact ⟨fun hlt => absurd hlt (by omega), fun hmem => absurd hmem List.not_mem_nil⟩
          · have hge := (h.header hx).1
            unfold eaNext at hge
            exact ⟨fun hlt => absurd hlt (by omega), fun hmem => absurd hmem List.not_mem_nil⟩
      | cons p' pre =>
          injection heq with hp hps
          have hq : q ∈ ps := by
            rw [hps]
            exact List.mem_append_right _ List.mem_cons_self
          have hge := (h.header hq).1
          unfold eaNext at hge
          intro x hx
          rcases List.mem_cons.mp hx with rfl | hx
          · exact ⟨fun _ => hp ▸ List.mem_cons_self, fun _ => by omega⟩
          · rw [ih hps x hx]
            constructor
            · exact fun hmem => List.mem_cons_of_mem _ hmem
            · intro hmem
              rcases List.mem_cons.mp hmem with heq | hmem
              · have hgx := (h.header hx).1
                unfold eaNext at hgx
                omega
              · exact hmem

theorem records_eq (h : Chain m size eap eaps) {fuel : Nat} (hfuel : eaps.length ≤ fuel) :
    records m size fuel eap = eaps := by
  induction h generalizing fuel with
  | nil =>
      cases fuel with
      | zero => rfl
      | succ fuel => exact if_neg (lt_irrefl _)
  | @cons p ps hlen hnext h ih =>
      unfold sizeofExtattr at hlen
      cases fuel with
      | zero => exact absurd hfuel (by simp)
      | succ fuel =>
          have hlt : p < size := by
            unfold eaNext at hnext
            omega
          unfold records
          rw [if_pos hlt, ih (Nat.le_of_succ_le_succ hfuel)]

end Chain

/-- Every area that the validation accepts is a chain of records, of which it reads the lengths. -/
theorem chain_of_validate {fuel : Nat} (h : (validate m size fuel eap).result = some true) (hle : eap ≤ size) :
    ∃ eaps, Chain m size eap eaps ∧ (validate m size fuel eap).reads = eaps.map fun q => (q, 4) := by
  induction fuel generalizing eap with
  | zero =>
      unfold validate at h ⊢
      by_cases hlt : eap < size
      · rw [if_pos hlt] at h
        cases h
      · obtain rfl : eap = size := by omega
        exact ⟨[], .nil, rfl⟩
  | succ fuel ih =>
      unfold validate at h ⊢
      by_cases hlt : eap < size
      · rw [if_pos hlt] at h ⊢
        by_cases hbad : eaLength m eap < sizeofExtattr ∨ size < eaNext m eap
        · rw [if_pos hbad] at h
          cases h
        · rw [if_neg hbad] at h ⊢
          rw [not_or, Nat.not_lt, Nat.not_lt] at hbad
          obtain ⟨eaps, hchain, hreads⟩ := ih h hbad.2
          refine ⟨eap :: eaps, .cons hbad.1 hbad.2 hchain, ?_⟩
          show (eap, 4) :: (validate m size fuel (eaNext m eap)).reads = _
          rw [hreads]
          rfl
      · rw [if_neg hlt]
        obtain rfl : eap = size := by omega
        exact ⟨[], .nil, rfl⟩

/-- The validation ends: a record shorter than its header is refused. -/
theorem validate_ends (m : Mem) {fuel : Nat} (h : size ≤ eap + fuel) : (validate m size fuel eap).result ≠ none := by
  induction fuel generalizing eap with
  | zero =>
      unfold validate
      rw [if_neg (show ¬ eap < size by omega)]
      exact Option.some_ne_none true
  | succ fuel ih =>
      unfold validate
      split
      · split
        · exact Option.some_ne_none false
        case isFalse hgood =>
          unfold sizeofExtattr eaNext at hgood
          refine ih ?_
          unfold eaNext
          omega
      · exact Option.some_ne_none true

/-! ### The area as a list

`UfsX.Ffs.Extattr` has the area as a list of bytes; its validation is the same. -/

/-! ### Looking up a name -/

section Find

variable {nspace : Int} {name : List UInt8} {fuel : Nat}

/-- One record of a chain: the look-up stops there or goes on. -/
theorem ffsFindextattr_cons (h : Chain m size eap (eap :: eaps)) (fuel : Nat) :
    ffsFindextattr m size nspace name (fuel + 1) eap =
      if Matches m nspace name eap then
        ⟨(eap, 4) :: compared m nspace name eap ++ [(eap + 6, 1), (eap, 4), (eap + 6, 1), (eap + 5, 1)],
          some (.found eap (eaContent m eap) (eaContentSize m eap))⟩
      else
        (ffsFindextattr m size nspace name fuel (eaNext m eap)).after
          ((eap, 4) :: compared m nspace name eap ++ [(eap, 4)]) := by
  have hhead := h.header List.mem_cons_self
  unfold sizeofExtattr eaNext at hhead
  have hlt : eap < size := by omega
  have hnext : ¬ size < eaNext m eap := by
    unfold eaNext
    omega
  show (if eap < size then if size < eaNext m eap then _ else _ else _) = _
  rw [if_pos hlt, if_neg hnext]

theorem ffsFindextattr_end (m : Mem) (nspace : Int) (name : List UInt8) (fuel : Nat) :
    ffsFindextattr m size nspace name fuel size = ⟨[], some .missing⟩ := by
  cases fuel with
  | zero =>
      unfold ffsFindextattr
      rw [if_neg (lt_irrefl _)]
  | succ fuel =>
      unfold ffsFindextattr
      rw [if_neg (lt_irrefl _)]

/-- The look-up finds the first record that matches. -/
theorem ffsFindextattr_result (h : Chain m size eap eaps) (hfuel : eaps.length ≤ fuel) :
    ((∀ q ∈ eaps, ¬ Matches m nspace name q) ∧
        (ffsFindextattr m size nspace name fuel eap).result = some .missing) ∨
      ∃ pre q post, eaps = pre ++ q :: post ∧ (∀ p ∈ pre, ¬ Matches m nspace name p) ∧ Matches m nspace name q ∧
        (ffsFindextattr m size nspace name fuel eap).result = some (.found q (eaContent m q) (eaContentSize m q)) := by
  induction h generalizing fuel with
  | nil =>
      rw [ffsFindextattr_end]
      exact .inl ⟨fun q hq => absurd hq List.not_mem_nil, rfl⟩
  | @cons p ps hlen hnext h ih =>
      cases fuel with
      | zero => exact absurd hfuel (by simp)
      | succ fuel =>
          rw [ffsFindextattr_cons (.cons hlen hnext h)]
          by_cases hmatch : Matches m nspace name p
          · rw [if_pos hmatch]
            exact .inr ⟨[], p, ps, rfl, fun q hq => absurd hq List.not_mem_nil, hmatch, rfl⟩
          · rw [if_neg hmatch]
            rcases ih (Nat.le_of_succ_le_succ hfuel) with ⟨hnone, hres⟩ | ⟨pre, q, post, heq, hpre, hq, hres⟩
            · refine .inl ⟨fun q hq => ?_, hres⟩
              rcases List.mem_cons.mp hq with rfl | hq
              · exact hmatch
              · exact hnone q hq
            · refine .inr ⟨p :: pre, q, post, by rw [heq, List.cons_append], fun x hx => ?_, hq, hres⟩
              rcases List.mem_cons.mp hx with rfl | hx
              · exact hmatch
              · exact hpre x hx

/-- What is read of a record: its header, and its name where `P` holds. -/
def OfRecord (m : Mem) (P : Nat → Prop) (q : Nat) (r : Span) : Prop :=
  r.1 + r.2 ≤ q + sizeofExtattr ∨ P q ∧ r.1 + r.2 ≤ q + eaHeader + eaNamelength m q

/-- A look-up compares its name with the one of `q`. -/
def Compares (m : Mem) (nspace : Int) (name : List UInt8) (eaps : List Nat) (q : Nat) : Prop :=
  nspace = eaNamespace m q ∧ name.length = eaNamelength m q ∧ ∀ p ∈ eaps, p < q → ¬ Matches m nspace name p

theorem compared_ofRecord {q : Nat} (h : ∀ p ∈ eaps, p < q → ¬ Matches m nspace name p) :
    ∀ r ∈ compared m nspace name q, OfRecord m (Compares m nspace name eaps) q r := by
  intro r hr
  unfold compared at hr
  unfold OfRecord sizeofExtattr eaHeader
  rcases List.mem_cons.mp hr with rfl | hr
  · exact .inl (by omega)
  · by_cases hns : (eaNamespace m q : Int) = nspace
    · rw [if_pos hns] at hr
      rcases List.mem_cons.mp hr with rfl | hr
      · exact .inl (by omega)
      · by_cases hlen : eaNamelength m q = name.length
        · rw [if_pos hlen, List.mem_singleton] at hr
          subst hr
          refine .inr ⟨⟨hns.symm, hlen.symm, h⟩, ?_⟩
          unfold eaHeader
          omega
        · rw [if_neg hlen] at hr
          cases hr
    · rw [if_neg hns] at hr
      cases hr

/-- A read of a small field. -/
theorem ofRecord_field {P : Nat → Prop} {q o n : Nat} (h : o + n ≤ 8) : OfRecord m P q (q + o, n) := by
  left
  show q + o + n ≤ q + 8
  omega

theorem ffsFindextattr_reads (h : Chain m size eap eaps) :
    ∀ r ∈ (ffsFindextattr m size nspace name fuel eap).reads,
      ∃ q ∈ eaps, OfRecord m (Compares m nspace name eaps) q r := by
  induction h generalizing fuel with
  | nil =>
      rw [ffsFindextattr_end]
      exact fun r hr => absurd hr List.not_mem_nil
  | @cons p ps hlen hnext h ih =>
      cases fuel with
      | zero => exact fun r hr => absurd hr List.not_mem_nil
      | succ fuel =>
          have hchain := Chain.cons hlen hnext h
          rw [ffsFindextattr_cons hchain]
          have hlength : OfRecord m (Compares m nspace name (p :: ps)) p (p, 4) := ofRecord_field (o := 0) (by decide)
          have hcompared : ∀ r ∈ compared m nspace name p, OfRecord m (Compares m nspace name (p :: ps)) p r :=
            compared_ofRecord fun x hx hlt => absurd (hchain.header hx).1 (by omega)
          intro r hr
          by_cases hmatch : Matches m nspace name p
          · rw [if_pos hmatch] at hr
            refine ⟨p, List.mem_cons_self, ?_⟩
            rcases List.mem_append.mp hr with hr | hr
            · rcases List.mem_cons.mp hr with rfl | hr
              · exact hlength
              · exact hcompared r hr
            · simp only [List.mem_cons, List.not_mem_nil, or_false] at hr
              rcases hr with rfl | rfl | rfl | rfl
              · exact ofRecord_field (by decide)
              · exact hlength
              · exact ofRecord_field (by decide)
              · exact ofRecord_field (by decide)
          · rw [if_neg hmatch] at hr
            rcases List.mem_append.mp hr with hr | hr
            · refine ⟨p, List.mem_cons_self, ?_⟩
              rcases List.mem_append.mp hr with hr | hr
              · rcases List.mem_cons.mp hr with rfl | hr
                · exact hlength
                · exact hcompared r hr
              · obtain rfl := List.mem_singleton.mp hr
                exact hlength
            · obtain ⟨q, hq, hof⟩ := ih r hr
              refine ⟨q, List.mem_cons_of_mem _ hq, hof.imp_right fun ⟨⟨hns, hl, hnot⟩, hin⟩ => ⟨⟨hns, hl, ?_⟩, hin⟩⟩
              intro x hx hlt
              rcases List.mem_cons.mp hx with rfl | hx
              · exact hmatch
              · exact hnot x hx hlt

/-- A look-up that no record before `q` answers compares its name with the one of `q`. -/
theorem compared_mem_reads (h : Chain m size eap eaps) {pre post : List Nat} {q : Nat} (heq : eaps = pre ++ q :: post)
    (hpre : ∀ p ∈ pre, ¬ Matches m nspace name p) (hfuel : eaps.length ≤ fuel) {r : Span}
    (hr : r ∈ compared m nspace name q) : r ∈ (ffsFindextattr m size nspace name fuel eap).reads := by
  induction h generalizing fuel pre with
  | nil =>
      rw [List.nil_eq_append_iff] at heq
      exact absurd heq.2 (List.cons_ne_nil _ _)
  | @cons p ps hlen hnext h ih =>
      cases fuel with
      | zero => exact absurd hfuel (by simp)
      | succ fuel =>
          rw [ffsFindextattr_cons (.cons hlen hnext h)]
          cases pre with
          | nil =>
              injection heq with hp hps
              subst hp
              split
              · exact List.mem_append_left _ (List.mem_cons_of_mem _ hr)
              · exact List.mem_append_left _ (List.mem_append_left _ (List.mem_cons_of_mem _ hr))
          | cons p' pre =>
              injection heq with hp hps
              subst hp
              rw [if_neg (hpre p List.mem_cons_self)]
              exact List.mem_append_right _
                (ih hps (fun x hx => hpre x (List.mem_cons_of_mem _ hx)) (Nat.le_of_succ_le_succ hfuel))

end Find

/-! ### Listing the names -/

section List

variable {fault : Nat → Bool} {fuel : Nat}

theorem ffsListextattr_end (m : Mem) (fault : Nat → Bool) (sink : Sink) (fuel : Nat) :
    ffsListextattr m size fault sink fuel size = ⟨[], some true⟩ := by
  cases fuel with
  | zero =>
      unfold ffsListextattr
      rw [if_neg (lt_irrefl _)]
  | succ fuel =>
      unfold ffsListextattr
      rw [if_neg (lt_irrefl _)]

theorem listRecord_ofRecord (f : Bool) (sink : Sink) :
    ∀ r ∈ (listRecord m f sink eap).1, OfRecord m (fun q => eaNamespace m q = 0) eap r := by
  have hlength : OfRecord m (fun q => eaNamespace m q = 0) eap (eap, 4) := ofRecord_field (o := 0) (by decide)
  have hns : OfRecord m (fun q => eaNamespace m q = 0) eap (eap + 4, 1) := ofRecord_field (by decide)
  have hnl : OfRecord m (fun q => eaNamespace m q = 0) eap (eap + 6, 1) := ofRecord_field (by decide)
  -- without a transfer only the length of the name is read
  have hplain : ∀ r ∈ [(eap, 4), (eap + 4, 1), (eap + 6, 1), (eap, 4)],
      OfRecord m (fun q => eaNamespace m q = 0) eap r := by
    intro r hr
    simp only [List.mem_cons, List.not_mem_nil, or_false] at hr
    rcases hr with rfl | rfl | rfl | rfl
    · exact hlength
    · exact hns
    · exact hnl
    · exact hlength
  unfold listRecord
  intro r hr
  by_cases hzero : eaNamespace m eap ≠ 0
  · rw [if_pos hzero] at hr
    simp only [List.mem_cons, List.not_mem_nil, or_false] at hr
    rcases hr with rfl | rfl | rfl
    · exact hlength
    · exact hns
    · exact hlength
  · rw [if_neg hzero] at hr
    cases sink with
    | size => exact hplain r hr
    | null => exact hplain r hr
    | uio resid =>
        simp only [List.mem_cons, List.not_mem_nil, or_false] at hr
        rcases hr with rfl | rfl | rfl | rfl | rfl
        · exact hlength
        · exact hns
        · exact hnl
        · refine .inr ⟨not_not.mp hzero, ?_⟩
          show eap + 6 + min (eaNamelength m eap + 1) resid ≤ eap + 7 + eaNamelength m eap
          omega
        · exact hlength

/-- One record of a chain: the listing goes on or stops. -/
theorem ffsListextattr_cons (h : Chain m size eap (eap :: eaps)) (sink : Sink) (fuel : Nat) :
    ffsListextattr m size fault sink (fuel + 1) eap = ⟨(listRecord m (fault eap) sink eap).1, some true⟩ ∨
      ∃ sink', ffsListextattr m size fault sink (fuel + 1) eap
        = (ffsListextattr m size fault sink' fuel (eaNext m eap)).after (listRecord m (fault eap) sink eap).1 := by
  have hhead := h.header List.mem_cons_self
  unfold sizeofExtattr eaNext at hhead
  have hlt : eap < size := by omega
  have hnext : ¬ size < eaNext m eap := by
    unfold eaNext
    omega
  rw [ffsListextattr, if_pos hlt, if_neg hnext]
  rcases listRecord m (fault eap) sink eap with ⟨rs, _ | sink'⟩
  · exact .inl rfl
  · exact .inr ⟨sink', rfl⟩

theorem ffsListextattr_spec (h : Chain m size eap eaps) (sink : Sink) (hfuel : eaps.length ≤ fuel) :
    (ffsListextattr m size fault sink fuel eap).result = some true ∧
      ∀ r ∈ (ffsListextattr m size fault sink fuel eap).reads,
        ∃ q ∈ eaps, OfRecord m (fun q => eaNamespace m q = 0) q r := by
  induction h generalizing sink fuel with
  | nil =>
      rw [ffsListextattr_end]
      exact ⟨rfl, fun r hr => absurd hr List.not_mem_nil⟩
  | @cons p ps hlen hnext h ih =>
      cases fuel with
      | zero => exact absurd hfuel (by simp)
      | succ fuel =>
          have hof := @listRecord_ofRecord m p (fault p) sink
          rcases @ffsListextattr_cons _ _ _ _ fault (.cons hlen hnext h) sink fuel with heq | ⟨sink', heq⟩
          · rw [heq]
            exact ⟨rfl, fun r hr => ⟨p, List.mem_cons_self, hof r hr⟩⟩
          · have hrest := ih sink' (Nat.le_of_succ_le_succ hfuel)
            rw [heq]
            refine ⟨hrest.1, fun r hr => ?_⟩
            rcases List.mem_append.mp hr with hr | hr
            · exact ⟨p, List.mem_cons_self, hof r hr⟩
            · obtain ⟨q, hq, hofq⟩ := hrest.2 r hr
              exact ⟨q, List.mem_cons_of_mem _ hq, hofq⟩

/-- With room for all names, each one of name space 0 is copied out. -/
theorem name_listed (h : Chain m size eap eaps) {q : Nat} (hq : q ∈ eaps) (hns : eaNamespace m q = 0) {resid : Nat}
    (hroom : 256 * eaps.length ≤ resid) (hfuel : eaps.length ≤ fuel) :
    (q + 6, eaNamelength m q + 1) ∈ (ffsListextattr m size (fun _ => false) (.uio resid) fuel eap).reads := by
  induction h generalizing resid fuel with
  | nil => cases hq
  | @cons p ps hlen hnext h ih =>
      have hname : eaNamelength m p < 256 := (m (p + 6)).toNat_lt
      rw [List.length_cons] at hroom hfuel
      obtain ⟨fuel, rfl⟩ : ∃ k, fuel = k + 1 := ⟨fuel - 1, by omega⟩
      have hhead := (Chain.cons hlen hnext h).header List.mem_cons_self
      unfold sizeofExtattr eaNext at hhead
      have hlt : p < size := by omega
      rw [ffsListextattr, if_pos hlt, if_neg (Nat.not_lt.mpr hnext), listRecord]
      rcases List.mem_cons.mp hq with rfl | hq
      · rw [if_neg (not_not.mpr hns), Nat.min_eq_left (by omega)]
        exact List.mem_append_left _ (by simp)
      · by_cases hp0 : eaNamespace m p ≠ 0
        · rw [if_pos hp0]
          exact List.mem_append_right _ (ih hq (by omega) (by omega))
        · rw [if_neg hp0]
          exact List.mem_append_right _ (ih hq (by omega) (by omega))

end List

/-! ### When the walks are safe -/

/-- A content whose header, name and padding are not longer than its record. -/
theorem eaContentSize_eq {q : Nat} (hlen : eaLength m q < 2 ^ 31)
    (h : eaBaseLength m q + eaContentpadlen m q ≤ eaLength m q) :
    eaContentSize m q = eaLength m q - eaBaseLength m q - eaContentpadlen m q :=
  toI32_eq_self (by omega) (by omega)

/-- The header, the name and the padding of a record are below 2¹⁰ bytes. -/
theorem eaBaseLength_le (m : Mem) (q : Nat) : eaBaseLength m q + eaContentpadlen m q < 2 ^ 10 := by
  have hname : eaNamelength m q < 256 := (m (q + 6)).toNat_lt
  have hpad : eaContentpadlen m q < 256 := (m (q + 5)).toNat_lt
  unfold eaBaseLength eaHeader
  omega

theorem eaContentSize_neg {q : Nat} (hlen : eaLength m q < 2 ^ 31)
    (h : ¬ eaBaseLength m q + eaContentpadlen m q ≤ eaLength m q) : eaContentSize m q < 0 := by
  have hbase := eaBaseLength_le m q
  unfold eaContentSize
  rw [toI32_eq_self (by omega) (by omega)]
  omega

section Safe

variable {nspace : Int} {name : List UInt8}

/-- The record of a match has the name that was looked up. -/
theorem own_of_matches {q : Nat} (h : Matches m nspace name q) :
    nspace = eaNamespace m q ∧ name = eaName m q (eaNamelength m q) := by
  obtain ⟨hns, hlen, hname⟩ := h
  rw [hlen, hname]
  exact ⟨hns.symm, rfl⟩

theorem matches_own (m : Mem) (q : Nat) : Matches m (eaNamespace m q) (eaName m q (eaNamelength m q)) q := by
  have hlen : (eaName m q (eaNamelength m q)).length = eaNamelength m q := by
    unfold eaName Mem.readBytes
    rw [List.length_map, List.length_range]
  refine ⟨rfl, hlen.symm, ?_⟩
  rw [hlen]

/-- What is read of the records is in the area if the names that are read are. -/
theorem inside_of_ofRecord {P : Nat → Prop} (h : Chain m size 0 eaps)
    (hP : ∀ q ∈ eaps, P q → q + eaHeader + eaNamelength m q ≤ size)
    {rs : List Span} (hrs : ∀ r ∈ rs, ∃ q ∈ eaps, OfRecord m P q r) : Inside size rs := by
  intro r hr
  obtain ⟨q, hq, hof | ⟨hp, hof⟩⟩ := hrs r hr
  · have hhead := h.header hq
    unfold eaNext at hhead
    omega
  · exact le_trans hof (hP q hq hp)

theorem records_chain (h : Chain m size 0 eaps) : records m size size 0 = eaps := by
  have hle := h.length_le
  exact h.records_eq (by omega)

/-- A look-up in a sound area. -/
theorem find_safe (h : Chain m size 0 eaps) (hsize : size < 2 ^ 31) (hsound : Sound m size) (hname : CString name) :
    Inside size (ffsFindextattr m size nspace name size 0).reads ∧
      Answers m size (ffsFindextattr m size nspace name size 0).result := by
  have hrec := records_chain h
  have hfuel : eaps.length ≤ size := by
    have hle := h.length_le
    omega
  unfold Sound at hsound
  rw [hrec] at hsound
  refine ⟨inside_of_ofRecord h (fun q hq hcomp => (hsound q hq).1.resolve_right fun hpassed => ?_)
    (ffsFindextattr_reads h), ?_⟩
  · -- a name that reaches the record has not been found before it
    obtain ⟨hns, hl, hnot⟩ := hcomp
    obtain ⟨p, hp, hlt, hmatch⟩ := hpassed.2 name hname hl
    rw [hrec] at hp
    exact hnot p hp hlt (hns ▸ hmatch)
  rcases @ffsFindextattr_result m size 0 eaps nspace name size h hfuel with ⟨-, hres⟩ | ⟨pre, q, post, heq, hpre, hq, hres⟩
  · exact ⟨.missing, hres, by simp, by simp⟩
  · refine ⟨_, hres, by simp, fun eap content ealen hfound => ?_⟩
    injection hfound with heap hcontent healen
    subst heap hcontent healen
    have hmem : q ∈ eaps := by
      rw [heq]
      exact List.mem_append_right _ List.mem_cons_self
    obtain ⟨hns, hown⟩ := own_of_matches hq
    have hfirst : FoundFirst m size q := by
      refine ⟨hown ▸ hname, ?_⟩
      rw [hrec, ← hns, ← hown]
      exact fun p hp hlt => hpre p ((h.lt_of_split heq p hp).mp hlt)
    have hfits := (hsound q hmem).2 hfirst
    have hhead := h.header hmem
    unfold eaNext at hhead
    rw [eaContentSize_eq (by omega) hfits]
    unfold eaContent eaNext
    omega

theorem sound_of_safe (h : Chain m size 0 eaps) (hsize : size < 2 ^ 31) (hsafe : Safe m size) : Sound m size := by
  have hfuel : eaps.length ≤ size := by
    have hle := h.length_le
    omega
  unfold Sound
  rw [records_chain h]
  intro q hq
  obtain ⟨pre, post, heq⟩ := List.mem_iff_append.mp hq
  have hhead := h.header hq
  unfold sizeofExtattr eaNext at hhead
  constructor
  · by_contra hout
    obtain ⟨hout, hpassed⟩ := not_or.mp hout
    unfold eaHeader at hout
    have hns : eaNamespace m q ≠ 0 := by
      intro hzero
      have hin := (hsafe.list (fun _ => false) (.uio (256 * eaps.length))).1 _ (name_listed h hq hzero le_rfl hfuel)
      dsimp only at hin
      omega
    obtain ⟨name, hc, hl, hnot⟩ : ∃ name, CString name ∧ name.length = eaNamelength m q ∧
        ∀ p ∈ eaps, p < q → ¬ Matches m (eaNamespace m q) name p := by
      by_contra hall
      refine hpassed ⟨hns, fun name hc hl => ?_⟩
      rw [records_chain h]
      by_contra hnone
      exact hall ⟨name, hc, hl, fun p hp hlt hmatch => hnone ⟨p, hp, hlt, hmatch⟩⟩
    have hpre : ∀ p ∈ pre, ¬ Matches m (eaNamespace m q) name p := by
      intro p hp
      have hmem : p ∈ eaps := by
        rw [heq]
        exact List.mem_append_left _ hp
      exact hnot p hmem ((h.lt_of_split heq p hmem).mpr hp)
    -- the look-up compares the name with bytes behind the area
    have hmem : (q + eaHeader, name.length) ∈ compared m (eaNamespace m q) name q := by
      unfold compared
      rw [if_pos rfl, if_pos hl.symm]
      exact List.mem_cons_of_mem _ (List.mem_cons_of_mem _ (List.mem_singleton_self _))
    have hin := (hsafe.find (eaNamespace m q) name hc).1 _ (compared_mem_reads h heq hpre hfuel hmem)
    unfold eaHeader at hin
    rw [hl] at hin
    exact hout hin
  · intro hfirst
    by_contra hshort
    -- the look-up of the record's own name returns a negative size
    obtain ⟨res, hres, -, hranges⟩ := (hsafe.find (eaNamespace m q) _ hfirst.1).2
    have hpre : ∀ p ∈ pre, ¬ Matches m (eaNamespace m q) (eaName m q (eaNamelength m q)) p := by
      intro p hp
      have hmem : p ∈ eaps := by
        rw [heq]
        exact List.mem_append_left _ hp
      refine hfirst.2 p ?_ ((h.lt_of_split heq p hmem).mpr hp)
      rw [records_chain h]
      exact hmem
    have hneg := eaContentSize_neg (m := m) (q := q) (by omega) hshort
    rcases @ffsFindextattr_result m size 0 eaps (eaNamespace m q) (eaName m q (eaNamelength m q)) size h hfuel
      with ⟨hnone, -⟩ | ⟨pre', q', post', heq', hpre', hq', hres'⟩
    · exact hnone q hq (matches_own m q)
    · have hsame : q' = q := by
        have hmem' : q' ∈ eaps := by
          rw [heq']
          exact List.mem_append_right _ List.mem_cons_self
        by_contra hne
        rcases Nat.lt_or_gt_of_ne hne with hlt | hgt
        · exact hpre q' ((h.lt_of_split heq q' hmem').mp hlt) hq'
        · exact hpre' q ((h.lt_of_split heq' q hq).mp hgt) (matches_own m q)
      subst hsame
      rw [hres'] at hres
      injection hres with hres
      exact absurd (hranges _ _ _ hres.symm).1 (by omega)

/-- `ffs_getextattr` reads the content too, which lies in the area. -/
theorem get_safe (h : Chain m size 0 eaps) (hsize : size < 2 ^ 31) (hsound : Sound m size) (hname : CString name)
    (sink : Sink) :
    Inside size (ffsGetextattr m size name sink size).reads ∧
      Answers m size (ffsGetextattr m size name sink size).result := by
  obtain ⟨hin, res, hres, hne, hranges⟩ := @find_safe m size eaps 0 name h hsize hsound hname
  have hans : Answers m size (ffsFindextattr m size 0 name size 0).result := ⟨res, hres, hne, hranges⟩
  unfold ffsGetextattr
  dsimp only
  split
  case h_1 eap content ealen resid hfound =>
    split
    case isTrue hpos =>
      refine ⟨fun r hr => ?_, hans⟩
      rcases List.mem_append.mp hr with hr | hr
      · exact hin r hr
      · obtain rfl := List.mem_singleton.mp hr
        have heq : res = .found eap content ealen := Option.some.inj (hres.symm.trans hfound)
        have hrange := hranges eap content ealen heq
        show content + min ealen.toNat resid ≤ size
        omega
    case isFalse => exact ⟨hin, hans⟩
  case h_2 => exact ⟨hin, hans⟩

theorem safe_of_sound (h : Chain m size 0 eaps) (hsize : size < 2 ^ 31) (hsound : Sound m size) : Safe m size where
  find _ _ hname := find_safe h hsize hsound hname
  get _ sink hname := get_safe h hsize hsound hname sink
  list fault sink := by
    have hle := h.length_le
    have hspec := @ffsListextattr_spec m size 0 eaps fault size h sink (by omega)
    unfold Sound at hsound
    rw [records_chain h] at hsound
    exact ⟨inside_of_ofRecord h (fun q hq hns => (hsound q hq).1.resolve_right fun hp => hp.1 hns) hspec.2, hspec.1⟩

end Safe

/-- The validation ends, and reads nothing outside of an area that it accepts. The walks over
such an area are safe if and only if the names and the padding of the records fit. -/
theorem validated_safe_iff (fs : Fs) (m : Mem) (size fuel : Nat) (hsize : size ≤ nxaddr * fs.bsize)
    (h : (validate m size fuel 0).result = some true) :
    (validate m size size 0).result ≠ none ∧ Inside size (validate m size fuel 0).reads ∧
      (Safe m size ↔ Sound m size) := by
  have hbsize : fs.bsize ≤ 2 ^ 20 := Nat.pow_le_pow_right (by decide) fs.bshift_le
  have hlt : size ≤ 2 * 2 ^ 20 := hsize.trans (Nat.mul_le_mul (le_refl nxaddr) hbsize)
  obtain ⟨eaps, hchain, hreads⟩ := chain_of_validate h (Nat.zero_le _)
  refine ⟨validate_ends m (by omega), fun r hr => ?_, sound_of_safe hchain (by omega),
    safe_of_sound hchain (by omega)⟩
  rw [hreads] at hr
  obtain ⟨q, hq, rfl⟩ := List.mem_map.mp hr
  have hhead := hchain.header hq
  unfold sizeofExtattr eaNext at hhead
  show q + 4 ≤ size
  omega

/-! ### Two small areas -/

/-- Two records, with the names "a" and "b" and eight bytes of content each. -/
def goodArea : Mem := fun i =>
  [16, 0, 0, 0, 0, 0, 1, 97, 0, 0, 0, 0, 0, 0, 0, 0, 16, 0, 0, 0, 0, 0, 1, 98].getD i 0

/-- The hypotheses are met, and the area is safe. -/
theorem validated_safe_good : Safe goodArea 32 := by
  refine (validated_safe_iff tinyFs goodArea 32 2 (by decide) (by decide)).2.2.mpr ?_
  intro p hp
  obtain rfl | rfl : p = 0 ∨ p = 16 := by simpa using (show p ∈ [0, 16] from hp)
  · exact ⟨.inl (by decide), fun _ => by decide⟩
  · exact ⟨.inl (by decide), fun _ => by decide⟩

/-- A record of eight bytes that claims a name of two. -/
def badArea : Mem := fun i => [8, 0, 0, 0, 0, 0, 2, 97].getD i 0

/-- The area is accepted, and a look-up of "ab" reads behind it. -/
theorem not_validated_safe :
    ¬ ∀ (fs : Fs) (m : Mem) (size fuel : Nat), size ≤ nxaddr * fs.bsize → (validate m size fuel 0).result = some true →
      Inside size (validate m size fuel 0).reads ∧ Safe m size := by
  intro hall
  have hsafe := (hall tinyFs badArea 8 1 (by decide) (by decide)).2
  have hin := (hsafe.find 0 [97, 98] (by unfold CString; decide)).1
  have hmem : (7, 2) ∈ (ffsFindextattr badArea 8 0 [97, 98] 8 0).reads := by decide
  exact absurd (hin _ hmem) (by decide)

end UfsX.Proofs.ExtattrWalk
