import UfsX.Ufs.Dirempty
import UfsX.Proofs.DirRecords

/-!
# `UfsX.Proofs.Dirempty`: is the answer of `ufs_dirempty` right?

`Tiled` is a well-formed directory that may hold whiteouts and free records anywhere, the
shortest of which is a header of 8 bytes. The loop passes a record if and only if it is
no live entry other than "." and ".." (`passes_iff`), so that the answer 1 is always right. The
answer 0 is wrong where a directory with no other entry has something in the upper half of
`count`, or ends with a record that is shorter than what the loop reads.
-/

set_option autoImplicit false

namespace UfsX.Proofs.Dirempty

open UfsX.Lib UfsX.Ufs UfsX.Ufs.Dirempty

/-! ### What is asked for -/

/-- A live entry, "." for the directory itself and ".." for its parent apart. -/
def Other (arg : Arg) (r : Rec) : Prop :=
  r.ino ≠ 0 ∧ r.ino ≠ UFS_WINO ∧ ¬ (r.name = [dot] ∧ r.ino = arg.number) ∧ ¬ (r.name = [dot, dot] ∧ r.ino = arg.parentino)

def OnlyDots (arg : Arg) (rs : List Rec) : Prop := ∀ r ∈ rs, ¬ Other arg r

/-- The names of the records from offset `o` on are followed by a null byte. -/
def Terminated (data : Mem) : Nat → List Rec → Prop
  | _, [] => True
  | o, r :: rs => (r.ino ≠ 0 → data (o + 8 + r.name.length) = 0) ∧ Terminated data (o + r.reclen) rs

/-- A directory that records `rs` tile. -/
structure Tiled (arg : Arg) (rs : List Rec) : Prop where
  size_eq : arg.size = recsLen rs
  size_le : arg.size ≤ MAXDIRSIZE
  blocks : DIRBLKSIZ ∣ arg.size
  fits : Fits 0 rs
  holds : Holds arg.ofs arg.data 0 rs
  dvd : ∀ r ∈ rs, 4 ∣ r.reclen
  foot_le : ∀ r ∈ rs, r.foot ≤ r.reclen
  terminated : Terminated arg.data 0 rs

/-- The function comes back with the right answer. -/
def Exact (arg : Arg) (s : Stack) (rs : List Rec) : Prop :=
  ∀ fuel, arg.size < fuel → ∃ b, ufsDirempty arg fuel s = some b ∧ (b = true ↔ OnlyDots arg rs)

/-- The last record is as long as what the loop reads of one. -/
def LongLast (rs : List Rec) : Prop := ∀ r ∈ rs.getLast?, MINDIRSIZ ≤ r.reclen

/-! ### One record -/

section Record

variable {arg : Arg} {s : Stack} {o : Nat} {r : Rec} {rs : List Rec}

theorem readBytes_eq_dot {m : Mem} {p n : Nat} : m.readBytes p n = [dot] ↔ n = 1 ∧ m p = dot := by
  rcases n with _ | _ | n
  · simp [Mem.readBytes]
  · simp [Mem.readBytes]
  · constructor
    · intro h
      have hlen := congrArg List.length h
      simp [Mem.readBytes] at hlen
    · rintro ⟨h, -⟩
      omega

theorem readBytes_eq_dotdot {m : Mem} {p n : Nat} :
    m.readBytes p n = [dot, dot] ↔ n = 2 ∧ m p = dot ∧ m (p + 1) = dot := by
  rcases n with _ | _ | _ | n
  · simp [Mem.readBytes]
  · simp [Mem.readBytes]
  · simp [Mem.readBytes, List.range_succ]
  · constructor
    · intro h
      have hlen := congrArg List.length h
      simp [Mem.readBytes] at hlen
    · rintro ⟨h, -⟩
      omega

/-- What the loop looks at tells the two names apart from all others. -/
theorem passes_iff {dp : Mem} (hsame : SameBytes dp 0 arg.data o MINDIRSIZ) (hr : recOf arg.ofs arg.data o = r)
    (hterm : r.ino ≠ 0 → arg.data (o + 8 + r.name.length) = 0) : passes arg dp = true ↔ ¬ Other arg r := by
  have hino : dIno dp 0 = r.ino := by
    rw [← hr, recOf_ino]
    exact hsame.read32 (i := 0) (by decide)
  have hnamlen : dNamlen arg.ofs dp 0 = dNamlen arg.ofs arg.data o := by
    unfold dNamlen
    cases arg.ofs with
    | true => exact congrArg UInt8.toNat (hsame 6 (by decide))
    | false => exact congrArg UInt8.toNat (hsame 7 (by decide))
  have h8 : dp 8 = arg.data (o + 8) := by simpa using hsame 8 (by decide)
  have h9 : dp 9 = arg.data (o + 9) := by simpa using hsame 9 (by decide)
  unfold passes Other
  rw [hino, hnamlen, h8, h9]
  by_cases hfree : r.ino = 0 ∨ r.ino = UFS_WINO
  · rw [if_pos hfree]
    simp only [true_iff]
    rintro ⟨hz, hw, -⟩
    exact hfree.elim hz hw
  · rw [if_neg hfree]
    rw [not_or] at hfree
    have hname : r.name = arg.data.readBytes (o + 8) (dNamlen arg.ofs arg.data o) := by
      rw [← hr, recOf_name (by rw [← hino] at hfree; rw [← hr, recOf_ino] at hino; rw [← hino]; exact hfree.1)]
      rfl
    have hnull := hterm hfree.1
    rw [hname, Mem.readBytes, List.length_map, List.length_range] at hnull
    rw [hname, readBytes_eq_dot, readBytes_eq_dotdot]
    generalize dNamlen arg.ofs arg.data o = n at hnull ⊢
    have hdot : (0 : UInt8) ≠ dot := by decide
    -- no name, a name of one byte, of two, and a longer one
    rcases n with _ | _ | _ | n
    · have h0 : arg.data (o + 8) = 0 := hnull
      simp [hfree.1, hfree.2, h0, hdot]
    · have h1 : arg.data (o + 9) = 0 := hnull
      by_cases hfirst : arg.data (o + 8) = dot
      · simp [hfree.1, hfree.2, hfirst, h1, hdot]
      · simp [hfree.1, hfree.2, hfirst]
    · by_cases hfirst : arg.data (o + 8) = dot
      · simp [hfree.1, hfree.2, hfirst]
      · simp [hfree.1, hfree.2, hfirst]
    · simp [hfree.1, hfree.2]

end Record

/-! ### The loop -/

section Loop

variable {arg : Arg} {s : Stack} {o : Nat} {r : Rec} {rs : List Rec}

theorem upper_storeInt (count resid : Nat) : storeInt count resid / 2 ^ 32 = count / 2 ^ 32 := by
  unfold storeInt
  omega

theorem storeInt_eq_zero {count resid : Nat} (h : resid < 2 ^ 32) :
    storeInt count resid = 0 ↔ count / 2 ^ 32 = 0 ∧ resid = 0 := by
  unfold storeInt
  omega

theorem onlyDots_cons : OnlyDots arg (r :: rs) ↔ ¬ Other arg r ∧ OnlyDots arg rs := List.forall_mem_cons

/-- From a record of the directory on: the loop gets through all the records or stops with the
answer 0. -/
theorem diremptyLoop_spec (hread : ∀ off, arg.readError off = 0) {fuel : Nat} (hfuel : recsLen rs < fuel)
    (hend : o + recsLen rs = arg.size) (hle : arg.size ≤ MAXDIRSIZE) (hholds : Holds arg.ofs arg.data o rs)
    (hfoot : ∀ r ∈ rs, r.foot ≤ r.reclen) (hterm : Terminated arg.data o rs) :
    ∃ b, diremptyLoop arg fuel o s = some b ∧
      (b = true ↔ rs = [] ∨ s.count / 2 ^ 32 = 0 ∧ LongLast rs ∧ OnlyDots arg rs) := by
  unfold MAXDIRSIZE at hle
  induction rs generalizing o fuel s with
  | nil =>
      cases fuel with
      | zero => exact absurd hfuel (Nat.not_lt_zero _)
      | succ fuel =>
          rw [recsLen_nil] at hend
          refine ⟨true, ?_, by simp⟩
          unfold diremptyLoop
          rw [toU64_eq_self (by omega) (by omega), if_pos (by omega)]
  | cons r rs ih =>
      cases fuel with
      | zero => exact absurd hfuel (Nat.not_lt_zero _)
      | succ fuel =>
          have height := r.eight_le_foot
          have hreclen := hfoot r List.mem_cons_self
          rw [recsLen_cons] at hend hfuel
          have hrec := hholds.1
          have hlast : MINDIRSIZ ≤ arg.size - o ↔ (rs = [] → MINDIRSIZ ≤ r.reclen) := by
            unfold MINDIRSIZ
            cases rs with
            | nil =>
                rw [recsLen_nil] at hend
                simp only [true_imp_iff]
                omega
            | cons r' rs =>
                have h8 := r'.eight_le_foot
                have hr' := hfoot r' (List.mem_cons_of_mem _ List.mem_cons_self)
                rw [recsLen_cons] at hend
                simp only [reduceCtorEq, false_imp_iff, iff_true]
                omega
          unfold diremptyLoop vnRdwr
          rw [toU64_eq_self (by omega) (by omega), if_neg (by omega)]
          dsimp only
          rw [hread, Int.toNat_natCast]
          have hcount := @storeInt_eq_zero s.count (MINDIRSIZ - (arg.size - o)) (by unfold MINDIRSIZ; omega)
          by_cases hgood : s.count / 2 ^ 32 = 0 ∧ MINDIRSIZ ≤ arg.size - o
          · rw [if_neg (by rw [ne_eq, ne_eq, hcount]; omega)]
            generalize hdp : (fun x => if x < min MINDIRSIZ (arg.size - o) then arg.data (o + x) else s.dbuf x) = dp
            have hsame : SameBytes dp 0 arg.data o MINDIRSIZ := by
              intro i hi
              rw [← hdp]
              simp only [Nat.zero_add]
              exact if_pos (by omega)
            have hlen : dReclen dp 0 = r.reclen := by
              rw [← hrec, recOf_reclen]
              exact hsame.read16 (i := 4) (by decide)
            rw [hlen, if_neg (by omega), toI32_eq_self (by omega) (by omega)]
            have hpass := passes_iff hsame hrec hterm.1
            by_cases hp : passes arg dp = true
            · rw [if_pos hp]
              obtain ⟨b, heq, hb⟩ := @ih ⟨dp, storeInt s.count (MINDIRSIZ - (arg.size - o))⟩ (o + r.reclen) fuel
                (by omega) (by omega) hholds.2
                (fun r' hr' => hfoot r' (List.mem_cons_of_mem _ hr')) hterm.2
              refine ⟨b, by simpa using heq, ?_⟩
              rw [hb, onlyDots_cons]
              simp only [upper_storeInt, hgood.1, hpass.mp hp, reduceCtorEq, false_or, true_and, not_false_eq_true]
              cases rs with
              | nil =>
                  have hlong := hlast.mp hgood.2 rfl
                  simp [LongLast, OnlyDots, hlong]
              | cons r' rs => simp [LongLast]
            · rw [if_neg hp]
              refine ⟨false, rfl, ?_⟩
              rw [onlyDots_cons]
              simp [show Other arg r from not_not.mp fun h => hp (hpass.mpr h)]
          · rw [if_pos (.inr fun h => hgood (by rw [hcount] at h; omega))]
            refine ⟨false, rfl, ?_⟩
            simp only [Bool.false_eq_true, reduceCtorEq, false_or, false_iff]
            rintro ⟨hupper, hlong, -⟩
            refine hgood ⟨hupper, hlast.mpr fun hnil => hlong r ?_⟩
            rw [hnil]
            rfl

/-- An offset that has wrapped around is past the end of every directory. -/
theorem diremptyLoop_wrapped {off : Int} (hlo : -2 ^ 31 ≤ off) (hneg : off < 0) {fuel : Nat} (hfuel : 0 < fuel) :
    diremptyLoop arg fuel off s = some true := by
  have hsize := arg.size_lt
  cases fuel with
  | zero => exact absurd hfuel (Nat.not_lt_zero _)
  | succ fuel =>
      unfold diremptyLoop toU64
      rw [if_pos (by omega)]

/-- Whatever the directory holds, there is an answer. -/
theorem diremptyLoop_total (arg : Arg) {o : Nat} (s : Stack) (ho : o < 2 ^ 31) :
    ∃ b, ∀ fuel, arg.size - o < fuel → diremptyLoop arg fuel o s = some b := by
  have hsize := arg.size_lt
  -- on how much of the directory is left, which a record of at least one byte makes less
  induction hleft : arg.size - o using Nat.strong_induction_on generalizing o s with
  | _ left ih =>
      rcases hr : vnRdwr arg.data arg.size o MINDIRSIZ s.dbuf with ⟨dbuf, resid⟩
      have hstep : ∀ fuel, diremptyLoop arg (fuel + 1) o s =
          if ¬ o < arg.size then some true
          else if arg.readError o ≠ 0 ∨ storeInt s.count resid ≠ 0 then some false
          else if dReclen dbuf 0 = 0 then some false
          else if passes arg dbuf then
            diremptyLoop arg fuel (toI32 (o + dReclen dbuf 0)) ⟨dbuf, storeInt s.count resid⟩
          else some false := by
        intro fuel
        rw [diremptyLoop, toU64_eq_self (by omega) (by omega), Int.toNat_natCast, hr]
        simp only [Nat.cast_lt]
      by_cases hend : ¬ o < arg.size
      · refine ⟨true, fun fuel hfuel => ?_⟩
        cases fuel with
        | zero => exact absurd hfuel (Nat.not_lt_zero _)
        | succ fuel => rw [hstep, if_pos hend]
      · by_cases hgo : ¬ (arg.readError o ≠ 0 ∨ storeInt s.count resid ≠ 0) ∧ dReclen dbuf 0 ≠ 0 ∧ passes arg dbuf = true
        · have hnext : ∀ fuel, diremptyLoop arg (fuel + 1) o s =
              diremptyLoop arg fuel (toI32 (o + dReclen dbuf 0)) ⟨dbuf, storeInt s.count resid⟩ := by
            intro fuel
            rw [hstep, if_neg hend, if_neg hgo.1, if_neg hgo.2.1, if_pos hgo.2.2]
          have hlt : dReclen dbuf 0 < 65536 := by
            have hlo := (dbuf (0 + 4)).toNat_lt
            have hhi := (dbuf (0 + 4 + 1)).toNat_lt
            unfold dReclen Mem.read16
            omega
          by_cases hwrap : o + dReclen dbuf 0 < 2 ^ 31
          · obtain ⟨b, hb⟩ := ih (arg.size - (o + dReclen dbuf 0)) (by omega) ⟨dbuf, storeInt s.count resid⟩ hwrap rfl
            refine ⟨b, fun fuel hfuel => ?_⟩
            cases fuel with
            | zero => exact absurd hfuel (Nat.not_lt_zero _)
            | succ fuel =>
                rw [hnext, toI32_eq_self (by omega) (by omega)]
                exact hb fuel (by omega)
          · refine ⟨true, fun fuel hfuel => ?_⟩
            cases fuel with
            | zero => exact absurd hfuel (Nat.not_lt_zero _)
            | succ fuel =>
                rw [hnext]
                refine diremptyLoop_wrapped (toI32_bounds _).1 ?_ (by omega)
                unfold toI32
                rw [Int.bmod_def]
                omega
        · refine ⟨false, fun fuel hfuel => ?_⟩
          cases fuel with
          | zero => exact absurd hfuel (Nat.not_lt_zero _)
          | succ fuel =>
              rw [hstep, if_neg hend]
              split
              case isTrue => rfl
              case isFalse hread =>
                split
                case isTrue => rfl
                case isFalse hlen => exact if_neg fun hp => hgo ⟨hread, hlen, hp⟩

end Loop

/-! ### The answer -/

/-- A directory with nothing but its two first entries. -/
def emptyDir : Arg where
  ofs := false
  data := fun x =>
    if x < 12 then Direct.bytes false ⟨5, 4, [dot]⟩ 12 x
    else if x < 24 then Direct.bytes false ⟨2, 4, [dot, dot]⟩ 500 (x - 12)
    else 0
  size := 512
  readError := fun _ => 0
  number := 5
  parentino := 2
  size_lt := by decide

def twoDots : List Rec := [⟨5, 12, 4, [dot]⟩, ⟨2, 500, 4, [dot, dot]⟩]

theorem tiled_emptyDir : Tiled emptyDir twoDots where
  size_eq := rfl
  size_le := by decide
  blocks := by decide
  fits := ⟨by decide, by decide, trivial⟩
  holds := ⟨by decide, by decide, trivial⟩
  dvd := by decide
  foot_le := by decide
  terminated := ⟨fun _ => by decide, fun _ => by decide, trivial⟩

theorem onlyDots_emptyDir : OnlyDots emptyDir twoDots := by
  intro r hr
  simp only [twoDots, List.mem_cons, List.not_mem_nil, or_false] at hr
  rcases hr with rfl | rfl
  · exact fun h => h.2.2.1 ⟨rfl, rfl⟩
  · exact fun h => h.2.2.2 ⟨rfl, rfl⟩

/-- On a well-formed directory the answer is right if and only if there is nothing to read, or
there is another entry, or the upper half of `count` is 0 and the last record is not too
short. On every directory there is an answer. -/
theorem dirempty_exact_iff (arg : Arg) (s : Stack) :
    (∃ b, ∀ fuel, arg.size < fuel → ufsDirempty arg fuel s = some b) ∧
      ∀ rs, Tiled arg rs → (∀ off, arg.readError off = 0) →
        (Exact arg s rs ↔ arg.size = 0 ∨ ¬ OnlyDots arg rs ∨ s.count / 2 ^ 32 = 0 ∧ LongLast rs) := by
  constructor
  · obtain ⟨b, hb⟩ := diremptyLoop_total arg (o := 0) s (by decide)
    exact ⟨b, fun fuel hfuel => hb fuel (by omega)⟩
  · intro rs h hread
    have hnil : rs = [] ↔ arg.size = 0 := by
      rw [h.size_eq]
      cases rs with
      | nil => simp
      | cons r rs =>
          have h8 := r.eight_le_foot
          have hr := h.foot_le r List.mem_cons_self
          simp only [reduceCtorEq, recsLen_cons, false_iff]
          omega
    have hlen := h.size_eq
    have hempty : rs = [] → OnlyDots arg rs := by
      rintro rfl r hr
      cases hr
    have hspec := fun fuel (hfuel : arg.size < fuel) =>
      @diremptyLoop_spec arg s 0 rs hread fuel (by omega) (by rw [h.size_eq, Nat.zero_add]) h.size_le h.holds h.foot_le
        h.terminated
    rw [← hnil]
    constructor
    · intro hexact
      obtain ⟨b, heq, hb⟩ := hexact (arg.size + 1) (Nat.lt_succ_self _)
      obtain ⟨b', heq', hb'⟩ := hspec (arg.size + 1) (Nat.lt_succ_self _)
      obtain rfl : b = b' := Option.some.inj (heq.symm.trans heq')
      tauto
    · intro hcond fuel hfuel
      obtain ⟨b, heq, hb⟩ := hspec fuel hfuel
      refine ⟨b, heq, ?_⟩
      tauto

/-- Something in the lower half of `count` does no harm. -/
theorem dirempty_exact_emptyDir : Exact emptyDir ⟨fun _ => 0, 2 ^ 32 - 1⟩ twoDots := by
  refine ((dirempty_exact_iff emptyDir ⟨fun _ => 0, 2 ^ 32 - 1⟩).2 twoDots tiled_emptyDir fun _ => rfl).mpr ?_
  refine .inr (.inr ⟨by decide, fun r hr => ?_⟩)
  cases hr
  decide

/-- Something in the upper half makes an empty directory one that cannot be removed. -/
theorem dirempty_stale_count :
    ufsDirempty emptyDir 513 ⟨fun _ => 0, 2 ^ 32⟩ = some false ∧ OnlyDots emptyDir twoDots ∧
      ¬ Exact emptyDir ⟨fun _ => 0, 2 ^ 32⟩ twoDots := by
  have hzero : ufsDirempty emptyDir 513 ⟨fun _ => 0, 2 ^ 32⟩ = some false := by decide
  refine ⟨hzero, onlyDots_emptyDir, fun hexact => ?_⟩
  obtain ⟨b, heq, hb⟩ := hexact 513 (by decide)
  have hfalse : b = false := Option.some.inj (heq.symm.trans hzero)
  exact absurd (hb.mpr onlyDots_emptyDir) (by simp [hfalse])

end UfsX.Proofs.Dirempty
