import UfsX.Ufs.Quota
import Mathlib.Tactic.Ring

/-!
# `UfsX.Proofs.Quota`: what `chkdq` does to the charges

`chkdq_granted` and `chkdq_refused`: either every record of the inode is charged, or none.
The refused case is the one with the roll back, an induction over the records that were
charged before the one that refused.
-/

set_option autoImplicit false

namespace UfsX.Proofs.Quota

open UfsX.Lib UfsX.Ufs

/-! ### Charges -/

/-- The charge of record `i`. -/
def charge (dqs : Dquots) (i : Nat) : Option Int := (dqs i).map fun dq => (dq.curblocks : Int)

/-- Every record of the inode has been charged `d` blocks more. -/
def Charged (d : Int) (dqs dqs' : Dquots) : Prop := ∀ i < MAXQUOTAS, charge dqs' i = (charge dqs i).map (· + d)

/-- All charges are below `b`. -/
def ChargesBelow (b : Int) (dqs : Dquots) : Prop := ∀ i < MAXQUOTAS, ∀ dq, dqs i = some dq → (dq.curblocks : Int) < b

/-- A quota is on. -/
def HasDquot (dqs : Dquots) : Prop := ∃ i < MAXQUOTAS, dqs i ≠ none

section Charged

variable {dqs dqs' dqs'' : Dquots} {d d' : Int}

theorem charged_refl (dqs : Dquots) : Charged 0 dqs dqs := by
  intro i _
  cases hi : charge dqs i with
  | none => rfl
  | some x => exact congrArg some (Int.add_zero x).symm

theorem Charged.trans (h : Charged d dqs dqs') (h' : Charged d' dqs' dqs'') : Charged (d + d') dqs dqs'' := by
  intro i hi
  rw [h' i hi, h i hi, Option.map_map]
  congr 1
  funext x
  exact Int.add_assoc x d d'

theorem Charged.below (h : Charged d dqs dqs') {b : Int} (hb : ChargesBelow b dqs) : ChargesBelow (b + d) dqs' := by
  intro i hi dq' hdq'
  have hcharge := h i hi
  rw [charge, charge, hdq'] at hcharge
  cases hdq : dqs i with
  | none =>
      rw [hdq] at hcharge
      cases hcharge
  | some dq =>
      rw [hdq] at hcharge
      have hlt := hb i hi dq hdq
      have heq : (dq'.curblocks : Int) = dq.curblocks + d := Option.some.inj hcharge
      omega

theorem ChargesBelow.mono {b b' : Int} (h : ChargesBelow b dqs) (hle : b ≤ b') : ChargesBelow b' dqs :=
  fun i hi dq hdq => Int.lt_of_lt_of_le (h i hi dq hdq) hle

theorem Charged.hasDquot (h : Charged d dqs dqs') : HasDquot dqs' ↔ HasDquot dqs := by
  have hsame : ∀ i < MAXQUOTAS, (dqs' i = none ↔ dqs i = none) := by
    intro i hi
    have hcharge := h i hi
    unfold charge at hcharge
    rw [← Option.map_eq_none_iff (f := fun dq : Dquot => (dq.curblocks : Int)), hcharge, Option.map_eq_none_iff,
      Option.map_eq_none_iff]
  constructor
  · rintro ⟨i, hi, hne⟩
    exact ⟨i, hi, fun h0 => hne ((hsame i hi).mpr h0)⟩
  · rintro ⟨i, hi, hne⟩
    exact ⟨i, hi, fun h0 => hne ((hsame i hi).mp h0)⟩

/-- A charge says how much has been charged, when there is a record. -/
theorem Charged.eq_iff (h : Charged d dqs dqs') (d' : Int) : Charged d' dqs dqs' ↔ d = d' ∨ ¬ HasDquot dqs := by
  constructor
  · intro h'
    by_cases hhas : HasDquot dqs
    · left
      obtain ⟨i, hi, hne⟩ := hhas
      obtain ⟨dq, hdq⟩ := Option.ne_none_iff_exists'.mp hne
      have heq := (h i hi).symm.trans (h' i hi)
      rw [charge, hdq] at heq
      have hsum : (dq.curblocks : Int) + d = dq.curblocks + d' := Option.some.inj heq
      omega
    · exact .inr hhas
  · rintro (rfl | hnone)
    · exact h
    · intro i hi
      have hdq : dqs i = none := by_contra fun hne => hnone ⟨i, hi, hne⟩
      rw [h i hi, charge, hdq]
      rfl

end Charged

/-! ### The loop of `chkdq` -/

section Loop

variable {q : QuotaCall} {n : Nat} {doCheck : Bool}

theorem settle_curblocks (dq : Dquot) {change : Int} (h0 : 0 ≤ dq.curblocks + change) (h1 : dq.curblocks + change < 2 ^ 63) :
    ((dq.settle change).curblocks : Int) = dq.curblocks + change := by
  unfold Dquot.settle
  simp only [toI64_eq_self (by omega : -2 ^ 63 ≤ (dq.curblocks : Int) + change) h1, if_pos h0]
  omega

theorem charge_curblocks {dq : Dquot} (type : Nat) (hfit : (dq.curblocks : Int) < 2 ^ 63) (hn : n < 2 ^ 32) :
    ((dq.charge q n type).curblocks : Int) = dq.curblocks + n := by
  have hcur : toU64 ((dq.curblocks : Int) + n) = dq.curblocks + n := toU64_eq_self (by omega) (by omega)
  unfold Dquot.charge
  simp only [hcur]
  omega

theorem chkdqchg_curblocks (q : QuotaCall) (change : Int) (type : Nat) (dq : Dquot) :
    (chkdqchg q change type dq).2.curblocks = dq.curblocks := by
  have hwarn : (dq.warn q).curblocks = dq.curblocks := by
    unfold Dquot.warn
    split <;> rfl
  unfold chkdqchg
  simp only
  split
  · exact hwarn
  · split
    · split
      · rfl
      · split
        · exact hwarn
        · rfl
    · rfl

theorem charge_update (dqs : Dquots) (i : Nat) (dq : Dquot) (j : Nat) :
    charge (Function.update dqs i (some dq)) j = if j = i then some (dq.curblocks : Int) else charge dqs j := by
  unfold charge
  by_cases hj : j = i
  · rw [if_pos hj, hj, Function.update_self]
    rfl
  · rw [if_neg hj, Function.update_of_ne hj]

/-- The roll back takes the charge off every record before record `k`. -/
theorem chkdqRollback_charge (k : Nat) : ∀ {dqs : Dquots},
    (∀ i < k, ∀ dq, dqs i = some dq → n ≤ dq.curblocks ∧ (dq.curblocks : Int) - n < 2 ^ 63) →
    ∀ i, charge (chkdqRollback n k dqs) i = if i < k then (charge dqs i).map (· - (n : Int)) else charge dqs i := by
  induction k with
  | zero =>
      intro dqs _ i
      rw [if_neg (Nat.not_lt_zero i)]
      rfl
  | succ k ih =>
      intro dqs hbound i
      rw [chkdqRollback, ih ?_ i]
      · have hother (hne : i ≠ k) :
            charge (Function.update dqs k ((dqs k).map fun dq => dq.settle (-(n : Int)))) i = charge dqs i := by
          rw [charge, charge, Function.update_of_ne hne]
        by_cases hlt : i < k
        · rw [if_pos hlt, if_pos (by omega), hother (by omega)]
        · rw [if_neg hlt]
          by_cases heq : i = k
          · rw [if_pos (by omega), heq, charge, charge, Function.update_self]
            cases hdq : dqs k with
            | none => rfl
            | some dq =>
                obtain ⟨hle, hlt63⟩ := hbound k (Nat.lt_succ_self k) dq hdq
                have hsettle := settle_curblocks dq (show 0 ≤ (dq.curblocks : Int) + -(n : Int) by omega) (by omega)
                exact congrArg some hsettle
          · rw [if_neg (by omega), hother heq]
      · intro j hj dq hdq
        rw [Function.update_of_ne (by omega)] at hdq
        exact hbound j (by omega) dq hdq

/-- A loop that goes through charges the records from `i` on. -/
theorem chkdqLoop_granted (hn : n < 2 ^ 32) (left : Nat) : ∀ {i : Nat} {dqs dqs' : Dquots},
    (∀ j, i ≤ j → j < i + left → ∀ dq, dqs j = some dq → (dq.curblocks : Int) < 2 ^ 63) →
    chkdqLoop q n doCheck left i dqs = (none, dqs') →
    ∀ j, charge dqs' j = if i ≤ j ∧ j < i + left then (charge dqs j).map (· + (n : Int)) else charge dqs j := by
  induction left with
  | zero =>
      intro i dqs dqs' _ h j
      obtain rfl := (Prod.mk.inj h).2
      rw [if_neg (by omega)]
  | succ left ih =>
      intro i dqs dqs' hfit h j
      rw [chkdqLoop] at h
      cases hdq : dqs i with
      | none =>
          simp only [hdq] at h
          rw [ih (fun j' h1 h2 => hfit j' (by omega) (by omega)) h j]
          by_cases hji : j = i
          · rw [if_neg (by omega), if_pos (by omega), hji, charge, hdq]
            rfl
          · by_cases hin : i + 1 ≤ j ∧ j < i + 1 + left
            · rw [if_pos hin, if_pos (by omega)]
            · rw [if_neg hin, if_neg (by omega)]
      | some dq =>
          simp only [hdq] at h
          -- the check changes no charge
          obtain ⟨dq₁, hdq₁, h⟩ : ∃ dq₁ : Dquot, dq₁.curblocks = dq.curblocks ∧
              chkdqLoop q n doCheck left (i + 1) (Function.update dqs i (some (dq₁.charge q n i))) = (none, dqs') := by
            split at h
            · cases (Prod.mk.inj h).1
            · next dq₁ hcheck =>
                refine ⟨dq₁, ?_, h⟩
                split at hcheck
                · exact (congrArg (fun r => r.2.curblocks) hcheck).symm.trans (chkdqchg_curblocks q n i dq)
                · exact congrArg (fun r => r.2.curblocks) hcheck.symm
          have hlt := hfit i (Nat.le_refl i) (by omega) dq hdq
          rw [ih (fun j' h1 h2 dq' hdq' => ?_) h j, charge_update]
          · by_cases hji : j = i
            · rw [if_pos hji, if_neg (by omega), if_pos (by omega), hji, charge, hdq,
                charge_curblocks i (by rw [hdq₁]; exact hlt) hn, hdq₁]
              rfl
            · rw [if_neg hji]
              by_cases hin : i + 1 ≤ j ∧ j < i + 1 + left
              · rw [if_pos hin, if_pos (by omega)]
              · rw [if_neg hin, if_neg (by omega)]
          · rw [Function.update_of_ne (by omega)] at hdq'
            exact hfit j' (by omega) (by omega) dq' hdq'

/-- A loop that is refused takes the charge off the records before `i`, where it was put by
the rounds before. -/
theorem chkdqLoop_refused (hn : n < 2 ^ 32) (left : Nat) : ∀ {i : Nat} {dqs dqs' : Dquots} {e : Errno},
    (∀ j < i, ∀ dq, dqs j = some dq → n ≤ dq.curblocks ∧ (dq.curblocks : Int) - n < 2 ^ 63) →
    (∀ j, i ≤ j → j < i + left → ∀ dq, dqs j = some dq → (dq.curblocks : Int) < 2 ^ 63) →
    chkdqLoop q n doCheck left i dqs = (some e, dqs') →
    ∀ j, charge dqs' j = if j < i then (charge dqs j).map (· - (n : Int)) else charge dqs j := by
  induction left with
  | zero =>
      intro i dqs dqs' e _ _ h
      cases (Prod.mk.inj h).1
  | succ left ih =>
      intro i dqs dqs' e hbound hfit h j
      rw [chkdqLoop] at h
      cases hdq : dqs i with
      | none =>
          simp only [hdq] at h
          rw [ih (fun j' hj' dq' hdq' => ?_) (fun j' h1 h2 => hfit j' (by omega) (by omega)) h j]
          · by_cases hji : j = i
            · rw [if_pos (by omega), if_neg (by omega), hji, charge, hdq]
              rfl
            · by_cases hlt : j < i
              · rw [if_pos (by omega), if_pos hlt]
              · rw [if_neg (by omega), if_neg hlt]
          · by_cases hji : j' = i
            · rw [hji, hdq] at hdq'
              cases hdq'
            · exact hbound j' (by omega) dq' hdq'
      | some dq =>
          simp only [hdq] at h
          have hlt := hfit i (Nat.le_refl i) (by omega) dq hdq
          have hcheck : (if doCheck = true then chkdqchg q n i dq else (none, dq)).2.curblocks = dq.curblocks := by
            split
            · exact chkdqchg_curblocks q n i dq
            · rfl
          split at h
          · next e' dq₁ hres =>
              -- refused here: the record itself keeps its charge
              obtain ⟨-, rfl⟩ := Prod.mk.inj h
              rw [hres] at hcheck
              rw [chkdqRollback_charge i (fun j' hj' dq' hdq' => ?_) j, charge_update]
              · by_cases hji : j = i
                · obtain rfl := hji
                  rw [if_neg (Nat.lt_irrefl j), if_neg (Nat.lt_irrefl j), if_pos rfl, charge, hdq,
                    show dq₁.curblocks = _ from hcheck]
                  rfl
                · rw [if_neg hji]
              · rw [Function.update_of_ne (by omega)] at hdq'
                exact hbound j' hj' dq' hdq'
          · next dq₁ hres =>
              rw [hres] at hcheck
              have hcharged : ((dq₁.charge q n i).curblocks : Int) = dq.curblocks + n := by
                rw [charge_curblocks i (by rw [show dq₁.curblocks = _ from hcheck]; exact hlt) hn,
                  show dq₁.curblocks = _ from hcheck]
              rw [ih (fun j' hj' dq' hdq' => ?_) (fun j' h1 h2 dq' hdq' => ?_) h j, charge_update]
              · by_cases hji : j = i
                · rw [if_pos hji, if_pos (by omega), if_neg (by omega), hji, charge, hdq, hcharged]
                  show some ((dq.curblocks : Int) + n - n) = some (dq.curblocks : Int)
                  rw [Int.add_sub_cancel]
                · rw [if_neg hji]
                  by_cases hlt' : j < i
                  · rw [if_pos (by omega), if_pos hlt']
                  · rw [if_neg (by omega), if_neg hlt']
              · by_cases hji : j' = i
                · rw [hji, Function.update_self] at hdq'
                  obtain rfl := Option.some.inj hdq'
                  omega
                · rw [Function.update_of_ne hji] at hdq'
                  exact hbound j' (by omega) dq' hdq'
              · rw [Function.update_of_ne (by omega)] at hdq'
                exact hfit j' (by omega) (by omega) dq' hdq'

theorem chkdqLoop_unchecked (left : Nat) : ∀ (i : Nat) (dqs : Dquots), (chkdqLoop q n false left i dqs).1 = none := by
  induction left with
  | zero => exact fun _ _ => rfl
  | succ left ih =>
      intro i dqs
      rw [chkdqLoop]
      split
      · exact ih _ _
      · simp only [Bool.false_eq_true, if_false]
        exact ih _ _

theorem chkdqLoop_none (left : Nat) : ∀ {i : Nat} {dqs : Dquots}, (∀ j, i ≤ j → j < i + left → dqs j = none) →
    chkdqLoop q n doCheck left i dqs = (none, dqs) := by
  induction left with
  | zero => exact fun _ => rfl
  | succ left ih =>
      intro i dqs hnone
      rw [chkdqLoop, hnone i (Nat.le_refl i) (by omega)]
      exact ih fun j h1 h2 => hnone j (by omega) (by omega)

end Loop

/-! ### `chkdq` -/

/-- Quotas count for the file: it is no system file, and its owner is not a negative
number. -/
def Applies (q : QuotaCall) : Prop := q.system = false ∧ ¬ (toI32 q.uid < 0 ∨ toI32 q.gid < 0)

instance (q : QuotaCall) : Decidable (Applies q) := inferInstanceAs (Decidable (_ ∧ _))

/-- What a charge of `n` blocks comes to. -/
def due (q : QuotaCall) (n : Int) : Int := if Applies q then n else 0

theorem due_add (q : QuotaCall) (m n : Int) : due q m + due q n = due q (m + n) := by
  unfold due
  split
  · rfl
  · exact Int.add_zero 0

section Chkdq

variable {q : QuotaCall} {n : Nat} {dqs dqs' : Dquots} {force : Bool}

theorem chkdq_off (h : ¬ Applies q) (change : Int) : chkdq q dqs change force = (none, dqs) := by
  unfold chkdq
  by_cases hsys : q.system = true
  · rw [if_pos hsys]
  · have hneg : toI32 q.uid < 0 ∨ toI32 q.gid < 0 := by_contra fun hno => h ⟨Bool.not_eq_true _ ▸ hsys, hno⟩
    rw [if_neg hsys, if_pos hneg]

theorem chkdq_on (h : Applies q) (hn : 0 < n) :
    chkdq q dqs n force = chkdqLoop q n (!force && q.limited) MAXQUOTAS 0 dqs := by
  unfold chkdq
  rw [if_neg (by simp [h.1]), if_neg h.2, if_neg (by omega), if_neg (by omega)]

/-- A charge that goes through is put on every record. -/
theorem chkdq_granted (hn : 0 < n) (hlt : n < 2 ^ 32) (hfit : ChargesBelow (2 ^ 63) dqs)
    (h : chkdq q dqs n force = (none, dqs')) : Charged (due q n) dqs dqs' := by
  by_cases happ : Applies q
  · rw [chkdq_on happ hn] at h
    intro i hi
    rw [due, if_pos happ, chkdqLoop_granted hlt MAXQUOTAS (fun j _ hj => hfit j (by omega)) h i, if_pos (by omega)]
  · rw [chkdq_off happ] at h
    obtain ⟨-, rfl⟩ := Prod.mk.inj h
    rw [due, if_neg happ]
    exact charged_refl dqs

/-- A refused charge leaves nothing. -/
theorem chkdq_refused (hn : 0 < n) (hlt : n < 2 ^ 32) (hfit : ChargesBelow (2 ^ 63) dqs) {e : Errno}
    (h : chkdq q dqs n force = (some e, dqs')) : Charged 0 dqs dqs' := by
  by_cases happ : Applies q
  · rw [chkdq_on happ hn] at h
    intro i hi
    rw [chkdqLoop_refused hlt MAXQUOTAS (fun j hj => absurd hj (Nat.not_lt_zero j)) (fun j _ hj => hfit j (by omega)) h i,
      if_neg (Nat.not_lt_zero i)]
    exact charged_refl dqs i hi
  · rw [chkdq_off happ] at h
    cases (Prod.mk.inj h).1

/-- With `FORCE` nothing is refused. -/
theorem chkdq_forced (hn : 0 < n) : (chkdq q dqs n true).1 = none := by
  by_cases happ : Applies q
  · rw [chkdq_on happ hn]
    exact chkdqLoop_unchecked MAXQUOTAS 0 dqs
  · rw [chkdq_off happ]

/-- Without a record nothing is refused. -/
theorem chkdq_none (hn : 0 < n) (h : ¬ HasDquot dqs) : (chkdq q dqs n force).1 = none := by
  by_cases happ : Applies q
  · rw [chkdq_on happ hn, chkdqLoop_none MAXQUOTAS fun j _ hj => by_contra fun hne => h ⟨j, by omega, hne⟩]
  · rw [chkdq_off happ]

end Chkdq

end UfsX.Proofs.Quota
