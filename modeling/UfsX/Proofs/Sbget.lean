import UfsX.Ffs.Sbget
import UfsX.Proofs.Superblock

/-!
# `UfsX.Proofs.Sbget`: which superblocks are safe to load

`readsuper` bounds `fs_ncg` from below and `fs_bsize` on both sides. The other numbers that
the summary information is laid out by come from the disk as they are.

* `loop_all_ok`: what a run of the summary loop without errors says about them.
* `loop_runs`: how a run ends, whichever read fails.
* `load_settled`: a load that fails frees what it has allocated, and the superblock.
* `returns_iff`: when a load returns and stays in its block, whatever fails.
* `loadSafe_iff`: when it also reads no empty piece, and its arrays do not overlap.
* `accepted_loadSafe_iff`: the same of what `readsuper` accepts.
-/

set_option autoImplicit false

namespace UfsX.Proofs.Sbget

open UfsX.Lib UfsX.Ffs UfsX.Ffs.Sbget
open UfsX.Proofs.Superblock (agreeOff_mask maskedMetackhash metackhash_mask received sampleSb)

/-! ### The summary loop -/

section Loop

variable {fs : Sb} {blks : Int} {read : Nat → PieceRead}

theorem i32_lt {x y : Int} (h : i32 x = some y) : y = x ∧ -2 ^ 31 ≤ x ∧ x < 2 ^ 31 := by
  simp only [i32] at h
  split at h
  · next hx => exact ⟨(Option.some.inj h).symm, hx⟩
  · cases h

/-- A piece of a whole block. -/
theorem pieceSize_full {i : Int} (hi : 0 ≤ i) (hfrag : 0 < frag fs) (hle : i + frag fs ≤ blks)
    (hblks : blks < 2 ^ 31) : pieceSize fs blks i = some (bsize fs) := by
  rw [pieceSize, i32_eq_some (by omega) (by omega)]
  show (if blks < i + frag fs then _ else _) = _
  rw [if_neg (by omega)]

/-- The last piece, of less than a block. -/
theorem pieceSize_last {i : Int} (hi : 0 ≤ i) (hfrag : 0 < frag fs) (hlt : blks < i + frag fs)
    (hend : i + frag fs < 2 ^ 31) : pieceSize fs blks i = i32 ((blks - i) * fsize fs) := by
  rw [pieceSize, i32_eq_some (by omega) hend]
  show (if blks < i + frag fs then _ else _) = _
  rw [if_pos hlt]

theorem pieceSize_some {i size : Int} (h : pieceSize fs blks i = some size) :
    i + frag fs < 2 ^ 31 := by
  rw [pieceSize] at h
  cases hnext : i32 (i + frag fs) with
  | none =>
      rw [hnext] at h
      cases h
  | some next => exact (i32_lt hnext).2.2

/-- A piece that is read, and the state after it. -/
def LoopState.after (s : LoopState) (size next : Int) : LoopState where
  i := next
  space := s.space + size
  k := s.k + 1
  reads := s.reads ++ [size]
  stores := s.stores ++ [(s.space, size)]
  heap := (s.heap.alloc (.buf s.k)).free (.buf s.k)

/-- A round whose read succeeds. -/
theorem loop_ok {fuel : Nat} {s : LoopState} {size : Int} (hi : s.i < blks)
    (hsize : pieceSize fs blks s.i = some size) (hread : read s.k = .ok) :
    summaryLoop fs blks read (fuel + 1) s =
      (i32 (s.i + frag fs)).bind fun next => summaryLoop fs blks read fuel (LoopState.after s size next) := by
  rw [summaryLoop, if_pos hi, hsize, Option.bind_eq_bind, Option.bind_some]
  dsimp only
  rw [hread]
  rfl

/-- The end of the loop. -/
theorem loop_done {s : LoopState} (h : ¬ s.i < blks) (fuel : Nat) :
    summaryLoop fs blks read (fuel + 1) s = some (0, s) := by
  rw [summaryLoop, if_neg h]

/-- The loop with the pieces of a run that has nothing to fail. -/
abbrev allOk : Nat → PieceRead := fun _ => .ok

/-- The last round of such a run. -/
theorem loop_last_ok {s s' : LoopState} {r : Int} {fuel error : Nat} (hi : 0 ≤ s.i) (hpos : 0 < r)
    (hlt : r < frag fs) (hleft : blks - s.i = r)
    (h : summaryLoop fs blks allOk fuel s = some (error, s')) :
    error = 0 ∧ s' = LoopState.after s (r * fsize fs) (s.i + frag fs) ∧ s.i + frag fs < 2 ^ 31 := by
  have hbelow : s.i < blks := by omega
  cases fuel with
  | zero => cases h
  | succ fuel =>
      cases hsize : pieceSize fs blks s.i with
      | none =>
          rw [summaryLoop, if_pos hbelow, hsize] at h
          cases h
      | some size =>
          have hend := pieceSize_some hsize
          rw [loop_ok hbelow hsize rfl, i32_eq_some (by omega) hend] at h
          -- the size came out, so that it was an `int`
          rw [pieceSize_last hi (by omega) (by omega) hend, hleft] at hsize
          rw [(i32_lt hsize).1] at h
          cases fuel with
          | zero => cases h
          | succ fuel =>
              have hdone : ¬ (LoopState.after s (r * fsize fs) (s.i + frag fs)).i < blks := by
                show ¬ s.i + frag fs < blks
                omega
              change summaryLoop fs blks allOk (fuel + 1) _ = _ at h
              rw [loop_done hdone] at h
              obtain ⟨herror, hs⟩ := Prod.mk.inj (Option.some.inj h)
              exact ⟨herror.symm, hs.symm, hend⟩

/-- A run in which no read fails shows that every size and counter was an `int`. `q` blocks
and `r` fragments are left. -/
theorem loop_all_ok (hfrag : 0 < frag fs) (hblks : blks < 2 ^ 31) (q : Nat) :
    ∀ {s s' : LoopState} {r : Int} {fuel error : Nat}, 0 ≤ s.i → 0 ≤ r → r < frag fs →
      blks - s.i = q * frag fs + r → summaryLoop fs blks allOk fuel s = some (error, s') →
      error = 0 ∧ s'.space = s.space + q * bsize fs + r * fsize fs ∧
        (0 < r → s.i + q * frag fs + frag fs < 2 ^ 31 ∧
          (s.space + q * bsize fs, r * fsize fs) ∈ s'.stores) := by
  induction q with
  | zero =>
      intro s s' r fuel error hi hr hlt hleft h
      rw [Nat.cast_zero, Int.zero_mul, Int.zero_add] at hleft
      rcases Int.lt_or_eq_of_le hr with hpos | hzero
      · obtain ⟨herror, hs, hend⟩ := loop_last_ok hi hpos hlt hleft h
        rw [hs]
        simp only [LoopState.after, Nat.cast_zero, Int.zero_mul, Int.add_zero]
        refine ⟨herror, trivial, ?_⟩
        intro _
        exact ⟨hend, by simp⟩
      · -- nothing is left
        cases fuel with
        | zero => cases h
        | succ fuel =>
            have hdone : ¬ s.i < blks := by omega
            rw [loop_done hdone] at h
            obtain ⟨herror, hs⟩ := Prod.mk.inj (Option.some.inj h)
            rw [← hs, ← herror, ← hzero]
            refine ⟨rfl, by simp, ?_⟩
            intro hpos
            exact absurd hpos (Int.lt_irrefl 0)
  | succ q ih =>
      intro s s' r fuel error hi hr hlt hleft h
      rw [Nat.cast_succ, Int.add_mul, Int.one_mul] at hleft
      have hq : 0 ≤ (q : Int) * frag fs := Int.mul_nonneg (Int.natCast_nonneg q) (Int.le_of_lt hfrag)
      cases fuel with
      | zero => cases h
      | succ fuel =>
          have hbelow : s.i < blks := by omega
          have hsize := pieceSize_full hi hfrag (by omega) hblks
          rw [loop_ok hbelow hsize rfl, i32_eq_some (by omega) (by omega)] at h
          -- the block in front is taken off, and the rest is the hypothesis
          have hrest := @ih (LoopState.after s (bsize fs) (s.i + frag fs)) s' r fuel error
            (by show 0 ≤ s.i + frag fs; omega) hr hlt
            (by show blks - (s.i + frag fs) = _; omega) h
          simp only [LoopState.after] at hrest
          obtain ⟨herror, hspace, hlast⟩ := hrest
          refine ⟨herror, ?_, ?_⟩
          · rw [hspace, Nat.cast_succ, Int.add_mul, Int.one_mul]
            omega
          · intro hpos
            obtain ⟨hend, hstore⟩ := hlast hpos
            rw [Nat.cast_succ, Int.add_mul, Int.one_mul, Int.add_mul, Int.one_mul]
            refine ⟨by omega, ?_⟩
            have hoff : s.space + (q * bsize fs + bsize fs) = s.space + bsize fs + q * bsize fs := by
              omega
            rw [hoff]
            exact hstore

/-- Without a positive `fs_frag` the counter never reaches the end. -/
theorem loop_never (hfrag : frag fs ≤ 0) : ∀ (fuel : Nat) {s : LoopState}, s.i < blks →
    summaryLoop fs blks allOk fuel s = none := by
  intro fuel
  induction fuel with
  | zero =>
      intro s _
      rfl
  | succ fuel ih =>
      intro s hbelow
      cases hsize : pieceSize fs blks s.i with
      | none =>
          rw [summaryLoop, if_pos hbelow, hsize]
          rfl
      | some size =>
          rw [loop_ok hbelow hsize rfl]
          cases hnext : i32 (s.i + frag fs) with
          | none => rfl
          | some next =>
              -- the counter goes down or stays
              have heq := (i32_lt hnext).1
              refine ih ?_
              show next < blks
              omega

/-- The state after a read that fails. -/
def LoopState.stopped (s : LoopState) (size : Int) (buf : Bool) : LoopState :=
  { s with
    reads := s.reads ++ [size]
    heap := if buf then (s.heap.alloc (.buf s.k)).free (.buf s.k) else s.heap }

theorem loop_failed {fuel : Nat} {s : LoopState} {size : Int} {error : Failure} {buf : Bool}
    (hi : s.i < blks) (hsize : pieceSize fs blks s.i = some size)
    (hread : read s.k = .failed error buf) :
    summaryLoop fs blks read (fuel + 1) s = some (error.val, LoopState.stopped s size buf) := by
  rw [summaryLoop, if_pos hi, hsize, Option.bind_eq_bind, Option.bind_some]
  dsimp only
  rw [hread]
  rfl

/-- How a run ends with `q` blocks and `r` fragments ahead: what it has read are pieces of
these sizes, and what it has stored lies between where it began and the end of the pieces. -/
structure Ended (fs : Sb) (q : Nat) (r : Int) (s s' : LoopState) (error : Nat) : Prop where
  reads : ∀ size ∈ s'.reads, size ∈ s.reads ∨ size = bsize fs ∨ (0 < r ∧ size = r * fsize fs)
  stores : ∀ st ∈ s'.stores, st ∈ s.stores ∨
    (s.space ≤ st.1 ∧ 0 ≤ st.2 ∧ st.1 + st.2 ≤ s.space + q * bsize fs + r * fsize fs)
  space : error = 0 → s'.space = s.space + q * bsize fs + r * fsize fs

/-- Nothing is left to read. -/
theorem Ended.done (s : LoopState) : Ended fs 0 0 s s 0 where
  reads := fun _ hmem => Or.inl hmem
  stores := fun _ hst => Or.inl hst
  space := by simp

/-- A read has failed. -/
theorem Ended.failed {s : LoopState} {q : Nat} {r size : Int} (error : Failure) (buf : Bool)
    (hsize : size = bsize fs ∨ (0 < r ∧ size = r * fsize fs)) :
    Ended fs q r s (LoopState.stopped s size buf) error.val where
  reads := by
    intro size' hmem
    rcases List.mem_append.mp hmem with hmem | hmem
    · exact Or.inl hmem
    · rw [List.mem_singleton.mp hmem]
      exact Or.inr hsize
  stores := fun _ hst => Or.inl hst
  space := fun hzero => absurd hzero error.property

/-- The last piece has been read. -/
theorem Ended.last {s : LoopState} {r : Int} (next : Int) (hr : 0 < r) (hsize : 0 ≤ r * fsize fs) :
    Ended fs 0 r s (LoopState.after s (r * fsize fs) next) 0 where
  reads := by
    intro size hmem
    rcases List.mem_append.mp hmem with hmem | hmem
    · exact Or.inl hmem
    · exact Or.inr (Or.inr ⟨hr, List.mem_singleton.mp hmem⟩)
  stores := by
    intro st hst
    rcases List.mem_append.mp hst with hst | hst
    · exact Or.inl hst
    · rw [List.mem_singleton.mp hst, Nat.cast_zero, Int.zero_mul, Int.add_zero]
      exact Or.inr ⟨Int.le_refl _, hsize, Int.le_refl _⟩
  space := by
    intro _
    rw [Nat.cast_zero, Int.zero_mul, Int.add_zero]
    rfl

/-- One more block in front. -/
theorem Ended.block {s s' : LoopState} {q error : Nat} {r next : Int}
    (h : Ended fs q r (LoopState.after s (bsize fs) next) s' error) (hbsize : 0 ≤ bsize fs)
    (hsize : 0 ≤ r * fsize fs) : Ended fs (q + 1) r s s' error where
  reads := by
    intro size hmem
    rcases h.reads size hmem with hmem | hmem
    · rcases List.mem_append.mp hmem with hmem | hmem
      · exact Or.inl hmem
      · exact Or.inr (Or.inl (List.mem_singleton.mp hmem))
    · exact Or.inr hmem
  stores := by
    have hq : 0 ≤ (q : Int) * bsize fs := Int.mul_nonneg (Int.natCast_nonneg q) hbsize
    intro st hst
    have hor := h.stores st hst
    rw [Nat.cast_succ, Int.add_mul, Int.one_mul]
    simp only [LoopState.after] at hor
    rcases hor with hst | ⟨hlo, hnonneg, hhi⟩
    · rcases List.mem_append.mp hst with hst | hst
      · exact Or.inl hst
      · rw [List.mem_singleton.mp hst]
        have hend : s.space + bsize fs ≤ s.space + (q * bsize fs + bsize fs) + r * fsize fs := by
          omega
        dsimp only
        exact Or.inr ⟨Int.le_refl _, hbsize, hend⟩
    · exact Or.inr ⟨by omega, hnonneg, by omega⟩
  space := by
    intro hzero
    have hspace := h.space hzero
    simp only [LoopState.after] at hspace
    rw [hspace, Nat.cast_succ, Int.add_mul, Int.one_mul]
    omega

/-- However the reads go, the loop comes to an end. -/
theorem loop_runs (read : Nat → PieceRead) (hfrag : 0 < frag fs) (hblks : blks < 2 ^ 31)
    (hbsize : 0 ≤ bsize fs) (q : Nat) :
    ∀ {s : LoopState} {r : Int}, 0 ≤ s.i → 0 ≤ r → r < frag fs → blks - s.i = q * frag fs + r →
      (0 < r → s.i + q * frag fs + frag fs < 2 ^ 31 ∧ 0 ≤ r * fsize fs ∧ r * fsize fs < 2 ^ 31) →
      ∃ fuel error s', summaryLoop fs blks read fuel s = some (error, s') ∧ Ended fs q r s s' error := by
  induction q with
  | zero =>
      intro s r hi hr hlt hleft hlast
      rw [Nat.cast_zero, Int.zero_mul, Int.zero_add] at hleft
      rcases Int.lt_or_eq_of_le hr with hpos | hzero
      · obtain ⟨hend, hnonneg, hsmall⟩ := hlast hpos
        rw [Nat.cast_zero, Int.zero_mul, Int.add_zero] at hend
        have hbelow : s.i < blks := by omega
        have hsize : pieceSize fs blks s.i = some (r * fsize fs) := by
          rw [pieceSize_last hi hfrag (by omega) hend, hleft]
          exact i32_eq_some (by omega) hsmall
        cases hread : read s.k with
        | failed error buf =>
            exact ⟨1, error.val, LoopState.stopped s (r * fsize fs) buf,
              loop_failed hbelow hsize hread, Ended.failed error buf (Or.inr ⟨hpos, rfl⟩)⟩
        | ok =>
            have hdone : ¬ (LoopState.after s (r * fsize fs) (s.i + frag fs)).i < blks := by
              show ¬ s.i + frag fs < blks
              omega
            have hrun : summaryLoop fs blks read 2 s =
                some (0, LoopState.after s (r * fsize fs) (s.i + frag fs)) := by
              rw [loop_ok hbelow hsize hread, i32_eq_some (by omega) hend]
              exact loop_done hdone 0
            exact ⟨2, 0, _, hrun, Ended.last _ hpos hnonneg⟩
      · have hdone : ¬ s.i < blks := by omega
        rw [← hzero]
        exact ⟨1, 0, s, loop_done hdone 0, Ended.done s⟩
  | succ q ih =>
      intro s r hi hr hlt hleft hlast
      rw [Nat.cast_succ, Int.add_mul, Int.one_mul] at hleft hlast
      have hq : 0 ≤ (q : Int) * frag fs := Int.mul_nonneg (Int.natCast_nonneg q) (Int.le_of_lt hfrag)
      have hrf : 0 ≤ r * fsize fs := by
        rcases Int.lt_or_eq_of_le hr with hpos | hzero
        · exact (hlast hpos).2.1
        · rw [← hzero, Int.zero_mul]
      have hbelow : s.i < blks := by omega
      have hsize := pieceSize_full hi hfrag (by omega) hblks
      cases hread : read s.k with
      | failed error buf =>
          exact ⟨1, error.val, LoopState.stopped s (bsize fs) buf,
            loop_failed hbelow hsize hread, Ended.failed error buf (Or.inl rfl)⟩
      | ok =>
          -- one round in front of the run that the hypothesis gives
          obtain ⟨fuel, error, s', hrun, hended⟩ :=
            @ih (LoopState.after s (bsize fs) (s.i + frag fs)) r
              (by show 0 ≤ s.i + frag fs; omega) hr hlt
              (by show blks - (s.i + frag fs) = _; omega)
              (fun hpos => ⟨by show s.i + frag fs + _ + _ < _; have := (hlast hpos).1; omega,
                (hlast hpos).2⟩)
          have hstep : summaryLoop fs blks read (fuel + 1) s = some (error, s') := by
            rw [loop_ok hbelow hsize hread, i32_eq_some (by omega) (by omega)]
            exact hrun
          exact ⟨fuel + 1, error, s', hstep, hended.block hbsize hrf⟩

/-- The ways a round can go. -/
theorem loop_cases {fuel error : Nat} {s s' : LoopState}
    (h : summaryLoop fs blks read (fuel + 1) s = some (error, s')) :
    (error = 0 ∧ s' = s) ∨
      (∃ size failure buf, read s.k = .failed failure buf ∧ error = failure.val ∧
        s' = LoopState.stopped s size buf) ∨
      (∃ size next, summaryLoop fs blks read fuel (LoopState.after s size next) = some (error, s')) := by
  by_cases hbelow : s.i < blks
  · right
    cases hsize : pieceSize fs blks s.i with
    | none =>
        rw [summaryLoop, if_pos hbelow, hsize] at h
        cases h
    | some size =>
        cases hread : read s.k with
        | failed failure buf =>
            rw [loop_failed hbelow hsize hread] at h
            obtain ⟨herror, hs⟩ := Prod.mk.inj (Option.some.inj h)
            exact Or.inl ⟨size, failure, buf, rfl, herror.symm, hs.symm⟩
        | ok =>
            rw [loop_ok hbelow hsize hread] at h
            cases hnext : i32 (s.i + frag fs) with
            | none =>
                rw [hnext] at h
                cases h
            | some next =>
                rw [hnext] at h
                exact Or.inr ⟨size, next, h⟩
  · rw [summaryLoop, if_neg hbelow] at h
    obtain ⟨herror, hs⟩ := Prod.mk.inj (Option.some.inj h)
    exact Or.inl ⟨herror.symm, hs.symm⟩

/-- An error of the loop is one of a read. -/
theorem loop_error {fuel error : Nat} {s s' : LoopState}
    (h : summaryLoop fs blks read fuel s = some (error, s')) (hne : error ≠ 0) :
    ∃ k failure buf, read k = .failed failure buf ∧ error = failure.val := by
  induction fuel generalizing s with
  | zero => cases h
  | succ fuel ih =>
      -- a round ends the loop, fails, or goes on
      rcases loop_cases h with ⟨hzero, -⟩ | ⟨-, failure, buf, hread, herror, -⟩ | ⟨size, next, hrest⟩
      · exact absurd hzero hne
      · exact ⟨s.k, failure, buf, hread, herror⟩
      · exact ih hrest

/-- A piece's buffer is freed as it was allocated, and what is owed stays owed. -/
theorem owes_piece {heap : Heap SbObj} {xs : List SbObj} {k : Nat} (howes : heap.Owes xs)
    (hxs : ∀ j, SbObj.buf j ∉ xs) (hnew : ∀ j, k ≤ j → heap.counts (.buf j) = (0, 0)) :
    ((heap.alloc (.buf k)).free (.buf k)).Owes xs ∧
      ∀ j, k + 1 ≤ j → ((heap.alloc (.buf k)).free (.buf k)).counts (.buf j) = (0, 0) := by
  refine ⟨(howes.alloc (hnew k (Nat.le_refl k))).free (hxs k), ?_⟩
  intro j hj
  have hne : SbObj.buf k ≠ .buf j := fun hsame => by
    have := SbObj.buf.inj hsame
    omega
  rw [Heap.counts_free_of_ne hne, Heap.counts_alloc_of_ne hne]
  exact hnew j (by omega)

/-- The loop owes at its end what it owed at its beginning. -/
theorem loop_owes {fuel error : Nat} {s s' : LoopState} {xs : List SbObj}
    (h : summaryLoop fs blks read fuel s = some (error, s')) (howes : s.heap.Owes xs)
    (hxs : ∀ j, SbObj.buf j ∉ xs) (hnew : ∀ j, s.k ≤ j → s.heap.counts (.buf j) = (0, 0)) :
    s'.heap.Owes xs := by
  induction fuel generalizing s with
  | zero => cases h
  | succ fuel ih =>
      -- every round starts with the buffers of the pieces to come unused
      have hpiece := owes_piece howes hxs hnew
      rcases loop_cases h with ⟨-, hs⟩ | ⟨size, failure, buf, -, -, hs⟩ | ⟨size, next, hrest⟩
      · rwa [hs]
      · rw [hs]
        cases buf with
        | true => exact hpiece.1
        | false => exact howes
      · exact ih hrest hpiece.1 hpiece.2

end Loop

/-! ### The layout of the summary -/

section Layout

variable (fs : Sb)

/-- `howmany(size, fs->fs_fsize)` has a value. -/
def Divides : Prop := ¬ (fsize fs = 0 ∨ (cssize fs = -2 ^ 31 ∧ fsize fs = -1))

instance : Decidable (Divides fs) := inferInstanceAs (Decidable (¬ _))

/-- How many fragments the summary takes. -/
def blks : Int := roundedUp (cssize fs) (fsize fs)

/-- How many bytes the pieces have: whole blocks, and the fragments behind them. -/
def tableSize : Int :=
  if 0 < blks fs then blks fs / frag fs * bsize fs + blks fs % frag fs * fsize fs else 0

/-- The bytes for each cylinder group behind the summary. -/
def perGroup : Int := if 0 < contigsumsize fs then 5 else 1

/-- The counter comes to the end of the summary, and the pieces have sizes. -/
def Steps : Prop :=
  0 < blks fs → 0 < frag fs ∧
    (0 < blks fs % frag fs → (blks fs / frag fs + 1) * frag fs < 2 ^ 31 ∧ 0 < fsize fs)

instance : Decidable (Steps fs) := inferInstanceAs (Decidable (_ → _))

/-- The division has a value. If `size` is not negative, the loop ends, and neither the
pieces nor the other two arrays are too large for what `size` counts. -/
def Stays : Prop :=
  Divides fs ∧ (0 ≤ blockSize fs →
    Steps fs ∧ tableSize fs ≤ cssize fs ∧ perGroup fs * fs.ncg < 2 ^ 31)

instance : Decidable (Stays fs) := inferInstanceAs (Decidable (_ ∧ (_ → _)))

/-- The summary of `fs_ncg` groups is no longer than the pieces, if there are any. -/
def Loadable : Prop := Stays fs ∧ (0 ≤ blockSize fs → 16 * (fs.ncg : Int) ≤ tableSize fs)

instance : Decidable (Loadable fs) := inferInstanceAs (Decidable (_ ∧ (_ → _)))

variable {fs}

theorem ncg_lt (fs : Sb) : fs.ncg < 4294967296 := Mem.read32_lt fs 44

theorem blks_lt (h : Divides fs) : blks fs < 2 ^ 31 := by
  have hc := toI32_bounds (fs.read32 156)
  change -2 ^ 31 ≤ cssize fs ∧ cssize fs < 2 ^ 31 at hc
  have hne : fsize fs ≠ 0 := fun hzero => h (Or.inl hzero)
  rw [blks, roundedUp]
  -- by 1 and -1 there is nothing left over, and by others the quotient is small
  by_cases hone : fsize fs = 1
  · rw [hone, Int.tmod_one, if_pos rfl, Int.tdiv_one]
    exact hc.2
  by_cases hminus : fsize fs = -1
  · have hlow : cssize fs ≠ -2 ^ 31 := fun hlow => h (Or.inr ⟨hlow, hminus⟩)
    rw [hminus, Int.tdiv_neg, Int.tdiv_one, Int.tmod_neg, Int.tmod_one, if_pos rfl]
    omega
  · have habs : (cssize fs).natAbs / (fsize fs).natAbs ≤ (cssize fs).natAbs / 2 :=
      Nat.div_le_div_left (by omega) (by decide)
    have hquot : (cssize fs).tdiv (fsize fs) ≤ ((cssize fs).natAbs / (fsize fs).natAbs : Nat) := by
      have hnat := Int.natAbs_tdiv (cssize fs) (fsize fs)
      change _ = (cssize fs).natAbs / (fsize fs).natAbs at hnat
      rw [← hnat]
      exact Int.le_natAbs
    split
    all_goals omega

theorem blockSize_eq (fs : Sb) : blockSize fs = toI32 (cssize fs + perGroup fs * fs.ncg) := by
  rw [blockSize, perGroup]
  by_cases hc : 0 < contigsumsize fs
  · have hsum : cssize fs + 5 * fs.ncg = cssize fs + 4 * fs.ncg + fs.ncg := by omega
    rw [if_pos hc, if_pos hc, hsum, toI32, toI32, Int.bmod_add_bmod, toI32]
  · rw [if_neg hc, if_neg hc, Int.one_mul]

theorem perGroup_mul (fs : Sb) : 0 ≤ perGroup fs * fs.ncg ∧ (fs.ncg : Int) ≤ perGroup fs * fs.ncg := by
  rw [perGroup]
  split
  all_goals omega

/-- What is laid out in the block fits into what `size` counts, and nothing wraps. -/
theorem fits_iff {size : Int} (h0 : 0 ≤ size) (hblock : 0 ≤ blockSize fs) :
    size + perGroup fs * fs.ncg ≤ blockSize fs ↔ size ≤ cssize fs ∧ perGroup fs * fs.ncg < 2 ^ 31 := by
  have hc := toI32_bounds (fs.read32 156)
  change -2 ^ 31 ≤ cssize fs ∧ cssize fs < 2 ^ 31 at hc
  have hgroups := (perGroup_mul fs).1
  have heq := blockSize_eq fs
  have hlt : blockSize fs < 2 ^ 31 := by
    rw [heq]
    exact (toI32_bounds _).2
  rw [toI32, Int.bmod_def] at heq
  -- whether `size` wraps, the bound on the right keeps it from wrapping
  split at heq
  all_goals
    constructor
    · intro hle
      omega
    · intro hfits
      omega

end Layout

/-! ### The arrays -/

/-- Every extent lies in the block. -/
def Inside (block : Int) (xs : List Extent) : Prop := ∀ x ∈ xs, 0 ≤ x.1 ∧ 0 ≤ x.2 ∧ x.1 + x.2 ≤ block

def Apart (x y : Extent) : Prop := x.1 + x.2 ≤ y.1 ∨ y.1 + y.2 ≤ x.1

section Arrays

variable {fs : Sb} {space block : Int} {stores arrays : List Extent}

/-- With room for them, the two arrays behind the summary are filled, and they do not reach
into the summary of `fs_ncg` groups if that is no longer than the pieces. -/
theorem setArrays_inside (h0 : 0 ≤ space) (hgroups : perGroup fs * fs.ncg < 2 ^ 31)
    (hend : space + perGroup fs * fs.ncg ≤ block) :
    ∃ stores arrays, setArrays fs space = some (stores, arrays) ∧ Inside block stores ∧
      (16 * (fs.ncg : Int) ≤ space → Inside block arrays ∧ arrays.Pairwise Apart) := by
  have hncg : (fs.ncg : Int) < 2 ^ 31 := Int.lt_of_le_of_lt (perGroup_mul fs).2 hgroups
  have hdirs : toU64 (toI32 fs.ncg) = fs.ncg := by
    rw [toI32_eq_self (by omega) hncg, toU64_eq_self (by omega) (by omega)]
  by_cases hc : 0 < contigsumsize fs
  · rw [perGroup, if_pos hc] at hend
    -- both arrays, behind the summary
    rw [setArrays, hdirs, if_pos hc, i32_eq_some (by omega) hncg]
    refine ⟨_, _, rfl, ?_, ?_⟩
    · intro x hx
      simp only [List.mem_cons, List.not_mem_nil, or_false] at hx
      rcases hx with hx | hx
      all_goals
        rw [hx]
        dsimp only
        omega
    · intro htable
      constructor
      · intro x hx
        simp only [List.mem_cons, List.not_mem_nil, or_false] at hx
        rcases hx with hx | hx | hx
        all_goals
          rw [hx]
          dsimp only
          omega
      · simp only [List.pairwise_cons, List.mem_cons, List.not_mem_nil, or_false, Apart, forall_eq_or_imp,
          forall_eq, false_imp_iff, implies_true, List.Pairwise.nil, and_true]
        omega
  · rw [perGroup, if_neg hc] at hend
    -- only `fs_contigdirs`
    rw [setArrays, hdirs, if_neg hc]
    refine ⟨_, _, rfl, ?_, ?_⟩
    · intro x hx
      rw [List.mem_singleton.mp hx]
      dsimp only
      omega
    · intro htable
      constructor
      · intro x hx
        simp only [List.mem_cons, List.not_mem_nil, or_false] at hx
        rcases hx with hx | hx
        all_goals
          rw [hx]
          dsimp only
          omega
      · simp only [List.pairwise_cons, List.mem_cons, List.not_mem_nil, or_false, Apart,
          forall_eq, false_imp_iff, implies_true, List.Pairwise.nil, and_true]
        omega

/-- Arrays that were filled inside the block had room there. -/
theorem setArrays_fits (h : setArrays fs space = some (stores, arrays)) (hin : Inside block stores)
    (hblock : block < 2 ^ 31) : 0 ≤ space ∧ space + perGroup fs * fs.ncg ≤ block := by
  have hlt := ncg_lt fs
  -- a number of groups that is negative as an `int` is a huge size
  have hdirs : toU64 (toI32 fs.ncg) < 2 ^ 31 → toU64 (toI32 fs.ncg) = fs.ncg := by
    rw [toI32, Int.bmod_def, toU64]
    split
    all_goals omega
  rw [setArrays] at h
  by_cases hc : 0 < contigsumsize fs
  · rw [if_pos hc] at h
    cases hi : i32 fs.ncg with
    | none =>
        rw [hi] at h
        cases h
    | some n =>
        rw [hi] at h
        obtain ⟨hstores, -⟩ := Prod.mk.inj (Option.some.inj h)
        have hmax := hin (space, 4 * fs.ncg) (by rw [← hstores]; exact List.mem_cons_self)
        have hcontig := hin (space + 4 * fs.ncg, toU64 (toI32 fs.ncg))
          (by rw [← hstores]; exact List.mem_cons_of_mem _ List.mem_cons_self)
        dsimp only at hmax hcontig
        rw [hdirs (by omega)] at hcontig
        rw [perGroup, if_pos hc]
        omega
  · rw [if_neg hc] at h
    obtain ⟨hstores, -⟩ := Prod.mk.inj (Option.some.inj h)
    have hcontig := hin (space, toU64 (toI32 fs.ncg)) (by rw [← hstores]; exact List.mem_cons_self)
    dsimp only at hcontig
    rw [hdirs (by omega)] at hcontig
    rw [perGroup, if_neg hc]
    omega

/-- Arrays that do not overlap leave the summary of `fs_ncg` groups to the pieces. -/
theorem setArrays_apart (h : setArrays fs space = some (stores, arrays)) (hin : Inside block arrays)
    (hapart : arrays.Pairwise Apart) (hncg : 1 ≤ fs.ncg) : 16 * (fs.ncg : Int) ≤ space := by
  have hsecond (n : Int) (rest : List Extent) (hn : 0 < n)
      (harrays : (0, 16 * (fs.ncg : Int)) :: (space, n) :: rest = arrays) :
      16 * (fs.ncg : Int) ≤ space := by
    rw [← harrays] at hin hapart
    have hspace := (hin _ (List.mem_cons_of_mem _ List.mem_cons_self)).1
    -- the second array starts at `space`, and there is something in it
    have htwo := (List.pairwise_cons.mp hapart).1 _ List.mem_cons_self
    rw [Apart] at htwo
    dsimp only at hspace htwo
    omega
  rw [setArrays] at h
  by_cases hc : 0 < contigsumsize fs
  · rw [if_pos hc] at h
    cases hi : i32 fs.ncg with
    | none =>
        rw [hi] at h
        cases h
    | some n =>
        rw [hi] at h
        exact hsecond _ _ (by omega) (Prod.mk.inj (Option.some.inj h)).2
  · rw [if_neg hc] at h
    exact hsecond _ _ (by omega) (Prod.mk.inj (Option.some.inj h)).2

end Arrays

/-! ### The load -/

section Load

variable {fs : Sb} {loc : Nat} {out : Outcomes} {heap : Heap SbObj}

/-- Both allocations succeed. -/
def Allocated (fs : Sb) (out : Outcomes) : Prop := out.si = true ∧ out.space = true ∧ 0 ≤ blockSize fs

instance (fs : Sb) (out : Outcomes) : Decidable (Allocated fs out) := inferInstanceAs (Decidable (_ ∧ _))

/-- The loop begins behind the two allocations. -/
def begin (heap : Heap SbObj) : LoopState := ⟨0, 0, 0, [], [], (heap.alloc .si).alloc .csp⟩

@[simp] theorem begin_i : (begin heap).i = 0 := rfl

@[simp] theorem begin_space : (begin heap).space = 0 := rfl

@[simp] theorem begin_reads : (begin heap).reads = [] := rfl

@[simp] theorem begin_stores : (begin heap).stores = [] := rfl

/-- What is left to do behind the loop. -/
def finish (fs : Sb) (loc : Nat) : Nat × LoopState → Option Load
  | (error, s) =>
      if error ≠ 0 then
        some ⟨error, blockSize fs, s.reads, s.stores, [], ((s.heap.free .csp).free .si).free (.sb loc)⟩
      else do
        let (stores, arrays) ← setArrays fs s.space
        some ⟨0, blockSize fs, s.reads, s.stores ++ stores, arrays, s.heap⟩

theorem howmany_eq (h : Divides fs) : howmany (cssize fs) (fsize fs) = some (blks fs) := if_neg h

theorem load_allocated (h : Divides fs) (ha : Allocated fs out) (fuel : Nat) :
    loadSummary fs loc out fuel heap =
      (summaryLoop fs (blks fs) out.piece fuel (begin heap)).bind (finish fs loc) := by
  obtain ⟨hsi, hspace, hblock⟩ := ha
  -- neither allocation fails
  have hno : ¬ (out.space = false ∨ blockSize fs < 0) := by
    rw [hspace, not_or, Int.not_lt]
    exact ⟨Bool.noConfusion, hblock⟩
  rw [loadSummary, howmany_eq h]
  show (if out.si = false then _ else _) = _
  rw [if_neg (by rw [hsi]; exact Bool.noConfusion)]
  show (if out.space = false ∨ blockSize fs < 0 then _ else _) = _
  rw [if_neg hno]
  rfl

theorem load_refused (loc : Nat) (heap : Heap SbObj) (h : Divides fs) (ha : ¬ Allocated fs out) (fuel : Nat) :
    ∃ heap', loadSummary fs loc out fuel heap = some ⟨ENOSPC, blockSize fs, [], [], [], heap'⟩ ∧
      (heap' = heap.free (.sb loc) ∨ heap' = ((heap.alloc .si).free .si).free (.sb loc)) := by
  rw [loadSummary, howmany_eq h]
  simp only [Option.bind_eq_bind, Option.bind_some]
  by_cases hsi : out.si = false
  · rw [if_pos hsi]
    exact ⟨_, rfl, Or.inl rfl⟩
  · have hor : out.space = false ∨ blockSize fs < 0 := by
      by_contra hno
      rw [not_or, Int.not_lt, Bool.not_eq_false] at hno
      exact ha ⟨Bool.not_eq_false _ ▸ hsi, hno⟩
    rw [if_neg hsi, if_pos hor]
    exact ⟨_, rfl, Or.inr rfl⟩

/-- A call that returns has divided. -/
theorem divides_of_load {fuel : Nat} {load : Load} (h : loadSummary fs loc out fuel heap = some load) :
    Divides fs := by
  intro hzero
  rw [loadSummary, howmany, if_pos hzero] at h
  cases h

/-- The fragments are whole blocks, and what is left over. -/
theorem blks_split (heap : Heap SbObj) (hpos : 0 < blks fs) (hfrag : 0 < frag fs) :
    ∃ q : Nat, (q : Int) = blks fs / frag fs ∧ 0 ≤ blks fs % frag fs ∧ blks fs % frag fs < frag fs ∧
      blks fs - (begin heap).i = q * frag fs + blks fs % frag fs := by
  have hq : ((blks fs / frag fs).toNat : Int) = blks fs / frag fs :=
    Int.toNat_of_nonneg (Int.ediv_nonneg (by omega) (by omega))
  refine ⟨(blks fs / frag fs).toNat, hq, Int.emod_nonneg _ (by omega), Int.emod_lt_of_pos _ hfrag, ?_⟩
  rw [hq, begin_i, Int.sub_zero, Int.mul_comm]
  exact (Int.mul_ediv_add_emod (blks fs) (frag fs)).symm

/-- The loop runs to its end, with what is stored in the space of the pieces. -/
theorem Stays.loop (h : Stays fs) (hbsize : 0 ≤ bsize fs) (hblock : 0 ≤ blockSize fs)
    (read : Nat → PieceRead) (heap : Heap SbObj) :
    ∃ fuel error s', summaryLoop fs (blks fs) read fuel (begin heap) = some (error, s') ∧
      (0 < bsize fs → ∀ size ∈ s'.reads, 0 < size) ∧
      (∀ st ∈ s'.stores, 0 ≤ st.1 ∧ 0 ≤ st.2 ∧ st.1 + st.2 ≤ tableSize fs) ∧
      (error = 0 → s'.space = tableSize fs) ∧ 0 ≤ tableSize fs := by
  obtain ⟨hdivides, hrest⟩ := h
  obtain ⟨hsteps, htable, -⟩ := hrest hblock
  have hc := (toI32_bounds (fs.read32 156)).2
  change cssize fs < 2 ^ 31 at hc
  by_cases hpos : 0 < blks fs
  · obtain ⟨hfrag, hlast⟩ := hsteps hpos
    obtain ⟨q, hq, hr, hlt, hleft⟩ := blks_split heap hpos hfrag
    rw [tableSize, if_pos hpos, ← hq] at htable ⊢
    rw [← hq] at hlast
    have hqb : 0 ≤ (q : Int) * bsize fs := Int.mul_nonneg (Int.natCast_nonneg q) hbsize
    have hbytes : 0 < blks fs % frag fs → 0 < blks fs % frag fs * fsize fs := fun hrpos =>
      Int.mul_pos hrpos (hlast hrpos).2
    have hrf : 0 ≤ blks fs % frag fs * fsize fs := by
      rcases Int.lt_or_eq_of_le hr with hrpos | hzero
      · exact Int.le_of_lt (hbytes hrpos)
      · rw [← hzero, Int.zero_mul]
    obtain ⟨fuel, error, s', hrun, hended⟩ :=
      loop_runs read hfrag (blks_lt hdivides) hbsize q (Int.le_refl 0) hr hlt hleft
        (by
          intro hrpos
          have hend := (hlast hrpos).1
          rw [Int.add_mul, Int.one_mul] at hend
          rw [begin_i, Int.zero_add]
          exact ⟨hend, hrf, by omega⟩)
    have hstores := hended.stores
    have hspace := hended.space
    rw [begin_space, begin_stores, Int.zero_add] at hstores
    rw [begin_space, Int.zero_add] at hspace
    refine ⟨fuel, error, s', hrun, ?_, ?_, hspace, by omega⟩
    · intro hb size hsize
      rcases hended.reads size hsize with hmem | heq | ⟨hrpos, heq⟩
      · cases hmem
      · rwa [heq]
      · rw [heq]
        exact hbytes hrpos
    · intro st hst
      rcases hstores st hst with hmem | hin
      · cases hmem
      · exact hin
  · rw [tableSize, if_neg hpos]
    refine ⟨1, 0, begin heap, loop_done (by rwa [begin_i]) 0, ?_, ?_, fun _ => rfl, Int.le_refl 0⟩
    · intro _ size hsize
      cases hsize
    · intro st hst
      cases hst

/-- The exits with an error: a failed allocation, and a failed read. -/
theorem load_failed {fuel : Nat} {load : Load} (h : loadSummary fs loc out fuel heap = some load)
    (hne : load.error ≠ 0) :
    (load.error = ENOSPC ∧ ¬ Allocated fs out ∧
        (load.heap = heap.free (.sb loc) ∨ load.heap = ((heap.alloc .si).free .si).free (.sb loc))) ∨
      ∃ s', summaryLoop fs (blks fs) out.piece fuel (begin heap) = some (load.error, s') ∧
        load.heap = ((s'.heap.free .csp).free .si).free (.sb loc) := by
  have hdivides := divides_of_load h
  by_cases ha : Allocated fs out
  · right
    rw [load_allocated hdivides ha] at h
    cases hrun : summaryLoop fs (blks fs) out.piece fuel (begin heap) with
    | none =>
        rw [hrun] at h
        cases h
    | some last =>
        obtain ⟨error, s'⟩ := last
        rw [hrun, Option.bind_some, finish] at h
        by_cases herror : error = 0
        · rw [if_neg (not_not.mpr herror)] at h
          cases harrays : setArrays fs s'.space with
          | none =>
              rw [harrays] at h
              cases h
          | some arrays =>
              rw [harrays] at h
              rw [← Option.some.inj h] at hne
              exact absurd rfl hne
        · rw [if_pos herror] at h
          rw [← Option.some.inj h]
          exact ⟨s', rfl, rfl⟩
  · left
    obtain ⟨heap', heq, hheap⟩ := load_refused loc heap hdivides ha fuel
    rw [heq] at h
    rw [← Option.some.inj h]
    exact ⟨rfl, ha, hheap⟩

/-- Where the error of a load comes from. -/
theorem load_error {fuel : Nat} {load : Load} (h : loadSummary fs loc out fuel heap = some load)
    (hne : load.error ≠ 0) :
    (load.error = ENOSPC ∧ ¬ Allocated fs out) ∨
      ∃ k failure buf, out.piece k = .failed failure buf ∧ load.error = failure.val := by
  rcases load_failed h hne with ⟨herror, ha, -⟩ | ⟨s', hrun, -⟩
  · exact Or.inl ⟨herror, ha⟩
  · exact Or.inr (loop_error hrun hne)

/-- The call returns, and what it stores lies in the block. -/
def Returns (fs : Sb) (loc : Nat) (out : Outcomes) (heap : Heap SbObj) : Prop :=
  ∃ fuel load, loadSummary fs loc out fuel heap = some load ∧ Inside load.block load.stores

/-- The call divides by nothing that is zero, and its loop ends. What it reads has a size,
what it stores lies in the block that it has allocated, and so do the arrays, apart from one
another. -/
def LoadSafe (fs : Sb) (loc : Nat) (out : Outcomes) (heap : Heap SbObj) : Prop :=
  ∃ fuel load, loadSummary fs loc out fuel heap = some load ∧ (∀ size ∈ load.reads, 0 < size) ∧
    Inside load.block load.stores ∧ Inside load.block load.arrays ∧ load.arrays.Pairwise Apart

theorem LoadSafe.returns (h : LoadSafe fs loc out heap) : Returns fs loc out heap := by
  obtain ⟨fuel, load, hload, -, hin, -⟩ := h
  exact ⟨fuel, load, hload, hin⟩

theorem Stays.load (h : Stays fs) (hbsize : 0 ≤ bsize fs) (loc : Nat) (out : Outcomes) (heap : Heap SbObj) :
    ∃ fuel load, loadSummary fs loc out fuel heap = some load ∧ Inside load.block load.stores ∧
      (0 < bsize fs → ∀ size ∈ load.reads, 0 < size) ∧
      ((0 ≤ blockSize fs → 16 * (fs.ncg : Int) ≤ tableSize fs) →
        Inside load.block load.arrays ∧ load.arrays.Pairwise Apart) := by
  have hnil (block : Int) : Inside block [] := fun x hx => by cases hx
  by_cases ha : Allocated fs out
  · have hblock := ha.2.2
    obtain ⟨fuel, error, s', hrun, hreads, hstores, hspace, htable⟩ := h.loop hbsize hblock out.piece heap
    -- the arrays begin where the pieces end
    have hroom := (fits_iff htable hblock).mpr (h.2 hblock).2
    have hin : Inside (blockSize fs) s'.stores := by
      intro st hst
      have hgroups := (perGroup_mul fs).1
      obtain ⟨hlo, hnonneg, hhi⟩ := hstores st hst
      exact ⟨hlo, hnonneg, by omega⟩
    by_cases herror : error = 0
    · obtain ⟨stores, arrays, harrays, hfilled, hlaid⟩ :=
        setArrays_inside htable (h.2 hblock).2.2 hroom
      refine ⟨fuel, ⟨0, blockSize fs, s'.reads, s'.stores ++ stores, arrays, s'.heap⟩, ?_, ?_, hreads, ?_⟩
      · rw [load_allocated h.1 ha, hrun, Option.bind_some, finish, if_neg (not_not.mpr herror),
          hspace herror, harrays]
        rfl
      · dsimp only
        intro st hst
        rcases List.mem_append.mp hst with hst | hst
        · exact hin st hst
        · exact hfilled st hst
      · dsimp only
        exact fun hsummary => hlaid (hsummary hblock)
    · refine ⟨fuel, ⟨error, blockSize fs, s'.reads, s'.stores, [],
        ((s'.heap.free .csp).free .si).free (.sb loc)⟩, ?_, ?_, hreads, ?_⟩
      · rw [load_allocated h.1 ha, hrun, Option.bind_some, finish, if_pos herror]
      · dsimp only
        exact hin
      · dsimp only
        exact fun _ => ⟨hnil _, List.Pairwise.nil⟩
  · obtain ⟨heap', heq, -⟩ := load_refused loc heap h.1 ha 0
    refine ⟨0, ⟨ENOSPC, blockSize fs, [], [], [], heap'⟩, heq, ?_, ?_, ?_⟩
    · dsimp only
      exact hnil _
    · intro _ size hsize
      cases hsize
    · dsimp only
      exact fun _ => ⟨hnil _, List.Pairwise.nil⟩

/-- A loop that goes well to its end, and stores no piece of a negative size. -/
theorem loop_well (h : Divides fs) {fuel error : Nat} {s' : LoopState}
    (hrun : summaryLoop fs (blks fs) allOk fuel (begin heap) = some (error, s'))
    (hstores : ∀ st ∈ s'.stores, 0 ≤ st.2) : error = 0 ∧ s'.space = tableSize fs ∧ Steps fs := by
  by_cases hpos : 0 < blks fs
  · have hfrag : 0 < frag fs := by
      by_contra hno
      rw [loop_never (Int.not_lt.mp hno) fuel (by rwa [begin_i])] at hrun
      cases hrun
    obtain ⟨q, hq, hr, hlt, hleft⟩ := blks_split heap hpos hfrag
    obtain ⟨herror, hspace, hlast⟩ :=
      loop_all_ok hfrag (blks_lt h) q (Int.le_refl 0) hr hlt hleft hrun
    rw [hq, begin_space, Int.zero_add] at hspace
    rw [hq, begin_i, begin_space, Int.zero_add, Int.zero_add] at hlast
    refine ⟨herror, ?_, ?_⟩
    · rw [hspace, tableSize, if_pos hpos]
    · intro _
      refine ⟨hfrag, ?_⟩
      intro hrpos
      obtain ⟨hend, hmem⟩ := hlast hrpos
      refine ⟨by rw [Int.add_mul, Int.one_mul]; exact hend, ?_⟩
      have hsize := hstores _ hmem
      dsimp only at hsize
      -- the last piece is stored with its size, and that is not negative
      have hne : fsize fs ≠ 0 := fun hzero => h (Or.inl hzero)
      exact lt_of_le_of_ne (Int.nonneg_of_mul_nonneg_right hsize hrpos) (Ne.symm hne)
  · cases fuel with
    | zero => cases hrun
    | succ fuel =>
        rw [loop_done (by rwa [begin_i])] at hrun
        obtain ⟨herror, hs⟩ := Prod.mk.inj (Option.some.inj hrun)
        refine ⟨herror.symm, ?_, fun hcontra => absurd hcontra hpos⟩
        rw [← hs, begin_space, tableSize, if_neg hpos]

/-- The reads and allocations of a load that goes well. -/
def allWell : Outcomes := ⟨true, true, allOk⟩

/-- A load that goes well, to its end, shows what the numbers are. -/
theorem load_well {fuel : Nat} {load : Load} (h : loadSummary fs loc allWell fuel heap = some load)
    (hin : Inside load.block load.stores) (hblock : 0 ≤ blockSize fs) :
    Steps fs ∧ 0 ≤ tableSize fs ∧ tableSize fs + perGroup fs * fs.ncg ≤ blockSize fs ∧
      ∃ stores, setArrays fs (tableSize fs) = some (stores, load.arrays) := by
  have hdivides := divides_of_load h
  have ha : Allocated fs allWell := ⟨rfl, rfl, hblock⟩
  have hlt : blockSize fs < 2 ^ 31 := by
    rw [blockSize_eq]
    exact (toI32_bounds _).2
  rw [load_allocated hdivides ha] at h
  cases hrun : summaryLoop fs (blks fs) allOk fuel (begin heap) with
  | none =>
      change (summaryLoop fs (blks fs) allOk fuel (begin heap)).bind _ = _ at h
      rw [hrun] at h
      cases h
  | some last =>
      obtain ⟨error, s'⟩ := last
      change (summaryLoop fs (blks fs) allOk fuel (begin heap)).bind _ = _ at h
      rw [hrun, Option.bind_some, finish] at h
      by_cases herror : error = 0
      · rw [if_neg (not_not.mpr herror)] at h
        cases hset : setArrays fs s'.space with
        | none =>
            rw [hset] at h
            cases h
        | some both =>
            obtain ⟨stores, arrays⟩ := both
            rw [hset] at h
            rw [← Option.some.inj h] at hin ⊢
            dsimp only at hin ⊢
            obtain ⟨-, hspace, hsteps⟩ := loop_well hdivides hrun
              fun st hst => (hin st (List.mem_append_left _ hst)).2.1
            rw [hspace] at hset
            obtain ⟨h0, hfits⟩ := setArrays_fits hset
              (fun st hst => hin st (List.mem_append_right _ hst)) hlt
            exact ⟨hsteps, h0, hfits, stores, hset⟩
      · -- without a failing read there is no error
        obtain ⟨k, failure, buf, hread, -⟩ := loop_error hrun herror
        cases hread

/-- Nothing has been allocated of what a load allocates. -/
def Fresh (heap : Heap SbObj) : Prop :=
  heap.counts .si = (0, 0) ∧ heap.counts .csp = (0, 0) ∧ ∀ k, heap.counts (.buf k) = (0, 0)

/-- A load that fails frees everything, the superblock included. -/
theorem load_settled {fuel : Nat} {load : Load} (h : loadSummary fs loc out fuel heap = some load)
    (hne : load.error ≠ 0) (howes : heap.Owes [.sb loc]) (hfresh : Fresh heap) (x : SbObj) :
    load.heap.Settled x := by
  obtain ⟨hsi, hcsp, hbuf⟩ := hfresh
  have howes₁ : (heap.alloc .si).Owes [.si, .sb loc] := howes.alloc hsi
  rcases load_failed h hne with ⟨-, -, hheap | hheap⟩ | ⟨s', hrun, hheap⟩
  · rw [hheap]
    exact (howes.free (by simp)).settled x
  · rw [hheap]
    exact ((howes₁.free (by simp)).free (by simp)).settled x
  · have howes₂ : (begin heap).heap.Owes [.csp, .si, .sb loc] :=
      howes₁.alloc (by rw [Heap.counts_alloc_of_ne (by decide)]; exact hcsp)
    have hnew (j : Nat) : (begin heap).heap.counts (.buf j) = (0, 0) := by
      rw [begin, Heap.counts_alloc_of_ne (by simp), Heap.counts_alloc_of_ne (by simp)]
      exact hbuf j
    have howes₃ := loop_owes hrun howes₂ (by simp) fun j _ => hnew j
    rw [hheap]
    exact (((howes₃.free (by simp)).free (by simp)).free (by simp)).settled x

/-- When a load returns, whatever fails. -/
theorem returns_iff (loc : Nat) (heap : Heap SbObj) (hbsize : 0 ≤ bsize fs) :
    (∀ out, Returns fs loc out heap) ↔ Stays fs := by
  constructor
  · intro h
    obtain ⟨fuel, load, hload, hin⟩ := h allWell
    refine ⟨divides_of_load hload, ?_⟩
    intro hblock
    obtain ⟨hsteps, htable, hfits, -⟩ := load_well hload hin hblock
    exact ⟨hsteps, (fits_iff htable hblock).mp hfits⟩
  · intro h out
    obtain ⟨fuel, load, hload, hin, -⟩ := h.load hbsize loc out heap
    exact ⟨fuel, load, hload, hin⟩

/-- When a load is safe, whatever fails. -/
theorem loadSafe_iff (hbsize : 0 < bsize fs) (hncg : 1 ≤ fs.ncg) :
    (∀ out, LoadSafe fs loc out heap) ↔ Loadable fs := by
  constructor
  · intro h
    refine ⟨(returns_iff loc heap (Int.le_of_lt hbsize)).mp fun out => (h out).returns, ?_⟩
    intro hblock
    obtain ⟨fuel, load, hload, -, hstores, harrays, hapart⟩ := h allWell
    obtain ⟨-, -, -, stores, hset⟩ := load_well hload hstores hblock
    exact setArrays_apart hset harrays hapart hncg
  · intro h out
    obtain ⟨fuel, load, hload, hstores, hreads, hlaid⟩ := h.1.load (Int.le_of_lt hbsize) loc out heap
    obtain ⟨harrays, hapart⟩ := hlaid h.2
    exact ⟨fuel, load, hload, hreads hbsize, hstores, harrays, hapart⟩

end Load

/-! ### What `readsuper` accepts -/

section Accepted

variable {host : Host} {content fs : Sb} {loc : Nat} {isaltsblk chkhash : Bool}

/-- `readsuper` makes `fs` of the content of a location, and returns 0. -/
def Accepted [SysParam] (host : Host) (content : Sb) (loc : Nat) (isaltsblk chkhash : Bool) (fs : Sb) : Prop :=
  readsuperOn host (.ok content) loc isaltsblk chkhash = some (.ok fs) ∨
    readsuperOn host (.ok content) loc isaltsblk chkhash = some (.ignored fs)

/-- The bytes that `readsuper` writes. -/
def touched : List Span := [(208, 1), (848, 8), (992, 8), (1308, 4), (1312, 4)]

theorem agreeOff_mask_touched (fs : Sb) : AgreeOff touched fs.mask fs :=
  (agreeOff_mask fs).mono (by decide)

/-- An accepted superblock has passed the test of the fields, and keeps all other bytes. -/
theorem Accepted.acceptable [SysParam] (h : Accepted host content loc isaltsblk chkhash fs) :
    Acceptable content loc isaltsblk ∧ AgreeOff touched fs content := by
  have hreceived (sb : Sb) : AgreeOff touched ((sb.setSblockactualloc loc).setSi 0) sb :=
    (Mem.agreeOff_write64 _ (by decide)).trans (Mem.agreeOff_write64 _ (by decide))
  have hignored (sb : Sb) : AgreeOff touched ((sb.setFlags (sb.flags ||| FS_NEEDSFSCK)).setFmod 1) sb :=
    (Mem.agreeOff_write8 _ (by decide)).trans (Mem.agreeOff_write32 _ (by decide))
  simp only [Accepted, readsuperOn] at h
  -- only a superblock that passes the tests gets to a 0
  by_cases hbad : content.magic = FS_BAD_MAGIC
  · simp only [if_pos hbad] at h
    rcases h with h | h
    all_goals cases h
  by_cases hacc : Acceptable content loc isaltsblk
  · refine ⟨hacc, ?_⟩
    simp only [if_neg hbad, if_pos hacc] at h
    by_cases hin : HashInside content.mask
    · rw [if_neg (not_not.mpr hin)] at h
      -- a wrong hash is an error, or is ignored
      by_cases hck : content.mask.ckhash = ffsCalcSbhash content.mask
      · rw [if_neg (not_not.mpr hck)] at h
        rcases h with h | h
        · rw [← ReadResult.ok.inj (Option.some.inj h)]
          exact (hreceived _).trans (agreeOff_mask_touched content)
        · cases h
      · rw [if_pos hck] at h
        cases chkhash with
        | true =>
            rcases h with h | h
            all_goals cases h
        | false =>
            rcases h with h | h
            · cases h
            · rw [← ReadResult.ignored.inj (Option.some.inj h)]
              exact (hignored _).trans (agreeOff_mask_touched content)
    · rw [if_pos hin] at h
      rcases h with h | h
      all_goals cases h
  · simp only [if_neg hbad, if_neg hacc] at h
    cases host with
    | user =>
        rcases h with h | h
        all_goals cases h
    | kernel =>
        rcases h with h | h
        all_goals cases h

/-- `readsuper` leaves the numbers of the layout as they are. -/
theorem layout_congr {fs' : Sb} (h : AgreeOff touched fs fs') :
    (Stays fs ↔ Stays fs') ∧ (Loadable fs ↔ Loadable fs') := by
  have hncg : fs.ncg = fs'.ncg := h.read32 (by decide)
  have hcssize : cssize fs = cssize fs' := congrArg (fun n : Nat => toI32 n) (h.read32 (by decide))
  have hbsize : bsize fs = bsize fs' := congrArg (fun n : Nat => toI32 n) (h.read32 (by decide))
  have hfsize : fsize fs = fsize fs' := congrArg (fun n : Nat => toI32 n) (h.read32 (by decide))
  have hfrag : frag fs = frag fs' := congrArg (fun n : Nat => toI32 n) (h.read32 (by decide))
  have hcontig : contigsumsize fs = contigsumsize fs' := congrArg (fun n : Nat => toI32 n) (h.read32 (by decide))
  have hblks : blks fs = blks fs' := by rw [blks, blks, hcssize, hfsize]
  have htable : tableSize fs = tableSize fs' := by rw [tableSize, tableSize, hblks, hfrag, hbsize, hfsize]
  have hgroup : perGroup fs = perGroup fs' := by rw [perGroup, perGroup, hcontig]
  have hblock : blockSize fs = blockSize fs' := by rw [blockSize_eq, blockSize_eq, hcssize, hgroup, hncg]
  have hstays : Stays fs ↔ Stays fs' := by
    rw [Stays, Stays, Divides, Divides, Steps, Steps, hblock, hblks, htable, hgroup, hcssize, hfsize, hfrag, hncg]
  refine ⟨hstays, ?_⟩
  rw [Loadable, Loadable, hstays, hblock, htable, hncg]

/-- The tests bound the size of a block, and ask for a cylinder group. -/
theorem Accepted.bounds [SysParam] (h : Accepted host content loc isaltsblk chkhash fs) :
    0 < bsize fs ∧ 1 ≤ fs.ncg := by
  obtain ⟨⟨-, hncg, hmin, hmax, -⟩, hagree⟩ := h.acceptable
  have hb : fs.read32 48 = content.bsize := hagree.read32 (by decide)
  have hn : fs.ncg = content.ncg := hagree.read32 (by decide)
  have hle := SysParam.le
  rw [MINBSIZE] at hmin
  refine ⟨?_, by rw [hn]; exact hncg⟩
  rw [bsize, hb, toI32_eq_self (by omega) (by omega)]
  omega

/-- An acceptable superblock without a hash is accepted. -/
theorem accepted_plain [SysParam] (hbad : content.magic ≠ FS_BAD_MAGIC) (hacc : Acceptable content loc isaltsblk)
    (hplain : content.flags &&& FS_METACKHASH = 0) :
    Accepted host content loc isaltsblk chkhash (received content.mask loc) := by
  have hmeta : content.mask.metackhash = 0 := by
    rw [metackhash_mask, maskedMetackhash, if_pos hplain]
  have hin : HashInside content.mask := by
    intro hne
    rw [hmeta] at hne
    exact absurd (Nat.zero_and _) hne
  have hck : content.mask.ckhash = ffsCalcSbhash content.mask := by
    rw [ffsCalcSbhash, hmeta, if_pos (Nat.zero_and _)]
  left
  simp only [readsuperOn]
  rw [if_neg hbad, if_pos hacc, if_neg (not_not.mpr hin), if_neg (not_not.mpr hck)]
  rfl

/-- An accepted superblock is safe to load if, and only if, the numbers that `readsuper` does
not test lay out a summary. -/
theorem accepted_loadSafe_iff [SysParam] (h : Accepted host content loc isaltsblk chkhash fs) :
    (∀ out, LoadSafe fs loc out (Heap.empty.alloc (.sb loc))) ↔ Loadable content := by
  obtain ⟨hbsize, hncg⟩ := h.bounds
  rw [loadSafe_iff hbsize hncg]
  exact (layout_congr h.acceptable.2).2

end Accepted

attribute [local instance] SysParam.macos

theorem accepted_loadSafe_sample :
    Accepted .kernel (sampleSb 0) SBLOCK_UFS2 false true (received (sampleSb 0).mask SBLOCK_UFS2) ∧
      ∀ out, LoadSafe (received (sampleSb 0).mask SBLOCK_UFS2) SBLOCK_UFS2 out
        (Heap.empty.alloc (.sb SBLOCK_UFS2)) := by
  have haccepted : Accepted .kernel (sampleSb 0) SBLOCK_UFS2 false true
      (received (sampleSb 0).mask SBLOCK_UFS2) :=
    accepted_plain (by decide +kernel) (by decide +kernel) (by decide +kernel)
  exact ⟨haccepted, (accepted_loadSafe_iff haccepted).mpr (by decide +kernel)⟩

/-- A superblock with `fs_fsize = 0` is accepted, and `howmany` divides by it. -/
theorem not_accepted_loadSafe :
    ¬ ∀ (host : Host) (content fs : Sb) (loc : Nat) (isaltsblk chkhash : Bool),
      Accepted host content loc isaltsblk chkhash fs →
        ∀ out, LoadSafe fs loc out (Heap.empty.alloc (.sb loc)) := by
  intro h
  let content : Sb := (sampleSb 0).write32 52 0
  have haccepted : Accepted .kernel content SBLOCK_UFS2 false true (received content.mask SBLOCK_UFS2) :=
    accepted_plain (by decide +kernel) (by decide +kernel) (by decide +kernel)
  have hreturns := fun out => (h _ _ _ _ _ _ haccepted out).returns
  -- a safe load returns, and so it has divided
  have hstays := (returns_iff _ _ (Int.le_of_lt haccepted.bounds.1)).mp hreturns
  have hstays' := (layout_congr haccepted.acceptable.2).1.mp hstays
  exact absurd hstays' (by decide +kernel)

end UfsX.Proofs.Sbget
