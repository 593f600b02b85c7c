import UfsX.Compat.Memcchr
import UfsX.Proofs.Inoalloc

/-!
# `UfsX.Proofs.Memcchr`: the word-wise search finds the first byte

`readLong_eq_word_iff` says what the comparison of two words says about bytes: the words
are equal exactly when all eight bytes are `c`. With it each loop of the code is the
loop of `UfsX.Ffs.memcchr` (`memcchr_eq`), and `memcchr_eq_find` reads the result off: the
bytes of the last word that lie behind the buffer, and those of the first word before it,
decide nothing.
-/

set_option autoImplicit false

namespace UfsX.Proofs.Memcchr

open UfsX.Compat.Memcchr

/-! ### Words -/

theorem append_inj_iff {m n : Nat} {a a' : BitVec m} {b b' : BitVec n} :
    a ++ b = a' ++ b' ↔ a = a' ∧ b = b' := by
  constructor
  · intro h
    have hleft := congrArg (BitVec.extractLsb' n m) h
    have hright := congrArg (BitVec.extractLsb' 0 n) h
    simp only [BitVec.extractLsb'_append_eq_left] at hleft
    simp only [BitVec.extractLsb'_append_eq_right] at hright
    exact ⟨hleft, hright⟩
  · intro h
    rw [h.1, h.2]

/-- The shifts repeat the byte, whichever it is. -/
theorem repeat_byte : ∀ b : BitVec 8,
    (let w : BitVec 64 := b.setWidth 64
      let w := w ||| w <<< 8
      let w := w ||| w <<< 16
      w ||| w <<< 32) = b ++ b ++ b ++ b ++ b ++ b ++ b ++ b := by
  decide

section Search

variable {mem : Nat → BitVec 8} {c : BitVec 32}

/-- Two words are equal exactly when their bytes are, one by one. -/
theorem readLong_inj_iff {mem' : Nat → BitVec 8} {lp lp' : Nat} :
    readLong mem lp = readLong mem' lp' ↔ ∀ i, i < sizeofLong → mem (lp + i) = mem' (lp' + i) := by
  constructor
  · intro h
    have h7 := append_inj_iff.mp h
    have h6 := append_inj_iff.mp h7.1
    have h5 := append_inj_iff.mp h6.1
    have h4 := append_inj_iff.mp h5.1
    have h3 := append_inj_iff.mp h4.1
    have h2 := append_inj_iff.mp h3.1
    have h1 := append_inj_iff.mp h2.1
    intro i hi
    unfold sizeofLong at hi
    interval_cases i
    · exact h7.2
    · exact h6.2
    · exact h5.2
    · exact h4.2
    · exact h3.2
    · exact h2.2
    · exact h1.2
    · exact h1.1
  · intro h
    have hbyte (i : Nat) (hi : i < 8) : mem (lp + i) = mem' (lp' + i) := h i hi
    have h0 : mem lp = mem' lp' := hbyte 0 (by omega)
    simp only [readLong, h0, hbyte, Nat.reduceLT]

/-- The comparison of the code asks for `c` in all eight places. -/
theorem readLong_eq_word_iff {lp : Nat} : readLong mem lp = word c ↔ Ffs.wordIs mem (uchar c) lp = true := by
  have hword : word c = readLong (fun _ => uchar c) 0 := repeat_byte (uchar c)
  rw [hword, readLong_inj_iff]
  simp only [Ffs.wordIs, List.all_eq_true, List.mem_range, beq_iff_eq, sizeofLong]

/-! ### The loops -/

theorem firstWord_eq (p n : Nat) : firstWord mem c p (p + n) = Ffs.testBytes mem (uchar c) n p := by
  induction n generalizing p with
  | zero =>
      rw [firstWord, if_neg (by omega)]
      rfl
  | succ n ih =>
      have hnext := ih (p + 1)
      rw [show p + 1 + n = p + (n + 1) from by omega] at hnext
      rw [firstWord, if_pos (by omega), Ffs.testBytes, hnext]

theorem testByte_eq (n p : Nat) : testByte mem c n p = (Ffs.testBytes mem (uchar c) n p).getD (p + n) := by
  induction n generalizing p with
  | zero => rfl
  | succ n ih =>
      rw [testByte, Ffs.testBytes, ih (p + 1)]
      split
      · rfl
      · rw [show p + 1 + n = p + (n + 1) from by omega]

/-- Rounds that go beyond the buffer are not run. -/
theorem wordLoop_eq {stop : Nat} (n lp : Nat) (hn : stop ≤ lp + 8 * n) :
    wordLoop mem c lp stop = Ffs.memcchrWords mem (uchar c) stop n lp := by
  induction n generalizing lp with
  | zero =>
      rw [wordLoop, if_neg (by omega)]
      rfl
  | succ n ih =>
      rw [wordLoop, Ffs.memcchrWords]
      by_cases hlt : lp < stop
      · rw [if_pos hlt, if_neg (Nat.not_le.mpr hlt)]
        by_cases hw : readLong mem lp = word c
        -- a word of `c` alone is passed, and in another one the bytes are looked through
        · rw [if_neg (not_not.mpr hw), if_pos (readLong_eq_word_iff.mp hw)]
          exact ih (lp + sizeofLong) (by unfold sizeofLong; omega)
        · rw [if_pos hw, if_neg (mt readLong_eq_word_iff.mpr hw), testByte_eq]
      · rw [if_neg hlt, if_pos (Nat.not_lt.mp hlt)]

/-- The code searches as inode allocation takes it to. -/
theorem memcchr_eq (mem : Nat → BitVec 8) (start n : Nat) (c : BitVec 32) :
    memcchr mem c start n = Ffs.memcchr mem start (uchar c) n := by
  unfold memcchr Ffs.memcchr
  by_cases hn : n = 0
  · rw [if_pos hn, if_pos hn]
  · rw [if_neg hn, if_neg hn]
    -- the first word holds the first byte
    have hin : start < start / sizeofLong * sizeofLong + sizeofLong := by
      unfold sizeofLong
      omega
    have hfirst := @firstWord_eq mem c start (start / sizeofLong * sizeofLong + sizeofLong - start)
    rw [Nat.add_sub_cancel' hin.le] at hfirst
    have hloop := @wordLoop_eq mem c (start + n) n
      (start / sizeofLong * sizeofLong + sizeofLong) (by omega)
    simp only [hfirst, hloop, ne_eq, readLong_eq_word_iff, ite_not]
    rfl

/-! ### The result -/

/-- `memcchr` gives the first byte of the buffer that is not `c`, and `NULL` when there is
none, wherever the buffer starts and whatever is around it. -/
theorem memcchr_eq_find (mem : Nat → BitVec 8) (start n : Nat) (c : BitVec 32) :
    memcchr mem c start n = (List.range' start n).find? fun p => mem p != uchar c := by
  have hspec := memcchr_spec mem start (uchar c) n
  rw [memcchr_eq]
  cases hm : Ffs.memcchr mem start (uchar c) n with
  | none =>
      rw [hm] at hspec
      symm
      rw [List.find?_eq_none]
      intro p hp
      have hrange := List.mem_range'_1.mp hp
      simp [hspec p hrange.1 hrange.2]
  | some q =>
      rw [hm] at hspec
      obtain ⟨⟨hle, hne, hbefore⟩, hlt⟩ := hspec
      symm
      rw [List.find?_range'_eq_some]
      refine ⟨by simp [hne], List.mem_range'_1.mpr ⟨hle, hlt⟩, ?_⟩
      intro r hr hrq
      simp [hbefore r hr hrq]

end Search

end UfsX.Proofs.Memcchr
