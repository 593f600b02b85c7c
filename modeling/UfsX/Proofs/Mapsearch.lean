import UfsX.Ffs.Alloc
import UfsX.Proofs.Blocks

/-!
# `UfsX.Proofs.Mapsearch`: `ffs_mapsearch` finds a run of the exact size

`ffsMapsearch_spec`: when some block of the group has a maximal run of exactly
`allocsiz` fragments, the search does not panic, returns the first fragment of
such a run, and leaves `cg_frotor` inside the group. `ffsMapsearch_ge`: the run lies
at or after the byte of the preference when there is one there.

The search has two halves. `scanc` looks for a byte whose table entry has the
bit of `allocsiz`, which `fragtbl_spec` turns into "some block of this byte has
such a run". The sift then walks the blocks of that byte.
-/

set_option autoImplicit false

namespace UfsX.Proofs

open UfsX.Lib UfsX.Ffs

variable (fs : Fs)

/-! ### The scan over bytes -/

/-- `scanc` stops at the first byte whose entry meets the mask, or returns 0
when there is none. -/
theorem scanc_spec (cp : Bitmap) (table : List Nat) (mask : Nat) : ∀ size i : Nat,
    (scanc cp table mask size i = 0 ∧
      ∀ j < size, Nat.land (table.getD (cp (i + j)).toNat 0) mask = 0) ∨
    ∃ j < size, scanc cp table mask size i = size - j ∧
      Nat.land (table.getD (cp (i + j)).toNat 0) mask ≠ 0 := by
  intro size
  induction size with
  | zero => intro i; exact Or.inl ⟨rfl, fun j hj => absurd hj (Nat.not_lt_zero j)⟩
  | succ size ih =>
      intro i
      rw [scanc]
      by_cases hhit : Nat.land (table.getD (cp i).toNat 0) mask ≠ 0
      · rw [if_pos hhit]
        exact Or.inr ⟨0, by omega, rfl, hhit⟩
      · rw [if_neg hhit]
        rcases ih (i + 1) with ⟨h0, hnone⟩ | ⟨j, hj, heq, hj'⟩
        · refine Or.inl ⟨h0, fun j hj => ?_⟩
          cases j with
          | zero => exact not_not.mp hhit
          | succ j =>
              have hrec := hnone j (by omega)
              rwa [show i + 1 + j = i + (j + 1) from by omega] at hrec
        · refine Or.inr ⟨j + 1, by omega, by omega, ?_⟩
          rwa [show i + (j + 1) = i + 1 + j from by omega]

/-- Some block of byte `i` has a maximal run of exactly `k` fragments. -/
def ByteOffers (m : Bitmap) (i k : Nat) : Prop :=
  ∃ q < 8 / fs.frag, ∃ p, IsRun (blkBits fs m (i * (8 / fs.frag) + q)) fs.frag p k

/-- Block `q` of a byte is block `i * (8 / frag) + q` of the map. -/
theorem testBit_byteBlock (m : Bitmap) (i q j : Nat) (hq : q < 8 / fs.frag) (hj : j < fs.frag) :
    (byteBlock fs.frag (m i).toNat q).testBit j
      = blkBits fs m (i * (8 / fs.frag) + q) j := by
  have hdvd := fs.fragOk.dvd
  have hle : q * fs.frag + fs.frag ≤ 8 := by
    calc q * fs.frag + fs.frag = (q + 1) * fs.frag := by ring
      _ ≤ 8 / fs.frag * fs.frag := Nat.mul_le_mul_right _ hq
      _ = 8 := hdvd
  show (((m i).toNat >>> (q * fs.frag)) % 2 ^ fs.frag).testBit j = _
  rw [Nat.testBit_mod_two_pow, decide_eq_true hj, Bool.true_and, Nat.testBit_shiftRight, blkBits,
    show (i * (8 / fs.frag) + q) * fs.frag + j = 8 * i + (q * fs.frag + j) from by
      rw [Nat.add_mul, Nat.mul_assoc, hdvd]; ring]
  exact Bitmap.getLsbD_byte m i _ (by omega)

/-- The table test of `ffs_mapsearch` on one byte. -/
theorem fragMask_iff (m : Bitmap) (i : Nat) {k : Nat} (hk : 0 < k) (hkf : k ≤ fs.frag) :
    Nat.land ((fragtbl fs.frag).getD (m i).toNat 0) (fs.fragMask k) ≠ 0 ↔ ByteOffers fs m i k := by
  have hsmall : k - 1 + fs.frag % 8 < 8 := by
    rcases fs.fragOk with h | h | h | h <;> rw [h] at hkf ⊢ <;> omega
  have hmask : fs.fragMask k = 2 ^ (k - 1 + fs.frag % 8) := by
    rw [Fs.fragMask, Nat.one_shiftLeft, Nat.mod_eq_of_lt]
    exact Nat.pow_lt_pow_right (by decide) hsmall
  have hspec := fragtbl_spec fs.fragOk (show (m i).toNat < 256 from (m i).isLt) hk hkf
  rw [hmask, show Nat.land ((fragtbl fs.frag).getD (m i).toNat 0) (2 ^ (k - 1 + fs.frag % 8))
    = (fragtbl fs.frag).getD (m i).toNat 0 &&& 2 ^ (k - 1 + fs.frag % 8) from rfl, Nat.and_two_pow]
  have hbit : (((fragtbl fs.frag).getD (m i).toNat 0).testBit (k - 1 + fs.frag % 8)).toNat
      * 2 ^ (k - 1 + fs.frag % 8) ≠ 0
      ↔ ((fragtbl fs.frag).getD (m i).toNat 0).testBit (k - 1 + fs.frag % 8) = true := by
    cases ((fragtbl fs.frag).getD (m i).toNat 0).testBit (k - 1 + fs.frag % 8) <;> simp
  rw [hbit, hspec, ByteOffers]
  constructor
  · rintro ⟨q, hq, p, hrun⟩
    exact ⟨q, hq, p, (isRun_congr (fun j hj => testBit_byteBlock fs m i q j hq hj) p k).mp hrun⟩
  · rintro ⟨q, hq, p, hrun⟩
    exact ⟨q, hq, p, (isRun_congr (fun j hj => testBit_byteBlock fs m i q j hq hj) p k).mpr hrun⟩

/-! ### The sift through one byte -/

/-- The position loop finds the first run of size `k` at or after `pos`. -/
theorem mapsearchPos_spec {blk k : Nat} (hblk : blk < 2 ^ fs.frag) (hk : 0 < k) (hk8 : k ≤ 8) :
    ∀ left pos : Nat, left + pos + k = fs.frag + 1 →
      match mapsearchPos (blk <<< 1) left pos (around k <<< pos) (inside k <<< pos) with
      | some p => IsRun blk.testBit fs.frag p k
      | none => ∀ p, pos ≤ p → ¬ IsRun blk.testBit fs.frag p k := by
  intro left
  induction left with
  | zero =>
      intro pos hleft
      rw [mapsearchPos]
      intro p hp hrun
      have := hrun.2.1
      omega
  | succ left ih =>
      intro pos hleft
      rw [mapsearchPos]
      have hmatch := fragMatch_iff hblk hk hk8 (show pos + k ≤ fs.frag from by omega)
      by_cases hm : fragMatch (blk <<< 1) (around k <<< pos) (inside k <<< pos) = true
      · rw [if_pos hm]
        exact hmatch.mp hm
      · -- both patterns move up by one position
        rw [if_neg hm, ← Nat.shiftLeft_add, ← Nat.shiftLeft_add]
        have hrec := ih (pos + 1) (by omega)
        revert hrec
        cases mapsearchPos (blk <<< 1) left (pos + 1) (around k <<< (pos + 1))
            (inside k <<< (pos + 1)) with
        | some p => exact id
        | none =>
            intro hrec p hp hrun
            by_cases hpos : p = pos
            · exact hm (hmatch.mpr (hpos ▸ hrun))
            · exact hrec p (by omega) hrun

/-- The block loop finds a run of size `k` in the blocks `b .. b + left - 1`
when there is one. -/
theorem mapsearchSift_spec (m : Bitmap) {k : Nat} (hk : 0 < k) (hkf : k ≤ fs.frag) :
    ∀ left b : Nat,
      (∃ q < left, ∃ p, IsRun (blkBits fs m (b + q)) fs.frag p k) →
      ∃ q < left, ∃ p, mapsearchSift fs m k left (b * fs.frag) = some ((b + q) * fs.frag + p) ∧
        IsRun (blkBits fs m (b + q)) fs.frag p k := by
  have hk8 : k ≤ 8 := Nat.le_trans hkf fs.fragOk.le.2
  intro left
  induction left with
  | zero => rintro b ⟨q, hq, -⟩; omega
  | succ left ih =>
      rintro b ⟨q, hq, p, hrun⟩
      have hpos := mapsearchPos_spec fs (blkmap_lt fs m (b * fs.frag)) hk hk8
        (fs.frag + 1 - k) 0 (by omega)
      rw [Nat.shiftLeft_zero, Nat.shiftLeft_zero] at hpos
      -- the shift moves the bits of block `b` to the bottom
      have hsame : ∀ p, IsRun (blkmap fs m (b * fs.frag)).testBit fs.frag p k
          ↔ IsRun (blkBits fs m b) fs.frag p k := fun p =>
        isRun_congr (fun j hj => testBit_blkmap fs m b j hj) p k
      rw [mapsearchSift]
      revert hpos
      cases mapsearchPos (blkmap fs m (b * fs.frag) <<< 1) (fs.frag + 1 - k) 0 (around k)
          (inside k) with
      | some p' =>
          intro hpos
          exact ⟨0, by omega, p', rfl, (hsame p').mp hpos⟩
      | none =>
          intro hpos
          -- No run in this block, so the one there is lies in a later block.
          have hq0 : q ≠ 0 := by
            rintro rfl
            exact hpos p (Nat.zero_le _) ((hsame p).mpr hrun)
          obtain ⟨q', hq', p', heq, hrun'⟩ := ih (b + 1) ⟨q - 1, by omega, p, by
            rwa [show b + 1 + (q - 1) = b + q from by omega]⟩
          refine ⟨q' + 1, by omega, p', ?_, ?_⟩
          · rw [show b + (q' + 1) = b + 1 + q' from by omega, ← heq]
            show mapsearchSift fs m k left (b * fs.frag + fs.frag) = _
            rw [Nat.add_mul, Nat.one_mul]
          · rwa [show b + (q' + 1) = b + 1 + q' from by omega]

/-! ### The search -/

/-- The byte where a scan from `start` over `len` bytes stops. -/
theorem scanc_hit (m : Bitmap) {k start len : Nat} (hk : 0 < k) (hkf : k ≤ fs.frag)
    (h : scanc m (fragtbl fs.frag) (fs.fragMask k) len start ≠ 0) :
    ByteOffers fs m (start + len - scanc m (fragtbl fs.frag) (fs.fragMask k) len start) k ∧
      start + len - scanc m (fragtbl fs.frag) (fs.fragMask k) len start < start + len := by
  rcases scanc_spec m (fragtbl fs.frag) (fs.fragMask k) len start with ⟨h0, -⟩ | ⟨j, hj, heq, hhit⟩
  · exact absurd h0 h
  · rw [heq, show start + len - (len - j) = start + j from by omega]
    exact ⟨(fragMask_iff fs m _ hk hkf).mp hhit, by omega⟩

/-- A scan that finds nothing has seen no byte with a run of size `k`. -/
theorem scanc_miss (m : Bitmap) {k start len : Nat} (hk : 0 < k) (hkf : k ≤ fs.frag)
    (h : scanc m (fragtbl fs.frag) (fs.fragMask k) len start = 0) :
    ∀ i, start ≤ i → i < start + len → ¬ ByteOffers fs m i k := by
  intro i hlo hhi hoff
  rcases scanc_spec m (fragtbl fs.frag) (fs.fragMask k) len start with ⟨-, hnone⟩ | ⟨j, hj, heq, -⟩
  · have hmiss := hnone (i - start) (by omega)
    rw [show start + (i - start) = i from by omega] at hmiss
    exact (fragMask_iff fs m i hk hkf).mpr hoff hmiss
  · omega

theorem mapBytes_bound {i : Nat} (hi : i < fs.mapBytes) : i * 8 < fs.fpg := by
  unfold Fs.mapBytes at hi
  omega

/-- When a byte of the map has a run of exactly `k` fragments, `ffs_mapsearch`
finds one. -/
theorem ffsMapsearch_spec (c : Cg) (bpref : Nat) {k : Nat} (hk : 0 < k) (hkf : k ≤ fs.frag)
    (hrotor : c.frotor < fs.fpg) {i₀ : Nat} (hi₀ : i₀ < fs.mapBytes)
    (hoff : ByteOffers fs c.blksfree i₀ k) :
    ∃ f b p, ffsMapsearch fs c bpref k = .ok (f, b * fs.frag + p) ∧
      f < fs.fpg ∧ b * fs.frag < fs.mapBytes * 8 ∧
      IsRun (blkBits fs c.blksfree b) fs.frag p k := by
  have hdvd := fs.fragOk.dvd
  have hfpg := fs.fpg_pos
  unfold ffsMapsearch
  generalize hstart : (if bpref ≠ 0 then fs.dtogd bpref / 8 else c.frotor / 8) = start
  have hlt : start < fs.mapBytes := by
    have hd : fs.dtogd bpref < fs.fpg := Nat.mod_lt _ hfpg
    unfold Fs.mapBytes
    rw [← hstart]
    split <;> omega
  -- Whichever scan finds something, `i` is the byte it found.
  have hfound : ∀ i, i < fs.mapBytes → ByteOffers fs c.blksfree i k →
      ∃ f b p, (match mapsearchSift fs c.blksfree k (8 / fs.frag) (i * 8) with
          | some bno => Except.ok (i * 8, bno)
          | none => Except.error Panic.blockNotInMap)
            = .ok (f, b * fs.frag + p) ∧
        f < fs.fpg ∧ b * fs.frag < fs.mapBytes * 8 ∧
        IsRun (blkBits fs c.blksfree b) fs.frag p k := by
    intro i hi hoffi
    obtain ⟨q, hq, p, heq, hrun⟩ :=
      mapsearchSift_spec fs c.blksfree hk hkf (8 / fs.frag) (i * (8 / fs.frag)) hoffi
    rw [Nat.mul_assoc, hdvd] at heq
    refine ⟨i * 8, i * (8 / fs.frag) + q, p, by rw [heq], mapBytes_bound fs hi, ?_, hrun⟩
    calc (i * (8 / fs.frag) + q) * fs.frag
        < (i * (8 / fs.frag) + 8 / fs.frag) * fs.frag :=
          Nat.mul_lt_mul_of_pos_right (by omega) fs.frag_pos
      _ = (i + 1) * 8 := by rw [Nat.add_mul, Nat.mul_assoc, hdvd]; ring
      _ ≤ fs.mapBytes * 8 := Nat.mul_le_mul_right _ hi
  by_cases h1 : scanc c.blksfree (fragtbl fs.frag) (fs.fragMask k) (fs.mapBytes - start) start = 0
  · -- Nothing from `start` on; the second scan goes up to and with `start`.
    have hmiss := scanc_miss fs c.blksfree hk hkf h1
    have h2 : scanc c.blksfree (fragtbl fs.frag) (fs.fragMask k) (start + 1) 0 ≠ 0 := by
      intro h2
      by_cases hs : start ≤ i₀
      · exact hmiss i₀ hs (by omega) hoff
      · exact scanc_miss fs c.blksfree hk hkf h2 i₀ (Nat.zero_le _) (by omega) hoff
    obtain ⟨hbyte, hbound⟩ := scanc_hit fs c.blksfree hk hkf h2
    simp only [if_pos h1, if_neg h2]
    exact hfound _ (by omega) hbyte
  · obtain ⟨hbyte, hbound⟩ := scanc_hit fs c.blksfree hk hkf h1
    simp only [if_neg h1]
    exact hfound _ (by omega) hbyte

/-- The byte of the free map at which `ffs_mapsearch` starts. -/
def searchStart (c : Cg) (bpref : Nat) : Nat := if bpref ≠ 0 then fs.dtogd bpref / 8 else c.frotor / 8

theorem scanc_le (cp : Bitmap) (table : List Nat) (mask size i : Nat) : scanc cp table mask size i ≤ size := by
  rcases scanc_spec cp table mask size i with ⟨h0, -⟩ | ⟨j, -, heq, -⟩
  · omega
  · omega

/-- The sift does not go back. -/
theorem mapsearchSift_ge (m : Bitmap) (k : Nat) : ∀ left bno x : Nat,
    mapsearchSift fs m k left bno = some x → bno ≤ x := by
  intro left
  induction left with
  | zero =>
      intro bno x h
      cases h
  | succ left ih =>
      intro bno x h
      rw [mapsearchSift] at h
      split at h
      case h_1 pos _ =>
        have hx : bno + pos = x := Option.some.inj h
        omega
      case h_2 =>
        have hrec := ih _ _ h
        omega

/-- A run at or after the byte of the preference keeps the search from wrapping around. -/
theorem ffsMapsearch_ge {c : Cg} {bpref k f x i : Nat} (hk : 0 < k) (hkf : k ≤ fs.frag)
    (hi : i < fs.mapBytes) (hle : searchStart fs c bpref ≤ i) (hoff : ByteOffers fs c.blksfree i k)
    (h : ffsMapsearch fs c bpref k = .ok (f, x)) : searchStart fs c bpref * 8 ≤ x := by
  unfold searchStart at hle ⊢
  unfold ffsMapsearch at h
  generalize (if bpref ≠ 0 then fs.dtogd bpref / 8 else c.frotor / 8) = start at h hle ⊢
  have hfirst : scanc c.blksfree (fragtbl fs.frag) (fs.fragMask k) (fs.mapBytes - start) start ≠ 0 := by
    intro h0
    exact scanc_miss fs c.blksfree hk hkf h0 i hle (by omega) hoff
  -- so the byte that is sifted is one of the first scan
  have hbound := (scanc_hit fs c.blksfree hk hkf hfirst).2
  simp only [if_neg hfirst] at h
  split at h
  case h_1 bno hsift =>
    have hge := mapsearchSift_ge fs _ _ _ _ _ hsift
    have hx : bno = x := congrArg Prod.snd (Except.ok.inj h)
    have hloc : scanc c.blksfree (fragtbl fs.frag) (fs.fragMask k) (fs.mapBytes - start) start
        ≤ fs.mapBytes - start := scanc_le ..
    omega
  case h_2 => cases h
end UfsX.Proofs
