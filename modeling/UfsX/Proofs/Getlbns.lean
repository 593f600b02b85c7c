import UfsX.Ufs.Getlbns
import UfsX.Proofs.Bmap

/-!
# `UfsX.Proofs.Getlbns`: `ufs_getlbns` computes the path

`getlbns_exact` is the whole statement: which block numbers are too large, which are direct,
and for the others the digits of the path. It is about `ufsGetlbns64`, so it also says that
no operation overflows; `ufsGetlbns64_eq` reduces it to the function on natural numbers.
-/

set_option autoImplicit false

namespace UfsX.Proofs.Getlbns

open UfsX.Lib UfsX.Ufs

variable {N : Nat}

/-! ### The sizes -/

/-- When `N ^ 3` is a 64-bit number, so are the numbers of all blocks. -/
theorem levelBase_lt (hrep : N ^ 3 < 2 ^ 63) : N < 2 ^ 21 ∧ levelBase N niaddr + 3 ≤ 2 ^ 63 := by
  have hN : N < 2 ^ 21 := by
    by_contra hge
    have hpow : (2 ^ 21) ^ 3 ≤ N ^ 3 := Nat.pow_le_pow_left (Nat.le_of_not_lt hge) 3
    have h63 : ((2 : Nat) ^ 21) ^ 3 = 2 ^ 63 := by norm_num
    omega
  have hle : N ≤ 2 ^ 21 - 1 := by omega
  have h2 : N ^ 2 ≤ (2 ^ 21 - 1) ^ 2 := Nat.pow_le_pow_left hle 2
  have h3 : N ^ 3 ≤ (2 ^ 21 - 1) ^ 3 := Nat.pow_le_pow_left hle 3
  refine ⟨hN, ?_⟩
  rw [levelBase_niaddr]
  unfold ndaddr
  norm_num at h2 h3 ⊢
  omega

/-! ### No operation overflows -/

theorem getlbnsLevel64_eq (hN : 0 < N) (i : Nat) : ∀ {blockcnt bn : Nat}, blockcnt * N ^ i < 2 ^ 63 → bn < 2 ^ 63 →
    getlbnsLevel64 N i blockcnt bn
      = some ((getlbnsLevel N i blockcnt bn).map fun r => (r.1, (r.2.1 : Int), (r.2.2 : Int))) := by
  induction i with
  | zero =>
      intro blockcnt bn _ _
      rfl
  | succ i ih =>
      intro blockcnt bn hcnt hbn
      have hpow : blockcnt * N ^ (i + 1) = blockcnt * N * N ^ i := by rw [Nat.pow_succ', Nat.mul_assoc]
      rw [hpow] at hcnt
      have hle : blockcnt * N ≤ blockcnt * N * N ^ i := Nat.le_mul_of_pos_right _ (Nat.pow_pos hN)
      have hmul : i64 ((blockcnt : Int) * N) = some ((blockcnt * N : Nat) : Int) := by
        rw [← Int.natCast_mul]
        exact i64_eq_some (by omega) (by omega)
      rw [getlbnsLevel64, hmul, getlbnsLevel]
      simp only [Option.bind_eq_bind, Option.bind_some, Nat.cast_lt]
      by_cases hlt : bn < blockcnt * N
      · rw [if_pos hlt, if_pos hlt]
        rfl
      · rw [if_neg hlt, if_neg hlt]
        have hsub : i64 ((bn : Int) - (blockcnt * N : Nat)) = some ((bn - blockcnt * N : Nat) : Int) := by
          rw [← Int.ofNat_sub (Nat.le_of_not_lt hlt)]
          exact i64_eq_some (by omega) (by omega)
        rw [hsub]
        exact ih hcnt (by omega)

/-- The path from the block of height `h` whose first data block is `first`. The data blocks
below it are block numbers, which bounds every number on the way. -/
theorem getlbnsPath64_eq {realbn : Int} {rel : Nat} (hrep : N ^ 3 < 2 ^ 63) (hN : 0 < N) (hrel : rel < 2 ^ 63)
    (h : Nat) (hh : h ≤ 3) : ∀ {first : Nat}, 0 < first → first + N ^ h ≤ levelBase N niaddr →
    getlbnsPath64 N realbn rel h (N ^ h : Nat) (metaLbn h first)
      = some (getlbnsPath N realbn rel h (N ^ h) (metaLbn h first)) := by
  obtain ⟨hN21, hbase⟩ := levelBase_lt hrep
  induction h with
  | zero =>
      intro first _ _
      rfl
  | succ h ih =>
      intro first hpos hfirst
      rw [getlbnsPath64, getlbnsPath]
      by_cases hend : metaLbn (h + 1) first = realbn
      · rw [if_pos hend, if_pos hend]
      rw [if_neg hend, if_neg hend]
      have hpow : N ^ (h + 1) = N ^ h * N := Nat.pow_succ N h
      have hdigit : rel / N ^ h % N < N := Nat.mod_lt _ hN
      have hskip : rel / N ^ h % N * N ^ h + N ^ h ≤ N ^ (h + 1) := by
        calc rel / N ^ h % N * N ^ h + N ^ h = (rel / N ^ h % N + 1) * N ^ h := by ring
          _ ≤ N * N ^ h := Nat.mul_le_mul_right _ hdigit
          _ = N ^ (h + 1) := by rw [hpow, Nat.mul_comm]
      have hdiv : N ^ (h + 1) / N = N ^ h := by rw [hpow, Nat.mul_div_cancel _ hN]
      have hquot : rel / N ^ h < 2 ^ 63 := Nat.lt_of_le_of_lt (Nat.div_le_self _ _) hrel
      have hnext : metaLbn (h + 1) first - (-1 + ((rel / N ^ h % N * N ^ h : Nat) : Int))
          = metaLbn h (first + rel / N ^ h % N * N ^ h) := by
        unfold metaLbn
        omega
      simp only [Option.bind_eq_bind]
      rw [div64_natCast hN (by omega), hdiv, Option.bind_some, div64_natCast (Nat.pow_pos hN) hrel, Option.bind_some,
        mod64_natCast hN hquot, Option.bind_some]
      generalize hoff : rel / N ^ h % N = off at hdigit hskip hnext
      rw [i32_eq_some (by omega) (by omega), Option.bind_some, ← Int.natCast_mul,
        i64_eq_some (by omega) (by omega), Option.bind_some, i64_eq_some (by omega) (by omega), Option.bind_some,
        hnext, i64_eq_some (by unfold metaLbn; omega) (by unfold metaLbn; omega), Option.bind_some,
        ih (by omega) (by omega) (by omega), Option.bind_some, Int.toNat_natCast]

theorem ufsGetlbns64_eq (hN : 0 < N) (hrep : N ^ 3 < 2 ^ 63) {bn : Nat} (hbn : bn < 2 ^ 63) :
    ufsGetlbns64 N bn = some (ufsGetlbns N bn) := by
  obtain ⟨hN21, hbase⟩ := levelBase_lt hrep
  have hneg : ¬ (bn : Int) < 0 := by omega
  have hcnt : 1 * N ^ niaddr < 2 ^ 63 := by rwa [Nat.one_mul]
  have hni : niaddr = 3 := rfl
  have hnd : ndaddr = 12 := rfl
  unfold ufsGetlbns64
  rw [if_neg hneg]
  simp only [Option.bind_eq_bind]
  rw [Option.bind_some]
  rcases level_cases N bn with hdir | ⟨l, rel, hl, hrel, rfl⟩ | hbig
  · rw [if_pos (by exact_mod_cast hdir), ufsGetlbns_direct hdir]
  · have hge := ndaddr_le_levelBase N l
    have hle : levelBase N l + N ^ (l + 1) ≤ levelBase N niaddr := levelBase_mono N hl
    have hdir : ¬ ((levelBase N l + rel : Nat) : Int) < ndaddr := by omega
    have hsub : ((levelBase N l + rel : Nat) : Int) - ndaddr = ((levelBase N l + rel - ndaddr : Nat) : Int) := by omega
    have hlevel := getlbnsLevel64_eq hN niaddr hcnt (show levelBase N l + rel - ndaddr < 2 ^ 63 by omega)
    rw [getlbnsLevel_level hl hrel, Nat.cast_one] at hlevel
    have hi : niaddr - (niaddr - l) = l := by omega
    have hmeta : -(((levelBase N l + rel : Nat) : Int) - rel + niaddr - (niaddr - l : Nat))
        = metaLbn (l + 1) (levelBase N l) := by
      unfold metaLbn
      omega
    rw [if_neg hdir, i64_eq_some (by omega) (by omega), Option.bind_some, hsub, hlevel, Option.bind_some]
    simp only [Option.map_some]
    rw [if_pos (Int.natCast_nonneg _), Option.bind_some, i64_eq_some (by omega) (by omega), Option.bind_some,
      i64_eq_some (by omega) (by omega), Option.bind_some, i64_eq_some (by omega) (by omega), Option.bind_some, hmeta,
      i64_eq_some (by unfold metaLbn; omega) (by unfold metaLbn; omega), Option.bind_some, hi,
      getlbnsPath64_eq hrep hN (by omega) _ (by omega) (by omega) hle, Option.bind_some, ufsGetlbns_level hl hrel]
  · have hge := ndaddr_le_levelBase N niaddr
    have hdir : ¬ (bn : Int) < ndaddr := by omega
    have hlevel := getlbnsLevel64_eq hN niaddr hcnt (show bn - ndaddr < 2 ^ 63 by omega)
    rw [getlbnsLevel_none hbig, Nat.cast_one] at hlevel
    have hsub : (bn : Int) - ndaddr = ((bn - ndaddr : Nat) : Int) := by omega
    rw [if_neg hdir, i64_eq_some (by omega) (by omega), Option.bind_some, hsub, hlevel, Option.bind_some,
      ufsGetlbns_efbig hbig]
    rfl

/-! ### The digits -/

/-- The slots of the path, from the block of height `h` down. -/
theorem getlbnsPath_offs {realbn : Int} (hN : 0 < N) (hneg : 0 ≤ realbn) (rel h : Nat) : ∀ {first : Nat}, 0 < first →
    (getlbnsPath N realbn rel h (N ^ h) (metaLbn h first)).map Indir.off
      = (List.range h).reverse.map fun j => rel / N ^ j % N := by
  induction h with
  | zero =>
      intro first _
      rfl
  | succ h ih =>
      intro first hpos
      have hne : metaLbn (h + 1) first ≠ realbn := by
        unfold metaLbn
        omega
      rw [getlbnsPath_succ hN rel h first hne, List.map_cons, ih (by omega), List.range_succ, List.reverse_append]
      rfl

/-- For every `N` whose cube is a 64-bit number and every block number that is not negative:
no operation of `ufs_getlbns` overflows or divides by 0; it refuses the numbers behind the
triple indirect block, has nothing to write for a direct block, and else writes the level
(`L` is the least one that reaches the block) and the digits of the block's place below it. -/
theorem getlbns_exact {N : Nat} (hN : 2 ≤ N) (hrep : N ^ 3 < 2 ^ 63) {bn : Nat} (hbn : bn < 2 ^ 63) :
    ∃ r, ufsGetlbns64 N bn = some r ∧ (r = .error .efbig ↔ 12 + N + N ^ 2 + N ^ 3 ≤ bn) ∧
      (r = .ok [] ↔ bn < 12) ∧
      (12 ≤ bn → bn < 12 + N + N ^ 2 + N ^ 3 →
        ∃ L path, r = .ok path ∧ L ≤ niaddr ∧ (∀ l < L, levelBase N l ≤ bn) ∧ bn < levelBase N L ∧
          path.length = L + 1 ∧
          path.map Indir.off = (L - 1) :: (List.range L).reverse.map fun j => (bn - levelBase N (L - 1)) / N ^ j % N) := by
  have hpos : 0 < N := by omega
  have hbase := levelBase_niaddr N
  have hmax : 12 + N + N ^ 2 + N ^ 3 = levelBase N niaddr := hbase.symm
  have hnd : ndaddr = 12 := rfl
  refine ⟨_, ufsGetlbns64_eq hpos hrep hbn, ?_⟩
  rw [hmax]
  rcases level_cases N bn with hdir | ⟨l, rel, hl, hrel, rfl⟩ | hbig
  · have hge := ndaddr_le_levelBase N niaddr
    rw [ufsGetlbns_direct hdir]
    exact ⟨iff_of_false (by simp) (by omega), iff_of_true rfl hdir, fun hlow _ => absurd hlow (Nat.not_le_of_lt hdir)⟩
  · have hge := ndaddr_le_levelBase N l
    have hle : levelBase N l + N ^ (l + 1) ≤ levelBase N niaddr := levelBase_mono N hl
    rw [ufsGetlbns_level hl hrel]
    refine ⟨iff_of_false (by simp) (by omega), iff_of_false (by simp) (by omega), fun _ _ => ?_⟩
    have hoffs : (getlbnsPath N (levelBase N l + rel : Nat) rel (l + 1) (N ^ (l + 1))
          (metaLbn (l + 1) (levelBase N l))).map Indir.off = (List.range (l + 1)).reverse.map fun j => rel / N ^ j % N :=
      getlbnsPath_offs hpos (Int.natCast_nonneg _) rel (l + 1) (by omega)
    refine ⟨l + 1, _, rfl, hl, fun k hk => ?_, ?_, ?_, ?_⟩
    · have hmono := levelBase_mono N (Nat.le_of_lt_succ hk)
      omega
    · show levelBase N l + rel < levelBase N l + N ^ (l + 1)
      omega
    · have hlen := congrArg List.length hoffs
      rw [List.length_map, List.length_map, List.length_reverse, List.length_range] at hlen
      rw [List.length_cons, hlen]
    · rw [List.map_cons, hoffs, Nat.add_sub_cancel, Nat.add_sub_cancel_left]
  · have hge := ndaddr_le_levelBase N niaddr
    rw [ufsGetlbns_efbig hbig]
    exact ⟨iff_of_true rfl hbig, iff_of_false (by simp) (by omega), fun _ hlt => absurd hbig (Nat.not_le_of_lt hlt)⟩

/-- The last block below the double indirect block, with four pointers in a block. -/
theorem getlbns_exact_four : ∃ path, ufsGetlbns64 4 31 = some (.ok path) ∧ path.length = 3 := by
  obtain ⟨r, hr, -, -, hpath⟩ := getlbns_exact (show 2 ≤ 4 by decide) (by decide) (show 31 < 2 ^ 63 by decide)
  obtain ⟨L, path, rfl, hL, hbelow, hlt, hlen, -⟩ := hpath (by decide) (by decide)
  have h2 : L = 2 := by
    unfold niaddr at hL
    rcases (by omega : L = 0 ∨ L = 1 ∨ L = 2 ∨ L = 3) with rfl | rfl | rfl | rfl
    · exact absurd hlt (by decide)
    · exact absurd hlt (by decide)
    · rfl
    · exact absurd (hbelow 2 (by decide)) (by decide)
  exact ⟨path, hr, by rw [hlen, h2]⟩

end UfsX.Proofs.Getlbns
