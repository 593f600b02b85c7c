import Mathlib.Order.Bounds.Basic
import Mathlib.Tactic.Linarith
import UfsX.Proofs.Bmap
import UfsX.Ufs.Seek

/-!
# `UfsX.Proofs.Seek`: where data and holes are found

`ufs_bmap_seekdata` is exact. Its loop moves from block `bn` to a block `next` only
when no block from `bn` up to `next` is allocated: `seekWalk_spec` says so of one walk
down a path, by induction on the height of the subtree, and `seekLoop_spec` of a run of the loop.

`ufs_bmap_seekhole` is not. Three things go wrong, and `seek_exact_iff` says of which
files none of them shows: the block number kept in 32 bits, the device block kept in 32
bits, and the errors of the block map, which leave the last answer standing.
-/

set_option autoImplicit false

namespace UfsX.Proofs.Seek

open UfsX.Lib UfsX.Ufs UfsX.Proofs
open UfsX.Ffs (Fs)

/-! ### `ufs_bmap_seekdata` -/

theorem lbnCount_eq (N level : Nat) : lbnCount N level = N ^ level := by
  induction level with
  | zero => rfl
  | succ level ih => rw [lbnCount, ih, Nat.pow_succ]

theorem seekBase_add (N num nextbn : Nat) : seekBase N num nextbn + ndaddr = nextbn + levelBase N num := by
  induction num generalizing nextbn with
  | zero => rfl
  | succ num ih =>
      have hbase : levelBase N (num + 1) = levelBase N num + N ^ (num + 1) := rfl
      rw [seekBase, ih, lbnCount_eq, hbase]
      omega

theorem seekBase_eq (N num : Nat) : seekBase N num ndaddr = levelBase N num := by
  have hadd := seekBase_add N num ndaddr
  omega

/-- The scan stops at the first pointer that is not zero, or behind the last slot. -/
theorem seekScan_spec (blk : Nat → Int) (left off : Nat) :
    off ≤ (seekScan blk left off).2 ∧ (seekScan blk left off).2 ≤ off + left ∧
      (∀ j, off ≤ j → j < (seekScan blk left off).2 → blk j = 0) ∧
      ((seekScan blk left off).2 < off + left →
        (seekScan blk left off).1 = blk (seekScan blk left off).2 ∧ blk (seekScan blk left off).2 ≠ 0) := by
  induction left generalizing off with
  | zero => exact ⟨Nat.le_refl _, Nat.le_refl _, fun j hj hlt => absurd hlt (Nat.not_lt.mpr hj), fun h => absurd h (Nat.lt_irrefl _)⟩
  | succ left ih =>
      rw [seekScan]
      by_cases hoff : blk off ≠ 0
      · rw [if_pos hoff]
        exact ⟨Nat.le_refl _, Nat.le_add_right _ _, fun j hj hlt => absurd hlt (Nat.not_lt.mpr hj), fun _ => ⟨rfl, hoff⟩⟩
      · rw [if_neg hoff]
        obtain ⟨hlo, hhi, hzero, hstop⟩ := ih (off + 1)
        refine ⟨by omega, by omega, fun j hj hlt => ?_, fun hlt => hstop (by omega)⟩
        rcases Nat.eq_or_lt_of_le hj with rfl | hj
        · exact not_not.mp hoff
        · exact hzero j hj hlt

section Walk

variable {N : Nat} {ind : Int → Int → Nat → Int}

/-- The path of a data block has one entry for every level. -/
theorem getlbnsPath_length {realbn : Int} (hN : 0 < N) (hreal : 0 ≤ realbn) (rel h : Nat) : ∀ {first : Nat}, 0 < first →
    (getlbnsPath N realbn rel h (N ^ h) (metaLbn h first)).length = h := by
  induction h with
  | zero => exact fun _ => rfl
  | succ h ih =>
      intro first hfirst
      rw [getlbnsPath_succ hN rel h first (by unfold metaLbn; omega), List.length_cons, ih (by omega)]

/-- A walk from the pointer of a subtree that is there. It finds leaf `rel`, or it comes
to a later block and no leaf on the way is allocated. The induction is on the height. -/
theorem seekWalk_spec (hN : 0 < N) {readindir : Int → Int → Except Errno (Nat → Int)}
    (hread : ∀ lbn daddr, daddr ≠ 0 → readindir lbn daddr = .ok (ind lbn daddr)) {bn : Int} (hbn : 0 ≤ bn)
    (rel h first : Nat) (hfirst : 0 < first) (daddr : Int) (hd : daddr ≠ 0) :
    let look := Radix.lookup N (fun h first => ind (metaLbn h first)) h first daddr
    ∃ num next, seekWalk N readindir daddr (getlbnsPath N bn rel h (N ^ h) (metaLbn h first)) first = .ok (num, next) ∧
      ((num = 0 ∧ next = first + rel % N ^ h ∧ look (rel % N ^ h) ≠ 0) ∨
        (num ≠ 0 ∧ first + rel % N ^ h < next ∧ next ≤ first + N ^ h ∧
          ∀ k, rel % N ^ h ≤ k → first + k < next → look k = 0)) := by
  intro look
  induction h generalizing first daddr with
  | zero =>
      refine ⟨0, first, rfl, .inl ⟨rfl, ?_, hd⟩⟩
      rw [Nat.pow_zero, Nat.mod_one, Nat.add_zero]
  | succ h ih =>
      have hpow : 0 < N ^ h := Nat.pow_pos hN
      have hsucc : N ^ (h + 1) = N * N ^ h := Nat.pow_succ'
      have hq : rel / N ^ h % N < N := Nat.mod_lt _ hN
      -- the leaf's slot in this block and its place below the slot
      have hrel : rel % N ^ (h + 1) = rel / N ^ h % N * N ^ h + rel % N ^ h := by
        rw [Nat.mul_comm, ← Radix.mod_pow_div, ← Radix.mod_pow_mod rel h]
        exact (Nat.div_add_mod _ _).symm
      have hlow : rel % N ^ h < N ^ h := Nat.mod_lt _ hpow
      have hlook (k : Nat) : look k = Radix.lookup N (fun h first => ind (metaLbn h first)) h
          (first + k / N ^ h * N ^ h) (ind (metaLbn (h + 1) first) daddr (k / N ^ h)) (k % N ^ h) :=
        Radix.lookup_succ hd h first k
      rw [getlbnsPath_succ hN rel h first (by unfold metaLbn; omega), seekWalk, if_neg hd, hread _ _ hd,
        getlbnsPath_length hN hbn rel h (by omega), lbnCount_eq, hrel]
      simp only
      obtain ⟨hge, hle, hzero, hstop⟩ := seekScan_spec (ind (metaLbn (h + 1) first) daddr)
        (N - rel / N ^ h % N) (rel / N ^ h % N)
      generalize seekScan (ind (metaLbn (h + 1) first) daddr) (N - rel / N ^ h % N) (rel / N ^ h % N) = s
        at hge hle hzero hstop
      clear hrel
      generalize rel / N ^ h % N = q at hq hge hle hzero hstop ⊢
      generalize rel % N ^ h = r at hlow ih ⊢
      by_cases hmove : s.2 ≠ q
      · rw [if_pos hmove]
        refine ⟨h + 1, _, rfl, .inr ⟨Nat.succ_ne_zero h, ?_, ?_, fun k hk hlt => ?_⟩⟩
        · have hmul : (q + 1) * N ^ h ≤ s.2 * N ^ h := Nat.mul_le_mul_right _ (by omega)
          rw [Nat.add_mul, Nat.one_mul] at hmul
          omega
        · have hmul : s.2 * N ^ h ≤ N * N ^ h := Nat.mul_le_mul_right _ (by omega)
          omega
        · have hslot : q ≤ k / N ^ h := (Nat.le_div_iff_mul_le hpow).mpr (by omega)
          have hslot' : k / N ^ h < s.2 := (Nat.div_lt_iff_lt_mul hpow).mpr (by omega)
          rw [hlook, hzero _ hslot hslot', Radix.lookup_null]
      · -- the slot itself is not empty, so the walk goes down
        have hs : s.2 = q := not_not.mp hmove
        rw [hs] at hstop
        obtain ⟨hval, hne⟩ := hstop (by omega)
        rw [if_neg hmove, hs, hval]
        obtain ⟨num, next, heq, hcases⟩ := ih (first + q * N ^ h) (by omega) _ hne
        refine ⟨num, next, heq, ?_⟩
        rcases hcases with ⟨hnum, hnext, hleaf⟩ | ⟨hnum, hlt, hend, hskip⟩
        · refine .inl ⟨hnum, by omega, ?_⟩
          have hdiv : (q * N ^ h + r) / N ^ h = q := (Nat.div_eq_iff hpow).mpr (by omega)
          have hmod : (q * N ^ h + r) % N ^ h = r := by
            rw [Nat.mul_comm, Nat.mul_add_mod, Nat.mod_eq_of_lt hlow]
          rw [hlook, hdiv, hmod]
          exact hleaf
        · have hmul : (q + 1) * N ^ h ≤ N * N ^ h := Nat.mul_le_mul_right _ hq
          rw [Nat.add_mul, Nat.one_mul] at hmul
          refine .inr ⟨hnum, by omega, by omega, fun k hk hk' => ?_⟩
          have hdiv : k / N ^ h = q := (Nat.div_eq_iff hpow).mpr (by omega)
          have hmod : k % N ^ h = k - q * N ^ h := by
            have := Nat.div_add_mod k (N ^ h)
            rw [hdiv, Nat.mul_comm] at this
            omega
          rw [hlook, hdiv, hmod]
          exact hskip _ (by omega) (by omega)

end Walk

section Loop

variable {N : Nat} {ind : Int → Int → Nat → Int} {ip : Inode} {readindir : Int → Int → Except Errno (Nat → Int)}
  {numblks : Nat}

/-- One round from a block behind the direct ones. -/
theorem seekLoop_level (hN : 0 < N) (hread : ∀ lbn daddr, daddr ≠ 0 → readindir lbn daddr = .ok (ind lbn daddr))
    {l rel : Nat} (hl : l < niaddr) (hrel : rel < N ^ (l + 1)) (hlt : levelBase N l + rel < numblks) :
    ((∀ fuel, seekLoop N readindir ip numblks (fuel + 1) (levelBase N l + rel) = some (.ok (levelBase N l + rel))) ∧
        bptr N ind ip (levelBase N l + rel) ≠ 0) ∨
      ∃ next, levelBase N l + rel < next ∧
        (∀ fuel, seekLoop N readindir ip numblks (fuel + 1) (levelBase N l + rel) =
          seekLoop N readindir ip numblks fuel next) ∧
        ∀ b, levelBase N l + rel ≤ b → b < next → bptr N ind ip b = 0 := by
  have hbase := ndaddr_le_levelBase N l
  have hfirst : 0 < levelBase N l := by
    unfold ndaddr at hbase
    omega
  have hbn : (0 : Int) ≤ (levelBase N l + rel : Nat) := Int.natCast_nonneg _
  have hlen := getlbnsPath_length hN hbn rel (l + 1) hfirst
  have hmod : rel % N ^ (l + 1) = rel := Nat.mod_eq_of_lt hrel
  -- a round from here, by the pointer of the level and by what the walk returns
  have hnull (hib : ip.ib l = 0) (fuel : Nat) : seekLoop N readindir ip numblks (fuel + 1) (levelBase N l + rel) =
      seekLoop N readindir ip numblks fuel (levelBase N l + N ^ (l + 1)) := by
    rw [seekLoop, if_neg (by omega), if_neg (by omega), ufsGetlbns_level hl hrel]
    simp only [hlen, Nat.add_sub_cancel, seekBase_eq, lbnCount_eq]
    rw [if_pos hib]
  have hwalk (hib : ip.ib l ≠ 0) (fuel num next : Nat)
      (heq : seekWalk N readindir (ip.ib l) (getlbnsPath N (levelBase N l + rel : Nat) rel (l + 1) (N ^ (l + 1))
        (metaLbn (l + 1) (levelBase N l))) (levelBase N l) = .ok (num, next)) :
      seekLoop N readindir ip numblks (fuel + 1) (levelBase N l + rel) =
        if num = 0 then some (.ok next) else seekLoop N readindir ip numblks fuel next := by
    rw [seekLoop, if_neg (by omega), if_neg (by omega), ufsGetlbns_level hl hrel]
    simp only [hlen, Nat.add_sub_cancel, seekBase_eq, lbnCount_eq]
    rw [if_neg hib, heq]
    cases num
    all_goals rfl
  by_cases hib : ip.ib l = 0
  · refine .inr ⟨levelBase N l + N ^ (l + 1), by omega, hnull hib, fun b hb hlt' => ?_⟩
    obtain ⟨rel', rfl⟩ : ∃ rel', b = levelBase N l + rel' := ⟨b - levelBase N l, by omega⟩
    rw [bptr_level hl (by omega), hib, Radix.lookup_null]
  · obtain ⟨num, next, heq, hcases⟩ := seekWalk_spec hN hread hbn rel (l + 1) (levelBase N l) hfirst (ip.ib l) hib
    rcases hcases with ⟨rfl, hnext, hleaf⟩ | ⟨hnum, hlt', hend, hskip⟩
    · rw [hmod] at hnext hleaf
      left
      rw [bptr_level hl hrel]
      exact ⟨fun fuel => by rw [hwalk hib fuel 0 next heq, if_pos rfl, hnext], hleaf⟩
    · rw [hmod] at hlt' hskip
      right
      refine ⟨next, hlt', fun fuel => by rw [hwalk hib fuel num next heq, if_neg (by omega)], fun b hb hb' => ?_⟩
      obtain ⟨rel', rfl⟩ : ∃ rel', b = levelBase N l + rel' := ⟨b - levelBase N l, by omega⟩
      rw [bptr_level hl (by omega)]
      exact hskip rel' (by omega) hb'

/-- A run of the loop ends, at the first allocated block below `numblks` or behind all
of them. Every round moves on, so `numblks - bn` rounds and one more are enough. -/
theorem seekLoop_spec (hN : 0 < N) (hread : ∀ lbn daddr, daddr ≠ 0 → readindir lbn daddr = .ok (ind lbn daddr))
    (hsize : numblks ≤ levelBase N niaddr) (bn : Nat) :
    ∃ b, (∀ fuel, numblks - bn < fuel → seekLoop N readindir ip numblks fuel bn = some (.ok b)) ∧ bn ≤ b ∧
      (∀ k, bn ≤ k → k < b → k < numblks → bptr N ind ip k = 0) ∧ (b < numblks → bptr N ind ip b ≠ 0) := by
  induction hleft : numblks - bn using Nat.strong_induction_on generalizing bn with
  | _ left ih =>
  subst hleft
  -- a round that ends the loop, and what a round that moves on leaves to show
  have hhere (hround : ∀ fuel, seekLoop N readindir ip numblks (fuel + 1) bn = some (.ok bn))
      (hfound : bn < numblks → bptr N ind ip bn ≠ 0) :
      ∃ b, (∀ fuel, numblks - bn < fuel → seekLoop N readindir ip numblks fuel bn = some (.ok b)) ∧ bn ≤ b ∧
        (∀ k, bn ≤ k → k < b → k < numblks → bptr N ind ip k = 0) ∧ (b < numblks → bptr N ind ip b ≠ 0) := by
    refine ⟨bn, fun fuel hfuel => ?_, Nat.le_refl bn, fun k hk hlt => absurd hlt (Nat.not_lt.mpr hk), hfound⟩
    obtain ⟨fuel, rfl⟩ : ∃ f, fuel = f + 1 := ⟨fuel - 1, by omega⟩
    exact hround fuel
  have hmove (next : Nat) (hlt : bn < next) (hbn : bn < numblks)
      (hround : ∀ fuel, seekLoop N readindir ip numblks (fuel + 1) bn = seekLoop N readindir ip numblks fuel next)
      (hskip : ∀ b, bn ≤ b → b < next → bptr N ind ip b = 0) :
      ∃ b, (∀ fuel, numblks - bn < fuel → seekLoop N readindir ip numblks fuel bn = some (.ok b)) ∧ bn ≤ b ∧
        (∀ k, bn ≤ k → k < b → k < numblks → bptr N ind ip k = 0) ∧ (b < numblks → bptr N ind ip b ≠ 0) := by
    obtain ⟨b, heq, hle, hnone, hfound⟩ := ih (numblks - next) (by omega) next rfl
    refine ⟨b, fun fuel hfuel => ?_, by omega, fun k hk hkb hkn => ?_, hfound⟩
    · obtain ⟨fuel, rfl⟩ : ∃ f, fuel = f + 1 := ⟨fuel - 1, by omega⟩
      exact (hround fuel).trans (heq fuel (by omega))
    · by_cases hkn' : k < next
      · exact hskip k hk hkn'
      · exact hnone k (by omega) hkb hkn
  by_cases hend : numblks ≤ bn
  · exact hhere (fun fuel => by rw [seekLoop, if_pos hend]) fun hlt => absurd hlt (Nat.not_lt.mpr hend)
  rcases level_cases N bn with hdir | ⟨l, rel, hl, hrel, rfl⟩ | hbig
  · have hptr : bptr N ind ip bn = ip.db bn := bptr_direct hdir
    by_cases hdb : ip.db bn ≠ 0
    · exact hhere (fun fuel => by rw [seekLoop, if_neg hend, if_pos hdir, if_pos hdb]) fun _ => hptr ▸ hdb
    · refine hmove (bn + 1) (Nat.lt_succ_self bn) (by omega)
        (fun fuel => by rw [seekLoop, if_neg hend, if_pos hdir, if_neg hdb]) fun b hb hlt => ?_
      obtain rfl : b = bn := by omega
      rw [hptr, not_not.mp hdb]
  · rcases seekLoop_level hN hread hl hrel (by omega : levelBase N l + rel < numblks) with
      ⟨hround, hleaf⟩ | ⟨next, hlt, hround, hskip⟩
    · exact hhere hround fun _ => hleaf
    · exact hmove next hlt (by omega) hround hskip
  · omega

end Loop

/-- Blocks of a file of `size` bytes, the `howmany` of the source. -/
def fileBlocks (fs : Fs) (size : Nat) : Nat := (size + (fs.bsize - 1)) / fs.bsize

theorem lt_fileBlocks_iff (fs : Fs) (size b : Nat) : b < fileBlocks fs size ↔ b * fs.bsize < size := by
  have hpos := bsize_pos fs
  rw [fileBlocks, ← Nat.succ_le_iff, Nat.le_div_iff_mul_le hpos, Nat.succ_mul]
  omega

/-- No byte of data from `off` on. -/
def NoData (fs : Fs) (ptr : Nat → Int) (size : Nat) (off : Int) : Prop :=
  off < 0 ∨ (size : Int) ≤ off ∨ ∀ b < fileBlocks fs size, off < ((b + 1) * fs.bsize : Nat) → ptr b = 0

/-- `ufs_bmap_seekdata` on a file comes to an end with what was asked for: `ENXIO` just when
there is no data from `off` on, and else the least offset of a byte of data. -/
def SeekdataExact (fs : Fs) (readindir : Int → Int → Except Errno (Nat → Int)) (ptr : Nat → Int) (ip : Inode) : Prop :=
  ∀ off : Int, ∃ r, (∀ fuel, fileBlocks fs ip.size < fuel → ufsBmapSeekdata fs readindir true ip fuel off = some r) ∧
    (r = .error .enxio ↔ NoData fs ptr ip.size off) ∧
    (¬ NoData fs ptr ip.size off → ∃ x : Nat, r = .ok (x : Int) ∧ IsLeast {y : Nat | off ≤ y ∧ ptr (y / fs.bsize) ≠ 0} x)

theorem seekdata_exact {fs : Fs} {ind : Int → Int → Nat → Int} {ip : Inode} (hsnap : ip.snapshot = false)
    {readindir : Int → Int → Except Errno (Nat → Int)}
    (hread : ∀ lbn daddr, daddr ≠ 0 → readindir lbn daddr = .ok (ind lbn daddr))
    (hsize : ip.size ≤ levelBase fs.nindir niaddr * fs.bsize) :
    SeekdataExact fs readindir (bptr fs.nindir ind ip) ip := by
  intro off
  have hpos := bsize_pos fs
  have hN : 0 < fs.nindir := Nat.lt_of_lt_of_le (by decide) fs.four_le_nindir
  have hblocks : fileBlocks fs ip.size ≤ levelBase fs.nindir niaddr := by
    by_contra hlt
    have := (lt_fileBlocks_iff fs ip.size _).mp (Nat.not_le.mp hlt)
    omega
  by_cases hout : off < 0 ∨ off ≥ ip.size
  · refine ⟨.error .enxio, fun fuel _ => ?_, ⟨fun _ => hout.imp_right .inl, fun _ => rfl⟩,
      fun hno => absurd (hout.imp_right .inl) hno⟩
    rw [ufsBmapSeekdata, if_neg (by simp [hsnap]), if_pos hout]
  obtain ⟨o, rfl⟩ : ∃ o : Nat, off = o := ⟨off.toNat, by omega⟩
  have hosize : o < ip.size := by omega
  have hdiv := Nat.div_add_mod o fs.bsize
  have hmod := Nat.mod_lt o hpos
  obtain ⟨b, heq, hle, hnone, hfound⟩ := @seekLoop_spec _ _ ip _ _ hN hread hblocks (o / fs.bsize)
  have hrun (fuel : Nat) (hfuel : fileBlocks fs ip.size < fuel) :
      ufsBmapSeekdata fs readindir true ip fuel o =
        if fileBlocks fs ip.size ≤ b then some (.error .enxio)
        else some (.ok (if (o : Int) < (b * fs.bsize : Nat) then ((b * fs.bsize : Nat) : Int) else o)) := by
    rw [ufsBmapSeekdata, if_neg (by simp [hsnap]), if_neg hout, Int.toNat_natCast]
    have hloop := heq fuel (Nat.lt_of_le_of_lt (Nat.sub_le _ _) hfuel)
    rw [fileBlocks] at hloop
    simp only [hloop]
    rfl
  by_cases hend : fileBlocks fs ip.size ≤ b
  · have hno : NoData fs (bptr fs.nindir ind ip) ip.size o := by
      refine .inr (.inr fun k hk hlt => ?_)
      have hok : o / fs.bsize < k + 1 := (Nat.div_lt_iff_lt_mul hpos).mpr (by exact_mod_cast hlt)
      exact hnone k (by omega) (by omega) hk
    refine ⟨_, fun fuel hfuel => (hrun fuel hfuel).trans (if_pos hend), ⟨fun _ => hno, fun _ => rfl⟩, fun h => absurd hno h⟩
  · have hlt : b < fileBlocks fs ip.size := Nat.not_le.mp hend
    have hb := hfound hlt
    have hyes : ¬ NoData fs (bptr fs.nindir ind ip) ip.size o := by
      rintro (h | h | h)
      · omega
      · omega
      · refine hb (h b hlt ?_)
        have : o < (b + 1) * fs.bsize := (Nat.div_lt_iff_lt_mul hpos).mp (by omega)
        exact_mod_cast this
    refine ⟨_, fun fuel hfuel => (hrun fuel hfuel).trans (if_neg hend), ⟨fun h => (by cases h), fun h => absurd h hyes⟩,
      fun _ => ⟨max o (b * fs.bsize), ?_, ?_, fun y hy => ?_⟩⟩
    · congr 1
      split <;> omega
    · -- the block `b` has the offset
      have hblk : max o (b * fs.bsize) / fs.bsize = b := by
        rcases Nat.le_total o (b * fs.bsize) with h | h
        · rw [Nat.max_eq_right h, Nat.mul_div_cancel _ hpos]
        · rw [Nat.max_eq_left h]
          have := (Nat.le_div_iff_mul_le hpos).mpr h
          omega
      rw [Set.mem_ofPred_eq, hblk]
      exact ⟨by omega, hb⟩
    · obtain ⟨hoy, hptr⟩ := hy
      have hge : b ≤ y / fs.bsize := by
        by_contra hlt'
        have hdivle : o / fs.bsize ≤ y / fs.bsize := Nat.div_le_div_right (by omega)
        exact hptr (hnone _ hdivle (by omega) (by omega))
      have := (Nat.le_div_iff_mul_le hpos).mp hge
      omega

/-! ### What a seek has to answer -/

section Right

variable (fs : Fs) (ptr : Nat → Int) (bm : Nat → Except Errno Int) (size : Nat) (cmd : SeekCmd)

/-- Offset `y` is what `cmd` looks for. The end of the file is a hole. -/
def Wanted (y : Nat) : Prop :=
  match cmd with
  | .data => y < size ∧ ptr (y / fs.bsize) ≠ 0
  | .hole => y = size ∨ (y < size ∧ ptr (y / fs.bsize) = 0)

/-- The block map answers for every block of the file that ends after `off` and starts before `x`. -/
def Answers (off : Int) (x : Nat) : Prop :=
  ∀ k < fileBlocks fs size, off < ((k + 1) * fs.bsize : Nat) → k * fs.bsize < x → ∃ v, bm k = .ok v

/-- The right answer to a seek from `off`: the first block that decides is one that the block map fails for,
and the error goes to the caller, or the one with the offset that was asked for. -/
def SeekRight (off : Int) (r : Except Errno Int) : Prop :=
  ((off < 0 ∨ size ≤ off) ∧ r = .error .enxio) ∨
    (0 ≤ off ∧ off < size ∧
      ((∃ b e, b < fileBlocks fs size ∧ off < ((b + 1) * fs.bsize : Nat) ∧ bm b = .error e ∧
          Answers fs bm size off (b * fs.bsize) ∧ (∀ y : Nat, off ≤ y → y < b * fs.bsize → ¬ Wanted fs ptr size cmd y) ∧
          r = .error e) ∨
        (∃ x : Nat, IsLeast {y : Nat | off ≤ y ∧ Wanted fs ptr size cmd y} x ∧ Answers fs bm size off (x + 1) ∧
          r = .ok (x : Int)) ∨
        ((∀ y : Nat, off ≤ y → ¬ Wanted fs ptr size cmd y) ∧ Answers fs bm size off size ∧ r = .error .enxio)))

/-- Block `k` is of the kind that `cmd` looks for. -/
def BlockWanted (k : Nat) : Prop :=
  match cmd with
  | .data => ptr k ≠ 0
  | .hole => ptr k = 0

end Right

section Answer

variable {fs : Fs} {ptr : Nat → Int} {bm : Nat → Except Errno Int} {size : Nat} {cmd : SeekCmd} {o b : Nat}

theorem Wanted.cases {y : Nat} (h : Wanted fs ptr size cmd y) :
    (y < size ∧ BlockWanted ptr cmd (y / fs.bsize)) ∨ (y = size ∧ cmd = .hole) := by
  cases cmd with
  | data => exact .inl h
  | hole => exact h.symm.imp id fun hy => ⟨hy, rfl⟩

theorem wanted_of_block {y : Nat} (hy : y < size) (h : BlockWanted ptr cmd (y / fs.bsize)) : Wanted fs ptr size cmd y := by
  cases cmd with
  | data => exact ⟨hy, h⟩
  | hole => exact .inr ⟨hy, h⟩

/-- The first offset from `o` on in a block behind that of `o`, or in the same. -/
theorem max_div (hb : o / fs.bsize ≤ b) : max o (b * fs.bsize) / fs.bsize = b := by
  have hpos := bsize_pos fs
  rcases Nat.le_total o (b * fs.bsize) with h | h
  · rw [Nat.max_eq_right h, Nat.mul_div_cancel _ hpos]
  · rw [Nat.max_eq_left h]
    exact Nat.le_antisymm hb ((Nat.le_div_iff_mul_le hpos).mpr h)

/-- No wanted offset lies in blocks of the other kind. -/
theorem not_wanted (hnone : ∀ k, o / fs.bsize ≤ k → k < b → ¬ BlockWanted ptr cmd k) (hb : b ≤ fileBlocks fs size) {y : Nat}
    (hoy : o ≤ y) (hyb : y < b * fs.bsize) (hsize : y < size ∨ cmd = .data) : ¬ Wanted fs ptr size cmd y := by
  intro hw
  have hpos := bsize_pos fs
  rcases hw.cases with ⟨-, hblk⟩ | ⟨rfl, rfl⟩
  · exact hnone _ (Nat.div_le_div_right hoy) ((Nat.div_lt_iff_lt_mul hpos).mpr hyb) hblk
  · rcases hsize with h | h
    · exact Nat.lt_irrefl _ h
    · cases h

/-- The first block of the kind, from that of `o` on, has the least offset. -/
theorem isLeast_block (hsize : o < size) (hob : o / fs.bsize ≤ b) (hb : b < fileBlocks fs size)
    (hnone : ∀ k, o / fs.bsize ≤ k → k < b → ¬ BlockWanted ptr cmd k) (hwant : BlockWanted ptr cmd b) :
    IsLeast {y : Nat | (o : Int) ≤ y ∧ Wanted fs ptr size cmd y} (max o (b * fs.bsize)) := by
  have hbsize := (lt_fileBlocks_iff fs size b).mp hb
  refine ⟨⟨by omega, wanted_of_block (by omega) (by rwa [max_div hob])⟩, fun y hy => ?_⟩
  obtain ⟨hoy, hw⟩ := hy
  by_contra hlt
  exact not_wanted hnone hb.le (by exact_mod_cast hoy) (by omega) (.inl (by omega)) hw

/-- Without such a block a hole is found at the end of the file. -/
theorem isLeast_size (hsize : o < size) (hnone : ∀ k, o / fs.bsize ≤ k → k < fileBlocks fs size → ptr k ≠ 0) :
    IsLeast {y : Nat | (o : Int) ≤ y ∧ Wanted fs ptr size .hole y} size := by
  refine ⟨⟨by omega, .inl rfl⟩, fun y hy => ?_⟩
  obtain ⟨hoy, hw⟩ := hy
  by_contra hlt
  have hpos := bsize_pos fs
  have hend : size ≤ fileBlocks fs size * fs.bsize := Nat.not_lt.mp fun h =>
    Nat.lt_irrefl _ ((lt_fileBlocks_iff fs size _).mpr h)
  exact not_wanted (b := fileBlocks fs size) hnone (Nat.le_refl _) (by exact_mod_cast hoy) (by omega) (.inl (by omega)) hw

/-- The least wanted offset is the only right answer when the block map answers up to it. -/
theorem SeekRight.of_least {r : Except Errno Int} (h : SeekRight fs ptr bm size cmd o r) (hsize : o < size) {x : Nat}
    (hx : IsLeast {y : Nat | (o : Int) ≤ y ∧ Wanted fs ptr size cmd y} x) (hans : Answers fs bm size o (x + 1)) :
    r = .ok (x : Int) := by
  rcases h with ⟨hout, -⟩ | ⟨-, -, ⟨b, e, hb, hob, hfail, -, hbefore, -⟩ | ⟨x', hx', -, rfl⟩ | ⟨hno, -⟩⟩
  · omega
  · by_cases hle : b * fs.bsize ≤ x
    · obtain ⟨v, hv⟩ := hans b hb hob (by omega)
      rw [hfail] at hv
      cases hv
    · exact absurd hx.1.2 (hbefore x hx.1.1 (by omega))
  · rw [hx.unique hx']
  · exact absurd hx.1.2 (hno x hx.1.1)

/-- An error for the block of `o` itself is the only right answer. -/
theorem SeekRight.of_error {r : Except Errno Int} (h : SeekRight fs ptr bm size cmd o r) (hsize : o < size) {e : Errno}
    (hfail : bm (o / fs.bsize) = .error e) : r = .error e := by
  have hpos := bsize_pos fs
  have hmul := Nat.div_mul_le_self o fs.bsize
  have hin : o / fs.bsize < fileBlocks fs size := (lt_fileBlocks_iff fs size _).mpr (by omega)
  have hend : o < (o / fs.bsize + 1) * fs.bsize := (Nat.div_lt_iff_lt_mul hpos).mp (Nat.lt_succ_self _)
  have hno {x : Nat} (hx : o / fs.bsize * fs.bsize < x) : ¬ Answers fs bm size o x := by
    intro hans
    obtain ⟨v, hv⟩ := hans _ hin (by exact_mod_cast hend) hx
    rw [hfail] at hv
    cases hv
  rcases h with ⟨hout, -⟩ | ⟨-, -, ⟨b, e', hb, hob, hfail', hans, -, rfl⟩ | ⟨x, hx, hans, -⟩ | ⟨-, hans, -⟩⟩
  · omega
  · -- the block that failed is that of `o`: an earlier one ends before, and `hans` excludes a later one
    have hge : o / fs.bsize ≤ b := by
      have : o / fs.bsize < b + 1 := (Nat.div_lt_iff_lt_mul hpos).mpr (by exact_mod_cast hob)
      omega
    rcases Nat.eq_or_lt_of_le hge with rfl | hlt
    · rw [hfail] at hfail'
      rw [Except.error.inj hfail']
    · exact absurd hans (hno (Nat.mul_lt_mul_of_pos_right hlt hpos))
  · have hox := hx.1.1
    exact absurd hans (hno (by omega))
  · exact absurd hans (hno (by omega))

end Answer

/-! ### The loop of `ufs_bmap_seekhole`, block by block -/

/-- The loop with the block map's answers by block, and with the offset `rep b` that is
reported for block `b`. -/
def blockScan (cmd : SeekCmd) (bm : Nat → Except Errno Int) (rep : Nat → Int) (size : Nat) :
    Nat → Nat → Int → Option Errno → Except Errno Int
  | 0, _, _, error => if cmd = .data then .error .enxio else seekFound error size
  | n + 1, b, bnp, _ =>
      let (error, bnp) :=
        match bm b with
        | .error e => (some e, bnp)
        | .ok blkno => (none, toI32 blkno)
      if error = some .eopnotsupp then .error .enotty
      else if (bnp = -1 ∧ cmd = .hole) ∨ (bnp ≠ -1 ∧ cmd = .data) then seekFound error (rep b)
      else blockScan cmd bm rep size n (b + 1) bnp error

section Numbers

variable (fs : Fs) (o : Nat)

/-- The 32-bit number of block `b` in a seek from `o`. -/
def seekIndex (b : Nat) : Int := toI32 (toI32 o / fs.bsize + ((b : Int) - (o / fs.bsize : Nat)))

/-- The offset reported for block `b` in a seek from `o`. -/
def seekReport (b : Nat) : Int :=
  if toI64 (seekIndex fs o b * fs.bsize) < o then (o : Int) else toI64 (seekIndex fs o b * fs.bsize)

/-- The block size divides the modulus of 32-bit numbers. -/
theorem bsize_dvd : fs.bsize ≤ 2 ^ 20 ∧ ∃ c : Nat, (2 : Int) ^ 32 = fs.bsize * c := by
  have hle := fs.bshift_le
  refine ⟨Nat.pow_le_pow_right (by decide) hle, 2 ^ (32 - (fs.fshift + fs.fragshift)), ?_⟩
  rw [Fs.bsize]
  push_cast
  rw [← pow_add, Nat.add_sub_cancel' (by omega)]
  rfl

/-- The first block number that the loop starts with. -/
theorem seekIndex_first : toI32 (toU64 (toI32 o) / fs.bsize) = seekIndex fs o (o / fs.bsize) := by
  obtain ⟨hbsize, c, hc⟩ := bsize_dvd fs
  have hpos := bsize_pos fs
  obtain ⟨hlo, hhi⟩ := toI32_bounds o
  rw [seekIndex, Int.sub_self, Int.add_zero]
  generalize toI32 (o : Int) = t at hlo hhi
  rcases Int.lt_or_le t 0 with hneg | hnonneg
  · have h64 : (fs.bsize : Int) * (c * (2 ^ 32 : Nat)) = 2 ^ 64 := by
      rw [← Int.mul_assoc, ← hc]
      norm_num
    have hu : toU64 t = t + fs.bsize * (c * (2 ^ 32 : Nat)) := by
      rw [h64]
      unfold toU64
      omega
    rw [hu, Int.add_mul_ediv_left _ _ (by omega)]
    exact Int.add_mul_bmod_self_right _ _ _
  · rw [toU64_eq_self hnonneg (by omega)]

/-- One block on, the number grows by one and is cut to 32 bits again. -/
theorem seekIndex_succ (b : Nat) : toI32 (seekIndex fs o b + 1) = seekIndex fs o (b + 1) := by
  have hnext : toI32 o / fs.bsize + ((b : Int) - (o / fs.bsize : Nat)) + 1 =
      toI32 o / fs.bsize + (((b + 1 : Nat) : Int) - (o / fs.bsize : Nat)) := by omega
  rw [seekIndex, seekIndex, ← hnext]
  exact Int.bmod_add_bmod

/-- What the conversion to 32 bits cuts off. -/
theorem exists_toI32 (x : Int) : ∃ m, x = toI32 x + 2 ^ 32 * m := by
  refine ⟨(x + 2 ^ 31) / 2 ^ 32, ?_⟩
  unfold toI32
  rw [Int.bmod_def]
  split <;> omega

/-- A 32-bit offset in blocks has 32 bits. -/
theorem toI32_ediv_bounds : -2 ^ 31 ≤ toI32 o / fs.bsize ∧ toI32 o / fs.bsize < 2 ^ 31 := by
  have hpos := bsize_pos fs
  obtain ⟨hlo, hhi⟩ := toI32_bounds o
  exact ⟨Int.le_ediv_of_mul_le (by omega) (by omega), Int.ediv_lt_of_lt_mul (by omega) (by omega)⟩

/-- A 32-bit block number in bytes fits into an offset. -/
theorem toI64_seekIndex_mul (b : Nat) : toI64 (seekIndex fs o b * fs.bsize) = seekIndex fs o b * fs.bsize := by
  obtain ⟨hlo, hhi⟩ := toI32_bounds (toI32 o / fs.bsize + ((b : Int) - (o / fs.bsize : Nat)))
  rw [← seekIndex] at hlo hhi
  have hbsize : (fs.bsize : Int) ≤ 2 ^ 20 := by exact_mod_cast (bsize_dvd fs).1
  have h0 : (0 : Int) ≤ fs.bsize := Int.natCast_nonneg _
  exact toI64_eq_self (by nlinarith) (by nlinarith)

/-- The block of `o` itself is reported with `o`, whatever its number is cut to. -/
theorem seekReport_self : seekReport fs o (o / fs.bsize) = o := by
  have hpos := bsize_pos fs
  obtain ⟨hlo, hhi⟩ := toI32_ediv_bounds fs o
  have hindex : seekIndex fs o (o / fs.bsize) = toI32 o / fs.bsize := by
    rw [seekIndex, Int.sub_self, Int.add_zero, toI32_eq_self hlo hhi]
  have hle : toI32 o ≤ o := by
    unfold toI32
    rw [Int.bmod_def]
    split <;> omega
  have hmul : toI32 o / fs.bsize * fs.bsize ≤ toI32 o := Int.ediv_mul_le _ (by omega)
  rw [seekReport, toI64_seekIndex_mul, hindex]
  split <;> omega

/-- In the first 2^31 bytes, and at less than 2^31 blocks, nothing is cut off. -/
theorem seekReport_small {b : Nat} (ho : o < 2 ^ 31) (hb : b < 2 ^ 31) (hle : o ≤ b * fs.bsize) :
    seekReport fs o b = (b * fs.bsize : Nat) := by
  have hoff : toI32 (o : Int) = o := toI32_eq_self (by omega) (by omega)
  have hindex : seekIndex fs o b = b := by
    rw [seekIndex, hoff, ← Int.natCast_ediv, add_sub_cancel]
    exact toI32_eq_self (by omega) (by omega)
  rw [seekReport, toI64_seekIndex_mul, hindex]
  push_cast
  rw [if_neg]
  exact Int.not_lt.mpr (by exact_mod_cast hle)

/-- Only then is a later block reported where it starts. -/
theorem of_seekReport_eq {b : Nat} (hlt : o < b * fs.bsize) (h : seekReport fs o b = (b * fs.bsize : Nat)) :
    o < 2 ^ 31 ∧ b < 2 ^ 31 := by
  have hpos := bsize_pos fs
  obtain ⟨-, c, hc⟩ := bsize_dvd fs
  obtain ⟨hlo, hhi⟩ := toI32_ediv_bounds fs o
  obtain ⟨hlo', hhi'⟩ := toI32_bounds o
  have hlast : o / fs.bsize < b := (Nat.div_lt_iff_lt_mul hpos).mpr hlt
  rw [seekReport, toI64_seekIndex_mul] at h
  have hindex : seekIndex fs o b = b := by
    split at h
    · omega
    · push_cast at h
      exact Int.eq_of_mul_eq_mul_right (by omega) h
  obtain ⟨hblo, hbhi⟩ := toI32_bounds (toI32 o / fs.bsize + ((b : Int) - (o / fs.bsize : Nat)))
  rw [← seekIndex, hindex] at hbhi
  -- what was cut off the offset, in units of 2^32 bytes and in blocks
  obtain ⟨m, hm⟩ := exists_toI32 o
  have hdiv : ((o / fs.bsize : Nat) : Int) = toI32 o / fs.bsize + c * m := by
    rw [Int.natCast_ediv, hm, hc, Int.mul_assoc, Int.add_mul_ediv_left _ _ (by omega), ← Int.mul_assoc, ← hc, ← hm]
  obtain ⟨k, hk⟩ := exists_toI32 (toI32 o / fs.bsize + ((b : Int) - (o / fs.bsize : Nat)))
  rw [← seekIndex, hindex] at hk
  have hcm : (c : Int) * m = 0 := by
    generalize (c : Int) * m = cm at hdiv
    generalize o / fs.bsize = q at hlast hdiv hk
    omega
  have hm0 : (2 : Int) ^ 32 * m = 0 := by rw [hc, Int.mul_assoc, hcm, Int.mul_zero]
  omega

end Numbers

/-- The loop is the scan by block. In block `b` the offset is that of the seek, or the start of the block. -/
theorem seekholeLoop_eq {fs : Fs} {bmap : Int → Except Errno Int} {bm : Nat → Except Errno Int} {cmd : SeekCmd}
    {size o : Nat} (hbm : ∀ noff : Nat, bmap noff = bm (noff / fs.bsize)) (n : Nat) :
    ∀ {b noff fuel : Nat} (bnp : Int) (error : Option Errno), fileBlocks fs size - b = n → noff / fs.bsize = b →
      (noff < size ↔ b < fileBlocks fs size) → n < fuel →
      seekholeLoop bmap cmd fs.bsize size o fuel noff (seekIndex fs o b) bnp error =
        some (blockScan cmd bm (seekReport fs o) size n b bnp error) := by
  have hpos := bsize_pos fs
  induction n with
  | zero =>
      intro b noff fuel bnp error hn hdiv hend hfuel
      obtain ⟨fuel, rfl⟩ : ∃ f, fuel = f + 1 := ⟨fuel - 1, by omega⟩
      have hout : ¬ noff < size := fun h => by
        have := hend.mp h
        omega
      rw [seekholeLoop, if_neg (by exact_mod_cast hout), blockScan]
      split
      · rfl
      · congr 2
        split <;> omega
  | succ n ih =>
      intro b noff fuel bnp error hn hdiv hend hfuel
      obtain ⟨fuel, rfl⟩ : ∃ f, fuel = f + 1 := ⟨fuel - 1, by omega⟩
      have hin : noff < size := hend.mpr (by omega)
      -- the next offset is the start of the next block
      have hnext : (noff : Int) + (fs.bsize - noff % fs.bsize) = ((b + 1) * fs.bsize : Nat) := by
        have hmod := Nat.div_add_mod noff fs.bsize
        rw [hdiv] at hmod
        rw [Nat.add_mul, Nat.one_mul, Nat.mul_comm b]
        push_cast
        omega
      rw [seekholeLoop, if_pos (by exact_mod_cast hin), hbm, hdiv, blockScan]
      simp only [seekIndex_succ, hnext]
      have hrec (bnp : Int) (error : Option Errno) := @ih (b + 1) ((b + 1) * fs.bsize) fuel bnp error
        (by omega) (Nat.mul_div_cancel _ hpos) (lt_fileBlocks_iff fs size (b + 1)).symm (by omega)
      cases bm b with
      | error e =>
          simp only
          split
          · rfl
          · split
            · rfl
            · exact hrec bnp (some e)
      | ok v =>
          simp only
          split
          · rfl
          · split
            · rfl
            · exact hrec (toI32 v) none

section Rounds

variable {bm : Nat → Except Errno Int} {cmd : SeekCmd} {rep : Nat → Int} {size n b : Nat} {bnp : Int} {error : Option Errno}

theorem blockScan_ok {v : Int} (h : bm b = .ok v) :
    blockScan cmd bm rep size (n + 1) b bnp error =
      if (toI32 v = -1 ∧ cmd = .hole) ∨ (toI32 v ≠ -1 ∧ cmd = .data) then .ok (rep b)
      else blockScan cmd bm rep size n (b + 1) (toI32 v) none := by
  rw [blockScan, h]
  simp only [seekFound, reduceCtorEq, if_false]

theorem blockScan_error {e : Errno} (h : bm b = .error e) (hne : e ≠ .eopnotsupp) :
    blockScan cmd bm rep size (n + 1) b bnp error =
      if (bnp = -1 ∧ cmd = .hole) ∨ (bnp ≠ -1 ∧ cmd = .data) then .error e
      else blockScan cmd bm rep size n (b + 1) bnp (some e) := by
  rw [blockScan, h]
  simp only [seekFound, Option.some.injEq, if_neg hne]

/-- Where the block map fails with `ENXIO` up to the end, this is the result, whatever `bnp` is. -/
theorem blockScan_enxio (hfail : ∀ k, b ≤ k → k < b + n → bm k = .error .enxio) (bnp : Int) :
    blockScan cmd bm rep size n b bnp (some .enxio) = .error .enxio := by
  induction n generalizing b bnp with
  | zero =>
      rw [blockScan]
      split <;> rfl
  | succ n ih =>
      rw [blockScan_error (hfail b (Nat.le_refl b) (by omega)) (by decide)]
      split
      · rfl
      · exact ih (fun k hk hlt => hfail k (by omega) (by omega)) bnp

/-- A search for data that starts with `bnp` at -1 never reports an error of the block map. -/
theorem blockScan_data (hno : ∀ k, b ≤ k → k < b + n → bm k ≠ .error .eopnotsupp) (error : Option Errno) :
    blockScan .data bm rep size n b (-1) error = .error .enxio ∨ ∃ x, blockScan .data bm rep size n b (-1) error = .ok x := by
  induction n generalizing b error with
  | zero => exact .inl rfl
  | succ n ih =>
      have hrec := fun error => @ih (b + 1) (fun k hk hlt => hno k (by omega) (by omega)) error
      cases hb : bm b with
      | error e =>
          have hne : e ≠ .eopnotsupp := fun h => hno b (Nat.le_refl b) (by omega) (h ▸ hb)
          rw [blockScan_error hb hne, if_neg (by simp)]
          exact hrec (some e)
      | ok v =>
          rw [blockScan_ok hb]
          by_cases hv : toI32 v = -1
          · rw [if_neg (by simp [hv]), hv]
            exact hrec none
          · rw [if_pos (.inr ⟨hv, rfl⟩)]
            exact .inr ⟨_, rfl⟩

/-- Failing blocks are passed over as long as `bnp` is not what is looked for. -/
theorem blockScan_pass {j : Nat} (hfail : ∀ k, b ≤ k → k < b + j → ∃ e, bm k = .error e ∧ e ≠ .eopnotsupp)
    (hbnp : ¬ ((bnp = -1 ∧ cmd = .hole) ∨ (bnp ≠ -1 ∧ cmd = .data))) (error : Option Errno) :
    ∃ error', blockScan cmd bm rep size (n + j) b bnp error = blockScan cmd bm rep size n (b + j) bnp error' := by
  induction j generalizing b error with
  | zero => exact ⟨error, rfl⟩
  | succ j ih =>
      obtain ⟨e, hb, hne⟩ := hfail b (Nat.le_refl b) (by omega)
      obtain ⟨error', heq⟩ := @ih (b + 1) (fun k hk hlt => hfail k (by omega) (by omega)) (some e)
      refine ⟨error', ?_⟩
      rw [← Nat.add_assoc, blockScan_error hb hne, if_neg hbnp, heq, Nat.add_right_comm b 1 j, Nat.add_assoc]

end Rounds

/-! ### When `ufs_bmap_seekhole` is right -/

/-- The files on which `ufs_bmap_seekhole` is right: data and holes only alternate in the first 2^31 bytes,
no device block of data ends in 32 bits that are all set, and the block map does not fail, except that it may
fail with `ENXIO` from some block on. -/
structure SeekSafe (fs : Fs) (ptr : Nat → Int) (bm : Nat → Except Errno Int) (size : Nat) : Prop where
  change : ∀ b, b + 1 < fileBlocks fs size → (∃ v, bm b = .ok v) → (∃ v, bm (b + 1) = .ok v) →
    ¬ (ptr b = 0 ↔ ptr (b + 1) = 0) → (b + 1) * fs.bsize ≤ 2 ^ 31
  address : ∀ b < fileBlocks fs size, ∀ v, bm b = .ok v → ptr b ≠ 0 → toI32 v ≠ -1
  error : ∀ b < fileBlocks fs size, ∀ e, bm b = .error e → ∀ k, b ≤ k → k < fileBlocks fs size → bm k = .error .enxio

section Safe

variable {fs : Fs} {ptr : Nat → Int} {bm : Nat → Except Errno Int} {size : Nat} {cmd : SeekCmd} {o : Nat}

/-- The 32-bit test finds the blocks of the kind looked for. -/
theorem SeekSafe.hit_iff (h : SeekSafe fs ptr bm size) (hmap : ∀ b v, bm b = .ok v → ptr b = 0 → v = -1) {b : Nat}
    (hb : b < fileBlocks fs size) {v : Int} (hv : bm b = .ok v) :
    ((toI32 v = -1 ∧ cmd = .hole) ∨ (toI32 v ≠ -1 ∧ cmd = .data)) ↔ BlockWanted ptr cmd b := by
  have hzero : toI32 v = -1 ↔ ptr b = 0 := by
    constructor
    · intro hneg
      by_contra hne
      exact h.address b hb v hv hne hneg
    · intro h0
      rw [hmap b v hv h0]
      rfl
  cases cmd <;> simp [BlockWanted, hzero]

/-- The offset reported for the first block of the kind is right. -/
theorem SeekSafe.report (h : SeekSafe fs ptr bm size) {b : Nat} (hb : b < fileBlocks fs size) (hob : o / fs.bsize ≤ b)
    {v : Int} (hv : bm b = .ok v)
    (hbefore : ∀ k, o / fs.bsize ≤ k → k < b → (∃ v, bm k = .ok v) ∧ ¬ BlockWanted ptr cmd k)
    (hwant : BlockWanted ptr cmd b) : seekReport fs o b = (max o (b * fs.bsize) : Nat) := by
  have hpos := bsize_pos fs
  rcases Nat.eq_or_lt_of_le hob with rfl | hlt
  · rw [seekReport_self, Nat.max_eq_left (Nat.div_mul_le_self o fs.bsize)]
  · have holt : o < b * fs.bsize := (Nat.div_lt_iff_lt_mul hpos).mp hlt
    have hb0 : 0 < b := Nat.zero_lt_of_lt hlt
    obtain ⟨p, rfl⟩ : ∃ p, b = p + 1 := ⟨b - 1, by omega⟩
    obtain ⟨hok, hnot⟩ := hbefore p (by omega) (Nat.lt_succ_self p)
    have hle := h.change p hb hok ⟨v, hv⟩ fun hiff => hnot (by cases cmd <;> simp_all [BlockWanted])
    have htwo : 2 ≤ fs.bsize := by
      have hn := fs.four_le_nindir
      have hle' : 4 * fs.nindir ≤ fs.bsize := fs.nindir_le
      omega
    have hsmall : (p + 1) * 2 ≤ (p + 1) * fs.bsize := Nat.mul_le_mul_left _ htwo
    rw [seekReport_small fs o (by omega) (by omega) holt.le, Nat.max_eq_right holt.le]

/-- From a block that no earlier one decided, the scan comes to the right answer. -/
theorem SeekSafe.scan (h : SeekSafe fs ptr bm size) (hmap : ∀ b v, bm b = .ok v → ptr b = 0 → v = -1) (ho : o < size)
    (n : Nat) : ∀ {b : Nat} (bnp : Int) (error : Option Errno), fileBlocks fs size - b = n → o / fs.bsize ≤ b →
      (∀ k, o / fs.bsize ≤ k → k < b → (∃ v, bm k = .ok v) ∧ ¬ BlockWanted ptr cmd k) →
      (b < fileBlocks fs size ∨ error = none) →
      SeekRight fs ptr bm size cmd o (blockScan cmd bm (seekReport fs o) size n b bnp error) := by
  have hpos := bsize_pos fs
  -- the blocks passed are those that the answer depends on
  have hanswers {b x : Nat} (hbefore : ∀ k, o / fs.bsize ≤ k → k < b → (∃ v, bm k = .ok v) ∧ ¬ BlockWanted ptr cmd k)
      (hx : x ≤ b * fs.bsize) : Answers fs bm size o x := by
    intro k _ hok hkx
    have hge : o / fs.bsize < k + 1 := (Nat.div_lt_iff_lt_mul hpos).mpr (by exact_mod_cast hok)
    exact (hbefore k (by omega) (Nat.lt_of_mul_lt_mul_right (Nat.lt_of_lt_of_le hkx hx))).1
  have hend : size ≤ fileBlocks fs size * fs.bsize := Nat.not_lt.mp fun hlt =>
    Nat.lt_irrefl _ ((lt_fileBlocks_iff fs size _).mpr hlt)
  induction n with
  | zero =>
      intro b bnp error hn hob hbefore herr
      have hb : fileBlocks fs size ≤ b := by omega
      have herr' : error = none := herr.resolve_left (by omega)
      have hmul : fileBlocks fs size * fs.bsize ≤ b * fs.bsize := Nat.mul_le_mul_right _ hb
      have hsize := hanswers hbefore (x := size) (by omega)
      rw [blockScan, herr']
      refine .inr ⟨by omega, by omega, ?_⟩
      cases cmd with
      | data =>
          refine .inr (.inr ⟨fun y hoy hw => ?_, hsize, rfl⟩)
          rcases hw.cases with ⟨hy, -⟩ | ⟨-, hcmd⟩
          · exact not_wanted (b := fileBlocks fs size) (fun k hk hlt => (hbefore k hk (by omega)).2) (Nat.le_refl _)
              (by exact_mod_cast hoy) (by omega) (.inl hy) hw
          · cases hcmd
      | hole =>
          refine .inr (.inl ⟨size, isLeast_size ho fun k hk hlt => (hbefore k hk (by omega)).2, ?_, rfl⟩)
          intro k hk hok hkx
          exact hsize k hk hok ((lt_fileBlocks_iff fs size k).mp hk)
  | succ n ih =>
      intro b bnp error hn hob hbefore _
      have hb : b < fileBlocks fs size := by omega
      have hbsize := (lt_fileBlocks_iff fs size b).mp hb
      have hoend : o < (b + 1) * fs.bsize := (Nat.div_lt_iff_lt_mul hpos).mp (by omega)
      cases hv : bm b with
      | error e =>
          have hall := h.error b hb e hv
          obtain rfl : e = .enxio := Except.error.inj (hv.symm.trans (hall b (Nat.le_refl b) hb))
          have hres : blockScan cmd bm (seekReport fs o) size (n + 1) b bnp (some .enxio) = .error .enxio :=
            blockScan_enxio (fun k hk hlt => hall k hk (by omega)) bnp
          show SeekRight fs ptr bm size cmd o (blockScan cmd bm (seekReport fs o) size (n + 1) b bnp (some .enxio))
          rw [hres]
          refine .inr ⟨by omega, by omega, .inl ⟨b, .enxio, hb, by exact_mod_cast hoend, hv,
            hanswers hbefore (Nat.le_refl _), fun y hoy hyb => ?_, rfl⟩⟩
          exact not_wanted (fun k hk hlt => (hbefore k hk hlt).2) hb.le (by exact_mod_cast hoy) hyb (.inl (by omega))
      | ok v =>
          rw [blockScan_ok hv]
          by_cases hwant : BlockWanted ptr cmd b
          · rw [if_pos ((h.hit_iff hmap hb hv).mpr hwant), h.report hb hob hv hbefore hwant]
            refine .inr ⟨by omega, by omega, .inr (.inl ⟨_, isLeast_block ho hob hb (fun k hk hlt => (hbefore k hk hlt).2)
              hwant, fun k hk hok hkx => ?_, rfl⟩)⟩
            by_cases hkb : k < b
            · exact hanswers hbefore (Nat.le_refl _) k hk hok (Nat.mul_lt_mul_of_pos_right hkb hpos)
            · -- a block that starts at the offset found or before it is at most `b`
              have hkle : k ≤ max o (b * fs.bsize) / fs.bsize := (Nat.le_div_iff_mul_le hpos).mpr (by omega)
              rw [max_div hob] at hkle
              obtain rfl : k = b := by omega
              exact ⟨v, hv⟩
          · rw [if_neg fun hit => hwant ((h.hit_iff hmap hb hv).mp hit)]
            refine ih (toI32 v) none (by omega) (by omega) (fun k hk hlt => ?_) (.inr rfl)
            rcases Nat.lt_or_eq_of_le (Nat.lt_succ_iff.mp hlt) with hkb | rfl
            · exact hbefore k hk hkb
            · exact ⟨⟨v, hv⟩, hwant⟩

end Safe

/-- Every scan of the file, from the block of its offset on, is right. -/
def ScansRight (fs : Fs) (ptr : Nat → Int) (bm : Nat → Except Errno Int) (size : Nat) : Prop :=
  ∀ (cmd : SeekCmd) (bnp : Int) (o : Nat), -2 ^ 31 ≤ bnp → bnp < 2 ^ 31 → o < size →
    SeekRight fs ptr bm size cmd o
      (blockScan cmd bm (seekReport fs o) size (fileBlocks fs size - o / fs.bsize) (o / fs.bsize) bnp none)

section Needed

variable {fs : Fs} {ptr : Nat → Int} {bm : Nat → Except Errno Int} {size b : Nat}

/-- A seek from the start of block `b`. -/
theorem ScansRight.start (h : ScansRight fs ptr bm size) (hb : b < fileBlocks fs size) (cmd : SeekCmd) {bnp : Int}
    (hlo : -2 ^ 31 ≤ bnp) (hhi : bnp < 2 ^ 31) :
    SeekRight fs ptr bm size cmd (b * fs.bsize : Nat)
      (blockScan cmd bm (seekReport fs (b * fs.bsize)) size (fileBlocks fs size - b) b bnp none) := by
  have hright := h cmd bnp (b * fs.bsize) hlo hhi ((lt_fileBlocks_iff fs size b).mp hb)
  rwa [Nat.mul_div_cancel _ (bsize_pos fs)] at hright

/-- A seek for a hole from the start of a block of data would report that start. -/
theorem ScansRight.address (h : ScansRight fs ptr bm size) (hb : b < fileBlocks fs size) {v : Int} (hv : bm b = .ok v)
    (hdata : ptr b ≠ 0) : toI32 v ≠ -1 := by
  intro hneg
  have hpos := bsize_pos fs
  have hbsize := (lt_fileBlocks_iff fs size b).mp hb
  have hself := seekReport_self fs (b * fs.bsize)
  rw [Nat.mul_div_cancel _ hpos] at hself
  have hright := h.start hb .hole (show -2 ^ 31 ≤ (0 : Int) by decide) (by decide)
  rw [show fileBlocks fs size - b = fileBlocks fs size - b - 1 + 1 from by omega, blockScan_ok hv,
    if_pos (.inl ⟨hneg, rfl⟩), hself] at hright
  rcases hright with ⟨hout, -⟩ | ⟨-, -, ⟨_, _, -, -, -, -, -, heq⟩ | ⟨x, hx, -, heq⟩ | ⟨-, -, heq⟩⟩
  · omega
  · cases heq
  · obtain rfl : b * fs.bsize = x := by exact_mod_cast Except.ok.inj heq
    rcases hx.1.2 with hsize | ⟨-, hzero⟩
    · omega
    · rw [Nat.mul_div_cancel _ hpos] at hzero
      exact hdata hzero
  · cases heq

/-- An error of the first block has to come out. -/
theorem ScansRight.first (h : ScansRight fs ptr bm size) (hb : b < fileBlocks fs size) {e : Errno} (he : bm b = .error e)
    (cmd : SeekCmd) {bnp : Int} (hlo : -2 ^ 31 ≤ bnp) (hhi : bnp < 2 ^ 31) :
    blockScan cmd bm (seekReport fs (b * fs.bsize)) size (fileBlocks fs size - b) b bnp none = .error e := by
  refine (h.start hb cmd hlo hhi).of_error ((lt_fileBlocks_iff fs size b).mp hb) ?_
  rw [Nat.mul_div_cancel _ (bsize_pos fs)]
  exact he

theorem ScansRight.not_eopnotsupp (h : ScansRight fs ptr bm size) (hb : b < fileBlocks fs size) :
    bm b ≠ .error .eopnotsupp := by
  intro he
  have hright := h.first hb he .data (show -2 ^ 31 ≤ (0 : Int) by decide) (by decide)
  rw [show fileBlocks fs size - b = fileBlocks fs size - b - 1 + 1 from by omega, blockScan, he] at hright
  cases hright

/-- A search for data that starts with `bnp` at -1 reports `ENXIO` or data. -/
theorem ScansRight.enxio (h : ScansRight fs ptr bm size) (hb : b < fileBlocks fs size) {e : Errno} (he : bm b = .error e) :
    e = .enxio := by
  have hright := h.first hb he .data (show -2 ^ 31 ≤ (-1 : Int) by decide) (by decide)
  have hno (k : Nat) (_ : b ≤ k) (hlt : k < b + (fileBlocks fs size - b)) : bm k ≠ .error .eopnotsupp :=
    h.not_eopnotsupp (by omega)
  rcases @blockScan_data bm (seekReport fs (b * fs.bsize)) size _ _ hno none with hres | ⟨x, hres⟩
  · exact (Except.error.inj (hres.symm.trans hright)).symm
  · rw [hres] at hright
    cases hright

/-- Where a block after a failing one has an answer, the search for its kind reports it. -/
theorem ScansRight.fails (h : ScansRight fs ptr bm size) (hb : b < fileBlocks fs size) {e : Errno} (he : bm b = .error e)
    {j : Nat} (hj : b + j < fileBlocks fs size) : bm (b + j) = .error .enxio := by
  induction j using Nat.strong_induction_on with
  | _ j ih =>
  cases hv : bm (b + j) with
  | error e' => rw [h.enxio hj hv]
  | ok v =>
      -- the kind that the 32-bit test sees in block `b + j`, and a `bnp` of the other kind
      obtain ⟨cmd, bnp, hlo, hhi, hhit, hmiss⟩ : ∃ (cmd : SeekCmd) (bnp : Int), -2 ^ 31 ≤ bnp ∧ bnp < 2 ^ 31 ∧
          ((toI32 v = -1 ∧ cmd = .hole) ∨ (toI32 v ≠ -1 ∧ cmd = .data)) ∧
          ¬ ((bnp = -1 ∧ cmd = .hole) ∨ (bnp ≠ -1 ∧ cmd = .data)) := by
        by_cases hneg : toI32 v = -1
        · exact ⟨.hole, 0, by decide, by decide, .inl ⟨hneg, rfl⟩, by decide⟩
        · exact ⟨.data, -1, by decide, by decide, .inr ⟨hneg, rfl⟩, by decide⟩
      have hright := h.first hb he cmd hlo hhi
      have hfail (k : Nat) (hk : b ≤ k) (hlt : k < b + j) : ∃ e, bm k = .error e ∧ e ≠ .eopnotsupp := by
        refine ⟨.enxio, ?_, by decide⟩
        rw [show k = b + (k - b) from by omega]
        exact ih (k - b) (by omega) (by omega)
      obtain ⟨error', hpass⟩ := @blockScan_pass bm cmd (seekReport fs (b * fs.bsize)) size
        (fileBlocks fs size - (b + j) - 1 + 1) b bnp j hfail hmiss none
      rw [blockScan_ok hv, if_pos hhit] at hpass
      rw [show fileBlocks fs size - b = fileBlocks fs size - (b + j) - 1 + 1 + j from by omega, hpass] at hright
      cases hright

/-- A seek from the last byte of a block for the other kind that follows. -/
theorem ScansRight.change (h : ScansRight fs ptr bm size) (hmap : ∀ b v, bm b = .ok v → ptr b = 0 → v = -1)
    (hb : b + 1 < fileBlocks fs size) {v w : Int} (hv : bm b = .ok v) (hw : bm (b + 1) = .ok w)
    (hkind : ¬ (ptr b = 0 ↔ ptr (b + 1) = 0)) : (b + 1) * fs.bsize ≤ 2 ^ 31 := by
  have hpos := bsize_pos fs
  have hbsize := (lt_fileBlocks_iff fs size (b + 1)).mp hb
  have hsucc : (b + 1) * fs.bsize = b * fs.bsize + fs.bsize := by rw [Nat.add_mul, Nat.one_mul]
  obtain ⟨cmd, hmiss, hhit⟩ : ∃ cmd : SeekCmd, ¬ BlockWanted ptr cmd b ∧ BlockWanted ptr cmd (b + 1) := by
    by_cases h0 : ptr b = 0
    · exact ⟨.data, by simp [BlockWanted, h0], fun h1 => hkind ⟨fun _ => h1, fun _ => h0⟩⟩
    · exact ⟨.hole, h0, not_not.mp fun h1 => hkind ⟨fun h => absurd h h0, fun h => absurd h h1⟩⟩
  have hcode {k : Nat} {u : Int} (hk : k < fileBlocks fs size) (hu : bm k = .ok u) :
      ((toI32 u = -1 ∧ cmd = .hole) ∨ (toI32 u ≠ -1 ∧ cmd = .data)) ↔ BlockWanted ptr cmd k := by
    have hzero : toI32 u = -1 ↔ ptr k = 0 :=
      ⟨fun hneg => by_contra fun hne => h.address hk hu hne hneg, fun h0 => by rw [hmap k u hu h0]; rfl⟩
    cases cmd <;> simp [BlockWanted, hzero]
  -- the last byte of block `b`
  have hdiv : ((b + 1) * fs.bsize - 1) / fs.bsize = b := by
    rw [Nat.div_eq_iff hpos]
    omega
  have hright := h cmd 0 ((b + 1) * fs.bsize - 1) (by decide) (by decide) (by omega)
  have hnone (k : Nat) (hk : ((b + 1) * fs.bsize - 1) / fs.bsize ≤ k) (hlt : k < b + 1) : ¬ BlockWanted ptr cmd k :=
    (show k = b from by omega) ▸ hmiss
  have hleast := isLeast_block (show (b + 1) * fs.bsize - 1 < size by omega) (by omega) hb hnone hhit
  have hok := hright.of_least (by omega) hleast fun k hk hend hstart => by
    have hge : b < k + 1 := by
      rw [← hdiv]
      exact (Nat.div_lt_iff_lt_mul hpos).mpr (by exact_mod_cast hend)
    have hle : k ≤ b + 1 := by
      have := (Nat.le_div_iff_mul_le hpos).mpr (show k * fs.bsize ≤ max ((b + 1) * fs.bsize - 1) ((b + 1) * fs.bsize) from by omega)
      rwa [max_div (by omega)] at this
    rcases Nat.eq_or_lt_of_le hle with rfl | hlt
    · exact ⟨w, hw⟩
    · obtain rfl : k = b := by omega
      exact ⟨v, hv⟩
  rw [hdiv, show fileBlocks fs size - b = fileBlocks fs size - b - 2 + 1 + 1 from by omega, blockScan_ok hv,
    if_neg (mt (hcode (by omega) hv).mp hmiss), blockScan_ok hw, if_pos ((hcode hb hw).mpr hhit)] at hok
  have hreport := of_seekReport_eq fs ((b + 1) * fs.bsize - 1) (b := b + 1) (by omega)
    (by rw [Except.ok.inj hok, Nat.max_eq_right (by omega)])
  omega

/-- What the scans need of the file. -/
theorem ScansRight.safe (h : ScansRight fs ptr bm size) (hmap : ∀ b v, bm b = .ok v → ptr b = 0 → v = -1) :
    SeekSafe fs ptr bm size where
  change b hb hok hok' hkind := by
    obtain ⟨v, hv⟩ := hok
    obtain ⟨w, hw⟩ := hok'
    exact h.change hmap hb hv hw hkind
  address b hb v hv hdata := h.address hb hv hdata
  error b hb e he k hk hkb := by
    have hfails := h.fails hb he (j := k - b) (by omega)
    rwa [show b + (k - b) = k from by omega] at hfails

end Needed

theorem scansRight_iff {fs : Fs} {ptr : Nat → Int} {bm : Nat → Except Errno Int} {size : Nat}
    (hmap : ∀ b v, bm b = .ok v → ptr b = 0 → v = -1) : ScansRight fs ptr bm size ↔ SeekSafe fs ptr bm size := by
  refine ⟨fun h => h.safe hmap, fun h cmd bnp o _ _ ho => ?_⟩
  refine h.scan hmap ho _ bnp none rfl (Nat.le_refl _) (fun k hk hlt => absurd hlt (Nat.not_lt.mpr hk)) (.inr rfl)

/-! ### Both routines -/

/-- `ufs_bmap_seekhole` on a file, for both commands, every offset and every value that `bnp` may have. -/
def SeekholeExact (fs : Fs) (ptr : Nat → Int) (bmap : Int → Except Errno Int) (size : Nat) : Prop :=
  ∀ (cmd : SeekCmd) (bnp off : Int), -2 ^ 31 ≤ bnp → bnp < 2 ^ 31 → -2 ^ 63 ≤ off → off < 2 ^ 63 →
    ∃ r, (∀ fuel, fileBlocks fs size < fuel → ufsBmapSeekhole fs bmap true size cmd bnp fuel off = some r) ∧
      SeekRight fs ptr (fun b => bmap (b * fs.bsize : Nat)) size cmd off r

section Seekhole

variable {fs : Fs} {ptr : Nat → Int} {bmap : Int → Except Errno Int} {size : Nat}

theorem ufsBmapSeekhole_eq (hbm : ∀ noff : Nat, bmap noff = bmap (noff / fs.bsize * fs.bsize : Nat)) (hsize : size < 2 ^ 63)
    (cmd : SeekCmd) (bnp : Int) {o : Nat} (ho : o < size) {fuel : Nat} (hfuel : fileBlocks fs size < fuel) :
    ufsBmapSeekhole fs bmap true size cmd bnp fuel o =
      some (blockScan cmd (fun b => bmap (b * fs.bsize : Nat)) (seekReport fs o) size (fileBlocks fs size - o / fs.bsize)
        (o / fs.bsize) bnp none) := by
  have hu : toU64 (o : Int) = o := toU64_eq_self (by omega) (by omega)
  have hfirst : o / fs.bsize < fileBlocks fs size :=
    (lt_fileBlocks_iff fs size _).mpr (Nat.lt_of_le_of_lt (Nat.div_mul_le_self o fs.bsize) ho)
  rw [ufsBmapSeekhole, if_neg (by decide), if_neg (by rw [hu]; omega), seekIndex_first]
  exact seekholeLoop_eq hbm _ bnp none rfl rfl ⟨fun _ => hfirst, fun _ => ho⟩
    (Nat.lt_of_le_of_lt (Nat.sub_le _ _) hfuel)

/-- `ufs_bmap_seekhole` is right on a file just when its scans are. -/
theorem seekhole_exact_iff (hbm : ∀ noff : Nat, bmap noff = bmap (noff / fs.bsize * fs.bsize : Nat))
    (hsize : size < 2 ^ 63) (hmap : ∀ (b : Nat) v, bmap (b * fs.bsize : Nat) = .ok v → ptr b = 0 → v = -1) :
    SeekholeExact fs ptr bmap size ↔ SeekSafe fs ptr (fun b => bmap (b * fs.bsize : Nat)) size := by
  rw [← scansRight_iff hmap]
  constructor
  · intro h cmd bnp o hlo hhi ho
    obtain ⟨r, heq, hright⟩ := h cmd bnp o hlo hhi (by omega) (by omega)
    have hrun := heq (fileBlocks fs size + 1) (Nat.lt_succ_self _)
    rw [ufsBmapSeekhole_eq hbm hsize cmd bnp ho (Nat.lt_succ_self _)] at hrun
    rwa [Option.some.inj hrun]
  · intro h cmd bnp off hlo hhi hoff hoff'
    by_cases hout : off < 0 ∨ size ≤ off
    · refine ⟨.error .enxio, fun fuel _ => ?_, .inl ⟨hout, rfl⟩⟩
      rw [ufsBmapSeekhole, if_neg (by decide), if_pos]
      unfold toU64
      omega
    · obtain ⟨o, rfl⟩ : ∃ o : Nat, off = o := ⟨off.toNat, by omega⟩
      have ho : o < size := by omega
      exact ⟨_, fun fuel hfuel => ufsBmapSeekhole_eq hbm hsize cmd bnp ho hfuel, h cmd bnp o hlo hhi ho⟩

end Seekhole

/-- Where the block map answers for the whole file, the right answer to a search for data is that of
`ufs_bmap_seekdata`. -/
theorem SeekRight.data_eq {fs : Fs} {ptr : Nat → Int} {bm : Nat → Except Errno Int} {size : Nat} {off : Int}
    {r r' : Except Errno Int} (hok : ∀ b < fileBlocks fs size, ∃ v, bm b = .ok v)
    (h : SeekRight fs ptr bm size .data off r) (hno : r' = .error .enxio ↔ NoData fs ptr size off)
    (hyes : ¬ NoData fs ptr size off → ∃ x : Nat, r' = .ok (x : Int) ∧ IsLeast {y : Nat | off ≤ y ∧ ptr (y / fs.bsize) ≠ 0} x) :
    r = r' := by
  have hpos := bsize_pos fs
  rcases h with ⟨hout, rfl⟩ | ⟨h0, hlt, ⟨b, e, hb, -, hfail, -⟩ | ⟨x, hx, -, rfl⟩ | ⟨hnone, -, rfl⟩⟩
  · exact (hno.mpr (hout.imp_right .inl)).symm
  · obtain ⟨v, hv⟩ := hok b hb
    rw [hfail] at hv
    cases hv
  · obtain ⟨⟨hox, hxsize, hxptr⟩, hleast⟩ := hx
    have hin : x / fs.bsize < fileBlocks fs size :=
      (lt_fileBlocks_iff fs size _).mpr (Nat.lt_of_le_of_lt (Nat.div_mul_le_self x fs.bsize) hxsize)
    have hend : x < (x / fs.bsize + 1) * fs.bsize := (Nat.div_lt_iff_lt_mul hpos).mp (Nat.lt_succ_self _)
    have hdata : ¬ NoData fs ptr size off := by
      rintro (hneg | hbig | hnone)
      · omega
      · omega
      · exact hxptr (hnone _ hin (by omega))
    obtain ⟨x', rfl, ⟨hox', hptr'⟩, hleast'⟩ := hyes hdata
    have hle' : x' ≤ x := hleast' ⟨hox, hxptr⟩
    have hle : x ≤ x' := hleast ⟨hox', by omega, hptr'⟩
    rw [Nat.le_antisymm hle hle']
  · refine (hno.mpr (.inr (.inr fun b hb hend => ?_))).symm
    obtain ⟨o, rfl⟩ : ∃ o : Nat, off = o := ⟨off.toNat, by omega⟩
    have hob : o / fs.bsize ≤ b := Nat.lt_succ_iff.mp ((Nat.div_lt_iff_lt_mul hpos).mpr (by exact_mod_cast hend))
    have hbsize := (lt_fileBlocks_iff fs size b).mp hb
    by_contra hptr
    refine hnone (max o (b * fs.bsize)) (by omega) ⟨by omega, ?_⟩
    rwa [max_div hob]

/-- What is asked of the two routines on one file: each is exact, and they agree where the block map answers. -/
structure SeeksExact (fs : Fs) (args : BmapArgs) (readindir : Int → Int → Except Errno (Nat → Int))
    (ind : Int → Int → Nat → Int) (ip : Inode) : Prop where
  seekdata : SeekdataExact fs (fun lbn daddr => .ok (ind lbn daddr)) (bptr fs.nindir ind ip) ip
  seekhole : SeekholeExact fs (bptr fs.nindir ind ip) (ufsBmapBlock fs args readindir ip) ip.size
  same : (∀ b < fileBlocks fs ip.size, ∃ v, ufsBmapBlock fs args readindir ip (b * fs.bsize : Nat) = .ok v) →
    ∀ (bnp off : Int) (fuel : Nat), -2 ^ 31 ≤ bnp → bnp < 2 ^ 31 → -2 ^ 63 ≤ off → off < 2 ^ 63 →
      fileBlocks fs ip.size < fuel →
      ufsBmapSeekhole fs (ufsBmapBlock fs args readindir ip) true ip.size .data bnp fuel off =
        ufsBmapSeekdata fs (fun lbn daddr => .ok (ind lbn daddr)) true ip fuel off

section Exact

variable {fs : Fs} {args : BmapArgs} {readindir : Int → Int → Except Errno (Nat → Int)} {ind : Int → Int → Nat → Int}
  {ip : Inode}

theorem ufsBmapBlock_div (noff : Nat) : ufsBmapBlock fs args readindir ip noff =
    ufsBmapBlock fs args readindir ip (noff / fs.bsize * fs.bsize : Nat) := by
  have hlbn : fs.lblkno noff = fs.lblkno (noff / fs.bsize * fs.bsize : Nat) := by
    unfold Fs.lblkno
    rw [← Int.natCast_ediv, ← Int.natCast_ediv, Nat.mul_div_cancel _ (bsize_pos fs)]
  rw [ufsBmapBlock, ufsBmapBlock, hlbn]

/-- The block map reports a hole as -1. -/
theorem ufsBmapBlock_hole (hrd : ReadsTree fs readindir ind) (haddr : AddrsOk fs ip ind) (hsnap : ip.snapshot = false) {b : Nat}
    {v : Int} (hv : ufsBmapBlock fs args readindir ip (b * fs.bsize : Nat) = .ok v) (h0 : bptr fs.nindir ind ip b = 0) :
    v = -1 := by
  have hlbn : fs.lblkno (b * fs.bsize : Nat) = b := by
    unfold Fs.lblkno
    rw [← Int.natCast_ediv, Nat.mul_div_cancel _ (bsize_pos fs)]
  rw [ufsBmapBlock, hlbn] at hv
  cases hr : ufsBmaparray fs args readindir ip b with
  | error e =>
      rw [hr] at hv
      cases hv
  | ok r =>
      rw [hr] at hv
      have hbnp := (ufsBmaparray_spec hrd haddr hsnap hr).1
      rw [if_pos h0] at hbnp
      rw [← hbnp]
      exact (Except.ok.inj hv).symm

/-- On a regular file that is no snapshot, of a size up to `fs_maxfilesize` below 2^63:
`ufs_bmap_seekdata` is exact, and both
routines are just when the file is safe for `ufs_bmap_seekhole`. -/
theorem seek_exact_iff (hsnap : ip.snapshot = false) (hsize : ip.size ≤ levelBase fs.nindir niaddr * fs.bsize)
    (hoff : ip.size < 2 ^ 63) (hrd : ReadsTree fs readindir ind) (haddr : AddrsOk fs ip ind) :
    SeekdataExact fs (fun lbn daddr => .ok (ind lbn daddr)) (bptr fs.nindir ind ip) ip ∧
      (SeeksExact fs args readindir ind ip ↔
        SeekSafe fs (bptr fs.nindir ind ip) (fun b => ufsBmapBlock fs args readindir ip (b * fs.bsize : Nat)) ip.size) := by
  have hdata : SeekdataExact fs (fun lbn daddr => .ok (ind lbn daddr)) (bptr fs.nindir ind ip) ip :=
    seekdata_exact hsnap (fun _ _ _ => rfl) hsize
  have hmap (b : Nat) (v : Int) (hv : ufsBmapBlock fs args readindir ip (b * fs.bsize : Nat) = .ok v)
      (h0 : bptr fs.nindir ind ip b = 0) : v = -1 := ufsBmapBlock_hole hrd haddr hsnap hv h0
  have hhole := seekhole_exact_iff ufsBmapBlock_div hoff hmap
  refine ⟨hdata, fun h => hhole.mp h.seekhole, fun hsafe => ⟨hdata, hhole.mpr hsafe, ?_⟩⟩
  intro hok bnp off fuel hlo hhi hoff hoff' hfuel
  obtain ⟨r', heq', hno, hyes⟩ := hdata off
  obtain ⟨r, heq, hright⟩ := hhole.mpr hsafe .data bnp off hlo hhi hoff hoff'
  rw [heq fuel hfuel, heq' fuel hfuel, hright.data_eq hok hno hyes]

end Exact

/-- The arguments of a trusted mount. -/
def plainArgs : BmapArgs := { runp := true, runb := false, maxrun := 63, untrusted := false, nbp := false }

theorem readsTree_plain (fs : Fs) (ind : Int → Int → Nat → Int) :
    ReadsTree fs (fun lbn daddr => .ok (ind lbn daddr)) ind where
  ok _ _ _ _ _ _ h := (Except.ok.inj h).symm
  noent _ _ _ _ _ h := by cases h

/-- A file of three blocks, with a hole in the middle. -/
def holeInode : Inode :=
  { oneBlockInode with size := 3 * 16384, db := fun i => if i = 0 then 2 else if i = 2 then 4 else 0 }

theorem addrsOk_holeInode : AddrsOk tinyFs holeInode (coldStore.ind tinyFs) where
  db i := by
    show AddrOk tinyFs (if i = 0 then (2 : Int) else if i = 2 then 4 else 0)
    repeat' split
    all_goals exact ⟨by decide, by decide⟩
  ib _ := addrOk_zero _
  ind _ _ _ := addrOk_zero _

/-- Both searches are right on it. -/
theorem seek_exact_iff_hole : SeeksExact tinyFs plainArgs (fun lbn daddr => .ok (coldStore.ind tinyFs lbn daddr))
    (coldStore.ind tinyFs) holeInode := by
  have hfile : fileBlocks tinyFs holeInode.size = 3 := by decide
  refine (seek_exact_iff rfl (by decide +kernel) (by decide) (readsTree_plain _ _) addrsOk_holeInode).2.mpr
    ⟨fun b hb _ _ _ => ?_, fun b hb v hv hne => ?_, fun b hb e he => ?_⟩
  · rw [hfile] at hb
    have hbsize : tinyFs.bsize = 16384 := by decide
    rw [hbsize]
    omega
  all_goals
    rw [hfile] at hb
    obtain rfl | rfl | rfl : b = 0 ∨ b = 1 ∨ b = 2 := by omega
  · obtain rfl : (32 : Int) = v := Except.ok.inj hv
    decide
  · exact absurd (by decide +kernel) hne
  · obtain rfl : (64 : Int) = v := Except.ok.inj hv
    decide
  all_goals cases he

/-- A file with a hole up to the block that starts 16384 bytes behind 2 GiB. -/
def farInode : Inode where
  snapshot := false
  size := 131074 * 16384
  blocks := 0
  db := fun _ => 0
  ib := fun i => if i = 1 then 8 else 0
  extb := fun _ => 0

/-- Its block of data, 131073, is behind slot 62 of the double and slot 2037 of the single indirect block. -/
def farInd (_lbn daddr : Int) (i : Nat) : Int :=
  if daddr = 8 then if i = 62 then 10 else 0
  else if daddr = 10 then if i = 2037 then 12 else 0
  else 0

theorem addrsOk_farInode : AddrsOk tinyFs farInode farInd where
  db _ := addrOk_zero _
  ib i := by
    show AddrOk tinyFs (if i = 1 then (8 : Int) else 0)
    split
    all_goals exact ⟨by decide, by decide⟩
  ind _ daddr i := by
    unfold farInd
    repeat' split
    all_goals exact ⟨by decide, by decide⟩

/-- A search for data from 2 GiB on answers 2147483648, in the hole: block 131073 is numbered -131071 there. -/
theorem not_seek_exact_far :
    farInode.snapshot = false ∧ farInode.size ≤ levelBase tinyFs.nindir niaddr * tinyFs.bsize ∧
      ReadsTree tinyFs (fun lbn daddr => .ok (farInd lbn daddr)) farInd ∧ AddrsOk tinyFs farInode farInd ∧
      ufsBmapSeekhole tinyFs (ufsBmapBlock tinyFs plainArgs (fun lbn daddr => .ok (farInd lbn daddr)) farInode) true
        farInode.size .data 0 3 2147483648 = some (.ok 2147483648) ∧
      bptr tinyFs.nindir farInd farInode (2147483648 / tinyFs.bsize) = 0 ∧
      ¬ SeeksExact tinyFs plainArgs (fun lbn daddr => .ok (farInd lbn daddr)) farInd farInode := by
  have hsize : farInode.size ≤ levelBase tinyFs.nindir niaddr * tinyFs.bsize := by decide +kernel
  refine ⟨rfl, hsize, readsTree_plain _ _, addrsOk_farInode, by decide +kernel, by decide +kernel, fun h => ?_⟩
  have hsafe := (seekhole_exact_iff ufsBmapBlock_div (by decide)
    fun b v hv h0 => ufsBmapBlock_hole (readsTree_plain _ _) addrsOk_farInode rfl hv h0).mp h.seekhole
  have hle := hsafe.change 131072 (by decide +kernel) ⟨-1, by decide +kernel⟩ ⟨192, by decide +kernel⟩ (by decide +kernel)
  revert hle
  decide +kernel

end UfsX.Proofs.Seek
