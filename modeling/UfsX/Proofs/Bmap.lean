import UfsX.Ufs.Bmap
import UfsX.Proofs.Consistent

/-!
# `UfsX.Proofs.Bmap`: what `ufs_bmap` says about a file's bytes
-/

set_option autoImplicit false

namespace UfsX.Proofs

open UfsX.Lib UfsX.Ufs
open UfsX.Ffs (Fs)

/-! ### The levels of the tree -/

/-- The first logical block below the inode's indirect pointer `l`. -/
def levelBase (N : Nat) : Nat → Nat
  | 0 => ndaddr
  | l + 1 => levelBase N l + N ^ (l + 1)

theorem levelBase_mono (N : Nat) {l l' : Nat} (h : l ≤ l') : levelBase N l ≤ levelBase N l' := by
  induction h with
  | refl => exact Nat.le_refl _
  | step _ ih => exact Nat.le_trans ih (Nat.le_add_right _ _)

theorem ndaddr_le_levelBase (N l : Nat) : ndaddr ≤ levelBase N l := by
  induction l with
  | zero => exact Nat.le_refl _
  | succ l ih => exact Nat.le_trans ih (Nat.le_add_right _ _)

theorem levelBase_niaddr (N : Nat) : levelBase N niaddr = ndaddr + N + N ^ 2 + N ^ 3 := by
  simp only [niaddr, levelBase, Nat.zero_add, Nat.pow_one, Nat.reduceAdd]

theorem bptr_direct {N : Nat} {ind : Int → Int → Nat → Int} {ip : Inode} {lbn : Nat}
    (h : lbn < ndaddr) : bptr N ind ip lbn = ip.db lbn :=
  if_pos h

theorem bptr_level {N : Nat} {ind : Int → Int → Nat → Int} {ip : Inode} {l rel : Nat}
    (hl : l < niaddr) (hrel : rel < N ^ (l + 1)) :
    bptr N ind ip (levelBase N l + rel) =
      Radix.lookup N (fun h first => ind (metaLbn h first)) (l + 1) (levelBase N l) (ip.ib l)
        rel := by
  have hb0 : levelBase N 0 = ndaddr := rfl
  have hb1 : levelBase N 1 = ndaddr + N := by rw [levelBase, hb0, Nat.zero_add, Nat.pow_one]
  have hb2 : levelBase N 2 = ndaddr + N + N ^ 2 := by rw [levelBase, hb1]
  unfold niaddr at hl
  unfold bptr
  rcases (by omega : l = 0 ∨ l = 1 ∨ l = 2) with rfl | rfl | rfl
  · rw [Nat.zero_add, Nat.pow_one] at hrel
    rw [if_neg (by omega), if_pos (by omega), hb0, Nat.add_sub_cancel_left]
  · replace hrel : rel < N ^ 2 := hrel
    rw [if_neg (by omega), if_neg (by omega), if_pos (by omega), hb1, Nat.add_sub_cancel_left]
  · replace hrel : rel < N ^ 3 := hrel
    rw [if_neg (by omega), if_neg (by omega), if_neg (by omega), if_pos (by omega), hb2,
      Nat.add_sub_cancel_left]

theorem bptr_beyond {N : Nat} {ind : Int → Int → Nat → Int} {ip : Inode} {lbn : Nat}
    (h : levelBase N niaddr ≤ lbn) : bptr N ind ip lbn = 0 := by
  have hb : levelBase N niaddr = ndaddr + N + N ^ 2 + N ^ 3 := by
    simp only [niaddr, levelBase, Nat.zero_add, Nat.pow_one, Nat.reduceAdd]
  unfold bptr
  rw [if_neg (by omega), if_neg (by omega), if_neg (by omega), if_neg (by omega)]

/-- Every block number is direct, below one of the indirect pointers, or too
large. -/
theorem level_cases (N lbn : Nat) :
    lbn < ndaddr ∨ (∃ l rel, l < niaddr ∧ rel < N ^ (l + 1) ∧ lbn = levelBase N l + rel) ∨
      levelBase N niaddr ≤ lbn := by
  have h0 : levelBase N 0 = ndaddr := rfl
  have h1 : levelBase N 1 = levelBase N 0 + N ^ 1 := rfl
  have h2 : levelBase N 2 = levelBase N 1 + N ^ 2 := rfl
  have h3 : levelBase N niaddr = levelBase N 2 + N ^ 3 := rfl
  rcases Nat.lt_or_ge lbn (levelBase N 0) with h | h0'
  · exact .inl h
  rcases Nat.lt_or_ge lbn (levelBase N 1) with h | h1'
  · exact .inr (.inl ⟨0, lbn - levelBase N 0, by decide,
      show lbn - levelBase N 0 < N ^ 1 by omega, by omega⟩)
  rcases Nat.lt_or_ge lbn (levelBase N 2) with h | h2'
  · exact .inr (.inl ⟨1, lbn - levelBase N 1, by decide,
      show lbn - levelBase N 1 < N ^ 2 by omega, by omega⟩)
  rcases Nat.lt_or_ge lbn (levelBase N niaddr) with h | h3'
  · exact .inr (.inl ⟨2, lbn - levelBase N 2, by decide,
      show lbn - levelBase N 2 < N ^ 3 by omega, by omega⟩)
  · exact .inr (.inr h3')

/-! ### `ufs_getlbns` -/

theorem ufsGetlbns_direct {N lbn : Nat} (h : lbn < ndaddr) :
    ufsGetlbns N (lbn : Int) = .ok [] := by
  unfold ufsGetlbns
  rw [Int.natAbs_natCast]
  exact if_pos h

theorem getlbnsLevel_level {N l rel : Nat} (hl : l < niaddr) (hrel : rel < N ^ (l + 1)) :
    getlbnsLevel N niaddr 1 (levelBase N l + rel - ndaddr) = some (niaddr - l, N ^ (l + 1), rel) := by
  have hp1 : N ^ 1 = N := Nat.pow_one N
  have hp2 : N * N = N ^ 2 := (Nat.pow_two N).symm
  have hp3 : N ^ 2 * N = N ^ 3 := (Nat.pow_succ N 2).symm
  unfold niaddr at hl
  rcases (by omega : l = 0 ∨ l = 1 ∨ l = 2) with rfl | rfl | rfl
  · simp only [niaddr, getlbnsLevel, levelBase, Nat.zero_add, Nat.add_sub_cancel_left,
      Nat.one_mul, hp1] at hrel ⊢
    rw [if_pos hrel]
  · simp only [niaddr, getlbnsLevel, levelBase, Nat.zero_add, Nat.reduceAdd, Nat.one_mul, hp1,
      hp2] at hrel ⊢
    rw [if_neg (by omega), if_pos (by omega)]
    congr 3
    omega
  · simp only [niaddr, getlbnsLevel, levelBase, Nat.zero_add, Nat.reduceAdd, Nat.one_mul, hp1,
      hp2, hp3] at hrel ⊢
    rw [if_neg (by omega), if_neg (by omega), if_pos (by omega)]
    congr 3
    omega

theorem getlbnsLevel_none {N lbn : Nat} (h : levelBase N niaddr ≤ lbn) :
    getlbnsLevel N niaddr 1 (lbn - ndaddr) = none := by
  have hp2 : N * N = N ^ 2 := (Nat.pow_two N).symm
  have hp3 : N ^ 2 * N = N ^ 3 := (Nat.pow_succ N 2).symm
  simp only [niaddr, getlbnsLevel, levelBase, Nat.zero_add, Nat.reduceAdd, Nat.one_mul,
    Nat.pow_one, hp2, hp3] at h ⊢
  rw [if_neg (by omega), if_neg (by omega), if_neg (by omega)]

/-- A negative number goes the way of its absolute value, which can lie `h - 1` behind a
data block of the same level. -/
theorem ufsGetlbns_natAbs {N l rel : Nat} {realbn : Int} (hreal : realbn.natAbs = levelBase N l + rel)
    (hl : l < niaddr) (hrel : rel < N ^ (l + 1)) :
    ufsGetlbns N realbn =
      .ok (⟨metaLbn (l + 1) (levelBase N l), l⟩ ::
        getlbnsPath N realbn rel (l + 1) (N ^ (l + 1)) (metaLbn (l + 1) (levelBase N l))) := by
  have hge : ¬ levelBase N l + rel < ndaddr := by
    have := ndaddr_le_levelBase N l
    omega
  unfold ufsGetlbns
  simp only [hreal, if_neg hge, getlbnsLevel_level hl hrel]
  have hi : niaddr - (niaddr - l) = l := by omega
  have hmeta : (-(((levelBase N l + rel : Nat) : Int) - rel + niaddr - (niaddr - l : Nat)) : Int) =
      metaLbn (l + 1) (levelBase N l) := by
    unfold metaLbn
    omega
  rw [hi, hmeta]

theorem ufsGetlbns_level {N l rel : Nat} (hl : l < niaddr) (hrel : rel < N ^ (l + 1)) :
    ufsGetlbns N ((levelBase N l + rel : Nat) : Int) =
      .ok (⟨metaLbn (l + 1) (levelBase N l), l⟩ ::
        getlbnsPath N (levelBase N l + rel : Nat) rel (l + 1) (N ^ (l + 1))
          (metaLbn (l + 1) (levelBase N l))) :=
  ufsGetlbns_natAbs (Int.natAbs_natCast _) hl hrel

theorem ufsGetlbns_efbig {N lbn : Nat} (h : levelBase N niaddr ≤ lbn) :
    ufsGetlbns N (lbn : Int) = .error .efbig := by
  have hge : ¬ lbn < ndaddr := by
    have := ndaddr_le_levelBase N niaddr
    omega
  unfold ufsGetlbns
  simp only [Int.natAbs_natCast, if_neg hge, getlbnsLevel_none h]

/-- One step of the path: the block of height `h + 1` and the slot of the
subtree that holds `rel`. -/
theorem getlbnsPath_succ {N : Nat} {realbn : Int} (hN : 0 < N) (rel h first : Nat)
    (hne : metaLbn (h + 1) first ≠ realbn) :
    getlbnsPath N realbn rel (h + 1) (N ^ (h + 1)) (metaLbn (h + 1) first) =
      ⟨metaLbn (h + 1) first, rel / N ^ h % N⟩ ::
        getlbnsPath N realbn rel h (N ^ h) (metaLbn h (first + rel / N ^ h % N * N ^ h)) := by
  have hdiv : N ^ (h + 1) / N = N ^ h := by
    rw [Nat.pow_succ, Nat.mul_div_cancel _ hN]
  have hmeta : metaLbn (h + 1) first - (-1 + ((rel / N ^ h % N : Nat) : Int) * (N ^ h : Nat)) =
      metaLbn h (first + rel / N ^ h % N * N ^ h) := by
    unfold metaLbn
    push_cast
    omega
  rw [getlbnsPath, if_neg hne]
  simp only [hdiv, hmeta]

/-! ### Runs of sequential pointers -/

/-- What the counting loop has seen: every pointer it passed follows the one
before it. -/
theorem runForward_spec (fs : Fs) (ptr : Nat → Int) (maxrun : Int) (n bn run : Nat) :
    run ≤ runForward fs ptr maxrun n bn run ∧ runForward fs ptr maxrun n bn run ≤ run + n ∧
      ∀ i, run + i < runForward fs ptr maxrun n bn run →
        ptr (bn + i) = ptr (bn + i - 1) + fs.frag := by
  induction n generalizing bn run with
  | zero =>
      refine ⟨Nat.le_refl _, Nat.le_refl _, fun i hi => ?_⟩
      simp only [runForward] at hi
      omega
  | succ n ih =>
      obtain ⟨hge, hle, hseq⟩ := ih (bn + 1) (run + 1)
      by_cases hc : (run : Int) < maxrun ∧ isSequential fs (ptr (bn - 1)) (ptr bn) = true
      · rw [runForward, if_pos hc]
        refine ⟨by omega, by omega, fun i hi => ?_⟩
        cases i with
        | zero => exact of_decide_eq_true hc.2
        | succ i =>
            have := hseq i (by omega)
            rwa [Nat.add_right_comm bn 1 i] at this
      · rw [runForward, if_neg hc]
        refine ⟨Nat.le_refl _, by omega, fun i hi => ?_⟩
        omega

/-- The pointers of a run, counted from its first one. -/
theorem bmapRuns_spec (fs : Fs) (args : BmapArgs) (ptr : Nat → Int) (lim bn : Nat)
    (hbn : bn < lim) (j : Nat) (hj : j ≤ (bmapRuns fs args ptr lim bn (ptr bn)).run) :
    bn + j < lim ∧ ptr (bn + j) = ptr bn + j * fs.frag := by
  unfold bmapRuns at hj
  split at hj
  · obtain ⟨-, hle, hseq⟩ :=
      runForward_spec fs ptr args.maxrun (lim - (bn + 1)) (bn + 1) 0
    replace hj : j ≤ runForward fs ptr args.maxrun (lim - (bn + 1)) (bn + 1) 0 := hj
    refine ⟨by omega, ?_⟩
    induction j with
    | zero => simp
    | succ j ih =>
        have hstep := hseq j (by omega)
        rw [show bn + 1 + j = bn + (j + 1) from by omega,
          show bn + (j + 1) - 1 = bn + j from by omega] at hstep
        rw [hstep, ih (by omega)]
        push_cast
        ring
  · obtain rfl : j = 0 := Nat.le_zero.mp hj
    exact ⟨hbn, by simp⟩

theorem bmapRuns_bnp (fs : Fs) (args : BmapArgs) (ptr : Nat → Int) (lim bn : Nat) (d : Int) :
    (bmapRuns fs args ptr lim bn d).bnp = d := by
  unfold bmapRuns
  split <;> rfl

/-! ### The walk through the indirect blocks -/

/-- `readindir` finds the pointers of the tree when it finds anything, and
never reports that a block with an address is missing. -/
structure ReadsTree (fs : Fs) (rd : Int → Int → Except Errno (Nat → Int)) (ind : Int → Int → Nat → Int) :
    Prop where
  ok : ∀ lbn daddr blk, lbn < 0 → AddrOk fs daddr → 0 < daddr → rd lbn daddr = .ok blk → blk = ind lbn daddr
  noent : ∀ lbn daddr, lbn < 0 → AddrOk fs daddr → 0 < daddr → rd lbn daddr ≠ .error .enoent

/-- The last step of a walk, in the block that holds the leaf's pointer. -/
theorem bmapWalk_leaf {fs : Fs} {args : BmapArgs} {rd : Int → Int → Except Errno (Nat → Int)}
    {ind : Int → Int → Nat → Int} {bn daddr : Int} {rel first : Nat} {r : BmapResult}
    (hd : daddr ≠ 0)
    (hr : (if getlbnsPath fs.nindir bn rel 0 (fs.nindir ^ 0)
          (metaLbn 0 (first + rel / fs.nindir ^ 0 % fs.nindir * fs.nindir ^ 0)) = [] ∧
        ind (metaLbn 1 first) daddr (rel / fs.nindir ^ 0 % fs.nindir) ≠ 0 then
      .ok (bmapRuns fs args (ind (metaLbn 1 first) daddr) fs.nindir
        (rel / fs.nindir ^ 0 % fs.nindir)
        (ind (metaLbn 1 first) daddr (rel / fs.nindir ^ 0 % fs.nindir)))
      else bmapWalk fs args rd bn (ind (metaLbn 1 first) daddr (rel / fs.nindir ^ 0 % fs.nindir))
        (getlbnsPath fs.nindir bn rel 0 (fs.nindir ^ 0)
          (metaLbn 0 (first + rel / fs.nindir ^ 0 % fs.nindir * fs.nindir ^ 0)))) = .ok r) :
    let look := Radix.lookup fs.nindir (fun h first => ind (metaLbn h first)) 1 first daddr
    r.bnp = look (rel % fs.nindir ^ 1) ∧ (r.bnp = 0 → r.run = 0) ∧
      ∀ j ≤ r.run, rel % fs.nindir + j < fs.nindir ∧
        (1 = 0 ∨ look (rel % fs.nindir ^ 1 + j) = r.bnp + j * fs.frag) := by
  have hN : 0 < fs.nindir := Nat.lt_of_lt_of_le (by decide) fs.four_le_nindir
  have hlt : rel % fs.nindir < fs.nindir := Nat.mod_lt _ hN
  simp only [getlbnsPath, Nat.pow_zero, Nat.div_one, true_and, bmapWalk] at hr
  simp only [Nat.pow_one, Radix.lookup_one hd]
  split at hr
  · next hne =>
      obtain rfl := Except.ok.inj hr
      rw [bmapRuns_bnp]
      refine ⟨rfl, fun h0 => absurd h0 hne, fun j hj => ?_⟩
      obtain ⟨hj1, hj2⟩ := bmapRuns_spec fs args _ _ _ hlt j hj
      exact ⟨hj1, .inr hj2⟩
  · obtain rfl := Except.ok.inj hr
    refine ⟨rfl, fun _ => rfl, fun j hj => ?_⟩
    obtain rfl : j = 0 := Nat.le_zero.mp hj
    exact ⟨hlt, .inr (by simp)⟩

/-- A walk from a subtree's pointer ends at the pointer of the leaf, and the
run it reports stays in the leaf's block. The induction is on the height. -/
theorem bmapWalk_spec {fs : Fs} {args : BmapArgs}
    {rd : Int → Int → Except Errno (Nat → Int)} {ind : Int → Int → Nat → Int}
    (hrd : ReadsTree fs rd ind) (hind : ∀ lbn d i, AddrOk fs (ind lbn d i)) {bn : Int} (hbn : 0 ≤ bn)
    (rel h first : Nat) (hfirst : 0 < first) (daddr : Int) (hd : AddrOk fs daddr) (r : BmapResult)
    (hr : bmapWalk fs args rd bn daddr
      (getlbnsPath fs.nindir bn rel h (fs.nindir ^ h) (metaLbn h first)) = .ok r) :
    let look := Radix.lookup fs.nindir (fun h first => ind (metaLbn h first)) h first daddr
    r.bnp = look (rel % fs.nindir ^ h) ∧ (r.bnp = 0 → r.run = 0) ∧
      ∀ j ≤ r.run, rel % fs.nindir + j < fs.nindir ∧
        (h = 0 ∨ look (rel % fs.nindir ^ h + j) = r.bnp + j * fs.frag) := by
  have hN : 0 < fs.nindir := Nat.lt_of_lt_of_le (by decide) fs.four_le_nindir
  induction h generalizing first daddr with
  | zero =>
      obtain rfl : (⟨daddr, 0, 0⟩ : BmapResult) = r := by
        simpa only [getlbnsPath, bmapWalk, Except.ok.injEq] using hr
      refine ⟨rfl, fun _ => rfl, fun j hj => ?_⟩
      obtain rfl : j = 0 := Nat.le_zero.mp hj
      exact ⟨Nat.mod_lt _ hN, .inl rfl⟩
  | succ h ih =>
      have hneg : metaLbn (h + 1) first < 0 := by
        unfold metaLbn
        omega
      rw [getlbnsPath_succ hN rel h first (by omega), bmapWalk] at hr
      by_cases hd0 : daddr = 0
      · rw [if_pos (.inl hd0)] at hr
        obtain rfl : (⟨daddr, 0, 0⟩ : BmapResult) = r := by simpa only [Except.ok.injEq] using hr
        subst hd0
        refine ⟨(Radix.lookup_null _ _ _).symm, fun _ => rfl, fun j hj => ?_⟩
        obtain rfl : j = 0 := Nat.le_zero.mp hj
        exact ⟨Nat.mod_lt _ hN, .inr (by simp [Radix.lookup_null])⟩
      · rw [if_neg (not_or.mpr ⟨hd0, show metaLbn (h + 1) first ≠ bn by omega⟩)] at hr
        have hpos : 0 < daddr := lt_of_le_of_ne hd.nonneg (Ne.symm hd0)
        cases hblk : rd (metaLbn (h + 1) first) daddr with
        | error e =>
            have := hrd.noent _ _ hneg hd hpos
            cases e <;> simp_all
        | ok blk =>
            obtain rfl := hrd.ok _ _ _ hneg hd hpos hblk
            simp only [hblk] at hr
            cases hck : ufsCheckBlkno fs args.untrusted
                (toI32 (ind (metaLbn (h + 1) first) daddr (rel / fs.nindir ^ h % fs.nindir))) with
            | some e => simp [hck] at hr
            | none =>
                simp only [hck] at hr
                cases h with
                | zero => exact bmapWalk_leaf hd0 hr
                | succ h =>
                    have hrest : getlbnsPath fs.nindir bn rel (h + 1) (fs.nindir ^ (h + 1))
                        (metaLbn (h + 1) (first + rel / fs.nindir ^ (h + 1) % fs.nindir *
                          fs.nindir ^ (h + 1))) ≠ [] := by
                      rw [getlbnsPath_succ hN _ _ _ (by unfold metaLbn; omega)]
                      exact List.cons_ne_nil _ _
                    rw [if_neg fun hc => hrest hc.1] at hr
                    obtain ⟨hbnp, hzero, hrun⟩ := ih _ (by omega) _ (hind _ _ _) hr
                    refine ⟨?_, hzero, fun j hj => ?_⟩
                    · rw [Radix.lookup_succ hd0, Radix.mod_pow_div, Radix.mod_pow_mod]
                      exact hbnp
                    · obtain ⟨hlt, hptr⟩ := hrun j hj
                      refine ⟨hlt, .inr ?_⟩
                      rw [Radix.lookup_add hd0 hlt]
                      exact hptr.resolve_left (by omega)

/-- What an inode and its buffers hold are block addresses. -/
structure AddrsOk (fs : Fs) (ip : Inode) (ind : Int → Int → Nat → Int) : Prop where
  db : ∀ i, AddrOk fs (ip.db i)
  ib : ∀ i, AddrOk fs (ip.ib i)
  ind : ∀ lbn daddr i, AddrOk fs (ind lbn daddr i)

theorem AddrsOk.bptr {fs : Fs} {ip : Inode} {ind : Int → Int → Nat → Int} (h : AddrsOk fs ip ind)
    (N lbn : Nat) : AddrOk fs (bptr N ind ip lbn) := by
  rcases level_cases N lbn with hdir | ⟨l, rel, hl, hrel, rfl⟩ | hbig
  · rw [bptr_direct hdir]
    exact h.db lbn
  · rw [bptr_level hl hrel]
    exact Radix.lookup_mem (A := Int) (P := AddrOk fs) (addrOk_zero fs)
      (fun _ _ _ _ => h.ind _ _ _) (h.ib l) _ _ _
  · rw [bptr_beyond hbig]
    exact addrOk_zero fs

theorem blkptrtodb_zero (fs : Fs) : blkptrtodb fs 0 = 0 := by
  rw [blkptrtodb, Int.zero_mul]
  rfl

/-- A hole, and only a hole, is reported as -1. -/
theorem bmapReport_bnp {fs : Fs} {ip : Inode} {r : BmapResult} (hsnap : ip.snapshot = false)
    (hfit : blkptrtodb fs r.bnp = 0 → r.bnp = 0) (bn : Int) :
    (bmapReport fs ip bn r).bnp = if r.bnp = 0 then -1 else blkptrtodb fs r.bnp := by
  have hiff : blkptrtodb fs r.bnp = 0 ↔ r.bnp = 0 := ⟨hfit, fun h => by rw [h, blkptrtodb_zero]⟩
  simp only [bmapReport, isSnapMark, hiff, hsnap, Bool.false_and, Bool.false_eq_true, if_false]

/-- `ufs_bmaparray` reports the pointer of the block, and a run of blocks that
lie behind it on the device. -/
theorem ufsBmaparray_spec {fs : Fs} {args : BmapArgs} {ip : Inode}
    {rd : Int → Int → Except Errno (Nat → Int)} {ind : Int → Int → Nat → Int}
    (hrd : ReadsTree fs rd ind) (haddr : AddrsOk fs ip ind) (hsnap : ip.snapshot = false) {bn : Nat}
    {r : BmapResult} (hr : ufsBmaparray fs args rd ip bn = .ok r) :
    let ptr := bptr fs.nindir ind ip
    r.bnp = (if ptr bn = 0 then -1 else blkptrtodb fs (ptr bn)) ∧ (ptr bn = 0 → r.run = 0) ∧
      ∀ j ≤ r.run, ptr (bn + j) = ptr bn + j * fs.frag := by
  intro ptr
  -- Both cases end in `bmapReport` of a result whose `bnp` is the pointer.
  suffices h : ∃ m : BmapResult, r = bmapReport fs ip bn m ∧ m.bnp = ptr bn ∧
      (ptr bn = 0 → m.run = 0) ∧ ∀ j ≤ m.run, ptr (bn + j) = ptr bn + j * fs.frag by
    obtain ⟨m, rfl, hm, hzero, hrun⟩ := h
    refine ⟨?_, hzero, hrun⟩
    rw [bmapReport_bnp hsnap (by rw [hm]; exact (haddr.bptr _ _).eq_zero), hm]
  unfold ufsBmaparray at hr
  rcases level_cases fs.nindir bn with hdir | ⟨l, rel, hl, hrel, rfl⟩ | hbig
  · rw [ufsGetlbns_direct hdir] at hr
    simp only [Int.toNat_natCast, Int.natCast_nonneg, Nat.cast_lt, hdir, true_and, if_true,
      Except.ok.injEq] at hr
    have hptr : ptr bn = ip.db bn := bptr_direct hdir
    refine ⟨_, hr.symm, ?_⟩
    rw [bmapDirect, hptr]
    split
    · next hc =>
        refine ⟨rfl, fun _ => rfl, fun j hj => ?_⟩
        obtain rfl : j = 0 := Nat.le_zero.mp hj
        simp [hptr]
    · next hc =>
        rw [bmapRuns_bnp]
        refine ⟨rfl, fun h0 => absurd (.inr (by rw [h0, blkptrtodb_zero])) hc,
          fun j hj => ?_⟩
        obtain ⟨hlt, hseq⟩ := bmapRuns_spec fs args _ _ _ hdir j hj
        rw [← hseq]
        exact bptr_direct hlt
  · rw [ufsGetlbns_level hl hrel] at hr
    simp only at hr
    cases hw : bmapWalk fs args rd ((levelBase fs.nindir l + rel : Nat) : Int) (ip.ib l)
        (getlbnsPath fs.nindir (levelBase fs.nindir l + rel : Nat) rel (l + 1)
          (fs.nindir ^ (l + 1)) (metaLbn (l + 1) (levelBase fs.nindir l))) with
    | error e =>
        rw [hw] at hr
        cases hr
    | ok m =>
        simp only [hw, Except.ok.injEq] at hr
        have hbase := ndaddr_le_levelBase fs.nindir l
        obtain ⟨hbnp, hzero, hrun⟩ := bmapWalk_spec hrd haddr.ind (Int.natCast_nonneg _) rel (l + 1)
          (levelBase fs.nindir l) (by unfold ndaddr at hbase; omega) (ip.ib l) (haddr.ib l) m hw
        simp only [Nat.mod_eq_of_lt hrel] at hbnp hrun
        have hptr : m.bnp = ptr (levelBase fs.nindir l + rel) := by
          rw [hbnp]
          exact (bptr_level hl hrel).symm
        refine ⟨m, hr.symm, hptr, fun h0 => hzero (hptr.trans h0), fun j hj => ?_⟩
        obtain ⟨hlt, hj2⟩ := hrun j hj
        have hrel' : rel + j < fs.nindir ^ (l + 1) := by
          have := Radix.mod_pow_add_lt hlt l
          rwa [Nat.mod_eq_of_lt hrel] at this
        rw [← hptr, ← hj2.resolve_left (by omega), Nat.add_assoc]
        exact bptr_level hl hrel'
  · rw [ufsGetlbns_efbig hbig] at hr
    simp at hr

/-! ### File bytes and device bytes -/

theorem bsize_pos (fs : Fs) : 0 < fs.bsize := Nat.two_pow_pos _

theorem fragroundup_le {fs : Fs} {n : Nat} (h : n ≤ fs.bsize) : fs.fragroundup n ≤ fs.bsize := by
  have hpos := fs.fsize_pos
  unfold Fs.fragroundup
  rw [fs.bsize_eq] at h ⊢
  apply Nat.mul_le_mul_right
  rw [Nat.div_le_iff_le_mul_add_pred hpos, Nat.mul_comm]
  omega

theorem le_fragroundup (fs : Fs) (n : Nat) : n ≤ fs.fragroundup n := by
  have hpos : 0 < fs.fsize := Nat.two_pow_pos _
  have hdm := Nat.div_add_mod (n + (fs.fsize - 1)) fs.fsize
  have hlt := Nat.mod_lt (n + (fs.fsize - 1)) hpos
  unfold Fs.fragroundup
  rw [Nat.mul_comm]
  omega

/-- The fragments of the last block hold what the file has of it. -/
theorem le_lastblock {fs : Fs} {size off x : Nat} (hsize : off + x ≤ size) (hlast : size < (off / fs.bsize + 1) * fs.bsize) :
    off % fs.bsize + x ≤ fs.fragroundup (fs.blkoff size) := by
  have hpos := bsize_pos fs
  have hoff := Nat.div_add_mod off fs.bsize
  have hdm := Nat.div_add_mod size fs.bsize
  have hsame : size / fs.bsize = off / fs.bsize :=
    le_antisymm (Nat.lt_succ_iff.mp ((Nat.div_lt_iff_lt_mul hpos).mpr hlast)) (Nat.div_le_div_right (by omega))
  rw [hsame] at hdm
  refine le_trans ?_ (le_fragroundup fs _)
  unfold Fs.blkoff
  omega

theorem blksize_le (fs : Fs) (ip : Inode) (lbn : Int) : blksize fs ip lbn ≤ fs.bsize := by
  unfold blksize
  split
  · exact Nat.le_refl _
  · exact fragroundup_le (Nat.le_of_lt (Nat.mod_lt _ (bsize_pos fs)))

/-- One full direct block at fragment 2, with nothing in the buffer cache. -/
def oneBlockInode : Inode where
  snapshot := false
  size := 16384
  blocks := 32
  db := fun i => if i = 0 then 2 else 0
  ib := fun _ => 0
  extb := fun _ => 0

def coldStore : Store where
  cached := fun _ => none
  disk := fun _ _ => 0
  ioerr := fun n => if n < 0 then some .eio else none
  blockmap := fun _ => .error .eio

end UfsX.Proofs
