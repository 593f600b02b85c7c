import Mathlib.Order.Bounds.Basic
import UfsX.Proofs.IndirNames
import UfsX.Ufs.BmapBuffers

/-!
# `UfsX.Proofs.BmapRuns`: what `ufs_bmaparray` returns, exactly

For a mount that is trusted and a device that can be read. `ufsBmaparray_exact` has the whole
statement: the pointer of the block, the longest runs on both sides of it within one array of
pointers, and the buffers.

`PtrArray` says that an array of pointers holds the pointer of a block at some slot, and just
the pointers of the blocks that lie in one array with it. The two counting loops are greedy,
so their results are greatest elements.
-/

set_option autoImplicit false

namespace UfsX.Proofs.BmapRuns

open UfsX.Lib UfsX.Ufs UfsX.Proofs.IndirNames
open UfsX.Ffs (Fs)

/-! ### The counting loops -/

section Loops

variable {fs : Fs} {ptr : Nat → Int} {maxrun : Int}

/-- Every pointer counted follows the one before it, and the count stops for a reason. -/
theorem runForward_greatest (n bn run : Nat) (hrun : (run : Int) ≤ maxrun) :
    IsGreatest {r : Nat | run ≤ r ∧ (r : Int) ≤ maxrun ∧ r ≤ run + n ∧
        ∀ j, run + j < r → ptr (bn + j) = ptr (bn + j - 1) + fs.frag}
      (runForward fs ptr maxrun n bn run) := by
  induction n generalizing bn run with
  | zero =>
      refine ⟨⟨Nat.le_refl _, hrun, Nat.le_refl _, fun j hj => ?_⟩, fun r hr => hr.2.2.1⟩
      rw [runForward] at hj
      omega
  | succ n ih =>
      by_cases hc : (run : Int) < maxrun ∧ isSequential fs (ptr (bn - 1)) (ptr bn) = true
      · rw [runForward, if_pos hc]
        obtain ⟨⟨hge, hmax, hle, hseq⟩, hgreatest⟩ := ih (bn + 1) (run + 1) (by omega)
        refine ⟨⟨by omega, hmax, by omega, fun j hj => ?_⟩, fun r hr => ?_⟩
        · cases j with
          | zero => exact of_decide_eq_true hc.2
          | succ j =>
              have hstep := hseq j (by omega)
              rwa [Nat.add_right_comm bn 1 j] at hstep
        · obtain ⟨hr1, hr2, hr3, hr4⟩ := hr
          rcases Nat.lt_or_ge run r with hlt | hge'
          · refine hgreatest ⟨hlt, hr2, by omega, fun j hj => ?_⟩
            have hstep := hr4 (j + 1) (by omega)
            rwa [← Nat.add_assoc, Nat.add_right_comm] at hstep
          · omega
      · rw [runForward, if_neg hc]
        refine ⟨⟨Nat.le_refl _, hrun, by omega, fun j hj => absurd hj (by omega)⟩, fun r hr => ?_⟩
        obtain ⟨-, hr2, -, hr4⟩ := hr
        -- a longer run would have passed the test that failed
        by_contra hlt
        exact hc ⟨by omega, decide_eq_true (hr4 0 (by omega))⟩

theorem runBackward_greatest (bn runb : Nat) (hrun : (runb : Int) ≤ maxrun) :
    IsGreatest {r : Nat | runb ≤ r ∧ (r : Int) ≤ maxrun ∧ r ≤ runb + bn ∧
        ∀ j, runb + j < r → ptr (bn - j) = ptr (bn - (j + 1)) + fs.frag}
      (runBackward fs ptr maxrun bn runb) := by
  induction bn generalizing runb with
  | zero =>
      refine ⟨⟨Nat.le_refl _, hrun, Nat.le_refl _, fun j hj => ?_⟩, fun r hr => hr.2.2.1⟩
      rw [runBackward] at hj
      omega
  | succ bn ih =>
      by_cases hc : (runb : Int) < maxrun ∧ isSequential fs (ptr bn) (ptr (bn + 1)) = true
      · rw [runBackward, if_pos hc]
        obtain ⟨⟨hge, hmax, hle, hseq⟩, hgreatest⟩ := ih (runb + 1) (by omega)
        refine ⟨⟨by omega, hmax, by omega, fun j hj => ?_⟩, fun r hr => ?_⟩
        · cases j with
          | zero => exact of_decide_eq_true hc.2
          | succ j =>
              have hstep := hseq j (by omega)
              rwa [Nat.add_sub_add_right, Nat.add_sub_add_right]
        · obtain ⟨hr1, hr2, hr3, hr4⟩ := hr
          rcases Nat.lt_or_ge runb r with hlt | hge'
          · refine hgreatest ⟨hlt, hr2, by omega, fun j hj => ?_⟩
            have hstep := hr4 (j + 1) (by omega)
            rwa [Nat.add_sub_add_right, Nat.add_sub_add_right] at hstep
          · omega
      · rw [runBackward, if_neg hc]
        refine ⟨⟨Nat.le_refl _, hrun, by omega, fun j hj => absurd hj (by omega)⟩, fun r hr => ?_⟩
        obtain ⟨-, hr2, -, hr4⟩ := hr
        by_contra hlt
        exact hc ⟨by omega, decide_eq_true (hr4 0 (by omega))⟩

end Loops

/-! ### Arrays of pointers -/

/-- The pointers of both blocks are in the inode's array of direct blocks, or in one indirect
block. -/
def SameArray (N b b' : Nat) : Prop :=
  (b < ndaddr ∧ b' < ndaddr) ∨
    ∃ l < niaddr, ∃ m, (m + 1) * N ≤ N ^ (l + 1) ∧
      (levelBase N l + m * N ≤ b ∧ b < levelBase N l + m * N + N) ∧
      (levelBase N l + m * N ≤ b' ∧ b' < levelBase N l + m * N + N)

/-- The array `arr` of `lim` pointers has the pointer of block `bn` in slot `slot`. -/
structure PtrArray (N : Nat) (ptr : Nat → Int) (bn : Nat) (arr : Nat → Int) (lim slot : Nat) : Prop where
  lt : slot < lim
  le : slot ≤ bn
  same : ∀ b, SameArray N bn b ↔ bn - slot ≤ b ∧ b < bn - slot + lim
  val : ∀ i < lim, ptr (bn - slot + i) = arr i

/-- Blocks `bn` to `bn + r` lie in one array and one behind the other on the device. -/
def RunAfter (fs : Fs) (ptr : Nat → Int) (bn r : Nat) : Prop :=
  ∀ j < r, SameArray fs.nindir bn (bn + (j + 1)) ∧ ptr (bn + (j + 1)) = ptr (bn + j) + fs.frag

/-- The same for blocks `bn - r` to `bn`. -/
def RunBefore (fs : Fs) (ptr : Nat → Int) (bn r : Nat) : Prop :=
  ∀ j < r, j + 1 ≤ bn ∧ SameArray fs.nindir bn (bn - (j + 1)) ∧ ptr (bn - j) = ptr (bn - (j + 1)) + fs.frag

section Arrays

variable {fs : Fs} {args : BmapArgs} {ptr arr : Nat → Int} {bn lim slot : Nat}

theorem PtrArray.runAfter_iff (ha : PtrArray fs.nindir ptr bn arr lim slot) (r : Nat) :
    RunAfter fs ptr bn r ↔
      r ≤ lim - (slot + 1) ∧ ∀ j < r, arr (slot + 1 + j) = arr (slot + 1 + j - 1) + fs.frag := by
  have hlt := ha.lt
  have hle := ha.le
  have hval : ∀ j, slot + j < lim → ptr (bn + j) = arr (slot + j) := by
    intro j hj
    have hv := ha.val (slot + j) hj
    rwa [← Nat.add_assoc, Nat.sub_add_cancel hle] at hv
  constructor
  · intro h
    have hr : r ≤ lim - (slot + 1) := by
      by_contra hgt
      obtain ⟨hsame, -⟩ := h (lim - (slot + 1)) (by omega)
      have hend := ((ha.same _).mp hsame).2
      omega
    refine ⟨hr, fun j hj => ?_⟩
    have hstep := (h j hj).2
    rw [hval (j + 1) (by omega), hval j (by omega)] at hstep
    have h1 : slot + 1 + j = slot + (j + 1) := by omega
    have h2 : slot + (j + 1) - 1 = slot + j := by omega
    rwa [h1, h2]
  · rintro ⟨hr, h⟩ j hj
    have hstep := h j hj
    have h1 : slot + 1 + j = slot + (j + 1) := by omega
    have h2 : slot + (j + 1) - 1 = slot + j := by omega
    rw [h1, h2] at hstep
    rw [hval (j + 1) (by omega), hval j (by omega)]
    exact ⟨(ha.same _).mpr (by omega), hstep⟩

theorem PtrArray.runBefore_iff (ha : PtrArray fs.nindir ptr bn arr lim slot) (r : Nat) :
    RunBefore fs ptr bn r ↔ r ≤ slot ∧ ∀ j < r, arr (slot - j) = arr (slot - (j + 1)) + fs.frag := by
  have hlt := ha.lt
  have hle := ha.le
  have hval : ∀ j ≤ slot, ptr (bn - j) = arr (slot - j) := by
    intro j hj
    have hv := ha.val (slot - j) (by omega)
    have hsub : bn - slot + (slot - j) = bn - j := by omega
    rwa [hsub] at hv
  constructor
  · intro h
    have hr : r ≤ slot := by
      by_contra hgt
      obtain ⟨hbn, hsame, -⟩ := h slot (by omega)
      have hstart := ((ha.same _).mp hsame).1
      omega
    refine ⟨hr, fun j hj => ?_⟩
    have hstep := (h j hj).2.2
    rwa [hval j (by omega), hval (j + 1) (by omega)] at hstep
  · rintro ⟨hr, h⟩ j hj
    have hstep := h j hj
    rw [hval j (by omega), hval (j + 1) (by omega)]
    exact ⟨by omega, (ha.same _).mpr (by omega), hstep⟩

/-- The limit of the two loops: `maxrun` is only computed for a caller that wants `*runp`. -/
def runLimit (args : BmapArgs) : Int := if args.runp then args.maxrun else 0

/-- `*runp` and `*runb` are the longest runs. -/
theorem bmapRuns_greatest (hmax : 0 ≤ args.maxrun) (ha : PtrArray fs.nindir ptr bn arr lim slot) (daddr : Int) :
    (args.runp = true →
        IsGreatest {r : Nat | (r : Int) ≤ runLimit args ∧ RunAfter fs ptr bn r} (bmapRuns fs args arr lim slot daddr).run) ∧
      (args.runb = true →
        IsGreatest {r : Nat | (r : Int) ≤ runLimit args ∧ RunBefore fs ptr bn r} (bmapRuns fs args arr lim slot daddr).runb) := by
  have hfwd : {r : Nat | (r : Int) ≤ args.maxrun ∧ RunAfter fs ptr bn r} =
      {r : Nat | 0 ≤ r ∧ (r : Int) ≤ args.maxrun ∧ r ≤ 0 + (lim - (slot + 1)) ∧
        ∀ j, 0 + j < r → arr (slot + 1 + j) = arr (slot + 1 + j - 1) + fs.frag} := by
    ext r
    simp only [Set.mem_ofPred_eq, ha.runAfter_iff, Nat.zero_le, true_and, Nat.zero_add]
  have hbwd : {r : Nat | (r : Int) ≤ args.maxrun ∧ RunBefore fs ptr bn r} =
      {r : Nat | 0 ≤ r ∧ (r : Int) ≤ args.maxrun ∧ r ≤ 0 + slot ∧
        ∀ j, 0 + j < r → arr (slot - j) = arr (slot - (j + 1)) + fs.frag} := by
    ext r
    simp only [Set.mem_ofPred_eq, ha.runBefore_iff, Nat.zero_le, true_and, Nat.zero_add]
  unfold bmapRuns runLimit
  by_cases hrunp : args.runp = true
  · rw [if_pos hrunp, if_pos hrunp, hfwd, hbwd]
    refine ⟨fun _ => runForward_greatest _ _ 0 hmax, fun hrunb => ?_⟩
    rw [if_pos hrunb]
    exact runBackward_greatest _ 0 hmax
  · rw [if_neg hrunp, if_neg hrunp]
    refine ⟨fun h => absurd h hrunp, fun _ => ⟨⟨Int.le_refl 0, fun j hj => absurd hj (Nat.not_lt_zero j)⟩, ?_⟩⟩
    intro r hr
    exact_mod_cast hr.1

theorem ptrArray_direct {N : Nat} (hbn : bn < ndaddr) (hptr : ∀ b < ndaddr, ptr b = arr b) :
    PtrArray N ptr bn arr ndaddr bn where
  lt := hbn
  le := Nat.le_refl bn
  same b := by
    rw [Nat.sub_self, Nat.zero_add]
    constructor
    · rintro (⟨-, hb⟩ | ⟨l, -, m, -, ⟨hlow, -⟩, -⟩)
      · exact ⟨Nat.zero_le b, hb⟩
      · have hge := ndaddr_le_levelBase N l
        omega
    · rintro ⟨-, hb⟩
      exact .inl ⟨hbn, hb⟩
  val i hi := by rw [Nat.sub_self, Nat.zero_add, hptr i hi]

/-- The blocks in one indirect block with data block `rel` of a level. -/
theorem sameArray_level {N l rel : Nat} (hN : 0 < N) (hl : l < niaddr) (hrel : rel < N ^ (l + 1)) (b : Nat) :
    SameArray N (levelBase N l + rel) b ↔
      levelBase N l + rel - rel % N ≤ b ∧ b < levelBase N l + rel - rel % N + N := by
  have hmod : rel % N < N := Nat.mod_lt _ hN
  have hdiv : rel / N * N + rel % N = rel := by rw [Nat.mul_comm]; exact Nat.div_add_mod rel N
  have hstart : levelBase N l + rel - rel % N = levelBase N l + rel / N * N := by omega
  have hend : (rel / N + 1) * N ≤ N ^ (l + 1) := by
    rw [Nat.pow_succ] at hrel ⊢
    exact Nat.mul_le_mul_right N (Nat.div_lt_of_lt_mul (by rwa [Nat.mul_comm]))
  rw [hstart]
  constructor
  · rintro (⟨hdir, -⟩ | ⟨l', hl', m, hm, ⟨h1, h2⟩, h3, h4⟩)
    · have hge := ndaddr_le_levelBase N l
      omega
    · -- two levels do not meet, and in one level the blocks are multiples of `N` apart
      rw [Nat.add_mul, Nat.one_mul] at hm
      have htop : ∀ k, levelBase N (k + 1) = levelBase N k + N ^ (k + 1) := fun k => rfl
      have hll : l' = l := by
        rcases Nat.lt_trichotomy l' l with hlt | heq | hgt
        · have hmono := levelBase_mono N (show l' + 1 ≤ l from hlt)
          rw [htop] at hmono
          omega
        · exact heq
        · have hmono := levelBase_mono N (show l + 1 ≤ l' from hgt)
          rw [htop] at hmono
          omega
      subst hll
      have hm' : rel / N = m := by
        rw [Nat.div_eq_iff hN]
        omega
      rw [hm']
      exact ⟨h3, h4⟩
  · rintro ⟨h1, h2⟩
    exact .inr ⟨l, hl, rel / N, hend, ⟨by omega, by omega⟩, h1, h2⟩

end Arrays

/-! ### The walk on a device that can be read -/

section Walk

variable {fs : Fs} {args : BmapArgs} {disk : Int → Nat → Int}

/-- The pointers of the tree, when an indirect block is known by its address. -/
def diskTree (disk : Int → Nat → Int) : Nat → Nat → Int → Nat → Int := fun _ _ daddr => disk daddr

/-- The walk from a subtree's pointer: to a hole, or to the array that has the pointers of
all the blocks around leaf `rel`. The induction is on the height. -/
theorem bmapWalk_reads (htrust : args.untrusted = false) {bn : Int} (hbn : 0 ≤ bn) (rel h first : Nat)
    (hfirst : 0 < first) (daddr : Int) :
    ∃ m, bmapWalk fs args (fun _ d => .ok (disk d)) bn daddr
        (getlbnsPath fs.nindir bn rel (h + 1) (fs.nindir ^ (h + 1)) (metaLbn (h + 1) first)) = .ok m ∧
      ((m = ⟨0, 0, 0⟩ ∧ Radix.lookup fs.nindir (diskTree disk) (h + 1) first daddr (rel % fs.nindir ^ (h + 1)) = 0) ∨
        ∃ a, disk a (rel % fs.nindir) ≠ 0 ∧
          (∀ b, b / fs.nindir = rel / fs.nindir →
            Radix.lookup fs.nindir (diskTree disk) (h + 1) first daddr (b % fs.nindir ^ (h + 1)) =
              disk a (b % fs.nindir)) ∧
          m = bmapRuns fs args (disk a) fs.nindir (rel % fs.nindir) (disk a (rel % fs.nindir))) := by
  have hN : 0 < fs.nindir := Nat.lt_of_lt_of_le (by decide) fs.four_le_nindir
  induction h generalizing first daddr with
  | zero =>
      have hne : metaLbn (0 + 1) first ≠ bn := by
        unfold metaLbn
        omega
      have hnil : ∀ metalbn, getlbnsPath fs.nindir bn rel 0 (fs.nindir ^ 0) metalbn = [] := fun _ => rfl
      rw [getlbnsPath_succ hN rel 0 first hne, hnil, Nat.pow_zero, Nat.div_one, Nat.zero_add, Nat.pow_one, bmapWalk]
      by_cases hd : daddr = 0
      · rw [if_pos (.inl hd), hd]
        exact ⟨_, rfl, .inl ⟨rfl, Radix.lookup_null _ _ _⟩⟩
      · rw [if_neg (not_or.mpr ⟨hd, hne⟩)]
        simp only [htrust, ufsCheckBlkno, Bool.false_eq_true, if_false, true_and]
        by_cases hleaf : disk daddr (rel % fs.nindir) = 0
        · rw [if_neg (not_not.mpr hleaf), bmapWalk, hleaf]
          exact ⟨_, rfl, .inl ⟨rfl, by rw [Radix.lookup_one hd, diskTree, hleaf]⟩⟩
        · rw [if_pos hleaf]
          exact ⟨_, rfl, .inr ⟨daddr, hleaf, fun b _ => by rw [Radix.lookup_one hd, diskTree], rfl⟩⟩
  | succ h ih =>
      have hne : metaLbn (h + 1 + 1) first ≠ bn := by
        unfold metaLbn
        omega
      rw [getlbnsPath_succ hN rel (h + 1) first hne, bmapWalk]
      by_cases hd : daddr = 0
      · rw [if_pos (.inl hd), hd]
        exact ⟨_, rfl, .inl ⟨rfl, Radix.lookup_null _ _ _⟩⟩
      · have hrest : getlbnsPath fs.nindir bn rel (h + 1) (fs.nindir ^ (h + 1))
            (metaLbn (h + 1) (first + rel / fs.nindir ^ (h + 1) % fs.nindir * fs.nindir ^ (h + 1))) ≠ [] := by
          rw [getlbnsPath_succ hN _ _ _ (by unfold metaLbn; omega)]
          exact List.cons_ne_nil _ _
        rw [if_neg (not_or.mpr ⟨hd, hne⟩)]
        simp only [htrust, ufsCheckBlkno, Bool.false_eq_true, if_false]
        rw [if_neg fun hc => hrest hc.1]
        obtain ⟨m, hm, hcases⟩ := ih (first + rel / fs.nindir ^ (h + 1) % fs.nindir * fs.nindir ^ (h + 1)) (by omega)
          (disk daddr (rel / fs.nindir ^ (h + 1) % fs.nindir))
        refine ⟨m, hm, ?_⟩
        -- one level up the leaf is found below the slot that the walk took
        have hup : ∀ b, b / fs.nindir = rel / fs.nindir →
            Radix.lookup fs.nindir (diskTree disk) (h + 1 + 1) first daddr (b % fs.nindir ^ (h + 1 + 1)) =
              Radix.lookup fs.nindir (diskTree disk) (h + 1)
                (first + rel / fs.nindir ^ (h + 1) % fs.nindir * fs.nindir ^ (h + 1))
                (disk daddr (rel / fs.nindir ^ (h + 1) % fs.nindir)) (b % fs.nindir ^ (h + 1)) := by
          intro b hb
          rw [← Nat.pow_one fs.nindir] at hb
          rw [Radix.lookup_succ hd, Radix.mod_pow_div, Radix.mod_pow_mod, diskTree, div_pow_of_le hb (Nat.succ_pos h)]
        rcases hcases with ⟨hzero, hlook⟩ | ⟨a, hleaf, hlook, hruns⟩
        · exact .inl ⟨hzero, (hup rel rfl).trans hlook⟩
        · exact .inr ⟨a, hleaf, fun b hb => (hup b hb).trans (hlook b hb), hruns⟩

/-- The array that the walk ends in, seen from the file. -/
theorem ptrArray_leaf {ip : Inode} {l rel : Nat} (hl : l < niaddr) (hrel : rel < fs.nindir ^ (l + 1)) {arr : Nat → Int}
    (hlook : ∀ b, b / fs.nindir = rel / fs.nindir →
      Radix.lookup fs.nindir (diskTree disk) (l + 1) (levelBase fs.nindir l) (ip.ib l) (b % fs.nindir ^ (l + 1)) =
        arr (b % fs.nindir)) :
    PtrArray fs.nindir (bptr fs.nindir (fun _ d => disk d) ip) (levelBase fs.nindir l + rel) arr fs.nindir
      (rel % fs.nindir) where
  lt := Nat.mod_lt _ (Nat.lt_of_lt_of_le (by decide) fs.four_le_nindir)
  le := Nat.le_trans (Nat.mod_le _ _) (Nat.le_add_left _ _)
  same := sameArray_level (Nat.lt_of_lt_of_le (by decide) fs.four_le_nindir) hl hrel
  val i hi := by
    have hN : 0 < fs.nindir := Nat.lt_of_lt_of_le (by decide) fs.four_le_nindir
    have hdiv : rel / fs.nindir * fs.nindir + rel % fs.nindir = rel := by
      rw [Nat.mul_comm]
      exact Nat.div_add_mod rel fs.nindir
    have hb : levelBase fs.nindir l + rel - rel % fs.nindir + i =
        levelBase fs.nindir l + (rel / fs.nindir * fs.nindir + i) := by omega
    have hlt : rel / fs.nindir * fs.nindir + i < fs.nindir ^ (l + 1) := by
      rw [Nat.pow_succ] at hrel ⊢
      calc rel / fs.nindir * fs.nindir + i < (rel / fs.nindir + 1) * fs.nindir := by rw [Nat.add_mul]; omega
        _ ≤ fs.nindir ^ l * fs.nindir :=
          Nat.mul_le_mul_right _ (Nat.div_lt_of_lt_mul (by rwa [Nat.mul_comm]))
    have hquot : (rel / fs.nindir * fs.nindir + i) / fs.nindir = rel / fs.nindir := by
      rw [Nat.mul_comm, Nat.mul_add_div hN, Nat.div_eq_of_lt hi, Nat.add_zero]
    have hmod : (rel / fs.nindir * fs.nindir + i) % fs.nindir = i := by
      rw [Nat.mul_comm, Nat.mul_add_mod, Nat.mod_eq_of_lt hi]
    have hval := hlook _ hquot
    rw [Nat.mod_eq_of_lt hlt, hmod] at hval
    rw [hb, bptr_level hl hlt]
    exact hval

end Walk

/-! ### The buffers -/

section Bufs

variable {fs : Fs} {args : BmapArgs} {rd : Int → Int → Except Errno (Nat → Int)} {bn : Int}

/-- The buffers change nothing about the result. -/
theorem bmapWalkBufs_fst (bp : Option Int) (h : Heap Int) (daddr : Int) (aps : List Indir) :
    (bmapWalkBufs fs args rd bn bp h daddr aps).1 = bmapWalk fs args rd bn daddr aps := by
  induction aps generalizing bp h daddr with
  | nil => rfl
  | cons ap rest ih =>
      rw [bmapWalkBufs, bmapWalk]
      split
      · rfl
      · cases hrd : rd ap.lbn daddr with
        | error e => cases e <;> rfl
        | ok blk =>
            simp only
            cases ufsCheckBlkno fs args.untrusted (toI32 (blk ap.off)) with
            | some e => rfl
            | none =>
                simp only
                split
                · rfl
                · exact ih _ _ _

theorem ufsBmaparrayBufs_fst (ip : Inode) :
    (ufsBmaparrayBufs fs args rd ip bn).1 = ufsBmaparray fs args rd ip bn := by
  unfold ufsBmaparrayBufs
  cases hp : ufsGetlbns fs.nindir bn with
  | error e => rfl
  | ok p =>
      cases p with
      | nil => rfl
      | cons ap rest =>
          have hfst : (bmapWalkBufs fs args rd bn none Heap.empty (ip.ib ap.off) rest).1 =
              bmapWalk fs args rd bn (ip.ib ap.off) rest := bmapWalkBufs_fst none Heap.empty (ip.ib ap.off) rest
          unfold ufsBmaparray
          rw [hp]
          simp only
          rw [← hfst]
          rcases bmapWalkBufs fs args rd bn none Heap.empty (ip.ib ap.off) rest with ⟨e | r, h⟩ <;> rfl

/-- What the loop owes when it starts over: the buffer in `bp`, and nothing else. -/
structure Owes (bp : Option Int) (h : Heap Int) : Prop where
  held : ∀ x, bp = some x → h.counts x = (1, 0)
  other : ∀ x, bp ≠ some x → h.Settled x

theorem Owes.brelse {bp : Option Int} {h : Heap Int} (ho : Owes bp h) (x : Int) : (brelseOpt bp h).Settled x := by
  cases bp with
  | none => exact ho.other x (Option.some_ne_none x).symm
  | some y =>
      by_cases hx : y = x
      · subst hx
        exact Heap.settled_free (ho.held y rfl)
      · exact (ho.other x fun heq => hx (Option.some.inj heq)).free_of_ne hx

/-- Every buffer that the loop gets is released once: the loop meets every number once. -/
theorem bmapWalkBufs_settled (hnoent : ∀ lbn d, rd lbn d ≠ .error .enoent) (bp : Option Int) (h : Heap Int) (daddr : Int)
    (aps : List Indir) (hnodup : (aps.map Indir.lbn).Nodup) (ho : Owes bp h)
    (hfresh : ∀ ap ∈ aps, h.counts ap.lbn = (0, 0)) (x : Int) :
    (bmapWalkBufs fs args rd bn bp h daddr aps).2.Settled x := by
  induction aps generalizing bp h daddr with
  | nil => exact ho.brelse x
  | cons ap rest ih =>
      rw [bmapWalkBufs]
      split
      · exact ho.brelse x
      · -- the buffer of the level above is released, the next one is new
        have hnew : (brelseOpt bp h).counts ap.lbn = (0, 0) := by
          have hzero := hfresh ap List.mem_cons_self
          cases bp with
          | none => exact hzero
          | some y =>
              have hy := ho.held y rfl
              have hne : y ≠ ap.lbn := by
                rintro rfl
                rw [hy] at hzero
                cases hzero
              rw [brelseOpt, Heap.counts_free_of_ne hne, hzero]
        have hgot : Owes (some ap.lbn) ((brelseOpt bp h).alloc ap.lbn) := by
          refine ⟨fun y hy => ?_, fun y hy => ?_⟩
          · obtain rfl := Option.some.inj hy
            rw [Heap.counts_alloc, hnew, if_pos rfl]
          · exact (ho.brelse y).alloc_of_ne fun heq => hy (congrArg some heq)
        cases hrd : rd ap.lbn daddr with
        | error e =>
            cases e with
            | enoent => exact absurd hrd (hnoent _ _)
            | _ => exact ho.brelse x
        | ok blk =>
            simp only
            cases ufsCheckBlkno fs args.untrusted (toI32 (blk ap.off)) with
            | some e => exact hgot.brelse x
            | none =>
                simp only
                split
                · exact hgot.brelse x
                · rw [List.map_cons, List.nodup_cons] at hnodup
                  refine ih _ _ _ hnodup.2 hgot fun ap' hap' => ?_
                  have hne : ap.lbn ≠ ap'.lbn := fun heq => hnodup.1 (heq ▸ List.mem_map_of_mem hap')
                  have hzero := hfresh ap' (List.mem_cons_of_mem _ hap')
                  rw [Heap.counts_alloc_of_ne hne]
                  cases bp with
                  | none => exact hzero
                  | some y =>
                      have hne' : y ≠ ap'.lbn := by
                        rintro rfl
                        rw [ho.held _ rfl] at hzero
                        cases hzero
                      rw [brelseOpt, Heap.counts_free_of_ne hne', hzero]

theorem mem_path {N base rel n : Nat} {a : Indir} (ha : a ∈ path N base rel n) : ∃ j < n, a = pathIndir N base rel j := by
  induction n with
  | zero => cases ha
  | succ n ih =>
      rcases List.mem_cons.mp ha with rfl | hrest
      · exact ⟨n, Nat.lt_succ_self n, rfl⟩
      · obtain ⟨j, hj, rfl⟩ := ih hrest
        exact ⟨j, Nat.lt_succ_of_lt hj, rfl⟩

theorem path_nodup {N l rel : Nat} (hN : 4 ≤ N) (hl : l < niaddr) (hrel : rel < N ^ (l + 1)) (n : Nat) (hn : n ≤ l + 1) :
    ((path N (levelBase N l) rel n).map Indir.lbn).Nodup := by
  induction n with
  | zero => exact List.nodup_nil
  | succ n ih =>
      rw [path, List.map_cons, List.nodup_cons]
      refine ⟨fun hmem => ?_, ih (by omega)⟩
      obtain ⟨a, ha, heq⟩ := List.mem_map.mp hmem
      obtain ⟨j, hj, rfl⟩ := mem_path ha
      have hjn := pathIndir_inj hN hl hrel (show j ≤ l by omega) (show n ≤ l by omega) heq
      omega

theorem ufsBmaparrayBufs_settled (hnoent : ∀ lbn d, rd lbn d ≠ .error .enoent) (ip : Inode) (b : Nat) (x : Int) :
    (ufsBmaparrayBufs fs args rd ip b).2.Settled x := by
  have hN := fs.four_le_nindir
  unfold ufsBmaparrayBufs
  cases hp : ufsGetlbns fs.nindir b with
  | error e => exact .inl (Heap.counts_empty x)
  | ok p =>
      rcases eq_dataPath (by omega) hp with rfl | ⟨l, rel, hl, hrel, -, rfl⟩
      · exact .inl (Heap.counts_empty x)
      · have hsettled := @bmapWalkBufs_settled fs args _ b hnoent none Heap.empty (ip.ib l)
          _ (path_nodup hN hl hrel (l + 1) (Nat.le_refl _))
          ⟨fun y hy => absurd hy (Option.some_ne_none y).symm, fun y _ => .inl (Heap.counts_empty y)⟩
          (fun ap _ => Heap.counts_empty ap.lbn) x
        rw [dataPath]
        simp only
        split <;> simp_all

end Bufs

/-! ### The whole result -/

section Exact

variable {fs : Fs} {args : BmapArgs} {ip : Inode} {disk : Int → Nat → Int}

/-- What a caller gets for block `bn`, where `ptr` are the pointers of the file's blocks. -/
structure BmapExact (fs : Fs) (args : BmapArgs) (ptr : Nat → Int) (bn : Nat) (r : BmapResult) : Prop where
  bnp : r.bnp = if ptr bn = 0 then -1 else blkptrtodb fs (ptr bn)
  hole : ptr bn = 0 → r.run = 0 ∧ r.runb = 0
  run : ptr bn ≠ 0 → args.runp = true →
    IsGreatest {n : Nat | (n : Int) ≤ runLimit args ∧ RunAfter fs ptr bn n} r.run
  runb : ptr bn ≠ 0 → args.runb = true →
    IsGreatest {n : Nat | (n : Int) ≤ runLimit args ∧ RunBefore fs ptr bn n} r.runb

theorem bmapExact_hole {ptr : Nat → Int} {bn : Nat} (hsnap : ip.snapshot = false) (hzero : ptr bn = 0) :
    BmapExact fs args ptr bn (bmapReport fs ip bn ⟨0, 0, 0⟩) where
  bnp := by rw [bmapReport_bnp hsnap fun _ => rfl, if_pos rfl, if_pos hzero]
  hole _ := ⟨rfl, rfl⟩
  run hne := absurd hzero hne
  runb hne := absurd hzero hne

theorem bmapExact_runs {ptr arr : Nat → Int} {bn lim slot : Nat} (hsnap : ip.snapshot = false) (hmax : 0 ≤ args.maxrun)
    (ha : PtrArray fs.nindir ptr bn arr lim slot) (hfit : blkptrtodb fs (ptr bn) ≠ 0) (hne : ptr bn ≠ 0) :
    BmapExact fs args ptr bn (bmapReport fs ip bn (bmapRuns fs args arr lim slot (ptr bn))) where
  bnp := by rw [bmapReport_bnp hsnap (by rw [bmapRuns_bnp]; exact fun h => absurd h hfit), bmapRuns_bnp]
  hole hzero := absurd hzero hne
  run _ := (bmapRuns_greatest hmax ha (ptr bn)).1
  runb _ := (bmapRuns_greatest hmax ha (ptr bn)).2

/-- For every inode that is not a snapshot, on a trusted mount and a device that can be read,
every data block that a file can have and whose pointer is not shifted to 0, and every `maxrun`
that is not negative: `ufs_bmaparray` succeeds. It returns the device block of the pointer at
the end of the walk, or -1 exactly when that pointer or one on the way to it is null; the longest
runs on both sides, or 0 for a hole; and every buffer that it got it released once. -/
theorem ufsBmaparray_exact (fs : Fs) (args : BmapArgs) (ip : Inode) (disk : Int → Nat → Int)
    (hsnap : ip.snapshot = false) (htrust : args.untrusted = false) (hmax : 0 ≤ args.maxrun) {bn : Nat}
    (hbn : bn < 12 + fs.nindir + fs.nindir ^ 2 + fs.nindir ^ 3)
    (hfit : bptr fs.nindir (fun _ d => disk d) ip bn ≠ 0 →
      blkptrtodb fs (bptr fs.nindir (fun _ d => disk d) ip bn) ≠ 0) :
    ∃ r h, ufsBmaparrayBufs fs args (fun _ d => .ok (disk d)) ip bn = (.ok r, h) ∧ (∀ x, h.Settled x) ∧
      BmapExact fs args (bptr fs.nindir (fun _ d => disk d) ip) bn r := by
  have hN : 0 < fs.nindir := Nat.lt_of_lt_of_le (by decide) fs.four_le_nindir
  have hsettled (x : Int) : (ufsBmaparrayBufs fs args (fun _ d => .ok (disk d)) ip bn).2.Settled x :=
    ufsBmaparrayBufs_settled (fun _ _ h => by cases h) ip bn x
  suffices hres : ∃ r, ufsBmaparray fs args (fun _ d => .ok (disk d)) ip bn = .ok r ∧
      BmapExact fs args (bptr fs.nindir (fun _ d => disk d) ip) bn r by
    obtain ⟨r, hr, hexact⟩ := hres
    have hfst : (ufsBmaparrayBufs fs args (fun _ d => .ok (disk d)) ip bn).1 = _ := ufsBmaparrayBufs_fst ip
    exact ⟨r, _, Prod.ext (hfst.trans hr) rfl, hsettled, hexact⟩
  rcases level_cases fs.nindir bn with hdir | ⟨l, rel, hl, hrel, rfl⟩ | hbig
  · have hptr : ∀ b < ndaddr, bptr fs.nindir (fun _ d => disk d) ip b = ip.db b := fun b hb => bptr_direct hb
    have hrange : 0 ≤ (bn : Int) ∧ (bn : Int) < ndaddr := ⟨Int.natCast_nonneg bn, by exact_mod_cast hdir⟩
    unfold ufsBmaparray
    rw [ufsGetlbns_direct hdir]
    simp only [if_pos hrange, Int.toNat_natCast]
    refine ⟨_, rfl, ?_⟩
    by_cases hzero : ip.db bn = 0
    · rw [bmapDirect, if_pos (.inr (by rw [hzero, blkptrtodb_zero])), hzero]
      exact bmapExact_hole hsnap ((hptr bn hdir).trans hzero)
    · rw [hptr bn hdir] at hfit
      have hnot : ¬ (isSnapMark fs ip (ip.db bn) = true ∨ blkptrtodb fs (ip.db bn) = 0) := by
        simpa [isSnapMark, hsnap] using hfit hzero
      rw [bmapDirect, if_neg hnot, ← hptr bn hdir]
      rw [← hptr bn hdir] at hfit hzero
      exact bmapExact_runs hsnap hmax (ptrArray_direct hdir hptr) (hfit hzero) hzero
  · have hbase := ndaddr_le_levelBase fs.nindir l
    have hnd : ndaddr = 12 := rfl
    obtain ⟨m, hm, hcases⟩ := @bmapWalk_reads fs args disk htrust _
      (Int.natCast_nonneg (levelBase fs.nindir l + rel)) rel l (levelBase fs.nindir l) (by omega) (ip.ib l)
    have hptr : bptr fs.nindir (fun _ d => disk d) ip (levelBase fs.nindir l + rel) =
        Radix.lookup fs.nindir (diskTree disk) (l + 1) (levelBase fs.nindir l) (ip.ib l) rel := bptr_level hl hrel
    unfold ufsBmaparray
    rw [ufsGetlbns_level hl hrel]
    simp only [hm]
    refine ⟨_, rfl, ?_⟩
    rw [Nat.mod_eq_of_lt hrel] at hcases
    rcases hcases with ⟨rfl, hzero⟩ | ⟨a, hleaf, hlook, rfl⟩
    · exact bmapExact_hole hsnap (hptr.trans hzero)
    · have hlast := hlook rel rfl
      rw [Nat.mod_eq_of_lt hrel] at hlast
      have hval := hptr.trans hlast
      have hne : bptr fs.nindir (fun _ d => disk d) ip (levelBase fs.nindir l + rel) ≠ 0 := by rwa [hval]
      rw [← hval]
      exact bmapExact_runs hsnap hmax (ptrArray_leaf hl hrel hlook) (hfit hne) hne
  · rw [levelBase_niaddr] at hbig
    exact absurd hbn (Nat.not_lt_of_le hbig)

/-- Two blocks of which the second lies behind the first. -/
def pairInode : Inode :=
  { oneBlockInode with db := fun i => if i = 0 then 64 else if i = 1 then 64 + tinyFs.frag else 0 }

/-- Around the second block the run goes one block back, and ends at the hole behind it. -/
theorem ufsBmaparray_exact_pair :
    ∃ r h, ufsBmaparrayBufs tinyFs ⟨true, true, 7, false, false⟩ (fun _ _ => .ok fun _ => 0) pairInode (1 : Nat) = (.ok r, h) ∧
      r.run = 0 ∧ r.runb = 1 := by
  obtain ⟨r, h, hrun, -, hexact⟩ := ufsBmaparray_exact tinyFs ⟨true, true, 7, false, false⟩ pairInode (fun _ _ => 0)
    rfl rfl (by decide) (show 1 < 12 + tinyFs.nindir + tinyFs.nindir ^ 2 + tinyFs.nindir ^ 3 by decide)
    fun _ => by decide
  have hafter := (hexact.run (by decide) rfl).1
  have hbefore := hexact.runb (by decide) rfl
  refine ⟨r, h, hrun, ?_, Nat.le_antisymm ?_ (hbefore.2 ⟨by decide, fun j hj => ?_⟩)⟩
  · by_contra hne
    exact absurd (hafter.2 0 (by omega)).2 (by decide)
  · by_contra hgt
    exact absurd (hbefore.1.2 1 (by omega)).1 (by decide)
  · obtain rfl : j = 0 := by omega
    exact ⟨by decide, .inl ⟨by decide, by decide⟩, by decide⟩

/-- A pointer of which the shift leaves nothing. -/
def shiftedInode : Inode := { oneBlockInode with db := fun i => if i = 0 then 2 ^ 60 else 0 }

/-- Its block is reported as a hole. -/
theorem not_ufsBmaparray_exact :
    ufsBmaparray tinyFs ⟨true, true, 7, false, false⟩ (fun _ _ => .ok fun _ => 0) shiftedInode (0 : Nat) =
        .ok ⟨-1, 0, 0⟩ ∧
      ¬ ∀ (fs : Fs) (args : BmapArgs) (ip : Inode) (disk : Int → Nat → Int), ip.snapshot = false →
        args.untrusted = false → 0 ≤ args.maxrun →
          ∀ bn < 12 + fs.nindir + fs.nindir ^ 2 + fs.nindir ^ 3, ∃ r,
            ufsBmaparray fs args (fun _ d => .ok (disk d)) ip bn = .ok r ∧
              (r.bnp = -1 ↔ bptr fs.nindir (fun _ d => disk d) ip bn = 0) := by
  have hrun : ufsBmaparray tinyFs ⟨true, true, 7, false, false⟩ (fun _ _ => .ok fun _ => 0) shiftedInode (0 : Nat) =
      .ok ⟨-1, 0, 0⟩ := by decide +kernel
  refine ⟨hrun, fun h => ?_⟩
  obtain ⟨r, hr, hiff⟩ := h tinyFs ⟨true, true, 7, false, false⟩ shiftedInode (fun _ _ => 0) rfl rfl (by decide) 0 (by decide)
  obtain rfl := Except.ok.inj (hrun.symm.trans hr)
  exact absurd (hiff.mp rfl) (by decide)

end Exact

end UfsX.Proofs.BmapRuns
