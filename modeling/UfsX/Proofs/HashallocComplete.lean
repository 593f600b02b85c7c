import UfsX.Proofs.Hashalloc

/-!
# `UfsX.Proofs.HashallocComplete`: `ffs_hashalloc` finds space when there is any

`ffsHashalloc_complete`: with every group readable, the search for a block or for fragments
ends, and it returns 0 exactly when no group has a free block or, for less than a block,
enough free fragments side by side. On 0 every group has refused, and only the log is
different.

A group refuses by its counts. `refuses_iff` reads the counts back as a statement about the
free map, and `hashallocTries_all` says that no group is left out: the rehash starts with
the group after the preferred one, and the last search goes over all the others.
-/

set_option autoImplicit false

namespace UfsX.Proofs

open UfsX.Lib UfsX.Ffs

variable {fs : Fs}

/-! ### Space in a group -/

/-- Group `cg` has a block that is entirely free. -/
def HasBlock (fs : Fs) (s : State) (cg : Nat) : Prop :=
  ∃ b < fs.nblk, whole fs (blkBits fs (s.cgs cg).blksfree b) = true

/-- Group `cg` has `n` free fragments side by side in one block. -/
def HasFrags (fs : Fs) (s : State) (cg n : Nat) : Prop :=
  ∃ b < fs.nblk, ∃ p, p + n ≤ fs.frag ∧ ∀ j < n, blkBits fs (s.cgs cg).blksfree b (p + j) = true

/-- In a sum that is 0 every block has the weight 0. -/
theorem blockSum_eq_zero {w : (Nat → Bool) → Nat} {m : Bitmap} (h : blockSum fs w m = 0) {b : Nat}
    (hb : b < fs.nblk) : w (blkBits fs m b) = 0 :=
  Finset.sum_eq_zero_iff.mp h b (Finset.mem_range.mpr hb)

theorem CgOk.nbfree_iff {cg : Nat} {c : Cg} (h : CgOk fs cg c) :
    c.cs.nbfree ≠ 0 ↔ ∃ b < fs.nblk, whole fs (blkBits fs c.blksfree b) = true := by
  refine ⟨h.exists_whole, ?_⟩
  rintro ⟨b, hb, hw⟩ h0
  have hsum : freeBlocks fs c.blksfree = 0 := by
    rw [h.nbfree] at h0
    exact_mod_cast h0
  have hzero := blockSum_eq_zero hsum hb
  rw [hw] at hzero
  cases hzero

theorem CgOk.frsum_ne_zero {cg : Nat} {c : Cg} (h : CgOk fs cg c) {k b p : Nat} (hk : 0 < k)
    (hkf : k < fs.frag) (hb : b < fs.nblk) (hrun : IsRun (blkBits fs c.blksfree b) fs.frag p k) :
    c.frsum k ≠ 0 := by
  intro h0
  have hsum : freeRuns fs c.blksfree k = 0 := by
    rw [h.frsum k hk hkf] at h0
    exact_mod_cast h0
  have hzero := blockSum_eq_zero hsum hb
  rw [fragRuns_eq_runs _ hk hkf, runs, Finset.card_eq_zero, Finset.filter_eq_empty_iff] at hzero
  have hpk := hrun.2.1
  exact hzero (Finset.mem_range.mpr (by omega)) hrun

/-- The counts refuse a request exactly when the map has no room for it. -/
theorem refuses_iff {s : State} {cg size n : Nat} (h : CgOk fs cg (s.cgs cg)) (hn : 0 < n)
    (hnf : n ≤ fs.frag) (hsize : size = n * fs.fsize ∨ size = fs.bsize) :
    Refuses fs s cg size
      ↔ ¬ HasBlock fs s cg ∧ (size < fs.bsize → ¬ HasFrags fs s cg (fs.numfrags size)) := by
  have hle : size ≤ fs.bsize := by
    rcases hsize with rfl | rfl
    · rw [fs.bsize_eq]
      exact Nat.mul_le_mul_right _ hnf
    · exact le_rfl
  have hblock : (s.cgs cg).cs.nbfree = 0 ↔ ¬ HasBlock fs s cg := by
    rw [← not_iff_not, not_not]
    exact h.nbfree_iff
  have hpos : size < fs.bsize → 0 < fs.numfrags size := by
    intro hlt
    rw [hsize.resolve_right hlt.ne, numfrags_mul]
    exact hn
  constructor
  · rintro ⟨hnone, hfrsum⟩
    refine ⟨hblock.mp hnone, fun hlt => ?_⟩
    rintro ⟨b, hb, p, hp, hset⟩
    -- the fragments lie in a run at least as long, which the counts know
    obtain ⟨q, k, hrun, hk⟩ := exists_isRun_of_set (hpos hlt) hp hset
    have hk0 := hrun.1
    rcases Nat.lt_or_ge k fs.frag with hkf | hkf
    · exact h.frsum_ne_zero hk0 hkf hb hrun (hfrsum hlt.ne k hk hkf)
    · -- a run of a block's size is a free block
      have hkf : k = fs.frag := by
        have := hrun.2.1
        omega
      exact hblock.mp hnone ⟨b, hb, ((isRun_frag_iff _ q).mp (hkf ▸ hrun)).2⟩
  · rintro ⟨hnone, hfrags⟩
    refine ⟨hblock.mpr hnone, fun hne k hk hkf => ?_⟩
    have hlt : size < fs.bsize := lt_of_le_of_ne hle hne
    -- a count that is not 0 stands for a run in the map
    by_contra h0
    have hk0 : 0 < k := lt_of_lt_of_le (hpos hlt) hk
    obtain ⟨b, hb, p, hrun⟩ := h.exists_run hk0 hkf h0
    have hpk := hrun.2.1
    exact hfrags hlt ⟨b, hb, p, by omega, fun j hj => hrun.2.2.1 j (by omega)⟩

/-! ### Every group is tried -/

theorem mem_bruteGroups {ncg : Nat} (left : Nat) : ∀ {cg j : Nat}, cg < ncg → j < left →
    (cg + j) % ncg ∈ bruteGroups ncg left cg := by
  induction left with
  | zero =>
      intro cg j _ hj
      omega
  | succ left ih =>
      intro cg j hcg hj
      rw [bruteGroups]
      cases j with
      | zero =>
          show cg % ncg ∈ _
          rw [Nat.mod_eq_of_lt hcg]
          exact List.mem_cons_self
      | succ j =>
          refine List.mem_cons_of_mem _ ?_
          by_cases hend : cg + 1 = ncg
          · rw [if_pos hend, show cg + (j + 1) = ncg + (0 + j) from by omega, Nat.add_mod_left]
            exact ih (by omega) (by omega)
          · rw [if_neg hend, show cg + (j + 1) = cg + 1 + j from by omega]
            exact ih (by omega) (by omega)

/-- The rehash begins with the next group. -/
theorem mem_rehashGroups {ncg icg : Nat} (hmany : 1 < ncg) (hicg : icg < ncg) :
    (icg + 1) % ncg ∈ rehashGroups ncg ncg 1 icg := by
  obtain ⟨fuel, rfl⟩ : ∃ fuel, ncg = fuel + 1 := ⟨ncg - 1, by omega⟩
  rw [rehashGroups, if_pos hmany]
  have hnext : (if icg + 1 ≥ fuel + 1 then icg + 1 - (fuel + 1) else icg + 1) = (icg + 1) % (fuel + 1) := by
    split
    case isTrue hwrap => rw [show icg + 1 = fuel + 1 from by omega, Nat.mod_self, Nat.sub_self]
    case isFalse hin => rw [Nat.mod_eq_of_lt (by omega)]
  rw [hnext]
  exact List.mem_cons_self

/-- `ffs_hashalloc` leaves no group out. -/
theorem hashallocTries_all {icg pref g : Nat} (hicg : icg < fs.ncg) (hg : g < fs.ncg) :
    ∃ p, (g, p) ∈ hashallocTries fs icg pref := by
  -- `g` is `d` groups after the preferred one
  obtain ⟨d, hd, rfl⟩ : ∃ d < fs.ncg, g = (icg + d) % fs.ncg := by
    refine ⟨(g + (fs.ncg - icg)) % fs.ncg, Nat.mod_lt _ (by omega), ?_⟩
    rw [Nat.add_mod_mod, show icg + (g + (fs.ncg - icg)) = fs.ncg + g from by omega, Nat.add_mod_left,
      Nat.mod_eq_of_lt hg]
  rcases (by omega : d = 0 ∨ d = 1 ∨ 2 ≤ d) with rfl | rfl | h2
  · refine ⟨pref, ?_⟩
    rw [Nat.add_zero, Nat.mod_eq_of_lt hicg]
    exact List.mem_cons_self
  · have hmem := mem_rehashGroups (by omega : 1 < fs.ncg) hicg
    exact ⟨0, List.mem_cons_of_mem _ (List.mem_map_of_mem (List.mem_append_left _ hmem))⟩
  · have hmem := mem_bruteGroups (fs.ncg - 2) (Nat.mod_lt (icg + 2) fs.ncg_pos) (by omega : d - 2 < fs.ncg - 2)
    rw [Nat.mod_add_mod, show icg + 2 + (d - 2) = icg + d from by omega] at hmem
    exact ⟨0, List.mem_cons_of_mem _ (List.mem_map_of_mem (List.mem_append_right _ hmem))⟩

/-! ### The search -/

/-- All calls are made, one after the other, and each returns 0. -/
def Refused (allocator : Allocator) : List (Nat × Nat) → Nat → State → State → Prop
  | [], _, s, s' => s' = s
  | (cg, pref) :: rest, k, s, s' =>
      ∃ t, allocator k s cg pref = .ok (0, t) ∧ Refused allocator rest (k + 1) t s'

/-- The search with readable groups, over any list of tries. -/
theorem tryGroups_complete {size n : Nat} (hn : 0 < n) (hnf : n ≤ fs.frag)
    (hsize : size = n * fs.fsize ∨ size = fs.bsize) (tries : List (Nat × Nat)) :
    ∀ {k : Nat} {s : State}, FsOk fs s → freeAt fs s 0 = false → (∀ x ∈ tries, x.1 < fs.ncg) →
      ∃ r s', tryGroups (blockAllocator fs (fun _ => 0) size (n * fs.fsize)) tries k s = .ok (r, s')
        ∧ (r = 0 ↔ ∀ x ∈ tries, Refuses fs s x.1 size)
        ∧ (r = 0 → Refused (blockAllocator fs (fun _ => 0) size (n * fs.fsize)) tries k s s'
          ∧ s' = { s with log := s'.log }) := by
  induction tries with
  | nil =>
      intro k s _ _ _
      refine ⟨0, s, rfl, iff_of_true rfl fun x hx => ?_, fun _ => ⟨rfl, rfl⟩⟩
      cases hx
  | cons head rest ih =>
      obtain ⟨cg, pref⟩ := head
      intro k s h hboot htries
      obtain ⟨⟨r, t⟩, hone, hend⟩ := ffsAlloccg_end 0 pref h (htries _ List.mem_cons_self) hn hnf hsize
      have hcall : blockAllocator fs (fun _ => 0) size (n * fs.fsize) k s cg pref = .ok (r, t) := hone
      rw [tryGroups, hcall]
      simp only [bind, Except.bind]
      rcases hend with ⟨hno, hr, ht⟩ | ⟨-, hyes, p, hp, halloc, -⟩
      · -- the next groups see the same maps and counts
        have hrefuses : Refuses fs s cg size := hno.resolve_left fun hne => hne rfl
        obtain rfl : r = 0 := hr
        obtain ⟨log, rfl⟩ : ∃ log, t = { s with log := log } := ⟨_, ht⟩
        have hok : FsOk fs { s with log := log } := by
          refine h.congr ?_ ?_ ?_
          all_goals rfl
        obtain ⟨r, s', htry, hiff, hrest⟩ := ih (k := k + 1) hok hboot fun x hx =>
          htries x (List.mem_cons_of_mem _ hx)
        refine ⟨r, s', htry, ?_, fun h0 => ⟨⟨_, hcall, (hrest h0).1⟩, (hrest h0).2⟩⟩
        rw [List.forall_mem_cons]
        exact hiff.trans (and_iff_right hrefuses).symm
      · -- the first group that has room ends the search
        have hne : r ≠ 0 := by
          rw [show r = fs.cgbase cg + p from hp]
          exact addr_ne_zero hboot (halloc.free p (Nat.le_refl p) (by omega))
        rw [if_pos hne]
        refine ⟨r, t, rfl, iff_of_false hne fun hall => ?_, fun h0 => absurd h0 hne⟩
        exact hyes (hall _ List.mem_cons_self)

/-- In a consistent file system with fragment 0 in use and every group readable, the search
returns 0 exactly when there is no room in any group. Then every group has been asked, and
no map and no count is different. -/
theorem ffsHashalloc_complete {s : State} {icg size n : Nat} (bpref : Nat) (h : FsOk fs s)
    (hboot : freeAt fs s 0 = false) (hicg : icg < fs.ncg) (hn : 0 < n) (hnf : n ≤ fs.frag)
    (hsize : size = n * fs.fsize ∨ size = fs.bsize) :
    ∃ r s', ffsHashalloc fs (blockAllocator fs (fun _ => 0) size (n * fs.fsize)) s icg bpref = .ok (r, s')
      ∧ (r = 0 ↔ (∀ g < fs.ncg, ¬ HasBlock fs s g)
        ∧ (size < fs.bsize → ∀ g < fs.ncg, ¬ HasFrags fs s g (fs.numfrags size)))
      ∧ (r = 0 → Refused (blockAllocator fs (fun _ => 0) size (n * fs.fsize)) (hashallocTries fs icg bpref) 0 s s'
        ∧ (∀ g < fs.ncg, ∃ p, (g, p) ∈ hashallocTries fs icg bpref) ∧ s' = { s with log := s'.log }) := by
  have hlt : ∀ x ∈ hashallocTries fs icg bpref, x.1 < fs.ncg := hashallocTries_lt hicg
  obtain ⟨r, s', hcall, hiff, hrest⟩ := tryGroups_complete (k := 0) hn hnf hsize _ h hboot hlt
  refine ⟨r, s', hcall, ?_, fun h0 => ⟨(hrest h0).1, fun g hg => hashallocTries_all hicg hg, (hrest h0).2⟩⟩
  have hgroup (g : Nat) (hg : g < fs.ncg) := refuses_iff (h.cg g hg) hn hnf hsize
  rw [hiff]
  constructor
  · intro hall
    have hrefuses (g : Nat) (hg : g < fs.ncg) : Refuses fs s g size := by
      obtain ⟨p, hp⟩ : ∃ p, (g, p) ∈ hashallocTries fs icg bpref := hashallocTries_all hicg hg
      exact hall _ hp
    exact ⟨fun g hg => ((hgroup g hg).mp (hrefuses g hg)).1,
      fun hsmall g hg => ((hgroup g hg).mp (hrefuses g hg)).2 hsmall⟩
  · rintro ⟨hblock, hfrags⟩ x hx
    exact (hgroup _ (hlt x hx)).mpr ⟨hblock _ (hlt x hx), fun hsmall => hfrags hsmall _ (hlt x hx)⟩

/-- One fragment is searched for in `tinyState`. -/
theorem ffsHashalloc_complete_tinyState :
    ∃ r s', ffsHashalloc tinyFs (blockAllocator tinyFs (fun _ => 0) (1 * tinyFs.fsize) (1 * tinyFs.fsize))
        tinyState 0 0 = .ok (r, s') ∧ r ≠ 0 := by
  obtain ⟨r, s', hcall, hiff, -⟩ := ffsHashalloc_complete (n := 1) 0 fsOk_tinyState boot_tinyState
    (show 0 < tinyFs.ncg from by decide) (by decide) (by decide) (Or.inl rfl)
  refine ⟨r, s', hcall, fun h0 => ?_⟩
  have hblock := (fsOk_tinyState.cg 0 (by decide)).exists_whole nbfree_tinyState
  exact (hiff.mp h0).1 0 (by decide) hblock

end UfsX.Proofs
