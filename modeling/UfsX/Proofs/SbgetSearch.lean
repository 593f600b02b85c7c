import UfsX.Proofs.Sbget

/-!
# `UfsX.Proofs.SbgetSearch`: which disks the search for the superblock can take

A location can hold a superblock, hold none, or hold one that stops the search. `answer` is
what a search gives that tells these three apart. The `panic` in `readsuper` is behind the
test, so the kernel goes down at a location that can be read and holds none.

* `search_runs`: on the disks of `SearchOk`, both hosts give the answer, and owe nothing
  beside the superblock.
* `searchOk_of_kernel`: a search of the kernel that comes to its end is on such a disk.
* `sbgetOk_iff`: when `ffs_sbget` is right, whatever fails behind the search.
-/

set_option autoImplicit false

namespace UfsX.Proofs.SbgetSearch

open UfsX.Lib UfsX.Ffs UfsX.Ffs.Sbget UfsX.Proofs.Sbget
open UfsX.Proofs.Superblock (received sampleSb)

/-! ### The answer -/

inductive Verdict where
  /-- No superblock is here. -/
  | skip
  | stop (error : Nat)
  | here (fs : Sb)

/-- What there is to say about a location. -/
def verdict [SysParam] (read : SbRead) (loc : Nat) : Verdict :=
  match read with
  | .failed error _ => if error.val = ENOENT then .skip else .stop error
  | .ok fs =>
      if fs.magic = FS_BAD_MAGIC then .stop EINVAL
      else if Acceptable fs loc false then
        if fs.mask.ckhash = ffsCalcSbhash fs.mask then .here (received fs.mask loc) else .stop ESTALE
      else .skip

/-- The first location that is not skipped. -/
def answer [SysParam] (disk : Disk) : List Nat → Except Nat Sb
  | [] => .error ENOENT
  | loc :: locs =>
      match verdict (disk loc) loc with
      | .skip => answer disk locs
      | .stop error => .error error
      | .here fs => .ok fs

/-- The locations that can be read, up to the first that ends the search, hold a superblock.
The hash of that one is over bytes of the buffer, and if it is right the summary stays in its
block. -/
def SearchOk [SysParam] (disk : Disk) : List Nat → Prop
  | [] => True
  | loc :: locs =>
      match disk loc with
      | .failed error _ => error.val = ENOENT → SearchOk disk locs
      | .ok fs => fs.magic = FS_BAD_MAGIC ∨
          Acceptable fs loc false ∧ HashInside fs.mask ∧ (fs.mask.ckhash = ffsCalcSbhash fs.mask → Stays fs)

/-! ### The search -/

section Search

variable {disk : Disk} {loc : Nat} {locs : List Nat} {heap : Heap SbObj}

/-- `readsuper` at a location, with a demand for the hash. -/
theorem readsuperOn_acceptable [SysParam] {fs : Sb} (host : Host) (hbad : fs.magic ≠ FS_BAD_MAGIC)
    (hacc : Acceptable fs loc false) (hin : HashInside fs.mask) :
    readsuperOn host (.ok fs) loc false true =
      some (if fs.mask.ckhash = ffsCalcSbhash fs.mask then .ok (received fs.mask loc) else .error ESTALE) := by
  simp only [readsuperOn]
  rw [if_neg hbad, if_pos hacc, if_neg (not_not.mpr hin)]
  by_cases hck : fs.mask.ckhash = ffsCalcSbhash fs.mask
  · rw [if_neg (not_not.mpr hck), if_pos hck]
    rfl
  · rw [if_pos hck, if_neg hck]
    rfl

/-- A location that ends the search with an error. -/
theorem searchLoop_stop [SysParam] {host : Host} {error : Nat}
    (hread : readsuperOn host (disk loc) loc false true = some (.error error)) (hne : error ≠ ENOENT) :
    searchLoop host disk true (loc :: locs) heap =
      some (.error error, freeSb (disk loc) loc (allocSb (disk loc) loc heap)) := by
  simp only [searchLoop, hread]
  rw [if_neg hne]

theorem searchLoop_skip [SysParam] {host : Host}
    (hread : readsuperOn host (disk loc) loc false true = some (.error ENOENT)) :
    searchLoop host disk true (loc :: locs) heap =
      searchLoop host disk true locs (freeSb (disk loc) loc (allocSb (disk loc) loc heap)) := by
  simp only [searchLoop, hread]
  rw [if_pos trivial]

theorem searchLoop_here [SysParam] {host : Host} {fs : Sb}
    (hread : readsuperOn host (disk loc) loc false true = some (.ok fs)) :
    searchLoop host disk true (loc :: locs) heap = some (.ok (loc, fs), allocSb (disk loc) loc heap) := by
  simp only [searchLoop, hread]

/-- Nothing is owed, and what belongs to the other locations and to the load is new. -/
def Clean (locs : List Nat) (heap : Heap SbObj) : Prop :=
  heap.Owes [] ∧ (∀ loc ∈ locs, heap.counts (.sb loc) = (0, 0)) ∧ Fresh heap

/-- The superblock at `loc` is owed. -/
def Held (loc : Nat) (heap : Heap SbObj) : Prop := heap.Owes [.sb loc] ∧ Fresh heap

theorem fresh_sb {read : SbRead} (hfresh : Fresh heap) :
    Fresh (allocSb read loc heap) ∧ Fresh (freeSb read loc (allocSb read loc heap)) := by
  have hkeeps (x : SbObj) (hx : SbObj.sb loc ≠ x) (h : heap.counts x = (0, 0)) :
      (allocSb read loc heap).counts x = (0, 0) ∧
        (freeSb read loc (allocSb read loc heap)).counts x = (0, 0) := by
    rw [freeSb, allocSb]
    cases read.hasBuf with
    | true =>
        simp only [if_true]
        rw [Heap.counts_free_of_ne hx, Heap.counts_alloc_of_ne hx]
        exact ⟨h, h⟩
    | false => exact ⟨h, h⟩
  -- the objects of the load are others than the superblock
  obtain ⟨hsi, hcsp, hbuf⟩ := hfresh
  exact ⟨⟨(hkeeps _ (by simp) hsi).1, (hkeeps _ (by simp) hcsp).1, fun k => (hkeeps _ (by simp) (hbuf k)).1⟩,
    ⟨(hkeeps _ (by simp) hsi).2, (hkeeps _ (by simp) hcsp).2, fun k => (hkeeps _ (by simp) (hbuf k)).2⟩⟩

/-- A buffer that is given back leaves things clean. -/
theorem Clean.next (h : Clean (loc :: locs) heap) (hloc : loc ∉ locs) (read : SbRead) :
    Clean locs (freeSb read loc (allocSb read loc heap)) := by
  obtain ⟨howes, hsb, hfresh⟩ := h
  refine ⟨?_, ?_, (fresh_sb hfresh).2⟩
  · rw [freeSb, allocSb]
    cases read.hasBuf with
    | true => exact (howes.alloc (hsb loc List.mem_cons_self)).free List.not_mem_nil
    | false => exact howes
  · intro other hother
    have hne : SbObj.sb loc ≠ .sb other := fun hsame => hloc (SbObj.sb.inj hsame ▸ hother)
    have hnew := hsb other (List.mem_cons_of_mem loc hother)
    rw [freeSb, allocSb]
    cases read.hasBuf with
    | true =>
        simp only [if_true]
        rw [Heap.counts_free_of_ne hne, Heap.counts_alloc_of_ne hne]
        exact hnew
    | false => exact hnew

theorem Clean.held (h : Clean (loc :: locs) heap) (fs : Sb) : Held loc (allocSb (.ok fs) loc heap) :=
  ⟨h.1.alloc (h.2.1 loc List.mem_cons_self), (fresh_sb h.2.2).1⟩

/-- What a search has found. -/
def Found [SysParam] (disk : Disk) (locs : List Nat) : Except Nat (Nat × Sb) × Heap SbObj → Prop
  | (.error error, heap) => answer disk locs = .error error ∧ heap.Owes []
  | (.ok (loc, fs), heap) => answer disk locs = .ok fs ∧ Held loc heap ∧ Stays fs ∧ 0 ≤ bsize fs

/-- Both hosts come to the same end, and it is the answer. The induction is on the locations
that are left; each one skipped leaves the heap clean. -/
theorem search_runs [SysParam] (hok : SearchOk disk locs) (hdup : locs.Nodup) (hclean : Clean locs heap) :
    ∃ r, (∀ host, searchLoop host disk true locs heap = some r) ∧ Found disk locs r := by
  induction locs generalizing heap with
  | nil => exact ⟨(.error ENOENT, heap), fun _ => rfl, rfl, hclean.1⟩
  | cons loc locs ih =>
      obtain ⟨hloc, hdup⟩ := List.nodup_cons.mp hdup
      -- if the search goes on, the buffer has been given back
      have hnext := hclean.next hloc (disk loc)
      cases hdisk : disk loc with
      | failed error buf =>
          simp only [SearchOk, hdisk] at hok
          have hread (host : Host) :
              readsuperOn host (disk loc) loc false true = some (.error error.val) := by
            rw [hdisk]
            rfl
          -- an error of the read goes on or stops like one of `readsuper`
          by_cases herror : error.val = ENOENT
          · obtain ⟨r, hrun, hfound⟩ := ih (hok herror) hdup hnext
            refine ⟨r, ?_, ?_⟩
            · intro host
              rw [searchLoop_skip (by rw [hread, herror])]
              exact hrun host
            · have hanswer : answer disk (loc :: locs) = answer disk locs := by
                simp only [answer, verdict, hdisk, if_pos herror]
              simpa only [Found, hanswer] using hfound
          · refine ⟨(.error error.val, freeSb (disk loc) loc (allocSb (disk loc) loc heap)), ?_, ?_, hnext.1⟩
            · exact fun host => searchLoop_stop (hread host) herror
            · simp only [answer, verdict, hdisk, if_neg herror]
      | ok fs =>
          simp only [SearchOk, hdisk] at hok
          by_cases hbad : fs.magic = FS_BAD_MAGIC
          · have hread (host : Host) : readsuperOn host (disk loc) loc false true = some (.error EINVAL) := by
              simp only [hdisk, readsuperOn, if_pos hbad]
            refine ⟨(.error EINVAL, freeSb (disk loc) loc (allocSb (disk loc) loc heap)), ?_, ?_, hnext.1⟩
            · exact fun host => searchLoop_stop (hread host) (by decide)
            · simp only [answer, verdict, hdisk, if_pos hbad]
          · obtain ⟨hacc, hin, hstays⟩ := hok.resolve_left hbad
            have hread (host : Host) := readsuperOn_acceptable host hbad hacc hin
            rw [← hdisk] at hread
            -- the first superblock is taken, or stops the search by its hash
            by_cases hck : fs.mask.ckhash = ffsCalcSbhash fs.mask
            · simp only [if_pos hck] at hread
              have haccepted : Accepted .user fs loc false true (received fs.mask loc) := by
                left
                rw [← hdisk]
                exact hread .user
              refine ⟨(.ok (loc, received fs.mask loc), allocSb (disk loc) loc heap), ?_, ?_, ?_, ?_, ?_⟩
              · exact fun host => searchLoop_here (hread host)
              · simp only [answer, verdict, hdisk, if_neg hbad, if_pos hacc, if_pos hck]
              · rw [hdisk]
                exact hclean.held fs
              · exact (layout_congr haccepted.acceptable.2).1.mpr (hstays hck)
              · exact Int.le_of_lt haccepted.bounds.1
            · simp only [if_neg hck] at hread
              refine ⟨(.error ESTALE, freeSb (disk loc) loc (allocSb (disk loc) loc heap)), ?_, ?_, hnext.1⟩
              · exact fun host => searchLoop_stop (hread host) (by decide)
              · simp only [answer, verdict, hdisk, if_neg hbad, if_pos hacc, if_neg hck]

/-- A search of the kernel that comes to its end has met no location without a superblock. -/
theorem searchOk_of_kernel [SysParam] {r : Except Nat (Nat × Sb) × Heap SbObj}
    (h : searchLoop .kernel disk true locs heap = some r)
    (hstays : ∀ loc fs, r.1 = .ok (loc, fs) → 0 ≤ bsize fs → Stays fs) : SearchOk disk locs := by
  induction locs generalizing heap with
  | nil => trivial
  | cons loc locs ih =>
      cases hdisk : disk loc with
      | failed error buf =>
          simp only [SearchOk, hdisk]
          intro herror
          have hread : readsuperOn .kernel (disk loc) loc false true = some (.error ENOENT) := by
            rw [hdisk, ← herror]
            rfl
          rw [searchLoop_skip hread] at h
          exact ih h
      | ok fs =>
          simp only [SearchOk, hdisk]
          rw [or_iff_not_imp_left]
          intro hbad
          -- whatever `readsuper` does not return from, the search does not return from
          have hnone (hno : readsuperOn .kernel (disk loc) loc false true = none) : False := by
            simp only [searchLoop, hno] at h
            cases h
          have hacc : Acceptable fs loc false := by
            by_contra hacc
            refine hnone ?_
            simp only [hdisk, readsuperOn, if_neg hbad, if_neg hacc]
          have hin : HashInside fs.mask := by
            by_contra hin
            refine hnone ?_
            simp only [hdisk, readsuperOn, if_neg hbad, if_pos hacc, if_pos hin]
          refine ⟨hacc, hin, ?_⟩
          intro hck
          have hread := readsuperOn_acceptable .kernel hbad hacc hin
          rw [if_pos hck] at hread
          have haccepted : Accepted .kernel fs loc false true (received fs.mask loc) := Or.inl hread
          rw [← hdisk] at hread
          -- what has been found here is the result
          rw [searchLoop_here hread] at h
          refine (layout_congr haccepted.acceptable.2).1.mp ?_
          exact hstays loc _ (by rw [← Option.some.inj h]) (Int.le_of_lt haccepted.bounds.1)

end Search

/-! ### The call -/

section Call

variable {disk : Disk} {out : Outcomes}

/-- The end of a call that is the answer. If there is a superblock, an allocation or a read
behind the search may still fail. Every error leaves nothing allocated. -/
def Answers [SysParam] (disk : Disk) (out : Outcomes) (r : SbgetEnd) : Prop :=
  match r.result with
  | .ok fs => answer disk sblockTry = .ok fs
  | .error error =>
      (∀ x, r.heap.Settled x) ∧
        (answer disk sblockTry = .error error ∨
          ∃ fs, answer disk sblockTry = .ok fs ∧
            ((error = ENOSPC ∧ ¬ Allocated fs out) ∨
              ∃ k failure buf, out.piece k = .failed failure buf ∧ error = failure.val))

/-- In the kernel and in libufs the call comes to the same end, stores nothing outside its
block, and gives the answer. -/
def SbgetOk [SysParam] (disk : Disk) (out : Outcomes) : Prop :=
  ∃ fuel r, (∀ host, sbget host disk out fuel = some r) ∧ Inside r.block r.stores ∧ Answers disk out r

theorem clean_empty : Clean sblockTry (Heap.empty : Heap SbObj) :=
  ⟨Heap.owes_empty, fun _ _ => rfl, rfl, rfl, fun _ => rfl⟩

/-- The search comes first, and the load of what it has found. -/
theorem sbget_error [SysParam] {host : Host} {fuel error : Nat} {heap : Heap SbObj}
    (h : searchLoop host disk true sblockTry .empty = some (.error error, heap)) :
    sbget host disk out fuel = some ⟨.error error, 0, [], heap⟩ := by
  rw [sbget, h]
  rfl

theorem sbget_found [SysParam] {host : Host} {fuel loc : Nat} {fs : Sb} {heap : Heap SbObj}
    (h : searchLoop host disk true sblockTry .empty = some (.ok (loc, fs), heap)) :
    sbget host disk out fuel =
      (loadSummary fs loc out fuel heap).bind fun load =>
        if load.error ≠ 0 then some ⟨.error load.error, load.block, load.stores, load.heap⟩
        else some ⟨.ok fs, load.block, load.stores, load.heap⟩ := by
  rw [sbget, h, Option.bind_eq_bind, Option.bind_some]
  dsimp only
  rw [Option.bind_eq_bind]

theorem sbgetOk_of_searchOk [SysParam] (hok : SearchOk disk sblockTry) (out : Outcomes) : SbgetOk disk out := by
  obtain ⟨⟨result, heap⟩, hrun, hfound⟩ := search_runs hok (by decide) clean_empty
  cases result with
  | error error =>
      obtain ⟨hanswer, howes⟩ := hfound
      refine ⟨0, ⟨.error error, 0, [], heap⟩, fun host => sbget_error (hrun host), ?_, ?_⟩
      · intro st hst
        cases hst
      · exact ⟨howes.settled, Or.inl hanswer⟩
  | ok found =>
      obtain ⟨loc, fs⟩ := found
      obtain ⟨hanswer, ⟨howes, hfresh⟩, hstays, hbsize⟩ := hfound
      obtain ⟨fuel, load, hload, hin, -⟩ := hstays.load hbsize loc out heap
      -- the answer, or an error of the load
      by_cases herror : load.error = 0
      · refine ⟨fuel, ⟨.ok fs, load.block, load.stores, load.heap⟩, ?_, hin, hanswer⟩
        intro host
        rw [sbget_found (hrun host), hload, Option.bind_some, if_neg (not_not.mpr herror)]
      · refine ⟨fuel, ⟨.error load.error, load.block, load.stores, load.heap⟩, ?_, hin, ?_⟩
        · intro host
          rw [sbget_found (hrun host), hload, Option.bind_some, if_pos herror]
        · exact ⟨load_settled hload herror howes hfresh, Or.inr ⟨fs, hanswer, load_error hload herror⟩⟩

/-- A call of the kernel that returns, whatever fails, is on a disk that it can take. -/
theorem searchOk_of_returns [SysParam] (h : ∀ out, ∃ fuel r, sbget .kernel disk out fuel = some r ∧ Inside r.block r.stores) :
    SearchOk disk sblockTry := by
  cases hsearch : searchLoop .kernel disk true sblockTry .empty with
  | none =>
      obtain ⟨fuel, r, hrun, -⟩ := h allWell
      rw [sbget, hsearch] at hrun
      cases hrun
  | some r =>
      refine searchOk_of_kernel hsearch ?_
      intro loc fs hfound hbsize
      obtain ⟨result, heap⟩ := r
      change result = _ at hfound
      rw [hfound] at hsearch
      refine (returns_iff loc heap hbsize).mp ?_
      intro out
      -- the search does not depend on what fails behind it
      obtain ⟨fuel, r, hrun, hin⟩ := h out
      rw [sbget_found hsearch] at hrun
      cases hload : loadSummary fs loc out fuel heap with
      | none =>
          rw [hload] at hrun
          cases hrun
      | some load =>
          rw [hload, Option.bind_some] at hrun
          refine ⟨fuel, load, hload, ?_⟩
          split at hrun
          all_goals
            rw [← Option.some.inj hrun] at hin
            exact hin

/-- The call is right, whatever fails behind the search, on the disks that the kernel can
take, and on no others. -/
theorem sbgetOk_iff [SysParam] : ∀ disk, (∀ out, SbgetOk disk out) ↔ SearchOk disk sblockTry := by
  intro disk
  constructor
  · intro h
    refine searchOk_of_returns ?_
    intro out
    obtain ⟨fuel, r, hrun, hin, -⟩ := h out
    exact ⟨fuel, r, hrun .kernel, hin⟩
  · exact sbgetOk_of_searchOk

end Call

attribute [local instance] SysParam.macos

/-- A disk with the superblock of UFS1, and zeros at the other locations. -/
def ufs1Disk : Disk := fun loc =>
  if loc = SBLOCK_UFS1 then .ok ((sampleSb 0).write32 1372 FS_UFS1_MAGIC) else .ok fun _ => 0

/-- The superblock of UFS1 is the answer, and the kernel does not get to it. -/
theorem not_sbgetOk :
    (∃ fs, answer ufs1Disk sblockTry = .ok fs) ∧ ∀ out, ¬ SbgetOk ufs1Disk out := by
  have hzero : ufs1Disk SBLOCK_UFS2 = .ok fun _ => 0 := if_neg (by decide)
  have hufs1 : ufs1Disk SBLOCK_UFS1 = .ok ((sampleSb 0).write32 1372 FS_UFS1_MAGIC) := if_pos rfl
  have hbad : ¬ Sb.magic (fun _ => 0) = FS_BAD_MAGIC := by decide +kernel
  have hacc : ¬ Acceptable (fun _ => 0) SBLOCK_UFS2 false := by decide +kernel
  constructor
  · have hskip : verdict (ufs1Disk SBLOCK_UFS2) SBLOCK_UFS2 = .skip := by
      simp only [hzero, verdict, if_neg hbad, if_neg hacc]
    have hhere : verdict (ufs1Disk SBLOCK_UFS1) SBLOCK_UFS1 =
        .here (received (Sb.mask ((sampleSb 0).write32 1372 FS_UFS1_MAGIC)) SBLOCK_UFS1) := by
      simp only [hufs1, verdict]
      rw [if_neg (by decide +kernel), if_pos (by decide +kernel), if_pos (by decide +kernel)]
    refine ⟨received (Sb.mask ((sampleSb 0).write32 1372 FS_UFS1_MAGIC)) SBLOCK_UFS1, ?_⟩
    simp only [sblockTry, answer, hskip, hhere]
  · intro out h
    obtain ⟨fuel, r, hrun, -⟩ := h
    have hnone : readsuperOn .kernel (ufs1Disk SBLOCK_UFS2) SBLOCK_UFS2 false true = none := by
      simp only [hzero, readsuperOn, if_neg hbad, if_neg hacc]
    have hsearch : searchLoop .kernel ufs1Disk true sblockTry .empty = none := by
      simp only [sblockTry, searchLoop, hnone]
    have hkernel := hrun .kernel
    rw [sbget, hsearch] at hkernel
    cases hkernel

end UfsX.Proofs.SbgetSearch
