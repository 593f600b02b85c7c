import UfsX.Proofs.DirRun

/-!
# `UfsX.Proofs.DirhashFree`: the free space that a hash table knows of

`FreeExact` says that the counts of free space in a hash table are those of the
directory: `dh_blkfree` of every block, and in `dh_firstfree` the first block of every
count. What follows for the functions that read them is part of it:
`ufsdirhash_findfree` finds space whenever a block has it, and neither it nor
`ufsdirhash_dirtrunc` panics. `dirhash_free` proves it of every table that
`ufsdirhash_build` and the calls on the directory have made.

A directory is at most `MAXDIRSIZE` bytes long, since offsets have 32 bits.
`ufsdirhash_build` does not see what is behind 2 GiB (`build_short`).
-/

set_option autoImplicit false

namespace UfsX.Proofs

open UfsX.Lib UfsX.Ufs
open Relation (ReflTransGen)

/-! ### The unused bytes of a block -/

/-- The unused bytes of block `b`, of records that stand from offset `o` on. -/
def unusedIn (b : Nat) : Nat → List Rec → Nat
  | _, [] => 0
  | o, r :: rs => (if o / DIRBLKSIZ = b then r.free else 0) + unusedIn b (o + r.reclen) rs

section Unused

variable {ofs : Bool} {b o : Nat} {rs : List Rec}

theorem unusedIn_append (rs' : List Rec) :
    unusedIn b o (rs ++ rs') = unusedIn b o rs + unusedIn b (o + recsLen rs) rs' := by
  induction rs generalizing o with
  | nil => simp [unusedIn]
  | cons r rs ih => simp [unusedIn, ih, Nat.add_assoc]

/-- Records in front of the block. -/
theorem unusedIn_before (hpos : ∀ r ∈ rs, 0 < r.reclen) (hle : o + recsLen rs ≤ b * DIRBLKSIZ) :
    unusedIn b o rs = 0 := by
  induction rs generalizing o with
  | nil => rfl
  | cons r rs ih =>
      have hr := hpos r List.mem_cons_self
      rw [recsLen_cons] at hle
      have hrest := ih (o := o + r.reclen) (fun r' hr' => hpos r' (List.mem_cons_of_mem _ hr')) (by omega)
      have hne : o / DIRBLKSIZ ≠ b := by
        unfold DIRBLKSIZ at *
        omega
      rw [unusedIn, if_neg hne, hrest]

/-- Records behind the block. -/
theorem unusedIn_after (hle : (b + 1) * DIRBLKSIZ ≤ o) : unusedIn b o rs = 0 := by
  induction rs generalizing o with
  | nil => rfl
  | cons r rs ih =>
      have hne : o / DIRBLKSIZ ≠ b := by
        unfold DIRBLKSIZ at *
        omega
      rw [unusedIn, if_neg hne, ih (by omega)]

/-- The records of the block. -/
theorem unusedIn_block (hpos : ∀ r ∈ rs, 0 < r.reclen) (hlo : b * DIRBLKSIZ ≤ o)
    (hhi : o + recsLen rs ≤ (b + 1) * DIRBLKSIZ) : unusedIn b o rs = freeOf rs := by
  induction rs generalizing o with
  | nil => rfl
  | cons r rs ih =>
      have hr := hpos r List.mem_cons_self
      rw [recsLen_cons] at hhi
      have hrest := ih (o := o + r.reclen) (fun r' hr' => hpos r' (List.mem_cons_of_mem _ hr'))
        (by omega) (by omega)
      have heq : o / DIRBLKSIZ = b := by
        unfold DIRBLKSIZ at *
        omega
      rw [unusedIn, if_pos heq, hrest, freeOf_cons]

/-- What a block has is in use, or is not. -/
theorem unusedIn_add_usedIn (hl : Layout ofs (recsLen rs) rs) (hb : (b + 1) * DIRBLKSIZ ≤ recsLen rs) :
    unusedIn b 0 rs + usedIn b (index 0 rs) = DIRBLKSIZ := by
  have hpos : ∀ r ∈ rs, 0 < r.reclen := fun r hr => (hl.recs r hr).pos
  obtain ⟨before, blk, after, hrs, hbefore, hlen, hused⟩ := exists_block hl.fits hl.recs hb
  have hzero : unusedIn b 0 before = 0 :=
    unusedIn_before (fun r hr => hpos r (by rw [hrs]; simp [hr])) (by omega)
  have hmid : unusedIn b (b * DIRBLKSIZ) blk = freeOf blk :=
    unusedIn_block (fun r hr => hpos r (by rw [hrs]; simp [hr])) (le_refl _)
      (by rw [hlen, Nat.add_mul]; omega)
  have hzero' : unusedIn b (b * DIRBLKSIZ + DIRBLKSIZ) after = 0 :=
    unusedIn_after (by rw [Nat.add_mul]; omega)
  have hsum : unusedIn b 0 rs = freeOf blk := by
    rw [hrs, unusedIn_append, unusedIn_append, hzero, recsLen_append, hbefore, hlen, Nat.zero_add,
      Nat.zero_add, Nat.zero_add, hmid, hzero', Nat.add_zero]
  omega

end Unused

/-! ### The counts -/

/-- The counts of the table are those of the directory. -/
structure FreeExact (fnv : List UInt8 → Nat) (d : Dir) (dh : Dirhash) (rs : List Rec) : Prop where
  dirblks : d.size = dh.dirblks * DIRBLKSIZ
  blkfree : ∀ b, b < dh.dirblks → dh.blkfree b * DIRALIGN = unusedIn b 0 rs
  firstfree : ∀ k, k ≤ DH_NFSTATS →
    IsFirst (fun b => min (dh.blkfree b) DH_NFSTATS = k) dh.dirblks (dh.firstfree k)
  /-- No panic, and -1 only when no block has room for a name of `n` bytes. -/
  findfree : ∀ n, n ≤ UFS_MAXNAMLEN → ∃ slot, ufsdirhashFindfree dh d.data (directsiz n) = some slot
    ∧ (slot = none → ∀ b, b < dh.dirblks → unusedIn b 0 rs < directsiz n)
  /-- No live record stands at the end of what is useful, or behind it. -/
  enduseful : 0 ≤ dh.enduseful → ∀ p ∈ index 0 rs, (p.1 : Int) < dh.enduseful
  dirtrunc : ∀ e, DIRBLKSIZ ∣ e → e ≤ d.size → (∀ p ∈ index 0 rs, p.1 < e) → dh.dirtrunc e ≠ none
  /-- A new name is entered without a panic. -/
  enter : ∀ nameiop dirp isrename, nameiop = .create ∨ nameiop = .rename → EntryOk false dirp →
    dirp.name ∉ namesOf rs → d.size + DIRBLKSIZ ≤ MAXDIRSIZE →
    ∃ d₁ d₂, d.ufsLookupIno fnv false nameiop dirp.name = some (.ejustreturn, d₁)
      ∧ d₁.ufsDirenter fnv false dirp isrename = some d₂

section Findfree

variable {fnv : List UInt8 → Nat} {m : Mem} {size needed : Nat} {rs : List Rec} {dh : Dirhash}

theorem blkfree2idx_eq_min (n : Nat) : blkfree2idx n = min n DH_NFSTATS := by
  unfold blkfree2idx
  split <;> omega

/-- Without a slot, no block has the room. -/
theorem findfree_none (hd : DirOk false m size rs) (h : HashOk fnv dh (index 0 rs) size)
    (hpos : 0 < needed) (hle : needed ≤ DH_NFSTATS * DIRALIGN)
    (hnone : ufsdirhashFindfree dh m needed = some none) :
    ∀ b, b < dh.dirblks → dh.blkfree b * DIRALIGN < needed := by
  intro b hb
  by_contra hge
  -- the count of this block is one of those looked at, so a block was found
  have hidx := (h.stats.firstfree (blkfree2idx (dh.blkfree b)) (blkfree2idx_le _).1)
  have hne : dh.firstfree (blkfree2idx (dh.blkfree b)) ≠ -1 := by
    intro hno
    rw [hno] at hidx
    exact hidx.none_of_eq b hb rfl
  have hlow : howmany needed DIRALIGN ≤ blkfree2idx (dh.blkfree b) := by
    rw [blkfree2idx_eq_min]
    unfold howmany DIRALIGN at *
    omega
  have hhigh := (blkfree2idx_le (dh.blkfree b)).1
  obtain ⟨idx, hfind⟩ : ∃ idx, findfreeIdx dh needed = some idx := by
    refine Option.isSome_iff_exists.mp (List.find?_isSome.mpr ⟨blkfree2idx (dh.blkfree b), ?_, ?_⟩)
    · rw [List.mem_range'_1]
      omega
    · exact decide_eq_true hne
  obtain ⟨so, sz, hsome, -⟩ := findfree_found hd h hpos hfind
  rw [hsome] at hnone
  cases hnone

end Findfree

/-- The free space of a hash table is that of its directory, whatever calls have made
it. -/
theorem dirhash_free {s₀ s : HashedDir} {dh : Dirhash} (h : Unhashed s₀)
    (hrun : ReflTransGen DirStep s₀ s) (hdh : s.dir.dirhash = some dh) :
    ∃ rs, DirOk false s.dir.data s.dir.size rs ∧ FreeExact s.fnv s.dir dh rs := by
  obtain ⟨⟨rs, hs⟩, hsize, -⟩ := DirInv.of_run h hrun
  obtain ⟨-, hok⟩ := hs.hash dh hdh
  have hd := hs.dir
  have hblks := hok.stats.size_eq
  have hlayout : Layout false (recsLen rs) rs := by
    rw [← hd.size_eq]
    exact hd.toLayout
  have hfree : ∀ b, b < dh.dirblks → dh.blkfree b * DIRALIGN = unusedIn b 0 rs := by
    intro b hb
    have hsum := hok.stats.blkfree b hb
    have hle : (b + 1) * DIRBLKSIZ ≤ recsLen rs := by
      rw [← hd.size_eq, hblks]
      exact Nat.mul_le_mul_right _ hb
    have hblock := unusedIn_add_usedIn hlayout hle
    rw [Nat.mul_comm]
    omega
  refine ⟨rs, hd, hblks, hfree, ?_, ?_, ?_, ?_, ?_⟩
  · intro k hk
    refine (hok.stats.firstfree k hk).congr fun b _ => ?_
    rw [blkfree2idx_eq_min]
  · intro n hn
    have hpos : 0 < directsiz n := by
      have := eight_le_directsiz n
      omega
    have hmax : directsiz n ≤ DH_NFSTATS * DIRALIGN := (directsiz_lt hn).trans (by decide)
    obtain hnone | ⟨so, sz, hsome, -⟩ := findfree_region hd hok hpos
    · refine ⟨none, hnone, fun _ b hb => ?_⟩
      rw [← hfree b hb]
      exact findfree_none hd hok hpos hmax hnone b hb
    · exact ⟨_, hsome, fun hno => by cases hno⟩
  · intro hpos p hp
    obtain hno | ⟨e, he, -, hlive⟩ := hok.stats.enduseful hd.index_lt
    · omega
    · rw [he]
      exact_mod_cast hlive p hp
  · intro e hblk hle hlive hno
    obtain ⟨dirhash, hsome, -⟩ := hok.dirtrunc hblk hle hlive
    rw [hno] at hsome
    cases hsome
  · intro nameiop dirp isrename hiop hentry hnew hgrow
    obtain ⟨d₁, d₂, -, hlook, henter, -⟩ := enter_ok isrename hs hentry hnew hgrow hiop
    exact ⟨d₁, d₂, hlook, henter⟩

/-- After the removal of a long name, with three entries left. -/
theorem dirhash_free_removed :
    ∃ (s : HashedDir) (dh : Dirhash) (rs : List Rec), ReflTransGen DirStep ⟨sparseDir, List.length⟩ s
      ∧ s.dir.dirhash = some dh ∧ entriesOf rs = [([97], 4, 8), ([99], 6, 8), ([100], 7, 8)]
      ∧ FreeExact s.fnv s.dir dh rs := by
  obtain ⟨s, dh, hrun, hdh, hentries⟩ := sparse_run
  obtain ⟨rs, hd, hfree⟩ := dirhash_free unhashed_sparseDir hrun hdh
  exact ⟨s, dh, rs, hrun, hdh, hentries rs hd, hfree⟩

/-! ### A directory of more than 2 GiB -/

/-- Empty blocks up to 2 GiB, and an entry behind them. -/
def farData : Mem := fun x =>
  if x < 2147483648 then (if x % 512 = 5 then 2 else 0) else lastEntry.bytes false 512 (x - 2147483648)

def farRecs : List Rec := List.replicate 4194304 freeRec ++ [entryRec lastEntry 512]

theorem farData_holds (n : Nat) {o : Nat} (hblk : 512 ∣ o) (hle : o + 512 * n ≤ 2147483648) :
    Holds false farData o (List.replicate n freeRec) := by
  refine holds_free (e := 2147483648) (fun x hx => ?_) n o hblk hle
  unfold farData
  rw [if_pos hx]

theorem farData_ok : DirOk false farData 2147484160 farRecs where
  size_eq := by
    unfold farRecs
    rw [recsLen_append, recsLen_replicate]
    rfl
  blocks := ⟨4194305, rfl⟩
  fits := by
    unfold farRecs
    rw [fits_append, recsLen_replicate]
    exact ⟨freeRecs_fits _ ⟨0, rfl⟩, by decide, trivial⟩
  recs := by
    intro r hr
    obtain hr | hr := List.mem_append.mp hr
    · exact freeRecs_ok _ r hr
    · obtain rfl := List.mem_singleton.mp hr
      exact ⟨⟨128, rfl⟩, by decide, by decide, by decide⟩
  holds := by
    unfold farRecs
    rw [holds_append, recsLen_replicate]
    exact ⟨farData_holds _ ⟨0, rfl⟩ (by decide), by decide +kernel, trivial⟩
  names := by
    unfold farRecs
    rw [namesOf_append, namesOf, liveOf_eq_nil (freeRecs_dead _)]
    exact List.nodup_singleton _

/-- The loop goes over empty blocks, and enters nothing. -/
theorem buildLoop_free (fnv : List UInt8 → Nat) (dh : Dirhash) (n fuel : Nat) {o : Nat} (hblk : 512 ∣ o)
    (hle : o + 512 * n ≤ 2147483648) :
    buildLoop fnv farData 2147484160 (n + fuel) o dh
      = buildLoop fnv farData 2147484160 fuel (o + 512 * n) dh := by
  induction n generalizing o with
  | zero => rw [Nat.zero_add, Nat.mul_zero, Nat.add_zero]
  | succ n ih =>
      rw [Nat.mul_succ, Nat.add_comm _ 512, ← Nat.add_assoc] at hle ⊢
      obtain ⟨hrec, -⟩ : Holds false farData o [freeRec] := farData_holds 1 hblk (by omega)
      have hino : dIno farData o = 0 := by
        have hfield : (recOf false farData o).ino = dIno farData o := recOf_ino
        rw [← hfield, hrec]
        rfl
      have hlen : dReclen farData o = 512 := recOf_dReclen hrec
      rw [Nat.add_right_comm, ← ih (o := o + 512) (Nat.dvd_add hblk (Nat.dvd_refl 512)) hle]
      conv_lhs => unfold buildLoop
      rw [if_pos (by omega)]
      simp only [hlen, hino, if_true]
      rw [if_neg (by unfold DIRBLKSIZ; omega)]

/-- The table does not have the entry, and counts its block as empty. -/
theorem build_short :
    DirOk false farData 2147484160 farRecs
      ∧ ∃ dh, ufsdirhashBuild (fun _ => 0) farData 2147484160 = some dh ∧ 4194304 < dh.dirblks
        ∧ (∀ i, dh.entry i = DIRHASH_EMPTY) ∧ dh.blkfree 4194304 * DIRALIGN ≠ unusedIn 4194304 0 farRecs := by
  have hbuild : ufsdirhashBuild (fun _ => 0) farData 2147484160 = some (buildInit 2147484160) := by
    have hloop := buildLoop_free (fun _ => 0) (buildInit 2147484160) 4194304 2143289857 (o := 0) ⟨0, rfl⟩
      (by decide)
    unfold ufsdirhashBuild
    rw [if_neg (by decide)]
    refine hloop.trans ?_
    unfold buildLoop
    rw [if_neg (by omega)]
  have hunused : unusedIn 4194304 0 farRecs = 500 := by
    unfold farRecs
    rw [unusedIn_append, recsLen_replicate, unusedIn_before (fun r hr => (freeRecs_ok _ r hr).pos)
      (by rw [recsLen_replicate]; decide)]
    rfl
  refine ⟨farData_ok, _, hbuild, by decide, fun _ => rfl, ?_⟩
  rw [hunused]
  decide

end UfsX.Proofs
