import UfsX.Proofs.Direnter

/-!
# `UfsX.Proofs.DirhashBuild`: the hash table of a directory is built

`ufsdirhash_build` reads the directory once and enters every live record. Half as many
slots again are there as records fit in the directory, so that a slot is always empty;
the counts of free words begin with empty blocks. After the last record the table
holds the directory (`build_ok`).
-/

set_option autoImplicit false

namespace UfsX.Proofs

open UfsX.Lib UfsX.Ufs

section Build

variable {fnv : List UInt8 → Nat} {m : Mem} {size : Nat} {rs seen rest : List Rec} {dh : Dirhash}

/-- The table after the records `seen`. -/
structure BuildOk (fnv : List UInt8 → Nat) (size : Nat) (seen : List Rec) (dh : Dirhash) : Prop where
  hash : HashOk fnv dh (index 0 seen) size
  hused : dh.hused = (index 0 seen).length
  slots : dh.hlen = (buildInit size).hlen

/-- A live record takes twelve bytes. -/
theorem index_length_le {ofs : Bool} {o : Nat} (hok : ∀ r ∈ rs, r.Ok ofs) :
    12 * (index o rs).length ≤ recsLen rs := by
  induction rs generalizing o with
  | nil => exact Nat.le_refl _
  | cons r rs ih =>
      have hr := hok r List.mem_cons_self
      have hrest := ih (o := o + r.reclen) fun r' hr' => hok r' (List.mem_cons_of_mem _ hr')
      rw [recsLen_cons, index]
      split
      · next hlive =>
          have hle := hr.foot_le
          have hdvd := hr.dvd
          have hsiz := eight_le_directsiz r.name.length
          rw [Rec.foot_of_live hlive, Rec.used_of_live hlive] at hle
          rw [List.length_cons]
          omega
      · omega

/-- There are more slots than live records. -/
theorem slots_gt (hsize : DIRBLKSIZ ≤ size) : size / 12 + 1 < (buildInit size).hlen := by
  unfold buildInit howmany directsiz DH_NBLKOFF
  unfold DIRBLKSIZ at hsize
  simp only
  omega

theorem buildOk_start (hblk : DIRBLKSIZ ∣ size) (hsize : DIRBLKSIZ ≤ size) :
    BuildOk fnv size [] (buildInit size) := by
  have hpos := slots_gt hsize
  have hempty : ∀ i, (buildInit size).entry i = DIRHASH_EMPTY := fun _ => rfl
  have hocc : occupied (buildInit size).entry DIRHASH_EMPTY (buildInit size).hlen = ∅ := by
    refine Finset.eq_empty_of_forall_notMem fun i hi => ?_
    exact (mem_occupied.mp hi).2 (hempty i)
  obtain ⟨k, rfl⟩ := hblk
  have hblks : howmany (DIRBLKSIZ * k) DIRBLKSIZ = k := by
    unfold howmany DIRBLKSIZ
    omega
  have hkpos : 0 < k := by
    unfold DIRBLKSIZ at hsize
    omega
  refine ⟨⟨⟨List.nodup_nil, fun i _ => .inl (hempty i), ?_, ?_, ?_, ?_⟩, ⟨?_, ?_, ?_, ?_⟩, ?_⟩, rfl, rfl⟩
  · intro i j _ _ hi _
    rw [hempty] at hi
    exact absurd hi (by decide)
  · exact fun p hp => absurd hp List.not_mem_nil
  · rw [hocc]
    rfl
  · rw [hocc, Finset.card_empty]
    omega
  · change DIRBLKSIZ * k = howmany (DIRBLKSIZ * k) DIRBLKSIZ * DIRBLKSIZ
    rw [hblks, Nat.mul_comm]
  · change howmany (DIRBLKSIZ * k) DIRBLKSIZ ≤ (howmany (DIRBLKSIZ * k) DIRBLKSIZ * 3 + 1) / 2
    omega
  · intro b _
    rfl
  · intro i hi
    change IsFirst (fun _ => blkfree2idx (DIRBLKSIZ / DIRALIGN) = i) (howmany (DIRBLKSIZ * k) DIRBLKSIZ)
      (if i = DH_NFSTATS then 0 else -1)
    by_cases hlast : i = DH_NFSTATS
    · rw [if_pos hlast, hblks, hlast]
      exact .inr ⟨0, hkpos, rfl, rfl, fun b hb => absurd hb (Nat.not_lt_zero b)⟩
    · rw [if_neg hlast]
      exact .inl ⟨rfl, fun b _ hno => hlast hno.symm⟩
  · change (-1 : Int) ≤ -1
    exact le_refl _

/-- A record is entered. -/
theorem BuildOk.enter (hl : Layout false size rs) (hsize : DIRBLKSIZ ≤ size) {r : Rec}
    (hrs : rs = seen ++ r :: rest) (hlive : r.live = true) (h : BuildOk fnv size seen dh) :
    ∃ slot dh', dh.probe (fun e => e = DIRHASH_EMPTY) dh.hlen (dh.hash fnv r.name) = some slot
      ∧ { dh.setEntry slot (recsLen seen) with hused := dh.hused + 1 }.adjfree (recsLen seen)
        (-(directsiz r.name.length : Int)) = some dh'
      ∧ BuildOk fnv size (seen ++ [r]) dh' := by
  have hindex : index 0 (seen ++ [r]) = index 0 seen ++ [(recsLen seen, r.name)] := by
    rw [index_append, Nat.zero_add]
    unfold index
    rw [if_pos hlive]
    rfl
  have hperm : (index 0 (seen ++ [r])).Perm ((recsLen seen, r.name) :: index 0 seen) := by
    rw [hindex]
    exact List.perm_append_singleton _ _
  have hseen : ∀ r' ∈ seen ++ [r], r'.Ok false := by
    intro r' hr'
    refine hl.recs r' ?_
    rw [hrs]
    simp only [List.mem_append, List.mem_cons] at hr' ⊢
    tauto
  have hpos := (hseen r (by simp)).pos
  have hlt : recsLen seen < size := by
    rw [hl.size_eq, hrs, recsLen_append, recsLen_cons]
    omega
  -- more slots are there than records
  have hcount := index_length_le (o := 0) hseen
  have hbound := slots_gt hsize
  have hcard := h.hash.index.hused
  rw [h.hused] at hcard
  have hroom : (occupied dh.entry DIRHASH_EMPTY dh.hlen).card + 1 < dh.hlen := by
    rw [hindex, List.length_append, List.length_singleton, recsLen_append, recsLen_cons,
      recsLen_nil] at hcount
    have htotal : recsLen seen + r.reclen ≤ size := by
      rw [hl.size_eq, hrs, recsLen_append, recsLen_cons]
      omega
    rw [h.slots] at hcard ⊢
    omega
  obtain ⟨i, hi, hempty⟩ := h.hash.index.exists_empty
  obtain ⟨k, hk, hstop, hmin⟩ := exists_first (s := dh.hash fnv r.name)
    (fun j => dh.entry j = DIRHASH_EMPTY) (h.hash.index.hash_lt r.name) hi hempty
  have hnew : recsLen seen ∉ (index 0 seen).map Prod.fst := by
    intro hmem
    obtain ⟨p, hp, hpo⟩ := List.mem_map.mp hmem
    have := index_range (fun r' hr' => (hseen r' (List.mem_append_left _ hr')).pos) hp
    omega
  have hfill := h.hash.index.fill (recsLen seen) r.name
    (Nat.mod_lt (dh.hash fnv r.name + k) h.hash.index.hlen_pos)
    (by rw [hstop]; decide) hnew ⟨k, hk, rfl, hmin⟩ (.inl hroom)
  rw [if_pos hstop] at hfill
  have hle : usedIn (recsLen seen / DIRBLKSIZ) ((recsLen seen, r.name) :: index 0 seen) ≤ DIRBLKSIZ := by
    have hused := hl.usedIn_le hlt
    rw [← usedIn_perm hperm]
    rw [hrs, show seen ++ r :: rest = seen ++ [r] ++ rest by simp, index_append, usedIn_append] at hused
    omega
  have hstats₀ : StatsOk { dh.setEntry ((dh.hash fnv r.name + k) % dh.hlen) (recsLen seen) with
      hused := dh.hused + 1 } (index 0 seen) size := h.hash.stats.congr rfl rfl rfl rfl
  obtain ⟨dh', hadj, hstats, blkfree, firstfree, hframe⟩ := hstats₀.adjfree
    ((recsLen seen, r.name) :: index 0 seen) (-(directsiz r.name.length : Int)) hlt
    (fun b hb => by rw [usedIn_cons, if_neg (Ne.symm hb), Nat.zero_add]) hle
    (by rw [usedIn_cons, if_pos rfl]; omega)
  refine ⟨_, dh', probe_first dh (h.hash.index.hash_lt r.name) hk (decide_eq_true hstop)
    (fun j hj hj' => hmin j hj (of_decide_eq_true hj')), hadj, ⟨?_, ?_, ?_⟩, ?_, ?_⟩
  · exact (hfill.congr (by rw [hframe]) (by rw [hframe]) (by rw [hframe])).perm hperm.symm
  · exact hstats.perm hperm.symm
  · rw [hframe]
    exact h.hash.seqoff
  · rw [hframe, hindex, List.length_append, List.length_singleton]
    change dh.hused + 1 = _
    rw [h.hused]
    push_cast
    rfl
  · rw [hframe]
    exact h.slots

theorem buildLoop_ok {fuel : Nat} (hd : DirOk false m size rs) (hsize : DIRBLKSIZ ≤ size)
    (hmax : size ≤ MAXDIRSIZE) (hrs : rs = seen ++ rest) (h : BuildOk fnv size seen dh) (hfuel : rest.length < fuel) :
    ∃ dh', buildLoop fnv m size fuel (recsLen seen) dh = some dh' ∧ BuildOk fnv size rs dh' := by
  induction rest generalizing seen dh fuel with
  | nil =>
      cases fuel with
      | zero => exact absurd hfuel (Nat.not_lt_zero _)
      | succ fuel =>
          rw [List.append_nil] at hrs
          refine ⟨dh, ?_, by rw [hrs]; exact h⟩
          unfold buildLoop
          rw [if_neg (by rw [hd.size_eq, hrs]; omega)]
  | cons r rest ih =>
      cases fuel with
      | zero => exact absurd hfuel (Nat.not_lt_zero _)
      | succ fuel =>
          obtain ⟨hrec, hok, hfit, hle⟩ := hd.rec_at hrs
          have hpos := hok.pos
          have hnext : rs = seen ++ [r] ++ rest := by rw [hrs]; simp
          have hlen : recsLen (seen ++ [r]) = recsLen seen + r.reclen := by simp
          unfold buildLoop
          simp only [recOf_dReclen hrec]
          rw [if_pos (by unfold MAXDIRSIZE at hmax; omega), if_neg (by unfold DIRBLKSIZ at *; omega),
            ← hlen]
          cases hlive : r.live with
          | false =>
              have hino : dIno m (recsLen seen) = 0 := by
                by_contra hne
                rw [(recOf_live hrec).mpr hne] at hlive
                exact Bool.noConfusion hlive
              have hindex : index 0 (seen ++ [r]) = index 0 seen := by
                rw [index_append]
                unfold index
                rw [hlive, if_neg Bool.false_ne_true]
                exact List.append_nil _
              rw [if_pos hino]
              refine ih hnext ⟨?_, ?_, h.slots⟩ (Nat.lt_of_succ_lt_succ hfuel)
              · rw [hindex]
                exact h.hash
              · rw [hindex]
                exact h.hused
          | true =>
              obtain ⟨slot, dh', hprobe, hadj, hnew⟩ := h.enter hd.toLayout hsize hrs hlive
              have hused : dirsiz false m (recsLen seen) = directsiz r.name.length := by
                rw [recOf_dirsiz hrec hlive, Rec.used_of_live hlive]
              rw [if_neg ((recOf_live hrec).mp hlive), recOf_dName hrec hlive, hprobe, hused]
              simp only [hadj]
              exact ih hnext hnew (Nat.lt_of_succ_lt_succ hfuel)

/-- The table of a well-formed directory of the new format. -/
theorem build_ok (fnv : List UInt8 → Nat) (hd : DirOk false m size rs) (hsize : DIRBLKSIZ ≤ size)
    (hmax : size ≤ MAXDIRSIZE) :
    ∃ dh, ufsdirhashBuild fnv m size = some dh ∧ HashOk fnv dh (index 0 rs) size := by
  have hlen := length_le_recsLen hd.recs
  rw [← hd.size_eq] at hlen
  obtain ⟨dh, hbuild, hok⟩ := buildLoop_ok hd hsize hmax (show rs = [] ++ rs from rfl)
    (show BuildOk fnv size [] (buildInit size) from buildOk_start hd.blocks hsize)
    (Nat.lt_succ_of_le hlen)
  refine ⟨dh, ?_, hok.hash⟩
  unfold ufsdirhashBuild
  rw [if_neg (by omega)]
  exact hbuild

end Build

end UfsX.Proofs
