import UfsX.Lib.OpenAddr
import UfsX.Proofs.DirRecords
import Mathlib.Data.List.Perm.Basic

/-!
# `UfsX.Proofs.DirIndex`: the hash table as an index

`IndexOk` says that the table holds a list of entries, given by offset and name: the
offsets in it are those of the list, each once, and the search for a name comes to its
offset. The order of the list does not count.

There is one lemma for each operation on the table: what it does to the list. All
their loops end, because a slot is always empty (`IndexOk.room`).
-/

set_option autoImplicit false

namespace UfsX.Proofs

open UfsX.Lib UfsX.Ufs

/-- An entry: its offset, and its name. -/
abbrev Entry : Type := Nat × List UInt8

/-- The table holds the entries `L`. -/
structure IndexOk (fnv : List UInt8 → Nat) (dh : Dirhash) (L : List Entry) : Prop where
  offsets : (L.map Prod.fst).Nodup
  cells : ∀ i, i < dh.hlen → dh.entry i = DIRHASH_EMPTY ∨ dh.entry i = DIRHASH_DEL
    ∨ ∃ p ∈ L, dh.entry i = (p.1 : Int)
  once : ∀ i j, i < dh.hlen → j < dh.hlen → 0 ≤ dh.entry i → dh.entry i = dh.entry j → i = j
  reach : ∀ p ∈ L, ∃ i, dh.entry i = (p.1 : Int)
    ∧ Reach dh.entry DIRHASH_EMPTY dh.hlen (dh.hash fnv p.2) i
  hused : dh.hused = (occupied dh.entry DIRHASH_EMPTY dh.hlen).card
  room : (occupied dh.entry DIRHASH_EMPTY dh.hlen).card < dh.hlen

/-! ### Probing -/

section Probe

variable {stop : Int → Bool} {fuel s k : Nat}

theorem wrapincr_eq {i n : Nat} (h : i < n) : wrapincr i n = (i + 1) % n := by
  unfold wrapincr
  split
  · next heq => rw [heq, Nat.mod_self]
  · rw [Nat.mod_eq_of_lt (by omega)]

theorem wrapdecr_succ {i n : Nat} (h : i < n) : wrapdecr i n < n ∧ (wrapdecr i n + 1) % n = i := by
  unfold wrapdecr
  split
  · next hz =>
      subst hz
      rw [Nat.sub_add_cancel h, Nat.mod_self]
      exact ⟨by omega, rfl⟩
  · rw [Nat.sub_add_cancel (by omega), Nat.mod_eq_of_lt h]
    exact ⟨by omega, rfl⟩

/-- A loop over the slots ends at the first one that stops it. -/
theorem probe_first (dh : Dirhash) (hs : s < dh.hlen) (hk : k < fuel)
    (hstop : stop (dh.entry ((s + k) % dh.hlen)) = true)
    (hmin : ∀ j, j < k → ¬ stop (dh.entry ((s + j) % dh.hlen)) = true) :
    dh.probe stop fuel s = some ((s + k) % dh.hlen) := by
  induction k generalizing s fuel with
  | zero =>
      cases fuel with
      | zero => exact absurd hk (Nat.not_lt_zero _)
      | succ fuel =>
          simp only [Nat.add_zero, Nat.mod_eq_of_lt hs] at hstop ⊢
          unfold Dirhash.probe
          rw [if_pos hstop]
  | succ k ih =>
      cases fuel with
      | zero => exact absurd hk (Nat.not_lt_zero _)
      | succ fuel =>
          have hfirst := hmin 0 (Nat.succ_pos k)
          rw [Nat.add_zero, Nat.mod_eq_of_lt hs] at hfirst
          have hshift : ∀ j, ((s + 1) % dh.hlen + j) % dh.hlen = (s + (j + 1)) % dh.hlen := by
            intro j
            rw [Nat.mod_add_mod, Nat.add_assoc, Nat.add_comm 1 j]
          unfold Dirhash.probe
          rw [if_neg hfirst, wrapincr_eq hs,
            ih (Nat.mod_lt _ (by omega)) (by omega) (by rw [hshift]; exact hstop)
              (fun j hj => by rw [hshift]; exact hmin (j + 1) (by omega)), hshift]

end Probe

/-! ### The table -/

namespace IndexOk

variable {fnv : List UInt8 → Nat} {dh dh' : Dirhash} {L L' : List Entry}

theorem hlen_pos (h : IndexOk fnv dh L) : 0 < dh.hlen := Nat.lt_of_le_of_lt (Nat.zero_le _) h.room

theorem hash_lt (h : IndexOk fnv dh L) (name : List UInt8) : dh.hash fnv name < dh.hlen :=
  Nat.mod_lt _ h.hlen_pos

/-- Only the table counts. -/
theorem congr (h : IndexOk fnv dh L) (hentry : dh'.entry = dh.entry) (hlen : dh'.hlen = dh.hlen)
    (hused : dh'.hused = dh.hused) : IndexOk fnv dh' L where
  offsets := h.offsets
  cells := by rw [hentry, hlen]; exact h.cells
  once := by rw [hentry, hlen]; exact h.once
  reach := by unfold Dirhash.hash; rw [hentry, hlen]; exact h.reach
  hused := by rw [hentry, hlen, hused]; exact h.hused
  room := by rw [hentry, hlen]; exact h.room

theorem perm (h : IndexOk fnv dh L) (hperm : L.Perm L') : IndexOk fnv dh L' where
  offsets := (hperm.map _).nodup_iff.mp h.offsets
  cells := by
    intro i hi
    refine (h.cells i hi).imp_right (Or.imp_right ?_)
    rintro ⟨p, hp, heq⟩
    exact ⟨p, hperm.mem_iff.mp hp, heq⟩
  once := h.once
  reach := fun p hp => h.reach p (hperm.mem_iff.mpr hp)
  hused := h.hused
  room := h.room

/-- A slot that is not negative holds an entry. -/
theorem cell_of_nonneg (h : IndexOk fnv dh L) {i : Nat} (hi : i < dh.hlen) (hpos : 0 ≤ dh.entry i) :
    ∃ p ∈ L, dh.entry i = (p.1 : Int) := by
  obtain he | he | he := h.cells i hi
  · exact absurd (he ▸ hpos) (by decide)
  · exact absurd (he ▸ hpos) (by decide)
  · exact he

/-- Some slot is empty. -/
theorem exists_empty (h : IndexOk fnv dh L) : ∃ i, i < dh.hlen ∧ dh.entry i = DIRHASH_EMPTY :=
  Lib.exists_empty h.room

/-- The search for an entry comes to its offset first. -/
theorem exists_path (h : IndexOk fnv dh L) {o : Nat} {name : List UInt8} (hp : (o, name) ∈ L) :
    ∃ k, k < dh.hlen ∧ dh.entry ((dh.hash fnv name + k) % dh.hlen) = o
      ∧ ∀ j, j < k → ¬ (dh.entry ((dh.hash fnv name + j) % dh.hlen) = o
        ∨ dh.entry ((dh.hash fnv name + j) % dh.hlen) = DIRHASH_EMPTY) := by
  obtain ⟨i, hi, hreach⟩ := h.reach _ hp
  have hlt := hreach.lt
  obtain ⟨k, hk, hki, hpath⟩ := hreach
  obtain ⟨k', hk', hstop, hmin⟩ := exists_first (s := dh.hash fnv name)
    (fun j => dh.entry j = (o : Int) ∨ dh.entry j = DIRHASH_EMPTY) (h.hash_lt name) hlt (.inl hi)
  refine ⟨k', hk', hstop.resolve_right fun hempty => ?_, hmin⟩
  -- an empty slot would come after the entry
  have hle : k' ≤ k := by
    by_contra hgt
    exact hmin k (by omega) (.inl (by rw [hki]; exact hi))
  obtain heq | hlt' := Nat.eq_or_lt_of_le hle
  · rw [heq, hki, hi] at hempty
    unfold DIRHASH_EMPTY at hempty
    omega
  · exact hpath k' hlt' hempty

/-- `ufsdirhash_findslot` finds an entry. -/
theorem findslot (h : IndexOk fnv dh L) {o : Nat} {name : List UInt8} (hp : (o, name) ∈ L) :
    ∃ i, dh.findslot fnv name o = some i ∧ i < dh.hlen ∧ dh.entry i = o := by
  obtain ⟨k, hk, hentry, hmin⟩ := h.exists_path hp
  have hprobe : dh.probe (fun e => e = (o : Int) ∨ e = DIRHASH_EMPTY) dh.hlen (dh.hash fnv name)
      = some ((dh.hash fnv name + k) % dh.hlen) :=
    probe_first dh (h.hash_lt name) hk (decide_eq_true (.inl hentry))
      (fun j hj hj' => hmin j hj (of_decide_eq_true hj'))
  have hroom : dh.hused < dh.hlen := by
    rw [h.hused]
    exact_mod_cast h.room
  refine ⟨_, ?_, Nat.mod_lt _ h.hlen_pos, hentry⟩
  unfold Dirhash.findslot
  rw [if_pos hroom, hprobe]
  exact if_pos hentry

/-- A slot that gets a marker, or an offset that no slot holds, leaves each offset in one slot. -/
theorem once_update (h : IndexOk fnv dh L) {slot i j : Nat} {v : Int}
    (hv : 0 ≤ v → ∀ i, i < dh.hlen → dh.entry i ≠ v) (hi : i < dh.hlen) (hj : j < dh.hlen)
    (hpos : 0 ≤ Function.update dh.entry slot v i)
    (heq : Function.update dh.entry slot v i = Function.update dh.entry slot v j) : i = j := by
  by_cases his : i = slot
  · by_cases hjs : j = slot
    · rw [his, hjs]
    · rw [his, Function.update_self] at hpos
      rw [his, Function.update_self, Function.update_of_ne hjs] at heq
      exact absurd heq.symm (hv hpos j hj)
  · rw [Function.update_of_ne his] at hpos heq
    by_cases hjs : j = slot
    · rw [hjs, Function.update_self] at heq
      exact absurd heq (hv (heq ▸ hpos) i hi)
    · rw [Function.update_of_ne hjs] at heq
      exact h.once i j hi hj hpos heq

/-- The table after an entry has gone to a slot. -/
theorem fill (h : IndexOk fnv dh L) {slot : Nat} (o : Nat) (name : List UInt8) (hslot : slot < dh.hlen)
    (hneg : dh.entry slot < 0) (hnew : o ∉ L.map Prod.fst)
    (hreach : Reach dh.entry DIRHASH_EMPTY dh.hlen (dh.hash fnv name) slot)
    (hroom : (occupied dh.entry DIRHASH_EMPTY dh.hlen).card + 1 < dh.hlen
      ∨ dh.entry slot ≠ DIRHASH_EMPTY) :
    IndexOk fnv { dh.setEntry slot o with
      hused := if dh.entry slot = DIRHASH_EMPTY then dh.hused + 1 else dh.hused } ((o, name) :: L) := by
  have hne : (o : Int) ≠ DIRHASH_EMPTY := by unfold DIRHASH_EMPTY; omega
  have hocc : occupied (Function.update dh.entry slot (o : Int)) DIRHASH_EMPTY dh.hlen
      = insert slot (occupied dh.entry DIRHASH_EMPTY dh.hlen) := occupied_update hslot hne
  have hold : ∀ i, i ≠ slot → Function.update dh.entry slot (o : Int) i = dh.entry i :=
    fun i hi => Function.update_of_ne hi _ _
  have hself : Function.update dh.entry slot (o : Int) slot = o := Function.update_self _ _ _
  -- no other slot holds the offset
  have hfresh : ∀ i, i < dh.hlen → dh.entry i ≠ o := by
    intro i hi heq
    obtain ⟨p, hp, hpi⟩ := h.cell_of_nonneg hi (by omega)
    have : p.1 = o := by omega
    exact hnew (this ▸ List.mem_map_of_mem hp)
  refine ⟨List.nodup_cons.mpr ⟨hnew, h.offsets⟩, ?_, ?_, ?_, ?_, ?_⟩
  · intro i hi
    change Function.update dh.entry slot (o : Int) i = _ ∨ Function.update dh.entry slot (o : Int) i = _
      ∨ ∃ p ∈ _, Function.update dh.entry slot (o : Int) i = _
    by_cases his : i = slot
    · subst his
      exact .inr (.inr ⟨_, List.mem_cons_self, hself⟩)
    · rw [hold i his]
      refine (h.cells i hi).imp_right (Or.imp_right ?_)
      rintro ⟨p, hp, heq⟩
      exact ⟨p, List.mem_cons_of_mem _ hp, heq⟩
  · exact fun i j => h.once_update fun _ => hfresh
  · intro p hp
    cases hp with
    | head => exact ⟨slot, hself, hreach.update hne⟩
    | tail _ hp =>
        obtain ⟨i, hi, hr⟩ := h.reach p hp
        have his : i ≠ slot := by
          rintro rfl
          omega
        exact ⟨i, (hold i his).trans hi, hr.update hne⟩
  · change (if dh.entry slot = DIRHASH_EMPTY then dh.hused + 1 else dh.hused)
      = ((occupied (Function.update dh.entry slot (o : Int)) DIRHASH_EMPTY dh.hlen).card : Int)
    rw [hocc, h.hused]
    split
    · next he =>
        rw [Finset.card_insert_of_notMem (fun hmem => (mem_occupied.mp hmem).2 he)]
        rfl
    · next he => rw [Finset.insert_eq_of_mem (mem_occupied.mpr ⟨hslot, he⟩)]
  · change (occupied (Function.update dh.entry slot (o : Int)) DIRHASH_EMPTY dh.hlen).card < dh.hlen
    rw [hocc]
    obtain hroom | he := hroom
    · exact Nat.lt_of_le_of_lt (Finset.card_insert_le _ _) hroom
    · rw [Finset.insert_eq_of_mem (mem_occupied.mpr ⟨hslot, he⟩)]
      exact h.room

/-- The table after an entry has been marked deleted. -/
theorem mark {slot o : Nat} {name : List UInt8} (h : IndexOk fnv dh ((o, name) :: L))
    (hslot : slot < dh.hlen) (hentry : dh.entry slot = o) :
    IndexOk fnv (dh.setEntry slot DIRHASH_DEL) L := by
  have hne : DIRHASH_DEL ≠ DIRHASH_EMPTY := by decide
  have hnodup := List.nodup_cons.mp h.offsets
  have hocc : occupied (Function.update dh.entry slot DIRHASH_DEL) DIRHASH_EMPTY dh.hlen
      = occupied dh.entry DIRHASH_EMPTY dh.hlen := by
    have hmem : slot ∈ occupied dh.entry DIRHASH_EMPTY dh.hlen := by
      refine mem_occupied.mpr ⟨hslot, ?_⟩
      rw [hentry]
      unfold DIRHASH_EMPTY
      omega
    rw [occupied_update hslot hne, Finset.insert_eq_of_mem hmem]
  have hold : ∀ i, i ≠ slot → Function.update dh.entry slot DIRHASH_DEL i = dh.entry i :=
    fun i hi => Function.update_of_ne hi _ _
  have hself : Function.update dh.entry slot DIRHASH_DEL slot = DIRHASH_DEL :=
    Function.update_self _ _ _
  refine ⟨hnodup.2, ?_, ?_, ?_, ?_, ?_⟩
  · intro i hi
    change Function.update dh.entry slot DIRHASH_DEL i = _
      ∨ Function.update dh.entry slot DIRHASH_DEL i = _
      ∨ ∃ p ∈ _, Function.update dh.entry slot DIRHASH_DEL i = _
    by_cases his : i = slot
    · subst his
      exact .inr (.inl hself)
    · rw [hold i his]
      refine (h.cells i hi).imp_right (Or.imp_right ?_)
      rintro ⟨p, hp, heq⟩
      cases hp with
      | head => exact absurd (h.once i slot hi hslot (by omega) (heq.trans hentry.symm)) his
      | tail _ hp => exact ⟨p, hp, heq⟩
  · exact fun i j => h.once_update fun hpos => absurd hpos (by decide)
  · intro p hp
    obtain ⟨i, hi, hr⟩ := h.reach p (List.mem_cons_of_mem _ hp)
    have his : i ≠ slot := by
      rintro rfl
      have heq : p.1 = o := by omega
      exact hnodup.1 (List.mem_map.mpr ⟨p, hp, heq⟩)
    exact ⟨i, (hold i his).trans hi, hr.update hne⟩
  · exact h.hused.trans (by rw [← hocc]; rfl)
  · change (occupied (Function.update dh.entry slot DIRHASH_DEL) DIRHASH_EMPTY dh.hlen).card < dh.hlen
    rw [hocc]
    exact h.room

/-- The table after a deleted slot before an empty one has been emptied. -/
theorem clear (h : IndexOk fnv dh L) {i : Nat} (hi : i < dh.hlen) (hdel : dh.entry i = DIRHASH_DEL)
    (hnext : dh.entry ((i + 1) % dh.hlen) = DIRHASH_EMPTY) :
    IndexOk fnv { dh.setEntry i DIRHASH_EMPTY with hused := dh.hused - 1 } L := by
  have hmem : i ∈ occupied dh.entry DIRHASH_EMPTY dh.hlen :=
    mem_occupied.mpr ⟨hi, by rw [hdel]; decide⟩
  have hold : ∀ j, j ≠ i → Function.update dh.entry i DIRHASH_EMPTY j = dh.entry j :=
    fun j hj => Function.update_of_ne hj _ _
  have hself : Function.update dh.entry i DIRHASH_EMPTY i = DIRHASH_EMPTY := Function.update_self _ _ _
  have hcard := Finset.card_erase_add_one hmem
  have hocc : occupied (Function.update dh.entry i DIRHASH_EMPTY) DIRHASH_EMPTY dh.hlen
      = (occupied dh.entry DIRHASH_EMPTY dh.hlen).erase i := occupied_clear
  refine ⟨h.offsets, ?_, ?_, ?_, ?_, ?_⟩
  · intro j hj
    change Function.update dh.entry i DIRHASH_EMPTY j = _
      ∨ Function.update dh.entry i DIRHASH_EMPTY j = _
      ∨ ∃ p ∈ _, Function.update dh.entry i DIRHASH_EMPTY j = _
    by_cases hji : j = i
    · subst hji
      exact .inl hself
    · rw [hold j hji]
      exact h.cells j hj
  · exact fun j k => h.once_update fun hpos => absurd hpos (by decide)
  · intro p hp
    obtain ⟨j, hj, hr⟩ := h.reach p hp
    have hji : j ≠ i := by
      rintro rfl
      rw [hdel] at hj
      unfold DIRHASH_DEL at hj
      omega
    refine ⟨j, (hold j hji).trans hj, hr.clear hnext ?_⟩
    rw [hj]
    unfold DIRHASH_EMPTY
    omega
  · change dh.hused - 1
      = ((occupied (Function.update dh.entry i DIRHASH_EMPTY) DIRHASH_EMPTY dh.hlen).card : Int)
    rw [hocc, h.hused]
    omega
  · change (occupied (Function.update dh.entry i DIRHASH_EMPTY) DIRHASH_EMPTY dh.hlen).card < dh.hlen
    rw [hocc]
    have hroom := h.room
    omega

/-! ### The operations on the table -/

/-- The loop of `ufsdirhash_add` finds a slot. -/
theorem probe_free (h : IndexOk fnv dh L) (name : List UInt8) :
    ∃ slot, dh.probe (fun e => e < 0) dh.hlen (dh.hash fnv name) = some slot
      ∧ slot < dh.hlen ∧ dh.entry slot < 0
      ∧ Reach dh.entry DIRHASH_EMPTY dh.hlen (dh.hash fnv name) slot := by
  obtain ⟨i, hi, hempty⟩ := h.exists_empty
  obtain ⟨k, hk, hneg, hmin⟩ := exists_first (s := dh.hash fnv name) (fun j => dh.entry j < 0)
    (h.hash_lt name) hi (by rw [hempty]; decide)
  refine ⟨_, probe_first dh (h.hash_lt name) hk (decide_eq_true hneg)
    (fun j hj hj' => hmin j hj (of_decide_eq_true hj')), Nat.mod_lt _ h.hlen_pos, hneg, k, hk, rfl, ?_⟩
  intro j hj he
  exact hmin j hj (by rw [he]; decide)

/-- Deleted slots are emptied backwards. -/
theorem cleanBack {fuel i : Nat} (h : IndexOk fnv dh L) (hi : i < dh.hlen)
    (hnext : dh.entry ((i + 1) % dh.hlen) = DIRHASH_EMPTY)
    (hfuel : (occupied dh.entry DIRHASH_EMPTY dh.hlen).card < fuel) :
    ∃ dh', Dirhash.cleanBack fuel i dh = some dh' ∧ IndexOk fnv dh' L
      ∧ ∃ entry hused, dh' = { dh with entry := entry, hused := hused } := by
  induction fuel generalizing dh i with
  | zero => exact absurd hfuel (Nat.not_lt_zero _)
  | succ fuel ih =>
      unfold Dirhash.cleanBack
      by_cases hdel : dh.entry i = DIRHASH_DEL
      · rw [if_pos hdel]
        obtain ⟨hlt, hsucc⟩ := wrapdecr_succ hi
        have hcard : (occupied (Function.update dh.entry i DIRHASH_EMPTY) DIRHASH_EMPTY dh.hlen).card
            < fuel := by
          have hmem : i ∈ occupied dh.entry DIRHASH_EMPTY dh.hlen :=
            mem_occupied.mpr ⟨hi, by rw [hdel]; decide⟩
          have := Finset.card_erase_add_one hmem
          rw [occupied_clear]
          omega
        obtain ⟨dh', hdh', hok, entry, hused, hframe⟩ := ih (h.clear hi hdel hnext)
          (i := wrapdecr i dh.hlen) hlt
          (by
            change Function.update dh.entry i DIRHASH_EMPTY ((wrapdecr i dh.hlen + 1) % dh.hlen) = _
            rw [hsucc, Function.update_self])
          hcard
        exact ⟨dh', hdh', hok, entry, hused, hframe⟩
      · have hused : 0 ≤ dh.hused := by
          rw [h.hused]
          exact Int.natCast_nonneg _
        rw [if_neg hdel, if_pos hused]
        exact ⟨dh, rfl, h, dh.entry, dh.hused, rfl⟩

/-- `ufsdirhash_delslot` takes an entry away. -/
theorem delslot {slot o : Nat} {name : List UInt8} (h : IndexOk fnv dh ((o, name) :: L))
    (hslot : slot < dh.hlen) (hentry : dh.entry slot = o) :
    ∃ dh', dh.delslot slot = some dh' ∧ IndexOk fnv dh' L
      ∧ ∃ entry hused, dh' = { dh with entry := entry, hused := hused } := by
  have hmark := h.mark hslot hentry
  obtain ⟨i, hi, hempty⟩ := hmark.exists_empty
  obtain ⟨k, hk, hstop, hmin⟩ := exists_first (s := slot)
    (fun j => (dh.setEntry slot DIRHASH_DEL).entry j ≠ DIRHASH_DEL) hslot hi
    (by rw [hempty]; decide)
  have hprobe : (dh.setEntry slot DIRHASH_DEL).probe (fun e => e ≠ DIRHASH_DEL) (dh.hlen + 1) slot
      = some ((slot + k) % dh.hlen) :=
    probe_first (dh.setEntry slot DIRHASH_DEL) hslot (Nat.lt_succ_of_lt hk)
      (decide_eq_true hstop) (fun j hj hj' => hmin j hj (of_decide_eq_true hj'))
  unfold Dirhash.delslot
  simp only [show (dh.setEntry slot DIRHASH_DEL).hlen = dh.hlen from rfl, hprobe]
  split
  · next he =>
      obtain ⟨hlt, hsucc⟩ := wrapdecr_succ (Nat.mod_lt (slot + k) h.hlen_pos)
      obtain ⟨dh', hdh', hok, entry, hused, hframe⟩ := hmark.cleanBack
        (i := wrapdecr ((slot + k) % dh.hlen) dh.hlen) hlt
        (by
          change (dh.setEntry slot DIRHASH_DEL).entry
            ((wrapdecr ((slot + k) % dh.hlen) dh.hlen + 1) % dh.hlen) = _
          rw [hsucc]
          exact he)
        (Nat.lt_succ_of_lt hmark.room)
      exact ⟨dh', hdh', hok, entry, hused, hframe⟩
  · exact ⟨_, rfl, hmark, _, _, rfl⟩

/-- `ufsdirhash_move` changes an offset. -/
theorem move {o o' : Nat} {name : List UInt8} (h : IndexOk fnv dh ((o, name) :: L))
    (hnew : o' ∉ L.map Prod.fst) (ho : o < dh.dirblks * DIRBLKSIZ) (ho' : o' < dh.dirblks * DIRBLKSIZ) :
    ∃ dh', dh.move fnv name o o' = some (some dh') ∧ IndexOk fnv dh' ((o', name) :: L)
      ∧ ∃ entry, dh' = { dh with entry := entry } := by
  obtain ⟨slot, hfind, hslot, hentry⟩ := h.findslot List.mem_cons_self
  obtain ⟨i, hi, hreach⟩ := h.reach _ List.mem_cons_self
  have hsame : i = slot := h.once i slot hreach.lt hslot (by rw [hi]; omega) (hi.trans hentry.symm)
  subst hsame
  -- as if the entry were deleted and then came to the same slot
  have hself : (dh.setEntry i DIRHASH_DEL).entry i = DIRHASH_DEL := Function.update_self _ _ _
  have hfill := (h.mark hslot hentry).fill o' name hslot
    (by rw [hself]; decide) hnew (hreach.update (by decide)) (.inr (by rw [hself]; decide))
  have htwice : Function.update (Function.update dh.entry i DIRHASH_DEL) i (o' : Int)
      = Function.update dh.entry i (o' : Int) := Function.update_idem _ _ _
  refine ⟨dh.setEntry i o', ?_, ?_, _, rfl⟩
  · unfold Dirhash.move
    rw [if_pos ⟨ho, ho'⟩, hfind]
  · refine hfill.congr htwice.symm rfl ?_
    change dh.hused = if _ then _ else _
    rw [hself]
    rfl

end IndexOk

end UfsX.Proofs
