import UfsX.Proofs.DirStats

/-!
# `UfsX.Proofs.HashLookup`: a lookup in the hash table

On a well-formed directory of the new format, `ufsdirhash_lookup` finds the record of
a name that is there (`lookup_present`), with the record before it in its block, and
returns `ENOENT` for a name that is not there (`lookup_absent`).

The walk along a chain skips the slots that neither are empty nor hold the name
(`lookupChain_skip`). The shortcut through `dh_seqoff` begins in the middle of a chain:
the slot that it begins at is an entry, which is the one looked for or makes the
search begin again, so the result is that of the plain walk (`lookup_eq_chain`).
-/

set_option autoImplicit false

namespace UfsX.Proofs

open UfsX.Lib UfsX.Ufs

section Lookup

variable {fnv : List UInt8 → Nat} {dh : Dirhash} {m : Mem} {size : Nat} {rs : List Rec}
variable {name : List UInt8} {wantprev : Bool}

/-! ### The records of the entries -/

theorem DirOk.rec_at {ofs : Bool} (hd : DirOk ofs m size rs) {before after : List Rec} {r : Rec}
    (hrs : rs = before ++ r :: after) :
    recOf ofs m (recsLen before) = r ∧ r.Ok ofs ∧ recsLen before % DIRBLKSIZ + r.reclen ≤ DIRBLKSIZ
      ∧ recsLen before + r.reclen ≤ size := by
  have hholds := hd.holds
  have hfits := hd.fits
  rw [hrs, holds_append, Nat.zero_add] at hholds
  rw [hrs, fits_append, Nat.zero_add] at hfits
  refine ⟨hholds.2.1, hd.recs r (by rw [hrs]; simp), hfits.2.1, ?_⟩
  rw [hd.size_eq, hrs, recsLen_append, recsLen_cons]
  omega

theorem DirOk.rec_of_index {ofs : Bool} (hd : DirOk ofs m size rs) {p : Entry} (hp : p ∈ index 0 rs) :
    ∃ r, recOf ofs m p.1 = r ∧ r.live = true ∧ r.name = p.2 ∧ r.Ok ofs
      ∧ p.1 % DIRBLKSIZ + r.reclen ≤ DIRBLKSIZ ∧ p.1 + r.reclen ≤ size := by
  obtain ⟨before, r, after, hrs, hoff, hlive, hname⟩ := exists_rec_of_mem_index hp
  obtain ⟨hrec, hok, hfit, hle⟩ := hd.rec_at hrs
  rw [Nat.zero_add] at hoff
  rw [hoff]
  exact ⟨r, hrec, hlive, hname.symm, hok, hfit, hle⟩

theorem DirOk.index_nodup {ofs : Bool} (hd : DirOk ofs m size rs) {p q : Entry} (hp : p ∈ index 0 rs)
    (hq : q ∈ index 0 rs) (hname : p.2 = q.2) : p = q := by
  have hnodup := hd.names
  rw [← index_names 0] at hnodup
  exact List.inj_on_of_nodup_map hnodup hp hq hname

theorem DirOk.index_lt {ofs : Bool} (hd : DirOk ofs m size rs) : ∀ p ∈ index 0 rs, p.1 < size := by
  intro p hp
  have := (index_range (fun r hr => (hd.recs r hr).pos) hp).2
  rw [hd.size_eq]
  omega

/-- The names are compared byte by byte. -/
theorem name_eq_iff {o : Nat} :
    (dNamlen false m o = name.length ∧ m.readBytes (o + 8) name.length = name)
      ↔ dName false m o = name := by
  constructor
  · rintro ⟨hlen, hbytes⟩
    unfold dName
    rw [hlen, hbytes]
  · intro h
    have hlen : dNamlen false m o = name.length := by rw [← h, dName_length]
    refine ⟨hlen, ?_⟩
    rw [← hlen]
    exact h

/-! ### The walk along a chain -/

/-- What is found at an entry with the name. -/
def foundAt (m : Mem) (wantprev : Bool) (o : Nat) : HashLookup :=
  if wantprev ∧ o % DIRBLKSIZ ≠ 0 then
    if Dirhash.getprev m o = -1 then .ejustreturn else .found o (Dirhash.getprev m o)
  else .found o o

/-- A slot that ends the walk neither way. -/
def Skipped (dh : Dirhash) (L : List Entry) (name : List UInt8) (slot : Nat) : Prop :=
  dh.entry slot = DIRHASH_DEL ∨ ∃ p ∈ L, dh.entry slot = (p.1 : Int) ∧ p.2 ≠ name

theorem lookupChain_entry (name : List UInt8) (wantprev : Bool) (hd : DirOk false m size rs) {p : Entry} (hp : p ∈ index 0 rs)
    {slot : Nat} (hslot : dh.entry slot = (p.1 : Int)) (seq : Bool) (fuel : Nat) :
    lookupChain dh m size name wantprev seq (fuel + 1) slot
      = if p.2 = name then some (some (foundAt m wantprev p.1))
        else if seq then some none
        else lookupChain dh m size name wantprev seq fuel (wrapincr slot dh.hlen) := by
  obtain ⟨r, hr, hlive, hname, hok, hfit, hle⟩ := hd.rec_of_index hp
  have hpos := hok.pos
  have hreclen := recOf_dReclen hr
  have hdname : dName false m p.1 = p.2 := (recOf_dName hr hlive).trans hname
  have hempty : (p.1 : Int) ≠ DIRHASH_EMPTY := by unfold DIRHASH_EMPTY; omega
  have hdel : (p.1 : Int) ≠ DIRHASH_DEL := by unfold DIRHASH_DEL; omega
  conv_lhs => unfold lookupChain
  simp only [hslot, Int.toNat_natCast, hreclen, name_eq_iff, hdname]
  rw [if_neg hempty, if_neg hdel, if_neg (by omega), if_neg (by unfold DIRBLKSIZ at *; omega)]
  unfold foundAt
  split
  · split
    · split <;> rfl
    · rfl
  · rfl

/-- Such slots are passed over. -/
theorem lookupChain_skip (wantprev : Bool) (fuel : Nat) (hd : DirOk false m size rs) {s k : Nat} (hs : s < dh.hlen)
    (hskip : ∀ j, j < k → Skipped dh (index 0 rs) name ((s + j) % dh.hlen)) :
    lookupChain dh m size name wantprev false (k + fuel) s
      = lookupChain dh m size name wantprev false fuel ((s + k) % dh.hlen) := by
  induction k generalizing s with
  | zero => rw [Nat.zero_add, Nat.add_zero, Nat.mod_eq_of_lt hs]
  | succ k ih =>
      have hfirst := hskip 0 (Nat.succ_pos k)
      rw [Nat.add_zero, Nat.mod_eq_of_lt hs] at hfirst
      have hshift : ∀ j, ((s + 1) % dh.hlen + j) % dh.hlen = (s + (j + 1)) % dh.hlen := by
        intro j
        rw [Nat.mod_add_mod, Nat.add_assoc, Nat.add_comm 1 j]
      have hrest := ih (s := (s + 1) % dh.hlen) (Nat.mod_lt _ (by omega))
        (fun j hj => by rw [hshift]; exact hskip (j + 1) (by omega))
      rw [hshift] at hrest
      rw [Nat.add_right_comm, ← hrest]
      obtain hdel | ⟨p, hp, hentry, hne⟩ := hfirst
      · conv_lhs => unfold lookupChain
        simp only [hdel, wrapincr_eq hs]
        rfl
      · rw [lookupChain_entry name wantprev hd hp hentry, if_neg hne, wrapincr_eq hs]
        rfl

/-- The plain walk finds a name that is there. -/
theorem chain_present (hd : DirOk false m size rs) (h : IndexOk fnv dh (index 0 rs)) {o : Nat}
    (hp : (o, name) ∈ index 0 rs) :
    lookupChain dh m size name wantprev false dh.hlen (dh.hash fnv name)
      = some (some (foundAt m wantprev o)) := by
  obtain ⟨k, hk, hentry, hmin⟩ := h.exists_path hp
  have hskip : ∀ j, j < k → Skipped dh (index 0 rs) name ((dh.hash fnv name + j) % dh.hlen) := by
    intro j hj
    have hno := hmin j hj
    rw [not_or] at hno
    obtain he | he | ⟨p, hpm, hpe⟩ := h.cells _ (Nat.mod_lt (dh.hash fnv name + j) h.hlen_pos)
    · exact absurd he hno.2
    · exact .inl he
    · refine .inr ⟨p, hpm, hpe, fun hname => ?_⟩
      rw [hd.index_nodup hpm hp hname] at hpe
      exact hno.1 hpe
  have hwalk := lookupChain_skip wantprev (dh.hlen - k - 1 + 1) hd (h.hash_lt name) hskip
  rw [lookupChain_entry name wantprev hd hp hentry, if_pos rfl] at hwalk
  rw [← hwalk]
  congr 1
  omega

/-- The plain walk comes to an empty slot for a name that is not there. -/
theorem chain_absent (hd : DirOk false m size rs) (h : IndexOk fnv dh (index 0 rs))
    (hname : name ∉ namesOf rs) :
    lookupChain dh m size name wantprev false dh.hlen (dh.hash fnv name) = some (some .enoent) := by
  obtain ⟨i, hi, hempty⟩ := h.exists_empty
  obtain ⟨k, hk, hstop, hmin⟩ := exists_first (s := dh.hash fnv name)
    (fun j => dh.entry j = DIRHASH_EMPTY) (h.hash_lt name) hi hempty
  have hskip : ∀ j, j < k → Skipped dh (index 0 rs) name ((dh.hash fnv name + j) % dh.hlen) := by
    intro j hj
    obtain he | he | ⟨p, hpm, hpe⟩ := h.cells _ (Nat.mod_lt (dh.hash fnv name + j) h.hlen_pos)
    · exact absurd he (hmin j hj)
    · exact .inl he
    · refine .inr ⟨p, hpm, hpe, ?_⟩
      rintro rfl
      rw [← index_names 0] at hname
      exact hname (List.mem_map_of_mem hpm)
  have hwalk := lookupChain_skip wantprev (dh.hlen - k - 1 + 1) hd (h.hash_lt name) hskip
  have hend : lookupChain dh m size name wantprev false (dh.hlen - k - 1 + 1)
      ((dh.hash fnv name + k) % dh.hlen) = some (some .enoent) := by
    unfold lookupChain
    simp only [hstop, if_true]
  rw [hend] at hwalk
  rw [← hwalk]
  congr 1
  omega

/-! ### The shortcut -/

/-- What a lookup does after the walk. -/
def afterChain (dh : Dirhash) (m : Mem) : HashLookup → HashLookup × Dirhash
  | .found offset prevoff =>
      (.found offset prevoff, { dh with seqoff := (offset + dirsiz false m offset : Nat) })
  | r => (r, dh)

/-- The shortcut changes nothing. -/
theorem lookup_eq_chain (hd : DirOk false m size rs) (h : HashOk fnv dh (index 0 rs) size)
    {r : HashLookup}
    (hchain : lookupChain dh m size name wantprev false dh.hlen (dh.hash fnv name) = some (some r))
    (hmatch : ∀ o, (o, name) ∈ index 0 rs → r = foundAt m wantprev o) :
    ufsdirhashLookup fnv dh m size name wantprev = some (afterChain dh m r) := by
  have hwalk : lookupWalk fnv dh m size name wantprev = some (some r) := by
    unfold lookupWalk
    simp only
    split
    · next hseq =>
        obtain ⟨i, hi, hempty⟩ := h.index.exists_empty
        obtain ⟨k, hk, hstop, hmin⟩ := exists_first (s := dh.hash fnv name)
          (fun j => dh.entry j = DIRHASH_EMPTY ∨ dh.entry j = dh.seqoff) (h.index.hash_lt name) hi
          (.inl hempty)
        have hprobe : dh.probe (fun e => e = DIRHASH_EMPTY ∨ e = dh.seqoff) dh.hlen (dh.hash fnv name)
            = some ((dh.hash fnv name + k) % dh.hlen) :=
          probe_first dh (h.index.hash_lt name) hk (decide_eq_true hstop)
            (fun j hj hj' => hmin j hj (of_decide_eq_true hj'))
        unfold seqSlot
        rw [hprobe]
        by_cases hat : dh.entry ((dh.hash fnv name + k) % dh.hlen) = dh.seqoff
        · simp only [hat, if_true]
          have hbound := h.seqoff
          obtain ⟨p, hp, hpe⟩ := h.index.cell_of_nonneg (Nat.mod_lt (dh.hash fnv name + k)
            h.index.hlen_pos) (by omega)
          have hpos := h.index.hlen_pos
          obtain ⟨n, hn⟩ : ∃ n, dh.hlen = n + 1 := ⟨dh.hlen - 1, by omega⟩
          have hentry := lookupChain_entry name wantprev hd hp hpe true n
          rw [← hn] at hentry
          rw [hentry]
          by_cases hname : p.2 = name
          · rw [if_pos hname]
            simp only
            rw [hmatch p.1 (by rw [← hname]; exact hp)]
          · rw [if_neg hname]
            exact hchain
        · simp only [hat, if_false]
          exact hchain
    · exact hchain
  unfold ufsdirhashLookup
  rw [hwalk]
  cases r <;> rfl

theorem lookup_absent (hd : DirOk false m size rs) (h : HashOk fnv dh (index 0 rs) size)
    (hname : name ∉ namesOf rs) :
    ufsdirhashLookup fnv dh m size name wantprev = some (.enoent, dh) := by
  refine lookup_eq_chain hd h (chain_absent hd h.index hname) fun o ho => ?_
  rw [← index_names 0] at hname
  exact absurd (List.mem_map_of_mem ho) hname

/-! ### The record before -/

/-- The loop of `ufsdirhash_getprev` over some records. -/
theorem getprevLoop_eq {blkoff i : Nat} (prevoff fuel : Nat) {before : List Rec}
    (hholds : Holds false m (blkoff + i) before) (hok : ∀ r ∈ before, r.Ok false)
    (hfuel : before.length < fuel) :
    Dirhash.getprevLoop m blkoff (i + recsLen before) fuel i prevoff
      = lastOffset prevoff (blkoff + i) before := by
  induction before generalizing i prevoff fuel with
  | nil =>
      cases fuel with
      | zero => exact absurd hfuel (Nat.not_lt_zero _)
      | succ fuel =>
          unfold Dirhash.getprevLoop
          rw [recsLen_nil, Nat.add_zero, if_neg (Nat.lt_irrefl i)]
          rfl
  | cons r before ih =>
      cases fuel with
      | zero => exact absurd hfuel (Nat.not_lt_zero _)
      | succ fuel =>
          obtain ⟨hr, hrest⟩ := hholds
          have hpos := (hok r List.mem_cons_self).pos
          have hreclen := recOf_dReclen hr
          unfold Dirhash.getprevLoop
          rw [recsLen_cons, if_pos (by omega)]
          simp only [hreclen]
          rw [if_neg (by omega), lastOffset_cons, ← Nat.add_assoc, Nat.add_assoc blkoff]
          exact ih _ fuel (by rw [← Nat.add_assoc]; exact hrest)
            (fun r' hr' => hok r' (List.mem_cons_of_mem _ hr')) (Nat.lt_of_succ_lt_succ hfuel)

/-- The record before an entry that is not the first of its block. -/
theorem getprev_eq (hd : DirOk false m size rs) {before after : List Rec} {r : Rec}
    (hrs : rs = before ++ r :: after) (hblk : recsLen before % DIRBLKSIZ ≠ 0) :
    Dirhash.getprev m (recsLen before) = lastOffset 0 0 before := by
  have hfits := hd.fits
  have hholds := hd.holds
  have hpos : ∀ r' ∈ before, 0 < r'.reclen := fun r' hr' =>
    (hd.recs r' (by rw [hrs]; exact List.mem_append_left _ hr')).pos
  rw [hrs, fits_append] at hfits
  rw [hrs, holds_append] at hholds
  -- cut at the start of the block
  obtain ⟨front, blk, rfl, hfront⟩ := exists_cut (e := recsLen before / DIRBLKSIZ * DIRBLKSIZ) hfits.1
    hpos (Dvd.intro_left _ rfl) (Nat.zero_le _) (by rw [Nat.zero_add]; exact Nat.div_mul_le_self _ _)
  rw [Nat.zero_add] at hfront
  have hmod : recsLen (front ++ blk) % DIRBLKSIZ = recsLen blk := by
    have hdiv := Nat.div_add_mod (recsLen (front ++ blk)) DIRBLKSIZ
    have hlen := recsLen_append front blk
    rw [Nat.mul_comm] at hdiv
    omega
  have hblkok : ∀ r' ∈ blk, r'.Ok false := fun r' hr' =>
    hd.recs r' (by rw [hrs]; exact List.mem_append_left _ (List.mem_append_right _ hr'))
  have hne : blk ≠ [] := by
    rintro rfl
    exact hblk (hmod.trans recsLen_nil)
  have hcut : Holds false m (recsLen front + 0) blk := by
    have hcut := (holds_append.mp hholds.1).2
    rw [Nat.zero_add] at hcut
    exact hcut
  have hloop := getprevLoop_eq (recsLen front) (recsLen blk + 1) hcut hblkok
    (Nat.lt_succ_of_le (length_le_recsLen hblkok))
  rw [Nat.zero_add, Nat.add_zero] at hloop
  unfold Dirhash.getprev
  simp only [hmod, ← hfront]
  rw [if_neg (by rw [← hmod]; exact hblk), hloop]
  unfold lastOffset
  rw [if_neg hne, if_neg (by simp [hne]), List.dropLast_append_of_ne_nil hne, recsLen_append]
  push_cast
  ring

theorem mem_index {before after : List Rec} {r : Rec} (hrs : rs = before ++ r :: after)
    (hlive : r.live = true) : (recsLen before, r.name) ∈ index 0 rs := by
  rw [hrs, index_append, Nat.zero_add]
  refine List.mem_append_right _ ?_
  unfold index
  rw [if_pos hlive]
  exact List.mem_cons_self

/-- The previous offset of an entry: where the record before it is, but the entry
itself when it is the first of its block, or when nobody asks. -/
def hashPrev (wantprev : Bool) (before : List Rec) : Nat :=
  if wantprev ∧ recsLen before % DIRBLKSIZ ≠ 0 then lastOffset 0 0 before else recsLen before

theorem lookup_present (wantprev : Bool) (hd : DirOk false m size rs) (h : HashOk fnv dh (index 0 rs) size)
    {before after : List Rec} {r : Rec} (hrs : rs = before ++ r :: after) (hlive : r.live = true) :
    ∃ dh', ufsdirhashLookup fnv dh m size r.name wantprev
        = some (.found (recsLen before) (hashPrev wantprev before), dh')
      ∧ HashOk fnv dh' (index 0 rs) size := by
  have hmem := mem_index hrs hlive
  have hfound : foundAt m wantprev (recsLen before)
      = .found (recsLen before) (hashPrev wantprev before) := by
    unfold foundAt hashPrev
    split
    · next hprev =>
        rw [getprev_eq hd hrs hprev.2, if_neg (by omega)]
    · rfl
  refine ⟨{ dh with seqoff := (recsLen before + dirsiz false m (recsLen before) : Nat) }, ?_,
    h.index.congr rfl rfl rfl, h.stats.congr rfl rfl rfl rfl, ?_⟩
  · rw [lookup_eq_chain hd h (chain_present hd h.index hmem), hfound]
    · rfl
    · intro o ho
      rw [(Prod.mk.inj (hd.index_nodup ho hmem rfl)).1]
  · exact Int.le_trans (by decide) (Int.natCast_nonneg _)

end Lookup

end UfsX.Proofs
