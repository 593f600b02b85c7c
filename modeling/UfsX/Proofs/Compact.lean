import UfsX.Proofs.DirStats

/-!
# `UfsX.Proofs.Compact`: the records of a slot move together

The loop of `ufs_direnter` takes the records of the slot one by one and moves the live
ones to the front. After the records `seen`, the bytes from the start of the slot on
hold `packed seen`: the live records of `seen`, each as short as it can be, of which
the last has not got its length yet. Then come `freeOf seen` bytes that are free, and
the records that are left, untouched (`CompactOk`).

The hash table follows: every move of a record is a move of its entry.
-/

set_option autoImplicit false

namespace UfsX.Proofs

open UfsX.Lib UfsX.Ufs

/-! ### Packed records -/

/-- A record without free bytes. -/
def Rec.pack (r : Rec) : Rec := { r with reclen := r.used }

/-- The live records, without free bytes. -/
def packed (rs : List Rec) : List Rec := (liveOf rs).map Rec.pack

section Packed

variable {ofs : Bool} {r : Rec} {rs : List Rec}

theorem Rec.live_iff : r.live = true ↔ r.ino ≠ 0 := by
  unfold Rec.live
  rw [decide_eq_true_iff]

theorem Rec.used_of_live (h : r.live = true) : r.used = directsiz r.name.length := by
  unfold Rec.used
  rw [if_neg (Rec.live_iff.mp h)]

theorem Rec.foot_of_live (h : r.live = true) : r.foot = r.used := by
  unfold Rec.foot
  rw [if_neg (Rec.live_iff.mp h), Rec.used_of_live h]

theorem Rec.used_of_dead (h : r.live = false) : r.used = 0 := by
  unfold Rec.used
  rw [if_pos (by simpa [Rec.live] using h)]

theorem Rec.Ok.pack (h : r.Ok ofs) (hlive : r.live = true) : r.pack.Ok ofs where
  dvd := by
    change 4 ∣ r.used
    rw [Rec.used_of_live hlive]
    exact directsiz_dvd _
  foot_le := le_of_eq (Rec.foot_of_live (r := r) hlive)
  not_wino := h.not_wino
  not_wht := h.not_wht

theorem packed_append (rs rs' : List Rec) : packed (rs ++ rs') = packed rs ++ packed rs' := by
  simp [packed]

theorem packed_live (h : r.live = true) : packed [r] = [r.pack] := by
  simp [packed, liveOf, h]

theorem packed_dead (h : r.live = false) : packed [r] = [] := by
  simp [packed, liveOf, h]

theorem packed_ok (hok : ∀ r ∈ rs, r.Ok ofs) : ∀ r ∈ packed rs, r.Ok ofs := by
  intro r hr
  obtain ⟨r', hr', rfl⟩ := List.mem_map.mp hr
  obtain ⟨hmem, hlive⟩ := List.mem_filter.mp hr'
  exact (hok r' hmem).pack hlive

/-- Nothing is lost. -/
theorem recsLen_packed (hok : ∀ r ∈ rs, r.Ok ofs) : recsLen (packed rs) + freeOf rs = recsLen rs := by
  induction rs with
  | nil => rfl
  | cons r rs ih =>
      have hsum := (hok r List.mem_cons_self).used_add_free
      have hrest := ih fun r' hr' => hok r' (List.mem_cons_of_mem _ hr')
      rw [show r :: rs = [r] ++ rs from rfl, packed_append, recsLen_append, recsLen_append, freeOf_append]
      cases hlive : r.live with
      | true =>
          rw [packed_live hlive]
          simp only [recsLen_cons, recsLen_nil, freeOf_cons, freeOf_nil, Rec.pack]
          omega
      | false =>
          rw [Rec.used_of_dead hlive] at hsum
          rw [packed_dead hlive]
          simp only [recsLen_cons, recsLen_nil, freeOf_cons, freeOf_nil]
          omega

theorem liveOf_packed (rs : List Rec) : liveOf (packed rs) = packed rs := by
  refine List.filter_eq_self.mpr fun r hr => ?_
  obtain ⟨r', hr', rfl⟩ := List.mem_map.mp hr
  exact (List.mem_filter.mp hr').2

end Packed

/-! ### Writing a length -/

section Write

variable {ofs : Bool} {m : Mem} {o v : Nat}

theorem recOf_setReclen (hv : v < 65536) :
    recOf ofs (setReclen m o v) o = { recOf ofs m o with reclen := v } := by
  have hlo : AgreeOn (setReclen m o v) m o (o + 4) := Mem.agreeOn_write16 v (.inl (le_refl _))
  have hhi : ∀ n, AgreeOn (setReclen m o v) m (o + 6) (o + 6 + n) := fun n =>
    Mem.agreeOn_write16 v (.inr (by omega))
  have hino : dIno (setReclen m o v) o = dIno m o :=
    (hlo.sameBytes (n := 4) (le_refl _) (le_refl _)).read32 (i := 0) (by omega)
  have hreclen : dReclen (setReclen m o v) o = v := Mem.read16_write16 hv
  have hsix : setReclen m o v (o + 6) = m (o + 6) := hhi 2 _ (le_refl _) (by omega)
  have hseven : setReclen m o v (o + 7) = m (o + 7) := hhi 2 _ (by omega) (by omega)
  have hnamlen : dNamlen ofs (setReclen m o v) o = dNamlen ofs m o := by
    cases ofs
    · exact congrArg UInt8.toNat hseven
    · exact congrArg UInt8.toNat hsix
  have htype : dType ofs (setReclen m o v) o = dType ofs m o := by
    cases ofs
    · exact congrArg UInt8.toNat hsix
    · exact congrArg UInt8.toNat hseven
  have hname : dName ofs (setReclen m o v) o = dName ofs m o := by
    unfold dName
    rw [hnamlen]
    exact ((hhi (2 + dNamlen ofs m o)).sameBytes (o := o + 8) (n := dNamlen ofs m o) (by omega)
      (by omega)).readBytes (i := 0) (by omega)
  unfold recOf
  rw [hino, hreclen, htype, hname]
  split <;> rfl

end Write

/-! ### The loop -/

/-- The record that is not finished yet: none, or one whose length is missing. -/
def Last (ofs : Bool) (m : Mem) (o spacefree : Nat) (cur : List Rec) : Prop :=
  (cur = [] ∧ dIno m o = 0 ∧ 8 ≤ spacefree)
    ∨ ∃ r reclen, cur = [r] ∧ recOf ofs m o = { r with reclen := reclen }

/-- The variables of the loop after the records `seen`. `m₀` is the directory before. -/
structure CompactOk (ofs : Bool) (base : Nat) (m₀ : Mem) (seen : List Rec) (c : Compact) : Prop where
  front : ∃ done cur, packed seen = done ++ cur ∧ Holds ofs c.data base done ∧ c.ep = recsLen done
    ∧ c.dsize = recsLen cur ∧ Last ofs c.data (base + c.ep) c.spacefree cur
  loc_eq : c.loc = recsLen seen
  space : c.spacefree = freeOf seen
  frame : ∀ lo hi, hi ≤ base ∨ base + recsLen seen ≤ lo → AgreeOn c.data m₀ lo hi

section Loop

variable {fnv : List UInt8 → Nat} {ofs : Bool} {base : Nat} {m₀ : Mem} {seen rest : List Rec}
variable {c : Compact}

/-- The last record gets its length. -/
theorem CompactOk.trim (h : CompactOk ofs base m₀ seen c) (hok : ∀ r ∈ seen, r.Ok ofs)
    (hlen : recsLen seen ≤ DIRBLKSIZ) :
    c.ep + c.dsize = recsLen (packed seen)
      ∧ Holds ofs (setReclen c.data (base + c.ep) c.dsize) base (packed seen)
      ∧ ∀ lo hi, hi ≤ base ∨ base + recsLen seen ≤ lo →
        AgreeOn (setReclen c.data (base + c.ep) c.dsize) m₀ lo hi := by
  obtain ⟨done, cur, hpacked, hdone, hep, hdsize, hlast⟩ := h.front
  have hspace := h.space
  have hsum := recsLen_packed hok
  have hpok := packed_ok hok
  rw [hpacked] at hsum hpok
  rw [recsLen_append] at hsum
  have hdoneok : ∀ r ∈ done, r.Ok ofs := fun r hr => hpok r (List.mem_append_left _ hr)
  -- the write leaves what is done alone
  have hfinished : Holds ofs (setReclen c.data (base + c.ep) c.dsize) base done :=
    hdone.agree hdoneok (Mem.agreeOn_write16 c.dsize (.inl (by omega))).symm
  -- and stays within what has been seen
  have hroom : c.ep + 6 ≤ recsLen seen := by
    obtain ⟨hnil, -, hfree⟩ | ⟨r, reclen, hcur, -⟩ := hlast
    · omega
    · have hr := hpok r (by rw [hcur]; simp)
      have h₁ := r.eight_le_foot
      have h₂ := hr.foot_le
      rw [hcur, recsLen_cons] at hsum
      omega
  refine ⟨by rw [hpacked, recsLen_append]; omega, ?_, ?_⟩
  · rw [hpacked, holds_append]
    refine ⟨hfinished, ?_⟩
    obtain ⟨hnil, -, -⟩ | ⟨r, reclen, hcur, hrec⟩ := hlast
    · rw [hnil]
      trivial
    · rw [hcur, recsLen_cons, recsLen_nil, Nat.add_zero] at hdsize
      have hlt : c.dsize < 65536 := by
        rw [hcur, recsLen_cons] at hsum
        unfold DIRBLKSIZ at hlen
        omega
      rw [hcur, ← hep]
      refine ⟨?_, trivial⟩
      rw [recOf_setReclen hlt, hrec, hdsize]
  · intro lo hi hout
    refine AgreeOn.trans (Mem.agreeOn_write16 c.dsize ?_) (h.frame lo hi hout)
    omega

/-- A free record: its bytes are free now. -/
theorem CompactOk.skip {r : Rec} {data : Mem} {dirhash : Option Dirhash}
    (hholds : Holds ofs data base (packed seen)) (hseen : ∀ r ∈ seen, r.Ok ofs)
    (hframe : ∀ lo hi, hi ≤ base ∨ base + recsLen seen ≤ lo → AgreeOn data m₀ lo hi)
    (hr : r.Ok ofs) (hdead : r.live = false) :
    CompactOk ofs base m₀ (seen ++ [r])
      ⟨setIno data (base + recsLen (packed seen)) 0, dirhash, recsLen (packed seen), 0,
        freeOf seen + r.reclen, recsLen seen + r.reclen⟩ where
  front := by
    have hpacked : packed (seen ++ [r]) = packed seen := by
      rw [packed_append, packed_dead hdead, List.append_nil]
    have hfoot := r.eight_le_foot
    have hle := hr.foot_le
    refine ⟨packed seen, [], by rw [hpacked, List.append_nil], ?_, rfl, rfl, .inl ⟨rfl, ?_, ?_⟩⟩
    · exact hholds.agree (packed_ok hseen) (Mem.agreeOn_write32 0 (.inl (le_refl _))).symm
    · exact Mem.read32_write32 (by decide)
    · change 8 ≤ freeOf seen + r.reclen
      omega
  loc_eq := by simp
  space := by
    have hsum := hr.used_add_free
    rw [Rec.used_of_dead hdead, Nat.zero_add] at hsum
    simp [hsum]
  frame := by
    intro lo hi hout
    have hsum := recsLen_packed hseen
    have hfoot := r.eight_le_foot
    have hle := hr.foot_le
    rw [recsLen_append, recsLen_cons, recsLen_nil, Nat.add_zero] at hout
    refine AgreeOn.trans (Mem.agreeOn_write32 0 ?_) (hframe lo hi ?_)
    · omega
    · omega

/-- A live record: it goes to the front. -/
theorem CompactOk.move {r : Rec} {data : Mem} {dirhash : Option Dirhash}
    (hholds : Holds ofs data base (packed seen)) (hseen : ∀ r ∈ seen, r.Ok ofs)
    (hframe : ∀ lo hi, hi ≤ base ∨ base + recsLen seen ≤ lo → AgreeOn data m₀ lo hi)
    (hr : r.Ok ofs) (hlive : r.live = true) (hrec : recOf ofs data (base + recsLen seen) = r) :
    CompactOk ofs base m₀ (seen ++ [r])
      ⟨data.copy (base + recsLen (packed seen)) data (base + recsLen seen) r.used, dirhash,
        recsLen (packed seen), r.used, freeOf seen + r.free, recsLen seen + r.reclen⟩ where
  front := by
    have hpacked : packed (seen ++ [r]) = packed seen ++ [r.pack] := by
      rw [packed_append, packed_live hlive]
    refine ⟨packed seen, [r.pack], hpacked, ?_, rfl, by simp [Rec.pack], .inr ⟨r.pack, r.reclen, rfl, ?_⟩⟩
    · exact hholds.agree (packed_ok hseen) (Mem.agreeOn_copy _ _ _ (.inl (le_refl _))).symm
    · have hsame : recOf ofs
          (data.copy (base + recsLen (packed seen)) data (base + recsLen seen) r.used)
          (base + recsLen (packed seen)) = r := by
        refine recOf_same hrec ?_
        rw [Rec.foot_of_live hlive]
        exact Mem.sameBytes_copy _ _ _
      exact hsame
  loc_eq := by simp
  space := by simp
  frame := by
    intro lo hi hout
    have hsum := recsLen_packed hseen
    have hsum' := hr.used_add_free
    rw [recsLen_append, recsLen_cons, recsLen_nil, Nat.add_zero] at hout
    refine AgreeOn.trans (Mem.agreeOn_copy _ _ _ ?_) (hframe lo hi ?_)
    · omega
    · omega

theorem perm_insert {α : Type} (A P R : List α) (e : α) :
    (A ++ (P ++ e :: R)).Perm (e :: (A ++ (P ++ R))) := by
  rw [← List.append_assoc, ← List.append_assoc]
  exact List.perm_middle

/-- The entries while the loop runs: those of the records before and after the slot are
`A` and `B`. -/
def looping (A B : List Entry) (base : Nat) (seen rest : List Rec) : List Entry :=
  A ++ (index base (packed seen) ++ (index (base + recsLen seen) rest ++ B))

theorem looping_dead {A B : List Entry} {r : Rec} (hdead : r.live = false) :
    looping A B base seen (r :: rest) = looping A B base (seen ++ [r]) rest := by
  unfold looping
  rw [packed_append, packed_dead hdead, List.append_nil, recsLen_append, recsLen_cons, recsLen_nil,
    Nat.add_zero, ← Nat.add_assoc]
  conv_lhs => rw [index]
  rw [hdead, if_neg Bool.false_ne_true]

theorem looping_live (A B : List Entry) (base : Nat) (seen rest : List Rec) {r : Rec} (hlive : r.live = true) :
    ∃ L, (looping A B base seen (r :: rest)).Perm ((base + recsLen seen, r.name) :: L)
      ∧ (looping A B base (seen ++ [r]) rest).Perm ((base + recsLen (packed seen), r.name) :: L)
      ∧ L = A ++ (index base (packed seen) ++ (index (base + recsLen seen + r.reclen) rest ++ B)) := by
  refine ⟨_, ?_, ?_, rfl⟩
  · unfold looping
    conv_lhs => rw [index]
    rw [hlive, if_pos rfl, List.cons_append]
    exact perm_insert _ _ _ _
  · unfold looping
    rw [packed_append, packed_live hlive, index_append, recsLen_append, recsLen_cons, recsLen_nil,
      Nat.add_zero, ← Nat.add_assoc, List.append_assoc]
    have hone : index (base + recsLen (packed seen)) [r.pack] = [(base + recsLen (packed seen), r.name)] := by
      unfold index
      rw [if_pos (show r.pack.live = true from hlive)]
      rfl
    rw [hone]
    exact perm_insert _ _ _ _

/-- The entry of a record that moves. -/
theorem looping_move {A B : List Entry} {r : Rec} {size : Nat} {dh : Dirhash}
    (hA : ∀ p ∈ A, p.1 < base) (hB : ∀ p ∈ B, base + recsLen (seen ++ r :: rest) ≤ p.1)
    (hseen : ∀ r ∈ seen, r.Ok ofs) (hr : r.Ok ofs) (hrest : ∀ r ∈ rest, r.Ok ofs)
    (hlive : r.live = true) (hsize : base + recsLen (seen ++ r :: rest) ≤ size)
    (hblk : base % DIRBLKSIZ + recsLen (seen ++ r :: rest) ≤ DIRBLKSIZ)
    (h : HashOk fnv dh (looping A B base seen (r :: rest)) size) :
    Gives fnv false (dh.move fnv r.name (base + recsLen seen) (base + recsLen (packed seen)))
      (looping A B base (seen ++ [r]) rest) size := by
  obtain ⟨L, hold, hnew, hL⟩ := looping_live A B base seen rest hlive
  have hpos := hr.pos
  have hsum := recsLen_packed hseen
  rw [recsLen_append, recsLen_cons] at hB hsize hblk
  have hfresh : base + recsLen (packed seen) ∉ L.map Prod.fst := by
    intro hmem
    obtain ⟨p, hp, hpo⟩ := List.mem_map.mp hmem
    rw [hL, List.mem_append, List.mem_append, List.mem_append] at hp
    obtain hp | hp | hp | hp := hp
    · have := hA p hp
      omega
    · have := index_range (fun r' hr' => (packed_ok hseen r' hr').pos) hp
      omega
    · have := index_range (fun r' hr' => (hrest r' hr').pos) hp
      omega
    · have := hB p hp
      omega
  obtain ⟨dirhash, hmove, hgive⟩ := (h.perm hold).move hfresh (by omega) (by omega)
    (by unfold DIRBLKSIZ at *; omega)
  exact ⟨dirhash, hmove, hgive.perm hnew.symm⟩

theorem compactLoop_ok {A B : List Entry} {size : Nat} (count fuel : Nat) (h : CompactOk ofs base m₀ seen c)
    (hcount : count = recsLen (seen ++ rest)) (hholds : Holds ofs m₀ (base + recsLen seen) rest)
    (hok : ∀ r ∈ seen ++ rest, r.Ok ofs) (hA : ∀ p ∈ A, p.1 < base)
    (hB : ∀ p ∈ B, base + count ≤ p.1) (hsize : base + count ≤ size)
    (hblk : base % DIRBLKSIZ + count ≤ DIRBLKSIZ)
    (hhash : HashOpt fnv ofs c.dirhash (looping A B base seen rest) size) (hfuel : rest.length < fuel) :
    ∃ c', compactLoop fnv ofs base count fuel c = some c' ∧ CompactOk ofs base m₀ (seen ++ rest) c'
      ∧ HashOpt fnv ofs c'.dirhash (looping A B base (seen ++ rest) []) size := by
  induction rest generalizing seen c fuel with
  | nil =>
      cases fuel with
      | zero => exact absurd hfuel (Nat.not_lt_zero _)
      | succ fuel =>
          rw [List.append_nil] at hcount ⊢
          refine ⟨c, ?_, h, hhash⟩
          unfold compactLoop
          rw [if_neg (by rw [h.loc_eq, hcount]; exact Nat.lt_irrefl _)]
  | cons r rest ih =>
      cases fuel with
      | zero => exact absurd hfuel (Nat.not_lt_zero _)
      | succ fuel =>
          have hseen : ∀ r ∈ seen, r.Ok ofs := fun r hr => hok r (List.mem_append_left _ hr)
          have hr : r.Ok ofs := hok r (by simp)
          have hrest : ∀ r ∈ rest, r.Ok ofs := fun r hr => hok r (by simp [hr])
          have hpos := hr.pos
          have hlens : recsLen (seen ++ r :: rest) = recsLen seen + (r.reclen + recsLen rest) := by
            rw [recsLen_append, recsLen_cons]
          obtain ⟨hep, hfront, hframe⟩ := h.trim hseen (by omega)
          obtain ⟨hrec₀, hholds'⟩ := hholds
          have hrec : recOf ofs (setReclen c.data (base + c.ep) c.dsize) (base + recsLen seen) = r := by
            refine recOf_agree hrec₀ (hframe _ _ (.inr (le_refl _))).symm
          have hreclen := recOf_dReclen hrec
          have hnext : seen ++ r :: rest = seen ++ [r] ++ rest := by simp
          have hholds'' : Holds ofs m₀ (base + recsLen (seen ++ [r])) rest := by
            rw [recsLen_append, recsLen_cons, recsLen_nil, Nat.add_zero, ← Nat.add_assoc]
            exact hholds'
          rw [hnext] at hcount hok ⊢
          unfold compactLoop
          rw [if_pos (show c.loc < count by rw [h.loc_eq, hcount, ← hnext, hlens]; omega)]
          simp only [h.loc_eq, hep, hreclen]
          cases hlive : r.live with
          | false =>
              have hino : dIno (setReclen c.data (base + c.ep) c.dsize) (base + recsLen seen) = 0 := by
                by_contra hne
                rw [(recOf_live hrec).mpr hne] at hlive
                exact Bool.noConfusion hlive
              rw [if_pos hino, h.space]
              rw [looping_dead hlive] at hhash
              exact ih fuel (CompactOk.skip hfront hseen hframe hr hlive) hcount hholds'' hok hhash
                (Nat.lt_of_succ_lt_succ hfuel)
          | true =>
              have hino := (recOf_live hrec).mp hlive
              have hused := recOf_dirsiz hrec hlive
              obtain ⟨dirhash, hmove, hgive⟩ := gives_withHash
                (·.move fnv (dName false (setReclen c.data (base + c.ep) c.dsize) (base + recsLen seen))
                  (base + recsLen seen) (base + recsLen (packed seen))) hhash
                (fun hofs dh hdh => by
                  subst hofs
                  rw [recOf_dName hrec hlive]
                  exact looping_move hA (by rw [hnext, ← hcount]; exact hB) hseen hr hrest hlive
                    (by rw [hnext, ← hcount]; exact hsize) (by rw [hnext, ← hcount]; exact hblk) hdh)
              rw [if_neg hino, hmove, hused, h.space]
              have hfree : freeOf seen + (r.reclen - r.used) = freeOf seen + r.free := rfl
              simp only [hfree]
              exact ih fuel (CompactOk.move hfront hseen hframe hr hlive hrec) hcount hholds'' hok hgive
                (Nat.lt_of_succ_lt_succ hfuel)

end Loop

end UfsX.Proofs
