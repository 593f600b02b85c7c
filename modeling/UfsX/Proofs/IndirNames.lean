import UfsX.Ffs.Truncate
import UfsX.Proofs.BallocFail

/-!
# `UfsX.Proofs.IndirNames`: one name for every indirect block

An indirect block is node `m` of height `h` below one of the inode's three pointers; `m` is
the number whose digits are the slots that lead to it. `ufs_getlbns` names it on the path to
every data block below it, `ffs_truncate` and `ffs_indirtrunc` compute the name of a child
from the name of its parent, and `lbn_level` reads the height back.

`nodeTrunc` is `ffs_indirtrunc` over nodes: it is told slots, and takes the name of each node
from `ufs_getlbns`. `NamesAgree` is the whole statement. It fails where `ffs_truncate`
multiplies two `int`s whose product is none.
-/

set_option autoImplicit false

namespace UfsX.Proofs.IndirNames

open UfsX.Lib UfsX.Ufs UfsX.Ffs

/-! ### The path, entry by entry -/

section Entries

variable {N base rel : Nat}

theorem path_length (n : Nat) : (path N base rel n).length = n := by
  induction n with
  | zero => rfl
  | succ n ih => rw [path, List.length_cons, ih]

theorem path_getElem? {n i : Nat} (hi : i < n) :
    (path N base rel n)[i]? = some (pathIndir N base rel (n - 1 - i)) := by
  induction n generalizing i with
  | zero => exact absurd hi (Nat.not_lt_zero i)
  | succ n ih =>
      cases i with
      | zero => rfl
      | succ i =>
          have hsub : n + 1 - 1 - (i + 1) = n - 1 - i := by omega
          rw [path, List.getElem?_cons_succ, ih (by omega), hsub]

theorem div_pow_of_le {rel' h j : Nat} (hdiv : rel / N ^ h = rel' / N ^ h) (hj : h ≤ j) :
    rel / N ^ j = rel' / N ^ j := by
  have hpow : N ^ j = N ^ h * N ^ (j - h) := by rw [← Nat.pow_add, Nat.add_sub_cancel' hj]
  rw [hpow, ← Nat.div_div_eq_div_mul, ← Nat.div_div_eq_div_mul, hdiv]

/-- The entries above height `h` depend on the digits above `h` only. -/
theorem path_take_congr {rel' h : Nat} (hdiv : rel / N ^ h = rel' / N ^ h) (n : Nat) :
    (path N base rel n).take (n - h) = (path N base rel' n).take (n - h) := by
  induction n with
  | zero => rfl
  | succ n ih =>
      by_cases hn : h ≤ n
      · have hsub : n + 1 - h = (n - h) + 1 := by omega
        have hhere : pathIndir N base rel n = pathIndir N base rel' n := by
          unfold pathIndir Radix.pathFirst
          rw [div_pow_of_le hdiv hn, div_pow_of_le hdiv (Nat.le_succ_of_le hn)]
        rw [hsub, path, path, List.take_succ_cons, List.take_succ_cons, ih, hhere]
      · have hsub : n + 1 - h = 0 := by omega
        rw [hsub, List.take_zero, List.take_zero]

/-- The number with these digits. -/
def digitsValue (N : Nat) (digits : List Nat) (m : Nat) : Nat := digits.foldl (fun m i => m * N + i) m

/-- The slots of the entries above height `h` are the digits of the node's index. -/
theorem digitsValue_path {h n : Nat} (hn : h ≤ n) :
    digitsValue N (((path N base rel n).take (n - h)).map Indir.off) (rel / N ^ n) = rel / N ^ h := by
  induction n with
  | zero =>
      obtain rfl : h = 0 := by omega
      rfl
  | succ n ih =>
      rcases Nat.lt_or_ge n h with hlt | hge
      · obtain rfl : h = n + 1 := by omega
        rw [Nat.sub_self]
        rfl
      · have hsub : n + 1 - h = (n - h) + 1 := by omega
        have hdigit : rel / N ^ (n + 1) * N + rel / N ^ n % N = rel / N ^ n := by
          rw [Nat.pow_succ, ← Nat.div_div_eq_div_mul, Nat.mul_comm, Nat.div_add_mod]
        rw [hsub, path, List.take_succ_cons, List.map_cons, digitsValue, List.foldl_cons]
        show digitsValue N _ (rel / N ^ (n + 1) * N + rel / N ^ n % N) = _
        rw [hdigit]
        exact ih hge

end Entries

/-! ### What `ufs_getlbns` writes -/

section Getlbns

variable {N l rel : Nat}

/-- The result for data block `rel` behind indirect pointer `l`. -/
def dataPath (N l rel : Nat) : List Indir :=
  ⟨indirLbn N l (l + 1) 0, l⟩ :: path N (levelBase N l) rel (l + 1)

theorem dataPath_length : (dataPath N l rel).length = l + 2 := by
  rw [dataPath, List.length_cons, path_length]

theorem indirLbn_path (N l rel h : Nat) :
    indirLbn N l h (rel / N ^ h) = metaLbn h (Radix.pathFirst N (levelBase N l) rel h) := rfl

theorem indirLbn_top (N l : Nat) : indirLbn N l (l + 1) 0 = metaLbn (l + 1) (levelBase N l) := by
  rw [indirLbn, Nat.zero_mul, Nat.add_zero (levelBase N l)]

theorem ufsGetlbns_data (hN : 0 < N) (hl : l < niaddr) (hrel : rel < N ^ (l + 1)) :
    ufsGetlbns N ((levelBase N l + rel : Nat) : Int) = .ok (dataPath N l rel) := by
  have hbase := ndaddr_le_levelBase N l
  have hpath := getlbnsPath_eq_path hN (show 0 < levelBase N l by unfold ndaddr at hbase; omega)
    (Int.natCast_nonneg (levelBase N l + rel)) rel (l + 1)
  rw [Radix.pathFirst_top hrel] at hpath
  rw [ufsGetlbns_level hl hrel, hpath, dataPath, indirLbn_top]

/-- Entry `i + 1` stands for the node of height `l + 1 - i` on the path. -/
theorem dataPath_getElem? {i : Nat} (hi : i ≤ l) :
    (dataPath N l rel)[i + 1]? =
      some ⟨indirLbn N l (l + 1 - i) (rel / N ^ (l + 1 - i)), rel / N ^ (l - i) % N⟩ := by
  have hsub : l + 1 - 1 - i = l - i := by omega
  have hsucc : l - i + 1 = l + 1 - i := by omega
  rw [dataPath, List.getElem?_cons_succ, path_getElem? (Nat.lt_succ_of_le hi), hsub, pathIndir, hsucc, indirLbn_path]

/-- Every path is one of these, or is empty. -/
theorem eq_dataPath (hN : 0 < N) {b : Nat} {p : List Indir} (hp : ufsGetlbns N (b : Int) = .ok p) :
    p = [] ∨ ∃ l rel, l < niaddr ∧ rel < N ^ (l + 1) ∧ b = levelBase N l + rel ∧ p = dataPath N l rel := by
  rcases level_cases N b with hdir | ⟨l, rel, hl, hrel, rfl⟩ | hbig
  · rw [ufsGetlbns_direct hdir] at hp
    exact .inl (Except.ok.inj hp).symm
  · rw [ufsGetlbns_data hN hl hrel] at hp
    exact .inr ⟨l, rel, hl, hrel, rfl, (Except.ok.inj hp).symm⟩
  · rw [ufsGetlbns_efbig hbig] at hp
    cases hp

/-! ### The path to an indirect block -/

/-- The walk to the node of height `h` that stands `h - 1` behind its first data block. It
meets no name before: the nodes above are higher. -/
theorem getlbnsPath_take (hN : 4 ≤ N) (hl : l < niaddr) (hrel : rel < N ^ (l + 1)) {h : Nat} (h1 : 1 ≤ h) {rel' : Nat}
    (hdiv : rel' / N ^ h = rel / N ^ h) (n : Nat) (hhn : h ≤ n) (hn : n ≤ l + 1) :
    getlbnsPath N (indirLbn N l h (rel / N ^ h)) rel' n (N ^ n) (indirLbn N l n (rel / N ^ n)) =
      (path N (levelBase N l) rel n).take (n - h) := by
  induction n with
  | zero => exact absurd hhn (by omega)
  | succ n ih =>
      rcases Nat.lt_or_ge n h with hlt | hge
      · obtain rfl : h = n + 1 := by omega
        rw [getlbnsPath, if_pos rfl, Nat.sub_self, List.take_zero]
      · have hne : indirLbn N l (n + 1) (rel / N ^ (n + 1)) ≠ indirLbn N l h (rel / N ^ h) := by
          intro heq
          obtain ⟨j, rfl⟩ : ∃ j, h = j + 1 := ⟨h - 1, by omega⟩
          have hinj := indirLbn_inj hN hl hl (path_bounds hN hrel (by omega)) (path_bounds hN hrel (by omega)) heq
          omega
        have hdigit : rel' / N ^ n = rel / N ^ n := div_pow_of_le hdiv hge
        have hsub : n + 1 - h = (n - h) + 1 := by omega
        have hrest := ih hge (by omega)
        rw [indirLbn_path N l rel n] at hrest
        rw [indirLbn_path N l rel (n + 1)] at hne ⊢
        rw [getlbnsPath_succ (by omega) rel' n _ hne, hdigit, ← Radix.pathFirst_succ, hrest, hsub, path,
          List.take_succ_cons, pathIndir]

/-- `ufs_getlbns` on the name of a node: the entries above it. -/
theorem ufsGetlbns_node (hN : 4 ≤ N) (hl : l < niaddr) (hrel : rel < N ^ (l + 1)) {i : Nat} (hi : i ≤ l) :
    ufsGetlbns N (indirLbn N l (l + 1 - i) (rel / N ^ (l + 1 - i))) = .ok ((dataPath N l rel).take (i + 1)) := by
  obtain ⟨h, hh⟩ : ∃ h, l + 1 - i = h + 1 := ⟨l - i, by omega⟩
  rw [hh]
  have hpos : 0 < N ^ (h + 1) := Nat.pow_pos (by omega)
  have hbounds := (path_bounds hN hrel (show h ≤ l by omega)).2.2
  have hlow : h < N ^ (h + 1) := by
    calc h < 2 ^ h := Nat.lt_two_pow_self
      _ ≤ N ^ h := Nat.pow_le_pow_left (by omega) h
      _ ≤ N ^ (h + 1) := Nat.pow_le_pow_right (by omega) (by omega)
  -- the number is counted from the block's first data block, and the height comes on top
  have habs : (indirLbn N l (h + 1) (rel / N ^ (h + 1))).natAbs =
      levelBase N l + (rel / N ^ (h + 1) * N ^ (h + 1) + h) := by
    unfold indirLbn metaLbn
    omega
  have hdiv : (rel / N ^ (h + 1) * N ^ (h + 1) + h) / N ^ (h + 1) = rel / N ^ (h + 1) := by
    rw [Nat.mul_comm, Nat.mul_add_div hpos, Nat.div_eq_of_lt hlow, Nat.add_zero]
  rw [Nat.add_mul, Nat.one_mul] at hbounds
  have hwalk := getlbnsPath_take hN hl hrel (Nat.succ_pos h) hdiv (l + 1) (by omega) (Nat.le_refl _)
  rw [Nat.div_eq_of_lt hrel, indirLbn_top] at hwalk
  have hsub : l + 1 - (h + 1) = i := by omega
  rw [ufsGetlbns_natAbs habs hl (by omega), hwalk, hsub, dataPath, List.take_succ_cons, indirLbn_top]

end Getlbns

/-! ### The numbers as names -/

section Names

variable {N l rel : Nat}

/-- Two entries have one number exactly when they stand for one node. -/
theorem indirLbn_eq_iff (hN : 4 ≤ N) {l' rel' i i' : Nat} (hl : l < niaddr) (hrel : rel < N ^ (l + 1)) (hi : i ≤ l)
    (hl' : l' < niaddr) (hrel' : rel' < N ^ (l' + 1)) (hi' : i' ≤ l') :
    indirLbn N l (l + 1 - i) (rel / N ^ (l + 1 - i)) = indirLbn N l' (l' + 1 - i') (rel' / N ^ (l' + 1 - i')) ↔
      l - i = l' - i' ∧
        ((dataPath N l rel).take (i + 1)).map Indir.off = ((dataPath N l' rel').take (i' + 1)).map Indir.off := by
  obtain ⟨h, hh⟩ : ∃ h, l + 1 - i = h + 1 := ⟨l - i, by omega⟩
  obtain ⟨h', hh'⟩ : ∃ h', l' + 1 - i' = h' + 1 := ⟨l' - i', by omega⟩
  have hsub : l + 1 - (h + 1) = i := by omega
  have hsub' : l' + 1 - (h' + 1) = i' := by omega
  rw [hh, hh']
  constructor
  · intro heq
    obtain ⟨rfl, hheight, hidx⟩ :=
      indirLbn_inj hN hl hl' (path_bounds hN hrel (by omega)) (path_bounds hN hrel' (by omega)) heq
    obtain rfl : h = h' := by omega
    obtain rfl : i = i' := by omega
    refine ⟨rfl, ?_⟩
    have htake : (path N (levelBase N l) rel (l + 1)).take (l + 1 - (h + 1)) =
        (path N (levelBase N l) rel' (l + 1)).take (l + 1 - (h + 1)) := path_take_congr hidx (l + 1)
    rw [hsub] at htake
    rw [dataPath, dataPath, List.take_succ_cons, List.take_succ_cons, htake]
  · rintro ⟨hheight, hslots⟩
    rw [dataPath, dataPath, List.take_succ_cons, List.take_succ_cons, List.map_cons, List.map_cons] at hslots
    obtain ⟨hll, hdigits⟩ := List.cons.inj hslots
    obtain rfl : l = l' := hll
    obtain rfl : i = i' := by omega
    obtain rfl : h = h' := by omega
    have hvalue (r : Nat) : digitsValue N (((path N (levelBase N l) r (l + 1)).take (l + 1 - (h + 1))).map Indir.off)
        (r / N ^ (l + 1)) = r / N ^ (h + 1) := digitsValue_path (by omega)
    have hval := hvalue rel
    have hval' := hvalue rel'
    rw [Nat.div_eq_of_lt hrel, hsub] at hval
    rw [Nat.div_eq_of_lt hrel', hsub] at hval'
    rw [← hval, ← hval', hdigits]

/-- `lbn_level` reads the height off the two lowest bits. -/
theorem lbnLevel_indirLbn (hdvd : 4 ∣ N) {h m : Nat} (hl : l < niaddr) (h1 : 1 ≤ h) (hle : h ≤ l + 1) :
    lbnLevel (indirLbn N l h m) = h - 1 := by
  have hni : niaddr = 3 := rfl
  have hpow : ∀ n, 1 ≤ n → 4 ∣ N ^ n := fun n hn => dvd_pow hdvd (by omega)
  have hbase : ∀ k, 4 ∣ levelBase N k := by
    intro k
    induction k with
    | zero => exact ⟨3, rfl⟩
    | succ k ih => exact Nat.dvd_add ih (hpow _ (by omega))
  have hfirst : 4 ∣ levelBase N l + m * N ^ h := Nat.dvd_add (hbase l) (Dvd.dvd.mul_left (hpow h h1) m)
  have hpos : 12 ≤ levelBase N l := ndaddr_le_levelBase N l
  have hge : levelBase N l ≤ levelBase N l + m * N ^ h := Nat.le_add_right _ _
  unfold indirLbn metaLbn
  generalize levelBase N l + m * N ^ h = first at hfirst hge
  have hneg : ¬ 0 ≤ -((first : Int) + h - 1) := by omega
  rw [lbnLevel, if_neg hneg]
  rcases (by omega : h = 1 ∨ h = 2 ∨ h = 3) with rfl | rfl | rfl
  · have hmod : -((first : Int) + (1 : Nat) - 1) % 4 = 0 := by omega
    rw [hmod]
    rfl
  · have hmod : -((first : Int) + (2 : Nat) - 1) % 4 = 3 := by omega
    rw [hmod]
    rfl
  · have hmod : -((first : Int) + (3 : Nat) - 1) % 4 = 2 := by omega
    rw [hmod]
    rfl

/-! ### The numbers of `ffs_truncate` -/

theorem lbnOffset_eq (N level : Nat) : lbnOffset N level = ((N ^ level : Nat) : Int) := by
  induction level with
  | zero => rfl
  | succ level ih => rw [lbnOffset, ih, Nat.pow_succ, Nat.cast_mul]

/-- Without overflow. -/
theorem nindirPow_eq {N : Nat} (hN : 4 ≤ N) (hsq : N * N < 2 ^ 31) {level : Nat} (hlevel : level ≤ 2) :
    nindirPow N level = (N ^ level : Nat) := by
  have hpow : N ^ level ≤ N ^ 2 := Nat.pow_le_pow_right (by omega) hlevel
  rw [Nat.pow_two] at hpow
  exact toI32_eq_self (by omega) (by omega)

theorem truncIndirLbn_eq {N l : Nat} (hN : 4 ≤ N) (hsq : N * N < 2 ^ 31) (hl : l < niaddr) :
    truncIndirLbn N l = indirLbn N l (l + 1) 0 := by
  have hni : niaddr = 3 := rfl
  induction l with
  | zero =>
      rw [indirLbn_top]
      rfl
  | succ l ih =>
      have hbase : levelBase N (l + 1) = levelBase N l + N ^ (l + 1) := rfl
      have hprev := ih (by omega)
      rw [indirLbn_top] at hprev ⊢
      rw [truncIndirLbn, hprev, nindirPow_eq hN hsq (by omega), hbase]
      unfold metaLbn
      push_cast
      ring

/-- The triple indirect block has another number when the product overflows. -/
theorem truncIndirLbn_ne {N : Nat} (hsq : 2 ^ 31 ≤ N * N) : truncIndirLbn N 2 ≠ indirLbn N 2 3 0 := by
  have hsquare := (toI32_bounds (N ^ 2 : Nat)).2
  have hle : toI32 (N : Int) ≤ N := by
    have hbound := (toI32_bounds N).2
    by_cases hN : (N : Int) < 2 ^ 31
    · exact (toI32_eq_self (by omega) hN).le
    · omega
  have hbase : levelBase N 2 = ndaddr + N + N * N := by
    show ndaddr + N ^ 1 + N ^ 2 = ndaddr + N + N * N
    rw [Nat.pow_one, Nat.pow_two]
  have hname : indirLbn N 2 3 0 = -((ndaddr : Int) + N + N * N + 2) := by
    rw [indirLbn_top, hbase]
    unfold metaLbn
    push_cast
    ring
  have hsum : truncIndirLbn N 2 = -(ndaddr : Int) - toI32 N - 1 - toI32 (N ^ 2 : Nat) - 1 := by
    rw [truncIndirLbn, truncIndirLbn, truncIndirLbn, nindirPow, nindirPow, Nat.zero_add, Nat.pow_one]
  have hsq' : (2 : Int) ^ 31 ≤ N * N := by exact_mod_cast hsq
  rw [hname, hsum]
  omega

/-- The child in slot `i` of a node, by the recurrence of `ffs_indirtrunc`. -/
theorem indirLbn_child (N l h m i : Nat) :
    indirLbn N l (h + 1) m + 1 - i * (N ^ h : Nat) = indirLbn N l h (m * N + i) := by
  unfold indirLbn metaLbn
  rw [Nat.pow_succ]
  push_cast
  ring

end Names

/-! ### The recursion over nodes -/

/-- The number that `ufs_getlbns` gives node `m` of height `h` behind indirect pointer `l`, on
the path to the node's first data block. -/
def nodeName (N l h m : Nat) : Int :=
  match ufsGetlbns N (levelBase N l + m * N ^ h : Nat) with
  | .ok p => p[l + 2 - h]?.elim 0 Indir.lbn
  | .error _ => 0

theorem nodeName_eq {N l h m : Nat} (hN : 4 ≤ N) (hl : l < niaddr)
    (hb : 1 ≤ h ∧ h ≤ l + 1 ∧ (m + 1) * N ^ h ≤ N ^ (l + 1)) : nodeName N l h m = indirLbn N l h m := by
  obtain ⟨h1, hle, hm⟩ := hb
  have hpos : 0 < N ^ h := Nat.pow_pos (by omega)
  rw [Nat.add_mul, Nat.one_mul] at hm
  have hindex : l + 2 - h = (l + 1 - h) + 1 := by omega
  have hheight : l + 1 - (l + 1 - h) = h := by omega
  have hget : (dataPath N l (m * N ^ h))[l + 1 - h + 1]? =
      some ⟨indirLbn N l (l + 1 - (l + 1 - h)) (m * N ^ h / N ^ (l + 1 - (l + 1 - h))), m * N ^ h / N ^ (l - (l + 1 - h)) % N⟩ :=
    dataPath_getElem? (by omega)
  rw [hheight, Nat.mul_div_cancel _ hpos] at hget
  unfold nodeName
  rw [ufsGetlbns_data (by omega) hl (by omega), hindex]
  simp only [hget]
  rfl

/-- The loop of `ffs_indirtrunc`: `child` is told the slot. -/
def nodeLoop (mp : Ump) (child : Growth → Nat → Int → Option IndirEnd) (blk : Nat → Int) (last : Int) :
    Nat → IndirEnd → Option IndirEnd
  | 0, r => some r
  | i + 1, r =>
      if (i : Int) ≤ last then some r
      else if blk i = 0 then nodeLoop mp child blk last i r
      else
        match child r.st i (fsbtodb mp.fs (blk i)) with
        | none => none
        | some t => nodeLoop mp child blk last i ((r.add t).free mp (blk i))

/-- The body of `ffs_indirtrunc`, likewise. -/
def nodeBlock (mp : Ump) (c : TruncCall) (level : Nat) (child : Growth → Nat → Int → Option IndirEnd) (s : Growth)
    (name lastbn : Int) : Option IndirEnd :=
  let last := if 0 < lastbn then lastbn / (mp.fs.nindir : Int) ^ level else lastbn
  match c.readErr name with
  | some e => some ⟨some e, 0, s⟩
  | none =>
      if lastbn ≠ -1 ∧ (toI32 (toU32 (last + 1)) < 0 ∨ last < -1) then none
      else
        let werr := if lastbn = -1 ∨ mp.async then none else c.writeErr name
        let s' := if lastbn = -1 then s else s.zeroFrom name (toI32 (toU32 (last + 1)))
        match nodeLoop mp child (s.ind name) last mp.fs.nindir ⟨werr, 0, s'⟩ with
        | none => none
        | some r =>
            let i := (min last (mp.fs.nindir - 1)).toNat
            if level = 0 ∨ lastbn < 0 ∨ s.ind name i = 0 then some r
            else
              match child r.st i (fsbtodb mp.fs (s.ind name i)) with
              | none => none
              | some t => some (r.add t)

/-- `ffs_indirtrunc` on node `m` behind indirect pointer `l`. -/
def nodeTrunc (mp : Ump) (c : TruncCall) (l : Nat) : Nat → Growth → Nat → Int → Option IndirEnd
  | 0, s, m, lastbn => nodeBlock mp c 0 (fun s _ _ => some ⟨none, 0, s⟩) s (nodeName mp.fs.nindir l 1 m) lastbn
  | level + 1, s, m, lastbn =>
      nodeBlock mp c (level + 1) (fun s i lastbn => nodeTrunc mp c l level s (m * mp.fs.nindir + i) lastbn) s
        (nodeName mp.fs.nindir l (level + 2) m) lastbn

section NodeTrunc

variable {mp : Ump} {c : TruncCall} {child : Growth → Int → Int → Int → Option IndirEnd}
  {child' : Growth → Nat → Int → Option IndirEnd} {lbn factor : Int}

theorem indirtruncLoop_eq (blk : Nat → Int) (last : Int) (n : Nat)
    (hchild : ∀ i < n, ∀ s a d, child s (lbn + 1 - i * factor) a d = child' s i a) (r : IndirEnd) :
    indirtruncLoop mp child blk lbn factor last n r = nodeLoop mp child' blk last n r := by
  induction n generalizing r with
  | zero => rfl
  | succ n ih =>
      have hrest := fun r => ih (fun i hi => hchild i (Nat.lt_succ_of_lt hi)) r
      simp only [indirtruncLoop, hchild n (Nat.lt_succ_self n), hrest]
      rfl

theorem indirtruncBlock_eq (level : Nat) (s : Growth) (lastbn : Int)
    (hchild : ∀ i < mp.fs.nindir, ∀ s a d,
      child s (lbn + 1 - i * (mp.fs.nindir : Int) ^ level) a d = child' s i a) :
    indirtruncBlock mp c level child s lbn lastbn = nodeBlock mp c level child' s lbn lastbn := by
  have hN := mp.fs.four_le_nindir
  -- the partial block is reached through the slot at which the loop stopped
  have hpart (last : Int) : ∀ s a d,
      child s (lbn + 1 - ((min last (mp.fs.nindir - 1)).toNat : Int) * (mp.fs.nindir : Int) ^ level) a d =
        child' s (min last (mp.fs.nindir - 1)).toNat a := hchild _ (by omega)
  unfold indirtruncBlock
  simp only [indirtruncLoop_eq _ _ _ hchild, hpart]
  rfl

/-- `ffs_indirtrunc` computes the names of `ufs_getlbns`, all the way down. -/
theorem ffsIndirtrunc_eq {l : Nat} (hl : l < niaddr) (level : Nat) (hlevel : level ≤ l) (s : Growth) (m : Nat)
    (hm : (m + 1) * mp.fs.nindir ^ (level + 1) ≤ mp.fs.nindir ^ (l + 1)) (lastbn dbn : Int) :
    ffsIndirtrunc mp c level s (indirLbn mp.fs.nindir l (level + 1) m) lastbn dbn = nodeTrunc mp c l level s m lastbn := by
  have hN := mp.fs.four_le_nindir
  induction level generalizing s m lastbn dbn with
  | zero =>
      have hname := nodeName_eq hN hl ⟨Nat.le_refl 1, by omega, hm⟩
      rw [ffsIndirtrunc, nodeTrunc, hname]
      exact indirtruncBlock_eq 0 s lastbn fun i _ s a d => rfl
  | succ level ih =>
      have hname := nodeName_eq hN hl ⟨by omega, by omega, hm⟩
      rw [ffsIndirtrunc, nodeTrunc, hname]
      refine indirtruncBlock_eq (level + 1) s lastbn fun i hi s a d => ?_
      have hbelow : (m * mp.fs.nindir + i + 1) * mp.fs.nindir ^ (level + 1) ≤ mp.fs.nindir ^ (l + 1) := by
        calc (m * mp.fs.nindir + i + 1) * mp.fs.nindir ^ (level + 1)
            ≤ (m * mp.fs.nindir + mp.fs.nindir) * mp.fs.nindir ^ (level + 1) := Nat.mul_le_mul_right _ (by omega)
          _ = (m + 1) * mp.fs.nindir ^ (level + 1 + 1) := by rw [Nat.pow_succ _ (level + 1)]; ring
          _ ≤ mp.fs.nindir ^ (l + 1) := hm
      have hnum := indirLbn_child mp.fs.nindir l (level + 1) m i
      rw [Nat.cast_pow] at hnum
      rw [hnum]
      exact ih (by omega) s _ hbelow a d

end NodeTrunc

/-! ### The four computations agree -/

/-- An entry behind the first one belongs to a data block behind an indirect pointer. -/
theorem entry_cases {N b i : Nat} (hN : 0 < N) {p : List Indir} {a : Indir} (hp : ufsGetlbns N (b : Int) = .ok p)
    (ha : p[i + 1]? = some a) :
    ∃ l rel, l < niaddr ∧ rel < N ^ (l + 1) ∧ i ≤ l ∧ p = dataPath N l rel ∧ p.length = l + 2 ∧
      a.lbn = indirLbn N l (l + 1 - i) (rel / N ^ (l + 1 - i)) := by
  rcases eq_dataPath hN hp with rfl | ⟨l, rel, hl, hrel, -, rfl⟩
  · cases ha
  · have hi : i + 1 < (dataPath N l rel).length := (List.getElem?_eq_some_iff.mp ha).1
    rw [dataPath_length] at hi
    rw [dataPath_getElem? (by omega)] at ha
    obtain rfl := Option.some.inj ha
    exact ⟨l, rel, hl, hrel, by omega, rfl, dataPath_length, rfl⟩

/-- The names for `N` pointers in a block. Entry `i + 1` of a path `p` is the indirect block
to which the slots of the first `i + 1` entries lead; its level is `p.length - 2 - i`. -/
structure NamesAgree (N : Nat) : Prop where
  /-- Numbers are equal exactly for entries of one level and one prefix of slots. -/
  same : ∀ (b b' i i' : Nat) (p p' : List Indir) (a a' : Indir), ufsGetlbns N b = .ok p → ufsGetlbns N b' = .ok p' →
    p[i + 1]? = some a → p'[i' + 1]? = some a' →
    (a.lbn = a'.lbn ↔ p.length - 2 - i = p'.length - 2 - i' ∧
      (p.take (i + 1)).map Indir.off = (p'.take (i' + 1)).map Indir.off)
  /-- `ufs_getlbns` on the number gives the prefix of the path, and `lbn_level` the level, so
  never -1. -/
  path : ∀ (b i : Nat) (p : List Indir) (a : Indir), ufsGetlbns N b = .ok p → p[i + 1]? = some a →
    ufsGetlbns N a.lbn = .ok (p.take (i + 1)) ∧ lbnLevel a.lbn = (p.length - 2 - i : Nat)
  /-- `ffs_truncate` has the numbers of the three top blocks. -/
  truncate : ∀ l < niaddr, truncIndirLbn N l = nodeName N l (l + 1) 0
  /-- The recurrence of `ffs_indirtrunc` goes from parent to child. -/
  child : ∀ l < niaddr, ∀ level ≤ l, 1 ≤ level → ∀ m, (m + 1) * N ^ (level + 1) ≤ N ^ (l + 1) → ∀ i < N,
    nodeName N l (level + 1) m + 1 - i * lbnOffset N level = nodeName N l level (m * N + i)
  /-- All of `ffs_indirtrunc` works on the numbers that `ufs_getlbns` gives. -/
  indirtrunc : ∀ (mp : Ump), mp.fs.nindir = N → ∀ l < niaddr, ∀ level ≤ l,
    ∀ m, (m + 1) * N ^ (level + 1) ≤ N ^ (l + 1) → ∀ c s lastbn dbn,
    ffsIndirtrunc mp c level s (nodeName N l (level + 1) m) lastbn dbn = nodeTrunc mp c l level s m lastbn

section Agree

variable {N : Nat}

theorem nodeName_top (hN : 4 ≤ N) {l : Nat} (hl : l < niaddr) : nodeName N l (l + 1) 0 = indirLbn N l (l + 1) 0 :=
  nodeName_eq hN hl ⟨by omega, Nat.le_refl _, by rw [Nat.zero_add, Nat.one_mul]⟩

theorem nodeName_child (hN : 4 ≤ N) {l level m i : Nat} (hl : l < niaddr) (hlevel : level ≤ l) (h1 : 1 ≤ level)
    (hm : (m + 1) * N ^ (level + 1) ≤ N ^ (l + 1)) (hi : i < N) :
    nodeName N l (level + 1) m + 1 - i * lbnOffset N level = nodeName N l level (m * N + i) := by
  have hbelow : (m * N + i + 1) * N ^ level ≤ N ^ (l + 1) := by
    calc (m * N + i + 1) * N ^ level
        ≤ (m * N + N) * N ^ level := Nat.mul_le_mul_right _ (by omega)
      _ = (m + 1) * N ^ (level + 1) := by rw [Nat.pow_succ _ level]; ring
      _ ≤ N ^ (l + 1) := hm
  rw [nodeName_eq hN hl ⟨by omega, by omega, hm⟩, nodeName_eq hN hl ⟨h1, by omega, hbelow⟩, lbnOffset_eq]
  exact indirLbn_child N l level m i

/-- Past 46340 pointers, `NINDIR(fs) * NINDIR(fs)` is no `int`. -/
theorem truncate_fails (hN : 4 ≤ N) (hsq : 2 ^ 31 ≤ N * N) : ¬ NamesAgree N := by
  intro h
  have htop := h.truncate 2 (by decide)
  rw [nodeName_top hN (by decide)] at htop
  exact truncIndirLbn_ne hsq htop

end Agree

/-- For every `N` from 4 on that is a multiple of 4: the computations agree exactly when the
square of `N` is an `int`. -/
theorem indirNames_agree_iff {N : Nat} (hN : 4 ≤ N) (hdvd : 4 ∣ N) : NamesAgree N ↔ N * N < 2 ^ 31 := by
  have hpos : 0 < N := by omega
  constructor
  · intro h
    by_contra hsq
    exact truncate_fails hN (Nat.not_lt.mp hsq) h
  intro hsq
  refine ⟨fun b b' i i' p p' a a' hp hp' ha ha' => ?_, fun b i p a hp ha => ?_, fun l hl => ?_,
    fun l hl level hlevel h1 m hm i hi => nodeName_child hN hl hlevel h1 hm hi,
    fun mp hmp l hl level hlevel m hm c s lastbn dbn => ?_⟩
  · obtain ⟨l, rel, hl, hrel, hi, rfl, hlen, hlbn⟩ := entry_cases hpos hp ha
    obtain ⟨l', rel', hl', hrel', hi', rfl, hlen', hlbn'⟩ := entry_cases hpos hp' ha'
    rw [hlbn, hlbn', hlen, hlen', Nat.add_sub_cancel, Nat.add_sub_cancel]
    exact indirLbn_eq_iff hN hl hrel hi hl' hrel' hi'
  · obtain ⟨l, rel, hl, hrel, hi, rfl, hlen, hlbn⟩ := entry_cases hpos hp ha
    rw [hlbn, hlen, Nat.add_sub_cancel, lbnLevel_indirLbn hdvd hl (by omega) (by omega)]
    exact ⟨ufsGetlbns_node hN hl hrel hi, by omega⟩
  · rw [truncIndirLbn_eq hN hsq hl, nodeName_top hN hl]
  · subst hmp
    rw [nodeName_eq hN hl ⟨by omega, by omega, hm⟩]
    exact ffsIndirtrunc_eq hl level hlevel s m hm lastbn dbn

/-- With four pointers in a block: data blocks 16 and 20 are below different single indirect
blocks of one double indirect block. -/
theorem indirNames_agree_four :
    ufsGetlbns 4 (-16) = .ok [⟨-17, 1⟩, ⟨-17, 0⟩] ∧ lbnLevel (-16) = 0 ∧ (-16 : Int) ≠ -20
      ∧ truncIndirLbn 4 2 = nodeName 4 2 3 0 := by
  have hfirst : ufsGetlbns 4 (16 : Nat) = .ok [⟨-17, 1⟩, ⟨-17, 0⟩, ⟨-16, 0⟩] := rfl
  have hsecond : ufsGetlbns 4 (20 : Nat) = .ok [⟨-17, 1⟩, ⟨-17, 1⟩, ⟨-20, 0⟩] := rfl
  have h := (indirNames_agree_iff (N := 4) (by decide) (by decide)).mpr (by decide)
  obtain ⟨hpath, hlevel⟩ := h.path 16 1 _ ⟨-16, 0⟩ hfirst rfl
  have hiff := h.same 16 20 1 1 _ _ ⟨-16, 0⟩ ⟨-20, 0⟩ hfirst hsecond rfl rfl
  exact ⟨hpath, hlevel, fun heq => absurd (hiff.mp heq).2 (by decide), h.truncate 2 (by decide)⟩

/-- A block of 256 KiB has 65536 pointers of a UFS1 file system, and the product is 0. -/
theorem not_indirNames_agree : ¬ (∀ N, 4 ≤ N → 4 ∣ N → NamesAgree N) ∧ truncIndirLbn 65536 2 = -65550 := by
  constructor
  · intro hall
    exact truncate_fails (N := 65536) (by decide) (by decide) (hall 65536 (by decide) (by decide))
  · decide

end UfsX.Proofs.IndirNames
