import UfsX.Proofs.Trim
import Mathlib.Data.List.Forall2

/-!
# `UfsX.Proofs.TrimExtents`: which bytes a trim request discards

`ffs_blkfree` joins neighbouring blocks of one key, so that a request is always one
contiguous range of fragments (`Contig`). `ffs_blkfree_sendtrim` hands its start to
the disk as a device block number, where the disk expects a byte offset, and
`daddr_t` has 32 bits. The length is in bytes.

`trimExact_iff`: the extents of a key are the bytes of the blocks freed with it
exactly when every run of neighbours starts at an address that the conversion
leaves alone, and the key is finished.
-/

set_option autoImplicit false

namespace UfsX.Proofs

open UfsX.Lib UfsX.Ffs UfsX.Ufs

/-! ### One key -/

/-- The blocks of a list are freed with one key. -/
def freeAll (m : TrimMount) (inum key : Nat) : List TrimBlkreq → TrimState → Option TrimState
  | [], s => some s
  | blk :: l, s => (ffsBlkfree m s blk.bno blk.size inum key).bind (freeAll m inum key l)

/-- A deletion: a key is started, blocks are freed with it, and it is finished.
`d₀` and `d₁` are `dotrimcons` at the start and at the finish. -/
def oneKey (m : TrimMount) (d₀ d₁ : Bool) (inum : Nat) (l : List TrimBlkreq) (s : TrimState) :
    Option TrimState :=
  (ffsBlkreleaseStart m d₀ s inum).bind fun (key, s) =>
    (freeAll m inum key l s).bind fun s => ffsBlkreleaseFinish m d₁ s key

/-- A block is a positive number of whole fragments, on a disk whose byte offsets
are an `off_t`. -/
structure BlkOk (fs : Fs) (blk : TrimBlkreq) : Prop where
  pos : 0 < blk.size
  frags : blk.size = fs.numfrags blk.size * fs.fsize
  lt : blk.bno * fs.fsize < 2 ^ 63

/-- The bytes of a block on the disk. -/
def BlkByte (fs : Fs) (blk : TrimBlkreq) (x : Nat) : Prop :=
  blk.bno * fs.fsize ≤ x ∧ x < blk.bno * fs.fsize + blk.size

/-- The bytes that the disk discards. -/
def ExtentByte (e : DkExtent) (x : Nat) : Prop := e.offset ≤ x ∧ (x : Int) < e.offset + e.length

/-- The extent of a request is the union of its blocks. -/
def ExtentExact (fs : Fs) (tp : TrimParams) (e : DkExtent) : Prop :=
  ∀ x, ExtentByte e x ↔ ∃ blk ∈ tp.blklist, BlkByte fs blk x

/-- From `s` to `s'`, blocks `l` have been trimmed: the extent of each new request
is the union of its blocks, and all together cover the blocks of `l`. -/
def TrimExact (fs : Fs) (s s' : TrimState) (l : List TrimBlkreq) : Prop :=
  ∃ reqs exts, s'.tq = s.tq ++ reqs ∧ s'.unmaps = s.unmaps ++ exts
    ∧ List.Forall₂ (ExtentExact fs) reqs exts ∧ (blocksOf reqs).Perm l
    ∧ ∀ x, (∃ e ∈ exts, ExtentByte e x) ↔ ∃ blk ∈ l, BlkByte fs blk x

/-! ### The condition -/

/-- The first fragments of the runs of neighbours in a list of blocks, where a run
of `len` fragments from `start` is open. -/
def joinStarts (fs : Fs) : Nat → Nat → List TrimBlkreq → List Nat
  | start, _, [] => [start]
  | start, len, blk :: l =>
      if blk.bno + fs.numfrags blk.size = start then
        joinStarts fs blk.bno (len + fs.numfrags blk.size) l
      else if blk.bno = start + len then joinStarts fs start (len + fs.numfrags blk.size) l
      else start :: joinStarts fs blk.bno (fs.numfrags blk.size) l

def runStarts (fs : Fs) : List TrimBlkreq → List Nat
  | [] => []
  | blk :: l => joinStarts fs blk.bno (fs.numfrags blk.size) l

/-- The device block number of a fragment is its byte offset: device blocks are
bytes, and the offset fits `daddr_t`. -/
def OffsetOk (fs : Fs) (bno : Nat) : Prop :=
  bno = 0 ∨ (fs.fsbtodb = fs.fshift ∧ bno * fs.fsize < 2 ^ 31)

/-- With a key of its own, every run starts at a good address, and the key is
finished while `dotrimcons` is on. Without one, every block does. -/
def TrimClear (fs : Fs) (d₀ d₁ : Bool) (l : List TrimBlkreq) : Prop :=
  if d₀ then l = [] ∨ (d₁ = true ∧ ∀ bno ∈ runStarts fs l, OffsetOk fs bno)
  else ∀ blk ∈ l, OffsetOk fs blk.bno

/-! ### The conversion of an address -/

/-- What `ffs_blkfree_sendtrim` tells the disk. -/
def extentOf (fs : Fs) (tp : TrimParams) : DkExtent := ⟨toU64 (fsbtodb fs tp.bno), tp.size⟩

theorem toI32_eq_iff {x y : Int} (hy : 0 ≤ y) (hy' : y < 2 ^ 63) :
    toU64 (toI32 x) = y ↔ y < 2 ^ 31 ∧ x % 2 ^ 32 = y := by
  unfold toU64 toI32
  rw [Int.bmod_def]
  split
  · omega
  · omega

theorem offset_eq_iff {fs : Fs} {bno : Nat} (hlt : bno * fs.fsize < 2 ^ 63) :
    toU64 (fsbtodb fs bno) = (bno * fs.fsize : Nat) ↔ OffsetOk fs bno := by
  unfold fsbtodb OffsetOk
  rw [toI32_eq_iff (Int.natCast_nonneg _) (by exact_mod_cast hlt)]
  have hle : 2 ^ fs.fsbtodb ≤ fs.fsize := Nat.pow_le_pow_right (by decide) fs.fsbtodb_le
  by_cases hzero : bno = 0
  · simp [hzero, toI32]
  · by_cases hsmall : bno * fs.fsize < 2 ^ 31
    · -- nothing is cut off, so the two factors decide
      have hb : bno < 2 ^ 31 := lt_of_le_of_lt (Nat.le_mul_of_pos_right _ fs.fsize_pos) hsmall
      have hprod : bno * 2 ^ fs.fsbtodb ≤ bno * fs.fsize := Nat.mul_le_mul_left _ hle
      have hcast : toI32 (bno : Int) * 2 ^ fs.fsbtodb = ((bno * 2 ^ fs.fsbtodb : Nat) : Int) := by
        rw [toI32_eq_self (by omega) (by omega)]
        push_cast
        rfl
      have hmod : ((bno * 2 ^ fs.fsbtodb : Nat) : Int) % 2 ^ 32 = (bno * 2 ^ fs.fsbtodb : Nat) := by
        omega
      rw [hcast, hmod, Int.natCast_inj]
      constructor
      · rintro ⟨-, heq⟩
        have hpow : 2 ^ fs.fsbtodb = 2 ^ fs.fshift :=
          Nat.eq_of_mul_eq_mul_left (Nat.pos_of_ne_zero hzero) heq
        exact Or.inr ⟨Nat.pow_right_injective (le_refl 2) hpow, hsmall⟩
      · rintro (hno | ⟨heq, -⟩)
        · exact absurd hno hzero
        · refine ⟨by exact_mod_cast hsmall, ?_⟩
          rw [heq]
          rfl
    · constructor
      · rintro ⟨hno, -⟩
        exact absurd (by exact_mod_cast hno) hsmall
      · rintro (hno | ⟨-, hno⟩)
        · exact absurd hno hzero
        · exact absurd hno hsmall

/-! ### Requests are contiguous -/

/-- The blocks of a request are one range of whole fragments. -/
structure Contig (fs : Fs) (tp : TrimParams) : Prop where
  pos : 0 < tp.size
  frags : tp.size = fs.numfrags tp.size * fs.fsize
  lt : tp.bno * fs.fsize < 2 ^ 63
  bytes : ∀ x, (∃ blk ∈ tp.blklist, BlkByte fs blk x)
    ↔ tp.bno * fs.fsize ≤ x ∧ x < tp.bno * fs.fsize + tp.size

section Contiguous

variable {fs : Fs} {tp : TrimParams} {blk : TrimBlkreq}

theorem contig_single (h : BlkOk fs blk) (inum key : Nat) :
    Contig fs ⟨[blk], inum, blk.bno, blk.size, key⟩ where
  pos := h.pos
  frags := h.frags
  lt := h.lt
  bytes x := by simp [BlkByte]

theorem numfrags_add {a c : Nat} (ha : a = fs.numfrags a * fs.fsize) :
    fs.numfrags (a + c) = fs.numfrags a + fs.numfrags c := by
  have hpos := fs.fsize_pos
  calc fs.numfrags (a + c) = (c + fs.numfrags a * fs.fsize) / fs.fsize := by
        rw [← ha, Nat.add_comm]
        rfl
    _ = c / fs.fsize + fs.numfrags a := Nat.add_mul_div_right _ _ hpos
    _ = fs.numfrags a + fs.numfrags c := Nat.add_comm _ _

/-- A neighbour joins at the front or at the end. -/
theorem Contig.join {tp' : TrimParams} (h : Contig fs tp) (hblk : BlkOk fs blk)
    (hmem : ∀ blk', blk' ∈ tp'.blklist ↔ blk' = blk ∨ blk' ∈ tp.blklist)
    (hsize : tp'.size = tp.size + blk.size)
    (hbno : (blk.bno + fs.numfrags blk.size = tp.bno ∧ tp'.bno = blk.bno)
      ∨ (blk.bno = tp.bno + fs.numfrags tp.size ∧ tp'.bno = tp.bno)) : Contig fs tp' where
  pos := by
    have hpos := h.pos
    omega
  frags := by
    rw [hsize, numfrags_add h.frags, Nat.add_mul, ← h.frags, ← hblk.frags]
  lt := by
    rcases hbno with ⟨-, heq⟩ | ⟨-, heq⟩
    · rw [heq]
      exact hblk.lt
    · rw [heq]
      exact h.lt
  bytes x := by
    have hsplit : (∃ blk' ∈ tp'.blklist, BlkByte fs blk' x)
        ↔ BlkByte fs blk x ∨ ∃ blk' ∈ tp.blklist, BlkByte fs blk' x := by
      simp only [hmem, or_and_right, exists_or, exists_eq_left]
    rw [hsplit, h.bytes x, hsize]
    unfold BlkByte
    have hf := hblk.frags
    have hf' := h.frags
    -- the two ranges meet in one byte address
    rcases hbno with ⟨hmeet, heq⟩ | ⟨hmeet, heq⟩
    · have hbytes := congrArg (· * fs.fsize) hmeet
      simp only [Nat.add_mul, ← hf] at hbytes
      rw [heq]
      omega
    · have hbytes := congrArg (· * fs.fsize) hmeet
      simp only [Nat.add_mul, ← hf'] at hbytes
      rw [heq]
      omega

/-- The extent of a contiguous request is exact if and only if its offset is
right. -/
theorem extentExact_iff (h : Contig fs tp) :
    ExtentExact fs tp (extentOf fs tp) ↔ OffsetOk fs tp.bno := by
  rw [← offset_eq_iff h.lt]
  have hpos := h.pos
  have hoff : 0 ≤ toU64 (fsbtodb fs tp.bno) := Int.emod_nonneg _ (by decide)
  unfold ExtentExact ExtentByte extentOf
  simp only [h.bytes]
  constructor
  · intro hall
    -- each range has the first byte of the other
    have hfirst := (hall (tp.bno * fs.fsize)).mpr ⟨le_refl _, by omega⟩
    have hother := (hall (toU64 (fsbtodb fs tp.bno)).toNat).mp ⟨by omega, by omega⟩
    omega
  · intro heq x
    rw [heq]
    omega

end Contiguous

/-! ### The requests of a key -/

/-- Contiguous requests with the blocks of `l`. -/
theorem trimExact_iff_starts {fs : Fs} {s s' : TrimState} {l : List TrimBlkreq}
    (reqs : List TrimParams) (htq : s'.tq = s.tq ++ reqs)
    (hunmaps : s'.unmaps = s.unmaps ++ reqs.map (extentOf fs)) (hcontig : ∀ r ∈ reqs, Contig fs r)
    (hblocks : (blocksOf reqs).Perm l) :
    TrimExact fs s s' l ↔ ∀ bno ∈ reqs.map TrimParams.bno, OffsetOk fs bno := by
  constructor
  · rintro ⟨reqs', exts, htq', hunmaps', hexact, -, -⟩ bno hbno
    obtain ⟨r, hr, rfl⟩ := List.mem_map.mp hbno
    have hreqs : reqs' = reqs := List.append_cancel_left (htq'.symm.trans htq)
    have hexts : exts = reqs.map (extentOf fs) :=
      List.append_cancel_left (hunmaps'.symm.trans hunmaps)
    rw [hreqs, hexts, List.forall₂_map_right_iff, List.forall₂_same] at hexact
    exact (extentExact_iff (hcontig r hr)).mp (hexact r hr)
  · intro hall
    have hexact (r : TrimParams) (hr : r ∈ reqs) : ExtentExact fs r (extentOf fs r) :=
      (extentExact_iff (hcontig r hr)).mpr (hall _ (List.mem_map_of_mem hr))
    refine ⟨reqs, reqs.map (extentOf fs), htq, hunmaps, ?_, hblocks, fun x => ?_⟩
    · rw [List.forall₂_map_right_iff, List.forall₂_same]
      exact hexact
    · constructor
      · rintro ⟨e, he, hx⟩
        obtain ⟨r, hr, rfl⟩ := List.mem_map.mp he
        obtain ⟨blk, hblk, hbyte⟩ := (hexact r hr x).mp hx
        exact ⟨blk, hblocks.subset (List.mem_flatMap.mpr ⟨r, hr, hblk⟩), hbyte⟩
      · rintro ⟨blk, hblk, hbyte⟩
        obtain ⟨r, hr, hmem⟩ := List.mem_flatMap.mp (hblocks.symm.subset hblk)
        exact ⟨_, List.mem_map_of_mem hr, (hexact r hr x).mpr ⟨blk, hmem, hbyte⟩⟩

/-! ### Freeing with a key -/

theorem find_store {s : TrimState} {key : Nat} {t u : TrimParams} (hfind : s.find key = some t)
    (hkey : u.key = key) : (s.store u).find key = some u := by
  unfold TrimState.find at hfind ⊢
  unfold TrimState.store
  show (s.trimhash.map _).find? _ = some u
  generalize s.trimhash = l at hfind
  induction l with
  | nil => cases hfind
  | cons t₀ l ih =>
      by_cases heq : t₀.key = key
      · rw [List.map_cons, if_pos (heq.trans hkey.symm),
          List.find?_cons_of_pos (by simpa using hkey)]
      · have hne : t₀.key ≠ u.key := fun hno => heq (hno.trans hkey)
        rw [List.find?_cons_of_neg (by simpa using heq)] at hfind
        rw [List.map_cons, if_neg hne, List.find?_cons_of_neg (by simpa using heq)]
        exact ih hfind

theorem find_store_hash {s : TrimState} {key : Nat} {t u : TrimParams} (hkey : t.key = key)
    (hkey' : u.key = key) : ((s.hash t).store u).find key = some u := by
  refine find_store (t := t) ?_ hkey'
  exact List.find?_cons_of_pos (by simpa using hkey)

/-- What a list of frees has done: requests `reqs` have been sent, and `tp` is in
the hash. -/
structure TrimFreed (fs : Fs) (key : Nat) (s s' : TrimState) (reqs : List TrimParams) (tp : TrimParams) :
    Prop where
  find : s'.find key = some tp
  tq : s'.tq = s.tq ++ reqs
  unmaps : s'.unmaps = s.unmaps ++ reqs.map (extentOf fs)
  contig : ∀ r ∈ reqs ++ [tp], Contig fs r

section Keyed

variable {m : TrimMount} {inum key : Nat} {s : TrimState} {tp : TrimParams} {blk : TrimBlkreq}

/-- With a valid key, `ffs_blkfree` goes to the request of the key. -/
theorem ffsBlkfree_keyed (hm : CanDelete m) (hdev : m.devvp ≠ .vreg)
    (hvalid : FIRST_VALID_KEY ≤ key) (bno size : Nat) :
    ffsBlkfree m s bno size inum key = blkfreeKeyed m.fs s bno size inum key := by
  have hne : key ≠ NOTRIM_KEY := by
    unfold FIRST_VALID_KEY at hvalid
    unfold NOTRIM_KEY
    omega
  simp [ffsBlkfree, hm.snapblkfree, hm.candelete, hdev, hne, ne_singleton hvalid]

/-- One block joins the open request, or begins a new one. -/
theorem blkfreeKeyed_freed (inum : Nat) (hvalid : FIRST_VALID_KEY ≤ key) (hfind : s.find key = some tp)
    (hkey : tp.key = key) (h : Contig m.fs tp) (hblk : BlkOk m.fs blk) :
    ∃ s' reqs tp', blkfreeKeyed m.fs s blk.bno blk.size inum key = some s' ∧ tp'.key = key
      ∧ TrimFreed m.fs key s s' reqs tp'
      ∧ (blocksOf (reqs ++ [tp'])).Perm (tp.blklist ++ [blk])
      ∧ ∀ l, reqs.map TrimParams.bno ++ joinStarts m.fs tp'.bno (m.fs.numfrags tp'.size) l
          = joinStarts m.fs tp.bno (m.fs.numfrags tp.size) (blk :: l) := by
  have hgrow : m.fs.numfrags (tp.size + blk.size)
      = m.fs.numfrags tp.size + m.fs.numfrags blk.size := numfrags_add h.frags
  have hsize : tp.size ≠ 0 := Nat.pos_iff_ne_zero.mp h.pos
  simp only [blkfreeKeyed, trimLookup_old hvalid hfind, if_neg hsize]
  by_cases hfront : blk.bno + m.fs.numfrags blk.size = tp.bno
  · rw [if_pos hfront]
    have hjoin : Contig m.fs
        { tp with blklist := blk :: tp.blklist, bno := blk.bno, size := tp.size + blk.size } :=
      h.join hblk (fun _ => List.mem_cons) rfl (Or.inl ⟨hfront, rfl⟩)
    refine ⟨_, [], { tp with blklist := blk :: tp.blklist, bno := blk.bno, size := tp.size + blk.size },
      rfl, hkey, ⟨find_store hfind hkey, ?_, ?_, ?_⟩, ?_, fun l => ?_⟩
    · exact (List.append_nil _).symm
    · exact (List.append_nil _).symm
    · simpa using hjoin
    · simpa [blocksOf] using (List.perm_append_singleton blk tp.blklist).symm
    · simp [joinStarts, hfront, hgrow]
  rw [if_neg hfront]
  by_cases hback : blk.bno = tp.bno + m.fs.numfrags tp.size
  · rw [if_pos hback]
    have hjoin : Contig m.fs { tp with blklist := tp.blklist ++ [blk], size := tp.size + blk.size } :=
      h.join hblk (fun _ => by simp [or_comm]) rfl (Or.inr ⟨hback, rfl⟩)
    refine ⟨_, [], { tp with blklist := tp.blklist ++ [blk], size := tp.size + blk.size }, rfl, hkey,
      ⟨find_store hfind hkey, ?_, ?_, ?_⟩, ?_, fun l => ?_⟩
    · exact (List.append_nil _).symm
    · exact (List.append_nil _).symm
    · simpa using hjoin
    · simp [blocksOf]
    · rw [joinStarts, if_neg hfront, if_pos hback, hgrow]
      rfl
  rw [if_neg hback, trimLookup_replace hvalid hfind]
  refine ⟨_, [tp], ⟨[blk], inum, blk.bno, blk.size, key⟩, rfl, rfl, ⟨?_, rfl, rfl, ?_⟩, ?_, fun l => ?_⟩
  · exact find_store_hash rfl rfl
  · intro r hr
    rcases List.mem_append.mp hr with hr | hr
    · rw [List.mem_singleton.mp hr]
      exact h
    · rw [List.mem_singleton.mp hr]
      exact contig_single hblk inum key
  · simp [blocksOf]
  · rw [joinStarts, if_neg hfront, if_neg hback]
    rfl

/-- The blocks of a list, one after the other. -/
theorem freeAll_freed (inum : Nat) (hm : CanDelete m) (hdev : m.devvp ≠ .vreg) (hvalid : FIRST_VALID_KEY ≤ key)
    (hkey : tp.key = key) (hfind : s.find key = some tp) (h : Contig m.fs tp) (l : List TrimBlkreq)
    (hl : ∀ blk ∈ l, BlkOk m.fs blk) :
    ∃ s' reqs tp', freeAll m inum key l s = some s' ∧ TrimFreed m.fs key s s' reqs tp'
      ∧ (blocksOf (reqs ++ [tp'])).Perm (tp.blklist ++ l)
      ∧ (reqs ++ [tp']).map TrimParams.bno
          = joinStarts m.fs tp.bno (m.fs.numfrags tp.size) l := by
  induction l generalizing s tp with
  | nil =>
      refine ⟨s, [], tp, rfl, ⟨hfind, ?_, ?_, ?_⟩, ?_, rfl⟩
      · exact (List.append_nil _).symm
      · exact (List.append_nil _).symm
      · simpa using h
      · simp [blocksOf]
  | cons blk l ih =>
      obtain ⟨s₁, reqs₁, tp₁, hs₁, hkey₁, hfreed₁, hblocks₁, hstarts₁⟩ :=
        blkfreeKeyed_freed inum hvalid hfind hkey h (hl blk List.mem_cons_self)
      have hcontig₁ : Contig m.fs tp₁ := hfreed₁.contig tp₁ (by simp)
      obtain ⟨s₂, reqs₂, tp₂, hs₂, hfreed₂, hblocks₂, hstarts₂⟩ := ih hkey₁ hfreed₁.find hcontig₁
        fun blk' hblk' => hl blk' (List.mem_cons_of_mem _ hblk')
      refine ⟨s₂, reqs₁ ++ reqs₂, tp₂, ?_, ⟨hfreed₂.find, ?_, ?_, ?_⟩, ?_, ?_⟩
      · rw [freeAll, ffsBlkfree_keyed hm hdev hvalid, hs₁]
        exact hs₂
      · rw [hfreed₂.tq, hfreed₁.tq, List.append_assoc]
      · rw [hfreed₂.unmaps, hfreed₁.unmaps, List.map_append, List.append_assoc]
      · intro r hr
        rw [List.append_assoc] at hr
        rcases List.mem_append.mp hr with hr | hr
        · exact hfreed₁.contig r (List.mem_append_left _ hr)
        · exact hfreed₂.contig r hr
      · -- the blocks that were sent first, and what became of the open request
        have hsplit : blocksOf (reqs₁ ++ reqs₂ ++ [tp₂]) = blocksOf reqs₁ ++ blocksOf (reqs₂ ++ [tp₂]) := by
          simp [blocksOf]
        have hfirst : blocksOf (reqs₁ ++ [tp₁]) = blocksOf reqs₁ ++ tp₁.blklist := by simp [blocksOf]
        rw [hsplit]
        rw [hfirst] at hblocks₁
        refine (hblocks₂.append_left _).trans ?_
        rw [← List.append_assoc]
        refine (hblocks₁.append_right l).trans ?_
        rw [List.append_assoc]
        rfl
      · rw [List.append_assoc, List.map_append, hstarts₂, hstarts₁]

/-- The first block of a key. -/
theorem blkfreeKeyed_first (hvalid : FIRST_VALID_KEY ≤ key)
    (hfind : s.find key = some ⟨[], inum, 0, 0, key⟩) :
    blkfreeKeyed m.fs s blk.bno blk.size inum key
      = some (s.store ⟨[blk], inum, blk.bno, blk.size, key⟩) := by
  simp only [blkfreeKeyed, trimLookup_old hvalid hfind, if_true]

/-- Without a key, each block is a request of its own. -/
theorem freeAll_single (inum : Nat) (hm : CanDelete m) (hdev : m.devvp ≠ .vreg) (s : TrimState)
    (l : List TrimBlkreq) :
    ∃ s', freeAll m inum SINGLETON_KEY l s = some s'
      ∧ s'.tq = s.tq ++ l.map (fun blk => ⟨[blk], inum, blk.bno, blk.size, SINGLETON_KEY⟩)
      ∧ s'.unmaps = s.unmaps ++ (l.map fun blk =>
          (⟨[blk], inum, blk.bno, blk.size, SINGLETON_KEY⟩ : TrimParams)).map (extentOf m.fs) := by
  induction l generalizing s with
  | nil => exact ⟨s, rfl, (List.append_nil _).symm, (List.append_nil _).symm⟩
  | cons blk l ih =>
      have hfree : ffsBlkfree m s blk.bno blk.size inum SINGLETON_KEY
          = some (ffsBlkfreeSendtrim m.fs s ⟨[blk], inum, blk.bno, blk.size, SINGLETON_KEY⟩) := by
        have hne : SINGLETON_KEY ≠ NOTRIM_KEY := by decide
        simp [ffsBlkfree, hm.snapblkfree, hm.candelete, hdev, hne, trimLookup]
      obtain ⟨s', hs', htq, hunmaps⟩ :=
        ih (ffsBlkfreeSendtrim m.fs s ⟨[blk], inum, blk.bno, blk.size, SINGLETON_KEY⟩)
      refine ⟨s', ?_, ?_, ?_⟩
      · rw [freeAll, hfree]
        exact hs'
      · rw [htq]
        simp [ffsBlkfreeSendtrim]
      · rw [hunmaps]
        simp [ffsBlkfreeSendtrim, extentOf]

end Keyed

/-! ### A whole deletion -/

theorem oneKey_eq {m : TrimMount} {d₀ : Bool} {inum key : Nat} {s s₀ : TrimState}
    (h : ffsBlkreleaseStart m d₀ s inum = some (key, s₀)) (d₁ : Bool) (l : List TrimBlkreq) :
    oneKey m d₀ d₁ inum l s
      = (freeAll m inum key l s₀).bind fun s => ffsBlkreleaseFinish m d₁ s key := by
  rw [oneKey, h]
  rfl

section Deletion

variable {m : TrimMount} (hm : CanDelete m) (hdev : m.devvp ≠ .vreg)
include hm hdev

/-- `dotrimcons` is off at the start. -/
theorem oneKey_single (s : TrimState) (d₁ : Bool) (inum : Nat) (l : List TrimBlkreq)
    (hl : ∀ blk ∈ l, BlkOk m.fs blk) :
    ∃ s', oneKey m false d₁ inum l s = some s'
      ∧ (TrimExact m.fs s s' l ↔ ∀ blk ∈ l, OffsetOk m.fs blk.bno) := by
  obtain ⟨s', hs', htq, hunmaps⟩ := freeAll_single inum hm hdev s l
  have hfinish : ffsBlkreleaseFinish m d₁ s' SINGLETON_KEY = some s' := by
    unfold ffsBlkreleaseFinish
    rw [if_pos rfl, ite_self]
  have hstart : ffsBlkreleaseStart m false s inum = some (SINGLETON_KEY, s) := by
    simp [ffsBlkreleaseStart]
  refine ⟨s', ?_, ?_⟩
  · rw [oneKey_eq hstart, hs', Option.bind_some, hfinish]
  · rw [trimExact_iff_starts _ htq hunmaps]
    · simp
    · intro r hr
      obtain ⟨blk, hblk, rfl⟩ := List.mem_map.mp hr
      exact contig_single (hl blk hblk) inum SINGLETON_KEY
    · rw [blocksOf, List.flatMap_map]
      simp

/-- `dotrimcons` is on at the start. -/
theorem oneKey_keyed {s : TrimState}
    (hnew : s.find (nextKey FIRST_VALID_KEY s.masterkey).1 = none) (d₁ : Bool) (inum : Nat)
    (l : List TrimBlkreq) (hl : ∀ blk ∈ l, BlkOk m.fs blk) :
    ∃ s', oneKey m true d₁ inum l s = some s'
      ∧ (TrimExact m.fs s s' l
        ↔ l = [] ∨ (d₁ = true ∧ ∀ bno ∈ runStarts m.fs l, OffsetOk m.fs bno)) := by
  have hvalid := nextKey_valid s.masterkey
  have hstart : ∃ key s₀, FIRST_VALID_KEY ≤ key
      ∧ ffsBlkreleaseStart m true s inum = some (key, s₀) ∧ s₀.find key = some ⟨[], inum, 0, 0, key⟩
      ∧ s₀.tq = s.tq ∧ s₀.unmaps = s.unmaps := by
    unfold ffsBlkreleaseStart
    rw [hm.candelete, if_neg (by decide)]
    generalize nextKey FIRST_VALID_KEY s.masterkey = p at hnew hvalid
    obtain ⟨key, masterkey⟩ := p
    refine ⟨key, TrimState.hash { s with masterkey := masterkey } ⟨[], inum, 0, 0, key⟩, hvalid, ?_,
      ?_, rfl, rfl⟩
    · simp only [trimLookup]
      rw [if_pos ⟨hvalid, hnew⟩]
    · exact List.find?_cons_of_pos (by simp)
  obtain ⟨key, s₀, hvalid, hstart, hfind, htq₀, hunmaps₀⟩ := hstart
  rw [oneKey_eq hstart]
  cases l with
  | nil =>
      have hnone {s' : TrimState} (htq : s'.tq = s.tq) (hunmaps : s'.unmaps = s.unmaps) :
          TrimExact m.fs s s' [] ↔ ([] : List TrimBlkreq) = [] ∨ (d₁ = true
            ∧ ∀ bno ∈ runStarts m.fs [], OffsetOk m.fs bno) := by
        rw [trimExact_iff_starts [] (by simpa using htq) (by simpa using hunmaps)
          (by simp) (by simp [blocksOf])]
        simp
      cases d₁ with
      | false =>
          refine ⟨s₀, ?_, hnone htq₀ hunmaps₀⟩
          simp [freeAll, ffsBlkreleaseFinish]
      | true =>
          refine ⟨s₀.unhash key, ?_, hnone htq₀ hunmaps₀⟩
          simp [freeAll, ffsBlkreleaseFinish, hm.candelete, ne_singleton hvalid,
            trimLookup_done hvalid hfind]
  | cons blk l =>
      have hblk := hl blk List.mem_cons_self
      obtain ⟨s₁, reqs, tp, hs₁, hfreed, hblocks, hstarts⟩ := freeAll_freed inum hm hdev
        hvalid rfl (find_store (u := ⟨[blk], inum, blk.bno, blk.size, key⟩) hfind rfl)
        (contig_single hblk inum key) l fun blk' hblk' => hl blk' (List.mem_cons_of_mem _ hblk')
      have hall : freeAll m inum key (blk :: l) s₀ = some s₁ := by
        rw [freeAll, ffsBlkfree_keyed hm hdev hvalid, blkfreeKeyed_first hvalid hfind]
        exact hs₁
      have htq : s₁.tq = s.tq ++ reqs := by
        rw [hfreed.tq, ← htq₀]
        rfl
      have hunmaps : s₁.unmaps = s.unmaps ++ reqs.map (extentOf m.fs) := by
        rw [hfreed.unmaps, ← hunmaps₀]
        rfl
      have hcontig : Contig m.fs tp := hfreed.contig tp (by simp)
      rw [hall, Option.bind_some]
      cases d₁ with
      | false =>
          -- the last request is never sent
          refine ⟨s₁, by simp [ffsBlkreleaseFinish], iff_of_false ?_ (by simp)⟩
          rintro ⟨reqs', exts, htq', -, -, hperm, -⟩
          have hreqs : reqs' = reqs := List.append_cancel_left (htq'.symm.trans htq)
          have hsplit : blocksOf (reqs ++ [tp]) = blocksOf reqs ++ tp.blklist := by simp [blocksOf]
          have hlen := hblocks.length_eq
          have hlen' := hperm.length_eq
          rw [hsplit] at hlen
          rw [hreqs] at hlen'
          have hnil : tp.blklist = [] := by
            apply List.eq_nil_of_length_eq_zero
            simp at hlen hlen'
            omega
          have hpos := hcontig.pos
          obtain ⟨blk', hblk', -⟩ := (hcontig.bytes (tp.bno * m.fs.fsize)).mpr ⟨le_refl _, by omega⟩
          rw [hnil] at hblk'
          cases hblk'
      | true =>
          have hsize : tp.size ≠ 0 := Nat.pos_iff_ne_zero.mp hcontig.pos
          refine ⟨ffsBlkfreeSendtrim m.fs (s₁.unhash key) tp, ?_, ?_⟩
          · simp [ffsBlkreleaseFinish, hm.candelete, ne_singleton hvalid,
              trimLookup_done hvalid hfreed.find, hsize]
          · have hperm : (blocksOf (reqs ++ [tp])).Perm (blk :: l) := hblocks
            rw [trimExact_iff_starts (reqs ++ [tp]) ?_ ?_ hfreed.contig hperm, hstarts]
            · simp [runStarts]
            · rw [← List.append_assoc, ← htq]
              rfl
            · rw [List.map_append, ← List.append_assoc, ← hunmaps]
              rfl

/-- The blocks of one deletion, in any order, from any state: what TRIM discards is
what was freed exactly when `TrimClear` holds. -/
theorem trimExact_iff {s : TrimState}
    (hnew : s.find (nextKey FIRST_VALID_KEY s.masterkey).1 = none) (d₀ d₁ : Bool) (inum : Nat)
    (l : List TrimBlkreq) (hl : ∀ blk ∈ l, BlkOk m.fs blk) :
    ∃ s', oneKey m d₀ d₁ inum l s = some s'
      ∧ (TrimExact m.fs s s' l ↔ TrimClear m.fs d₀ d₁ l) := by
  cases d₀ with
  | false => exact oneKey_single hm hdev s d₁ inum l hl
  | true => exact oneKey_keyed hm hdev hnew d₁ inum l hl

end Deletion

/-- Without a key of their own, blocks 2 and 6 of the small file system are two requests. The
first starts at device block 32 and not at byte 16384. -/
theorem trimExact_iff_two :
    ∃ s', oneKey trimMount false true 7 [⟨2, 16384⟩, ⟨6, 16384⟩] trimState = some s'
      ∧ ¬ TrimExact tinyFs trimState s' [⟨2, 16384⟩, ⟨6, 16384⟩] := by
  obtain ⟨s', hcall, hiff⟩ := trimExact_iff (s := trimState) canDelete_trimMount (by decide) rfl false true 7
    [⟨2, 16384⟩, ⟨6, 16384⟩] fun blk hblk => by
      have hcases : blk = ⟨2, 16384⟩ ∨ blk = ⟨6, 16384⟩ := by simpa using hblk
      rcases hcases with rfl | rfl
      · exact ⟨by decide, by decide, by decide⟩
      · exact ⟨by decide, by decide, by decide⟩
  refine ⟨s', hcall, fun hexact => ?_⟩
  have hoffset : OffsetOk tinyFs 2 := hiff.mp hexact ⟨2, 16384⟩ (by decide)
  rcases hoffset with hzero | ⟨hunits, -⟩
  · cases hzero
  · exact absurd hunits (by decide)

/-- The disk is told to discard bytes 32 to 32799, which nobody has freed. -/
theorem not_trimExact :
    ∃ s', oneKey trimMount true true 7 [⟨2, 16384⟩, ⟨4, 16384⟩] trimState = some s'
      ∧ s'.unmaps = [⟨32, 32768⟩] ∧ ¬ TrimExact tinyFs trimState s' [⟨2, 16384⟩, ⟨4, 16384⟩] := by
  refine ⟨_, rfl, by decide +kernel, ?_⟩
  rintro ⟨reqs, exts, -, hunmaps, -, -, hcover⟩
  have hexts : exts = [⟨32, 32768⟩] :=
    (List.nil_append exts).symm.trans (hunmaps.symm.trans (by decide +kernel))
  rw [hexts] at hcover
  -- byte 32 belongs to fragment 0
  obtain ⟨blk, hblk, hbyte, -⟩ := (hcover 32).mp ⟨_, List.mem_cons_self, by decide, by decide⟩
  have hcases : blk = ⟨2, 16384⟩ ∨ blk = ⟨4, 16384⟩ := by simpa using hblk
  have hfsize : tinyFs.fsize = 8192 := rfl
  rw [hfsize] at hbyte
  rcases hcases with rfl | rfl <;> simp at hbyte

end UfsX.Proofs
