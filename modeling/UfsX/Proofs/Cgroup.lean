import UfsX.Lib.Crc
import UfsX.Ffs.Cgroup

/-!
# `UfsX.Proofs.Cgroup`: check-hashes of cylinder groups

Nothing recomputes `cg_ckhash` on the way to the disk: `ffs_bufwrite` is not called by
`bwrite`, and `ffs_geom_strategy` is a comment. So an image verifies exactly when the
operation has left the CRC of the group as it was (`KeepsHash`). On the way in, the hash
is compared only under `BC_CKHASH`, which nothing sets, and a block without a
`struct bufpriv` crashes.

`cylgrp_verifiable_iff` is about whole runs, and about single reads against `cgget`.
-/

set_option autoImplicit false

namespace UfsX.Proofs

open UfsX.Lib UfsX.Ffs

/-! ### The hash -/

theorem crcTable_lt {i : Nat} (h : i < 256) : crcTable i < 2 ^ 32 := by
  have hshift : ∀ {c : Nat}, c < 2 ^ 32 → Crc.shift 0x82F63B78 c < 2 ^ 32 := Crc.shift_lt (by decide)
  exact hshift (hshift (hshift (hshift (hshift (hshift (hshift (hshift (Nat.lt_trans h (by decide)))))))))

theorem calculateCrc32c_lt (bytes : List UInt8) : ∀ {crc : Nat}, crc < 2 ^ 32 → calculateCrc32c crc bytes < 2 ^ 32 := by
  unfold calculateCrc32c
  induction bytes with
  | nil => exact fun h => h
  | cons b bytes ih =>
      intro crc h
      rw [List.foldl_cons]
      refine ih (Nat.xor_lt_two_pow (crcTable_lt (Nat.mod_lt _ (by decide))) ?_)
      exact Nat.lt_of_le_of_lt (Nat.shiftRight_le ..) h

/-- The polynomial, `0x1EDC6F41`, lowest bit first. -/
def poly : Nat := 0x82F63B78

theorem crcTable_eq (i : Nat) : crcTable i = Crc.shifts poly 8 i := by
  have hshift : (fun c : Nat => if c % 2 = 1 then (c >>> 1) ^^^ 0x82F63B78 else c >>> 1) = Crc.shift poly := rfl
  exact congrArg (fun shift : Nat → Nat => shift (shift (shift (shift (shift (shift (shift (shift i)))))))) hshift

theorem crcStep_eq (c : Nat) {b : Nat} (hb : b < 256) :
    crcTable ((c ^^^ b) % 256) ^^^ (c >>> 8) = Crc.shifts poly 8 (c ^^^ b) := by
  have hhigh : (c ^^^ b) >>> 8 = c >>> 8 := by
    rw [Nat.shiftRight_xor_distrib, Nat.shiftRight_eq_div_pow b, Nat.div_eq_of_lt hb, Nat.xor_zero]
  rw [Crc.shifts_split poly 8 (c ^^^ b), hhigh, crcTable_eq]
  rfl

/-- A step of the CRC can be undone. -/
theorem xor_of_step {crc crc' : Nat} {b b' : UInt8} (h : crc < 2 ^ 32) (h' : crc' < 2 ^ 32)
    (heq : calculateCrc32c crc [b] = calculateCrc32c crc' [b']) : crc ^^^ b.toNat = crc' ^^^ b'.toNat := by
  have hstep : ∀ (c : Nat) (b : UInt8), calculateCrc32c c [b] = Crc.shifts poly 8 (c ^^^ b.toNat) :=
    fun c b => crcStep_eq c b.toNat_lt
  have hlt : ∀ {c : Nat} (b : UInt8), c < 2 ^ 32 → c ^^^ b.toNat < 2 ^ 32 :=
    fun b hc => Nat.xor_lt_two_pow hc (b.toNat_lt.trans (by decide))
  rw [hstep, hstep] at heq
  exact Crc.shifts_inj (by decide) (by decide) 8 (hlt b h) (hlt b' h') heq

/-- The hash depends on the bytes that are stored. -/
theorem readBytes_congr {m m' : Mem} {n : Nat} (h : ∀ k, k < n → m k = m' k) : m.readBytes 0 n = m'.readBytes 0 n := by
  refine List.map_congr_left fun k hk => ?_
  rw [Nat.zero_add]
  exact h k (List.mem_range.mp hk)

theorem write32_congr {m m' : Mem} {n : Nat} (o v : Nat) (h : ∀ k, k < n → m k = m' k) :
    ∀ k, k < n → m.write32 o v k = m'.write32 o v k := by
  intro k hk
  unfold Mem.write32
  rw [h k hk]

/-! ### Groups and their images -/

/-- The stored check-hash matches the bytes. -/
def CgVerifies (fs : CgFs) (cg : Mem) : Prop := cg.read32 cgCkhashOff = cgHash fs cg

/-- Every image that was handed to the buffer layer is accepted by `cgget`. -/
def WrittenOk (fs : CgFs) (s : CgState) : Prop := ∀ p ∈ s.written, cgget fs p.1 p.2 = true

/-- Every operation that is carried out leaves the CRC of its group as it was. -/
def KeepsHash (fs : CgFs) (s : CgState) : List CgOp → Prop
  | [] => True
  | op :: ops =>
      (∀ cgx u bp, op = .modify cgx u → ffsGetcg fs cgx (s.bufs cgx) = .ok bp →
        cgHash fs (u.apply bp.data) = cgHash fs bp.data)
      ∧ ∀ s', op.exec fs s = some s' → KeepsHash fs s' ops

/-- When `ffs_getcg` agrees with `cgget` about a block with the right magic and number.
With a `struct bufpriv`, the hash has to match or to be looked at; without one, it must
not match. -/
def ReadsAgree (fs : CgFs) (cgx : Nat) (bp : CgBuf) : Prop :=
  CgNumbered cgx bp.data →
    match bp.priv with
    | some bpriv => bpriv.bcCkhash = true ∨ CgVerifies fs bp.data
    | none => ¬ CgVerifies fs bp.data

variable {fs : CgFs}

theorem cgget_iff (hck : fs.ckCylgrp = true) (cgx : Nat) (cg : Mem) :
    cgget fs cgx cg = true ↔ CgVerifies fs cg ∧ CgNumbered cgx cg := by
  simp [cgget, hck, CgVerifies]

/-- What `ffs_getcg` gives is the block it was given, and it has the right number. -/
theorem ffsGetcg_ok {cgx : Nat} {bp bp' : CgBuf} (h : ffsGetcg fs cgx bp = .ok bp') :
    bp'.data = bp.data ∧ CgNumbered cgx bp.data := by
  unfold ffsGetcg at h
  split at h
  · cases h
  · simp only at h
    split at h
    · cases h
    split at h
    · cases h
    · next hnum =>
        cases h
        exact ⟨rfl, not_not.mp hnum⟩

theorem readsAgree_iff (hck : fs.ckCylgrp = true) (cgx : Nat) (bp : CgBuf) :
    ((∃ bp', ffsGetcg fs cgx bp = .ok bp') ↔ cgget fs cgx bp.data = true) ↔ ReadsAgree fs cgx bp := by
  obtain ⟨data, priv⟩ := bp
  rw [cgget_iff hck]
  unfold ReadsAgree
  by_cases hnum : CgNumbered cgx data
  · cases priv with
    | none => simp [ffsGetcg, hnum]
    | some bpriv =>
        by_cases hv : CgVerifies fs data
        · have hsame : data.read32 cgCkhashOff = cgHash fs data := hv
          simp [ffsGetcg, hnum, hv, hsame]
        · have hdiff : ¬ data.read32 cgCkhashOff = cgHash fs data := hv
          cases hb : bpriv.bcCkhash <;> simp [ffsGetcg, hnum, hv, hck, hdiff, hb]
  · -- both refuse it
    refine iff_of_true (iff_of_false ?_ fun h => hnum h.2) fun h => absurd h hnum
    rintro ⟨bp', hok⟩
    exact hnum (ffsGetcg_ok hok).2

/-- One operation writes nothing and leaves all bytes alone, or it writes the image of one
group. -/
theorem exec_cases {s s' : CgState} {op : CgOp} (hexec : op.exec fs s = some s') :
    (s'.written = s.written ∧ (∀ cgx, (s'.bufs cgx).data = (s.bufs cgx).data)
      ∧ ∀ cgx u bp, op = .modify cgx u → ffsGetcg fs cgx (s.bufs cgx) ≠ .ok bp)
    ∨ ∃ cgx u bp, op = .modify cgx u ∧ ffsGetcg fs cgx (s.bufs cgx) = .ok bp
      ∧ s'.written = (cgx, u.apply bp.data) :: s.written
      ∧ ∀ c, (s'.bufs c).data = if c = cgx then u.apply bp.data else (s.bufs c).data := by
  have hpriv : ∀ cgx (priv : Option Bufpriv) c,
      (Function.update s.bufs cgx { s.bufs cgx with priv := priv } c).data = (s.bufs c).data := by
    intro cgx priv c
    by_cases hc : c = cgx
    · rw [hc, Function.update_self]
    · rw [Function.update_of_ne hc]
  cases op with
  | reload cgx priv =>
      obtain rfl := Option.some.inj hexec
      exact Or.inl ⟨rfl, hpriv cgx priv, nofun⟩
  | modify cgx u =>
      simp only [CgOp.exec] at hexec
      split at hexec
      · cases hexec
      · next heio =>
          obtain rfl := Option.some.inj hexec
          refine Or.inl ⟨rfl, hpriv cgx none, ?_⟩
          intro cgx' u' bp hop hok
          cases hop
          rw [heio] at hok
          cases hok
      · next bp hok =>
          obtain rfl := Option.some.inj hexec
          refine Or.inr ⟨cgx, u, bp, rfl, hok, rfl, fun c => ?_⟩
          by_cases hc : c = cgx
          · simp [hc]
          · simp [hc]

/-- An image stays in the list. -/
theorem mem_written_run {s : CgState} {p : Nat × Mem} (ops : List CgOp) (h : p ∈ s.written) :
    p ∈ (CgOp.run fs s ops).written := by
  induction ops generalizing s with
  | nil => exact h
  | cons op ops ih =>
      unfold CgOp.run
      split
      · exact h
      · next s' hexec =>
          refine ih ?_
          rcases exec_cases hexec with ⟨hwritten, -⟩ | ⟨_, _, _, -, -, hwritten, -⟩
          · rw [hwritten]
            exact h
          · rw [hwritten]
            exact List.mem_cons_of_mem _ h

/-- The hash field stays, so a group that verified verifies afterwards exactly when its
CRC is the same. -/
theorem verifies_apply_iff {cg : Mem} (hv : CgVerifies fs cg) (u : Update) :
    CgVerifies fs (u.apply cg) ↔ cgHash fs (u.apply cg) = cgHash fs cg := by
  unfold CgVerifies at hv ⊢
  rw [(u.keeps cg).2.2, hv]
  exact eq_comm

theorem numbered_apply {cgx : Nat} {cg : Mem} (h : CgNumbered cgx cg) (u : Update) :
    CgNumbered cgx (u.apply cg) := by
  obtain ⟨hmagic, hcgx, -⟩ := u.keeps cg
  exact ⟨hmagic.trans h.1, hcgx.trans h.2⟩

theorem writtenOk_run_iff (hck : fs.ckCylgrp = true) (ops : List CgOp) {s : CgState}
    (hv : ∀ cgx, CgVerifies fs (s.bufs cgx).data) (hw : WrittenOk fs s) :
    WrittenOk fs (CgOp.run fs s ops) ↔ KeepsHash fs s ops := by
  induction ops generalizing s with
  | nil => exact iff_of_true hw trivial
  | cons op ops ih =>
      unfold CgOp.run KeepsHash
      cases hexec : op.exec fs s with
      | none =>
          -- a crash: nothing was carried out
          refine iff_of_true hw ⟨?_, nofun⟩
          rintro cgx u bp rfl hok
          simp [CgOp.exec, hok] at hexec
      | some s' =>
          simp only [Option.some.injEq, forall_eq']
          rcases exec_cases hexec with ⟨hwritten, hdata, hno⟩ | ⟨cgx, u, bp, rfl, hok, hwritten, hdata⟩
          · -- nothing is written, and the bytes are the same
            have hv' : ∀ c, CgVerifies fs (s'.bufs c).data := fun c => hdata c ▸ hv c
            have hw' : WrittenOk fs s' := fun p hp => hw p (hwritten ▸ hp)
            rw [ih hv' hw']
            exact (and_iff_right fun cgx u bp hop hok => absurd hok (hno cgx u bp hop)).symm
          · obtain ⟨hsame, hnum⟩ := ffsGetcg_ok hok
            have hold : CgVerifies fs bp.data := hsame ▸ hv cgx
            have hall : (∀ cgx' u' bp', CgOp.modify cgx u = .modify cgx' u' →
                ffsGetcg fs cgx' (s.bufs cgx') = .ok bp' →
                cgHash fs (u'.apply bp'.data) = cgHash fs bp'.data)
                ↔ cgHash fs (u.apply bp.data) = cgHash fs bp.data := by
              constructor
              · intro h
                exact h cgx u bp rfl hok
              · rintro h cgx' u' bp' hop hok'
                cases hop
                rw [hok] at hok'
                cases hok'
                exact h
            rw [hall, ← verifies_apply_iff hold]
            by_cases hnew : CgVerifies fs (u.apply bp.data)
            · have hv' : ∀ c, CgVerifies fs (s'.bufs c).data := by
                intro c
                rw [hdata c]
                split
                · exact hnew
                · exact hv c
              have hw' : WrittenOk fs s' := by
                intro p hp
                rw [hwritten] at hp
                rcases List.mem_cons.mp hp with rfl | hp
                · exact (cgget_iff hck _ _).mpr ⟨hnew, numbered_apply (hsame ▸ hnum) u⟩
                · exact hw p hp
              rw [ih hv' hw']
              exact (and_iff_right hnew).symm
            · -- the image that was written does not verify
              refine iff_of_false (fun hno => hnew ?_) fun h => hnew h.1
              have hmem : (cgx, u.apply bp.data) ∈ (CgOp.run fs s' ops).written :=
                mem_written_run ops (by rw [hwritten]; exact List.mem_cons_self)
              exact ((cgget_iff hck _ _).mp (hno _ hmem)).1

/-- On a file system with check-hashes, from groups that verify: the images that a run
hands to the buffer layer are accepted by `cgget` exactly when every operation leaves the
CRC of its group as it was. And `ffs_getcg` returns a block exactly when `cgget` accepts
it, if and only if `ReadsAgree`. -/
theorem cylgrp_verifiable_iff (fs : CgFs) (hck : fs.ckCylgrp = true) (s : CgState)
    (hnew : s.written = []) (hv : ∀ cgx, CgVerifies fs (s.bufs cgx).data) (ops : List CgOp) :
    (WrittenOk fs (CgOp.run fs s ops) ↔ KeepsHash fs s ops)
      ∧ ∀ cgx bp, ((∃ bp', ffsGetcg fs cgx bp = .ok bp') ↔ cgget fs cgx bp.data = true)
        ↔ ReadsAgree fs cgx bp := by
  refine ⟨writtenOk_run_iff hck ops hv ?_, readsAgree_iff hck⟩
  intro p hp
  rw [hnew] at hp
  cases hp

/-- A group of eight inodes, all free, without its check-hash. -/
def blankCg : Mem :=
  ((Mem.write32 (fun _ => 0) cgMagicOff CG_MAGIC).write32 cgIusedoffOff 168).write32 cgNifreeOff 8

def smallFs : CgFs := ⟨169, true⟩

/-- The same, with its check-hash. -/
def smallCg : Mem := blankCg.write32 cgCkhashOff (cgHash smallFs blankCg)

/-- The blocks of the small file system, with the private data given. -/
def smallState (priv : Option Bufpriv) : CgState := ⟨fun _ => ⟨smallCg, priv⟩, []⟩

theorem smallCg_verifies : CgVerifies smallFs smallCg := by
  unfold CgVerifies smallCg cgHash
  rw [Mem.read32_write32 (calculateCrc32c_lt _ (by decide)), Mem.write32_write32]

theorem numbered_smallCg : CgNumbered 0 smallCg := by
  unfold CgNumbered
  decide

theorem ffsGetcg_small {cg : Mem} (h : CgNumbered 0 cg) :
    ffsGetcg smallFs 0 ⟨cg, some ⟨0, false⟩⟩ = .ok ⟨cg, some ⟨cgHash smallFs cg, false⟩⟩ := by
  simp [ffsGetcg, h]

/-- A byte behind `fs_cgsize` is changed. -/
def behind : Update where
  apply cg x := if x = 200 then 1 else cg x
  keeps _ := ⟨rfl, rfl, rfl⟩

/-- The hypotheses are met by the small file system, where a group is written with its hash
still right and read in again. -/
theorem cylgrp_verifiable_small :
    ∃ ops s, CgOp.run smallFs (smallState (some ⟨0, false⟩)) ops = s ∧ s.written ≠ [] ∧ WrittenOk smallFs s := by
  refine ⟨[.modify 0 behind, .reload 0 (some ⟨0, false⟩)], _, rfl, ?_, ?_⟩
  · simp [CgOp.run, CgOp.exec, smallState, ffsGetcg_small numbered_smallCg]
  refine (cylgrp_verifiable_iff smallFs rfl (smallState (some ⟨0, false⟩)) rfl (fun _ => smallCg_verifies)
    [.modify 0 behind, .reload 0 (some ⟨0, false⟩)]).1.mpr ⟨?_, fun _ _ => ⟨nofun, fun _ _ => trivial⟩⟩
  intro cgx u bp hop hget
  obtain ⟨rfl, rfl⟩ := CgOp.modify.inj hop
  cases (ffsGetcg_small numbered_smallCg).symm.trans hget
  have hsame : ∀ k, k < smallFs.fsCgsize → behind.apply smallCg k = smallCg k :=
    fun k hk => if_neg (Nat.ne_of_lt (Nat.lt_trans hk (by decide)))
  show cgHash smallFs (behind.apply smallCg) = cgHash smallFs smallCg
  unfold cgHash
  rw [readBytes_congr (write32_congr cgCkhashOff 0 hsame)]

/-- An inode is allocated in a group that verifies: the image that is written is not
accepted by `cgget`, and `ffs_getcg` returns the group all the same. And a block without
private data crashes although `cgget` accepts it. -/
theorem cylgrp_stale :
    ¬ WrittenOk smallFs (CgOp.run smallFs (smallState (some ⟨0, false⟩)) [.modify 0 (nodealloc 0)])
      ∧ (∃ bp, ffsGetcg smallFs 0 ⟨nodeallocStores 0 smallCg, some ⟨0, false⟩⟩ = .ok bp)
      ∧ cgget smallFs 0 (nodeallocStores 0 smallCg) = false
      ∧ ffsGetcg smallFs 0 ⟨smallCg, none⟩ = .crash ∧ cgget smallFs 0 smallCg = true := by
  have hstale : cgget smallFs 0 (nodeallocStores 0 smallCg) = false := by decide +kernel
  have hok : cgget smallFs 0 smallCg = true := (cgget_iff rfl 0 smallCg).mpr ⟨smallCg_verifies, numbered_smallCg⟩
  refine ⟨fun h => ?_, ⟨_, ffsGetcg_small (numbered_apply numbered_smallCg (nodealloc 0))⟩, hstale, rfl, hok⟩
  have hmem := h (0, nodeallocStores 0 smallCg) (by
    simp [CgOp.run, CgOp.exec, smallState, ffsGetcg_small numbered_smallCg, nodealloc])
  rw [hstale] at hmem
  cases hmem

end UfsX.Proofs
