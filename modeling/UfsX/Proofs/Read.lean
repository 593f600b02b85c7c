import UfsX.Ffs.Read
import UfsX.Proofs.Bmap
import UfsX.Proofs.Consistent

/-!
# `UfsX.Proofs.Read`: what a read of a directory delivers

Each round of the loop of `ffs_read` delivers the rest of a block or what is left of the
request. `readLoop_spec` puts the rounds together: the bytes are those that `bread` gives for
the number of the block as an `int`, and for a hole those of the array of `ffs_read_hole`.
`reads_right_iff` compares them with the bytes of the file.
-/

set_option autoImplicit false

namespace UfsX.Proofs.Read

open UfsX.Lib UfsX.Ufs UfsX.Ffs UfsX.Ffs.Read
open UfsX.Proofs (bsize_pos le_lastblock)

/-! ### What is asked for -/

/-- `bread` gives all bytes of a block, or reports a hole. -/
def NoIoError (f : File) : Prop := ∀ n : Int, (∃ data, f.bread n = .buffer 0 data) ∨ f.bread n = .hole

/-- The byte of the file at an offset, 0 in a hole. -/
def byte (f : File) (x : Nat) : UInt8 :=
  match f.bread (x / f.fs.bsize : Nat) with
  | .buffer _ data => data (x % f.fs.bsize)
  | _ => 0

/-- The bytes that a request for `len` bytes from `o` on should get. -/
def count (f : File) (o len : Nat) : Nat := min len (f.ip.size - o)

/-- The request with nothing done. -/
def fresh (o len : Nat) : Uio := ⟨o, len, [], .empty⟩

/-- With enough rounds the read returns 0 with the bytes of the file, and every buffer has been
released once. -/
def Delivers (f : File) (stack : Nat → Nat → UInt8) (o len : Nat) : Prop :=
  ∃ rounds, ∀ fuel, rounds ≤ fuel → ∃ uio, ffsRead f stack fuel (fresh o len) = some (.ret 0 uio) ∧
    uio.out = (List.range (count f o len)).map (fun i => byte f (o + i)) ∧
    uio.offset = o + count f o len ∧ uio.resid = len - count f o len ∧ ∀ bp, uio.bufs.Settled bp

/-- Whatever is on the stack, the read delivers the bytes of the file. -/
def ReadsRight (f : File) (o len : Nat) : Prop := ∀ stack, Delivers f stack o len

/-- Where the transfer of the block of `x` starts in a request from `o` on. -/
def transferStart (f : File) (o x : Nat) : Nat := max o (x / f.fs.bsize * f.fs.bsize)

/-- The byte at `x` gets through: the number of its block, as an `int`, leads to the same
byte, and in a hole it is among the first eight of the transfer. -/
def GetsThrough (f : File) (o x : Nat) : Prop :=
  match f.bread (toI32 (x / f.fs.bsize : Nat)) with
  | .buffer _ data => data (x % f.fs.bsize) = byte f x
  | _ => x - transferStart f o x < 8 ∧ byte f x = 0

/-- The offset is not beyond the largest file, and every byte gets through. -/
def Readable (f : File) (o len : Nat) : Prop :=
  (0 < len → o < f.ip.size → o < f.maxfilesize) ∧ ∀ x, o ≤ x → x < o + count f o len → GetsThrough f o x

/-! ### One round -/

/-- What the code delivers for the byte at `x`. -/
def delivered (f : File) (stack : Nat → Nat → UInt8) (o x : Nat) : UInt8 :=
  match f.bread (toI32 (x / f.fs.bsize : Nat)) with
  | .buffer _ data => data (x % f.fs.bsize)
  | _ => zeroArray (stack (transferStart f o x)) (x - transferStart f o x)

section Round

variable {f : File} {stack : Nat → Nat → UInt8} {o len : Nat} {uio : Uio}

theorem div_mod_add {b x i : Nat} (hb : 0 < b) (h : x % b + i < b) : (x + i) / b = x / b ∧ (x + i) % b = x % b + i := by
  have hx : x + i = b * (x / b) + (x % b + i) := by
    rw [← Nat.add_assoc, Nat.div_add_mod]
  rw [hx, Nat.mul_add_div hb, Nat.div_eq_of_lt h, Nat.mul_add_mod, Nat.mod_eq_of_lt h, Nat.add_zero]
  exact ⟨rfl, rfl⟩

/-- A round starts where the request does, or with a block. -/
def AtStart (f : File) (o cur : Nat) : Prop := o ≤ cur ∧ (cur = o ∨ cur % f.fs.bsize = 0)

/-- The bytes of one round belong to one transfer. -/
theorem transferStart_eq {cur i : Nat} (h : AtStart f o cur) (hi : cur % f.fs.bsize + i < f.fs.bsize) :
    transferStart f o (cur + i) = cur := by
  have hdiv := (div_mod_add (bsize_pos f.fs) hi).1
  have hmod := Nat.div_add_mod cur f.fs.bsize
  unfold transferStart
  rw [hdiv, Nat.mul_comm]
  rcases h.2 with heq | hzero
  · omega
  · have := h.1
    omega

theorem delivered_buffer {cur i resid : Nat} {data : Nat → UInt8} (hi : cur % f.fs.bsize + i < f.fs.bsize)
    (hbread : f.bread (toI32 (cur / f.fs.bsize : Nat)) = .buffer resid data) :
    delivered f stack o (cur + i) = data (cur % f.fs.bsize + i) := by
  obtain ⟨hdiv, hmod⟩ := div_mod_add (bsize_pos f.fs) hi
  unfold delivered
  rw [hdiv, hbread, hmod]

theorem delivered_hole {cur i : Nat} (h : AtStart f o cur) (hi : cur % f.fs.bsize + i < f.fs.bsize)
    (hbread : f.bread (toI32 (cur / f.fs.bsize : Nat)) = .hole) :
    delivered f stack o (cur + i) = zeroArray (stack cur) i := by
  have hdiv := (div_mod_add (bsize_pos f.fs) hi).1
  unfold delivered
  rw [hdiv, hbread, transferStart_eq h hi, Nat.add_sub_cancel_left]

/-- A transfer that fits is made in one round. -/
theorem readHole_eq (zero : Nat → UInt8) {fuel n : Nat} (hfuel : 0 < fuel) (hn : n ≤ uio.resid) :
    ∃ uio', readHole zero fuel n uio = some uio' ∧ uio'.out = uio.out ++ (List.range n).map zero ∧
      uio'.offset = uio.offset + n ∧ uio'.resid = uio.resid - n ∧ uio'.bufs = uio.bufs := by
  obtain ⟨fuel, rfl⟩ : ∃ k, fuel = k + 1 := ⟨fuel - 1, by omega⟩
  have hdone : ∀ u : Uio, readHole zero fuel 0 u = some u := by
    intro u
    cases fuel with
    | zero => rfl
    | succ fuel => rfl
  by_cases hpos : 0 < n
  · refine ⟨uiomove zero n uio, ?_, ?_, ?_, ?_, rfl⟩
    · show (if 0 < n then readHole zero fuel (n - min n uio.resid) (uiomove zero n uio) else some uio) = _
      rw [if_pos hpos, Nat.min_eq_left hn, Nat.sub_self, hdone]
    · show uio.out ++ (List.range (min n uio.resid)).map zero = _
      rw [Nat.min_eq_left hn]
    · show uio.offset + min n uio.resid = _
      rw [Nat.min_eq_left hn]
    · show uio.resid - min n uio.resid = _
      rw [Nat.min_eq_left hn]
  · obtain rfl : n = 0 := by omega
    exact ⟨uio, rfl, (List.append_nil _).symm, rfl, rfl, rfl⟩

/-- The last block of the file is long enough for what is read of it. -/
theorem xfersize_le_blksize {f : File} {uio : Uio} (hin : uio.offset < f.ip.size) :
    xfersize f uio ≤ blksize f.fs f.ip (uio.offset / f.fs.bsize : Nat) := by
  unfold blksize
  split
  case isTrue =>
    unfold xfersize
    omega
  case isFalse hlast =>
    rw [not_or] at hlast
    have hend : f.ip.size < (uio.offset / f.fs.bsize + 1) * f.fs.bsize := by
      have := hlast.2
      exact_mod_cast not_le.mp this
    have hsize : uio.offset + xfersize f uio ≤ f.ip.size := by
      unfold xfersize
      omega
    exact le_trans (Nat.le_add_left _ _) (le_lastblock hsize hend)

/-- No buffer is held, and none has been obtained for an offset from `cur` on. -/
def Quiet (cur : Nat) (bufs : Heap Nat) : Prop := ∀ bp, bufs.Settled bp ∧ (cur ≤ bp → bufs.counts bp = (0, 0))

/-- A buffer is obtained for one offset and released. -/
theorem quiet_next {cur n : Nat} {bufs : Heap Nat} (h : Quiet cur bufs) (hn : 0 < n) :
    Quiet (cur + n) ((bufs.alloc cur).free cur) := by
  intro bp
  by_cases hbp : cur = bp
  · subst hbp
    refine ⟨Heap.settled_free ?_, fun hle => by omega⟩
    rw [Heap.counts_alloc, (h cur).2 (le_refl _), if_pos rfl]
  · have hcounts : ((bufs.alloc cur).free cur).counts bp = bufs.counts bp := by
      rw [Heap.counts_free_of_ne hbp, Heap.counts_alloc_of_ne hbp]
    refine ⟨?_, fun hle => hcounts.trans ((h bp).2 (by omega))⟩
    unfold Heap.Settled
    rw [hcounts]
    exact (h bp).1

theorem quiet_mono {cur cur' : Nat} {bufs : Heap Nat} (h : Quiet cur bufs) (hle : cur ≤ cur') : Quiet cur' bufs :=
  fun bp => ⟨(h bp).1, fun hbp => (h bp).2 (hle.trans hbp)⟩

/-- Where a round leaves the request. -/
structure Advanced (f : File) (stack : Nat → Nat → UInt8) (o n : Nat) (uio uio' : Uio) : Prop where
  out : uio'.out = uio.out ++ (List.range n).map fun i => delivered f stack o (uio.offset + i)
  offset : uio'.offset = uio.offset + n
  resid : uio'.resid = uio.resid - n
  quiet : Quiet (uio.offset + n) uio'.bufs

theorem Advanced.trans {n k : Nat} {uio' uio'' : Uio} (h : Advanced f stack o n uio uio')
    (h' : Advanced f stack o k uio' uio'') : Advanced f stack o (n + k) uio uio'' := by
  refine ⟨?_, by rw [h'.offset, h.offset, Nat.add_assoc], by rw [h'.resid, h.resid]; omega, ?_⟩
  · have hrest : (List.range k).map (fun i => delivered f stack o (uio.offset + n + i))
        = (List.range k).map ((fun i => delivered f stack o (uio.offset + i)) ∘ (n + ·)) := by
      refine List.map_congr_left fun i _ => ?_
      rw [Function.comp_apply, Nat.add_assoc]
    rw [h'.out, h.out, h.offset, hrest, List.range_add, List.map_append, List.append_assoc, List.map_map]
  · have hq := h'.quiet
    rw [h.offset, Nat.add_assoc] at hq
    exact hq

/-- One round of the loop, where there is something to read. -/
theorem readLoop_step (hf : NoIoError f) (hstart : AtStart f o uio.offset) (hq : Quiet uio.offset uio.bufs)
    (hresid : 0 < uio.resid) (hin : uio.offset < f.ip.size) {fuel : Nat} (hfuel : 0 < fuel) :
    ∃ uio', readLoop f stack (fuel + 1) uio = readLoop f stack fuel uio' ∧
      Advanced f stack o (xfersize f uio) uio uio' := by
  have hmod := Nat.mod_lt uio.offset (bsize_pos f.fs)
  have hpos : 0 < xfersize f uio := by
    unfold xfersize
    omega
  have hle : xfersize f uio ≤ uio.resid := by
    unfold xfersize
    omega
  have hblock : ∀ i, i < xfersize f uio → uio.offset % f.fs.bsize + i < f.fs.bsize := by
    intro i hi
    unfold xfersize at hi
    omega
  rw [readLoop, if_neg (by omega), if_neg (by omega)]
  dsimp only
  rcases hf (toI32 (uio.offset / f.fs.bsize : Nat)) with ⟨data, hbread⟩ | hbread
  · rw [hbread]
    have hroom := xfersize_le_blksize hin
    dsimp only
    rw [if_neg (by omega), if_neg (by omega)]
    refine ⟨_, rfl, ?_, ?_, ?_, ?_⟩
    · show uio.out ++ (List.range (min (xfersize f uio) uio.resid)).map _ = _
      rw [Nat.min_eq_left hle]
      congr 1
      refine List.map_congr_left fun i hi => ?_
      exact (delivered_buffer (hblock i (List.mem_range.mp hi)) hbread).symm
    · show uio.offset + min (xfersize f uio) uio.resid = _
      rw [Nat.min_eq_left hle]
    · show uio.resid - min (xfersize f uio) uio.resid = _
      rw [Nat.min_eq_left hle]
    · exact quiet_next hq hpos
  · rw [hbread]
    obtain ⟨uio', hhole, hout, hoffset, hleft, hbufs⟩ := readHole_eq (zeroArray (stack uio.offset)) hfuel hle
    dsimp only
    rw [hhole, Option.bind_some]
    refine ⟨uio', rfl, ?_, hoffset, hleft, ?_⟩
    · rw [hout]
      congr 1
      refine List.map_congr_left fun i hi => ?_
      exact (delivered_hole hstart (hblock i (List.mem_range.mp hi)) hbread).symm
    · rw [hbufs]
      exact quiet_mono hq (Nat.le_add_right _ _)

/-- The loop from any round on. `n` bytes are left to deliver. -/
theorem readLoop_spec (hf : NoIoError f) {fuel n : Nat} (hfuel : n < fuel) (hn : n = min uio.resid (f.ip.size - uio.offset))
    (hstart : n ≠ 0 → AtStart f o uio.offset) (hq : Quiet uio.offset uio.bufs) :
    ∃ uio', readLoop f stack fuel uio = some (.ret 0 uio') ∧ Advanced f stack o n uio uio' := by
  induction fuel generalizing n uio with
  | zero => omega
  | succ fuel ih =>
      by_cases hzero : n = 0
      · have hend : uio.resid = 0 ∨ f.ip.size ≤ uio.offset := by omega
        refine ⟨uio, ?_, ?_⟩
        · unfold readLoop
          rcases hend with h | h
          · rw [if_pos h]
          · rw [if_pos h, ite_self]
        · rw [hzero]
          exact ⟨(List.append_nil _).symm, rfl, rfl, hq⟩
      · obtain ⟨uio₁, hstep, hadv⟩ := @readLoop_step f stack o uio hf (hstart hzero) hq (by omega) (by omega) fuel
          (show 0 < fuel by omega)
        have hmod := Nat.mod_lt uio.offset (bsize_pos f.fs)
        have hle : xfersize f uio ≤ n := by
          unfold xfersize
          omega
        have hpos : 0 < xfersize f uio := by
          unfold xfersize
          omega
        have hoffset := hadv.offset
        have hresid := hadv.resid
        have hq₁ : Quiet uio₁.offset uio₁.bufs := hoffset ▸ hadv.quiet
        have hnext : n - xfersize f uio ≠ 0 → AtStart f o uio₁.offset := by
          intro hleft
          refine ⟨by have := (hstart hzero).1; omega, .inr ?_⟩
          -- the transfer was not the last one, so it went to the end of the block
          have hfull : xfersize f uio = f.fs.bsize - uio.offset % f.fs.bsize := by
            unfold xfersize at hleft ⊢
            omega
          have hdm := Nat.div_add_mod uio.offset f.fs.bsize
          have heq : uio₁.offset = f.fs.bsize * (uio.offset / f.fs.bsize + 1) := by
            rw [hoffset, hfull, Nat.mul_add, Nat.mul_one]
            omega
          rw [heq, Nat.mul_mod_right]
        obtain ⟨uio₂, hrest, hadv₂⟩ := ih (n := n - xfersize f uio) (by omega) (by rw [hoffset, hresid]; omega) hnext hq₁
        refine ⟨uio₂, hstep.trans hrest, ?_⟩
        have hboth := hadv.trans hadv₂
        rwa [Nat.add_sub_cancel' hle] at hboth

end Round

/-! ### When a read is right -/

/-- A read of something that is not refused delivers what `bread` gives. -/
theorem ffsRead_eq {f : File} (hf : NoIoError f) (stack : Nat → Nat → UInt8) {o len : Nat}
    (hmax : 0 < len → o < f.ip.size → o < f.maxfilesize) {fuel : Nat} (hfuel : count f o len < fuel) :
    ∃ uio, ffsRead f stack fuel (fresh o len) = some (.ret 0 uio) ∧
      Advanced f stack o (count f o len) (fresh o len) uio := by
  have hquiet : Quiet o (Heap.empty : Heap Nat) := fun bp => ⟨.inl (Heap.counts_empty bp), fun _ => Heap.counts_empty bp⟩
  by_cases hlen : len = 0
  · refine ⟨fresh o len, if_pos hlen, ?_⟩
    have hcount : count f o len = 0 := by
      unfold count
      omega
    rw [hcount]
    exact ⟨rfl, rfl, rfl, hquiet⟩
  · have hloop : ffsRead f stack fuel (fresh o len) = readLoop f stack fuel (fresh o len) := by
      show (if len = 0 then _ else if o < f.ip.size ∧ f.maxfilesize ≤ o then _ else _) = _
      rw [if_neg hlen, if_neg (fun h => absurd (hmax (by omega) h.1) (by omega))]
    rw [hloop]
    exact readLoop_spec hf hfuel rfl (fun _ => ⟨le_refl o, .inl rfl⟩) hquiet

/-- A byte gets through if and only if it is delivered whatever is on the stack. -/
theorem getsThrough_iff {f : File} (hf : NoIoError f) (o x : Nat) :
    GetsThrough f o x ↔ ∀ stack, delivered f stack o x = byte f x := by
  unfold GetsThrough delivered
  rcases hf (toI32 (x / f.fs.bsize : Nat)) with ⟨data, hbread⟩ | hbread
  · rw [hbread]
    exact ⟨fun h _ => h, fun h => h fun _ _ => 0⟩
  · rw [hbread]
    dsimp only
    unfold zeroArray sizeofLong
    constructor
    · rintro ⟨hfirst, hzero⟩ stack
      rw [if_pos hfirst, hzero]
    · intro h
      have hzeros := h fun _ _ => 0
      have hones := h fun _ _ => 1
      by_cases hfirst : x - transferStart f o x < 8
      · rw [if_pos hfirst] at hzeros
        exact ⟨hfirst, hzeros.symm⟩
      · rw [if_neg hfirst] at hzeros hones
        exact absurd (hzeros.trans hones.symm) (by decide)

/-- A read beyond the largest file is refused. -/
theorem maxfilesize_of_readsRight {f : File} {o len : Nat} (h : ReadsRight f o len) (hlen : 0 < len)
    (hin : o < f.ip.size) : o < f.maxfilesize := by
  by_contra hover
  obtain ⟨rounds, hret⟩ := h fun _ _ => 0
  obtain ⟨uio, hread, -⟩ := hret rounds (le_refl _)
  have hoverflow : ffsRead f (fun _ _ => 0) rounds (fresh o len) = some (.ret EOVERFLOW (fresh o len)) := by
    show (if len = 0 then _ else if o < f.ip.size ∧ f.maxfilesize ≤ o then _ else _) = _
    rw [if_neg (by omega), if_pos ⟨hin, not_lt.mp hover⟩]
  rw [hoverflow] at hread
  injection hread with hread
  injection hread with herror _
  exact absurd herror (by decide)

theorem getsThrough_of_readsRight {f : File} (hf : NoIoError f) {o len : Nat} (h : ReadsRight f o len) {x : Nat}
    (hlo : o ≤ x) (hhi : x < o + count f o len) : GetsThrough f o x := by
  refine (getsThrough_iff hf o x).mpr fun stack => ?_
  obtain ⟨rounds, hret⟩ := h stack
  obtain ⟨uio, hread, hout, -⟩ := hret (max rounds (count f o len + 1)) (le_max_left _ _)
  obtain ⟨uio', hread', hadv⟩ := ffsRead_eq hf stack (maxfilesize_of_readsRight h)
    (lt_of_lt_of_le (Nat.lt_succ_self _) (le_max_right _ _))
  rw [hread] at hread'
  injection hread' with hread'
  injection hread' with _ huio
  have hsame := hadv.out
  rw [← huio, hout] at hsame
  have hbyte := List.map_inj_left.mp hsame (x - o) (List.mem_range.mpr (by omega))
  rw [Nat.add_sub_cancel' hlo] at hbyte
  exact (hbyte.trans (congrArg (delivered f stack o) (Nat.add_sub_cancel' hlo))).symm

/-- A read of a directory or a symbolic link delivers the bytes of the file if and only if the
offset is not beyond the largest file and every byte gets through. -/
theorem reads_right_iff (f : File) (hf : NoIoError f) (o len : Nat) : ReadsRight f o len ↔ Readable f o len := by
  constructor
  · exact fun h => ⟨maxfilesize_of_readsRight h, fun x hlo hhi => getsThrough_of_readsRight hf h hlo hhi⟩
  · rintro ⟨hmax, hthrough⟩ stack
    refine ⟨count f o len + 1, fun fuel hfuel => ?_⟩
    obtain ⟨uio, hread, hadv⟩ := ffsRead_eq hf stack hmax hfuel
    refine ⟨uio, hread, ?_, hadv.offset, hadv.resid, fun bp => (hadv.quiet bp).1⟩
    rw [hadv.out]
    refine List.map_congr_left fun i hi => ?_
    exact (getsThrough_iff hf o (o + i)).mp (hthrough (o + i) (Nat.le_add_right _ _)
      (Nat.add_lt_add_left (List.mem_range.mp hi) o)) stack

/-! ### A small hole -/

/-- A directory of 16 bytes that is a hole. -/
def holeFile : File where
  fs := tinyFs
  ip := { snapshot := false, size := 16, blocks := 0, db := fun _ => 0, ib := fun _ => 0, extb := fun _ => 0 }
  maxfilesize := 1000
  bread _ := .hole
  size_lt := by decide

/-- The hypothesis is met, and the first eight bytes are read as zero. -/
theorem reads_right_eight : ReadsRight holeFile 0 8 := by
  have hf : NoIoError holeFile := fun _ => .inr rfl
  refine (reads_right_iff holeFile hf 0 8).mpr ⟨fun _ _ => by decide, fun x _ hx => ⟨?_, rfl⟩⟩
  have hcount : count holeFile 0 8 = 8 := by decide
  rw [hcount] at hx
  omega

/-- The ninth byte of a hole is what was on the stack. -/
theorem not_reads_right :
    ¬ ∀ (f : File) (o len : Nat), NoIoError f → f.ip.size ≤ f.maxfilesize → ReadsRight f o len := by
  intro hall
  have hf : NoIoError holeFile := fun _ => .inr rfl
  have hthrough := getsThrough_of_readsRight hf (hall holeFile 0 9 hf (by decide)) (x := 8) (by decide) (by decide)
  have hlt : 8 - transferStart holeFile 0 8 < 8 := hthrough.1
  have hstart : transferStart holeFile 0 8 = 0 := by decide
  omega

end UfsX.Proofs.Read
