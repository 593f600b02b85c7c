import UfsX.Lib.Crc
import UfsX.Compat.Crc32c
import UfsX.Ffs.Reload
import UfsX.Proofs.Cgroup
import UfsX.Proofs.Superblock

/-!
# `UfsX.Proofs.Crc32c`: the sum over eight bytes at a time, and the damage it shows

`crc32c.c` takes eight bytes at a time, from eight tables, once it has come to an address that
is a multiple of four. `calculateCrc32c_sliced` says that it gives the sum that goes by bytes,
which is the one that goes bit by bit, wherever the buffer is, and reads only what is in the
buffer.

`damage_refused` is about the check-hashes: no inode, group or superblock that passes its check
passes again with an odd number of bits flipped, or with a burst of 32 bits that does not reach
the hash.
-/

set_option autoImplicit false

namespace UfsX.Proofs.Crc32c

open UfsX.Lib UfsX.Compat.Crc32c

/-! ### The sum as shifts -/

/-- The bits of a byte, lowest first. -/
def byteBits (b : UInt8) : List Bool := (List.range 8).map b.toNat.testBit

theorem ofBits_byteBits (b : UInt8) : Crc.ofBits (byteBits b) = b.toNat := by
  unfold byteBits
  rw [Crc.ofBits_testBit]
  exact Nat.mod_eq_of_lt b.toNat_lt

/-- The sum that goes by bytes goes through their bits. -/
theorem calculateCrc32c_bits (bytes : List UInt8) (c : Nat) :
    Ffs.calculateCrc32c c bytes = Crc.feed poly c (bytes.flatMap byteBits) := by
  induction bytes generalizing c with
  | nil => rfl
  | cons b bytes ih =>
      have hbyte : Ffs.crcTable ((c ^^^ b.toNat) % 256) ^^^ (c >>> 8) = Crc.feed poly c (byteBits b) := by
        rw [crcStep_eq c b.toNat_lt, Crc.feed_eq, ofBits_byteBits]
        rfl
      rw [List.flatMap_cons, Crc.feed_append, ← hbyte]
      exact ih _

/-- Bytes as a number, lowest byte first. -/
def value : List UInt8 → Nat
  | [] => 0
  | b :: bytes => b.toNat ^^^ 2 ^ 8 * value bytes

theorem value_cons_xor (b : UInt8) (bytes : List UInt8) : value (b :: bytes) = b.toNat ^^^ 2 ^ 8 * value bytes := rfl

theorem value_cons (b : UInt8) (bytes : List UInt8) : value (b :: bytes) = b.toNat + 256 * value bytes := by
  rw [value_cons_xor, Nat.xor_comm, Crc.two_pow_mul_xor 8 _ b.toNat_lt]
  exact Nat.add_comm ..

theorem value_lt (bytes : List UInt8) : value bytes < 2 ^ (8 * bytes.length) := by
  induction bytes with
  | nil => decide
  | cons b bytes ih =>
      have hb := b.toNat_lt
      rw [value_cons, List.length_cons, Nat.mul_add, Nat.pow_add]
      omega

theorem value_append (l l' : List UInt8) : value (l ++ l') = value l ^^^ 2 ^ (8 * l.length) * value l' := by
  induction l with
  | nil => rw [List.nil_append, List.length_nil, Nat.mul_zero, Nat.pow_zero, Nat.one_mul]; exact (Nat.zero_xor _).symm
  | cons b l ih =>
      have hmul (x y : Nat) : 2 ^ 8 * (x ^^^ y) = 2 ^ 8 * x ^^^ 2 ^ 8 * y := by
        simp only [Nat.mul_comm (2 ^ 8), ← Nat.shiftLeft_eq, Nat.shiftLeft_xor_distrib]
      rw [List.cons_append, List.length_cons, value_cons_xor, value_cons_xor, ih, hmul, Nat.xor_assoc, Nat.mul_add, Nat.mul_one, Nat.add_comm (8 * l.length), Nat.pow_add, Nat.mul_assoc]

/-- The bytes of a message come in at once. -/
theorem calculateCrc32c_eq_shifts (bytes : List UInt8) (c : Nat) :
    Ffs.calculateCrc32c c bytes = Crc.shifts poly (8 * bytes.length) (c ^^^ value bytes) := by
  induction bytes generalizing c with
  | nil => exact (Nat.xor_zero c).symm
  | cons b bytes ih =>
      calc Ffs.calculateCrc32c c (b :: bytes)
          = Ffs.calculateCrc32c (Crc.shifts poly 8 (c ^^^ b.toNat)) bytes := by
            rw [← crcStep_eq c b.toNat_lt]
            rfl
        _ = Crc.shifts poly (8 * bytes.length) (Crc.shifts poly 8 (c ^^^ b.toNat) ^^^ value bytes) := ih _
        _ = Crc.shifts poly (8 * bytes.length) (Crc.shifts poly 8 (c ^^^ b.toNat ^^^ 2 ^ 8 * value bytes)) := by
            rw [Crc.shifts_xor poly 8 (c ^^^ b.toNat) (2 ^ 8 * value bytes), Crc.shifts_mul_two_pow]
        _ = Crc.shifts poly (8 * (b :: bytes).length) (c ^^^ value (b :: bytes)) := by
            rw [← Crc.shifts_add, List.length_cons, Nat.mul_add, Nat.mul_one, Nat.xor_assoc]
            rfl

/-! ### The tables -/

/-- A table that takes a byte over `k` bytes. -/
def Slices (k : Nat) (table : List Nat) : Prop := table = (List.range 256).map (Crc.shifts poly (8 * k))

/-- `Crc.shift` without a branch. -/
def step (c : Nat) : Nat := Nat.xor (Nat.shiftRight c 1) (Nat.mul (Nat.mod c 2) poly)

theorem step_eq : step = Crc.shift poly := by
  funext c
  show c >>> 1 ^^^ c % 2 * poly = if c % 2 = 1 then c >>> 1 ^^^ poly else c >>> 1
  rcases Nat.mod_two_eq_zero_or_one c with hc | hc <;> simp [hc]

/-- A table that takes the entries of another one over one byte more. -/
def Next (table table' : List Nat) : Prop :=
  table' = table.map fun c => step (step (step (step (step (step (step (step c)))))))

instance (table table' : List Nat) : Decidable (Next table table') := inferInstanceAs (Decidable (_ = _))

theorem Slices.next {k : Nat} {table table' : List Nat} (h : Slices k table) (h' : Next table table') :
    Slices (k + 1) table' := by
  unfold Next at h'
  unfold Slices
  rw [h', h, List.map_map, step_eq, Nat.mul_add, Nat.mul_one, Nat.add_comm]
  exact List.map_congr_left fun c _ => (Crc.shifts_add poly 8 (8 * k) c).symm

/-- The tables as they stand in `crc32c.c`, each but the first computed from the one before it. -/
theorem tables_next : Next (List.range 256) sctpCrcTableil8O32
    ∧ Next sctpCrcTableil8O32 sctpCrcTableil8O40 ∧ Next sctpCrcTableil8O40 sctpCrcTableil8O48
    ∧ Next sctpCrcTableil8O48 sctpCrcTableil8O56 ∧ Next sctpCrcTableil8O56 sctpCrcTableil8O64
    ∧ Next sctpCrcTableil8O64 sctpCrcTableil8O72 ∧ Next sctpCrcTableil8O72 sctpCrcTableil8O80
    ∧ Next sctpCrcTableil8O80 sctpCrcTableil8O88 := by decide +kernel

theorem slices_o32 : Slices 1 sctpCrcTableil8O32 := Slices.next (k := 0) (List.map_id _).symm tables_next.1

theorem slices_crc32Table : Slices 1 crc32Table := slices_o32

theorem slices_o40 : Slices 2 sctpCrcTableil8O40 := slices_o32.next tables_next.2.1

theorem slices_o48 : Slices 3 sctpCrcTableil8O48 := slices_o40.next tables_next.2.2.1

theorem slices_o56 : Slices 4 sctpCrcTableil8O56 := slices_o48.next tables_next.2.2.2.1

theorem slices_o64 : Slices 5 sctpCrcTableil8O64 := slices_o56.next tables_next.2.2.2.2.1

theorem slices_o72 : Slices 6 sctpCrcTableil8O72 := slices_o64.next tables_next.2.2.2.2.2.1

theorem slices_o80 : Slices 7 sctpCrcTableil8O80 := slices_o72.next tables_next.2.2.2.2.2.2.1

theorem slices_o88 : Slices 8 sctpCrcTableil8O88 := slices_o80.next tables_next.2.2.2.2.2.2.2

theorem Slices.entry {k : Nat} {table : List Nat} (h : Slices k table) (x : Nat) :
    table.getD (x &&& 0xff) 0 = Crc.shifts poly (8 * k) (x % 256) := by
  have hand : x &&& 0xff = x % 256 := Nat.and_two_pow_sub_one_eq_mod x 8
  have hlt : x % 256 < (List.range 256).length := by
    rw [List.length_range]
    exact Nat.mod_lt x (by decide)
  rw [hand, h, List.getD_eq_getElem _ 0 (by rwa [List.length_map]), List.getElem_map, List.getElem_range]

theorem shifts_byte (k x : Nat) : Crc.shifts poly (8 * (k + 1)) x
    = Crc.shifts poly (8 * (k + 1)) (x % 256) ^^^ Crc.shifts poly (8 * k) (x >>> 8) := by
  rw [Nat.mul_add, Nat.mul_one, Crc.shifts_add, Crc.shifts_split poly 8 x, Crc.shifts_xor, ← Crc.shifts_add]
  rfl

/-- Four bytes, each from its own table. -/
theorem shifts_word (k : Nat) {x : Nat} (hx : x < 2 ^ 32) : Crc.shifts poly (8 * (k + 4)) x
    = Crc.shifts poly (8 * (k + 4)) (x % 256) ^^^ Crc.shifts poly (8 * (k + 3)) ((x >>> 8) % 256)
      ^^^ Crc.shifts poly (8 * (k + 2)) ((x >>> 16) % 256) ^^^ Crc.shifts poly (8 * (k + 1)) ((x >>> 16 >>> 8) % 256) := by
  have hlast : x >>> 16 >>> 8 >>> 8 = 0 := by
    rw [← Nat.shiftRight_add, ← Nat.shiftRight_add, Nat.shiftRight_eq_div_pow]
    exact Nat.div_eq_of_lt hx
  have hzero : Crc.shifts poly (8 * k) 0 = 0 := by
    have h := Crc.shifts_xor poly (8 * k) 0 0
    rwa [Nat.xor_self, Nat.xor_self] at h
  rw [shifts_byte (k + 3) x, shifts_byte (k + 2) (x >>> 8), ← Nat.shiftRight_add x 8 8,
    shifts_byte (k + 1) (x >>> (8 + 8)), shifts_byte k (x >>> (8 + 8) >>> 8), hlast, hzero, Nat.xor_zero,
    Nat.xor_assoc, Nat.xor_assoc]

/-! ### Buffers -/

section Buffers

variable {buf : Buffer}

variable (buf) in
/-- `n` bytes from `p` on. -/
def slice (p n : Nat) : List UInt8 := (buf.bytes.drop (p - buf.addr)).take n

variable (buf) in
/-- `n` bytes from `p` on are in the buffer. -/
def Inside (p n : Nat) : Prop := buf.addr ≤ p ∧ p + n ≤ buf.addr + buf.bytes.length

theorem slice_add (p m n : Nat) (hp : buf.addr ≤ p) : slice buf p (m + n) = slice buf p m ++ slice buf (p + m) n := by
  unfold slice
  rw [List.take_add, List.drop_drop, show p + m - buf.addr = p - buf.addr + m by omega]

theorem length_slice {p n : Nat} (h : Inside buf p n) : (slice buf p n).length = n := by
  obtain ⟨hlow, hhigh⟩ := h
  unfold slice
  rw [List.length_take, List.length_drop]
  omega

theorem load8_inside {p n : Nat} (h : Inside buf p (n + 1)) :
    ∃ b : UInt8, buf.load8 p = some b.toNat ∧ slice buf p (n + 1) = b :: slice buf (p + 1) n := by
  obtain ⟨hlow, hhigh⟩ := h
  have hlt : p - buf.addr < buf.bytes.length := by omega
  refine ⟨buf.bytes[p - buf.addr], ?_, ?_⟩
  · unfold Buffer.load8
    rw [if_pos hlow, List.getElem?_eq_getElem hlt]
    rfl
  · unfold slice
    rw [List.drop_eq_getElem_cons hlt, List.take_succ_cons, show p + 1 - buf.addr = p - buf.addr + 1 by omega]

theorem Inside.tail {p n m : Nat} (h : Inside buf p (m + n)) : Inside buf (p + m) n :=
  ⟨by have := h.1; omega, by have := h.2; omega⟩

theorem Inside.head {p n m : Nat} (h : Inside buf p (m + n)) : Inside buf p m :=
  ⟨h.1, by have := h.2; omega⟩

theorem load32_inside {p : Nat} (halign : p % 4 = 0) (h : Inside buf p 4) :
    buf.load32 p = some (value (slice buf p 4)) := by
  obtain ⟨b₀, h₀, hs₀⟩ := load8_inside (n := 3) h
  obtain ⟨b₁, h₁, hs₁⟩ := load8_inside (n := 2) (Inside.tail (m := 1) (n := 3) h)
  obtain ⟨b₂, h₂, hs₂⟩ := load8_inside (n := 1) (Inside.tail (m := 2) (n := 2) h)
  obtain ⟨b₃, h₃, hs₃⟩ := load8_inside (n := 0) (Inside.tail (m := 3) (n := 1) h)
  have hnone (q : Nat) : slice buf q 0 = [] := List.take_zero ..
  unfold Buffer.load32
  rw [if_pos halign, h₀, h₁, h₂, h₃, hs₀, hs₁, hs₂, hs₃, hnone]
  simp only [value_cons, Option.bind_eq_bind, Option.bind_some]
  show some _ = some (_ + 256 * (_ + 256 * (_ + 256 * (_ + 256 * 0))))
  congr 1
  omega

/-! ### The loops -/

theorem byteLoop_eq {table : List Nat} (ht : Slices 1 table) {n p : Nat} (h : Inside buf p n) (crc : Nat) :
    byteLoop buf table n p crc = some (Ffs.calculateCrc32c crc (slice buf p n), p + n) := by
  induction n generalizing p crc with
  | zero =>
      have hnone : slice buf p 0 = [] := List.take_zero ..
      rw [hnone]
      rfl
  | succ n ih =>
      obtain ⟨b, hload, hslice⟩ := load8_inside h
      unfold byteLoop
      rw [hload, hslice, Option.bind_eq_bind, Option.bind_some, ih (Inside.tail (m := 1) (Nat.add_comm n 1 ▸ h)), ht.entry,
        show p + 1 + n = p + (n + 1) by omega]
      rfl

/-- One round of the loop by eight bytes. -/
theorem word_step {crc w w' : Nat} (hx : crc ^^^ w < 2 ^ 32) (hw' : w' < 2 ^ 32) :
    (Crc.shifts poly 64 ((crc ^^^ w) % 256) ^^^ Crc.shifts poly 56 (((crc ^^^ w) >>> 8) % 256)
        ^^^ Crc.shifts poly 48 (((crc ^^^ w) >>> 16) % 256) ^^^ Crc.shifts poly 40 (((crc ^^^ w) >>> 16 >>> 8) % 256)
        ^^^ (Crc.shifts poly 32 (w' % 256) ^^^ Crc.shifts poly 24 ((w' >>> 8) % 256))
        ^^^ Crc.shifts poly 16 ((w' >>> 16) % 256) ^^^ Crc.shifts poly 8 ((w' >>> 16 >>> 8) % 256))
      = Crc.shifts poly 64 (crc ^^^ (w ^^^ 2 ^ 32 * w')) := by
  have hlow := shifts_word 4 hx
  have hhigh := shifts_word 0 hw'
  have hcut : Crc.shifts poly 64 (2 ^ 32 * w') = Crc.shifts poly 32 w' := by
    rw [show 64 = 32 + 32 from rfl, Crc.shifts_add, Crc.shifts_mul_two_pow]
  rw [← Nat.xor_assoc crc, Crc.shifts_xor, hcut]
  rw [show Crc.shifts poly 64 (crc ^^^ w) = _ from hlow, show Crc.shifts poly 32 w' = _ from hhigh]
  simp only [Nat.xor_assoc]

theorem wordLoop_eq {n p : Nat} (halign : p % 4 = 0) (h : Inside buf p (8 * n)) {crc : Nat} (hcrc : crc < 2 ^ 32) :
    wordLoop buf n p crc = some (Ffs.calculateCrc32c crc (slice buf p (8 * n)), p + 8 * n) := by
  induction n generalizing p crc with
  | zero =>
      have hnone : slice buf p (8 * 0) = [] := List.take_zero ..
      rw [hnone]
      rfl
  | succ n ih =>
      have h' : Inside buf p (8 + 8 * n) := by
        rwa [Nat.mul_add, Nat.mul_one, Nat.add_comm] at h
      have hfirst : Inside buf p 4 := Inside.head (m := 4) (n := 4) h'.head
      have hsecond : Inside buf (p + 4) 4 := Inside.tail (m := 4) (n := 4) h'.head
      have hw : value (slice buf p 4) < 2 ^ 32 := by
        have := value_lt (slice buf p 4)
        rwa [length_slice hfirst] at this
      have hw' : value (slice buf (p + 4) 4) < 2 ^ 32 := by
        have := value_lt (slice buf (p + 4) 4)
        rwa [length_slice hsecond] at this
      have hround : Ffs.calculateCrc32c crc (slice buf p 8)
          = Crc.shifts poly 64 (crc ^^^ (value (slice buf p 4) ^^^ 2 ^ 32 * value (slice buf (p + 4) 4))) := by
        rw [calculateCrc32c_eq_shifts, length_slice h'.head, slice_add p 4 4 h.1, value_append, length_slice hfirst]
      unfold wordLoop
      rw [load32_inside halign hfirst, load32_inside (by omega) hsecond]
      simp only [Option.bind_eq_bind, Option.bind_some, slices_o32.entry, slices_o40.entry, slices_o48.entry,
        slices_o56.entry, slices_o64.entry, slices_o72.entry, slices_o80.entry, slices_o88.entry]
      rw [word_step (Nat.xor_lt_two_pow hcrc hw) hw', ← hround,
        ih (by omega) h'.tail (calculateCrc32c_lt _ hcrc), ← Superblock.calculateCrc32c_append,
        ← slice_add p 8 (8 * n) h.1, show 8 + 8 * n = 8 * (n + 1) by omega, show p + 8 + 8 * n = p + 8 * (n + 1) by omega]

end Buffers

/-! ### The sum -/

theorem sub32_eq {x y : Nat} (hy : y ≤ x) (hx : x < 2 ^ 32) : sub32 x y = x - y := by
  unfold sub32
  omega

/-- From the first multiple of four behind the start of the buffer on, the sum goes by eight
bytes. It is the sum that goes by bytes, and with that the CRC that goes bit by bit. -/
theorem calculateCrc32c_sliced (buf : Buffer) {crc length : Nat} (hcrc : crc < 2 ^ 32) (hmax : length < 2 ^ 32)
    (hlength : length ≤ buf.bytes.length) :
    calculateCrc32c buf crc length = some (Ffs.calculateCrc32c crc (buf.bytes.take length))
      ∧ Ffs.calculateCrc32c crc (buf.bytes.take length)
        = Crc.feed poly crc ((buf.bytes.take length).flatMap byteBits) := by
  refine ⟨?_, calculateCrc32c_bits ..⟩
  have hall : slice buf buf.addr length = buf.bytes.take length := by
    unfold slice
    rw [Nat.sub_self, List.drop_zero]
  have hinside : Inside buf buf.addr length := ⟨le_rfl, by omega⟩
  rw [← hall]
  unfold calculateCrc32c
  split
  case isTrue =>
    unfold singletableCrc32c
    rw [byteLoop_eq slices_crc32Table hinside]
    rfl
  case isFalse hfour =>
    have hand : buf.addr &&& 0x3 = buf.addr % 4 := Nat.and_two_pow_sub_one_eq_mod buf.addr 2
    unfold multitableCrc32c
    rw [if_neg (by omega), hand]
    generalize hfirst : 4 - buf.addr % 4 = first
    have hdiv := Nat.div_add_mod (length - first) 8
    unfold crc32cSb864Bit eRounddown
    simp only []
    rw [sub32_eq (by omega) hmax, sub32_eq (Nat.div_mul_le_self ..) (by omega), Nat.mul_div_cancel _ (by decide)]
    generalize hwords : (length - first) / 8 = words at hdiv ⊢
    generalize hrest : length - first - words * 8 = rest
    have hsum : length = first + (8 * words + rest) := by omega
    rw [hsum] at hinside ⊢
    have hmiddle := hinside.tail
    rw [byteLoop_eq slices_o32 hinside.head]
    simp only [Option.bind_eq_bind, Option.bind_some]
    rw [wordLoop_eq (by omega) hmiddle.head (calculateCrc32c_lt _ hcrc)]
    simp only [Option.bind_some]
    rw [byteLoop_eq slices_o32 hmiddle.tail, slice_add _ _ _ le_rfl, slice_add _ _ _ (by omega),
      Superblock.calculateCrc32c_append, Superblock.calculateCrc32c_append]
    rfl

/-- Nine bytes at an odd address: three in front of a word, none behind. -/
theorem calculateCrc32c_sliced_nine :
    calculateCrc32c ⟨1, [49, 50, 51, 52, 53, 54, 55, 56, 57]⟩ 0xffffffff 9 = some (0xE3069283 ^^^ 0xffffffff) := by
  rw [(calculateCrc32c_sliced _ (by decide) (by decide) (by decide)).1]
  decide +kernel

/-! ### Bits

The sum goes through the bits of a memory in the order of their addresses, lowest bit first. -/

/-- Bit `i` of a memory. -/
def bit (m : Mem) (i : Nat) : Bool := (m (i / 8)).toNat.testBit (i % 8)

/-- `n` bits from `s` on. -/
def bits (m : Mem) (s n : Nat) : List Bool := (List.range' s n).map (bit m)

theorem bits_add (m : Mem) (s a b : Nat) : bits m s (a + b) = bits m s a ++ bits m (s + a) b := by
  unfold bits
  rw [← List.map_append, List.range'_append_1]

theorem bits_byte (m : Mem) (k : Nat) : bits m (8 * k) 8 = byteBits (m k) := by
  unfold bits byteBits
  rw [List.range'_eq_map_range, List.map_map]
  refine List.map_congr_left fun i hi => ?_
  have hlt := List.mem_range.mp hi
  show (m ((8 * k + i) / 8)).toNat.testBit ((8 * k + i) % 8) = _
  rw [show (8 * k + i) / 8 = k by omega, show (8 * k + i) % 8 = i by omega]

theorem ofBits_byte (m : Mem) (k : Nat) : Crc.ofBits (bits m (8 * k) 8) = (m k).toNat := by
  rw [bits_byte]
  exact ofBits_byteBits (m k)

theorem readBytes_succ (m : Mem) (a n : Nat) : m.readBytes a (n + 1) = m a :: m.readBytes (a + 1) n := by
  unfold Mem.readBytes
  rw [List.range_succ_eq_map, List.map_cons, List.map_map]
  congr 1
  refine List.map_congr_left fun i _ => ?_
  show m (a + (i + 1)) = m (a + 1 + i)
  rw [Nat.add_assoc, Nat.add_comm i]

theorem bits_readBytes (m : Mem) (a n : Nat) : bits m (8 * a) (8 * n) = (m.readBytes a n).flatMap byteBits := by
  induction n generalizing a with
  | zero => rfl
  | succ n ih =>
      rw [readBytes_succ, List.flatMap_cons, ← ih, ← bits_byte, show 8 * (n + 1) = 8 + 8 * n by omega, bits_add]
      rfl

theorem calculateCrc32c_feed (m : Mem) (n a c : Nat) :
    Ffs.calculateCrc32c c (m.readBytes a n) = Crc.feed poly c (bits m (8 * a) (8 * n)) := by
  rw [bits_readBytes, calculateCrc32c_bits]

theorem byte_of_bits {m m' : Mem} {k : Nat} (h : ∀ i, 8 * k ≤ i → i < 8 * k + 8 → bit m i = bit m' i) : m k = m' k := by
  have hbits : bits m (8 * k) 8 = bits m' (8 * k) 8 := by
    refine List.map_congr_left fun i hi => ?_
    have hmem := List.mem_range'_1.mp hi
    exact h i hmem.1 hmem.2
  have hnat := congrArg Crc.ofBits hbits
  rw [ofBits_byte, ofBits_byte] at hnat
  exact UInt8.toNat_inj.mp hnat

theorem getElem?_bits (m : Mem) (s n i : Nat) : (bits m s n)[i]? = if i < n then some (bit m (s + i)) else none := by
  unfold bits
  rw [List.getElem?_map]
  split
  case isTrue hlt => rw [List.getElem?_range' hlt, Nat.one_mul]; rfl
  case isFalse hge => rw [List.getElem?_eq_none (by rw [List.length_range']; omega)]; rfl

/-- Two memories with the same sum that differ in 32 bits in a row at most. -/
theorem same_of_window {m m' : Mem} {n p : Nat} (hsame : ∀ i < 8 * n, i < p ∨ p + 32 ≤ i → bit m i = bit m' i)
    (h : Ffs.calculateCrc32c 0xffffffff (m.readBytes 0 n) = Ffs.calculateCrc32c 0xffffffff (m'.readBytes 0 n)) :
    ∀ k < n, m k = m' k := by
  intro k hk
  have hlist : bits m 0 (8 * n) = bits m' 0 (8 * n) := by
    rw [calculateCrc32c_feed, calculateCrc32c_feed] at h
    refine Crc.feed_window (w := 32) (by decide) (by decide) (by decide) (by decide) ?_ p ?_ h
    · simp [bits]
    · intro i hi
      rw [getElem?_bits, getElem?_bits, Nat.zero_add]
      split
      case isTrue hlt => rw [hsame i hlt hi]
      case isFalse => rfl
  refine byte_of_bits fun i hlo hhi => ?_
  have hi := congrArg (fun l : List Bool => l[i]?) hlist
  simp only [getElem?_bits, Nat.zero_add] at hi
  rw [if_pos (by omega), if_pos (by omega)] at hi
  exact Option.some.inj hi

/-! ### A hash among the bytes it is over

The hash is four bytes from `o` on, and counts as zero for the sum of the `n` bytes. -/

/-- The hash in a memory is the sum. -/
def Checked (o n : Nat) (m : Mem) : Prop :=
  m.read32 o = Ffs.calculateCrc32c 0xffffffff ((m.write32 o 0).readBytes 0 n)

theorem bits_write32 (m : Mem) {o s n : Nat} (h : s + n ≤ 8 * o ∨ 8 * (o + 4) ≤ s) :
    bits (m.write32 o 0) s n = bits m s n := by
  refine List.map_congr_left fun i hi => ?_
  have hmem := List.mem_range'_1.mp hi
  unfold bit Mem.write32
  rw [if_neg (by omega)]

theorem bits_hash (m : Mem) (o : Nat) : Crc.ofBits (bits (m.write32 o 0) (8 * o) 32) = 0 := by
  have hzero : bits (m.write32 o 0) (8 * o) 32 = List.replicate 32 false := by
    refine List.eq_replicate_iff.mpr ⟨by simp [bits], fun b hb => ?_⟩
    obtain ⟨i, hi, rfl⟩ := List.mem_map.mp hb
    have hmem := List.mem_range'_1.mp hi
    unfold bit Mem.write32
    rw [if_pos (by omega)]
    show (UInt8.ofNat (0 / 256 ^ (i / 8 - o))).toNat.testBit (i % 8) = false
    rw [Nat.zero_div]
    exact Nat.zero_testBit _
  rw [hzero]
  rfl

theorem parity_value (b : UInt8) (bytes : List UInt8) :
    Crc.parity (value (b :: bytes)) = (Crc.parity b.toNat ^^ Crc.parity (value bytes)) := by
  rw [value_cons_xor, Crc.parity_xor, Crc.parity_two_pow_mul]

theorem read32_eq_value (m : Mem) (o : Nat) : m.read32 o = value [m o, m (o + 1), m (o + 2), m (o + 3)] := by
  simp only [value_cons]
  show (m o).toNat + 256 * (m (o + 1)).toNat + 65536 * ((m (o + 2)).toNat + 256 * (m (o + 3)).toNat)
    = _ + 256 * (_ + 256 * (_ + 256 * (_ + 256 * 0)))
  omega

theorem parity_read32 (m : Mem) (o : Nat) : Crc.parity (m.read32 o) = Crc.parity (Crc.ofBits (bits m (8 * o) 32)) := by
  have hcut : bits m (8 * o) 32
      = bits m (8 * o) 8 ++ (bits m (8 * (o + 1)) 8 ++ (bits m (8 * (o + 2)) 8 ++ bits m (8 * (o + 3)) 8)) := by
    rw [show 8 * (o + 3) = 8 * (o + 2) + 8 by omega, ← bits_add, show 8 * (o + 2) = 8 * (o + 1) + 8 by omega, ← bits_add,
      show 8 * (o + 1) = 8 * o + 8 by omega, ← bits_add]
  have hnil : Crc.parity (value []) = false := Crc.parity_zero
  simp only [read32_eq_value, hcut, parity_value, hnil, Crc.parity_ofBits_append, ofBits_byte, Bool.xor_false]

/-- The parity of all bits of a memory that passes the check is always the same. -/
theorem parity_checked {o n : Nat} {m : Mem} (ho : o + 4 ≤ n) (h : Checked o n m) :
    Crc.parity (Crc.ofBits (bits m 0 (8 * n))) = Crc.parity 0xffffffff := by
  have hodd : Crc.parity poly = true := by decide +kernel
  -- the bits in front of the hash, those of the hash, and the others
  have hcut (m : Mem) : Crc.parity (Crc.ofBits (bits m 0 (8 * n))) =
      (Crc.parity (Crc.ofBits (bits m 0 (8 * o))) ^^ (Crc.parity (Crc.ofBits (bits m (8 * o) 32))
        ^^ Crc.parity (Crc.ofBits (bits m (8 * o + 32) (8 * n - 8 * o - 32))))) := by
    rw [← Crc.parity_ofBits_append, ← bits_add, ← Crc.parity_ofBits_append]
    have happ := bits_add m 0 (8 * o) (32 + (8 * n - 8 * o - 32))
    rw [Nat.zero_add] at happ
    rw [← happ, show 8 * o + (32 + (8 * n - 8 * o - 32)) = 8 * n by omega]
  have hsum : Crc.parity (m.read32 o) = (Crc.parity 0xffffffff ^^ Crc.parity (Crc.ofBits (bits (m.write32 o 0) 0 (8 * n)))) := by
    rw [h, calculateCrc32c_feed, Crc.parity_feed hodd]
  rw [hcut, bits_hash, bits_write32 m (Or.inl (by omega)), bits_write32 m (Or.inr (by omega)), Crc.parity_zero,
    Bool.false_xor] at hsum
  rw [hcut, ← parity_read32, hsum]
  generalize Crc.parity (Crc.ofBits (bits m 0 (8 * o))) = a
  generalize Crc.parity (Crc.ofBits (bits m (8 * o + 32) (8 * n - 8 * o - 32))) = b
  generalize Crc.parity 0xffffffff = c
  cases a <;> cases b <;> cases c <;> rfl

/-! ### Damage -/

/-- How many of the bits of `n` bytes differ. -/
def flipped (m m' : Mem) (n : Nat) : Nat := (List.range' 0 (8 * n)).countP fun i => bit m i != bit m' i

/-- A burst: `m'` differs from `m`, in 32 bits in a row at most, none of them in the hash. -/
structure Burst (o n : Nat) (m m' : Mem) : Prop where
  differs : ∃ k < n, m k ≠ m' k
  window : ∃ p, ∀ i < 8 * n, i < p ∨ p + 32 ≤ i → bit m i = bit m' i
  hash : ∀ k, o ≤ k → k < o + 4 → m k = m' k

/-- Damage that the check shows. -/
def Damaged (o n : Nat) (m m' : Mem) : Prop := flipped m m' n % 2 = 1 ∨ Burst o n m m'

theorem not_checked_of_damaged {o n : Nat} {m m' : Mem} (ho : o + 4 ≤ n) (hd : Damaged o n m m') (h : Checked o n m) :
    ¬ Checked o n m' := by
  intro h'
  rcases hd with hodd | hburst
  · have hpar := Crc.parity_diff (bit m) (bit m') (List.range' 0 (8 * n))
    rw [show Crc.parity (Crc.ofBits ((List.range' 0 (8 * n)).map (bit m))) = _ from parity_checked ho h,
      show Crc.parity (Crc.ofBits ((List.range' 0 (8 * n)).map (bit m'))) = _ from parity_checked ho h', Bool.xor_self] at hpar
    exact of_decide_eq_false hpar.symm hodd
  · obtain ⟨p, hwindow⟩ := hburst.window
    obtain ⟨k, hk, hne⟩ := hburst.differs
    have hread : m.read32 o = m'.read32 o := by
      simp only [Mem.read32, Mem.read16, hburst.hash o (by omega) (by omega), hburst.hash (o + 1) (by omega) (by omega),
        hburst.hash (o + 2) (by omega) (by omega), hburst.hash (o + 2 + 1) (by omega) (by omega)]
    have hzero : ∀ i < 8 * n, i < p ∨ p + 32 ≤ i → bit (m.write32 o 0) i = bit (m'.write32 o 0) i := by
      intro i hi hout
      have hbit := hwindow i hi hout
      unfold bit Mem.write32 at *
      split
      · rfl
      · exact hbit
    have hbytes := same_of_window hzero (h.symm.trans (hread.trans h')) k hk
    by_cases hin : o ≤ k ∧ k < o + 4
    · exact hne (hburst.hash k hin.1 hin.2)
    · unfold Mem.write32 at hbytes
      rw [if_neg hin, if_neg hin] at hbytes
      exact hne hbytes

/-- No inode, no group and no superblock that passes its check passes it again after damage,
unless the damage turns the check off. -/
theorem damage_refused :
    (∀ (fs : Ffs.Sb) (dip dip' : Mem), fs.metackhash &&& Ffs.CK_INODE ≠ 0 → dip.read16 0 ≠ 0 → dip'.read16 0 ≠ 0 →
      Damaged 244 256 dip dip' → Ffs.Reload.ffsVerifyDinodeCkhash fs dip = true →
        Ffs.Reload.ffsVerifyDinodeCkhash fs dip' = false)
    ∧ (∀ (fs : Ffs.CgFs) (cgx : Nat) (cg cg' : Mem), fs.ckCylgrp = true → Ffs.cgCkhashOff + 4 ≤ fs.fsCgsize →
      Damaged Ffs.cgCkhashOff fs.fsCgsize cg cg' → Ffs.cgget fs cgx cg = true → Ffs.cgget fs cgx cg' = false)
    ∧ ∀ fs fs' : Ffs.Sb, fs.metackhash &&& Ffs.CK_SUPERBLOCK ≠ 0 → fs'.metackhash &&& Ffs.CK_SUPERBLOCK ≠ 0 →
      fs'.sbsize = fs.sbsize → 1308 ≤ fs.sbsize → Damaged 1304 fs.sbsize.toNat fs fs' →
      Ffs.ffsCalcSbhash fs = fs.ckhash → Ffs.ffsCalcSbhash fs' ≠ fs'.ckhash := by
  refine ⟨?_, ?_, ?_⟩
  · intro fs dip dip' hck hmode hmode' hd hok
    have hchecked : Checked 244 256 dip := by
      simpa [Checked, Ffs.Reload.ffsVerifyDinodeCkhash, hck, hmode] using hok
    have hnot := not_checked_of_damaged (by decide) hd hchecked
    simpa [Checked, Ffs.Reload.ffsVerifyDinodeCkhash, hck, hmode'] using hnot
  · intro fs cgx cg cg' hck hsize hd hok
    have hchecked : Checked Ffs.cgCkhashOff fs.fsCgsize cg := by
      have h : cg.read32 Ffs.cgCkhashOff = Ffs.cgHash fs cg ∧ Ffs.CgNumbered cgx cg := by
        simpa [Ffs.cgget, hck, not_or] using hok
      exact h.1
    have hnot : cg'.read32 Ffs.cgCkhashOff ≠ Ffs.cgHash fs cg' := not_checked_of_damaged hsize hd hchecked
    simp [Ffs.cgget, hck, hnot]
  · intro fs fs' hck hck' hsize hlarge hd hok
    have hcalc : Ffs.ffsCalcSbhash fs = fs.crc := if_neg hck
    have hcalc' : Ffs.ffsCalcSbhash fs' = fs'.crc := if_neg hck'
    have hchecked : Checked 1304 fs.sbsize.toNat fs := hok.symm.trans hcalc
    have hnot := not_checked_of_damaged (by omega) hd hchecked
    rw [hcalc']
    intro hsame
    refine hnot ?_
    rw [← hsize]
    exact hsame.symm

/-- A memory with its hash. -/
theorem checked_write32 (m : Mem) (o n : Nat) :
    Checked o n (m.write32 o (Ffs.calculateCrc32c 0xffffffff ((m.write32 o 0).readBytes 0 n))) := by
  unfold Checked
  rw [Mem.read32_write32 (calculateCrc32c_lt _ (by decide)), Mem.write32_write32]

/-- One byte is another one. -/
theorem damaged_write8 {o n k : Nat} {m : Mem} {v : UInt8} (hk : k < n) (hout : k < o ∨ o + 4 ≤ k) (hne : m k ≠ v) :
    Damaged o n m (m.write8 k v) := by
  refine Or.inr ⟨⟨k, hk, ?_⟩, ⟨8 * k, fun i _ hi => ?_⟩, fun j hj hj' => ?_⟩
  · unfold Mem.write8
    rw [if_pos rfl]
    exact hne
  · unfold bit Mem.write8
    rw [if_neg (by omega)]
  · unfold Mem.write8
    rw [if_neg (by omega)]

/-- An inode with nothing but a mode, and its hash. -/
def plainDinode : Mem :=
  Mem.write32 (Mem.write16 (fun _ => 0) 0 0x81a4) 244
    (Ffs.calculateCrc32c 0xffffffff ((Mem.write32 (Mem.write16 (fun _ => 0) 0 0x81a4) 244 0).readBytes 0 256))

/-- A superblock with its size and its hash. -/
def plainSb : Ffs.Sb :=
  let fs : Mem := (Mem.write32 (fun _ => 0) 104 1376).write32 1308 Ffs.CK_SUPERBLOCK
  fs.write32 1304 (Ffs.calculateCrc32c 0xffffffff ((fs.write32 1304 0).readBytes 0 1376))

/-- The owner of the inode, the rotor of the group and the size of the superblock's blocks. -/
theorem damage_refused_plain :
    Ffs.Reload.ffsVerifyDinodeCkhash (Mem.write32 (fun _ => 0) 1308 4) (plainDinode.write8 4 1) = false
      ∧ Ffs.cgget smallFs 0 (smallCg.write8 48 1) = false
      ∧ Ffs.ffsCalcSbhash (plainSb.write8 48 1) ≠ Ffs.Sb.ckhash (plainSb.write8 48 1) := by
  obtain ⟨hinode, hgroup, hsuper⟩ := damage_refused
  refine ⟨?_, ?_, ?_⟩
  · refine hinode _ plainDinode _ (by decide) (by decide) (by decide)
      (damaged_write8 (by decide) (by decide) (by decide)) ?_
    have hchecked : Checked 244 256 plainDinode := checked_write32 ..
    unfold Checked at hchecked
    unfold Ffs.Reload.ffsVerifyDinodeCkhash
    rw [decide_eq_true hchecked, Bool.or_true]
  · exact hgroup smallFs 0 smallCg _ rfl (by decide) (damaged_write8 (by decide) (by decide) (by decide))
      ((cgget_iff rfl 0 smallCg).mpr ⟨smallCg_verifies, numbered_smallCg⟩)
  · have hchecked : Checked 1304 1376 plainSb := checked_write32 ..
    refine hsuper plainSb _ (by decide) (by decide) (by decide) (by decide)
      (damaged_write8 (by decide) (by decide) (by decide)) ?_
    have hcrc : Ffs.ffsCalcSbhash plainSb = plainSb.crc := if_neg (by decide)
    have hsize : plainSb.sbsize.toNat = 1376 := by decide
    rw [hcrc, Ffs.Sb.crc, hsize]
    exact hchecked.symm

end UfsX.Proofs.Crc32c
