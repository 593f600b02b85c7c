import Mathlib.Data.List.Basic
import Mathlib.Tactic.Ring

/-!
# `UfsX.Lib.Mem`: memory as bytes

A memory is a function from addresses to bytes. Numbers are little-endian. The
lemmas say what a read sees after a write: the value, where the two meet exactly,
and the old value, where they do not meet (`AgreeOn`). A read depends on the bytes
from its address on only, wherever they stand (`SameBytes`). `fill` copies pieces one
after the other.
-/

set_option autoImplicit false

namespace UfsX.Lib

abbrev Mem : Type := Nat → UInt8

namespace Mem

variable (m : Mem) (o : Nat)

def read16 : Nat := (m o).toNat + 256 * (m (o + 1)).toNat

def read32 : Nat := read16 m o + 65536 * read16 m (o + 2)

def read64 : Nat := read32 m o + 4294967296 * read32 m (o + 4)

def readBytes (n : Nat) : List UInt8 := (List.range n).map fun i => m (o + i)

/-- Byte `i` of a number. -/
def byteOf (v i : Nat) : UInt8 := UInt8.ofNat (v / 256 ^ i)

def write16 (v : Nat) : Mem := fun x =>
  if o ≤ x ∧ x < o + 2 then byteOf v (x - o) else m x

def write32 (v : Nat) : Mem := fun x =>
  if o ≤ x ∧ x < o + 4 then byteOf v (x - o) else m x

def write64 (v : Nat) : Mem := fun x =>
  if o ≤ x ∧ x < o + 8 then byteOf v (x - o) else m x

def write8 (v : UInt8) : Mem := fun x => if x = o then v else m x

/-- `n` bytes of `src` from `so` on go to address `o`. The bytes are read before they
are written, so that the two ranges may overlap. -/
def copy (src : Mem) (so n : Nat) : Mem := fun x =>
  if o ≤ x ∧ x < o + n then src (so + (x - o)) else m x

def zero (n : Nat) : Mem := fun x => if o ≤ x ∧ x < o + n then 0 else m x

end Mem

/-- `n` bytes are the same in two places. -/
def SameBytes (m : Mem) (o : Nat) (m' : Mem) (o' n : Nat) : Prop := ∀ i, i < n → m (o + i) = m' (o' + i)

namespace SameBytes

variable {m m' : Mem} {o o' n : Nat}

theorem read16 {i : Nat} (h : SameBytes m o m' o' n) (hi : i + 2 ≤ n) :
    Mem.read16 m (o + i) = Mem.read16 m' (o' + i) := by
  unfold Mem.read16
  rw [h i (by omega), Nat.add_assoc, h (i + 1) (by omega), Nat.add_assoc]

theorem read32 {i : Nat} (h : SameBytes m o m' o' n) (hi : i + 4 ≤ n) :
    Mem.read32 m (o + i) = Mem.read32 m' (o' + i) := by
  unfold Mem.read32
  rw [h.read16 (by omega), Nat.add_assoc, h.read16 (by omega), Nat.add_assoc]

theorem read64 {i : Nat} (h : SameBytes m o m' o' n) (hi : i + 8 ≤ n) :
    Mem.read64 m (o + i) = Mem.read64 m' (o' + i) := by
  unfold Mem.read64
  rw [h.read32 (by omega), Nat.add_assoc, h.read32 (by omega), Nat.add_assoc]

theorem readBytes {i k : Nat} (h : SameBytes m o m' o' n) (hi : i + k ≤ n) :
    Mem.readBytes m (o + i) k = Mem.readBytes m' (o' + i) k := by
  refine List.map_congr_left fun j hj => ?_
  have hlt := List.mem_range.mp hj
  rw [Nat.add_assoc, h (i + j) (by omega), Nat.add_assoc]

end SameBytes

/-- Two memories agree between two addresses. -/
def AgreeOn (m m' : Mem) (lo hi : Nat) : Prop := ∀ x, lo ≤ x → x < hi → m x = m' x

namespace AgreeOn

variable {m m' m'' : Mem} {lo hi : Nat}

theorem symm (h : AgreeOn m m' lo hi) : AgreeOn m' m lo hi := fun x hlo hhi => (h x hlo hhi).symm

theorem trans (h : AgreeOn m m' lo hi) (h' : AgreeOn m' m'' lo hi) : AgreeOn m m'' lo hi :=
  fun x hlo hhi => (h x hlo hhi).trans (h' x hlo hhi)

theorem mono {lo' hi' : Nat} (h : AgreeOn m m' lo hi) (hlo : lo ≤ lo') (hhi : hi' ≤ hi) :
    AgreeOn m m' lo' hi' := fun x h₁ h₂ => h x (by omega) (by omega)

theorem sameBytes {o n : Nat} (h : AgreeOn m m' lo hi) (hlo : lo ≤ o) (hhi : o + n ≤ hi) :
    SameBytes m o m' o n := fun i hi' => h (o + i) (by omega) (by omega)

end AgreeOn

/-- A range of bytes: where it starts, and its length. -/
abbrev Span : Type := Nat × Nat

/-- `x` is in none of the ranges. -/
def Outside (rs : List Span) (x : Nat) : Prop := ∀ r ∈ rs, x < r.1 ∨ r.1 + r.2 ≤ x

/-- `n` bytes from `o` on meet none of the ranges. -/
def Clear (rs : List Span) (o n : Nat) : Prop := ∀ r ∈ rs, o + n ≤ r.1 ∨ r.1 + r.2 ≤ o

instance (rs : List Span) (o n : Nat) : Decidable (Clear rs o n) := inferInstanceAs (Decidable (∀ r ∈ rs, _))

theorem Clear.outside {rs : List Span} {o n x : Nat} (hc : Clear rs o n) (hlo : o ≤ x) (hhi : x < o + n) :
    Outside rs x := by
  intro r hr
  have hr := hc r hr
  omega

/-- Two memories agree outside some ranges. -/
def AgreeOff (rs : List Span) (m m' : Mem) : Prop := ∀ x, Outside rs x → m x = m' x

namespace AgreeOff

variable {m m' m'' : Mem} {rs rs' : List Span} {o n : Nat}

theorem refl (rs : List Span) (m : Mem) : AgreeOff rs m m := fun _ _ => rfl

theorem symm (h : AgreeOff rs m m') : AgreeOff rs m' m := fun x hx => (h x hx).symm

theorem trans (h : AgreeOff rs m m') (h' : AgreeOff rs m' m'') : AgreeOff rs m m'' :=
  fun x hx => (h x hx).trans (h' x hx)

theorem mono (h : AgreeOff rs m m') (hsub : rs ⊆ rs') : AgreeOff rs' m m' :=
  fun x hx => h x fun r hr => hx r (hsub hr)

theorem sameBytes (h : AgreeOff rs m m') (hc : Clear rs o n) : SameBytes m o m' o n := by
  intro i hi
  refine h (o + i) fun r hr => ?_
  have hr := hc r hr
  omega

theorem read32 (h : AgreeOff rs m m') (hc : Clear rs o 4) : Mem.read32 m o = Mem.read32 m' o :=
  (h.sameBytes hc).read32 (Nat.le_refl 4)

theorem read64 (h : AgreeOff rs m m') (hc : Clear rs o 8) : Mem.read64 m o = Mem.read64 m' o :=
  (h.sameBytes hc).read64 (Nat.le_refl 8)

theorem byte (h : AgreeOff rs m m') (hc : Clear rs o 1) : m o = m' o := h.sameBytes hc 0 (by decide)

end AgreeOff

namespace Mem

variable {m : Mem} {o lo hi : Nat}

section Write

variable {rs : List Span}

theorem agreeOff_write8 (v : UInt8) (h : (o, 1) ∈ rs) : AgreeOff rs (write8 m o v) m := by
  intro x hx
  have hr := hx _ h
  unfold write8
  rw [if_neg (by omega)]

theorem agreeOff_write32 (v : Nat) (h : (o, 4) ∈ rs) : AgreeOff rs (write32 m o v) m := by
  intro x hx
  have hr := hx _ h
  unfold write32
  rw [if_neg (by omega)]

theorem agreeOff_write64 (v : Nat) (h : (o, 8) ∈ rs) : AgreeOff rs (write64 m o v) m := by
  intro x hx
  have hr := hx _ h
  unfold write64
  rw [if_neg (by omega)]

end Write

/-- Two pieces, one behind the other, are copied as one. -/
theorem copy_copy (src : Mem) (so n k : Nat) :
    copy (copy m o src so n) (o + n) src (so + n) k = copy m o src so (n + k) := by
  funext x
  unfold copy
  by_cases hlo : o ≤ x ∧ x < o + n
  · rw [if_neg (by omega), if_pos hlo, if_pos (by omega)]
  · by_cases hhi : o + n ≤ x ∧ x < o + n + k
    · rw [if_pos hhi, if_pos (by omega)]
      congr 1
      omega
    · rw [if_neg hhi, if_neg hlo, if_neg (by omega)]

/-- Where the source starts is the same as where it is read from. -/
theorem copy_shift (src : Mem) (so n : Nat) : copy m o (fun x => src (so + x)) 0 n = copy m o src so n := by
  funext x
  unfold copy
  rw [Nat.zero_add]

theorem copy_zero (src : Mem) (so : Nat) : copy m o src so 0 = m := by
  funext x
  unfold copy
  rw [if_neg (by omega)]

theorem agreeOn_write8 (v : UInt8) (h : hi ≤ o ∨ o + 1 ≤ lo) : AgreeOn (write8 m o v) m lo hi := by
  intro x hlo hhi
  unfold write8
  rw [if_neg (by omega)]

theorem agreeOn_write16 (v : Nat) (h : hi ≤ o ∨ o + 2 ≤ lo) : AgreeOn (write16 m o v) m lo hi := by
  intro x hlo hhi
  unfold write16
  rw [if_neg (by omega)]

theorem agreeOn_write32 (v : Nat) (h : hi ≤ o ∨ o + 4 ≤ lo) : AgreeOn (write32 m o v) m lo hi := by
  intro x hlo hhi
  unfold write32
  rw [if_neg (by omega)]

theorem agreeOn_copy (src : Mem) (so n : Nat) (h : hi ≤ o ∨ o + n ≤ lo) :
    AgreeOn (copy m o src so n) m lo hi := by
  intro x hlo hhi
  unfold copy
  rw [if_neg (by omega)]

theorem agreeOn_zero (n : Nat) (h : hi ≤ o ∨ o + n ≤ lo) : AgreeOn (zero m o n) m lo hi := by
  intro x hlo hhi
  unfold zero
  rw [if_neg (by omega)]

/-- What was copied is there. -/
theorem sameBytes_copy (src : Mem) (so n : Nat) : SameBytes (copy m o src so n) o src so n := by
  intro i hi
  unfold copy
  rw [if_pos (by omega), Nat.add_sub_cancel_left]

theorem read16_bytes {v : Nat} (h : v < 65536) (h₀ : m o = byteOf v 0) (h₁ : m (o + 1) = byteOf v 1) :
    read16 m o = v := by
  unfold read16
  rw [h₀, h₁]
  simp only [byteOf, UInt8.toNat_ofNat']
  omega

theorem read16_write16 {v : Nat} (h : v < 65536) : read16 (write16 m o v) o = v := by
  refine read16_bytes h ?_ ?_
  · unfold write16
    rw [if_pos (by omega), Nat.sub_self]
  · unfold write16
    rw [if_pos (by omega), Nat.add_sub_cancel_left]

theorem read32_bytes {v : Nat} (h : v < 4294967296)
    (hb : ∀ i, i < 4 → m (o + i) = byteOf v i) : read32 m o = v := by
  unfold read32 read16
  have h₀ := hb 0 (by omega)
  have h₁ := hb 1 (by omega)
  have h₂ := hb 2 (by omega)
  have h₃ := hb 3 (by omega)
  rw [Nat.add_zero] at h₀
  rw [h₀, h₁, h₂, show o + 2 + 1 = o + 3 from rfl, h₃]
  simp only [byteOf, UInt8.toNat_ofNat']
  omega

theorem read32_write32 {v : Nat} (h : v < 4294967296) : read32 (write32 m o v) o = v := by
  refine read32_bytes h fun i hi => ?_
  unfold write32
  rw [if_pos (by omega), Nat.add_sub_cancel_left]

theorem read32_lt (m : Mem) (o : Nat) : read32 m o < 4294967296 := by
  have h₀ := (m o).toNat_lt
  have h₁ := (m (o + 1)).toNat_lt
  have h₂ := (m (o + 2)).toNat_lt
  have h₃ := (m (o + 2 + 1)).toNat_lt
  unfold read32 read16
  omega

theorem byteOf_read32 (m : Mem) (o : Nat) {i : Nat} (hi : i < 4) : byteOf (read32 m o) i = m (o + i) := by
  have h₀ := (m o).toNat_lt
  have h₁ := (m (o + 1)).toNat_lt
  have h₂ := (m (o + 2)).toNat_lt
  have h₃ := (m (o + 2 + 1)).toNat_lt
  refine UInt8.toNat_inj.mp ?_
  unfold byteOf read32 read16
  rw [UInt8.toNat_ofNat']
  rcases (by omega : i = 0 ∨ i = 1 ∨ i = 2 ∨ i = 3) with rfl | rfl | rfl | rfl
  · rw [Nat.pow_zero, Nat.div_one]
    show _ = (m o).toNat
    omega
  · omega
  · omega
  · rw [show o + 3 = o + 2 + 1 from rfl]
    omega

theorem byteOf_low {v i : Nat} (hi : i < 4) : byteOf (v % 4294967296) i = byteOf v i := by
  refine UInt8.toNat_inj.mp ?_
  unfold byteOf
  rw [UInt8.toNat_ofNat', UInt8.toNat_ofNat']
  rcases (by omega : i = 0 ∨ i = 1 ∨ i = 2 ∨ i = 3) with rfl | rfl | rfl | rfl
  all_goals omega

theorem byteOf_high (v i : Nat) : byteOf (v / 4294967296) i = byteOf v (4 + i) := by
  unfold byteOf
  rw [Nat.div_div_eq_div_mul, Nat.pow_add]

theorem read64_write64 {v : Nat} (h : v < 2 ^ 64) : read64 (write64 m o v) o = v := by
  have hlow : read32 (write64 m o v) o = v % 4294967296 := by
    refine read32_bytes (Nat.mod_lt _ (by decide)) fun i hi => ?_
    unfold write64
    rw [if_pos (by omega), Nat.add_sub_cancel_left, byteOf_low hi]
  have hhigh : read32 (write64 m o v) (o + 4) = v / 4294967296 := by
    refine read32_bytes (by omega) fun i hi => ?_
    unfold write64
    rw [if_pos (by omega), byteOf_high, show o + 4 + i - o = 4 + i by omega]
  rw [read64, hlow, hhigh]
  omega

theorem write32_write32 (m : Mem) (o v w : Nat) : write32 (write32 m o v) o w = write32 m o w := by
  funext x
  unfold write32
  split <;> rfl

/-- Writing what is there changes nothing. -/
theorem write32_read32 (m : Mem) (o : Nat) : write32 m o (read32 m o) = m := by
  funext x
  unfold write32
  split
  case isTrue h =>
    rw [byteOf_read32 m o (by omega), Nat.add_sub_cancel' h.1]
  case isFalse => rfl

/-- Equal numbers have equal bytes. -/
theorem byte_of_read32 {m m' : Mem} {o o' i : Nat} (h : read32 m o = read32 m' o') (hi : i < 4) :
    m (o + i) = m' (o' + i) := by
  rw [← byteOf_read32 m o hi, h, byteOf_read32 m' o' hi]

theorem byte_of_read64 {m m' : Mem} {o o' i : Nat} (h : read64 m o = read64 m' o') (hi : i < 8) :
    m (o + i) = m' (o' + i) := by
  have hb := read32_lt m o
  have hb' := read32_lt m' o'
  simp only [read64] at h
  by_cases hlow : i < 4
  · exact byte_of_read32 (by omega) hlow
  · have hhigh : m (o + 4 + (i - 4)) = m' (o' + 4 + (i - 4)) := byte_of_read32 (by omega) (by omega)
    rwa [Nat.add_assoc, Nat.add_assoc, show 4 + (i - 4) = i by omega] at hhigh

/-! ### Pieces one after the other -/

variable {ι : Type*}

/-- The pieces `is` are copied one after the other, from `space` on. -/
def fill (src : ι → Mem) (size : ι → Nat) : List ι → Nat → Mem → Mem
  | [], _, m => m
  | i :: is, space, m => fill src size is (space + size i) (m.copy space (src i) 0 (size i))

variable {src src' : ι → Mem} {size : ι → Nat}

/-- What lies before the first piece stays. -/
theorem fill_below (is : List ι) : ∀ {space x : Nat} {m : Mem}, x < space → fill src size is space m x = m x := by
  induction is with
  | nil => exact fun _ => rfl
  | cons i is ih =>
      intro space x m hx
      rw [fill, ih (by omega)]
      unfold copy
      rw [if_neg (by omega)]

/-- The copies are equal exactly when the pieces are. -/
theorem fill_eq_iff (is : List ι) : ∀ (space : Nat) (m m' : Mem),
    AgreeOn (fill src size is space m) (fill src' size is space m') space (space + (is.map size).sum) ↔
      ∀ i ∈ is, SameBytes (src i) 0 (src' i) 0 (size i) := by
  induction is with
  | nil =>
      intro space m m'
      refine iff_of_true (fun x hlo hhi => ?_) (fun _ hi => absurd hi List.not_mem_nil)
      simp only [List.map_nil, List.sum_nil] at hhi
      omega
  | cons i is ih =>
      intro space m m'
      rw [List.map_cons, List.sum_cons, List.forall_mem_cons,
        ← ih (space + size i) (m.copy space (src i) 0 (size i)) (m'.copy space (src' i) 0 (size i))]
      have hhead : ∀ k, k < size i → ∀ (s : ι → Mem) (n : Mem),
          fill s size (i :: is) space n (space + k) = s i (0 + k) := by
        intro k hk s n
        rw [fill, fill_below is (by omega)]
        exact sameBytes_copy (s i) 0 (size i) k hk
      constructor
      · intro h
        refine ⟨fun k hk => ?_, fun x hlo hhi => h x (by omega) (by omega)⟩
        rw [← hhead k hk src m, ← hhead k hk src' m']
        exact h (space + k) (by omega) (by omega)
      · rintro ⟨hi, his⟩ x hlo hhi
        by_cases hx : x < space + size i
        · have heq : space + (x - space) = x := by omega
          rw [← heq, hhead _ (by omega), hhead _ (by omega)]
          exact hi _ (by omega)
        · exact his x (by omega) (by omega)

end Mem

end UfsX.Lib
