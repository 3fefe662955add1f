import Mathlib.Data.Nat.Bitwise
import Slung.Lib.Bloom

/-!
# Slung.Primitives.Bloom — the filter on its bytes (`primitives/bloom.zig`, `primitives/bitmap.zig`)

The bits of a filter lie in an array of bytes, eight to a byte.  Read through `get`, the array is the mask of
`Lib.Bloom` (`BloomImpl.mask_init`, `mask_insert`, `contains_eq`).
-/

namespace Slung

variable {size : ℕ}

namespace Bitmap

/-- `byte_size`: the bytes for `size` bits. -/
def byteSize (size : ℕ) : ℕ := if size % 8 = 0 then size / 8 else size / 8 + 1

theorem div_lt_byteSize {index : ℕ} (h : index < size) : index / 8 < byteSize size := by
  unfold byteSize
  split_ifs with hsize <;> omega

/-- The bit of an index in its byte. -/
def bit (index : ℕ) : UInt8 := 1 <<< UInt8.ofNat (index % 8)

end Bitmap

/-- The committed bits of a bitmap. -/
structure Bitmap (size : ℕ) where
  bits : Vector UInt8 (Bitmap.byteSize size)

namespace Bitmap

def init : Bitmap size := ⟨Vector.replicate _ 0⟩

/-- Get the bit at the given index. -/
def get (self : Bitmap size) (index : ℕ) : Bool :=
  if h : index < size then
    have := div_lt_byteSize h
    self.bits[index / 8] &&& bit index != 0
  else false

/-- Set the bit at the given index. -/
def setDirect (self : Bitmap size) (index : ℕ) : Bitmap size :=
  if h : index < size then
    have := div_lt_byteSize h
    ⟨self.bits.set (index / 8) (self.bits[index / 8] ||| bit index)⟩
  else self

theorem toNat_bit (index : ℕ) : (bit index).toNat = 2 ^ (index % 8) := by
  have h : ∀ i < 8, ((1 : UInt8) <<< UInt8.ofNat i).toNat = 2 ^ i := by decide
  exact h (index % 8) (Nat.mod_lt _ (by decide))

/-- Masking with a bit tests it. -/
theorem and_bit (byte : UInt8) (index : ℕ) : (byte &&& bit index != 0) = byte.toNat.testBit (index % 8) := by
  have hand : (byte &&& bit index).toNat = (byte.toNat.testBit (index % 8)).toNat * 2 ^ (index % 8) := by
    rw [UInt8.toNat_and, toNat_bit, Nat.and_two_pow]
  have hzero : byte &&& bit index = 0 ↔ (byte &&& bit index).toNat = 0 := by
    rw [← UInt8.toNat_inj]
    rfl
  cases htest : byte.toNat.testBit (index % 8) with
  | false =>
    rw [htest, Bool.toNat_false, Nat.zero_mul] at hand
    rw [hzero.mpr hand]
    rfl
  | true =>
    rw [htest, Bool.toNat_true, Nat.one_mul] at hand
    have hne : byte &&& bit index ≠ 0 := fun h => by
      have hpos : 0 < 2 ^ (index % 8) := Nat.two_pow_pos _
      rw [hzero.mp h] at hand
      omega
    exact bne_iff_ne.mpr hne

@[simp] theorem get_init (index : ℕ) : (init : Bitmap size).get index = false := by
  unfold get init
  split_ifs
  · simp
  · rfl

/-- **Setting a bit sets this bit and no other.** -/
theorem get_setDirect (self : Bitmap size) {index : ℕ} (h : index < size) (i : ℕ) :
    (self.setDirect index).get i = (decide (i = index) || self.get i) := by
  unfold get setDirect
  rw [dif_pos h]
  by_cases hi : i < size
  · rw [dif_pos hi, dif_pos hi, and_bit, and_bit, Vector.getElem_set]
    by_cases hbyte : index / 8 = i / 8
    · rw [if_pos hbyte, UInt8.toNat_or, Nat.testBit_or, toNat_bit, Nat.testBit_two_pow]
      simp only [hbyte]
      have hsame : index % 8 = i % 8 ↔ i = index := by omega
      rw [Bool.or_comm, decide_eq_decide.mpr hsame]
    · have hne : i ≠ index := fun heq => hbyte (by rw [heq])
      rw [if_neg hbyte, decide_eq_false hne, Bool.false_or]
  · have hne : i ≠ index := fun heq => hi (heq ▸ h)
    rw [dif_neg hi, dif_neg hi, decide_eq_false hne, Bool.false_or]

end Bitmap

/-- A filter with a fixed size and a single hash function. -/
structure BloomImpl (size : ℕ) where
  mask : Bitmap size

namespace BloomImpl

variable {α : Type} (hash : α → ℕ)

def init : BloomImpl size := ⟨Bitmap.init⟩

/-- The index of a hash: a mask where the size is a power of two, a remainder else. -/
def index (size hashValue : ℕ) : ℕ := if size.isPowerOfTwo then hashValue &&& (size - 1) else hashValue % size

def insert (self : BloomImpl size) (value : α) : BloomImpl size :=
  ⟨self.mask.setDirect (index size (hash value))⟩

def contains (self : BloomImpl size) (value : α) : Bool := self.mask.get (index size (hash value))

/-- Reset the bloom filter (clear all bits). -/
def reset (_self : BloomImpl size) : BloomImpl size := ⟨⟨Vector.replicate _ 0⟩⟩

theorem index_eq (size hashValue : ℕ) : index size hashValue = hashValue % size := by
  unfold index
  split_ifs with hpow
  · obtain ⟨k, rfl⟩ := hpow
    exact Nat.and_two_pow_sub_one_eq_mod hashValue k
  · rfl

/-- What the bytes say. -/
def abstract (self : BloomImpl size) : Lib.Bloom size := ⟨self.mask.get⟩

theorem abstract_init : (init : BloomImpl size).abstract = Lib.Bloom.init :=
  congrArg Lib.Bloom.mk (funext Bitmap.get_init)

theorem abstract_reset (self : BloomImpl size) : self.reset.abstract = self.abstract.reset := abstract_init

theorem abstract_insert (self : BloomImpl size) (hsize : 0 < size) (value : α) :
    (self.insert hash value).abstract = self.abstract.insert hash value := by
  refine congrArg Lib.Bloom.mk (funext fun i => ?_)
  simp only [insert, index_eq, abstract]
  rw [Bitmap.get_setDirect self.mask (Nat.mod_lt _ hsize), Function.update_apply]
  by_cases hi : i = hash value % size
  · rw [if_pos hi, decide_eq_true hi, Bool.true_or]
  · rw [if_neg hi, decide_eq_false hi, Bool.false_or]

/-- **The bytes answer as the mask does.** -/
theorem contains_abstract (self : BloomImpl size) (value : α) :
    self.contains hash value = self.abstract.contains hash value := by
  unfold contains
  rw [index_eq]
  rfl

/-- The same insertions give the same filter. -/
theorem abstract_foldl_insert (hsize : 0 < size) (values : List α) (self : BloomImpl size) :
    (values.foldl (insert hash) self).abstract = values.foldl (Lib.Bloom.insert hash) self.abstract := by
  induction values generalizing self with
  | nil => rfl
  | cons value values ih => rw [List.foldl_cons, List.foldl_cons, ih, abstract_insert hash self hsize]

end BloomImpl

end Slung
