import Slung.Lib.ByteBits
import Slung.Lib.Machine
import Slung.Primitives.Bloom

/-!
# Slung.Primitives.Bitmap — staged writes and counts (`primitives/bitmap.zig`)

The whole bitmap: the committed bits, the dirty bits that writes go to, and the counts.  Reads mask the bits of
the last byte that lie beyond the size, and the counts do not.  They are right as long as none of these is set;
`setNot` sets them, and so does the commit of a `setAll`.  `counts_iff` says so for any number of bitmaps.
-/

namespace Slung

open Slung.Lib

variable {size : ℕ}

structure BitmapImpl (size : ℕ) where
  bits : Vector UInt8 (Bitmap.byteSize size)
  dirtyBits : Vector UInt8 (Bitmap.byteSize size)

namespace BitmapImpl

open Bitmap

def init : BitmapImpl size := ⟨Vector.replicate _ 0, Vector.replicate _ 0⟩

/-- What reads see. -/
def committed (self : BitmapImpl size) : Bitmap size := ⟨self.bits⟩

/-! ### Write operations -/

/-- Set the bit at the given index to 1. -/
def set (self : BitmapImpl size) (index : ℕ) : BitmapImpl size :=
  if h : index < size then
    have := div_lt_byteSize h
    { self with dirtyBits := self.dirtyBits.set (index / 8) (self.dirtyBits[index / 8] ||| bit index) }
  else self

/-- Clear the bit at the given index to 0. -/
def clear (self : BitmapImpl size) (index : ℕ) : BitmapImpl size :=
  if h : index < size then
    have := div_lt_byteSize h
    { self with dirtyBits := self.dirtyBits.set (index / 8) (self.dirtyBits[index / 8] &&& ~~~bit index) }
  else self

def get (self : BitmapImpl size) (index : ℕ) : Bool := self.committed.get index

def setDirect (self : BitmapImpl size) (index : ℕ) : BitmapImpl size :=
  { self with bits := (self.committed.setDirect index).bits }

def clearDirect (self : BitmapImpl size) (index : ℕ) : BitmapImpl size :=
  if h : index < size then
    have := div_lt_byteSize h
    { self with bits := self.bits.set (index / 8) (self.bits[index / 8] &&& ~~~bit index) }
  else self

/-- Set all bits to 1. -/
def setAll (self : BitmapImpl size) : BitmapImpl size := { self with dirtyBits := Vector.replicate _ 0xff }

def setRange (self : BitmapImpl size) (start stop : ℕ) : BitmapImpl size :=
  if start > stop ∨ stop ≥ size then self else (List.range' start (stop + 1 - start)).foldl set self

/-- Clear all bits to 0. -/
def clearAll (self : BitmapImpl size) : BitmapImpl size := { self with dirtyBits := Vector.replicate _ 0 }

def clearRange (self : BitmapImpl size) (start stop : ℕ) : BitmapImpl size :=
  if start > stop ∨ stop ≥ size then self else (List.range' start (stop + 1 - start)).foldl clear self

/-- Commit the dirty bits to the bits array. -/
def commit (self : BitmapImpl size) : BitmapImpl size := clearAll { self with bits := self.dirtyBits }

/-- Prepares the bitmap for write operations. -/
def prepare (self : BitmapImpl size) : BitmapImpl size := { self with dirtyBits := self.bits }

/-! ### Counts -/

/-- Get the number of set bits in the bitmap. -/
def countBitsSet (self : BitmapImpl size) : ℕ := countOnes self.bits

/-- Get the number of cleared bits in the bitmap; `none` when the subtraction underflows. -/
def countBitsClear (self : BitmapImpl size) : Option ℕ :=
  if self.countBitsSet ≤ size then some (size - self.countBitsSet) else none

/-! ### Bitwise operations -/

/-- A bitwise operation with another bitmap, byte by byte. -/
def setWith (f : UInt8 → UInt8 → UInt8) (self other : BitmapImpl size) : BitmapImpl size :=
  { self with bits := self.bits.zipWith f other.bits }

def setAnd (self other : BitmapImpl size) : BitmapImpl size := setWith (fun bit bit' => bit &&& bit') self other

def setOr (self other : BitmapImpl size) : BitmapImpl size := setWith (fun bit bit' => bit ||| bit') self other

def setXor (self other : BitmapImpl size) : BitmapImpl size := setWith (fun bit bit' => bit ^^^ bit') self other

def setNot (self : BitmapImpl size) : BitmapImpl size := { self with bits := self.bits.map fun bit => ~~~bit }

def setAndNot (self other : BitmapImpl size) : BitmapImpl size := setWith (fun bit bit' => bit &&& ~~~bit') self other

/-- The counts are those of the bits that reads see. -/
structure CountsBits (bitmap : BitmapImpl size) : Prop where
  set : bitmap.countBitsSet = (List.range size).countP bitmap.get
  clear : bitmap.countBitsClear = some ((List.range size).countP fun i => !bitmap.get i)

/-- No bit is set beyond the size. -/
def Clean (size : ℕ) (bits : Vector UInt8 (byteSize size)) : Prop := ∀ i, size ≤ i → bitAt bits i = false

/-! ### What reads and counts see -/

theorem size_le_bytes (size : ℕ) : size ≤ 8 * byteSize size := by
  unfold byteSize
  split_ifs with h <;> omega

variable (self other : BitmapImpl size)

theorem get_of_lt {i : ℕ} (h : i < size) : self.get i = bitAt self.bits i := by
  unfold get Bitmap.get
  rw [dif_pos h, and_bit, bitAt_of_lt (div_lt_byteSize h)]
  rfl

/-- **The counts are right iff no bit is set beyond the size.** -/
theorem countsBits_iff : self.CountsBits ↔ Clean size self.bits := by
  have hget : (List.range size).countP self.get = (List.range size).countP (bitAt self.bits) := by
    refine List.countP_congr fun i hi => ?_
    rw [self.get_of_lt (List.mem_range.mp hi)]
  have hset : self.countBitsSet = (List.range size).countP self.get ↔ Clean size self.bits := by
    rw [hget]
    exact countOnes_eq_iff (size_le_bytes size)
  refine ⟨fun h => hset.mp h.set, fun h => ⟨hset.mpr h, ?_⟩⟩
  -- every index is one or the other
  have hall := List.length_eq_countP_add_countP self.get (l := List.range size)
  have hnot : (List.range size).countP (fun i => decide ¬self.get i = true) =
      (List.range size).countP fun i => !self.get i := by
    refine List.countP_congr fun i _ => ?_
    simp
  rw [List.length_range, hnot] at hall
  have hle : self.countBitsSet ≤ size := by
    rw [hset.mpr h]
    omega
  unfold countBitsClear
  rw [if_pos hle, hset.mpr h]
  exact congrArg some (by omega)

/-- Where the size fills its bytes there is no bit beyond it. -/
theorem clean_of_mod (h : size % 8 = 0) (bits : Vector UInt8 (byteSize size)) : Clean size bits := by
  intro i hi
  refine bitAt_of_not_lt ?_
  unfold byteSize
  rw [if_pos h]
  omega

theorem not_clean {bits : Vector UInt8 (byteSize size)} (h : bitAt bits size = true) : ¬ Clean size bits :=
  fun hclean => Bool.false_ne_true ((hclean size (Nat.le_refl _)).symm.trans h)

/-! ### One operation -/

theorem testBit_not (a : UInt8) (k : ℕ) (h : k < 8) : (~~~a).toNat.testBit k = !a.toNat.testBit k := by
  show (~~~a).toBitVec.toNat.testBit k = !a.toBitVec.toNat.testBit k
  rw [UInt8.toBitVec_not, BitVec.testBit_toNat, BitVec.testBit_toNat, BitVec.getLsbD_not, decide_eq_true h,
    Bool.true_and]

theorem testBit_bit (j k : ℕ) : (bit j).toNat.testBit k = decide (j % 8 = k) := by
  rw [toNat_bit, Nat.testBit_two_pow]

theorem clean_init : Clean size (init : BitmapImpl size).bits := fun _ _ => bitAt_zero

/-- A byte is changed in the bit of an index below the size. -/
theorem Clean.set {bits : Vector UInt8 (byteSize size)} (h : Clean size bits) {index : ℕ} (hindex : index < size)
    {byte : UInt8} {b : Bool} (hbyte : ∀ k < 8, byte.toNat.testBit k =
      if k = index % 8 then b else (bits.get ⟨index / 8, div_lt_byteSize hindex⟩).toNat.testBit k) :
    Clean size (bits.set (index / 8) byte (div_lt_byteSize hindex)) := by
  intro i hi
  rw [bitAt_set (div_lt_byteSize hindex) hbyte, if_neg (by omega)]
  exact h i hi

variable {self other : BitmapImpl size}

theorem Clean.setDirect (h : Clean size self.bits) (index : ℕ) : Clean size (self.setDirect index).bits := by
  show Clean size (Bitmap.setDirect ⟨self.bits⟩ index).bits
  unfold Bitmap.setDirect
  split_ifs with hindex
  · refine h.set (b := true) hindex fun k _ => ?_
    rw [UInt8.toNat_or, Nat.testBit_or, testBit_bit]
    split_ifs with hk
    · rw [decide_eq_true hk.symm, Bool.or_true]
    · rw [decide_eq_false (Ne.symm hk), Bool.or_false]
      rfl
  · exact h

theorem Clean.clearDirect (h : Clean size self.bits) (index : ℕ) : Clean size (self.clearDirect index).bits := by
  unfold BitmapImpl.clearDirect
  split_ifs with hindex
  · refine h.set (b := false) hindex fun k hk => ?_
    rw [UInt8.toNat_and, Nat.testBit_and, testBit_not _ k hk, testBit_bit]
    split_ifs with hsame
    · rw [decide_eq_true hsame.symm, Bool.not_true, Bool.and_false]
    · rw [decide_eq_false (Ne.symm hsame), Bool.not_false, Bool.and_true]
      rfl
  · exact h

/-- An operation that makes no bit out of none. -/
theorem Clean.setWith {f : UInt8 → UInt8 → UInt8} {g : Bool → Bool → Bool} (h : Clean size self.bits)
    (h' : Clean size other.bits)
    (hf : ∀ a b : UInt8, ∀ k < 8, (f a b).toNat.testBit k = g (a.toNat.testBit k) (b.toNat.testBit k))
    (hg : g false false = false) : Clean size (setWith f self other).bits := by
  intro i hi
  show bitAt (self.bits.zipWith f other.bits) i = false
  rw [bitAt_zipWith hf hg, h i hi, h' i hi, hg]

theorem Clean.setAnd (h : Clean size self.bits) (h' : Clean size other.bits) : Clean size (setAnd self other).bits :=
  h.setWith h' (fun a b k _ => by rw [UInt8.toNat_and, Nat.testBit_and]) (Bool.and_self false)

theorem Clean.setOr (h : Clean size self.bits) (h' : Clean size other.bits) : Clean size (setOr self other).bits :=
  h.setWith h' (fun a b k _ => by rw [UInt8.toNat_or, Nat.testBit_or]) (Bool.or_self false)

theorem Clean.setXor (h : Clean size self.bits) (h' : Clean size other.bits) : Clean size (setXor self other).bits :=
  h.setWith h' (fun a b k _ => by rw [UInt8.toNat_xor, Nat.testBit_xor]) (Bool.xor_self false)

theorem Clean.setAndNot (h : Clean size self.bits) (h' : Clean size other.bits) :
    Clean size (setAndNot self other).bits :=
  h.setWith (g := fun b b' => b && !b') h'
    (fun a b k hk => by rw [UInt8.toNat_and, Nat.testBit_and, testBit_not b k hk]) (Bool.false_and _)

/-- **A complement is clean only where the size fills its bytes.** -/
theorem clean_setNot_iff (h : Clean size self.bits) : Clean size self.setNot.bits ↔ size % 8 = 0 := by
  refine ⟨fun hnot => ?_, fun hmod => clean_of_mod hmod _⟩
  by_contra hmod
  have hlast : size / 8 < byteSize size := by
    unfold byteSize
    rw [if_neg hmod]
    exact Nat.lt_succ_self _
  have hset : bitAt self.setNot.bits size = !bitAt self.bits size := bitAt_map testBit_not hlast
  rw [h size (Nat.le_refl _)] at hset
  exact not_clean hset hnot

/-- Staged writes leave the committed bits alone. -/
@[simp] theorem bits_set (index : ℕ) : (self.set index).bits = self.bits := by
  unfold BitmapImpl.set
  split_ifs <;> rfl

@[simp] theorem bits_clear (index : ℕ) : (self.clear index).bits = self.bits := by
  unfold BitmapImpl.clear
  split_ifs <;> rfl

theorem bits_foldl {f : BitmapImpl size → ℕ → BitmapImpl size} (hf : ∀ self i, (f self i).bits = self.bits)
    (indices : List ℕ) (self : BitmapImpl size) : (indices.foldl f self).bits = self.bits := by
  induction indices generalizing self with
  | nil => rfl
  | cons i indices ih => exact (ih _).trans (hf self i)

@[simp] theorem bits_setRange (start stop : ℕ) : (self.setRange start stop).bits = self.bits := by
  unfold setRange
  split_ifs
  · rfl
  · exact bits_foldl (fun self i => self.bits_set i) _ self

@[simp] theorem bits_clearRange (start stop : ℕ) : (self.clearRange start stop).bits = self.bits := by
  unfold clearRange
  split_ifs
  · rfl
  · exact bits_foldl (fun self i => self.bits_clear i) _ self

/-! ### Bitmaps of one size -/

variable {ι : Type}

/-- A call on one bitmap; a bitwise operation names the other. -/
inductive Op (ι : Type) where
  | prepare | set (index : ℕ) | clear (index : ℕ) | setDirect (index : ℕ) | clearDirect (index : ℕ)
  | setRange (start stop : ℕ) | clearRange (start stop : ℕ) | setAll | clearAll | commit
  | setAnd (other : ι) | setOr (other : ι) | setXor (other : ι) | setNot | setAndNot (other : ι)
deriving DecidableEq, Repr

structure Call (ι : Type) where
  target : ι
  op : Op ι
deriving DecidableEq, Repr

def run (bitmaps : ι → BitmapImpl size) (self : BitmapImpl size) : Op ι → BitmapImpl size
  | .prepare => self.prepare
  | .set index => self.set index
  | .clear index => self.clear index
  | .setDirect index => self.setDirect index
  | .clearDirect index => self.clearDirect index
  | .setRange start stop => self.setRange start stop
  | .clearRange start stop => self.clearRange start stop
  | .setAll => self.setAll
  | .clearAll => self.clearAll
  | .commit => self.commit
  | .setAnd other => self.setAnd (bitmaps other)
  | .setOr other => self.setOr (bitmaps other)
  | .setXor other => self.setXor (bitmaps other)
  | .setNot => self.setNot
  | .setAndNot other => self.setAndNot (bitmaps other)

/-- The call sets no bit beyond the size: the size fills its bytes, or it is not a complement, and what it commits
has no such bit. -/
def Fits (bitmaps : ι → BitmapImpl size) (call : Call ι) : Prop :=
  size % 8 = 0 ∨ match call.op with
    | .setNot => False
    | .commit => Clean size (bitmaps call.target).dirtyBits
    | _ => True

/-- What a call commits of the bits beyond the size. -/
theorem clean_run_iff {bitmaps : ι → BitmapImpl size} (h : ∀ i, Clean size (bitmaps i).bits) (call : Call ι) :
    Clean size (run bitmaps (bitmaps call.target) call.op).bits ↔ Fits bitmaps call := by
  obtain ⟨target, op⟩ := call
  have hself := h target
  have hstaged {bits : Vector UInt8 (byteSize size)} (hbits : bits = (bitmaps target).bits) : Clean size bits := by
    rw [hbits]
    exact hself
  cases op with
  | setNot =>
    show Clean size (bitmaps target).setNot.bits ↔ _
    rw [clean_setNot_iff hself]
    exact (or_iff_left not_false).symm
  | commit => exact ⟨Or.inr, fun hfits => hfits.elim (fun hmod => clean_of_mod hmod _) id⟩
  | prepare => exact iff_of_true hself (Or.inr trivial)
  | set index => exact iff_of_true (hstaged (bits_set index)) (Or.inr trivial)
  | clear index => exact iff_of_true (hstaged (bits_clear index)) (Or.inr trivial)
  | setRange start stop => exact iff_of_true (hstaged (bits_setRange start stop)) (Or.inr trivial)
  | clearRange start stop => exact iff_of_true (hstaged (bits_clearRange start stop)) (Or.inr trivial)
  | setAll => exact iff_of_true hself (Or.inr trivial)
  | clearAll => exact iff_of_true hself (Or.inr trivial)
  | setDirect index => exact iff_of_true (hself.setDirect index) (Or.inr trivial)
  | clearDirect index => exact iff_of_true (hself.clearDirect index) (Or.inr trivial)
  | setAnd other => exact iff_of_true (hself.setAnd (h other)) (Or.inr trivial)
  | setOr other => exact iff_of_true (hself.setOr (h other)) (Or.inr trivial)
  | setXor other => exact iff_of_true (hself.setXor (h other)) (Or.inr trivial)
  | setAndNot other => exact iff_of_true (hself.setAndNot (h other)) (Or.inr trivial)

variable [DecidableEq ι]

def step (bitmaps : ι → BitmapImpl size) (call : Call ι) : ι → BitmapImpl size :=
  Function.update bitmaps call.target (run bitmaps (bitmaps call.target) call.op)

/-- A call changes its target only. -/
theorem counts_step_iff {bitmaps : ι → BitmapImpl size} (h : ∀ i, (bitmaps i).CountsBits) (call : Call ι) :
    (∀ i, (step bitmaps call i).CountsBits) ↔ Fits bitmaps call := by
  rw [← clean_run_iff (fun i => (bitmaps i).countsBits_iff.mp (h i)) call, ← countsBits_iff]
  unfold step
  constructor
  · intro hall
    have htarget := hall call.target
    rw [Function.update_self] at htarget
    exact htarget
  · intro htarget i
    by_cases hi : i = call.target
    · rw [hi, Function.update_self]
      exact htarget
    · rw [Function.update_of_ne hi]
      exact h i

/-- **When the counts are right.**  For bitmaps of any one size and any calls on them: after each call the counts of
all bitmaps are those of the bits that reads see, iff every call fits. -/
theorem counts_iff (calls : List (Call ι)) :
    (∀ before after, calls = before ++ after →
      ∀ i, (before.foldl step (fun _ => (init : BitmapImpl size)) i).CountsBits) ↔
    ∀ before call after, calls = before ++ call :: after →
      Fits (before.foldl step fun _ => (init : BitmapImpl size)) call :=
  forall_foldl_iff (fun bitmaps : ι → BitmapImpl size => ∀ i, (bitmaps i).CountsBits) _ Fits
    (fun _ => init.countsBits_iff.mpr clean_init) (fun _ h => h) (fun _ call h => (counts_step_iff h call).mpr)
    (fun _ call h hno hcounts => hno ((counts_step_iff h call).mp hcounts)) calls

/-- The complement of an empty bitmap of a hundred bits has a hundred and four. -/
theorem not_counts : ¬ ∀ (size : ℕ) (calls : List (Call Unit)), ∀ before after, calls = before ++ after →
    ∀ i, (before.foldl step (fun _ => (init : BitmapImpl size)) i).CountsBits := by
  intro h
  have hclear := (h 100 [⟨(), .setNot⟩] [⟨(), .setNot⟩] [] rfl ()).clear
  have hunderflow : (([⟨(), .setNot⟩] : List (Call Unit)).foldl step
      (fun _ => (init : BitmapImpl 100)) ()).countBitsClear = none := by decide +kernel
  exact Option.some_ne_none _ (hclear.symm.trans hunderflow)

end BitmapImpl

end Slung
