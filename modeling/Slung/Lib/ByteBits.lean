import Mathlib.Data.List.Basic
import Mathlib.Data.Nat.Bitwise

/-!
# Slung.Lib.ByteBits — the bits of an array of bytes

`bitAt v i` is bit `i % 8` of byte `i / 8`; beyond the array there is none.  Operations that work byte by byte work
bit by bit (`bitAt_map`, `bitAt_zipWith`), and the bits counted byte by byte are the indices with a bit
(`countOnes_eq`).
-/

namespace Slung.Lib

/-- `@popCount` of a byte. -/
def popCount (byte : UInt8) : ℕ := (List.range 8).countP byte.toNat.testBit

variable {n : ℕ}

def bitAt (v : Vector UInt8 n) (i : ℕ) : Bool := if h : i / 8 < n then v[i / 8].toNat.testBit (i % 8) else false

/-- Add up the ones of each byte. -/
def countOnes (v : Vector UInt8 n) : ℕ := v.toList.foldl (fun count byte => count + popCount byte) 0

variable {v w : Vector UInt8 n} {i : ℕ}

theorem bitAt_of_lt (h : i / 8 < n) : bitAt v i = v[i / 8].toNat.testBit (i % 8) := dif_pos h

theorem bitAt_of_not_lt (h : ¬ i / 8 < n) : bitAt v i = false := dif_neg h

theorem bitAt_replicate (byte : UInt8) (h : i / 8 < n) :
    bitAt (Vector.replicate n byte) i = byte.toNat.testBit (i % 8) := by
  rw [bitAt_of_lt h, Vector.getElem_replicate]

@[simp] theorem bitAt_zero : bitAt (Vector.replicate n 0) i = false := by
  by_cases h : i / 8 < n
  · rw [bitAt_replicate 0 h]
    exact Nat.zero_testBit _
  · exact bitAt_of_not_lt h

/-- A map of the bytes that is a map of the bits. -/
theorem bitAt_map {f : UInt8 → UInt8} {g : Bool → Bool}
    (hf : ∀ a : UInt8, ∀ k < 8, (f a).toNat.testBit k = g (a.toNat.testBit k)) (h : i / 8 < n) :
    bitAt (v.map f) i = g (bitAt v i) := by
  rw [bitAt_of_lt h, bitAt_of_lt h, Vector.getElem_map]
  exact hf _ _ (Nat.mod_lt _ (by decide))

theorem bitAt_zipWith {f : UInt8 → UInt8 → UInt8} {g : Bool → Bool → Bool}
    (hf : ∀ a b : UInt8, ∀ k < 8, (f a b).toNat.testBit k = g (a.toNat.testBit k) (b.toNat.testBit k))
    (hg : g false false = false) : bitAt (v.zipWith f w) i = g (bitAt v i) (bitAt w i) := by
  by_cases h : i / 8 < n
  · rw [bitAt_of_lt h, bitAt_of_lt h, bitAt_of_lt h, Vector.getElem_zipWith]
    exact hf _ _ _ (Nat.mod_lt _ (by decide))
  · rw [bitAt_of_not_lt h, bitAt_of_not_lt h, bitAt_of_not_lt h, hg]

/-- One byte is changed in one bit. -/
theorem bitAt_set {j : ℕ} {byte : UInt8} {b : Bool} (hj : j / 8 < n)
    (hbyte : ∀ k < 8, byte.toNat.testBit k = if k = j % 8 then b else v[j / 8].toNat.testBit k) :
    bitAt (v.set (j / 8) byte) i = if i = j then b else bitAt v i := by
  by_cases h : i / 8 < n
  · rw [bitAt_of_lt h, bitAt_of_lt h, Vector.getElem_set]
    by_cases hsame : j / 8 = i / 8
    · rw [if_pos hsame, hbyte _ (Nat.mod_lt _ (by decide))]
      have hiff : i % 8 = j % 8 ↔ i = j := by omega
      simp only [hiff, hsame]
    · have hne : i ≠ j := fun heq => hsame (by rw [heq])
      rw [if_neg hsame, if_neg hne]
  · have hne : i ≠ j := fun heq => h (heq ▸ hj)
    rw [bitAt_of_not_lt h, bitAt_of_not_lt h, if_neg hne]

/-! ## Counting -/

theorem popCount_eq_countP {j : ℕ} (h : j < n) :
    popCount v[j] = (List.range 8).countP fun k => bitAt v (8 * j + k) := by
  unfold popCount
  refine List.countP_congr fun k hk => ?_
  have hk := List.mem_range.mp hk
  have hdiv : (8 * j + k) / 8 = j := by omega
  have hmod : (8 * j + k) % 8 = k := by omega
  rw [bitAt_of_lt (by omega)]
  simp only [hdiv, hmod]

/-- The first bytes are counted as the first bits. -/
theorem foldl_popCount_take {m : ℕ} (h : m ≤ n) :
    (v.toList.take m).foldl (fun count byte => count + popCount byte) 0 = (List.range (8 * m)).countP (bitAt v) := by
  induction m with
  | zero => rfl
  | succ m ih =>
    have hlength : m < v.toList.length := by
      rw [Vector.length_toList]
      omega
    have hm : v.toList[m] = v[m] := Vector.getElem_toList hlength
    rw [List.take_succ_eq_append_getElem hlength, List.foldl_append, ih (by omega), hm,
      Nat.mul_succ, List.range_add, List.countP_append, List.countP_map]
    show _ + popCount v[m] = _ + _
    rw [popCount_eq_countP (by omega)]
    rfl

/-- **The ones are the indices with a bit.** -/
theorem countOnes_eq : countOnes v = (List.range (8 * n)).countP (bitAt v) := by
  have htake : v.toList.take n = v.toList := List.take_of_length_le (by simp)
  unfold countOnes
  rw [← foldl_popCount_take (Nat.le_refl n), htake]

/-- Of those below `size` and those from there on, the latter are none iff no bit is there. -/
theorem countOnes_eq_iff {size : ℕ} (h : size ≤ 8 * n) :
    countOnes v = (List.range size).countP (bitAt v) ↔ ∀ i, size ≤ i → bitAt v i = false := by
  obtain ⟨k, hk⟩ : ∃ k, 8 * n = size + k := ⟨8 * n - size, by omega⟩
  rw [countOnes_eq, hk, List.range_add, List.countP_append, List.countP_map, Nat.add_eq_left, List.countP_eq_zero]
  constructor
  · intro hnone i hi
    by_cases hlt : i / 8 < n
    · obtain ⟨j, rfl⟩ : ∃ j, i = size + j := ⟨i - size, by omega⟩
      exact Bool.eq_false_iff.mpr (hnone j (List.mem_range.mpr (by omega)))
    · exact bitAt_of_not_lt hlt
  · intro hclean j hj
    exact Bool.eq_false_iff.mp (hclean (size + j) (Nat.le_add_right _ _))

end Slung.Lib
