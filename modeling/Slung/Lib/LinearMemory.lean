import Mathlib.Data.List.Basic

/-!
# Slung.Lib.LinearMemory — a memory that is read and written a range at a time

A range that does not lie in the memory is neither read nor written.  A read of a range that a later write reached
into gives what the range had, with the part of the write that fell into it laid over (`overlay`, `read_write`).
-/

namespace Slung.Lib

variable {α : Type*}

/-- `data` over `base` from `offset` on, as far as `base` goes. -/
def overlay (base : List α) (offset : ℕ) (data : List α) : List α :=
  base.take offset ++ (data.take (base.length - offset) ++ base.drop (offset + data.length))

theorem overlay_of_length_le {base : List α} {offset : ℕ} (h : base.length ≤ offset) (data : List α) :
    overlay base offset data = base := by
  rw [overlay, List.take_of_length_le h, Nat.sub_eq_zero_of_le h, List.take_zero,
    List.drop_eq_nil_of_le (Nat.le_trans h (Nat.le_add_right _ _)), List.nil_append, List.append_nil]

theorem length_overlay (base : List α) (offset : ℕ) (data : List α) :
    (overlay base offset data).length = base.length := by
  simp only [overlay, List.length_append, List.length_take, List.length_drop]
  omega

theorem getElem?_overlay (base : List α) (offset : ℕ) (data : List α) (i : ℕ) :
    (overlay base offset data)[i]? =
      if offset ≤ i ∧ i < offset + data.length ∧ i < base.length then data[i - offset]? else base[i]? := by
  rw [overlay, List.getElem?_append, List.getElem?_append]
  simp only [List.length_take, List.getElem?_take, List.getElem?_drop]
  by_cases hlt : i < offset
  · by_cases hin : i < base.length
    · rw [if_pos (by omega), if_pos hlt, if_neg (by omega)]
    · rw [if_neg (by omega), if_neg (by omega), if_neg (by omega), List.getElem?_eq_none (by omega),
        List.getElem?_eq_none (by omega)]
  · by_cases hin : i < base.length
    · by_cases hover : i < offset + data.length
      · rw [if_neg (by omega), if_pos (by omega), if_pos (by omega), if_pos (by omega)]
        congr 1
        omega
      · rw [if_neg (by omega), if_neg (by omega), if_neg (by omega)]
        congr 1
        omega
    · rw [if_neg (by omega), if_neg (by omega), if_neg (by omega), List.getElem?_eq_none (by omega),
        List.getElem?_eq_none (by omega)]

/-- Of two overlays in one place the last one stays. -/
theorem overlay_overlay (base : List α) (offset : ℕ) {data data' : List α} (h : data'.length = data.length) :
    overlay (overlay base offset data') offset data = overlay base offset data := by
  refine List.ext_getElem? fun i => ?_
  rw [getElem?_overlay, getElem?_overlay, getElem?_overlay, length_overlay, h]
  by_cases hin : offset ≤ i ∧ i < offset + data.length ∧ i < base.length
  · rw [if_pos hin, if_pos hin]
  · rw [if_neg hin, if_neg hin, if_neg hin]

/-- Cells that are there are kept; there are never more than `limit`. -/
structure LinearMemory (α : Type*) (limit : ℕ) where
  cells : List α
  bounded : cells.length ≤ limit

namespace LinearMemory

variable {limit : ℕ} {self mem : LinearMemory α limit} {a b n : ℕ} {data : List α}

def size (self : LinearMemory α limit) : ℕ := self.cells.length

def read (self : LinearMemory α limit) (a n : ℕ) : Option (List α) :=
  if a + n ≤ self.size then some ((self.cells.drop a).take n) else none

def write (self : LinearMemory α limit) (a : ℕ) (data : List α) : Option (LinearMemory α limit) :=
  if h : a + data.length ≤ self.cells.length then
    some ⟨self.cells.take a ++ (data ++ self.cells.drop (a + data.length)), by
      have := self.bounded
      simp only [List.length_append, List.length_take, List.length_drop]
      omega⟩
  else none

theorem size_le (self : LinearMemory α limit) : self.size ≤ limit := self.bounded

theorem write_some (h : self.write a data = some mem) :
    a + data.length ≤ self.size ∧ mem.cells = self.cells.take a ++ (data ++ self.cells.drop (a + data.length)) := by
  unfold write at h
  by_cases hfits : a + data.length ≤ self.cells.length
  · rw [dif_pos hfits] at h
    rw [← Option.some.inj h]
    exact ⟨hfits, rfl⟩
  · rw [dif_neg hfits] at h
    cases h

theorem write_isSome (h : a + data.length ≤ self.size) : ∃ mem, self.write a data = some mem :=
  ⟨_, dif_pos h⟩

theorem not_fits_of_write (h : self.write a data = none) : ¬ a + data.length ≤ self.size := by
  intro hfits
  obtain ⟨mem, hmem⟩ := write_isSome hfits
  rw [h] at hmem
  cases hmem

theorem read_of_le (h : a + n ≤ self.size) : self.read a n = some ((self.cells.drop a).take n) := if_pos h

theorem size_write (h : self.write a data = some mem) : mem.size = self.size := by
  obtain ⟨hfits, hcells⟩ := write_some h
  unfold size at *
  rw [hcells]
  simp only [List.length_append, List.length_take, List.length_drop]
  omega

theorem getElem?_write (h : self.write a data = some mem) (i : ℕ) :
    mem.cells[i]? = if a ≤ i ∧ i < a + data.length then data[i - a]? else self.cells[i]? := by
  obtain ⟨hfits, hcells⟩ := write_some h
  unfold size at hfits
  rw [hcells, List.getElem?_append, List.getElem?_append]
  simp only [List.length_take, List.getElem?_take, List.getElem?_drop]
  by_cases hlt : i < a
  · rw [if_pos (by omega), if_pos hlt, if_neg (by omega)]
  · by_cases hin : i < a + data.length
    · rw [if_neg (by omega), if_pos (by omega), if_pos (by omega)]
      congr 1
      omega
    · rw [if_neg (by omega), if_neg (by omega), if_neg (by omega)]
      congr 1
      omega

/-- What was written is read back. -/
theorem read_write_self (h : self.write a data = some mem) : mem.read a data.length = some data := by
  obtain ⟨hfits, hcells⟩ := write_some h
  have hlen : (self.cells.take a).length = a := by
    unfold size at hfits
    rw [List.length_take]
    omega
  rw [read_of_le (by rw [size_write h]; exact hfits), hcells, List.drop_left' hlen, List.take_left]

/-- **A read of a range that a write at or after its start reached into.** -/
theorem read_write (h : self.write a data = some mem) (hle : b ≤ a) :
    mem.read b n = (self.read b n).map (overlay · (a - b) data) := by
  by_cases hfits : b + n ≤ self.size
  · rw [read_of_le hfits, read_of_le (by rw [size_write h]; exact hfits), Option.map_some]
    refine congrArg some (List.ext_getElem? fun i => ?_)
    rw [getElem?_overlay, List.getElem?_take, List.getElem?_take, List.getElem?_drop, List.getElem?_drop,
      getElem?_write h, List.length_take, List.length_drop]
    unfold size at hfits
    by_cases hi : i < n
    · rw [if_pos hi, if_pos hi]
      refine if_congr (by omega) ?_ rfl
      congr 1
      omega
    · rw [if_neg hi, if_neg hi, if_neg (by omega)]
  · rw [read, read, if_neg hfits, if_neg (by rw [size_write h]; exact hfits)]
    rfl

end LinearMemory

end Slung.Lib
