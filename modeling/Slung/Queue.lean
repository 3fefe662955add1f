import Slung.Types
import Mathlib.Data.List.Basic

/-!
# Slung.Queue — the dirty queue (`queue.zig`)

A bounded queue of signals.  The ring buffer of the source is a list that never outgrows the capacity.
-/

namespace Slung

structure DirtyQueue where
  capacity : ℕ
  entries : List DirtyEntry
  bounded : entries.length ≤ capacity

namespace DirtyQueue

def init (capacity : ℕ) : DirtyQueue := ⟨capacity, [], Nat.zero_le _⟩

def isFull (self : DirtyQueue) : Bool := self.entries.length ≥ self.capacity

def isEmpty (self : DirtyQueue) : Bool := self.entries.length == 0

/-- `none` is `error.QueueFull`. -/
def push (self : DirtyQueue) (entry : DirtyEntry) : Option DirtyQueue :=
  if h : self.entries.length ≥ self.capacity then none
  else some ⟨self.capacity, self.entries ++ [entry], by rw [List.length_append, List.length_singleton]; omega⟩

def pop (self : DirtyQueue) : Option (DirtyEntry × DirtyQueue) :=
  match h : self.entries with
  | [] => none
  | entry :: rest => some (entry, ⟨self.capacity, rest, by
      have := self.bounded
      rw [h, List.length_cons] at this
      omega⟩)

/-- Remove the last entry for an entity and component and keep the order of the others. -/
def removeLast (self : DirtyQueue) (entry : DirtyEntry) : DirtyQueue × Bool :=
  (⟨self.capacity, (self.entries.reverse.erase entry).reverse, by
      rw [List.length_reverse]
      exact Nat.le_trans List.erase_sublist.length_le (by rw [List.length_reverse]; exact self.bounded)⟩,
    entry ∈ self.entries)

variable {self queue : DirtyQueue} {entry : DirtyEntry}

theorem push_isSome (h : self.isFull = false) (entry : DirtyEntry) :
    ∃ queue, self.push entry = some queue ∧ queue.entries = self.entries ++ [entry] := by
  have hlt : ¬ self.entries.length ≥ self.capacity := by simpa [isFull] using h
  exact ⟨_, dif_neg hlt, rfl⟩

theorem pop_some (h : self.pop = some (entry, queue)) : self.entries = entry :: queue.entries := by
  unfold pop at h
  split at h
  · cases h
  · rename_i head rest heq
    obtain ⟨rfl, rfl⟩ := Prod.mk.inj (Option.some.inj h)
    exact heq

theorem count_removeLast (self : DirtyQueue) (entry e : DirtyEntry) :
    (self.removeLast entry).1.entries.count e = self.entries.count e - if entry = e then 1 else 0 := by
  change ((self.entries.reverse.erase entry).reverse).count e = _
  rw [List.count_reverse, List.count_erase, List.count_reverse]
  by_cases h : entry = e <;> simp [h]

end DirtyQueue

end Slung
