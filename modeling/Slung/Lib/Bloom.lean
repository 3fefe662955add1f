import Mathlib.Data.Nat.Notation
import Mathlib.Logic.Function.Basic

/-!
# Slung.Lib.Bloom — a Bloom filter with one hash function

`contains` may answer yes for a value that was never inserted, and never answers no for one that was.
-/

namespace Slung.Lib

/-- A mask of `size` bits. -/
structure Bloom (size : ℕ) where
  mask : ℕ → Bool

namespace Bloom

variable {α : Type} {size : ℕ} (hash : α → ℕ)

def init : Bloom size := ⟨fun _ => false⟩

def insert (self : Bloom size) (value : α) : Bloom size :=
  ⟨Function.update self.mask (hash value % size) true⟩

def contains (self : Bloom size) (value : α) : Bool := self.mask (hash value % size)

/-- Forget every value. -/
def reset (_self : Bloom size) : Bloom size := init

@[simp] theorem contains_insert_self (self : Bloom size) (v : α) :
    (self.insert hash v).contains hash v = true := by
  simp [contains, insert]

/-- **No false negatives**: inserting never takes an answer back. -/
theorem contains_insert {self : Bloom size} {v : α} (h : self.contains hash v = true) (v' : α) :
    (self.insert hash v').contains hash v = true := by
  change Function.update self.mask (hash v' % size) true (hash v % size) = true
  by_cases heq : hash v % size = hash v' % size
  · rw [heq, Function.update_self]
  · rw [Function.update_of_ne heq]
    exact h

end Bloom

end Slung.Lib
