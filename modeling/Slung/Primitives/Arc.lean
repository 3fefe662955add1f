import Mathlib.Data.Nat.Notation

/-!
# Slung.Primitives.Arc — an atomic reference count (`primitives/arc.zig`)

The heap cell that the copies of an `Arc` point at.  `Counts n` says that `n` copies are unreleased and that the cell
is allocated as long as there is one; every operation of the source keeps it.
-/

namespace Slung

/-- The inner allocation of an `Arc`. -/
structure Arc (α : Type) where
  value : α
  refcount : ℕ
  /-- the allocation has not been destroyed -/
  live : Bool

namespace Arc

variable {α : Type}

/-- The count starts at 1. -/
def init (value : α) : Arc α := ⟨value, 1, true⟩

def clone (self : Arc α) : Arc α := { self with refcount := self.refcount + 1 }

/-- The release that finds the count at 1 destroys the cell. -/
def release (self : Arc α) : Arc α :=
  { self with refcount := self.refcount - 1, live := self.live && self.refcount != 1 }

/-- There are `n` unreleased copies. -/
structure Counts (arc : Arc α) (n : ℕ) : Prop where
  refcount : arc.refcount = n
  live : arc.live = decide (0 < n)

theorem Counts.init (value : α) : (init value).Counts 1 := ⟨rfl, rfl⟩

theorem Counts.clone {self : Arc α} {n : ℕ} (h : self.Counts n) (hn : 0 < n) : self.clone.Counts (n + 1) :=
  ⟨congrArg (· + 1) h.refcount, by
    change self.live = _
    simp [h.live, hn]⟩

theorem Counts.release {self : Arc α} {n : ℕ} (h : self.Counts (n + 1)) : self.release.Counts n :=
  ⟨by simp [Arc.release, h.refcount], by
    simp only [Arc.release, h.live, h.refcount]
    cases n <;> simp⟩

theorem Counts.setValue {self : Arc α} {n : ℕ} (h : self.Counts n) (value : α) :
    ({ self with value := value } : Arc α).Counts n := ⟨h.refcount, h.live⟩

end Arc

end Slung
