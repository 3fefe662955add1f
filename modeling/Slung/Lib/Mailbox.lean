import Mathlib.Data.List.Perm.Basic

/-!
# Slung.Lib.Mailbox — a place for one item

A producer writes into a slot and a consumer empties it.  A write into a full slot replaces what is in it.  The lists
beside the slot say what became of every item: taken, replaced by a later one, or waiting (`Accounted.once`).
-/

namespace Slung.Lib

structure Mailbox (α : Type) where
  slot : Option α
  /-- everything that was written, in order -/
  written : List α
  taken : List α
  replaced : List α

namespace Mailbox

variable {α : Type}

def empty : Mailbox α := ⟨none, [], [], []⟩

def write (self : Mailbox α) (x : α) : Mailbox α :=
  { self with slot := some x, written := self.written ++ [x], replaced := self.replaced ++ self.slot.toList }

def take (self : Mailbox α) : Mailbox α := { self with slot := none, taken := self.taken ++ self.slot.toList }

/-- What became of the items. -/
structure Accounted (m : Mailbox α) : Prop where
  perm : List.Perm m.written (m.taken ++ m.replaced ++ m.slot.toList)
  inOrder : (m.taken ++ m.slot.toList).Sublist m.written
  /-- an item is replaced by a later one -/
  newer : ∀ x ∈ m.replaced, x ∈ m.written.dropLast

namespace Accounted

variable {m : Mailbox α}

theorem empty : Accounted (empty : Mailbox α) := ⟨.refl _, .refl _, nofun⟩

theorem write (h : Accounted m) (x : α) : Accounted (m.write x) where
  perm := by
    have happend : List.Perm (m.written ++ [x]) (m.taken ++ m.replaced ++ m.slot.toList ++ [x]) :=
      h.perm.append_right [x]
    simpa only [Mailbox.write, List.append_assoc, Option.toList_some] using happend
  inOrder := ((List.sublist_append_left _ _).trans h.inOrder).append_right [x]
  newer := by
    intro y hy
    change y ∈ (m.written ++ [x]).dropLast
    rw [List.dropLast_concat, h.perm.mem_iff]
    rcases List.mem_append.mp hy with hy | hy
    · exact List.mem_append_left _ (List.mem_append_right _ hy)
    · exact List.mem_append_right _ hy

theorem take (h : Accounted m) : Accounted m.take where
  perm := by
    refine h.perm.trans ?_
    simp only [Mailbox.take, Option.toList_none, List.append_nil, List.append_assoc]
    exact (List.perm_append_comm).append_left m.taken
  inOrder := by simpa only [Mailbox.take, Option.toList_none, List.append_nil] using h.inOrder
  newer := h.newer

/-- **Every item once**: it was taken, it was replaced, or it waits. -/
theorem once [BEq α] [LawfulBEq α] (h : Accounted m) (hnodup : m.written.Nodup) {x : α} (hx : x ∈ m.written) :
    m.taken.count x + m.replaced.count x + m.slot.toList.count x = 1 := by
  rw [← List.count_append, ← List.count_append, ← h.perm.count_eq]
  rw [hnodup.count, if_pos hx]

/-- Where nothing was replaced, the items were taken in the order they were written. -/
theorem taken_of_replaced_nil (h : Accounted m) (hreplaced : m.replaced = []) :
    m.taken ++ m.slot.toList = m.written := by
  refine h.inOrder.eq_of_length ?_
  rw [h.perm.length_eq, hreplaced, List.append_nil]

end Accounted

end Mailbox

end Slung.Lib
