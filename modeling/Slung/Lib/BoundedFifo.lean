import Mathlib.Data.Nat.Notation

/-!
# Slung.Lib.BoundedFifo — a list as a bounded queue

What a queue of at most `capacity` items does: `push` appends or finds the queue full, `pop` takes the first item,
`removeLast` takes out the last item with a key and keeps the others in order.  A label is put on what is pushed
(`tag`), and `key` is what an item is known by.
-/

namespace Slung.Lib.BoundedFifo

variable {α ε : Type}

inductive Call (ε : Type) where
  | push (e : ε)
  | pop
  | removeLast (e : ε)
  | clear
deriving DecidableEq, Repr

inductive Result (α : Type) where
  | done
  | full
  | popped (x : Option α)
  | removed (found : Bool)
deriving DecidableEq, Repr

section

variable (tag : ε → α) (key : α → ε) (capacity : ℕ)

/-- One call on the items of the queue, oldest first. -/
inductive Step : List α → Call ε → Result α → List α → Prop where
  | push (l : List α) (e : ε) (hroom : l.length < capacity) : Step l (.push e) .done (l ++ [tag e])
  | full (l : List α) (e : ε) (hfull : l.length = capacity) : Step l (.push e) .full l
  | pop (x : α) (l : List α) : Step (x :: l) .pop (.popped (some x)) l
  | empty : Step [] .pop (.popped none) []
  | removeLast (front back : List α) (x : α) (e : ε) (hkey : key x = e) (hlast : ∀ y ∈ back, key y ≠ e) :
    Step (front ++ x :: back) (.removeLast e) (.removed true) (front ++ back)
  | absent (l : List α) (e : ε) (habsent : ∀ y ∈ l, key y ≠ e) : Step l (.removeLast e) (.removed false) l
  | clear (l : List α) : Step l .clear .done []

/-- A sequence of calls with their results. -/
inductive Run : List α → List (Call ε) → List (Result α) → List α → Prop where
  | nil (l : List α) : Run l [] [] l
  | cons {l l' l'' : List α} {call : Call ε} {calls : List (Call ε)} {result : Result α} {results : List (Result α)}
    (hstep : Step tag key capacity l call result l') (hrest : Run l' calls results l'') :
    Run l (call :: calls) (result :: results) l''

end

variable {tag : ε → α} {key : α → ε} {capacity : ℕ} {l l' : List α} {call : Call ε} {result : Result α}

theorem Step.length_le (h : Step tag key capacity l call result l') (hl : l.length ≤ capacity) :
    l'.length ≤ capacity := by
  cases h with
  | push _ e hroom =>
    rw [List.length_append, List.length_singleton]
    omega
  | full => exact hl
  | pop x =>
    rw [List.length_cons] at hl
    omega
  | empty => exact hl
  | removeLast front back x =>
    rw [List.length_append, List.length_cons] at hl
    rw [List.length_append]
    omega
  | absent => exact hl
  | clear => exact Nat.zero_le _

/-- The queue never outgrows its capacity. -/
theorem Run.length_le {calls : List (Call ε)} {results : List (Result α)}
    (h : Run tag key capacity l calls results l') (hl : l.length ≤ capacity) : l'.length ≤ capacity := by
  induction h with
  | nil => exact hl
  | cons hstep _ ih => exact ih (hstep.length_le hl)

end Slung.Lib.BoundedFifo
