import Slung.Lib.Bytes

/-!
# Slung.Lib.Checked — decoders whose indices are checked

A decoder over a byte list in a language that stops the process on a bad index.  `Checked ε α` is a
computation that may return an error of its own, or fault: an index or slice out of bounds, a subtraction
below zero, a loop that did not end.  `Safe bad c r` says that `c` never faults, that it returns what the
unchecked computation `r` returns, and that its only error is `bad`.  The rules follow the shape of the
program: `pure`, `throw`, `bind` and `if`, and one rule for each checked operation.
-/

namespace Slung.Lib

inductive Fault where
  | outOfBounds
  | underflow
  /-- a loop that used up its fuel -/
  | stuck
  /-- a buffer that is freed and not live -/
  | doubleFree
deriving DecidableEq, Repr

abbrev Checked (ε α : Type) := ExceptT ε (Except Fault) α

variable {ε α β : Type}

namespace Checked

def fault (f : Fault) : Checked ε α := ExceptT.mk (.error f)

/-- A subtraction that must not go below zero. -/
def sub (a b : ℕ) : Checked ε ℕ := if b ≤ a then pure (a - b) else fault .underflow

/-- The slice of `n` bytes at `pos`. -/
def slice (bytes : List UInt8) (pos n : ℕ) : Checked ε (List UInt8) :=
  if pos + n ≤ bytes.length then pure ((bytes.drop pos).take n) else fault .outOfBounds

/-- The little-endian integer of `w` bytes at `pos`. -/
def readLE (w : ℕ) (bytes : List UInt8) (pos : ℕ) : Checked ε ℕ := do
  let segment ← slice bytes pos w
  pure (leNat segment)

theorem sub_bind {a b : ℕ} (h : b ≤ a) (f : ℕ → Checked ε β) : (sub a b >>= f) = f (a - b) := by
  unfold sub
  rw [if_pos h]
  rfl

theorem slice_bind {bytes : List UInt8} {pos n : ℕ} (h : pos + n ≤ bytes.length)
    (f : List UInt8 → Checked ε β) : (slice bytes pos n >>= f) = f ((bytes.drop pos).take n) := by
  unfold slice
  rw [if_pos h]
  rfl

theorem readLE_bind {w : ℕ} {bytes : List UInt8} {pos : ℕ} (h : pos + w ≤ bytes.length)
    (f : ℕ → Checked ε β) : (readLE w bytes pos >>= f) = f (Lib.readLE w bytes pos) := by
  unfold readLE slice
  rw [if_pos h]
  rfl

end Checked

/-! ## Safety -/

/-- The errors of a computation are `bad`. -/
def OnlyError (bad : ε) (r : Except ε α) : Prop := ∀ e, r = .error e → e = bad

theorem OnlyError.bind {bad : ε} {r : Except ε α} (h : OnlyError bad r) {f : α → Except ε β}
    (hf : ∀ a, r = .ok a → OnlyError bad (f a)) : OnlyError bad (r >>= f) := by
  intro e he
  cases r with
  | error e' => exact h e (congrArg Except.error (Except.error.inj he))
  | ok a => exact hf a rfl e he

/-- `c` does not fault and returns what `r` returns; its only error is `bad`. -/
structure Safe (bad : ε) (c : Checked ε α) (r : Except ε α) : Prop where
  eq : c = ExceptT.mk (.ok r)
  only : OnlyError bad r

namespace Safe

variable {bad : ε} {c : Checked ε α} {r : Except ε α}

theorem pure (a : α) : Safe bad (Pure.pure a) (.ok a) := ⟨rfl, nofun⟩

theorem throw : Safe (α := α) bad (MonadExcept.throw bad) (.error bad) :=
  ⟨rfl, fun _ h => (Except.error.inj h).symm⟩

theorem bind (h : Safe bad c r) {f : α → Checked ε β} {g : α → Except ε β}
    (hf : ∀ a, r = .ok a → Safe bad (f a) (g a)) : Safe bad (c >>= f) (r >>= g) := by
  obtain ⟨rfl, honly⟩ := h
  refine ⟨?_, honly.bind fun a ha => (hf a ha).only⟩
  cases r with
  | error e => rfl
  | ok a => exact (hf a rfl).eq

theorem ite {p : Prop} [Decidable p] {c' : Checked ε α} {r' : Except ε α} (hpos : p → Safe bad c r)
    (hneg : ¬ p → Safe bad c' r') : Safe bad (if p then c else c') (if p then r else r') := by
  by_cases h : p
  · rw [if_pos h, if_pos h]
    exact hpos h
  · rw [if_neg h, if_neg h]
    exact hneg h

end Safe

end Slung.Lib
