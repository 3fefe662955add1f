import Mathlib.Logic.Function.Basic
import Mathlib.Data.List.Basic

/-!
# Slung.Lib.RunningHash — hashes that take their input element by element

A running hash mixes the next element into its state.  If no step forgets the state and none confuses two
elements, then two inputs that differ in one place have different hashes, however long they are.
-/

namespace Slung.Lib

/-- A step that is one to one in the state and in the element. -/
structure Mixing {σ α : Type} (mix : σ → α → σ) : Prop where
  state : ∀ a, Function.Injective fun s => mix s a
  element : ∀ s, Function.Injective (mix s)

namespace Mixing

variable {σ α : Type} {mix : σ → α → σ}

/-- The rest of the input keeps different states apart. -/
theorem foldl_injective (h : Mixing mix) (l : List α) : Function.Injective fun s => l.foldl mix s := by
  induction l with
  | nil => exact Function.injective_id
  | cons a l ih => exact ih.comp (h.state a)

/-- **One changed element changes the hash.** -/
theorem foldl_set_ne (h : Mixing mix) {l : List α} {k : ℕ} {a : α} (hk : k < l.length) (ha : l[k]? ≠ some a)
    (s : σ) : (l.set k a).foldl mix s ≠ l.foldl mix s := by
  induction l generalizing k s with
  | nil => cases hk
  | cons b l ih =>
    cases k with
    | zero =>
      have hab : a ≠ b := fun hab => ha (by rw [hab]; rfl)
      exact fun hsame => hab (h.element s (h.foldl_injective l hsame))
    | succ k => exact ih (Nat.lt_of_succ_lt_succ hk) ha (mix s b)

/-- Inputs of one length that differ in exactly one place have different hashes. -/
theorem foldl_ne_of_differ_once (h : Mixing mix) {l l' : List α} (hlen : l.length = l'.length)
    (hone : ∃! k : ℕ, l[k]? ≠ l'[k]?) (s : σ) : l.foldl mix s ≠ l'.foldl mix s := by
  obtain ⟨k, hne, hunique⟩ := hone
  have hk : k < l'.length := by
    by_contra hk
    exact hne (by rw [List.getElem?_eq_none (by omega), List.getElem?_eq_none (by omega)])
  obtain ⟨a, ha⟩ : ∃ a, l[k]? = some a := ⟨_, List.getElem?_eq_getElem (by omega)⟩
  -- `l` is `l'` with its one place changed
  have hset : l = l'.set k a := by
    refine List.ext_getElem? fun i => ?_
    by_cases hi : i = k
    · rw [hi, List.getElem?_set_self hk, ha]
    · rw [List.getElem?_set_ne (Ne.symm hi)]
      by_contra hdiffer
      exact hi (hunique i hdiffer)
  rw [ha] at hne
  rw [hset]
  exact h.foldl_set_ne hk hne.symm s

end Mixing

end Slung.Lib
