import Mathlib.Data.List.Basic

/-!
# Slung.Lib.JoinedKey — two lists in one key, with a separator between them

Joining is injective as long as the separator does not occur in the first part; otherwise a part of the one
pair may have moved over the separator into the other (`joinKey_eq_iff`).
-/

namespace Slung.Lib

variable {α : Type} {sep : α} {a b a' b' : List α}

/-- The two parts with the separator between them. -/
def joinKey (sep : α) (a b : List α) : List α := a ++ sep :: b

/-- The parts of `(a', b')` are those of `(a, b)` with the separator further to the right. -/
def Shifted (sep : α) (a b a' b' : List α) : Prop := ∃ c, a' = a ++ sep :: c ∧ b = c ++ sep :: b'

/-- **When two pairs have the same key.** -/
theorem joinKey_eq_iff : joinKey sep a b = joinKey sep a' b' ↔
    a = a' ∧ b = b' ∨ Shifted sep a b a' b' ∨ Shifted sep a' b' a b := by
  unfold joinKey Shifted
  constructor
  · intro h
    rcases List.append_eq_append_iff.mp h with ⟨c, hc, hrest⟩ | ⟨c, hc, hrest⟩
    · cases c with
      | nil =>
        rw [List.append_nil] at hc
        exact Or.inl ⟨hc.symm, (List.cons.inj hrest).2⟩
      | cons x c =>
        obtain ⟨rfl, rfl⟩ := List.cons.inj hrest
        exact Or.inr (Or.inl ⟨c, hc, rfl⟩)
    · cases c with
      | nil =>
        rw [List.append_nil] at hc
        exact Or.inl ⟨hc, (List.cons.inj hrest).2.symm⟩
      | cons x c =>
        obtain ⟨rfl, rfl⟩ := List.cons.inj hrest
        exact Or.inr (Or.inr ⟨c, hc, rfl⟩)
  · rintro (⟨rfl, rfl⟩ | ⟨c, rfl, rfl⟩ | ⟨c, rfl, rfl⟩) <;> simp

/-- Without the separator in the first part, the key tells the parts. -/
theorem joinKey_inj (ha : sep ∉ a) (ha' : sep ∉ a') (h : joinKey sep a b = joinKey sep a' b') :
    a = a' ∧ b = b' := by
  rcases joinKey_eq_iff.mp h with hparts | ⟨c, rfl, -⟩ | ⟨c, rfl, -⟩
  · exact hparts
  · exact absurd (by simp) ha'
  · exact absurd (by simp) ha

/-- With the same first part, it tells the second. -/
theorem joinKey_left_inj : joinKey sep a b = joinKey sep a b' ↔ b = b' := by
  simp [joinKey]

end Slung.Lib
