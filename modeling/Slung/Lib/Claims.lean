import Mathlib.Data.Finset.Insert
import Mathlib.Data.Finset.Erase
import Mathlib.Logic.Function.Basic

/-!
# Slung.Lib.Claims — a register of exclusive claims

Any number of holders share a register of claimed keys; a holder claims a key that is not in the register and takes it
out again.  `Exclusive` says that the register is what the holders hold and that no two hold one key.
-/

namespace Slung.Lib

variable {ι κ : Type}

structure Exclusive (holding : ι → Option κ) (claims : Finset κ) : Prop where
  mem_iff : ∀ key, key ∈ claims ↔ ∃ i, holding i = some key
  unique : ∀ i j key, holding i = some key → holding j = some key → i = j

namespace Exclusive

variable {holding : ι → Option κ} {claims : Finset κ}

theorem empty {holding : ι → Option κ} (h : ∀ i, holding i = none) : Exclusive holding (∅ : Finset κ) :=
  ⟨fun key => by simp [h], fun i j key hi => by simp [h] at hi⟩

variable [DecidableEq ι]

/-- A holder moves on with what it holds. -/
theorem keep (h : Exclusive holding claims) {held : Option κ} {i : ι} (hi : holding i = held) :
    Exclusive (Function.update holding i held) claims := by
  rwa [← hi, Function.update_eq_self]

variable [DecidableEq κ]

/-- A free key is claimed. -/
theorem acquire (h : Exclusive holding claims) {key : κ} (hfree : key ∉ claims) {i : ι} (hi : holding i = none) :
    Exclusive (Function.update holding i (some key)) (insert key claims) := by
  have hother : ∀ j key', Function.update holding i (some key) j = some key' → j ≠ i → holding j = some key' := by
    intro j key' hj hne
    rwa [Function.update_of_ne hne] at hj
  have hnobody : ∀ j, holding j ≠ some key := fun j hj => hfree ((h.mem_iff key).mpr ⟨j, hj⟩)
  constructor
  · intro key'
    rw [Finset.mem_insert, h.mem_iff]
    constructor
    · rintro (rfl | ⟨j, hj⟩)
      · exact ⟨i, Function.update_self ..⟩
      · refine ⟨j, ?_⟩
        rw [Function.update_of_ne, hj]
        rintro rfl
        rw [hi] at hj
        cases hj
    · rintro ⟨j, hj⟩
      by_cases hji : j = i
      · rw [hji, Function.update_self] at hj
        exact Or.inl (Option.some.inj hj).symm
      · exact Or.inr ⟨j, hother j key' hj hji⟩
  · intro j k key' hj hk
    by_cases hji : j = i
    · by_cases hki : k = i
      · rw [hji, hki]
      · rw [hji, Function.update_self] at hj
        exact absurd ((hother k key' hk hki).trans hj.symm) (hnobody k)
    · by_cases hki : k = i
      · rw [hki, Function.update_self] at hk
        exact absurd ((hother j key' hj hji).trans hk.symm) (hnobody j)
      · exact h.unique j k key' (hother j key' hj hji) (hother k key' hk hki)

/-- A holder gives its key back. -/
theorem release (h : Exclusive holding claims) {key : κ} {i : ι} (hi : holding i = some key) :
    Exclusive (Function.update holding i none) (claims.erase key) := by
  have hother : ∀ j key', Function.update holding i none j = some key' → j ≠ i ∧ holding j = some key' := by
    intro j key' hj
    by_cases hji : j = i
    · rw [hji, Function.update_self] at hj
      cases hj
    · exact ⟨hji, by rwa [Function.update_of_ne hji] at hj⟩
  constructor
  · intro key'
    rw [Finset.mem_erase, h.mem_iff]
    constructor
    · rintro ⟨hne, j, hj⟩
      refine ⟨j, ?_⟩
      rw [Function.update_of_ne, hj]
      rintro rfl
      rw [hi] at hj
      exact hne (Option.some.inj hj).symm
    · rintro ⟨j, hj⟩
      obtain ⟨hji, hj⟩ := hother j key' hj
      refine ⟨?_, j, hj⟩
      rintro rfl
      exact hji (h.unique j i key' hj hi)
  · intro j k key' hj hk
    exact h.unique j k key' (hother j key' hj).2 (hother k key' hk).2

end Exclusive

end Slung.Lib
