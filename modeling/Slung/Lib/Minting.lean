import Mathlib.Algebra.Order.Ring.Nat
import Mathlib.Data.List.Nodup

/-!
# Slung.Lib.Minting — ids from a counter

A counter of 32 bits gives out its value and moves on; it stops before it would overflow.  What a list of things
gets from a counter is `numbered`: consecutive ids, all different as long as there are enough of them.
-/

namespace Slung.Lib

/-- The next id of a counter and the counter after it; `none` when the checked addition overflows. -/
def mint (next : UInt32) : Option (UInt32 × UInt32) :=
  if next = 0xffffffff then none else some (next, next + 1)

theorem mint_eq_some {next id next' : UInt32} (h : mint next = some (id, next')) :
    id = next ∧ next'.toNat = next.toNat + 1 := by
  unfold mint at h
  by_cases hmax : next = 0xffffffff
  · rw [if_pos hmax] at h
    cases h
  rw [if_neg hmax] at h
  obtain ⟨rfl, rfl⟩ := Prod.mk.inj (Option.some.inj h)
  have hlt : next.toNat ≠ 0xffffffff := fun hn => hmax (UInt32.toNat_inj.mp hn)
  have hsize := next.toNat_lt
  refine ⟨rfl, ?_⟩
  rw [UInt32.toNat_add]
  show (next.toNat + 1) % 2 ^ 32 = _
  omega

variable {α : Type}

/-- The elements of a list with the ids from `start` on. -/
def numbered (start : ℕ) : List α → List (α × UInt32)
  | [] => []
  | a :: l => (a, UInt32.ofNat start) :: numbered (start + 1) l

@[simp] theorem numbered_nil (start : ℕ) : numbered start ([] : List α) = [] := rfl

@[simp] theorem length_numbered (start : ℕ) (l : List α) : (numbered start l).length = l.length := by
  induction l generalizing start with
  | nil => rfl
  | cons a l ih => rw [numbered, List.length_cons, ih, List.length_cons]

/-- An id is one from `start` on. -/
theorem mem_numbered {start : ℕ} {l : List α} {x : α × UInt32} (h : x ∈ numbered start l) :
    ∃ i, start ≤ i ∧ i < start + l.length ∧ x.2 = UInt32.ofNat i := by
  induction l generalizing start with
  | nil => cases h
  | cons a l ih =>
    rw [numbered, List.mem_cons] at h
    rcases h with rfl | h
    · exact ⟨start, Nat.le_refl _, by simp, rfl⟩
    · obtain ⟨i, hle, hlt, hi⟩ := ih h
      exact ⟨i, by omega, by rw [List.length_cons]; omega, hi⟩

/-- The ids are different. -/
theorem nodup_numbered {start : ℕ} {l : List α} (h : start + l.length ≤ 2 ^ 32) :
    ((numbered start l).map Prod.snd).Nodup := by
  induction l generalizing start with
  | nil => simp
  | cons a l ih =>
    rw [List.length_cons] at h
    rw [numbered, List.map_cons, List.nodup_cons]
    refine ⟨?_, ih (by omega)⟩
    intro hmem
    obtain ⟨x, hx, hid⟩ := List.mem_map.mp hmem
    obtain ⟨i, hle, hlt, hi⟩ := mem_numbered hx
    have heq : UInt32.ofNat i = UInt32.ofNat start := hi.symm.trans hid
    have hnat := congrArg UInt32.toNat heq
    rw [UInt32.toNat_ofNat_of_lt' (by show i < 2 ^ 32; omega),
      UInt32.toNat_ofNat_of_lt' (by show start < 2 ^ 32; omega)] at hnat
    omega

end Slung.Lib
