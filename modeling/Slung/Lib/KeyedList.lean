import Mathlib.Data.List.Nodup

/-!
# Slung.Lib.KeyedList — lists whose elements have distinct keys

With distinct keys, taking out the first element with a key takes out every one, and looking one up finds the
one that there is.
-/

namespace Slung.Lib

variable {α β : Type} [BEq β] [LawfulBEq β] {f : α → β} {l : List α}

/-- Taking a key out is filtering it out. -/
theorem eraseP_eq_filter (h : (l.map f).Nodup) (b : β) :
    (l.eraseP fun x => f x == b) = l.filter fun x => f x != b := by
  induction l with
  | nil => rfl
  | cons a l ih =>
    rw [List.map_cons, List.nodup_cons] at h
    by_cases ha : f a = b
    · have hl : ∀ x ∈ l, f x ≠ b := fun x hx he => h.1 (ha ▸ he ▸ List.mem_map_of_mem hx)
      rw [List.eraseP_cons_of_pos (by simpa using ha), List.filter_cons_of_neg (by simpa using ha)]
      exact (List.filter_eq_self.mpr fun x hx => by simpa using hl x hx).symm
    · rw [List.eraseP_cons_of_neg (by simpa using ha), List.filter_cons_of_pos (by simpa using ha), ih h.2]

/-- The element that is found is the one with the key. -/
theorem find?_eq_some_iff_mem (h : (l.map f).Nodup) {b : β} {x : α} :
    (l.find? fun y => f y == b) = some x ↔ x ∈ l ∧ f x = b := by
  constructor
  · intro hfind
    exact ⟨List.mem_of_find?_eq_some hfind, by simpa using List.find?_some hfind⟩
  · rintro ⟨hx, hfx⟩
    obtain ⟨y, hy⟩ := Option.isSome_iff_exists.mp
      (List.find?_isSome.mpr ⟨x, hx, by simpa using hfx⟩ : (l.find? fun y => f y == b).isSome)
    have hfy : f y = b := by simpa using List.find?_some hy
    rw [hy, List.inj_on_of_nodup_map h (List.mem_of_find?_eq_some hy) hx (hfy.trans hfx.symm)]

/-- What has a key is what is found under it. -/
theorem filter_eq_toList_find? (h : (l.map f).Nodup) (b : β) :
    (l.filter fun x => f x == b) = (l.find? fun x => f x == b).toList := by
  induction l with
  | nil => rfl
  | cons a l ih =>
    rw [List.map_cons, List.nodup_cons] at h
    by_cases ha : f a = b
    · have hl : ∀ x ∈ l, ¬ (f x == b) = true := fun x hx he =>
        h.1 (ha.trans (beq_iff_eq.mp he).symm ▸ List.mem_map_of_mem hx)
      rw [List.filter_cons_of_pos (by simpa using ha), List.find?_cons_of_pos (by simpa using ha),
        List.filter_eq_nil_iff.mpr hl]
      rfl
    · rw [List.filter_cons_of_neg (by simpa using ha), List.find?_cons_of_neg (by simpa using ha), ih h.2]

/-- Put an element in the place of the one with its key, or at the end. -/
def putKey (f : α → β) (x : α) (l : List α) : List α :=
  if l.any fun y => f y == f x then l.map fun y => if f y == f x then x else y else l ++ [x]

/-- A new key goes to the end. -/
theorem putKey_of_new {x : α} (h : ∀ y ∈ l, f y ≠ f x) : putKey f x l = l ++ [x] := by
  rw [putKey, if_neg]
  simpa using h

omit [LawfulBEq β] in
theorem mem_of_mem_putKey {x y : α} (h : y ∈ putKey f x l) : y = x ∨ y ∈ l := by
  unfold putKey at h
  split_ifs at h
  · obtain ⟨z, hz, hy⟩ := List.mem_map.mp h
    split_ifs at hy
    · exact Or.inl hy.symm
    · exact Or.inr (hy ▸ hz)
  · rcases List.mem_append.mp h with hy | hy
    · exact Or.inr hy
    · exact Or.inl (List.mem_singleton.mp hy)

end Slung.Lib
