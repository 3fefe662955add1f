import Mathlib.Data.List.Induction
import Mathlib.Data.Set.Lattice
import Slung.Lib.LwwMap

/-!
# Slung.Lib.Join — last-writer-wins maps as joins

A map whose values carry stamps is the join of a set of entries if it holds, for every key, a newest one of the
set.  Where no two values of a key share a stamp there is one such map, so it does not matter in which order or
how often the entries arrive: every write and every merge adds to the set (`IsJoin.write`, `IsJoin.merge`), and
equal sets give equal maps (`IsJoin.unique`).
-/

namespace Slung.Lib

variable {κ ν τ : Type}

/-- No two values of a key share a stamp. -/
def NoTies (stamp : ν → τ) (S : Set (κ × ν)) : Prop :=
  ∀ k v v', (k, v) ∈ S → (k, v') ∈ S → stamp v = stamp v' → v = v'

theorem NoTies.mono {stamp : ν → τ} {S T : Set (κ × ν)} (h : NoTies stamp T) (hST : S ⊆ T) : NoTies stamp S :=
  fun k v v' hv hv' => h k v v' (hST hv) (hST hv')

variable [DecidableEq κ]

/-- The entries of a map. -/
def contents (m : FMap κ ν) : Set (κ × ν) := {e | m.lookup e.1 = some e.2}

@[simp] theorem mem_contents {m : FMap κ ν} {k : κ} {v : ν} : (k, v) ∈ contents m ↔ m.lookup k = some v := Iff.rfl

theorem noTies_contents (stamp : ν → τ) (m : FMap κ ν) : NoTies stamp (contents m) :=
  fun _ _ _ hv hv' _ => Option.some.inj (hv.symm.trans hv')

section

variable [LinearOrder τ] {stamp : ν → τ} {m m' : FMap κ ν} {S T : Set (κ × ν)} {k : κ} {v : ν}

/-- The map holds a newest value of every key of the set, and nothing else. -/
structure IsJoin (stamp : ν → τ) (S : Set (κ × ν)) (m : FMap κ ν) : Prop where
  mem : ∀ k v, m.lookup k = some v → (k, v) ∈ S
  newest : ∀ k v, (k, v) ∈ S → ∃ w, m.lookup k = some w ∧ stamp v ≤ stamp w

variable (stamp) in
theorem isJoin_contents (m : FMap κ ν) : IsJoin stamp (contents m) m :=
  ⟨fun _ _ h => h, fun _ v h => ⟨v, h, le_rfl⟩⟩

/-- **A set of entries without ties has one join.** -/
theorem IsJoin.unique (h : IsJoin stamp S m) (h' : IsJoin stamp S m') (hties : NoTies stamp S) : m = m' := by
  have hle : ∀ {m m' : FMap κ ν}, IsJoin stamp S m → IsJoin stamp S m' → ∀ k v, m.lookup k = some v →
      m'.lookup k = some v := by
    intro m m' h h' k v hv
    obtain ⟨w, hw, hvw⟩ := h'.newest k v (h.mem k v hv)
    obtain ⟨u, hu, hwu⟩ := h.newest k w (h'.mem k w hw)
    obtain rfl := Option.some.inj (hv.symm.trans hu)
    rw [hties k v w (h.mem k v hv) (h'.mem k w hw) (le_antisymm hvw hwu)]
    exact hw
  refine Finmap.ext_lookup fun k => ?_
  ext v
  exact ⟨hle h h' k v, hle h' h k v⟩

/-- A write adds its entry. -/
theorem IsJoin.write (h : IsJoin stamp S m) (k : κ) (v : ν) :
    IsJoin stamp (insert (k, v) S) (write stamp m k v) := by
  constructor
  · intro k' w hw
    by_cases hk : k' = k
    · subst hk
      rcases lookup_write_self stamp m k' v with hself | ⟨c, hc, -, hself⟩
      · rw [hself] at hw
        exact Set.mem_insert_iff.mpr (Or.inl (by rw [Option.some.inj hw]))
      · rw [hself] at hw
        exact Set.mem_insert_of_mem _ (Option.some.inj hw ▸ h.mem k' c hc)
    · rw [lookup_write_ne hk] at hw
      exact Set.mem_insert_of_mem _ (h.mem k' w hw)
  · rintro k' w (hw | hw)
    · obtain ⟨rfl, rfl⟩ := Prod.mk.inj hw
      exact holdsSince_write_self m k' w
    · obtain ⟨c, hc, hle⟩ := h.newest k' w hw
      exact HoldsSince.write ⟨c, hc, hle⟩

theorem IsJoin.foldl_write (h : IsJoin stamp S m) (es : List (κ × ν)) :
    IsJoin stamp (S ∪ {e | e ∈ es}) (es.foldl (fun m e => Lib.write stamp m e.1 e.2) m) := by
  induction es generalizing S m with
  | nil => simpa using h
  | cons e es ih =>
    have hsets : S ∪ {x | x ∈ e :: es} = insert e S ∪ {x | x ∈ es} := by
      ext x
      simp only [List.mem_cons, Set.mem_union, Set.mem_ofPred_eq, Set.mem_insert_iff]
      tauto
    rw [hsets]
    exact ih (h.write e.1 e.2)

/-- Entries that do not exceed what a map holds under their key add nothing to it. -/
theorem isJoin_foldl_write_exceeding (m : FMap κ ν) (es : List (κ × ν)) :
    IsJoin stamp (contents m ∪ {e | e ∈ es ∧ accepts stamp m e.1 e.2 = true})
      (es.foldl (fun m e => Lib.write stamp m e.1 e.2) m) := by
  induction es using List.reverseRecOn with
  | nil => simpa using isJoin_contents stamp m
  | append_singleton es e ih =>
    rw [List.foldl_append, List.foldl_cons, List.foldl_nil]
    cases hacc : accepts stamp m e.1 e.2 with
    | true =>
      have hsets : contents m ∪ {x | x ∈ es ++ [e] ∧ accepts stamp m x.1 x.2 = true} =
          insert e (contents m ∪ {x | x ∈ es ∧ accepts stamp m x.1 x.2 = true}) := by
        ext x
        simp only [List.mem_append, List.mem_singleton, Set.mem_union, Set.mem_ofPred_eq, Set.mem_insert_iff]
        constructor
        · rintro (hx | ⟨hx | hx, hwins⟩)
          · exact Or.inr (Or.inl hx)
          · exact Or.inr (Or.inr ⟨hx, hwins⟩)
          · exact Or.inl hx
        · rintro (rfl | hx | ⟨hx, hwins⟩)
          · exact Or.inr ⟨Or.inr rfl, hacc⟩
          · exact Or.inl hx
          · exact Or.inr ⟨Or.inl hx, hwins⟩
      rw [hsets]
      exact ih.write e.1 e.2
    | false =>
      obtain ⟨c, hc, hle⟩ := exists_ge_of_rejects hacc
      obtain ⟨w, hw, hcw⟩ := ih.newest e.1 c (Or.inl hc)
      have hsets : contents m ∪ {x | x ∈ es ++ [e] ∧ accepts stamp m x.1 x.2 = true} =
          contents m ∪ {x | x ∈ es ∧ accepts stamp m x.1 x.2 = true} := by
        ext x
        simp only [List.mem_append, List.mem_singleton, Set.mem_union, Set.mem_ofPred_eq]
        constructor
        · rintro (hx | ⟨hx | rfl, hwins⟩)
          · exact Or.inl hx
          · exact Or.inr ⟨hx, hwins⟩
          · rw [hacc] at hwins
            cases hwins
        · rintro (hx | ⟨hx, hwins⟩)
          · exact Or.inl hx
          · exact Or.inr ⟨Or.inl hx, hwins⟩
      rw [hsets, write_of_ge hw (hle.trans hcw)]
      exact ih

/-- **Writing the entries of a join one by one joins the two sets.** -/
theorem IsJoin.merge (h : IsJoin stamp S m) (h' : IsJoin stamp T m') {es : List (κ × ν)}
    (hes : ∀ k v, (k, v) ∈ es ↔ m'.lookup k = some v) :
    IsJoin stamp (S ∪ T) (es.foldl (fun m e => Lib.write stamp m e.1 e.2) m) := by
  have hfold := h.foldl_write es
  constructor
  · intro k v hv
    rcases hfold.mem k v hv with hS | hmem
    · exact Or.inl hS
    · exact Or.inr (h'.mem k v ((hes k v).mp hmem))
  · rintro k v (hv | hv)
    · exact hfold.newest k v (Or.inl hv)
    · obtain ⟨w, hw, hvw⟩ := h'.newest k v hv
      obtain ⟨u, hu, hwu⟩ := hfold.newest k w (Or.inr ((hes k w).mpr hw))
      exact ⟨u, hu, hvw.trans hwu⟩

end

end Slung.Lib
