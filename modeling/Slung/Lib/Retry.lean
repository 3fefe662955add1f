import Mathlib.Data.List.Infix

/-!
# Slung.Lib.Retry — doing the beginning of a list over again

A fold whose steps are done one after the other, and an attempt at it that may stop anywhere and start over.
If doing a beginning again changes nothing once that much has been done, then any number of attempts that
stopped half way leave no trace in the attempt that goes to the end.
-/

namespace Slung.Lib

variable {σ α : Type} (f : σ → α → σ) (s : σ) (xs : List α)

/-- What has been done can be done again without effect. -/
def Repeatable : Prop :=
  ∀ done again : List α, done <+: xs → again <+: done → again.foldl f (done.foldl f s) = done.foldl f s

variable {f s xs}

/-- After any attempts the state is that of the longest one. -/
theorem Repeatable.attempts (h : Repeatable f s xs) {ps : List (List α)} (hps : ∀ p ∈ ps, p <+: xs) :
    ∃ done, done <+: xs ∧ ps.flatten.foldl f s = done.foldl f s := by
  induction ps using List.reverseRecOn with
  | nil => exact ⟨[], List.nil_prefix, rfl⟩
  | append_singleton ps p ih =>
    obtain ⟨done, hdone, hfold⟩ := ih fun p' hp' => hps p' (List.mem_append_left _ hp')
    have hp : p <+: xs := hps p (by simp)
    rw [List.flatten_append, List.foldl_append, hfold, List.flatten_singleton]
    rcases List.prefix_or_prefix_of_prefix hp hdone with hshort | ⟨rest, rfl⟩
    · exact ⟨done, hdone, h done p hdone hshort⟩
    · refine ⟨done ++ rest, hp, ?_⟩
      rw [List.foldl_append, h done done hdone List.prefix_rfl, ← List.foldl_append]

/-- **Attempts leave no trace** in the one that goes to the end. -/
theorem Repeatable.foldl_attempts (h : Repeatable f s xs) {ps : List (List α)} (hps : ∀ p ∈ ps, p <+: xs) :
    (ps.flatten ++ xs).foldl f s = xs.foldl f s := by
  obtain ⟨done, ⟨rest, rfl⟩, hfold⟩ := h.attempts hps
  rw [List.foldl_append, hfold, List.foldl_append,
    h done done (List.prefix_append _ _) List.prefix_rfl, ← List.foldl_append]

end Slung.Lib
