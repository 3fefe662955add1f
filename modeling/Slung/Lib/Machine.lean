import Mathlib.Data.Nat.Notation
import Mathlib.Logic.Relation

/-!
# Slung.Lib.Machine — labelled machines and their runs

A machine takes a step for a label or refuses it.  `Reaches P s₀ s`: some run from `s₀` ends in `s`, all
of whose labels were allowed by `P` in the states they were taken from.  `P` is where a theorem says which
calls and which outcomes it speaks about.
-/

namespace Slung.Lib

/-- A labelled machine: `none` when the label is not enabled. -/
structure Machine (σ ℓ : Type) where
  step : σ → ℓ → Option σ

namespace Machine

variable {σ ℓ : Type} (M : Machine σ ℓ)

/-- The states that runs with allowed labels end in. -/
inductive Reaches (P : σ → ℓ → Prop) (s₀ : σ) : σ → Prop where
  | refl : Reaches P s₀ s₀
  | step {s s' : σ} {l : ℓ} : Reaches P s₀ s → P s l → M.step s l = some s' → Reaches P s₀ s'

variable {M} {P Q : σ → ℓ → Prop} {s₀ s s' : σ}

/-- **Invariants**: what holds at the start and is kept by every allowed step holds at the end of every
run. -/
theorem Reaches.invariant {I : σ → Prop} (h : M.Reaches P s₀ s) (h0 : I s₀)
    (hstep : ∀ s s' l, I s → P s l → M.step s l = some s' → I s') : I s := by
  induction h with
  | refl => exact h0
  | step _ hP hs ih => exact hstep _ _ _ ih hP hs

theorem Reaches.mono (hPQ : ∀ s l, P s l → Q s l) (h : M.Reaches P s₀ s) : M.Reaches Q s₀ s := by
  induction h with
  | refl => exact .refl
  | step _ hP hs ih => exact .step ih (hPQ _ _ hP) hs

theorem Reaches.trans {s₁ s₂ : σ} (h : M.Reaches P s₀ s₁) (h' : M.Reaches P s₁ s₂) :
    M.Reaches P s₀ s₂ := by
  induction h' with
  | refl => exact h
  | step _ hP hs ih => exact .step ih hP hs

/-- **Provenance**: what does not hold at the start and holds at the end was brought about by a step of the run. -/
theorem Reaches.born {B : σ → Prop} (h : M.Reaches P s₀ s) (h0 : ¬ B s₀) (hB : B s) : ∃ s₁ l s₂,
    M.Reaches P s₀ s₁ ∧ ¬ B s₁ ∧ P s₁ l ∧ M.step s₁ l = some s₂ ∧ B s₂ ∧ M.Reaches P s₂ s := by
  induction h with
  | refl => exact absurd hB h0
  | @step s₁ s₂ l hrun hP hs ih =>
    by_cases hbefore : B s₁
    · obtain ⟨a, l', b, hpre, hno, hallowed, hab, hyes, hpost⟩ := ih hbefore
      exact ⟨a, l', b, hpre, hno, hallowed, hab, hyes, .step hpost hP hs⟩
    · exact ⟨s₁, l, s₂, hrun, hbefore, hP, hs, hB, .refl⟩

variable (M) in
/-- Take the steps of a list of labels, as long as each is allowed and enabled. -/
def runAllowed (P : σ → ℓ → Prop) [∀ s l, Decidable (P s l)] (s : σ) : List ℓ → Option σ
  | [] => some s
  | l :: ls =>
    if P s l then
      match M.step s l with
      | some s' => runAllowed P s' ls
      | none => none
    else none

/-- A list of allowed labels is a run. -/
theorem reaches_of_runAllowed [∀ s l, Decidable (P s l)] {ls : List ℓ}
    (h : M.runAllowed P s ls = some s') : M.Reaches P s s' := by
  induction ls generalizing s with
  | nil =>
    obtain rfl := Option.some.inj h
    exact .refl
  | cons l ls ih =>
    rw [runAllowed] at h
    by_cases hP : P s l
    · rw [if_pos hP] at h
      cases hs : M.step s l with
      | none => rw [hs] at h; cases h
      | some s₁ =>
        rw [hs] at h
        exact (Reaches.step .refl hP hs).trans (ih h)
    · rw [if_neg hP] at h
      cases h

/-- A list of labels that are allowed everywhere is a run. -/
theorem reaches_of_foldlM {ls : List ℓ} (hP : ∀ l ∈ ls, ∀ s, P s l) (h : ls.foldlM M.step s = some s') :
    M.Reaches P s s' := by
  induction ls generalizing s with
  | nil =>
    obtain rfl := Option.some.inj h
    exact .refl
  | cons l ls ih =>
    rw [List.foldlM_cons] at h
    obtain ⟨s₁, hs, hrest⟩ := Option.bind_eq_some_iff.mp h
    have hfirst : M.Reaches P s s₁ := .step .refl (hP l (by simp) s) hs
    exact hfirst.trans (ih (fun l' hl' => hP l' (by simp [hl'])) hrest)

/-- **Amortised bounds**: if a marked step lowers a potential by one, and no step raises it but those that `raises`
names, by at most `k`, then a run takes no more marked steps than the potential that it started with and `k` for each
step that raised it. -/
theorem countP_add_le {φ : σ → ℕ} {marked raises : ℓ → Bool} {k : ℕ}
    (hstep : ∀ s l s', M.step s l = some s' →
      φ s' + (if marked l then 1 else 0) ≤ φ s + if raises l then k else 0) {ls : List ℓ}
    (h : ls.foldlM M.step s = some s') : ls.countP marked + φ s' ≤ φ s + k * ls.countP raises := by
  induction ls generalizing s with
  | nil =>
    obtain rfl := Option.some.inj h
    simp
  | cons l ls ih =>
    rw [List.foldlM_cons] at h
    obtain ⟨s₁, hs, hrest⟩ := Option.bind_eq_some_iff.mp h
    have hfirst := hstep s l s₁ hs
    have hrun := ih hrest
    rw [List.countP_cons, List.countP_cons, Nat.mul_add]
    by_cases hraise : raises l
    · rw [if_pos hraise] at hfirst ⊢
      omega
    · rw [if_neg hraise] at hfirst ⊢
      omega

end Machine

/-! ## Calls that always return -/

/-- **Exact conditions over runs**: if a call that fits keeps an invariant of good states, and one that does not
leads to a bad state, then all states of a run are good iff every call fits the state that it is made in. -/
theorem forall_foldl_iff {σ α : Type} {step : σ → α → σ} (Inv Good : σ → Prop) (Fits : σ → α → Prop) {s₀ : σ}
    (h0 : Inv s₀) (hgood : ∀ s, Inv s → Good s) (hfits : ∀ s a, Inv s → Fits s a → Inv (step s a))
    (hnot : ∀ s a, Inv s → ¬ Fits s a → ¬ Good (step s a)) (calls : List α) :
    (∀ before after, calls = before ++ after → Good (before.foldl step s₀)) ↔
      ∀ before a after, calls = before ++ a :: after → Fits (before.foldl step s₀) a := by
  induction calls generalizing s₀ with
  | nil =>
    refine iff_of_true (fun before after h => ?_) fun before a after h => ?_
    · obtain ⟨rfl, -⟩ := List.append_eq_nil_iff.mp h.symm
      exact hgood _ h0
    · exact absurd (List.append_eq_nil_iff.mp h.symm).2 (List.cons_ne_nil a after)
  | cons a calls ih =>
    constructor
    · intro hall
      have hfirst : Fits s₀ a := Classical.byContradiction fun hno => hnot s₀ a h0 hno (hall [a] calls rfl)
      have hrest := (ih (hfits s₀ a h0 hfirst)).mp fun before after h =>
        hall (a :: before) after (congrArg (a :: ·) h)
      intro before a' after h
      cases before with
      | nil =>
        obtain ⟨rfl, -⟩ := List.cons.inj h
        exact hfirst
      | cons b before =>
        obtain ⟨rfl, htail⟩ := List.cons.inj h
        exact hrest before a' after htail
    · intro hall
      have hrest := (ih (hfits s₀ a h0 (hall [] a calls rfl))).mpr fun before a' after h =>
        hall (a :: before) a' after (congrArg (a :: ·) h)
      intro before after h
      cases before with
      | nil => exact hgood _ h0
      | cons b before =>
        obtain ⟨rfl, htail⟩ := List.cons.inj h
        exact hrest before after htail

end Slung.Lib
