import Mathlib.Data.List.Basic

/-!
# Slung.Lib.Stopping — loops that end with the first item that stops them

`runUntil step s items` takes the items one after the other; each changes the state and may stop the loop.
`runUntil_none_iff` says when the loop comes to its end and `runUntil_some` which item ended it.
-/

namespace Slung.Lib

variable {σ α ε : Type*} (step : σ → α → σ × Option ε)

def runUntil : σ → List α → σ × Option ε
  | s, [] => (s, none)
  | s, a :: rest =>
    match step s a with
    | (s, none) => runUntil s rest
    | (s, some e) => (s, some e)

/-- Each item with the state that it is met in, as if no item stopped the loop. -/
def met : σ → List α → List (σ × α)
  | _, [] => []
  | s, a :: rest => (s, a) :: met (step s a).1 rest

variable {step} {s s' : σ} {a : α} {items : List α} {e : ε}

theorem runUntil_cons_none (h : (step s a).2 = none) :
    runUntil step s (a :: items) = runUntil step (step s a).1 items := by
  rw [runUntil]
  generalize step s a = next at h
  obtain ⟨s₁, stop⟩ := next
  obtain rfl : stop = none := h
  rfl

theorem runUntil_cons_some (h : (step s a).2 = some e) :
    runUntil step s (a :: items) = ((step s a).1, some e) := by
  rw [runUntil]
  generalize step s a = next at h
  obtain ⟨s₁, stop⟩ := next
  obtain rfl : stop = some e := h
  rfl

theorem runUntil_singleton (step : σ → α → σ × Option ε) (s : σ) (a : α) : runUntil step s [a] = step s a := by
  cases h : (step s a).2 with
  | none => exact (runUntil_cons_none h).trans (Prod.ext rfl h.symm)
  | some e => exact (runUntil_cons_some h).trans (Prod.ext rfl h.symm)

theorem runUntil_append_none (h : runUntil step s items = (s', none)) (rest : List α) :
    runUntil step s (items ++ rest) = runUntil step s' rest := by
  induction items generalizing s with
  | nil =>
    obtain ⟨rfl, -⟩ := Prod.mk.inj h
    rfl
  | cons a items ih =>
    cases hstep : (step s a).2 with
    | none =>
      rw [runUntil_cons_none hstep] at h
      rw [List.cons_append, runUntil_cons_none hstep]
      exact ih h
    | some e =>
      rw [runUntil_cons_some hstep] at h
      cases (Prod.mk.inj h).2

/-- **The loop comes to its end iff no item stops it in the state that it is met in.** -/
theorem runUntil_none_iff :
    (runUntil step s items).2 = none ↔ ∀ p ∈ met step s items, (step p.1 p.2).2 = none := by
  induction items generalizing s with
  | nil => exact iff_of_true rfl nofun
  | cons a items ih =>
    rw [met, List.forall_mem_cons]
    cases hstep : (step s a).2 with
    | none => rw [runUntil_cons_none hstep, ih, and_iff_right rfl]
    | some e =>
      rw [runUntil_cons_some hstep]
      exact iff_of_false nofun fun h => nomatch h.1

/-- **A loop that is stopped is stopped by one item, behind items that did not stop it.** -/
theorem runUntil_some (h : runUntil step s items = (s', some e)) :
    ∃ before a after s₁, items = before ++ a :: after ∧ runUntil step s before = (s₁, none) ∧
      step s₁ a = (s', some e) := by
  induction items generalizing s with
  | nil => cases (Prod.mk.inj h).2
  | cons a items ih =>
    cases hstep : (step s a).2 with
    | none =>
      rw [runUntil_cons_none hstep] at h
      obtain ⟨before, b, after, s₁, rfl, hbefore, hlast⟩ := ih h
      exact ⟨a :: before, b, after, s₁, rfl, (runUntil_cons_none hstep).trans hbefore, hlast⟩
    | some e' =>
      rw [runUntil_cons_some hstep] at h
      obtain ⟨rfl, heq⟩ := Prod.mk.inj h
      exact ⟨[], a, items, s, rfl, rfl, Prod.ext rfl (hstep.trans heq)⟩

/-- What no item changes is as before, however the loop ends. -/
theorem runUntil_frame {β : Type*} (f : σ → β) (h : ∀ a ∈ items, ∀ s, f (step s a).1 = f s) (s : σ) :
    f (runUntil step s items).1 = f s := by
  induction items generalizing s with
  | nil => rfl
  | cons a items ih =>
    obtain ⟨ha, hrest⟩ := List.forall_mem_cons.mp h
    cases hstep : (step s a).2 with
    | none => rw [runUntil_cons_none hstep, ih hrest, ha]
    | some e => rw [runUntil_cons_some hstep, ha]

end Slung.Lib
