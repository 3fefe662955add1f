/-!
# Slung.Lib.Object — sequential objects and what explains a log of calls

An object answers one call at a time.  A log of calls with their answers is explained by it if the calls, made one
after another in the order of the log, get these answers.  Whoever sees some of the calls only may take the object
for another one (`Explains.project`).
-/

namespace Slung.Lib

structure Object (σ α ρ : Type) where
  call : σ → α → σ × ρ

namespace Object

variable {σ α ρ : Type} (O : Object σ α ρ)

/-- The calls of the log lead from `s` to `s'` with the answers of the log. -/
def Explains : σ → List (α × ρ) → σ → Prop
  | s, [], s' => s = s'
  | s, (a, r) :: log, s' => (O.call s a).2 = r ∧ Explains (O.call s a).1 log s'

variable {O} {s s₁ s' : σ} {log log' : List (α × ρ)}

theorem Explains.append (h : O.Explains s log s₁) (h' : O.Explains s₁ log' s') : O.Explains s (log ++ log') s' := by
  induction log generalizing s with
  | nil =>
    obtain rfl : s = s₁ := h
    exact h'
  | cons e log ih => exact ⟨h.1, ih h.2⟩

/-- One more call. -/
theorem Explains.concat (h : O.Explains s log s₁) {a : α} {r : ρ} (hcall : O.call s₁ a = (s', r)) :
    O.Explains s (log ++ [(a, r)]) s' := by
  refine h.append ⟨by rw [hcall], ?_⟩
  rw [hcall]
  rfl

/-- **Part of a log**: calls that are seen are calls of `P` on what is seen of the state, and the others change nothing
there. -/
theorem Explains.project {τ β : Type} {P : Object τ β ρ} (view : σ → τ) (see : α → Option β)
    (hsee : ∀ s a b, see a = some b → P.call (view s) b = (view (O.call s a).1, (O.call s a).2))
    (hhide : ∀ s a, see a = none → view (O.call s a).1 = view s) (h : O.Explains s log s') :
    P.Explains (view s) (log.filterMap fun e => (see e.1).map fun b => (b, e.2)) (view s') := by
  induction log generalizing s with
  | nil => exact congrArg view h
  | cons e log ih =>
    obtain ⟨hanswer, hlog⟩ := h
    rw [List.filterMap_cons]
    cases hcall : see e.1 with
    | none =>
      rw [← hhide s e.1 hcall]
      exact ih hlog
    | some b =>
      have hP := hsee s e.1 b hcall
      refine ⟨(congrArg Prod.snd hP).trans hanswer, ?_⟩
      rw [hP]
      exact ih hlog

end Object

end Slung.Lib
