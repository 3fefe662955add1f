import Slung.Lib.Checked
import Slung.Lib.Cleanup

/-!
# Slung.Lib.Owning — checked decoders that own buffers

A checked computation over a ledger of live buffers: an allocation is granted, and freeing a buffer that is not live
is a fault, so that a computation without a fault frees nothing twice.  `FreesTwice p bad c r` says that `c` faults in
that way under `p` and only then, that otherwise it returns what the unchecked computation `r` returns and leaves the
buffers of others alone, and that its only error is `bad`.  The rules follow the shape of the program.
-/

namespace Slung.Lib

/-- A computation that allocates, frees and reads with checks. -/
abbrev Owning (ε α : Type) := ExceptT ε (StateT Ledger (Except Fault)) α

namespace Owning

variable {ε α β : Type}

/-- The outcome from a ledger, and the ledger behind it. -/
def outcome (c : Owning ε α) (l : Ledger) : Except Fault (Except ε α × Ledger) := (ExceptT.run c).run l

/-- A reader. -/
def lift (c : Checked ε α) : Owning ε α := ExceptT.mk fun l => (ExceptT.run c).map fun r => (r, l)

instance : MonadLift (Checked ε) (Owning ε) := ⟨lift⟩

/-- A computation without buffers and checks. -/
def plain (r : Except ε α) : Owning ε α := ExceptT.mk (pure r)

/-- A copy in a buffer of its own. -/
def dupe (bytes : List UInt8) : Owning ε Slice := do
  let l ← get
  set (l.acquire bytes)
  pure (l.sliceOf bytes)

/-- Free a buffer; it has to be live. -/
def free (s : Slice) : Owning ε Unit := do
  let l ← get
  if ∀ b ∈ s.ids, b ∈ l.live then set (l.free s) else lift (Checked.fault .doubleFree)

/-- Run the cleanup if the scope is left with an error. -/
def errdefer (cleanup : Owning ε Unit) (scope : Owning ε α) : Owning ε α :=
  tryCatch scope fun err => do
    cleanup
    throw err

/-- Run the cleanup when the scope is left. -/
def deferred (cleanup : Owning ε Unit) (scope : Owning ε α) : Owning ε α := do
  let a ← errdefer cleanup scope
  cleanup
  pure a

/-! ## Outcomes -/

variable {c : Owning ε α} {cleanup : Owning ε Unit} {s : Slice} {l l' l'' : Ledger} {a : α} {e : ε} {fault : Fault}

theorem outcome_bind_ok {f : α → Owning ε β} (h : c.outcome l = .ok (.ok a, l')) :
    outcome (c >>= f) l = outcome (f a) l' := by
  unfold outcome at h ⊢
  simp only [bind, ExceptT.bind, ExceptT.run, ExceptT.mk, StateT.run, StateT.bind] at h ⊢
  rw [h]
  rfl

theorem outcome_bind_error {f : α → Owning ε β} (h : c.outcome l = .ok (.error e, l')) :
    outcome (c >>= f) l = .ok (.error e, l') := by
  unfold outcome at h ⊢
  simp only [bind, ExceptT.bind, ExceptT.run, ExceptT.mk, StateT.run, StateT.bind] at h ⊢
  rw [h]
  rfl

theorem outcome_bind_fault {f : α → Owning ε β} (h : c.outcome l = .error fault) :
    outcome (c >>= f) l = .error fault := by
  unfold outcome at h ⊢
  simp only [bind, ExceptT.bind, ExceptT.run, ExceptT.mk, StateT.run, StateT.bind] at h ⊢
  rw [h]
  rfl

theorem outcome_dupe (bytes : List UInt8) (l : Ledger) :
    outcome (dupe bytes : Owning ε Slice) l = .ok (.ok (l.sliceOf bytes), l.acquire bytes) := rfl

theorem outcome_plain (r : Except ε α) (l : Ledger) : outcome (plain r) l = .ok (r, l) := rfl

theorem outcome_free (h : ∀ b ∈ s.ids, b ∈ l.live) : outcome (free s : Owning ε Unit) l = .ok (.ok (), l.free s) := by
  show outcome (if _ then _ else _) l = _
  rw [if_pos h]
  rfl

theorem outcome_free_twice (h : ¬ ∀ b ∈ s.ids, b ∈ l.live) :
    outcome (free s : Owning ε Unit) l = .error .doubleFree := by
  show outcome (if _ then _ else _) l = _
  rw [if_neg h]
  rfl

theorem outcome_errdefer_ok (h : c.outcome l = .ok (.ok a, l')) :
    (errdefer cleanup c).outcome l = .ok (.ok a, l') := by
  unfold outcome at h ⊢
  unfold errdefer
  simp only [tryCatch, tryCatchThe, MonadExceptOf.tryCatch, ExceptT.tryCatch, ExceptT.run, ExceptT.mk, StateT.run, bind,
    StateT.bind] at h ⊢
  rw [h]
  rfl

/-- An error of the scope is passed on behind the cleanup. -/
theorem outcome_errdefer_error (h : c.outcome l = .ok (.error e, l')) :
    (errdefer cleanup c).outcome l = (cleanup >>= fun _ => (throw e : Owning ε α)).outcome l' := by
  unfold outcome at h ⊢
  unfold errdefer
  simp only [tryCatch, tryCatchThe, MonadExceptOf.tryCatch, ExceptT.tryCatch, ExceptT.run, ExceptT.mk, StateT.run, bind,
    StateT.bind] at h ⊢
  rw [h]
  rfl

/-- A copy that is live is freed on an error of the scope. -/
theorem outcome_errdefer_free {bytes : List UInt8} (h : c.outcome (l.acquire bytes) = .ok (.error e, l'))
    (hsub : (l.acquire bytes).live ⊆ l'.live) :
    (errdefer (free (l.sliceOf bytes)) c).outcome (l.acquire bytes) = .ok (.error e, l'.free (l.sliceOf bytes)) := by
  rw [outcome_errdefer_error h, outcome_bind_ok (outcome_free (l.sliceOf_ids_subset bytes hsub))]
  rfl

/-- A buffer that is gone by then is freed twice. -/
theorem outcome_errdefer_free_twice (h : c.outcome l = .ok (.error e, l')) (hgone : ¬ ∀ b ∈ s.ids, b ∈ l'.live) :
    (errdefer (free s) c).outcome l = .error .doubleFree := by
  rw [outcome_errdefer_error h]
  exact outcome_bind_fault (outcome_free_twice hgone)

theorem outcome_errdefer_fault (h : c.outcome l = .error fault) :
    (errdefer cleanup c).outcome l = .error fault := by
  unfold outcome at h ⊢
  unfold errdefer
  simp only [tryCatch, tryCatchThe, MonadExceptOf.tryCatch, ExceptT.tryCatch, ExceptT.run, ExceptT.mk, StateT.run, bind,
    StateT.bind] at h ⊢
  rw [h]
  rfl

/-- The cleanup runs once, whichever way the scope is left. -/
theorem outcome_deferred {r : Except ε α} (h : c.outcome l = .ok (r, l'))
    (hclean : cleanup.outcome l' = .ok (.ok (), l'')) : (deferred cleanup c).outcome l = .ok (r, l'') := by
  cases r with
  | ok a =>
    unfold deferred
    rw [outcome_bind_ok (outcome_errdefer_ok h), outcome_bind_ok hclean]
    rfl
  | error e =>
    unfold deferred
    refine outcome_bind_error ?_
    rw [outcome_errdefer_error h, outcome_bind_ok hclean]
    rfl

theorem outcome_deferred_fault (h : c.outcome l = .error fault) : (deferred cleanup c).outcome l = .error fault :=
  outcome_bind_fault (outcome_errdefer_fault h)

theorem sub_bind {x y : ℕ} (h : y ≤ x) (f : ℕ → Owning ε β) :
    ((liftM (Checked.sub x y : Checked ε ℕ) : Owning ε ℕ) >>= f) = f (x - y) := by
  unfold Checked.sub
  rw [if_pos h]
  rfl

theorem slice_bind {bytes : List UInt8} {pos n : ℕ} (h : pos + n ≤ bytes.length) (f : List UInt8 → Owning ε β) :
    ((liftM (Checked.slice bytes pos n : Checked ε (List UInt8)) : Owning ε (List UInt8)) >>= f) =
      f ((bytes.drop pos).take n) := by
  unfold Checked.slice
  rw [if_pos h]
  rfl

theorem readLE_bind {w : ℕ} {bytes : List UInt8} {pos : ℕ} (h : pos + w ≤ bytes.length) (f : ℕ → Owning ε β) :
    ((liftM (Checked.readLE w bytes pos : Checked ε ℕ) : Owning ε ℕ) >>= f) = f (Lib.readLE w bytes pos) := by
  unfold Checked.readLE Checked.slice
  rw [if_pos h]
  rfl

theorem lift_eq {bad : ε} {c : Checked ε α} {r : Except ε α} (h : Safe bad c r) :
    (liftM c : Owning ε α) = plain r := by
  rw [h.eq]
  rfl

theorem plain_bind (r : Except ε α) (f : α → Except ε β) :
    plain (r >>= f) = plain r >>= fun a => plain (f a) := by
  cases r <;> rfl

end Owning

/-! ## Frees that are made twice -/

/-- Under `p`, and only then, `c` frees a buffer twice; otherwise it does what `r` does, which fails under `p`. -/
structure FreesTwice {ε α : Type} (p : Prop) (bad : ε) (c : Owning ε α) (r : Except ε α) : Prop where
  twice : p → ∀ l, c.outcome l = .error .doubleFree
  refused : p → r = .error bad
  once : ¬ p → ∀ l, ∃ l', c.outcome l = .ok (r, l') ∧ l.live ⊆ l'.live
  only : OnlyError bad r

namespace FreesTwice

variable {ε α β : Type} {p q : Prop} {bad : ε} {c c' : Owning ε α} {r r' : Except ε α}

theorem iff (h : FreesTwice p bad c r) (hpq : p ↔ q) : FreesTwice q bad c r := propext hpq ▸ h

theorem of_eq (h : FreesTwice p bad c r) (hr : r = r') : FreesTwice p bad c r' := hr ▸ h

theorem of_safe {c : Checked ε α} (h : Safe bad c r) : FreesTwice False bad (liftM c) r :=
  ⟨False.elim, False.elim, fun _ l => ⟨l, by rw [Owning.lift_eq h]; rfl, Finset.Subset.refl _⟩, h.only⟩

theorem pure (a : α) : FreesTwice False bad (Pure.pure a) (.ok a) :=
  ⟨False.elim, False.elim, fun _ l => ⟨l, rfl, Finset.Subset.refl _⟩, nofun⟩

theorem throw : FreesTwice (α := α) False bad (MonadExcept.throw bad) (.error bad) :=
  ⟨False.elim, False.elim, fun _ l => ⟨l, rfl, Finset.Subset.refl _⟩, fun _ h => (Except.error.inj h).symm⟩

theorem bind (h : FreesTwice p bad c r) {f : α → Owning ε β} {g : α → Except ε β} {q : α → Prop}
    (hf : ∀ a, r = .ok a → FreesTwice (q a) bad (f a) (g a)) :
    FreesTwice (p ∨ ∃ a, r = .ok a ∧ q a) bad (c >>= f) (r >>= g) where
  twice := by
    intro htwice l
    by_cases hp : p
    · exact Owning.outcome_bind_fault (h.twice hp l)
    obtain ⟨a, rfl, hq⟩ := htwice.resolve_left hp
    obtain ⟨l', hout, -⟩ := h.once hp l
    rw [Owning.outcome_bind_ok hout]
    exact (hf a rfl).twice hq l'
  refused := by
    rintro (hp | ⟨a, rfl, hq⟩)
    · rw [h.refused hp]
      rfl
    · exact (hf a rfl).refused hq
  once := by
    intro hno l
    obtain ⟨hp, hq⟩ := not_or.mp hno
    obtain ⟨l₁, hout, hsub⟩ := h.once hp l
    cases r with
    | error e => exact ⟨l₁, Owning.outcome_bind_error hout, hsub⟩
    | ok a =>
      obtain ⟨l₂, hout₂, hsub₂⟩ := (hf a rfl).once (fun hqa => hq ⟨a, rfl, hqa⟩) l₁
      exact ⟨l₂, (Owning.outcome_bind_ok hout).trans hout₂, hsub.trans hsub₂⟩
  only := h.only.bind fun a ha => (hf a ha).only

/-- What follows frees nothing twice. -/
theorem bind_pure (h : FreesTwice p bad c r) {f : α → Owning ε β} {g : α → Except ε β}
    (hf : ∀ a, r = .ok a → FreesTwice False bad (f a) (g a)) : FreesTwice p bad (c >>= f) (r >>= g) :=
  (h.bind hf).iff (or_iff_left fun ⟨_, _, hno⟩ => hno)

/-- A test that refuses. -/
theorem guard {t : Prop} [Decidable t] (h : ¬ t → FreesTwice p bad c r) :
    FreesTwice (¬ t ∧ p) bad (if t then MonadExcept.throw bad else c) (if t then .error bad else r) := by
  by_cases ht : t
  · rw [if_pos ht, if_pos ht]
    exact throw.iff (iff_of_false id fun hno => hno.1 ht)
  · rw [if_neg ht, if_neg ht]
    exact (h ht).iff (and_iff_right ht).symm

theorem ite {t : Prop} [Decidable t] (hpos : t → FreesTwice p bad c r) (hneg : ¬ t → FreesTwice q bad c' r') :
    FreesTwice (if t then p else q) bad (if t then c else c') (if t then r else r') := by
  by_cases ht : t
  · simp only [if_pos ht]
    exact hpos ht
  · simp only [if_neg ht]
    exact hneg ht

end FreesTwice

end Slung.Lib
