import Mathlib.Data.List.GetD
import Mathlib.Logic.Function.Basic
import Mathlib.Logic.Relation
import Mathlib.Order.Defs.PartialOrder
import Slung.Lib.Machine

/-!
# Slung.Lib.Causality — clocks that respect causality

Nodes stamp their events with clocks of their own.  A node may take over the stamp of any earlier event, of any
node, at any time and as often as it likes, so messages are delayed, reordered, duplicated and lost.  If an
event is always stamped after what its clock showed and after what it received (`Advances`), then what happened
before has the smaller stamp (`lt_of_happenedBefore`).
-/

namespace Slung.Lib

/-- A clock: `tick` stamps an event, `merge` stamps the receipt of a stamp; `ω` is what the clock reads off its
surroundings. -/
structure StampClock (σ ω τ : Type) where
  now : σ → τ
  tick : σ → ω → τ × σ
  merge : σ → ω → τ → τ × σ

namespace StampClock

variable {ι σ ω τ : Type}

/-- Events are stamped after what the clock showed, receipts after what they received as well. -/
structure Advances [Preorder τ] (C : StampClock σ ω τ) : Prop where
  lt_tick : ∀ s w, C.now s < (C.tick s w).1
  tick_le : ∀ s w, (C.tick s w).1 ≤ C.now (C.tick s w).2
  lt_merge : ∀ s w r, C.now s < (C.merge s w r).1
  received_lt_merge : ∀ s w r, r < (C.merge s w r).1
  merge_le : ∀ s w r, (C.merge s w r).1 ≤ C.now (C.merge s w r).2

/-- What happened on a node. -/
structure Event (ι τ : Type) where
  node : ι
  stamp : τ
  /-- the event whose stamp was received -/
  received : Option ℕ
deriving DecidableEq

/-- The clocks of the nodes and all events so far. -/
structure System (ι σ τ : Type) where
  clocks : ι → σ
  events : List (Event ι τ)

inductive Action (ι ω : Type) where
  | send (node : ι) (w : ω)
  /-- receive the stamp of the event with this index -/
  | receive (node : ι) (w : ω) (i : ℕ)
deriving DecidableEq

/-- One event: the stamp and the clock after it. -/
def System.record [DecidableEq ι] (s : System ι σ τ) (node : ι) (received : Option ℕ) (r : τ × σ) :
    System ι σ τ where
  clocks := Function.update s.clocks node r.2
  events := s.events ++ [⟨node, r.1, received⟩]

/-- Any number of nodes with clocks. -/
def system [DecidableEq ι] (C : StampClock σ ω τ) : Machine (System ι σ τ) (Action ι ω) where
  step s
    | .send node w => some (s.record node none (C.tick (s.clocks node) w))
    | .receive node w i => (s.events[i]?).map fun e =>
        s.record node (some i) (C.merge (s.clocks node) w e.stamp)

/-- The earlier event on the same node, or the event whose stamp was received. -/
def Direct (events : List (Event ι τ)) (i j : ℕ) : Prop :=
  ∃ e e' : Event ι τ, events[i]? = some e ∧ events[j]? = some e' ∧
    (i < j ∧ e.node = e'.node ∨ e'.received = some i)

/-- Causality uses only events and their positions, never stamps. -/
def HappenedBefore (events : List (Event ι τ)) : ℕ → ℕ → Prop := Relation.TransGen (Direct events)

/-- No clock is behind its events, and stamps grow along every direct dependency. -/
structure Causal [Preorder τ] (C : StampClock σ ω τ) (s : System ι σ τ) : Prop where
  shown : ∀ (i : ℕ) (e : Event ι τ), s.events[i]? = some e → e.stamp ≤ C.now (s.clocks e.node)
  earlier : ∀ (j : ℕ) (e : Event ι τ) (i : ℕ), s.events[j]? = some e → e.received = some i → i < j
  direct : ∀ (i j : ℕ) (e e' : Event ι τ), s.events[i]? = some e → s.events[j]? = some e' →
    (i < j ∧ e.node = e'.node ∨ e'.received = some i) → e.stamp < e'.stamp

/-- **What happened before has the smaller stamp.** -/
theorem Causal.lt_of_happenedBefore [Preorder τ] {C : StampClock σ ω τ} {s : System ι σ τ} (h : Causal C s)
    {i j : ℕ} (hb : HappenedBefore s.events i j) :
    ∃ e e' : Event ι τ, s.events[i]? = some e ∧ s.events[j]? = some e' ∧ e.stamp < e'.stamp := by
  induction hb with
  | single hd =>
    obtain ⟨e, e', he, he', hdirect⟩ := hd
    exact ⟨e, e', he, he', h.direct _ _ e e' he he' hdirect⟩
  | tail _ hd ih =>
    obtain ⟨e, e₁, he, he₁, hlt⟩ := ih
    obtain ⟨e₂, e', he₂, he', hdirect⟩ := hd
    rw [he₁] at he₂
    obtain rfl := Option.some.inj he₂
    exact ⟨e, e', he, he', lt_trans hlt (h.direct _ _ e₁ e' he₁ he' hdirect)⟩

variable [DecidableEq ι] {s s' : System ι σ τ}

/-- The events after one more. -/
theorem getElem?_record {node : ι} {received : Option ℕ} {r : τ × σ} {j : ℕ} {e : Event ι τ}
    (h : (s.record node received r).events[j]? = some e) :
    s.events[j]? = some e ∧ j < s.events.length ∨ j = s.events.length ∧ e = ⟨node, r.1, received⟩ := by
  have h : (s.events ++ [⟨node, r.1, received⟩])[j]? = some e := h
  rw [List.getElem?_append] at h
  by_cases hj : j < s.events.length
  · rw [if_pos hj] at h
    exact Or.inl ⟨h, hj⟩
  · rw [if_neg hj] at h
    obtain ⟨hlt, he⟩ := List.getElem?_eq_some_iff.mp h
    rw [List.length_singleton] at hlt
    have hzero : j - s.events.length = 0 := by omega
    refine Or.inr ⟨by omega, ?_⟩
    rw [← he]
    simp [hzero]

variable [Preorder τ] {C : StampClock σ ω τ}

/-- An event that is stamped after its clock and after what it received keeps stamps causal. -/
theorem Causal.record (h : Causal C s) {node : ι} {received : Option ℕ} {r : τ × σ}
    (hclock : C.now (s.clocks node) < r.1) (hnow : r.1 ≤ C.now r.2)
    (hreceived : ∀ i, received = some i → ∃ e, s.events[i]? = some e ∧ e.stamp < r.1) :
    Causal C (s.record node received r) where
  shown i e he := by
    rcases getElem?_record he with ⟨hold, -⟩ | ⟨-, rfl⟩
    · by_cases hnode : e.node = node
      · subst hnode
        simp only [System.record, Function.update_self]
        exact le_trans (h.shown i e hold) (le_trans (le_of_lt hclock) hnow)
      · simp only [System.record, Function.update_of_ne hnode]
        exact h.shown i e hold
    · simp only [System.record, Function.update_self]
      exact hnow
  earlier j e i he hi := by
    rcases getElem?_record he with ⟨hold, -⟩ | ⟨rfl, rfl⟩
    · exact h.earlier j e i hold hi
    · obtain ⟨e', he', -⟩ := hreceived i hi
      exact (List.getElem?_eq_some_iff.mp he').1
  direct i j e e' he he' hd := by
    rcases getElem?_record he' with ⟨hold', hj⟩ | ⟨rfl, rfl⟩
    · rcases getElem?_record he with ⟨hold, -⟩ | ⟨rfl, rfl⟩
      · exact h.direct i j e e' hold hold' hd
      · -- the new event is after all others
        rcases hd with ⟨hlt, -⟩ | hrec
        · omega
        · have := h.earlier j e' _ hold' hrec
          omega
    · rcases getElem?_record he with ⟨hold, -⟩ | ⟨rfl, rfl⟩
      · rcases hd with ⟨-, hnode⟩ | hrec
        · have hshown := h.shown i e hold
          rw [hnode] at hshown
          exact lt_of_le_of_lt hshown hclock
        · obtain ⟨e', he', hlt⟩ := hreceived i hrec
          rw [hold] at he'
          obtain rfl := Option.some.inj he'
          exact hlt
      · rcases hd with ⟨hlt, -⟩ | hrec
        · omega
        · obtain ⟨e', he', -⟩ := hreceived _ hrec
          have := (List.getElem?_eq_some_iff.mp he').1
          omega

theorem Causal.step (hC : C.Advances) (h : Causal C s) {a : Action ι ω} (hs : C.system.step s a = some s') :
    Causal C s' := by
  cases a with
  | send node w =>
    obtain rfl := Option.some.inj hs
    exact h.record (hC.lt_tick _ w) (hC.tick_le _ w) nofun
  | receive node w i =>
    obtain ⟨e, he, rfl⟩ := Option.map_eq_some_iff.mp hs
    refine h.record (hC.lt_merge _ w _) (hC.merge_le _ w _) fun j hj => ?_
    obtain rfl := Option.some.inj hj
    exact ⟨e, he, hC.received_lt_merge _ w _⟩

/-- Every run from clocks of any state. -/
theorem Causal.reaches (hC : C.Advances) {clocks : ι → σ} {P : System ι σ τ → Action ι ω → Prop}
    (h : C.system.Reaches P ⟨clocks, []⟩ s) : Causal C s := by
  refine h.invariant ⟨?_, ?_, ?_⟩ fun s s' a hI _ hs => hI.step hC hs
  all_goals simp

end StampClock

end Slung.Lib
