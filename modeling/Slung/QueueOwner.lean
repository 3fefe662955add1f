import Slung.Lib.Machine
import Slung.Primitives.Arc
import Slung.QueueInner

/-!
# Slung.QueueOwner — who keeps the entry buffer alive (`queue.zig`)

The queue is shared by reference count, its entry buffer is not: it belongs to the `QueueOwner`, which frees it in
`deinit` whether or not there are other handles.  The machine takes any order of clones, releases, uses and the one
`deinit`; a use through an unreleased handle after the buffer was freed goes to `stale`.

`buffer_outlives_handles`: the buffer is there for every use as long as the owner goes last, and a `deinit` with
another handle unreleased makes the next use of that handle a stale one.  `ModuleSession.init` is such a `deinit`
(`session_uses_stale`).
-/

namespace Slung

open Slung.Lib

/-! ## State -/

/-- The owner's own handle, and the clones by number. -/
inductive Handle where
  | owner
  | clone (i : ℕ)
deriving DecidableEq, Repr

inductive Use where
  | push (entry : DirtyEntry)
  | pop
  | removeLast (entity : EntityId) (component : ComponentId)
deriving DecidableEq, Repr

/-- What an operation leaves of the queue. -/
def QueueInner.apply (self : QueueInner) : Use → QueueInner
  | .push entry => (self.push entry).getD self
  | .pop => (self.pop.map Prod.snd).getD self
  | .removeLast entity component => ((self.removeLast entity component).map Prod.fst).getD self

structure SharedQueue where
  shared : Arc QueueInner
  /-- the entry buffer has not been freed -/
  buffer : Bool
  /-- the owner has not been deinitialised -/
  owned : Bool
  /-- the clones that are not released -/
  clones : List ℕ
  cloned : ℕ
  /-- uses through unreleased handles after the buffer was freed -/
  stale : List (Handle × Use)

namespace SharedQueue

/-- `QueueOwner.init`, whose buffer holds anything. -/
def init (entries : List NamespacedDirtyEntry) (namespaceId : NamespaceId) : SharedQueue :=
  ⟨Arc.init (QueueInner.init entries namespaceId), true, true, [], 0, []⟩

def Unreleased (s : SharedQueue) : Handle → Prop
  | .owner => s.owned = true
  | .clone i => i ∈ s.clones

instance (s : SharedQueue) : ∀ h, Decidable (s.Unreleased h)
  | .owner => inferInstanceAs (Decidable (_ = _))
  | .clone _ => inferInstanceAs (Decidable (_ ∈ _))

/-! ## Steps -/

inductive Label where
  | clone (h : Handle)
  | decrement (i : ℕ)
  | use (h : Handle) (u : Use)
  | deinit
deriving DecidableEq

def clone (s : SharedQueue) (h : Handle) : Option SharedQueue :=
  if s.Unreleased h then
    some { s with shared := s.shared.clone, clones := s.clones ++ [s.cloned], cloned := s.cloned + 1 }
  else none

def decrement (s : SharedQueue) (i : ℕ) : Option SharedQueue :=
  if i ∈ s.clones then some { s with shared := s.shared.release, clones := s.clones.erase i } else none

/-- What a use of a freed buffer does is undefined; the queue keeps its state. -/
def use (s : SharedQueue) (h : Handle) (u : Use) : Option SharedQueue :=
  if s.Unreleased h then
    if s.buffer then some { s with shared := { s.shared with value := s.shared.value.apply u } }
    else some { s with stale := s.stale ++ [(h, u)] }
  else none

/-- `QueueOwner.deinit`: it releases its handle and frees the buffer. -/
def deinit (s : SharedQueue) : Option SharedQueue :=
  if s.owned then some { s with shared := s.shared.release, buffer := false, owned := false } else none

end SharedQueue

/-- Any order of the operations in which a handle is used only while it is unreleased. -/
def sharedQueue : Machine SharedQueue SharedQueue.Label where
  step s
    | .clone h => s.clone h
    | .decrement i => s.decrement i
    | .use h u => s.use h u
    | .deinit => s.deinit

namespace SharedQueue

/-- The owner is deinitialised only when every clone has been released. -/
def OwnerLast (s : SharedQueue) : Label → Prop
  | .deinit => s.clones = []
  | _ => True

instance (s : SharedQueue) : ∀ l, Decidable (s.OwnerLast l)
  | .deinit => inferInstanceAs (Decidable (_ = _))
  | .clone _ | .decrement _ | .use .. => inferInstanceAs (Decidable True)

/-! ## The invariant -/

/-- How many handles are unreleased. -/
def holders (s : SharedQueue) : ℕ := s.clones.length + if s.owned then 1 else 0

/-- The count is the number of unreleased handles, and the buffer is there as long as the owner is. -/
structure Counted (s : SharedQueue) : Prop where
  counts : s.shared.Counts s.holders
  buffer : s.buffer = s.owned

namespace Counted

variable {s s' : SharedQueue}

theorem init (entries : List NamespacedDirtyEntry) (namespaceId : NamespaceId) :
    Counted (init entries namespaceId) := ⟨Arc.Counts.init _, rfl⟩

theorem holders_pos {h : Handle} (hh : s.Unreleased h) : 0 < s.holders := by
  unfold holders
  cases h with
  | owner =>
    rw [if_pos (show s.owned = true from hh)]
    omega
  | clone i =>
    have := List.length_pos_of_mem (show i ∈ s.clones from hh)
    omega

theorem step_clone (hs : Counted s) {h : Handle} (hstep : s.clone h = some s') : Counted s' := by
  obtain ⟨hh, hsome⟩ := Option.ite_none_right_eq_some.mp hstep
  obtain rfl := Option.some.inj hsome
  have hholders : s.clones.length + 1 + (if s.owned then 1 else 0) = s.holders + 1 := by unfold holders; omega
  refine ⟨?_, hs.buffer⟩
  unfold holders
  rw [List.length_append, List.length_singleton, hholders]
  exact hs.counts.clone (holders_pos hh)

theorem step_decrement (hs : Counted s) {i : ℕ} (hstep : s.decrement i = some s') : Counted s' := by
  obtain ⟨hi, hsome⟩ := Option.ite_none_right_eq_some.mp hstep
  obtain rfl := Option.some.inj hsome
  have hholders : s.holders = (s.clones.erase i).length + (if s.owned then 1 else 0) + 1 := by
    have hlen := List.length_erase_of_mem hi
    have hpos := List.length_pos_of_mem hi
    unfold holders
    omega
  exact ⟨(hholders ▸ hs.counts).release, hs.buffer⟩

theorem step_use (hs : Counted s) {h : Handle} {u : Use} (hstep : s.use h u = some s') : Counted s' := by
  obtain ⟨-, hsome⟩ := Option.ite_none_right_eq_some.mp hstep
  split_ifs at hsome <;> obtain rfl := Option.some.inj hsome
  · exact ⟨hs.counts.setValue _, hs.buffer⟩
  · exact ⟨hs.counts, hs.buffer⟩

theorem step_deinit (hs : Counted s) (hstep : s.deinit = some s') : Counted s' := by
  obtain ⟨howned, hsome⟩ := Option.ite_none_right_eq_some.mp hstep
  obtain rfl := Option.some.inj hsome
  have hholders : s.holders = s.clones.length + 1 := by unfold holders; rw [if_pos howned]
  exact ⟨(hholders ▸ hs.counts).release, rfl⟩

theorem step (hs : Counted s) {l : Label} (hstep : sharedQueue.step s l = some s') : Counted s' := by
  cases l with
  | clone h => exact hs.step_clone hstep
  | decrement i => exact hs.step_decrement hstep
  | use h u => exact hs.step_use hstep
  | deinit => exact hs.step_deinit hstep

theorem reaches {P : SharedQueue → Label → Prop} {entries : List NamespacedDirtyEntry} {namespaceId : NamespaceId}
    (h : sharedQueue.Reaches P (SharedQueue.init entries namespaceId) s) : Counted s :=
  h.invariant (init entries namespaceId) fun _ _ _ hs _ hstep => hs.step hstep

end Counted

/-- With the owner last, what is left without the buffer is nothing. -/
structure Outlived (s : SharedQueue) : Prop where
  stale : s.stale = []
  gone : s.buffer = false → s.owned = false ∧ s.clones = []

namespace Outlived

variable {s s' : SharedQueue}

theorem not_unreleased (hs : Outlived s) (hb : s.buffer = false) (h : Handle) : ¬ s.Unreleased h := by
  obtain ⟨howned, hclones⟩ := hs.gone hb
  cases h with
  | owner => simp [Unreleased, howned]
  | clone i => simp [Unreleased, hclones]

theorem step (hs : Outlived s) {l : Label} (hlast : s.OwnerLast l) (hstep : sharedQueue.step s l = some s') :
    Outlived s' := by
  cases l with
  | clone h =>
    obtain ⟨hh, hsome⟩ := Option.ite_none_right_eq_some.mp hstep
    obtain rfl := Option.some.inj hsome
    exact ⟨hs.stale, fun hb => absurd hh (hs.not_unreleased hb h)⟩
  | decrement i =>
    obtain ⟨hi, hsome⟩ := Option.ite_none_right_eq_some.mp hstep
    obtain rfl := Option.some.inj hsome
    exact ⟨hs.stale, fun hb => absurd hi (hs.not_unreleased hb (.clone i))⟩
  | use h u =>
    obtain ⟨hh, hsome⟩ := Option.ite_none_right_eq_some.mp hstep
    cases hb : s.buffer with
    | true =>
      rw [if_pos hb] at hsome
      obtain rfl := Option.some.inj hsome
      exact ⟨hs.stale, hs.gone⟩
    | false => exact absurd hh (hs.not_unreleased hb h)
  | deinit =>
    obtain ⟨howned, hsome⟩ := Option.ite_none_right_eq_some.mp hstep
    obtain rfl := Option.some.inj hsome
    exact ⟨hs.stale, fun _ => ⟨rfl, hlast⟩⟩

end Outlived

theorem Outlived.reaches {s : SharedQueue} {entries : List NamespacedDirtyEntry} {namespaceId : NamespaceId}
    (h : sharedQueue.Reaches OwnerLast (init entries namespaceId) s) : Outlived s :=
  h.invariant ⟨rfl, fun hb => absurd hb nofun⟩ fun _ _ _ hs hlast hstep => hs.step hlast hstep

/-! ## The session -/

/-- What `ModuleSession.init` does to the queue when it succeeds: the session's handle is a clone, and the owner is
deinitialised by `defer`. -/
def sessionInit : List Label := [.clone .owner, .deinit]

/-- When a later step of `ModuleSession.init` fails, the clone is released before the owner goes. -/
def sessionInitFailed : List Label := [.clone .owner, .decrement 0, .deinit]

theorem sessionInitFailed_reaches (entries : List NamespacedDirtyEntry) (namespaceId : NamespaceId) :
    ∃ s, sharedQueue.runAllowed OwnerLast (init entries namespaceId) sessionInitFailed = some s ∧
      s.shared.live = false ∧ s.buffer = false := ⟨_, rfl, rfl, rfl⟩

/-- Every use of the queue by a session is one of a freed buffer. -/
theorem session_uses_stale (entries : List NamespacedDirtyEntry) (namespaceId : NamespaceId) (uses : List Use) :
    ((sessionInit ++ uses.map (Label.use (.clone 0))).foldlM sharedQueue.step (init entries namespaceId)).map stale =
      some (uses.map (Handle.clone 0, ·)) := by
  have hrun : ∀ (uses : List Use) (s : SharedQueue), s.Unreleased (.clone 0) → s.buffer = false →
      ((uses.map (Label.use (.clone 0))).foldlM sharedQueue.step s).map stale =
        some (s.stale ++ uses.map (Handle.clone 0, ·)) := by
    intro uses
    induction uses with
    | nil =>
      intro s _ _
      exact congrArg some (List.append_nil _).symm
    | cons u uses ih =>
      intro s hh hb
      have hstep : sharedQueue.step s (.use (.clone 0) u) = some { s with stale := s.stale ++ [(.clone 0, u)] } := by
        change s.use _ u = _
        rw [use, if_pos hh, if_neg (by simp [hb])]
      rw [List.map_cons, List.foldlM_cons, hstep, Option.bind_eq_bind, Option.bind_some,
        ih { s with stale := s.stale ++ [(.clone 0, u)] } hh hb, List.map_cons, List.append_assoc]
      rfl
  rw [List.foldlM_append]
  exact hrun uses ⟨(Arc.init (QueueInner.init entries namespaceId)).clone.release, false, false, [0], 1, []⟩
    (List.mem_singleton.mpr rfl) rfl

end SharedQueue

/-! ## Theorems -/

/-- **The owner goes last**: then the buffer and the cell are there for every use of an unreleased handle.  A `deinit`
that comes before makes the next use of a clone, whichever use it is, one of a freed buffer. -/
theorem buffer_outlives_handles (entries : List NamespacedDirtyEntry) (namespaceId : NamespaceId) :
    (∀ s, sharedQueue.Reaches SharedQueue.OwnerLast (SharedQueue.init entries namespaceId) s →
      s.stale = [] ∧ ∀ h, s.Unreleased h → s.buffer = true ∧ s.shared.live = true) ∧
    (∀ s s', sharedQueue.Reaches (fun _ _ => True) (SharedQueue.init entries namespaceId) s →
      ¬ s.OwnerLast .deinit → sharedQueue.step s .deinit = some s' →
      ∃ i, ∀ u, ∃ s'', sharedQueue.step s' (.use (.clone i) u) = some s'' ∧ (.clone i, u) ∈ s''.stale) := by
  refine ⟨fun s h => ?_, fun s s' _ hlast hstep => ?_⟩
  · have hcounted := SharedQueue.Counted.reaches h
    have houtlived := SharedQueue.Outlived.reaches h
    refine ⟨houtlived.stale, fun handle hh => ⟨?_, ?_⟩⟩
    · by_contra hb
      exact houtlived.not_unreleased (by simpa using hb) handle hh
    · rw [hcounted.counts.live]
      exact decide_eq_true (SharedQueue.Counted.holders_pos hh)
  · obtain ⟨-, hsome⟩ := Option.ite_none_right_eq_some.mp hstep
    obtain rfl := Option.some.inj hsome
    obtain ⟨i, hi⟩ := List.exists_mem_of_ne_nil s.clones hlast
    refine ⟨i, fun u => ⟨_, if_pos hi, ?_⟩⟩
    simp

theorem buffer_outlives_handles_example :
    let run : List SharedQueue.Label := [.clone .owner, .use (.clone 0) (.push ⟨1, 2⟩), .use .owner .pop,
      .clone (.clone 0), .decrement 0, .use (.clone 1) (.push ⟨1, 3⟩), .use (.clone 1) (.removeLast 1 3),
      .decrement 1, .deinit]
    let buffer := List.replicate 2 ⟨[], ⟨0, 0⟩⟩
    (∃ s, sharedQueue.runAllowed SharedQueue.OwnerLast (SharedQueue.init buffer [110]) run = some s ∧ s.stale = []) ∧
      ∃ s, sharedQueue.step (SharedQueue.init buffer [110]) (.clone .owner) = some s ∧
        ∃ s', sharedQueue.step s .deinit = some s' ∧
          ∃ i, ∀ u, ∃ s'', sharedQueue.step s' (.use (.clone i) u) = some s'' ∧ (.clone i, u) ∈ s''.stale := by
  intro run buffer
  have hrun : (sharedQueue.runAllowed SharedQueue.OwnerLast (SharedQueue.init buffer [110]) run).isSome := by decide
  obtain ⟨s, hs⟩ := Option.isSome_iff_exists.mp hrun
  obtain ⟨hsafe, hunsafe⟩ := buffer_outlives_handles buffer [110]
  refine ⟨⟨s, hs, (hsafe s (Machine.reaches_of_runAllowed hs)).1⟩, _, rfl, _, rfl, ?_⟩
  have hclones : ¬ SharedQueue.OwnerLast ⟨(Arc.init (QueueInner.init buffer [110])).clone, true, true, [0], 1, []⟩
      .deinit := by decide
  exact hunsafe _ _ (.step (l := .clone .owner) .refl trivial rfl) hclones rfl

/-- A session that was opened over its 8 slots and signals one fact. -/
theorem session_push_stale :
    ((SharedQueue.sessionInit ++ [SharedQueue.Label.use (.clone 0) (.push ⟨1, 2⟩)]).foldlM sharedQueue.step
      (SharedQueue.init (List.replicate 8 ⟨[], ⟨0, 0⟩⟩) [110])).map SharedQueue.stale =
      some [(.clone 0, .push ⟨1, 2⟩)] := by
  decide

end Slung
