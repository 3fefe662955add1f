import Slung.Lib.BoundedFifo
import Slung.Lib.RingBuffer
import Slung.Queue

/-!
# Slung.QueueInner — the ring buffer behind the dirty queue (`queue.zig`)

`QueueInner` with the operations of the source, and that they are those of `DirtyQueue` on the list of its entries.
-/

namespace Slung

open Slung.Lib

/-- A single entry in the dirty queue, tagged with its namespace. -/
structure NamespacedDirtyEntry where
  namespaceId : NamespaceId
  entry : DirtyEntry
deriving DecidableEq, Repr

structure QueueInner extends RingBuffer NamespacedDirtyEntry where
  namespaceId : NamespaceId

namespace QueueInner

/-- The buffer comes from the caller. -/
def init (entries : List NamespacedDirtyEntry) (namespaceId : NamespaceId) : QueueInner :=
  ⟨RingBuffer.init entries, namespaceId⟩

/-- `none` is `error.QueueFull`. -/
def push (self : QueueInner) (entry : DirtyEntry) : Option QueueInner :=
  (self.toRingBuffer.push ⟨self.namespaceId, entry⟩).map (⟨·, self.namespaceId⟩)

def pop (self : QueueInner) : Option (NamespacedDirtyEntry × QueueInner) :=
  self.toRingBuffer.pop.map fun (item, ring) => (item, ⟨ring, self.namespaceId⟩)

def size (self : QueueInner) : ℕ := self.count

def isEmpty (self : QueueInner) : Bool := self.count == 0

def isFull (self : QueueInner) : Bool := self.count ≥ self.slots.length

/-- Find the last entry, then take every entry out and put the others back; `none` would be a pop of an empty or a
push to a full queue. -/
def removeLast (self : QueueInner) (entity : EntityId) (component : ComponentId) : Option (QueueInner × Bool) :=
  if self.count = 0 then some (self, false)
  else match self.toRingBuffer.lastOffset fun item =>
      item.entry.entity == entity && item.entry.component == component with
    | none => some (self, false)
    | some target =>
      (self.toRingBuffer.cycle (fun item => ⟨self.namespaceId, item.entry⟩) target (List.range self.count)).map
        fun ring => (⟨ring, self.namespaceId⟩, true)

/-- `DirtyQueue.clear`: the three indices are reset, the slots keep what they have. -/
def clear (self : QueueInner) : QueueInner := ⟨self.toRingBuffer.clear, self.namespaceId⟩

/-! ## The list it stands for -/

def abstract (self : QueueInner) : DirtyQueue where
  capacity := self.slots.length
  entries := self.toList.map NamespacedDirtyEntry.entry
  bounded := by rw [List.length_map, RingBuffer.length_toList]; exact self.count_le

theorem abstract_eq {self : QueueInner} {queue : DirtyQueue} (hcapacity : self.slots.length = queue.capacity)
    (hentries : self.toList.map NamespacedDirtyEntry.entry = queue.entries) : self.abstract = queue := by
  obtain ⟨capacity, entries, bounded⟩ := queue
  obtain rfl : self.slots.length = capacity := hcapacity
  obtain rfl : self.toList.map NamespacedDirtyEntry.entry = entries := hentries
  rfl

@[simp] theorem length_abstract (self : QueueInner) : self.abstract.entries.length = self.count := by
  change (self.toList.map _).length = _
  rw [List.length_map, RingBuffer.length_toList]

theorem init_abstract (entries : List NamespacedDirtyEntry) (namespaceId : NamespaceId) :
    (init entries namespaceId).abstract = DirtyQueue.init entries.length := rfl

theorem isFull_abstract (self : QueueInner) : self.isFull = self.abstract.isFull := by
  unfold isFull DirtyQueue.isFull
  rw [length_abstract]
  rfl

theorem isEmpty_abstract (self : QueueInner) : self.isEmpty = self.abstract.isEmpty := by
  unfold isEmpty DirtyQueue.isEmpty
  rw [length_abstract]

theorem push_abstract (self : QueueInner) (entry : DirtyEntry) :
    (self.push entry).map abstract = self.abstract.push entry := by
  unfold push DirtyQueue.push
  rw [Option.map_map]
  cases hpush : self.toRingBuffer.push ⟨self.namespaceId, entry⟩ with
  | none =>
    have hfull : ¬ self.count < self.slots.length := by
      rw [← self.toRingBuffer.push_isSome_iff ⟨self.namespaceId, entry⟩, hpush]
      simp
    rw [dif_pos (by rw [length_abstract]; exact Nat.le_of_not_lt hfull)]
    rfl
  | some ring =>
    have hroom : self.count < self.slots.length := by
      rw [← self.toRingBuffer.push_isSome_iff ⟨self.namespaceId, entry⟩, hpush]
      rfl
    obtain ⟨hlist, hlen⟩ := RingBuffer.toList_push hpush
    rw [dif_neg (by rw [length_abstract]; exact Nat.not_le_of_lt hroom)]
    refine congrArg some (abstract_eq hlen ?_)
    change ring.toList.map _ = self.toList.map _ ++ _
    rw [hlist, List.map_append]
    rfl

theorem pop_abstract (self : QueueInner) :
    self.pop.map (fun p => (p.1.entry, p.2.abstract)) = self.abstract.pop := by
  unfold pop
  rw [Option.map_map]
  cases hpop : self.toRingBuffer.pop with
  | none =>
    have hempty : self.abstract.entries = [] := by
      change self.toList.map _ = []
      rw [(self.toRingBuffer.pop_eq_none_iff).mp hpop]
      rfl
    unfold DirtyQueue.pop
    split
    · rfl
    · rename_i heq
      rw [hempty] at heq
      cases heq
  | some p =>
    obtain ⟨item, ring⟩ := p
    obtain ⟨hlist, hslots⟩ := RingBuffer.toList_pop hpop
    have hcons : self.abstract.entries = item.entry :: ring.toList.map NamespacedDirtyEntry.entry := by
      change self.toList.map _ = _
      rw [hlist]
      rfl
    unfold DirtyQueue.pop
    split
    · rename_i heq
      rw [hcons] at heq
      cases heq
    · rename_i entry rest heq
      rw [hcons] at heq
      obtain ⟨rfl, rfl⟩ := List.cons.inj heq
      refine congrArg (fun queue => some (item.entry, queue)) (abstract_eq ?_ rfl)
      exact congrArg List.length hslots

/-- The passes of `removeLast` never fail, and take out the last entry. -/
theorem removeLast_abstract (self : QueueInner) (entry : DirtyEntry) :
    (self.removeLast entry.entity entry.component).map (fun p => (p.1.abstract, p.2)) =
      some (self.abstract.removeLast entry) := by
  have hmatch : (fun item : NamespacedDirtyEntry =>
      item.entry.entity == entry.entity && item.entry.component == entry.component) =
      ((· == entry) ∘ NamespacedDirtyEntry.entry) := by
    funext item
    obtain ⟨namespaceId, ⟨e, c⟩⟩ := item
    obtain ⟨e', c'⟩ := entry
    refine Bool.eq_iff_iff.mpr ?_
    simp
  have herased : (self.abstract.entries.reverse.erase entry).reverse =
      (self.toList.reverse.eraseP ((· == entry) ∘ NamespacedDirtyEntry.entry)).reverse.map
        NamespacedDirtyEntry.entry := by
    rw [List.erase_eq_eraseP', List.map_reverse, ← List.eraseP_map, List.map_reverse]
    rfl
  have hany : (RingBuffer.lastIdx ((· == entry) ∘ NamespacedDirtyEntry.entry) self.toList).isSome =
      decide (entry ∈ self.abstract.entries) := by
    rw [RingBuffer.lastIdx_isSome, Bool.eq_iff_iff]
    change _ ↔ decide (entry ∈ self.toList.map _) = true
    rw [List.any_eq_true, decide_eq_true_iff, List.mem_map]
    simp only [Function.comp_apply, beq_iff_eq]
  unfold removeLast DirtyQueue.removeLast
  by_cases hcount : self.count = 0
  · have hempty : self.abstract.entries = [] := by
      rw [← List.length_eq_zero_iff, length_abstract, hcount]
    rw [if_pos hcount]
    refine congrArg some (Prod.ext (abstract_eq rfl ?_) ?_)
    · change self.abstract.entries = (self.abstract.entries.reverse.erase entry).reverse
      rw [hempty]
      rfl
    · change false = decide (entry ∈ self.abstract.entries)
      rw [hempty]
      rfl
  rw [if_neg hcount, hmatch, RingBuffer.lastOffset_eq]
  cases htarget : RingBuffer.lastIdx ((· == entry) ∘ NamespacedDirtyEntry.entry) self.toList with
  | none =>
    rw [htarget] at hany
    have hnot : entry ∉ self.abstract.entries := by simpa using hany
    refine congrArg some (Prod.ext (abstract_eq rfl ?_) ?_)
    · change self.abstract.entries = (self.abstract.entries.reverse.erase entry).reverse
      rw [List.erase_of_not_mem (by simpa using hnot), List.reverse_reverse]
    · simpa using hnot
  | some target =>
    rw [htarget] at hany
    obtain ⟨ring, hring, hlist, hlen⟩ :=
      self.toRingBuffer.toList_cycle (fun item => ⟨self.namespaceId, item.entry⟩) target
    simp only [hring, Option.map_some]
    refine congrArg some (Prod.ext (abstract_eq hlen ?_) ?_)
    · change ring.toList.map _ = (self.abstract.entries.reverse.erase entry).reverse
      rw [herased, ← RingBuffer.eraseIdx_lastIdx _ htarget, hlist, List.map_map]
      rfl
    · exact hany

/-! ## Runs -/

open BoundedFifo

/-- One call with what it returns; `none` would be a pop of an empty or a push to a full queue in `removeLast`. -/
def call (self : QueueInner) : Call DirtyEntry → Option (Result NamespacedDirtyEntry × QueueInner)
  | .push entry =>
    match self.push entry with
    | some self => some (.done, self)
    | none => some (.full, self)
  | .pop =>
    match self.pop with
    | some (item, self) => some (.popped (some item), self)
    | none => some (.popped none, self)
  | .removeLast entry => (self.removeLast entry.entity entry.component).map fun p => (.removed p.2, p.1)
  | .clear => some (.done, self.clear)

def run (self : QueueInner) : List (Call DirtyEntry) → Option (List (Result NamespacedDirtyEntry) × QueueInner)
  | [] => some ([], self)
  | call :: calls => (self.call call).bind fun (result, self) =>
      (self.run calls).map fun (results, self) => (result :: results, self)

/-- Every item carries the namespace of the queue. -/
def Tagged (self : QueueInner) : Prop := ∀ item ∈ self.toList, item.namespaceId = self.namespaceId

/-- What a call leaves of a queue: the same slots and namespace, tagged items, and the step on the items. -/
structure Does (before : QueueInner) (call : Call DirtyEntry) (result : Result NamespacedDirtyEntry)
    (queue : QueueInner) : Prop where
  step : Step (NamespacedDirtyEntry.mk before.namespaceId) NamespacedDirtyEntry.entry before.slots.length before.toList
    call result queue.toList
  slots : queue.slots.length = before.slots.length
  namespaceId : queue.namespaceId = before.namespaceId
  tagged : queue.Tagged

theorem call_push {self : QueueInner} (h : self.Tagged) (entry : DirtyEntry) :
    ∃ result queue, self.call (.push entry) = some (result, queue) ∧ self.Does (.push entry) result queue := by
  simp only [call, push]
  cases hpush : self.toRingBuffer.push ⟨self.namespaceId, entry⟩ with
  | none =>
    have hfull : ¬ self.count < self.slots.length := by
      rw [← self.toRingBuffer.push_isSome_iff ⟨self.namespaceId, entry⟩, hpush]
      simp
    have hlength : self.toList.length = self.slots.length := by
      rw [RingBuffer.length_toList]
      exact le_antisymm self.count_le (Nat.le_of_not_lt hfull)
    exact ⟨.full, self, rfl, .full _ _ hlength, rfl, rfl, h⟩
  | some ring =>
    have hroom : self.toList.length < self.slots.length := by
      rw [RingBuffer.length_toList, ← self.toRingBuffer.push_isSome_iff ⟨self.namespaceId, entry⟩, hpush]
      rfl
    obtain ⟨hlist, hlen⟩ := RingBuffer.toList_push hpush
    refine ⟨.done, ⟨ring, self.namespaceId⟩, rfl, ?_, hlen, rfl, fun item hitem => ?_⟩
    · change Step _ _ _ self.toList _ _ ring.toList
      rw [hlist]
      exact .push _ _ hroom
    · change item ∈ ring.toList at hitem
      rw [hlist, List.mem_append, List.mem_singleton] at hitem
      rcases hitem with hitem | rfl
      · exact h item hitem
      · rfl

theorem call_pop {self : QueueInner} (h : self.Tagged) :
    ∃ result queue, self.call .pop = some (result, queue) ∧ self.Does .pop result queue := by
  simp only [call, pop]
  cases hpop : self.toRingBuffer.pop with
  | none =>
    refine ⟨.popped none, self, rfl, ?_, rfl, rfl, h⟩
    rw [(self.toRingBuffer.pop_eq_none_iff).mp hpop]
    exact .empty
  | some p =>
    obtain ⟨item, ring⟩ := p
    obtain ⟨hlist, hslots⟩ := RingBuffer.toList_pop hpop
    refine ⟨.popped (some item), ⟨ring, self.namespaceId⟩, rfl, ?_, congrArg List.length hslots, rfl,
      fun item' hitem => h item' ?_⟩
    · rw [hlist]
      exact .pop _ _
    · rw [hlist]
      exact List.mem_cons_of_mem _ hitem

/-- Neither of the `unreachable`s of `removeLast` is reached. -/
theorem call_removeLast {self : QueueInner} (h : self.Tagged) (entry : DirtyEntry) : ∃ result queue,
    self.call (.removeLast entry) = some (result, queue) ∧ self.Does (.removeLast entry) result queue := by
  have hmatch : ∀ item : NamespacedDirtyEntry,
      (item.entry.entity == entry.entity && item.entry.component == entry.component) = true ↔ item.entry = entry := by
    rintro ⟨namespaceId, ⟨e, c⟩⟩
    obtain ⟨e', c'⟩ := entry
    simp
  simp only [call, removeLast]
  by_cases hcount : self.count = 0
  · have hempty : self.toList = [] := by rw [← List.length_eq_zero_iff, RingBuffer.length_toList, hcount]
    rw [if_pos hcount]
    exact ⟨.removed false, self, rfl, .absent _ _ (by simp [hempty]), rfl, rfl, h⟩
  rw [if_neg hcount, RingBuffer.lastOffset_eq]
  generalize hp : (fun item : NamespacedDirtyEntry =>
    item.entry.entity == entry.entity && item.entry.component == entry.component) = p
  have hkey : ∀ item : NamespacedDirtyEntry, p item = true ↔ item.entry = entry := fun item => by
    rw [← hmatch item, ← hp]
  cases htarget : RingBuffer.lastIdx p self.toList with
  | none =>
    refine ⟨.removed false, self, rfl, .absent _ _ fun item hitem heq => ?_, rfl, rfl, h⟩
    have hany : self.toList.any p = false := by rw [← RingBuffer.lastIdx_isSome, htarget]; rfl
    exact List.any_eq_false.mp hany item hitem ((hkey item).mpr heq)
  | some target =>
    obtain ⟨ring, hring, hlist, hlen⟩ :=
      self.toRingBuffer.toList_cycle (fun item => ⟨self.namespaceId, item.entry⟩) target
    obtain ⟨front, item, back, hsplit, hitem, hback, herase⟩ := RingBuffer.lastIdx_split p htarget
    have hsub : ∀ other ∈ front ++ back, other ∈ self.toList := fun other hother => by
      rw [hsplit]
      exact ((List.sublist_cons_self item back).append_left front).subset hother
    -- putting an item back tags it as it was tagged
    have hring' : ring.toList = front ++ back := by
      rw [hlist, herase]
      refine (List.map_congr_left fun other hother => ?_).trans (List.map_id _)
      rw [← h other (hsub other hother)]
      rfl
    simp only [hring, Option.map_some]
    refine ⟨.removed true, ⟨ring, self.namespaceId⟩, rfl, ?_, hlen, rfl,
      fun other hother => h other (hsub other ?_)⟩
    · change Step _ _ _ self.toList _ _ ring.toList
      rw [hring', hsplit]
      refine .removeLast front back item entry ((hkey item).mp hitem) fun other hother heq => ?_
      have hnot := hback other hother
      rw [(hkey other).mpr heq] at hnot
      cases hnot
    · rw [← hring']
      exact hother

/-- **Every call is the step of a bounded queue.** -/
theorem call_does {self : QueueInner} (h : self.Tagged) (c : Call DirtyEntry) :
    ∃ result queue, self.call c = some (result, queue) ∧ self.Does c result queue := by
  cases c with
  | push entry => exact call_push h entry
  | pop => exact call_pop h
  | removeLast entry => exact call_removeLast h entry
  | clear => exact ⟨.done, self.clear, rfl, .clear _, rfl, rfl, nofun⟩

/-- The same for a sequence of calls. -/
theorem run_does {self : QueueInner} (h : self.Tagged) (calls : List (Call DirtyEntry)) :
    ∃ results queue, self.run calls = some (results, queue) ∧
      Run (NamespacedDirtyEntry.mk self.namespaceId) NamespacedDirtyEntry.entry self.slots.length self.toList
        calls results queue.toList := by
  induction calls generalizing self with
  | nil => exact ⟨[], self, rfl, .nil _⟩
  | cons c calls ih =>
    obtain ⟨result, queue, hcall, hdoes⟩ := call_does h c
    obtain ⟨results, queue', hrun, hrest⟩ := ih hdoes.tagged
    refine ⟨result :: results, queue', ?_, .cons hdoes.step ?_⟩
    · rw [run, hcall]
      change (queue.run calls).map _ = _
      rw [hrun]
      rfl
    · rw [← hdoes.slots, ← hdoes.namespaceId]
      exact hrest

/-- **The ring buffer is a bounded queue**, for any capacity, any content of the fresh slots and any calls. -/
theorem bounded_fifo (slots : List NamespacedDirtyEntry) (namespaceId : NamespaceId)
    (calls : List (Call DirtyEntry)) :
    ∃ results queue, (init slots namespaceId).run calls = some (results, queue) ∧
      Run (NamespacedDirtyEntry.mk namespaceId) NamespacedDirtyEntry.entry slots.length [] calls results
        queue.toList ∧
      queue.toList.length ≤ slots.length := by
  have htagged : (init slots namespaceId).Tagged := nofun
  obtain ⟨results, queue, hrun, hfifo⟩ := run_does htagged calls
  exact ⟨results, queue, hrun, hfifo, hfifo.length_le (Nat.zero_le _)⟩

end QueueInner

end Slung
