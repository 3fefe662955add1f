import Slung.Lib.Bytes
import Slung.Lib.KeyedList
import Slung.Lib.LwwMap
import Slung.Primitives.Hlc

/-!
# Slung.Wal.State — facts, pending work and the mutations that change them (`wal.zig`)

The in-memory half of the log: the fact map, the pending list and the id counter, with `applyMutation`,
`applyMutationNoDirty` and `removePending` as the source computes them.  An allocation of the source may
fail; `AllocPoint` names the places, and a function that allocates takes the place that fails this time
(`none`: none does).

The second half says the same without allocation: `putDirty` and `putFact` are the accepted or rejected
writes of a last-writer-wins map, and `replay` is what one record of the log does to the state.
-/

namespace Slung.Wal

open Slung.Lib

/-! ## Data -/

structure FactMutation where
  namespaceId : NamespaceId
  entity : EntityId
  component : ComponentId
  value : Bytes
  timestamp : Timestamp
  cause : CausalTag
deriving DecidableEq, Repr

structure Fact where
  value : Bytes
  timestamp : Timestamp
  cause : CausalTag
deriving DecidableEq, Repr

structure PendingDirty where
  id : ℤ
  namespaceId : NamespaceId
  entity : EntityId
  component : ComponentId
deriving DecidableEq, Repr

/-- The undo record of one published mutation; its `stamp` is `published_timestamp`. -/
abbrev FactUndo := Undo Bytes Fact Timestamp

inductive Err where
  | outOfMemory
  | walUnavailable
  | walRecordTooLarge
  | corruptWal
  | invalidResultBuffer
  /-- a checked integer cast of the source that does not fit -/
  | integerOverflow
  | io
deriving DecidableEq, Repr

/-- The places where publishing one mutation allocates. -/
inductive AllocPoint where
  | makeKey | cloneValue | cloneNode | undoAppend
  | reservePending | dupeNamespace | applyKey | dupeValue | dupeNode | putFact
deriving DecidableEq, Repr

/-- The state that the log recovers: `facts`, `pending` and `next_id`. -/
structure Live where
  facts : FMap Bytes Fact
  pending : List PendingDirty
  nextId : ℤ
deriving DecidableEq

/-- The state of an empty log. -/
def Live.init : Live := ⟨∅, [], 1⟩

/-- The key of a fact: the namespace, a zero byte and the two ids. -/
def makeKey (namespaceId : NamespaceId) (entity : EntityId) (component : ComponentId) : Bytes :=
  namespaceId ++ 0 :: (leBytes 4 entity.toNat ++ leBytes 4 component.toNat)

/-- Keys tell namespaces, entities and components apart. -/
theorem makeKey_inj {namespaceId namespaceId' : NamespaceId} {entity entity' : EntityId}
    {component component' : ComponentId}
    (h : makeKey namespaceId entity component = makeKey namespaceId' entity' component') :
    namespaceId = namespaceId' ∧ entity = entity' ∧ component = component' := by
  obtain ⟨hns, hids⟩ := List.append_inj' h (by simp)
  obtain ⟨he, hc⟩ := List.append_inj (List.cons.inj hids).2 (by simp)
  exact ⟨hns, UInt32.toNat_inj.mp (leBytes_inj entity.toNat_lt entity'.toNat_lt he),
    UInt32.toNat_inj.mp (leBytes_inj component.toNat_lt component'.toNat_lt hc)⟩

namespace FactMutation

def key (m : FactMutation) : Bytes := makeKey m.namespaceId m.entity m.component

def fact (m : FactMutation) : Fact := ⟨m.value, m.timestamp, m.cause⟩

/-- The pending entry that an accepted mutation appends. -/
def pendingAs (m : FactMutation) (id : ℤ) : PendingDirty := ⟨id, m.namespaceId, m.entity, m.component⟩

end FactMutation

/-! ## The functions of the source -/

/-- Applies a mutation to the in-memory fact map without adding a pending dirty entry. -/
def applyMutationNoDirty (fault : Option AllocPoint) (self : Live) (mutation : FactMutation) :
    Except Err Live :=
  if fault ∈ [some .applyKey, some .dupeValue, some .dupeNode] then .error .outOfMemory
  else match self.facts.lookup mutation.key with
    | some current =>
      if mutation.timestamp.compare current.timestamp ≠ .gt then .ok self
      else .ok { self with facts := self.facts.insert mutation.key mutation.fact }
    | none =>
      if fault = some .putFact then .error .outOfMemory
      else .ok { self with facts := self.facts.insert mutation.key mutation.fact }

/-- Applies a mutation and, if it is accepted, appends its pending entry under the next id. -/
def applyMutation (fault : Option AllocPoint) (self : Live) (mutation : FactMutation) :
    Except Err (Live × Bool) :=
  if fault ∈ [some .reservePending, some .dupeNamespace, some .applyKey, some .dupeValue,
      some .dupeNode] then .error .outOfMemory
  else
    let accepted : Live := {
      facts := self.facts.insert mutation.key mutation.fact
      pending := self.pending ++ [mutation.pendingAs self.nextId]
      nextId := self.nextId + 1 }
    match self.facts.lookup mutation.key with
    | some current =>
      if mutation.timestamp.compare current.timestamp ≠ .gt then .ok (self, false)
      else .ok (accepted, true)
    | none =>
      if fault = some .putFact then .error .outOfMemory else .ok (accepted, true)

/-- Removes the entry with the acknowledged id, if there is one. -/
def removePending (self : Live) (ackId : ℤ) : Live :=
  { self with pending := self.pending.eraseP (fun item => item.id == ackId) }

/-- The first pending entry of a namespace (of any, for `none`). -/
def nextPendingFor (self : Live) (namespaceId : Option NamespaceId) : Option PendingDirty :=
  self.pending.find? (fun item => namespaceId.all (· == item.namespaceId))

def getFact (self : Live) (namespaceId : NamespaceId) (entity : EntityId) (component : ComponentId) :
    Option Fact :=
  self.facts.lookup (makeKey namespaceId entity component)

/-! ## Writes without allocation -/

namespace Live

/-- Does the mutation win the comparison with the stored fact? -/
def accepts (self : Live) (m : FactMutation) : Bool :=
  Lib.accepts Fact.timestamp self.facts m.key m.fact

/-- A mutation that creates no pending work. -/
def putFact (self : Live) (m : FactMutation) : Live :=
  { self with facts := write Fact.timestamp self.facts m.key m.fact }

/-- A source mutation: pending work is created iff it is accepted. -/
def putDirty (self : Live) (m : FactMutation) : Live :=
  { facts := write Fact.timestamp self.facts m.key m.fact
    pending := if self.accepts m then self.pending ++ [m.pendingAs self.nextId] else self.pending
    nextId := if self.accepts m then self.nextId + 1 else self.nextId }

theorem accepts_eq (self : Live) (m : FactMutation) : self.accepts m =
    match self.facts.lookup m.key with
    | some c => m.timestamp.compare c.timestamp == .gt
    | none => true := by
  unfold accepts Lib.accepts
  cases self.facts.lookup m.key with
  | none => rfl
  | some c =>
    refine Bool.eq_iff_iff.mpr ?_
    rw [beq_iff_eq, Timestamp.compare_eq_gt]
    exact decide_eq_true_iff

end Live

/-- Without a failing allocation, `applyMutation` is `putDirty`. -/
theorem applyMutation_none (self : Live) (m : FactMutation) :
    applyMutation none self m = .ok (self.putDirty m, self.accepts m) := by
  have hacc := self.accepts_eq m
  unfold applyMutation Live.putDirty write
  change _ = Except.ok (_, self.accepts m)
  rw [show Lib.accepts Fact.timestamp self.facts m.key m.fact = self.accepts m from rfl]
  cases hl : self.facts.lookup m.key with
  | none => rw [hl] at hacc; simp [hacc]
  | some c =>
    rw [hl] at hacc
    by_cases hgt : m.timestamp.compare c.timestamp = .gt
    · simp [hacc, hgt]
    · simp [hacc, hgt]

/-- Without a failing allocation, `applyMutationNoDirty` is `putFact`. -/
theorem applyMutationNoDirty_none (self : Live) (m : FactMutation) :
    applyMutationNoDirty none self m = .ok (self.putFact m) := by
  have hacc := self.accepts_eq m
  unfold applyMutationNoDirty Live.putFact write
  rw [show Lib.accepts Fact.timestamp self.facts m.key m.fact = self.accepts m from rfl]
  cases hl : self.facts.lookup m.key with
  | none => rw [hl] at hacc; simp [hacc]
  | some c =>
    rw [hl] at hacc
    by_cases hgt : m.timestamp.compare c.timestamp = .gt
    · simp [hacc, hgt]
    · simp [hacc, hgt]

/-- A failing allocation of `applyMutation` is the only way it fails, and it returns nothing else. -/
theorem applyMutation_fault (fault : Option AllocPoint) (self : Live) (m : FactMutation) :
    applyMutation fault self m = .error .outOfMemory ∨
      applyMutation fault self m = .ok (self.putDirty m, self.accepts m) := by
  by_cases hf : fault ∈ [some .reservePending, some .dupeNamespace, some .applyKey, some .dupeValue,
      some .dupeNode]
  · left
    unfold applyMutation
    rw [if_pos hf]
  · have hnone := applyMutation_none self m
    unfold applyMutation at hnone ⊢
    rw [if_neg hf]
    rw [if_neg (by simp)] at hnone
    cases hl : self.facts.lookup m.key with
    | none =>
      simp only [hl] at hnone ⊢
      by_cases hp : fault = some .putFact
      · left; rw [if_pos hp]
      · right; rw [if_neg hp, ← hnone]; rfl
    | some c =>
      simp only [hl] at hnone ⊢
      exact Or.inr hnone

theorem applyMutationNoDirty_fault (fault : Option AllocPoint) (self : Live) (m : FactMutation) :
    applyMutationNoDirty fault self m = .error .outOfMemory ∨
      applyMutationNoDirty fault self m = .ok (self.putFact m) := by
  by_cases hf : fault ∈ [some .applyKey, some .dupeValue, some .dupeNode]
  · left
    unfold applyMutationNoDirty
    rw [if_pos hf]
  · have hnone := applyMutationNoDirty_none self m
    unfold applyMutationNoDirty at hnone ⊢
    rw [if_neg hf]
    rw [if_neg (by simp)] at hnone
    cases hl : self.facts.lookup m.key with
    | none =>
      simp only [hl] at hnone ⊢
      by_cases hp : fault = some .putFact
      · left; rw [if_pos hp]
      · right; rw [if_neg hp, ← hnone]; rfl
    | some c =>
      simp only [hl] at hnone ⊢
      exact Or.inr hnone

/-! ## Records and their replay -/

/-- One record of the log, by kind. -/
inductive Record where
  | batch (mutations : List FactMutation)
  | ack (id : Int64)
  | cascade (ackId : Int64) (mutations : List FactMutation)
deriving DecidableEq

namespace Record

def mutations : Record → List FactMutation
  | batch ms => ms
  | ack _ => []
  | cascade _ ms => ms

/-- The mutations that create pending work. -/
def sources : Record → List FactMutation
  | batch ms => ms
  | _ => []

/-- The id that the record acknowledges. -/
def ackedId : Record → Option ℤ
  | batch _ => none
  | ack id => some id.toInt
  | cascade id _ => some id.toInt

end Record

namespace Live

/-- What replaying one record does. -/
def replay (self : Live) : Record → Live
  | .batch ms => ms.foldl putDirty self
  | .ack id => removePending self id.toInt
  | .cascade id ms => removePending (ms.foldl putFact self) id.toInt

/-- Replay of a log, record after record. -/
def replayAll (self : Live) (rs : List Record) : Live := rs.foldl replay self

@[simp] theorem replayAll_nil (self : Live) : self.replayAll [] = self := rfl

@[simp] theorem replayAll_cons (self : Live) (r : Record) (rs : List Record) :
    self.replayAll (r :: rs) = (self.replay r).replayAll rs := rfl

@[simp] theorem replayAll_append (self : Live) (rs rs' : List Record) :
    self.replayAll (rs ++ rs') = (self.replayAll rs).replayAll rs' := List.foldl_append

@[simp] theorem putFact_pending (self : Live) (m : FactMutation) :
    (self.putFact m).pending = self.pending := rfl

@[simp] theorem putFact_nextId (self : Live) (m : FactMutation) :
    (self.putFact m).nextId = self.nextId := rfl

theorem putDirty_of_accepts {self : Live} {m : FactMutation} (h : self.accepts m = true) :
    self.putDirty m = ⟨self.facts.insert m.key m.fact, self.pending ++ [m.pendingAs self.nextId],
      self.nextId + 1⟩ := by
  unfold putDirty
  rw [if_pos h, if_pos h, write_of_accepts h]

theorem putDirty_of_rejects {self : Live} {m : FactMutation} (h : self.accepts m = false) :
    self.putDirty m = self := by
  unfold putDirty
  rw [if_neg (by simp [h]), if_neg (by simp [h]), write_of_rejects h]

@[simp] theorem putDirty_facts (self : Live) (m : FactMutation) :
    (self.putDirty m).facts = write Fact.timestamp self.facts m.key m.fact := rfl

theorem nextId_le_putDirty (self : Live) (m : FactMutation) : self.nextId ≤ (self.putDirty m).nextId := by
  unfold putDirty
  split_ifs <;> simp

@[simp] theorem foldl_putFact_pending (self : Live) (ms : List FactMutation) :
    (ms.foldl putFact self).pending = self.pending := by
  induction ms generalizing self with
  | nil => rfl
  | cons m ms ih => rw [List.foldl_cons, ih, putFact_pending]

@[simp] theorem foldl_putFact_nextId (self : Live) (ms : List FactMutation) :
    (ms.foldl putFact self).nextId = self.nextId := by
  induction ms generalizing self with
  | nil => rfl
  | cons m ms ih => rw [List.foldl_cons, ih, putFact_nextId]

@[simp] theorem removePending_facts (self : Live) (id : ℤ) :
    (removePending self id).facts = self.facts := rfl

@[simp] theorem removePending_nextId (self : Live) (id : ℤ) :
    (removePending self id).nextId = self.nextId := rfl

theorem nextId_le_foldl_putDirty (self : Live) (ms : List FactMutation) :
    self.nextId ≤ (ms.foldl putDirty self).nextId := by
  induction ms generalizing self with
  | nil => exact le_rfl
  | cons m ms ih => exact (self.nextId_le_putDirty m).trans (ih _)

/-- Ids are never taken back by a replay. -/
theorem nextId_le_replay (self : Live) (r : Record) : self.nextId ≤ (self.replay r).nextId := by
  cases r with
  | batch ms => exact self.nextId_le_foldl_putDirty ms
  | ack id => exact le_rfl
  | cascade id ms => simp [replay]

theorem nextId_le_replayAll (self : Live) (rs : List Record) : self.nextId ≤ (self.replayAll rs).nextId := by
  induction rs generalizing self with
  | nil => exact le_rfl
  | cons r rs ih => exact (self.nextId_le_replay r).trans (ih _)

/-- Of newer and newer facts, the last one of a key stays. -/
theorem lookup_foldl_putFact (self : Live) {ms : List FactMutation}
    (hordered : (ms.map FactMutation.timestamp).Pairwise (· < ·))
    (hnew : ∀ m ∈ ms, ∀ c, self.facts.lookup m.key = some c → c.timestamp < m.timestamp) (key : Bytes) :
    (ms.foldl Live.putFact self).facts.lookup key =
      ((ms.filter fun m => m.key = key).getLast?.map FactMutation.fact).or (self.facts.lookup key) := by
  have hfacts : ∀ (ms : List FactMutation) (self : Live), (ms.foldl Live.putFact self).facts =
      ms.foldl (fun facts m => write Fact.timestamp facts m.key m.fact) self.facts := by
    intro ms
    induction ms with
    | nil => exact fun _ => rfl
    | cons m ms ih => exact fun self => ih (self.putFact m)
  rw [hfacts]
  exact lookup_foldl_write FactMutation.key FactMutation.fact hordered hnew key

/-! ## The pending-list invariant -/

/-- Pending ids are strictly increasing, below the next id, and every pending entry has a fact. -/
structure PendingOk (s : Live) : Prop where
  sorted : (s.pending.map PendingDirty.id).Pairwise (· < ·)
  below : ∀ item ∈ s.pending, item.id < s.nextId
  hasFact : ∀ item ∈ s.pending, (getFact s item.namespaceId item.entity item.component).isSome

theorem pendingOk_init : Live.init.PendingOk :=
  ⟨List.Pairwise.nil, by simp [Live.init], by simp [Live.init]⟩

theorem isSome_lookup_write {facts : FMap Bytes Fact} {k k' : Bytes} {f : Fact}
    (h : (facts.lookup k).isSome) : ((write Fact.timestamp facts k' f).lookup k).isSome := by
  unfold write
  split_ifs
  · rw [FMap.lookup_insert_eq]
    split_ifs
    · rfl
    · exact h
  · exact h

theorem PendingOk.putFact {self : Live} (h : self.PendingOk) (m : FactMutation) :
    (self.putFact m).PendingOk :=
  ⟨h.sorted, h.below, fun item hi => isSome_lookup_write (h.hasFact item hi)⟩

theorem PendingOk.putDirty {self : Live} (h : self.PendingOk) (m : FactMutation) :
    (self.putDirty m).PendingOk := by
  cases hacc : self.accepts m with
  | false => rwa [putDirty_of_rejects hacc]
  | true =>
    have hfacts : ∀ item ∈ self.pending,
        (getFact (self.putDirty m) item.namespaceId item.entity item.component).isSome :=
      fun item hi => isSome_lookup_write (h.hasFact item hi)
    rw [putDirty_of_accepts hacc] at hfacts ⊢
    refine ⟨?_, ?_, ?_⟩
    · rw [List.map_append, List.pairwise_append]
      refine ⟨h.sorted, List.pairwise_singleton _ _, ?_⟩
      intro a ha b hb
      obtain ⟨item, hi, rfl⟩ := List.mem_map.mp ha
      simp only [FactMutation.pendingAs, List.map_cons, List.map_nil, List.mem_singleton] at hb
      exact hb ▸ h.below item hi
    · intro item hi
      rcases List.mem_append.mp hi with hi | hi
      · have := h.below item hi
        simp only
        omega
      · rw [List.mem_singleton.mp hi]
        exact Int.lt_succ self.nextId
    · intro item hi
      rcases List.mem_append.mp hi with hi | hi
      · exact hfacts item hi
      · rw [List.mem_singleton.mp hi]
        simp [getFact, FactMutation.pendingAs, FactMutation.key]

/-- Dropping pending entries keeps the invariant. -/
theorem PendingOk.sublist {self : Live} (h : self.PendingOk) {pending : List PendingDirty}
    (hs : pending.Sublist self.pending) : ({ self with pending := pending } : Live).PendingOk :=
  ⟨h.sorted.sublist (hs.map _), fun item hi => h.below item (hs.subset hi),
    fun item hi => h.hasFact item (hs.subset hi)⟩

theorem PendingOk.removePending {self : Live} (h : self.PendingOk) (id : ℤ) :
    (removePending self id).PendingOk := h.sublist List.eraseP_sublist

theorem PendingOk.foldl_putFact {self : Live} (h : self.PendingOk) (ms : List FactMutation) :
    (ms.foldl Live.putFact self).PendingOk := by
  induction ms generalizing self with
  | nil => exact h
  | cons m ms ih => exact ih (h.putFact m)

theorem PendingOk.foldl_putDirty {self : Live} (h : self.PendingOk) (ms : List FactMutation) :
    (ms.foldl Live.putDirty self).PendingOk := by
  induction ms generalizing self with
  | nil => exact h
  | cons m ms ih => exact ih (h.putDirty m)

theorem PendingOk.replay {self : Live} (h : self.PendingOk) (r : Record) : (self.replay r).PendingOk := by
  cases r with
  | batch ms => exact h.foldl_putDirty ms
  | ack id => exact h.removePending _
  | cascade id ms => exact (h.foldl_putFact ms).removePending _

/-- **Every state that replaying a log gives keeps its pending list in order.** -/
theorem PendingOk.replayAll {self : Live} (h : self.PendingOk) (rs : List Record) :
    (self.replayAll rs).PendingOk := by
  induction rs generalizing self with
  | nil => exact h
  | cons r rs ih => exact ih (h.replay r)

theorem PendingOk.nodup {self : Live} (h : self.PendingOk) : (self.pending.map PendingDirty.id).Nodup :=
  h.sorted.imp fun hlt => ne_of_lt hlt

/-- With distinct ids, removing an id is filtering it out. -/
theorem eraseP_eq_filter {l : List PendingDirty} (h : (l.map PendingDirty.id).Nodup) (id : ℤ) :
    l.eraseP (fun item => item.id == id) = l.filter (fun item => item.id != id) :=
  Lib.eraseP_eq_filter h id

/-- With distinct ids, removing the id of an entry is removing the entry. -/
theorem eraseP_eq_erase : ∀ {l : List PendingDirty}, (l.map PendingDirty.id).Nodup →
    ∀ {item : PendingDirty}, item ∈ l → l.eraseP (fun other => other.id == item.id) = l.erase item
  | [], _, _, h => nomatch h
  | a :: l, hids, item, h => by
    rw [List.map_cons, List.nodup_cons] at hids
    by_cases ha : a.id = item.id
    · have heq : a = item := by
        rcases List.mem_cons.mp h with rfl | h
        · rfl
        · exact absurd (ha ▸ List.mem_map_of_mem h) hids.1
      rw [List.eraseP_cons_of_pos (by simpa using ha), heq, List.erase_cons_head]
    · have hne : a ≠ item := fun heq => ha (congrArg PendingDirty.id heq)
      have hmem : item ∈ l := (List.mem_cons.mp h).resolve_left (Ne.symm hne)
      rw [List.eraseP_cons_of_neg (by simpa using ha), eraseP_eq_erase hids.2 hmem,
        List.erase_cons_tail (by simpa using hne)]

end Live

end Slung.Wal
