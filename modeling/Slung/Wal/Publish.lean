import Slung.Wal.Codec

/-!
# Slung.Wal.Publish — publishing a commit group and taking it back (`wal.zig`, `workerMain`)

The worker takes all queued requests as one group, publishes the strict ones to the live state, writes and
syncs, and rolls the publication back if anything fails.  This module has the publication loop with an
allocation failing anywhere, the two rollbacks, the loop of write attempts and the settling of the group, as
the worker runs them when no other thread steps in between (`runGroup`).

`runGroup_cases` says how a group ends; `runGroup_restores_iff` says when a failed group leaves no
trace: a failed write or sync always does, a failed allocation does unless a mutation ties with the fact that
its key held, because the rollback then runs a second time over a log it has already consumed.
-/

namespace Slung.Wal

open Slung.Lib

/-! ## Requests -/

/-- A queued record; the `ticket` is its place in the order of admission. -/
structure Request where
  ticket : ℕ
  mutations : List FactMutation
  accepted : List Bool
  recordKind : UInt8
  ackId : Int64
  callerWaits : Bool
  applyAfterWrite : Bool
deriving DecidableEq

/-- The record that the worker writes for a request. -/
def Request.record (r : Request) : Record :=
  if r.recordKind = recordCascade then .cascade r.ackId r.mutations else .batch r.mutations

/-! ## The functions of the source -/

/-- Where the publication of a group stands. -/
structure Publication where
  live : Live
  undo : List FactUndo
  failure : Option Err

/-- The place that fails in a round, given the first failing allocation of the loop. -/
def faultAt (fault : Option (ℕ × AllocPoint)) (round : ℕ) : Option AllocPoint :=
  match fault with
  | some (n, point) => if n = round then some point else none
  | none => none

/-- One round of the publication loop: the undo record first, then the write.  A failure leaves both
loops of the source, so later rounds do nothing. -/
def publishMutation (fault : Option (ℕ × AllocPoint)) (kind : UInt8) (p : Publication)
    (mutation : FactMutation) : Publication × Bool :=
  if p.failure.isSome then (p, false)
  else
    let here := faultAt fault p.undo.length
    let failed : Publication := { p with failure := some .outOfMemory }
    if here = some .makeKey then (failed, false)
    else
      let previous := p.live.facts.lookup mutation.key
      if previous.isSome ∧ (here = some .cloneValue ∨ here = some .cloneNode) then (failed, false)
      else if here = some .undoAppend then (failed, false)
      else
        let undo := p.undo ++ [⟨mutation.key, previous, mutation.timestamp⟩]
        if kind = recordCascade then
          match applyMutationNoDirty here p.live mutation with
          | .error e => ({ p with undo := undo, failure := some e }, false)
          | .ok live => ({ p with undo := undo, live := live }, false)
        else
          match applyMutation here p.live mutation with
          | .error e => ({ p with undo := undo, failure := some e }, false)
          | .ok (live, accepted) => ({ p with undo := undo, live := live }, accepted)

/-- The mutations of one request, with the flags its caller will see. -/
def publishMutations (fault : Option (ℕ × AllocPoint)) (kind : UInt8) :
    Publication → List FactMutation → Publication × List Bool
  | p, [] => (p, [])
  | p, m :: ms =>
    let (p, accepted) := publishMutation fault kind p m
    let (p, rest) := publishMutations fault kind p ms
    (p, accepted :: rest)

/-- Only a strict request is published by the worker. -/
def publishRequest (fault : Option (ℕ × AllocPoint)) (p : Publication) (request : Request) :
    Publication × Request :=
  if ¬ request.applyAfterWrite then (p, request)
  else
    let (p, accepted) := publishMutations fault request.recordKind p request.mutations
    if request.recordKind = recordCascade then (p, request) else (p, { request with accepted := accepted })

def publishRequests (fault : Option (ℕ × AllocPoint)) :
    Publication → List Request → Publication × List Request
  | p, [] => (p, [])
  | p, r :: rs =>
    let (p, r) := publishRequest fault p r
    let (p, rs) := publishRequests fault p rs
    (p, r :: rs)

def rollbackFacts (self : Live) (undo : List FactUndo) : Live × List FactUndo :=
  let (facts, undo) := rollback Fact.timestamp self.facts undo
  ({ self with facts := facts }, undo)

/-- Pop entries down to the remembered length, and reset the counter. -/
def rollbackPending (self : Live) (pendingStart : ℕ) (nextId : ℤ) : Live :=
  { self with pending := self.pending.take pendingStart, nextId := nextId }

/-- Publication of a group with the rollback that follows a failed allocation. -/
def publishGroup (fault : Option (ℕ × AllocPoint)) (self : Live) (batch : List Request) :
    Publication × List Request :=
  let (p, batch) := publishRequests fault ⟨self, [], none⟩ batch
  match p.failure with
  | some e =>
    let (live, undo) := rollbackFacts p.live p.undo
    (⟨rollbackPending live self.pending.length self.nextId, undo, some e⟩, batch)
  | none => (p, batch)

/-- The loop of write attempts; `io` is the failure that an attempt meets.  The loop condition asks for no
failure, so a failed attempt is the last one. -/
def attemptLoop (io : ℕ → Option Err) : ℕ → ℕ → Option Err → Option Err
  | 0, _, failure => failure
  | left + 1, attempt, failure =>
    if failure.isSome then failure
    else match io attempt with
      | none => none
      | some e => attemptLoop io left (attempt + 1) (some e)

/-- The rollback of the second critical section. -/
def settleGroup (p : Publication) (pendingStart : ℕ) (nextIdStart : ℤ) (failure : Option Err) : Live :=
  if failure.isSome ∧ p.undo ≠ [] then
    rollbackPending (rollbackFacts p.live p.undo).1 pendingStart nextIdStart
  else p.live

/-- A whole group while no other thread steps: the live state after it, and its failure. -/
def runGroup (self : Live) (batch : List Request) (fault : Option (ℕ × AllocPoint))
    (io : ℕ → Option Err) : Live × Option Err :=
  let (p, _) := publishGroup fault self batch
  let failure := attemptLoop io 3 0 p.failure
  (settleGroup p self.pending.length self.nextId failure, failure)

/-! ## Publication as a fold -/

/-- Publish without a failing allocation. -/
def Live.put (kind : UInt8) (self : Live) (m : FactMutation) : Live :=
  if kind = recordCascade then self.putFact m else self.putDirty m

/-- The mutations that the worker publishes for a group, with the kinds of their records. -/
def strictMutations (batch : List Request) : List (UInt8 × FactMutation) :=
  batch.flatMap fun r => if r.applyAfterWrite then r.mutations.map (r.recordKind, ·) else []

def Live.putAll (self : Live) (kms : List (UInt8 × FactMutation)) : Live :=
  kms.foldl (fun s km => s.put km.1 km.2) self

/-- What a list of mutations writes to the fact map. -/
def writesOf (kms : List (UInt8 × FactMutation)) : List (Bytes × Fact) :=
  kms.map fun km => (km.2.key, km.2.fact)

/-- Does the publication of a mutation come to an allocation? -/
def AllocPoint.reached (self : Live) (kind : UInt8) (m : FactMutation) : AllocPoint → Bool
  | .cloneValue | .cloneNode => (self.facts.lookup m.key).isSome
  | .putFact => (self.facts.lookup m.key).isNone
  | .reservePending | .dupeNamespace => kind ≠ recordCascade
  | _ => true

/-- The allocations before the undo record is kept. -/
def AllocPoint.beforeUndo : AllocPoint → Bool
  | .makeKey | .cloneValue | .cloneNode | .undoAppend => true
  | _ => false

/-- An allocation of the publication loop fails. -/
def allocFails (self : Live) (kms : List (UInt8 × FactMutation)) (fault : Option (ℕ × AllocPoint)) : Bool :=
  match fault with
  | none => false
  | some (n, point) => match kms[n]? with
    | none => false
    | some km => point.reached (self.putAll (kms.take n)) km.1 km.2

/-- The mutations whose undo records are taken before the failing allocation. -/
def recordedBefore (kms : List (UInt8 × FactMutation)) (fault : Option (ℕ × AllocPoint)) :
    List (UInt8 × FactMutation) :=
  match fault with
  | none => kms
  | some (n, point) => kms.take (if point.beforeUndo then n else n + 1)

section PublishLemmas

variable {fault : Option (ℕ × AllocPoint)} {kind : UInt8}

@[simp] theorem Live.put_facts (self : Live) (m : FactMutation) :
    (self.put kind m).facts = write Fact.timestamp self.facts m.key m.fact := by
  unfold Live.put
  split_ifs <;> rfl

theorem Live.put_pending_prefix (self : Live) (m : FactMutation) :
    self.pending <+: (self.put kind m).pending := by
  unfold Live.put Live.putDirty
  split_ifs
  · exact List.prefix_rfl
  · exact List.prefix_append _ _
  · exact List.prefix_rfl

@[simp] theorem Live.putAll_nil (self : Live) : self.putAll [] = self := rfl

@[simp] theorem Live.putAll_cons (self : Live) (km : UInt8 × FactMutation)
    (kms : List (UInt8 × FactMutation)) :
    self.putAll (km :: kms) = (self.put km.1 km.2).putAll kms := rfl

theorem Live.putAll_append (self : Live) (kms kms' : List (UInt8 × FactMutation)) :
    self.putAll (kms ++ kms') = (self.putAll kms).putAll kms' := List.foldl_append

theorem Live.putAll_facts (self : Live) (kms : List (UInt8 × FactMutation)) :
    (self.putAll kms).facts = (recordAll Fact.timestamp self.facts (writesOf kms)).1 := by
  induction kms generalizing self with
  | nil => rfl
  | cons km kms ih => rw [Live.putAll_cons, ih, Live.put_facts]; rfl

theorem Live.putAll_pending_prefix (self : Live) (kms : List (UInt8 × FactMutation)) :
    self.pending <+: (self.putAll kms).pending := by
  induction kms generalizing self with
  | nil => exact List.prefix_rfl
  | cons km kms ih => exact (self.put_pending_prefix km.2).trans (ih _)

theorem Live.nextId_le_putAll (self : Live) (kms : List (UInt8 × FactMutation)) :
    self.nextId ≤ (self.putAll kms).nextId := by
  induction kms generalizing self with
  | nil => exact le_rfl
  | cons km kms ih =>
    have hput : self.nextId ≤ (self.put km.1 km.2).nextId := by
      unfold Live.put
      split_ifs
      · exact le_rfl
      · exact self.nextId_le_putDirty km.2
    exact hput.trans (ih _)

theorem AllocPoint.reached_batch (hk : kind ≠ recordCascade) (point : AllocPoint) (s : Live)
    (m : FactMutation) : point.reached s recordBatch m = point.reached s kind m := by
  have h : decide (recordBatch ≠ recordCascade) = decide (kind ≠ recordCascade) :=
    decide_eq_decide.mpr (iff_of_true (by decide) hk)
  cases point <;> first | rfl | exact h

/-- Which failing allocations stop `applyMutation`. -/
theorem applyMutation_some (point : AllocPoint) (s : Live) (m : FactMutation) :
    applyMutation (some point) s m =
      if ¬ point.beforeUndo ∧ point.reached s recordBatch m then .error .outOfMemory
      else .ok (s.putDirty m, s.accepts m) := by
  have hnone := applyMutation_none s m
  unfold applyMutation at hnone ⊢
  rw [if_neg (by simp)] at hnone
  cases hl : s.facts.lookup m.key <;> simp only [hl] at hnone <;> cases point <;>
    simp_all [AllocPoint.beforeUndo, AllocPoint.reached, recordBatch, recordCascade]

theorem applyMutationNoDirty_some (point : AllocPoint) (s : Live) (m : FactMutation) :
    applyMutationNoDirty (some point) s m =
      if ¬ point.beforeUndo ∧ point.reached s recordCascade m then .error .outOfMemory
      else .ok (s.putFact m) := by
  have hnone := applyMutationNoDirty_none s m
  unfold applyMutationNoDirty at hnone ⊢
  rw [if_neg (by simp)] at hnone
  cases hl : s.facts.lookup m.key <;> simp only [hl] at hnone <;> cases point <;>
    simp_all [AllocPoint.beforeUndo, AllocPoint.reached, recordCascade]

/-- What one round does, by what the failing allocation is. -/
theorem publishMutation_eq (live : Live) (undo : List FactUndo) (m : FactMutation) :
    (publishMutation fault kind ⟨live, undo, none⟩ m).1 =
      match faultAt fault undo.length with
      | some point =>
        if point.reached live kind m then
          if point.beforeUndo then ⟨live, undo, some .outOfMemory⟩
          else ⟨live, undo ++ [undoOf Fact.timestamp live.facts m.key m.fact], some .outOfMemory⟩
        else ⟨live.put kind m, undo ++ [undoOf Fact.timestamp live.facts m.key m.fact], none⟩
      | none => ⟨live.put kind m, undo ++ [undoOf Fact.timestamp live.facts m.key m.fact], none⟩ := by
  unfold publishMutation
  cases hf : faultAt fault undo.length with
  | none =>
    simp only [Live.put]
    by_cases hk : kind = recordCascade
    · simp [hk, applyMutationNoDirty_none, undoOf, FactMutation.fact]
    · simp [hk, applyMutation_none, undoOf, FactMutation.fact]
  | some point =>
    simp only [Live.put]
    by_cases hk : kind = recordCascade
    · subst hk
      rw [applyMutationNoDirty_some]
      cases hl : live.facts.lookup m.key <;> cases point <;>
        simp [AllocPoint.beforeUndo, AllocPoint.reached, undoOf, FactMutation.fact, hl]
    · have hr : point.reached live recordBatch m = point.reached live kind m :=
        point.reached_batch hk live m
      rw [applyMutation_some, hr]
      cases hl : live.facts.lookup m.key <;> cases point <;>
        simp [AllocPoint.beforeUndo, AllocPoint.reached, undoOf, FactMutation.fact, hl, hk]

/-- The publication of a list of mutations, whatever their requests. -/
def publishAll (fault : Option (ℕ × AllocPoint)) (p : Publication)
    (kms : List (UInt8 × FactMutation)) : Publication :=
  kms.foldl (fun p km => (publishMutation fault km.1 p km.2).1) p

@[simp] theorem publishAll_nil (p : Publication) : publishAll fault p [] = p := rfl

theorem publishAll_cons (p : Publication) (km : UInt8 × FactMutation)
    (kms : List (UInt8 × FactMutation)) : publishAll fault p (km :: kms) =
      publishAll fault (publishMutation fault km.1 p km.2).1 kms := rfl

theorem publishAll_append (p : Publication) (kms kms' : List (UInt8 × FactMutation)) :
    publishAll fault p (kms ++ kms') = publishAll fault (publishAll fault p kms) kms' :=
  List.foldl_append

theorem publishMutations_fst (p : Publication) (ms : List FactMutation) :
    (publishMutations fault kind p ms).1 = publishAll fault p (ms.map (kind, ·)) := by
  induction ms generalizing p with
  | nil => rfl
  | cons m ms ih => exact ih _

theorem publishRequest_fst (p : Publication) (r : Request) :
    (publishRequest fault p r).1 = publishAll fault p (strictMutations [r]) := by
  unfold publishRequest strictMutations
  by_cases h : r.applyAfterWrite
  · simp only [h, not_true_eq_false, if_false, if_true, List.flatMap_cons, List.flatMap_nil,
      List.append_nil]
    rw [← publishMutations_fst]
    split_ifs <;> rfl
  · simp [h]

/-- The nested loops publish the strict mutations in their order. -/
theorem publishRequests_fst (p : Publication) (batch : List Request) :
    (publishRequests fault p batch).1 = publishAll fault p (strictMutations batch) := by
  induction batch generalizing p with
  | nil => rfl
  | cons r rs ih =>
    have hsplit : strictMutations (r :: rs) = strictMutations [r] ++ strictMutations rs := by
      simp [strictMutations]
    rw [hsplit, publishAll_append, ← publishRequest_fst, ← ih]
    rfl

/-- A failure ends both loops. -/
theorem publishAll_stopped (live : Live) (undo : List FactUndo) (e : Err)
    (kms : List (UInt8 × FactMutation)) :
    publishAll fault ⟨live, undo, some e⟩ kms = ⟨live, undo, some e⟩ := by
  induction kms with
  | nil => rfl
  | cons km kms ih => rwa [publishAll_cons, show
      (publishMutation fault km.1 ⟨live, undo, some e⟩ km.2).1 = ⟨live, undo, some e⟩ from rfl]

theorem faultAt_of_ne {n round : ℕ} {point : AllocPoint} (h : n ≠ round) :
    faultAt (some (n, point)) round = none := if_neg h

theorem faultAt_self (n : ℕ) (point : AllocPoint) : faultAt (some (n, point)) n = some point :=
  if_pos rfl

/-- Where no allocation fails the rounds put every mutation and keep its undo record. -/
theorem publishAll_quiet : ∀ (kms : List (UInt8 × FactMutation)) (live : Live) (undo : List FactUndo),
    (∀ i < kms.length, faultAt fault (undo.length + i) = none) →
    publishAll fault ⟨live, undo, none⟩ kms =
      ⟨live.putAll kms, undo ++ (recordAll Fact.timestamp live.facts (writesOf kms)).2, none⟩
  | [], live, undo, _ => by simp [writesOf]
  | km :: kms, live, undo, h => by
    have h0 : faultAt fault undo.length = none := h 0 (by simp)
    have hrest : ∀ i < kms.length, faultAt fault
        ((undo ++ [undoOf Fact.timestamp live.facts km.2.key km.2.fact]).length + i) = none := by
      intro i hi
      have := h (i + 1) (by simpa using hi)
      rwa [List.length_append, List.length_singleton, Nat.add_assoc, Nat.add_comm 1 i]
    rw [publishAll_cons, publishMutation_eq, h0]
    simp only
    rw [publishAll_quiet kms _ _ hrest, Live.put_facts]
    simp [writesOf, recordAll_cons]

theorem length_recordAll (facts : FMap Bytes Fact) (ws : List (Bytes × Fact)) :
    (recordAll Fact.timestamp facts ws).2.length = ws.length := by
  induction ws generalizing facts with
  | nil => rfl
  | cons w ws ih => rw [recordAll_cons, List.length_cons, ih, List.length_cons]

end PublishLemmas

/-- Which write an allocation of a round belongs to. -/
theorem allocFails_at (self : Live) {pre post : List (UInt8 × FactMutation)} {km : UInt8 × FactMutation} {n : ℕ}
    {point : AllocPoint} (hlen : pre.length = n) :
    allocFails self (pre ++ km :: post) (some (n, point)) = point.reached (self.putAll pre) km.1 km.2 := by
  unfold allocFails
  simp only [← hlen, List.take_left]
  rw [List.getElem?_append_right (Nat.le_refl _), Nat.sub_self]
  rfl

/-- Nothing fails before it. -/
theorem publishAll_before (self : Live) (pre : List (UInt8 × FactMutation)) {n : ℕ} {point : AllocPoint}
    (hlen : pre.length ≤ n) : publishAll (some (n, point)) ⟨self, [], none⟩ pre =
      ⟨self.putAll pre, (recordAll Fact.timestamp self.facts (writesOf pre)).2, none⟩ := by
  rw [publishAll_quiet pre self [] fun i hi => faultAt_of_ne (by simp; omega), List.nil_append]

/-- **What the publication loop does.**  Either every mutation is put, or the loop stops at a mutation with
the writes before it done, and with the undo record of that mutation taken or not. -/
theorem publishAll_cases (self : Live) (kms : List (UInt8 × FactMutation))
    (fault : Option (ℕ × AllocPoint)) :
    (allocFails self kms fault = false ∧ publishAll fault ⟨self, [], none⟩ kms =
      ⟨self.putAll kms, (recordAll Fact.timestamp self.facts (writesOf kms)).2, none⟩) ∨
    (allocFails self kms fault = true ∧ ∃ pre, recordedBefore kms fault = pre ∧
      publishAll fault ⟨self, [], none⟩ kms =
        ⟨self.putAll pre, (recordAll Fact.timestamp self.facts (writesOf pre)).2, some .outOfMemory⟩) ∨
    (allocFails self kms fault = true ∧ ∃ pre km, recordedBefore kms fault = pre ++ [km] ∧
      publishAll fault ⟨self, [], none⟩ kms =
        ⟨self.putAll pre, (recordAll Fact.timestamp self.facts (writesOf pre)).2 ++
          [undoOf Fact.timestamp (self.putAll pre).facts km.2.key km.2.fact], some .outOfMemory⟩) := by
  cases fault with
  | none =>
    left
    refine ⟨rfl, ?_⟩
    rw [publishAll_quiet kms self [] (fun _ _ => rfl), List.nil_append]
  | some f =>
    obtain ⟨n, point⟩ := f
    by_cases hn : n < kms.length
    · obtain ⟨pre, km, post, hkms, hlen⟩ : ∃ pre km post, kms = pre ++ km :: post ∧ pre.length = n :=
        ⟨kms.take n, kms[n], kms.drop (n + 1), by simp,
          by rw [List.length_take]; omega⟩
      subst hkms
      have hround : (recordAll Fact.timestamp self.facts (writesOf pre)).2.length = n := by
        rw [length_recordAll, writesOf, List.length_map, hlen]
      rw [allocFails_at self hlen, publishAll_append, publishAll_before self pre (Nat.le_of_eq hlen), publishAll_cons,
        publishMutation_eq, hround, faultAt_self]
      simp only
      cases hreach : point.reached (self.putAll pre) km.1 km.2 with
      | false =>
        left
        refine ⟨rfl, ?_⟩
        rw [if_neg (by simp), publishAll_quiet post _ _ fun i _ => faultAt_of_ne (by
          rw [List.length_append, hround, List.length_singleton]; omega), Live.putAll_append, Live.putAll_cons]
        rw [Live.put_facts, Live.putAll_facts]
        simp only [writesOf, List.map_append, List.map_cons, recordAll_append, recordAll_cons,
          List.append_assoc, List.singleton_append]
      | true =>
        right
        rw [if_pos rfl]
        cases hbefore : point.beforeUndo with
        | true =>
          left
          refine ⟨rfl, pre, ?_, ?_⟩
          · simp [recordedBefore, hbefore, ← hlen]
          · rw [if_pos rfl, publishAll_stopped]
        | false =>
          right
          refine ⟨rfl, pre, km, ?_, ?_⟩
          · simp only [recordedBefore, hbefore, ← hlen]
            rw [if_neg (by simp), List.take_length_add_append]
            rfl
          · rw [if_neg (by simp), publishAll_stopped]
    · left
      refine ⟨?_, ?_⟩
      · unfold allocFails
        simp only
        rw [List.getElem?_eq_none (by omega)]
      · rw [publishAll_before self kms (by omega)]

/-! ## The rollbacks -/

/-- Both rollbacks on a state that a publication left. -/
theorem rollback_state {self live : Live} {undo : List FactUndo}
    (hpending : self.pending <+: live.pending) :
    rollbackPending (rollbackFacts live undo).1 self.pending.length self.nextId =
      { self with facts := (rollback Fact.timestamp live.facts undo).1 } := by
  unfold rollbackPending rollbackFacts
  simp only [← List.prefix_iff_eq_take.mp hpending]

/-- Wherever the publication loop stops, one rollback gives the facts back, and the pending list has only grown. -/
theorem rollback_publishAll (self : Live) (kms : List (UInt8 × FactMutation))
    (fault : Option (ℕ × AllocPoint)) :
    (rollback Fact.timestamp (publishAll fault ⟨self, [], none⟩ kms).live.facts
        (publishAll fault ⟨self, [], none⟩ kms).undo).1 = self.facts ∧
      self.pending <+: (publishAll fault ⟨self, [], none⟩ kms).live.pending := by
  rcases publishAll_cases self kms fault with ⟨-, hp⟩ | ⟨-, pre, -, hp⟩ | ⟨-, pre, km, -, hp⟩
  · rw [hp, Live.putAll_facts]
    exact ⟨rollback_record _ _, self.putAll_pending_prefix kms⟩
  · rw [hp, Live.putAll_facts]
    exact ⟨rollback_record _ _, self.putAll_pending_prefix pre⟩
  · rw [hp, Live.putAll_facts]
    exact ⟨rollback_record_unwritten _ _ _ _, self.putAll_pending_prefix pre⟩

/-- A publication that meets no failure puts every mutation. -/
theorem publishAll_live {self : Live} {kms : List (UInt8 × FactMutation)} {fault : Option (ℕ × AllocPoint)}
    (h : (publishAll fault ⟨self, [], none⟩ kms).failure = none) :
    (publishAll fault ⟨self, [], none⟩ kms).live = self.putAll kms := by
  rcases publishAll_cases self kms fault with ⟨-, hp⟩ | ⟨-, pre, -, hp⟩ | ⟨-, pre, km, -, hp⟩
  · rw [hp]
  · rw [hp] at h
    cases h
  · rw [hp] at h
    cases h

theorem attemptLoop_of_failure (io : ℕ → Option Err) (left attempt : ℕ) (e : Err) :
    attemptLoop io left attempt (some e) = some e := by
  cases left <;> rfl

/-- The first failed attempt is the last. -/
theorem attemptLoop_none (io : ℕ → Option Err) : attemptLoop io 3 0 none = io 0 := by
  unfold attemptLoop
  cases io 0 with
  | none => rfl
  | some e => exact attemptLoop_of_failure io 2 1 e

theorem tie_writesOf {self : Live} {kms : List (UInt8 × FactMutation)} :
    (∀ w ∈ writesOf kms, ∀ c, self.facts.lookup w.1 = some c → c.timestamp ≠ w.2.timestamp) ↔
      ∀ km ∈ kms, ∀ c, self.facts.lookup km.2.key = some c → c.timestamp ≠ km.2.timestamp := by
  unfold writesOf
  simp only [List.mem_map, forall_exists_index, and_imp, forall_apply_eq_imp_iff₂]
  rfl

/-- Settling a failed group rolls back from whatever state keeps the old pending list in front. -/
theorem settleGroup_failed {self : Live} {p : Publication} (hpending : self.pending <+: p.live.pending)
    (hnone : p.undo = [] → p.live = self) (e : Err) :
    settleGroup p self.pending.length self.nextId (some e) =
      { self with facts := (rollback Fact.timestamp p.live.facts p.undo).1 } := by
  unfold settleGroup
  by_cases h : p.undo = []
  · rw [if_neg (by simp [h]), h, hnone h]
    rfl
  · rw [if_pos ⟨rfl, h⟩, rollback_state hpending]

section RunGroup

variable {self : Live} {batch : List Request} {fault : Option (ℕ × AllocPoint)}

/-- A group that was published whole meets its first failure in its write. -/
theorem runGroup_published (io : ℕ → Option Err) {undo : List FactUndo}
    (h : publishAll fault ⟨self, [], none⟩ (strictMutations batch) =
      ⟨self.putAll (strictMutations batch), undo, none⟩) :
    runGroup self batch fault io = (settleGroup ⟨self.putAll (strictMutations batch), undo, none⟩
      self.pending.length self.nextId (io 0), io 0) := by
  unfold runGroup publishGroup
  simp only [publishRequests_fst, h]
  rw [attemptLoop_none]

/-- A group whose publication failed is rolled back twice. -/
theorem runGroup_alloc_failed (io : ℕ → Option Err) {live : Live} {undo : List FactUndo} {e : Err}
    (h : publishAll fault ⟨self, [], none⟩ (strictMutations batch) = ⟨live, undo, some e⟩)
    (hpending : self.pending <+: live.pending)
    (hexact : (rollback Fact.timestamp live.facts undo).1 = self.facts) :
    runGroup self batch fault io =
      ({ self with facts := (rollback Fact.timestamp self.facts
          (rollback Fact.timestamp live.facts undo).2).1 }, some e) := by
  unfold runGroup publishGroup
  simp only [publishRequests_fst, h, attemptLoop_of_failure]
  rw [rollback_state hpending, hexact]
  rw [settleGroup_failed List.prefix_rfl fun _ => rfl]
  rfl

end RunGroup

/-- **How a commit group ends.**  It is published; or its write fails and nothing is left of it; or an allocation
fails, and the facts are gone that tie with a mutation whose undo record was taken. -/
theorem runGroup_cases (self : Live) (batch : List Request) (fault : Option (ℕ × AllocPoint))
    (io : ℕ → Option Err) :
    (allocFails self (strictMutations batch) fault = false ∧ io 0 = none ∧
      runGroup self batch fault io = (self.putAll (strictMutations batch), none)) ∨
    (allocFails self (strictMutations batch) fault = false ∧ ∃ e, io 0 = some e ∧
      runGroup self batch fault io = (self, some e)) ∨
    (allocFails self (strictMutations batch) fault = true ∧ ∃ facts,
      runGroup self batch fault io = ({ self with facts := facts }, some .outOfMemory) ∧ ∀ key,
        (Tied Fact.timestamp self.facts (writesOf (recordedBefore (strictMutations batch) fault)) key →
          facts.lookup key = none) ∧
        (¬ Tied Fact.timestamp self.facts (writesOf (recordedBefore (strictMutations batch) fault)) key →
          facts.lookup key = self.facts.lookup key)) := by
  rcases publishAll_cases self (strictMutations batch) fault with
    ⟨hfails, hp⟩ | ⟨hfails, pre, hpre, hp⟩ | ⟨hfails, pre, km, hpre, hp⟩
  · -- published whole: one rollback, which is exact
    rw [runGroup_published io hp]
    cases hio : io 0 with
    | none => exact Or.inl ⟨hfails, rfl, rfl⟩
    | some e =>
      refine Or.inr (Or.inl ⟨hfails, e, rfl, ?_⟩)
      have hnone : (recordAll Fact.timestamp self.facts (writesOf (strictMutations batch))).2 = [] →
          self.putAll (strictMutations batch) = self := by
        intro hnil
        have hlen := length_recordAll self.facts (writesOf (strictMutations batch))
        rw [hnil, writesOf, List.length_map] at hlen
        rw [List.length_eq_zero_iff.mp hlen.symm]
        rfl
      rw [settleGroup_failed (self.putAll_pending_prefix _) hnone]
      simp only
      rw [Live.putAll_facts, rollback_record]
  · have hexact : (rollback Fact.timestamp (self.putAll pre).facts
        (recordAll Fact.timestamp self.facts (writesOf pre)).2).1 = self.facts := by
      rw [Live.putAll_facts]
      exact rollback_record _ _
    refine Or.inr (Or.inr ⟨hfails, _, runGroup_alloc_failed io hp (self.putAll_pending_prefix pre) hexact, ?_⟩)
    rw [hpre, Live.putAll_facts]
    exact lookup_rollback_twice Fact.timestamp self.facts (writesOf pre)
  · have hexact : (rollback Fact.timestamp (self.putAll pre).facts
        ((recordAll Fact.timestamp self.facts (writesOf pre)).2 ++
          [undoOf Fact.timestamp (self.putAll pre).facts km.2.key km.2.fact])).1 = self.facts := by
      rw [Live.putAll_facts]
      exact rollback_record_unwritten _ _ _ _
    refine Or.inr (Or.inr ⟨hfails, _, runGroup_alloc_failed io hp (self.putAll_pending_prefix pre) hexact, ?_⟩)
    have hws : writesOf (pre ++ [km]) = writesOf pre ++ [(km.2.key, km.2.fact)] := by simp [writesOf]
    obtain ⟨ws', hrollback, htied⟩ := rollback_twice_unwritten Fact.timestamp self.facts (writesOf pre)
      km.2.key km.2.fact
    rw [hpre, hws, Live.putAll_facts, hrollback]
    intro key
    rw [← htied key]
    exact lookup_rollback_twice Fact.timestamp self.facts ws' key

/-- **When a failed commit group leaves no trace.**  It does iff no allocation of the publication failed, or
no mutation whose undo record was taken has the timestamp of the fact that its key held before. -/
theorem runGroup_restores_iff (self : Live) (batch : List Request) (fault : Option (ℕ × AllocPoint))
    (io : ℕ → Option Err) :
    ((runGroup self batch fault io).2 ≠ none → (runGroup self batch fault io).1 = self) ↔
      (allocFails self (strictMutations batch) fault = true →
        ∀ km ∈ recordedBefore (strictMutations batch) fault, ∀ c,
          self.facts.lookup km.2.key = some c → c.timestamp ≠ km.2.timestamp) := by
  rcases runGroup_cases self batch fault io with
    ⟨hfails, -, hrun⟩ | ⟨hfails, e, -, hrun⟩ | ⟨hfails, facts, hrun, hfacts⟩
  · rw [hrun, hfails]
    exact iff_of_true (fun hne => absurd rfl hne) (fun h => Bool.noConfusion h)
  · rw [hrun, hfails]
    exact iff_of_true (fun _ => rfl) (fun h => Bool.noConfusion h)
  · rw [hrun, hfails, ← tie_writesOf, ← forall_not_tied_iff Fact.timestamp]
    simp only [ne_eq, reduceCtorEq, not_false_eq_true, true_imp_iff]
    constructor
    · intro h key htied
      have hgone := (hfacts key).1 htied
      obtain ⟨w, -, -, c, hc, -⟩ := htied
      have hsame : facts = self.facts := congrArg Live.facts h
      rw [hsame, hc] at hgone
      cases hgone
    · intro h
      have hsame : facts = self.facts := Finmap.ext_lookup fun key => (hfacts key).2 (h key)
      rw [hsame]

/-- A failed allocation deletes a stored fact: the first mutation ties with it, the key of the second cannot
be allocated, and the second rollback finds the undo record of the first spent. -/
theorem runGroup_deletes_tied :
    let m : FactMutation := ⟨[110], 1, 2, [34, 34], ⟨5, 0, 1⟩, ⟨0, 0, []⟩⟩
    let self := Live.init.putDirty m
    let batch : List Request :=
      [⟨0, [m, { m with component := 3 }], [false, false], recordBatch, 0, true, true⟩]
    let after := runGroup self batch (some (1, .makeKey)) fun _ => none
    after.2 = some .outOfMemory ∧ getFact self [110] 1 2 = some m.fact ∧
      getFact after.1 [110] 1 2 = none := by
  decide

end Slung.Wal
