import Slung.Wal.Namespaces

/-!
# Slung.Wal.Admission — what an eventual call returns (`wal.zig`, `enqueueBatch` and `flushCascade`)

`Slung.Wal.Machine` has the critical section of an eventual call as one step and leaves out what the call
returns.  Here the two calls have their results: every exit of the source with its error, the reservation of
the queue slot, and the order of `flushCascade`, which queues the request first and pops it when the
publication fails.  A call takes at most one failing allocation, since the first one ends it.

`failed_admission` says that an error leaves the log as it was; `enqueueBatchEventual_step` and
`flushCascadeEventual_step` say that the calls are the steps of the machine.
-/

namespace Slung.Wal

open Slung.Lib

/-! ## The calls -/

/-- The allocations of an eventual call after its request is built. -/
inductive AdmissionFault where
  /-- the slot of the queue -/
  | queueSlot
  /-- an allocation of the publication loop, in one of its rounds -/
  | publication (round : ℕ) (point : AllocPoint)
deriving DecidableEq, Repr

/-- The failing allocation that the publication loop meets. -/
def AdmissionFault.inLoop : AdmissionFault → Option (ℕ × AllocPoint)
  | queueSlot => none
  | publication round point => some (round, point)

/-- Take the last request out of the queue again. -/
def State.pop (s : State) : State :=
  { s with requests := s.requests.dropLast, tickets := s.tickets - 1 }

/-- `enqueueBatch` in eventual mode, with the flags or the error that it returns; `none` while it waits for
room in the queue. -/
def enqueueBatchEventual (s : State) (mutations : List FactMutation) (accepted : List Bool)
    (fault : Option AdmissionFault) : Option (Except Err (List Bool) × State) :=
  if accepted.length ≠ mutations.length then some (.error .invalidResultBuffer, s)
  else if mutations = [] then some (.ok [], s)
  else
    let request := newRequest s recordBatch mutations 0 .eventual
    if s.failed then some (.error .walUnavailable, s)
    else if ¬ s.requests.length < maxQueuedRequests then none
    else if fault = some .queueSlot then some (.error .outOfMemory, s)
    else
      let (p, accepted) :=
        publishMutations (fault.bind (·.inLoop)) recordBatch ⟨s.live, [], none⟩ request.mutations
      match p.failure with
      | some e => some (.error e, { s with
          live := rollbackPending (rollbackFacts p.live p.undo).1 s.live.pending.length s.live.nextId })
      | none =>
        let published := s.history.published ++
          acceptedOf request.ticket recordBatch s.live request.mutations
        some (.ok accepted, { s.push { request with accepted := accepted } with
          live := p.live, history := { s.history with published := published } })

/-- `flushCascade` in eventual mode.  The request is queued before the publication and popped if that fails. -/
def flushCascadeEventual (s : State) (mutations : List FactMutation) (ackId : Int64)
    (fault : Option AdmissionFault) : Option (Except Err Unit × State) :=
  let request := newRequest s recordCascade mutations ackId .eventual
  if s.failed then some (.error .walUnavailable, s)
  else if ¬ s.requests.length < maxQueuedRequests then none
  else if fault = some .queueSlot then some (.error .outOfMemory, s)
  else
    let queued := s.push request
    let (p, _) := publishMutations (fault.bind (·.inLoop)) recordCascade ⟨queued.live, [], none⟩ mutations
    match p.failure with
    | some e => some (.error e, { queued.pop with live := (rollbackFacts p.live p.undo).1 })
    | none =>
      let published := s.history.published ++ acceptedOf request.ticket recordCascade s.live mutations
      some (.ok (), { queued with
        live := removePending p.live ackId.toInt, history := { s.history with published := published } })

/-! ## What they do -/

section Calls

variable {s s' : State} {fault : Option AdmissionFault} {ms : List FactMutation}

@[simp] theorem pop_push (s : State) (request : Request) : (s.push request).pop = s := by
  unfold State.pop State.push
  simp

/-- Whatever stops the publication of a batch, the two rollbacks give back the live state. -/
theorem rollback_batch (fault : Option (ℕ × AllocPoint)) (self : Live) (ms : List FactMutation)
    {p : Publication} {accepted : List Bool}
    (hp : publishMutations fault recordBatch ⟨self, [], none⟩ ms = (p, accepted)) :
    rollbackPending (rollbackFacts p.live p.undo).1 self.pending.length self.nextId = self := by
  have hfst : p = publishAll fault ⟨self, [], none⟩ (ms.map (recordBatch, ·)) := by
    rw [← publishMutations_fst, hp]
  obtain ⟨hfacts, hpending⟩ := rollback_publishAll self (ms.map (recordBatch, ·)) fault
  rw [← hfst] at hfacts hpending
  rw [rollback_state hpending, hfacts]

/-- A cascade never touches the pending list. -/
theorem publishAll_noDirty (fault : Option (ℕ × AllocPoint)) (ms : List FactMutation) :
    ∀ p : Publication, (publishAll fault p (ms.map (recordCascade, ·))).live.pending = p.live.pending ∧
      (publishAll fault p (ms.map (recordCascade, ·))).live.nextId = p.live.nextId := by
  induction ms with
  | nil => exact fun _ => ⟨rfl, rfl⟩
  | cons m ms ih =>
    intro p
    obtain ⟨hpending, hnext⟩ := ih (publishMutation fault recordCascade p m).1
    have hround : (publishMutation fault recordCascade p m).1.live.pending = p.live.pending ∧
        (publishMutation fault recordCascade p m).1.live.nextId = p.live.nextId := by
      obtain ⟨live, undo, failure⟩ := p
      cases failure with
      | some e => exact ⟨rfl, rfl⟩
      | none =>
        have hput : (live.put recordCascade m).pending = live.pending ∧
            (live.put recordCascade m).nextId = live.nextId := ⟨rfl, rfl⟩
        rw [publishMutation_eq]
        split
        · split_ifs
          · exact ⟨rfl, rfl⟩
          · exact ⟨rfl, rfl⟩
          · exact hput
        · exact hput
    rw [List.map_cons, publishAll_cons]
    exact ⟨hpending.trans hround.1, hnext.trans hround.2⟩

/-- So the rollback of the facts is enough for it. -/
theorem rollback_cascade (fault : Option (ℕ × AllocPoint)) (self : Live) (ms : List FactMutation)
    {p : Publication} {accepted : List Bool}
    (hp : publishMutations fault recordCascade ⟨self, [], none⟩ ms = (p, accepted)) :
    (rollbackFacts p.live p.undo).1 = self := by
  have hfst : p = publishAll fault ⟨self, [], none⟩ (ms.map (recordCascade, ·)) := by
    rw [← publishMutations_fst, hp]
  obtain ⟨hfacts, -⟩ := rollback_publishAll self (ms.map (recordCascade, ·)) fault
  obtain ⟨hpending, hnext⟩ := publishAll_noDirty fault ms ⟨self, [], none⟩
  rw [← hfst] at hfacts hpending hnext
  show Live.mk _ p.live.pending p.live.nextId = self
  rw [hfacts, hpending, hnext]

/-- The exits of `enqueueBatch`: an error with nothing changed, or a success that is a step of the machine. -/
theorem enqueueBatchEventual_cases {accepted : List Bool} {r : Except Err (List Bool)}
    (h : enqueueBatchEventual s ms accepted fault = some (r, s')) :
    ((∃ e, r = .error e) ∧ s' = s) ∨
      ((∃ flags, r = .ok flags) ∧ wal.step s (.enqueueBatch ms .eventual (fault.bind (·.inLoop))) = some s') := by
  unfold enqueueBatchEventual at h
  by_cases hlen : accepted.length ≠ ms.length
  · rw [if_pos hlen] at h
    cases h
    exact Or.inl ⟨⟨_, rfl⟩, rfl⟩
  rw [if_neg hlen] at h
  by_cases hnil : ms = []
  · rw [if_pos hnil] at h
    cases h
    exact Or.inr ⟨⟨_, rfl⟩, by simp only [wal, enqueueBatch, if_pos hnil]⟩
  rw [if_neg hnil] at h
  by_cases hfailed : s.failed
  · simp only [if_pos hfailed] at h
    cases h
    exact Or.inl ⟨⟨_, rfl⟩, rfl⟩
  by_cases hroom : s.requests.length < maxQueuedRequests
  swap
  · simp only [if_neg hfailed, if_pos hroom] at h
    cases h
  by_cases hslot : fault = some .queueSlot
  · simp only [if_neg hfailed, hroom, not_true_eq_false, if_false, if_pos hslot] at h
    cases h
    exact Or.inl ⟨⟨_, rfl⟩, rfl⟩
  simp only [if_neg hfailed, hroom, not_true_eq_false, if_false, if_neg hslot] at h
  cases hp : publishMutations (fault.bind (·.inLoop)) recordBatch ⟨s.live, [], none⟩
      (newRequest s recordBatch ms 0 .eventual).mutations with
  | mk p flags =>
    simp only [hp] at h
    cases hfailure : p.failure with
    | some e =>
      simp only [hfailure] at h
      cases h
      refine Or.inl ⟨⟨e, rfl⟩, ?_⟩
      rw [rollback_batch _ s.live _ hp]
    | none =>
      simp only [hfailure] at h
      cases h
      refine Or.inr ⟨⟨flags, rfl⟩, ?_⟩
      simp only [wal, enqueueBatch, if_neg hnil, admission, if_neg hfailed, if_pos hroom, State.publishNow]
      have hkind : (newRequest s recordBatch ms 0 .eventual).recordKind = recordBatch := rfl
      simp only [hkind, hp, hfailure]
      rfl

/-- The same of `flushCascade`. -/
theorem flushCascadeEventual_cases {ackId : Int64} {r : Except Err Unit}
    (h : flushCascadeEventual s ms ackId fault = some (r, s')) :
    ((∃ e, r = .error e) ∧ s' = s) ∨
      (r = .ok () ∧ wal.step s (.flushCascade ms ackId .eventual (fault.bind (·.inLoop))) = some s') := by
  unfold flushCascadeEventual at h
  by_cases hfailed : s.failed
  · simp only [if_pos hfailed] at h
    cases h
    exact Or.inl ⟨⟨_, rfl⟩, rfl⟩
  by_cases hroom : s.requests.length < maxQueuedRequests
  swap
  · simp only [if_neg hfailed, if_pos hroom] at h
    cases h
  by_cases hslot : fault = some .queueSlot
  · simp only [if_neg hfailed, hroom, not_true_eq_false, if_false, if_pos hslot] at h
    cases h
    exact Or.inl ⟨⟨_, rfl⟩, rfl⟩
  simp only [if_neg hfailed, hroom, not_true_eq_false, if_false, if_neg hslot] at h
  cases hp : publishMutations (fault.bind (·.inLoop)) recordCascade ⟨s.live, [], none⟩ ms with
  | mk p flags =>
    have hlive : (s.push (newRequest s recordCascade ms ackId .eventual)).live = s.live := rfl
    simp only [hlive, hp] at h
    cases hfailure : p.failure with
    | some e =>
      simp only [hfailure] at h
      cases h
      refine Or.inl ⟨⟨e, rfl⟩, ?_⟩
      rw [rollback_cascade _ s.live _ hp, pop_push]
    | none =>
      simp only [hfailure] at h
      cases h
      refine Or.inr ⟨rfl, ?_⟩
      simp only [wal, flushCascade, admission, if_neg hfailed, if_pos hroom, State.publishNow]
      have hkind : (newRequest s recordCascade ms ackId .eventual).recordKind = recordCascade := rfl
      have hms : (newRequest s recordCascade ms ackId .eventual).mutations = ms := rfl
      simp only [hkind, hms, hp, hfailure]
      rfl

/-- What a publication under the mutex leaves, when what follows a failure gives back the live state. -/
theorem publishNow_exact (fault : Option (ℕ × AllocPoint)) (s : State) (r : Request)
    (undone flushed : Live → Live)
    (hundone : ∀ p accepted, publishMutations fault r.recordKind ⟨s.live, [], none⟩ r.mutations = (p, accepted) →
      undone (rollbackFacts p.live p.undo).1 = s.live) :
    s.publishNow fault r undone flushed = s ∨ ∃ accepted, s.publishNow fault r undone flushed =
      { (s.push { r with accepted := accepted }) with
        live := flushed (s.live.publish r)
        history := { s.history with
          published := s.history.published ++ acceptedOf r.ticket r.recordKind s.live r.mutations } } := by
  unfold State.publishNow
  cases hp : publishMutations fault r.recordKind ⟨s.live, [], none⟩ r.mutations with
  | mk p accepted =>
    have hfst : p = publishAll fault ⟨s.live, [], none⟩ (r.mutations.map (r.recordKind, ·)) := by
      rw [← publishMutations_fst, hp]
    cases hfailure : p.failure with
    | some e =>
      left
      simp only [hfailure, hundone p accepted hp]
    | none =>
      have hlive : p.live = s.live.publish r := by
        rw [hfst] at hfailure ⊢
        exact publishAll_live hfailure
      right
      by_cases hk : r.recordKind = recordCascade
      · exact ⟨r.accepted, by simp only [hfailure, if_pos hk, hlive]⟩
      · exact ⟨accepted, by simp only [hfailure, if_neg hk, hlive]⟩

/-- An eventual batch: nothing, or the request queued and published. -/
theorem enqueueBatch_eventual {fault : Option (ℕ × AllocPoint)}
    (h : enqueueBatch s ms .eventual fault = some s') :
    s' = s ∨ ∃ request history, s' = { (s.push request) with
        live := s.live.publish request, history := history } ∧
      s.failed = false ∧ request.record = .batch ms ∧ request.applyAfterWrite = false ∧
      history.log = s.history.log ∧ history.issued = s.history.issued := by
  unfold enqueueBatch at h
  by_cases hms : ms = []
  · rw [if_pos hms] at h
    exact Or.inl (Option.some.inj h).symm
  rw [if_neg hms] at h
  rcases admission_cases h with rfl | ⟨hf, rfl⟩
  · exact Or.inl rfl
  simp only
  rcases publishNow_exact fault s (newRequest s recordBatch ms 0 .eventual)
    (fun live => rollbackPending live s.live.pending.length s.live.nextId) id
    (fun _ _ hp => rollback_batch fault s.live ms hp) with hs | ⟨accepted, hs⟩
  · exact Or.inl hs
  · exact Or.inr ⟨{ newRequest s recordBatch ms 0 .eventual with accepted := accepted }, _, hs, hf, rfl, rfl,
      rfl, rfl⟩

/-- An eventual cascade: nothing, or the request queued, published and the acknowledged entry taken out. -/
theorem flushCascade_eventual {fault : Option (ℕ × AllocPoint)} {ackId : Int64}
    (h : flushCascade s ms ackId .eventual fault = some s') :
    s' = s ∨ ∃ request history, s' = { (s.push request) with
        live := removePending (s.live.publish request) ackId.toInt, history := history } ∧
      s.failed = false ∧ request.record = .cascade ackId ms ∧ request.applyAfterWrite = false ∧
      history.log = s.history.log ∧ history.issued = s.history.issued := by
  unfold flushCascade at h
  rcases admission_cases h with rfl | ⟨hf, rfl⟩
  · exact Or.inl rfl
  simp only
  rcases publishNow_exact fault s (newRequest s recordCascade ms ackId .eventual) id
    (fun live => removePending live ackId.toInt)
    (fun _ _ hp => rollback_cascade fault s.live ms hp) with hs | ⟨accepted, hs⟩
  · exact Or.inl hs
  · exact Or.inr ⟨{ newRequest s recordCascade ms ackId .eventual with accepted := accepted }, _, hs, hf, rfl,
      rfl, rfl, rfl⟩

end Calls

/-- **A failed admission changes nothing.**  Whatever the state, the mutations and the allocation that fails,
an eventual call that returns an error leaves facts, pending list, id counter and queue as they were. -/
theorem failed_admission (s : State) (fault : Option AdmissionFault) :
    (∀ ms accepted e s', enqueueBatchEventual s ms accepted fault = some (.error e, s') →
      s'.live = s.live ∧ s'.requests = s.requests) ∧
    (∀ ms ackId e s', flushCascadeEventual s ms ackId fault = some (.error e, s') →
      s'.live = s.live ∧ s'.requests = s.requests) := by
  constructor
  · intro ms accepted e s' h
    rcases enqueueBatchEventual_cases h with ⟨-, rfl⟩ | ⟨⟨flags, hr⟩, -⟩
    · exact ⟨rfl, rfl⟩
    · cases hr
  · intro ms ackId e s' h
    rcases flushCascadeEventual_cases h with ⟨-, rfl⟩ | ⟨hr, -⟩
    · exact ⟨rfl, rfl⟩
    · cases hr

/-- A batch that writes a key twice, ties with a stored fact and is older than another, and a cascade after it:
the last round of each fails in the middle of its write. -/
theorem failed_admission_example :
    let m : FactMutation := ⟨[110], 1, 2, [49], ⟨5, 0, 1⟩, ⟨0, 0, []⟩⟩
    let s := State.opened [.batch [m, { m with component := 3 }]]
    let ms := [{ m with timestamp := ⟨6, 0, 1⟩ }, { m with timestamp := ⟨7, 0, 1⟩, value := [50] },
      { m with component := 3, value := [51] }, { m with component := 3, timestamp := ⟨4, 0, 1⟩ },
      { m with component := 4 }]
    let fault := some (AdmissionFault.publication 4 .putFact)
    (∃ s', enqueueBatchEventual s ms [true, true, true, true, true] fault = some (.error .outOfMemory, s') ∧
      s'.live = s.live ∧ s'.requests = s.requests) ∧
    (∃ s', flushCascadeEventual s ms 1 fault = some (.error .outOfMemory, s') ∧
      s'.live = s.live ∧ s'.requests = s.requests) := by
  intro m s ms fault
  have herr : (enqueueBatchEventual s ms [true, true, true, true, true] fault).map Prod.fst =
      some (.error .outOfMemory) ∧ (flushCascadeEventual s ms 1 fault).map Prod.fst = some (.error .outOfMemory) := by
    decide
  obtain ⟨⟨r₁, s₁⟩, h₁, rfl⟩ := Option.map_eq_some_iff.mp herr.1
  obtain ⟨⟨r₂, s₂⟩, h₂, rfl⟩ := Option.map_eq_some_iff.mp herr.2
  exact ⟨⟨s₁, h₁, (failed_admission s fault).1 ms _ _ s₁ h₁⟩, ⟨s₂, h₂, (failed_admission s fault).2 ms 1 _ s₂ h₂⟩⟩

end Slung.Wal
