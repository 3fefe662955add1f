import Slung.Wal.Admission
import Slung.Wal.StrictFaults

/-!
# Slung.Wal.Reads — what readers see while groups commit and fail (`wal.zig`, `getFact`)

Readers take the mutex like everybody else, so they see the facts between any two steps, also those of a
group that is not on disk yet.  A group that fails is taken back under their eyes, and the log stops for good.

`session_guarantees`: as long as that has not happened, whatever else fails, no read goes back in time and an
eventual call finds what it wrote.  `accepted_writes_stay_readable`: what a strict call wrote, and what an
eventual batch was told is accepted, is read back in every later state, also when a group fails over it, as
long as the worker finds the memory to publish its groups.
-/

namespace Slung.Wal

open Slung.Lib

/-! ## Readings -/

/-- A read of a component returns this timestamp or a newer one. -/
def State.ReadsSince (s : State) (namespaceId : NamespaceId) (entity : EntityId) (component : ComponentId)
    (t : Timestamp) : Prop :=
  ∃ f, getFact s.live namespaceId entity component = some f ∧ t ≤ f.timestamp

/-- A group has been taken back: nothing is admitted any more, or the worker is about to see to it. -/
def State.Broken (s : State) : Prop := s.failed = true ∨ ∃ g e, s.worker = .finishing g (some e)

/-- The group that the worker has published and not settled. -/
def Worker.unsettled : Worker → Option Group
  | .looping g _ _ | .writing g _ _ | .settling g _ => some g
  | _ => none

/-- The failure that the worker has met. -/
def Worker.failure : Worker → Option Err
  | .looping _ _ failure | .settling _ failure | .finishing _ failure => failure
  | _ => none

/-- The undo records that a failure would bring back now. -/
def State.undoing (s : State) : List FactUndo := (s.worker.unsettled.map Group.undo).getD []

/-- A mutation of a strict call that has returned success, or is about to. -/
def State.Told (s : State) (m : FactMutation) : Prop :=
  (∃ r ∈ s.history.succeeded, m ∈ r.mutations) ∨ (∃ r ∈ s.removing, m ∈ r.mutations) ∨
    ∃ r, (r, none) ∈ s.finished ∧ m ∈ r.mutations

section Readings

variable {self : Live} {k : Bytes} {t : Timestamp}

theorem holdsSince_putAll (h : HoldsSince Fact.timestamp self.facts k t) (kms : List (UInt8 × FactMutation)) :
    HoldsSince Fact.timestamp (self.putAll kms).facts k t := by
  rw [Live.putAll_facts]
  exact h.recordAll (writesOf kms)

theorem holdsSince_of_mem_putAll {kms : List (UInt8 × FactMutation)} {km : UInt8 × FactMutation} (hkm : km ∈ kms)
    (self : Live) : HoldsSince Fact.timestamp (self.putAll kms).facts km.2.key km.2.timestamp := by
  obtain ⟨pre, post, rfl⟩ := List.append_of_mem hkm
  rw [Live.putAll_append, Live.putAll_cons]
  refine holdsSince_putAll ?_ post
  rw [Live.put_facts]
  exact holdsSince_write_self _ _ km.2.fact

/-- Settling a group whose records spare a key leaves the key new enough. -/
theorem holdsSince_settleGroup {undo : List FactUndo} {pendingStart : ℕ} {nextIdStart : ℤ} {failure : Option Err}
    (h : HoldsSince Fact.timestamp self.facts k t) (hundo : ∀ u ∈ undo, u.Spares Fact.timestamp k t) :
    HoldsSince Fact.timestamp
      (settleGroup ⟨self, undo, failure⟩ pendingStart nextIdStart failure).facts k t := by
  unfold settleGroup
  split_ifs
  · exact h.rollback hundo
  · exact h

end Readings

/-! ## What a step does to the facts -/

section Steps

variable {s s' : State} {fault : Option (ℕ × AllocPoint)} {ms : List FactMutation}

/-- A request has joined the queue, and of the facts only newer ones have changed. -/
def State.AdmitsTo (s s' : State) : Prop :=
  ∃ request live published, s' = { s.push request with
      live := live, history := { s.history with published := published } } ∧
    (∃ kms, live.facts = (s.live.putAll kms).facts) ∧ (request.callerWaits → request.applyAfterWrite)

theorem push_admitsTo (s : State) {request : Request} (hwaits : request.callerWaits → request.applyAfterWrite) :
    s.AdmitsTo (s.push request) :=
  ⟨request, s.live, s.history.published, rfl, ⟨[], rfl⟩, hwaits⟩

theorem publishNow_admitsTo {r : Request} {undone flushed : Live → Live}
    (hundone : ∀ p accepted, publishMutations fault r.recordKind ⟨s.live, [], none⟩ r.mutations = (p, accepted) →
      undone (rollbackFacts p.live p.undo).1 = s.live)
    (hflushed : ∀ live, (flushed live).facts = live.facts) (hwaits : r.callerWaits → r.applyAfterWrite) :
    s.publishNow fault r undone flushed = s ∨ s.AdmitsTo (s.publishNow fault r undone flushed) := by
  rcases publishNow_exact fault s r undone flushed hundone with hs | ⟨accepted, hs⟩
  · exact Or.inl hs
  · rw [hs]
    exact Or.inr ⟨{ r with accepted := accepted }, _, _, rfl, ⟨_, hflushed _⟩, hwaits⟩

theorem enqueueBatch_admitsTo {durability : Durability} (h : enqueueBatch s ms durability fault = some s') :
    s' = s ∨ s.AdmitsTo s' := by
  unfold enqueueBatch at h
  by_cases hms : ms = []
  · rw [if_pos hms] at h
    exact Or.inl (Option.some.inj h).symm
  rw [if_neg hms] at h
  rcases admission_cases h with rfl | ⟨-, rfl⟩
  · exact Or.inl rfl
  cases durability with
  | strict => exact Or.inr (push_admitsTo s fun _ => rfl)
  | eventual =>
    exact publishNow_admitsTo (fun p accepted hp => rollback_batch fault s.live ms hp) (fun _ => rfl)
      fun hwaits => absurd hwaits (by simp [newRequest])

theorem flushCascade_admitsTo {durability : Durability} {ackId : Int64}
    (h : flushCascade s ms ackId durability fault = some s') : s' = s ∨ s.AdmitsTo s' := by
  unfold flushCascade at h
  rcases admission_cases h with rfl | ⟨-, rfl⟩
  · exact Or.inl rfl
  cases durability with
  | strict => exact Or.inr (push_admitsTo s fun _ => rfl)
  | eventual =>
    exact publishNow_admitsTo (fun p accepted hp => rollback_cascade fault s.live ms hp) (fun _ => rfl)
      fun hwaits => absurd hwaits (by simp [newRequest])

/-- The worker publishes its group whole, or gives the facts back at once. -/
theorem publishGroup_facts (fault : Option (ℕ × AllocPoint)) (self : Live) (batch : List Request) :
    ∃ kms, (publishGroup fault self batch).1.live.facts = (self.putAll kms).facts := by
  have hfst : (publishRequests fault ⟨self, [], none⟩ batch).1 = _ := publishRequests_fst _ batch
  obtain ⟨hexact, -⟩ := rollback_publishAll self (strictMutations batch) fault
  unfold publishGroup
  cases hp : publishRequests fault ⟨self, [], none⟩ batch with
  | mk p batch' =>
    rw [hp] at hfst
    rw [← hfst] at hexact
    cases hfailure : p.failure with
    | some e =>
      simp only [hfailure]
      exact ⟨[], hexact⟩
    | none =>
      simp only [hfailure]
      refine ⟨strictMutations batch, congrArg Live.facts ?_⟩
      have hlive : (publishAll fault ⟨self, [], none⟩ (strictMutations batch)).failure = none := hfst ▸ hfailure
      exact (congrArg Publication.live hfst).trans (publishAll_live hlive)

theorem takeQueue_facts (h : takeQueue s fault = some s') :
    s.worker = .idle ∧ s'.failed = s.failed ∧ ∃ kms, s'.live.facts = (s.live.putAll kms).facts := by
  unfold takeQueue at h
  cases hw : s.worker with
  | idle =>
    rw [hw] at h
    by_cases hq : s.requests = []
    · simp only [if_pos hq] at h
      cases h
    · simp only [if_neg hq] at h
      obtain rfl := Option.some.inj h
      exact ⟨rfl, rfl, publishGroup_facts fault s.live s.requests⟩
  | looping g n f => rw [hw] at h; cases h
  | writing g n t => rw [hw] at h; cases h
  | settling g f => rw [hw] at h; cases h
  | finishing g f => rw [hw] at h; cases h

/-- A step that neither takes a group nor settles nor finishes one. -/
structure Routine (s s' : State) : Prop where
  unsettled : s'.worker.unsettled = s.worker.unsettled
  group : s'.group = s.group
  failure : s'.worker.failure = none → s.worker.failure = none
  finishing : ∀ g e, s.worker = .finishing g (some e) → s'.worker = .finishing g (some e)
  failed : s'.failed = s.failed
  facts : ∃ kms, s'.live.facts = (s.live.putAll kms).facts
  told : ∀ m, s'.Told m → s.Told m
  queued : ∀ r ∈ s'.requests, r ∈ s.requests ∨ (r.callerWaits → r.applyAfterWrite)

theorem Routine.refl (s : State) : Routine s s :=
  ⟨rfl, rfl, id, fun _ _ h => h, rfl, ⟨[], rfl⟩, fun _ h => h, fun _ h => Or.inl h⟩

/-- A caller's step leaves the worker and the facts alone. -/
theorem Routine.of_caller (hworker : s'.worker = s.worker) (hfailed : s'.failed = s.failed)
    (hfacts : s'.live.facts = s.live.facts) (hrequests : s'.requests = s.requests)
    (htold : ∀ m, s'.Told m → s.Told m) : Routine s s' where
  unsettled := by rw [hworker]
  group := by unfold State.group; rw [hworker]
  failure := by rw [hworker]; exact id
  finishing := by rw [hworker]; exact fun _ _ h => h
  failed := hfailed
  facts := ⟨[], hfacts⟩
  told := htold
  queued := fun r hr => Or.inl (hrequests ▸ hr)

theorem State.AdmitsTo.routine (h : s.AdmitsTo s') : Routine s s' := by
  obtain ⟨request, live, published, rfl, hfacts, hwaits⟩ := h
  refine ⟨rfl, rfl, id, fun _ _ h => h, rfl, hfacts, fun _ h => h, fun r hr => ?_⟩
  rcases List.mem_append.mp hr with hr | hr
  · exact Or.inl hr
  · exact Or.inr (List.mem_singleton.mp hr ▸ hwaits)

/-- A step of the worker inside its loop of attempts. -/
theorem Routine.of_attempt {w : Worker} {file : Bytes} {history : History}
    (hunsettled : w.unsettled = s.worker.unsettled) (hsome : s.worker.unsettled ≠ none)
    (hgroup : ({ s with worker := w } : State).group = s.group)
    (hfailure : w.failure = none → s.worker.failure = none)
    (hsucceeded : history.succeeded = s.history.succeeded) :
    Routine s { s with worker := w, file := file, history := history } where
  unsettled := hunsettled
  group := hgroup
  failure := hfailure
  finishing := fun g e h => absurd (by rw [h]; rfl) hsome
  failed := rfl
  facts := ⟨[], rfl⟩
  told := fun m hm => by
    unfold State.Told at hm ⊢
    rwa [hsucceeded] at hm
  queued := fun r hr => Or.inl hr

theorem record_mutations (r : Request) : r.record.mutations = r.mutations := by
  unfold Request.record
  split_ifs <;> rfl

theorem ack_routine {id : Int64} {outcome : WriteOutcome} {synced : Bool} (h : ack s id outcome synced = some s') :
    Routine s s' := by
  obtain ⟨-, -, rfl⟩ := ack_cases h
  by_cases hdone : outcome = .done ∧ synced
  · rw [if_pos hdone]
    refine .of_caller rfl rfl rfl rfl fun m hm => ?_
    -- an acknowledgement writes nothing
    rcases hm with ⟨r, hr, hm⟩ | hm
    · rcases List.mem_append.mp hr with hr | hr
      · exact Or.inl ⟨r, hr, hm⟩
      · exact absurd (List.mem_singleton.mp hr ▸ hm) List.not_mem_nil
    · exact Or.inr hm
  · rw [if_neg hdone]
    exact .of_caller rfl rfl rfl rfl fun m hm => hm

/-- A caller that wakes up carries its request on, or has been told. -/
theorem wake_routine {i : ℕ} (h : wake s i = some s') : Routine s s' := by
  obtain ⟨request, err, l₁, l₂, hl, hcase⟩ := wake_cases h
  have hrest : ∀ r, (r, none) ∈ l₁ ++ l₂ → (r, none) ∈ s.finished := fun r hr => by
    rw [hl]
    exact (List.sublist_append_right [(request, err)] l₂).append_left l₁ |>.subset hr
  have hrequest : err = none → (request, none) ∈ s.finished := fun hnone => by
    rw [hl, hnone]
    simp
  rcases hcase with ⟨-, rfl⟩ | ⟨hnone, -, rfl⟩ | ⟨hnone, -, rfl⟩
  · refine .of_caller rfl rfl rfl rfl fun m hm => ?_
    rcases hm with hm | hm | ⟨r, hr, hm⟩
    · exact Or.inl hm
    · exact Or.inr (Or.inl hm)
    · exact Or.inr (Or.inr ⟨r, hrest r hr, hm⟩)
  · refine .of_caller rfl rfl rfl rfl fun m hm => ?_
    rcases hm with hm | ⟨r, hr, hm⟩ | ⟨r, hr, hm⟩
    · exact Or.inl hm
    · rcases List.mem_append.mp hr with hr | hr
      · exact Or.inr (Or.inl ⟨r, hr, hm⟩)
      · exact Or.inr (Or.inr ⟨request, hrequest hnone, List.mem_singleton.mp hr ▸ hm⟩)
    · exact Or.inr (Or.inr ⟨r, hrest r hr, hm⟩)
  · refine .of_caller rfl rfl rfl rfl fun m hm => ?_
    rcases hm with ⟨r, hr, hm⟩ | hm | ⟨r, hr, hm⟩
    · rcases List.mem_append.mp hr with hr | hr
      · exact Or.inl ⟨r, hr, hm⟩
      · rw [List.mem_singleton.mp hr, record_mutations] at hm
        exact Or.inr (Or.inr ⟨request, hrequest hnone, hm⟩)
    · exact Or.inr (Or.inl hm)
    · exact Or.inr (Or.inr ⟨r, hrest r hr, hm⟩)

theorem finishFlush_routine {i : ℕ} (h : finishFlush s i = some s') : Routine s s' := by
  obtain ⟨request, l₁, l₂, hl, rfl⟩ := finishFlush_cases h
  refine .of_caller rfl rfl rfl rfl fun m hm => ?_
  rcases hm with ⟨r, hr, hm⟩ | ⟨r, hr, hm⟩ | hm
  · rcases List.mem_append.mp hr with hr | hr
    · exact Or.inl ⟨r, hr, hm⟩
    · rw [List.mem_singleton.mp hr, record_mutations] at hm
      exact Or.inr (Or.inl ⟨request, by rw [hl]; simp, hm⟩)
  · refine Or.inr (Or.inl ⟨r, ?_, hm⟩)
    rw [hl]
    exact (List.sublist_append_right [request] l₂).append_left l₁ |>.subset hr
  · exact Or.inr (Or.inr hm)

/-! ### The attempts of the worker -/

theorem loopHead_routine (h : loopHead s = some s') : Routine s s' := by
  obtain ⟨g, attempt, failure, hw, ⟨hnone, -, rfl⟩ | ⟨-, rfl⟩⟩ := loopHead_cases h
  · exact .of_attempt (by rw [hw]; rfl) (by rw [hw]; simp [Worker.unsettled])
      (by simp [State.group, hw]) (fun _ => by rw [hw]; exact hnone) rfl
  · exact .of_attempt (by rw [hw]; rfl) (by rw [hw]; simp [Worker.unsettled])
      (by simp [State.group, hw]) (fun hnone => by rw [hw]; exact hnone) rfl

theorem writeNext_routine {outcome : WriteOutcome} (h : writeNext s outcome = some s') : Routine s s' := by
  obtain ⟨g, attempt, r, todo, hw, hcase⟩ := writeNext_cases h
  have hnone : s.worker.failure = none := by rw [hw]; rfl
  rcases hcase with ⟨e, -, rfl⟩ | ⟨-, -, rfl⟩ | ⟨-, n, -, rfl⟩ <;>
    exact .of_attempt (by rw [hw]; rfl) (by rw [hw]; simp [Worker.unsettled])
      (by simp [State.group, hw]) (fun _ => hnone) rfl

theorem syncFile_routine {ok : Bool} (h : syncFile s ok = some s') : Routine s s' := by
  obtain ⟨g, attempt, hw, hcase⟩ := syncFile_cases h
  have hnone : s.worker.failure = none := by rw [hw]; rfl
  rcases hcase with ⟨-, rfl⟩ | ⟨-, rfl⟩ <;>
    exact .of_attempt (by rw [hw]; rfl) (by rw [hw]; simp [Worker.unsettled])
      (by simp [State.group, hw]) (fun _ => hnone) rfl

/-- **Every step is a routine one, or takes, settles or finishes a group.** -/
theorem step_routine {l : Label} (h : wal.step s l = some s') : Routine s s' ∨
    (∃ fault, l = .takeQueue fault ∧ takeQueue s fault = some s') ∨ settle s = some s' ∨ finish s = some s' := by
  cases l with
  | enqueueBatch ms durability fault =>
    rcases enqueueBatch_admitsTo h with rfl | h
    · exact Or.inl (Routine.refl s')
    · exact Or.inl h.routine
  | flushCascade ms ackId durability fault =>
    rcases flushCascade_admitsTo h with rfl | h
    · exact Or.inl (Routine.refl s')
    · exact Or.inl h.routine
  | ack id outcome synced => exact Or.inl (ack_routine h)
  | nextPendingFor namespaceId =>
    obtain rfl := Option.some.inj h
    rcases takePending_cases s namespaceId with hs | ⟨item, -, hs⟩ <;> rw [hs]
    · exact Or.inl (Routine.refl s)
    · exact Or.inl (.of_caller rfl rfl rfl rfl fun m hm => hm)
  | wake i => exact Or.inl (wake_routine h)
  | finishFlush i => exact Or.inl (finishFlush_routine h)
  | takeQueue fault => exact Or.inr (Or.inl ⟨fault, rfl, h⟩)
  | loopHead => exact Or.inl (loopHead_routine h)
  | writeNext outcome => exact Or.inl (writeNext_routine h)
  | syncFile ok => exact Or.inl (syncFile_routine h)
  | settle => exact Or.inr (Or.inr (Or.inl h))
  | finish => exact Or.inr (Or.inr (Or.inr h))

end Steps

/-! ## Reads that only go forward -/

section Forward

variable {s s' s₁ : State} {ms : List FactMutation} {fault : Option AdmissionFault}

/-- A worker that is not about to refuse requests leaves the flag alone. -/
theorem State.Broken.failed (h : s.Broken) (hw : ∀ g e, s.worker ≠ .finishing g (some e)) : s.failed = true :=
  h.resolve_right fun ⟨g, e, hfinishing⟩ => hw g e hfinishing

/-- The log stays broken. -/
theorem State.Broken.step {l : Label} (hb : s.Broken) (h : wal.step s l = some s') : s'.Broken := by
  rcases step_routine h with hr | ⟨fault, -, h⟩ | h | h
  · rcases hb with hfailed | ⟨g, e, hw⟩
    · exact Or.inl (hr.failed.trans hfailed)
    · exact Or.inr ⟨g, e, hr.finishing g e hw⟩
  · obtain ⟨hw, hfailed, -⟩ := takeQueue_facts h
    exact Or.inl (hfailed.trans (hb.failed (by simp [hw])))
  · obtain ⟨g, failure, hw, rfl⟩ := settle_cases h
    exact Or.inl (hb.failed (by simp [hw]))
  · obtain ⟨g, failure, hw, ⟨hnone, rfl⟩ | ⟨e, -, rfl⟩⟩ := finish_cases h
    · exact Or.inl (hb.failed (by simp [hw, hnone]))
    · exact Or.inl rfl

/-- One step changes facts to newer ones, or breaks the log. -/
theorem step_facts {l : Label} (h : wal.step s l = some s') :
    s'.Broken ∨ ∃ kms, s'.live.facts = (s.live.putAll kms).facts := by
  rcases step_routine h with hr | ⟨fault, -, h⟩ | h | h
  · exact Or.inr hr.facts
  · exact Or.inr (takeQueue_facts h).2.2
  · obtain ⟨g, failure, -, rfl⟩ := settle_cases h
    cases failure with
    | none => exact Or.inr ⟨[], rfl⟩
    | some e => exact Or.inl (Or.inr ⟨g, e, rfl⟩)
  · obtain ⟨g, failure, -, ⟨-, rfl⟩ | ⟨e, -, rfl⟩⟩ := finish_cases h
    · exact Or.inr ⟨[], rfl⟩
    · exact Or.inl (Or.inl rfl)

/-- Over any run, whatever fails in it, keys keep or renew their values until the log breaks. -/
theorem holdsSince_reaches (h : wal.Reaches (fun _ _ => True) s s') : s'.Broken ∨
    ∀ k t, HoldsSince Fact.timestamp s.live.facts k t → HoldsSince Fact.timestamp s'.live.facts k t := by
  induction h with
  | refl => exact Or.inr fun _ _ hheld => hheld
  | step _ _ hs ih =>
    rcases ih with hbroken | hheld
    · exact Or.inl (hbroken.step hs)
    · rcases step_facts hs with hbroken | ⟨kms, hfacts⟩
      · exact Or.inl hbroken
      · right
        intro k t hk
        rw [hfacts]
        exact holdsSince_putAll (hheld k t hk) kms

/-- An eventual batch that succeeds has been published under the mutex, with the flags that it returns. -/
theorem enqueueBatchEventual_ok {accepted flags : List Bool}
    (h : enqueueBatchEventual s ms accepted fault = some (.ok flags, s₁)) : ms = [] ∨ ∃ p,
      publishMutations (fault.bind (·.inLoop)) recordBatch ⟨s.live, [], none⟩ ms = (p, flags) ∧
      p.failure = none ∧ s₁.live = p.live ∧ s₁.worker = s.worker := by
  unfold enqueueBatchEventual at h
  by_cases hlen : accepted.length ≠ ms.length
  · rw [if_pos hlen] at h
    cases h
  rw [if_neg hlen] at h
  by_cases hnil : ms = []
  · exact Or.inl hnil
  simp only [if_neg hnil] at h
  by_cases hfailed : s.failed
  · rw [if_pos hfailed] at h
    cases h
  by_cases hroom : s.requests.length < maxQueuedRequests
  swap
  · rw [if_neg hfailed, if_pos hroom] at h
    cases h
  by_cases hslot : fault = some .queueSlot
  · rw [if_neg hfailed, if_neg (not_not.mpr hroom), if_pos hslot] at h
    cases h
  rw [if_neg hfailed, if_neg (not_not.mpr hroom), if_neg hslot] at h
  cases hp : publishMutations (fault.bind (·.inLoop)) recordBatch ⟨s.live, [], none⟩
      (newRequest s recordBatch ms 0 .eventual).mutations with
  | mk p flags' =>
    simp only [hp] at h
    cases hfailure : p.failure with
    | some e =>
      simp only [hfailure] at h
      cases h
    | none =>
      simp only [hfailure] at h
      cases h
      exact Or.inr ⟨p, hp, hfailure, rfl, rfl⟩

theorem flushCascadeEventual_ok {ackId : Int64}
    (h : flushCascadeEventual s ms ackId fault = some (.ok (), s₁)) : ∃ p flags,
      publishMutations (fault.bind (·.inLoop)) recordCascade ⟨s.live, [], none⟩ ms = (p, flags) ∧
      p.failure = none ∧ s₁.live.facts = p.live.facts := by
  unfold flushCascadeEventual at h
  by_cases hfailed : s.failed
  · simp only [if_pos hfailed] at h
    cases h
  by_cases hroom : s.requests.length < maxQueuedRequests
  swap
  · simp only [if_neg hfailed, if_pos hroom] at h
    cases h
  by_cases hslot : fault = some .queueSlot
  · simp only [if_neg hfailed, hroom, not_true_eq_false, if_false, if_pos hslot] at h
    cases h
  simp only [if_neg hfailed, hroom, not_true_eq_false, if_false, if_neg hslot] at h
  cases hp : publishMutations (fault.bind (·.inLoop)) recordCascade ⟨s.live, [], none⟩ ms with
  | mk p flags =>
    have hlive : (s.push (newRequest s recordCascade ms ackId .eventual)).live = s.live := rfl
    simp only [hlive, hp] at h
    cases hfailure : p.failure with
    | some e =>
      simp only [hfailure] at h
      cases h
    | none =>
      simp only [hfailure] at h
      cases h
      exact ⟨p, flags, rfl, hfailure, rfl⟩

/-- A publication without a failure puts its mutations. -/
theorem publishMutations_live {fault : Option (ℕ × AllocPoint)} {kind : UInt8} {self : Live} {p : Publication}
    {accepted : List Bool} (hp : publishMutations fault kind ⟨self, [], none⟩ ms = (p, accepted))
    (hnone : p.failure = none) : p.live = self.putAll (ms.map (kind, ·)) := by
  have hfst : p = publishAll fault ⟨self, [], none⟩ (ms.map (kind, ·)) := by
    rw [← publishMutations_fst, hp]
  rw [hfst] at hnone ⊢
  exact publishAll_live hnone

theorem enqueueBatchEventual_held {accepted flags : List Bool}
    (h : enqueueBatchEventual s ms accepted fault = some (.ok flags, s₁)) :
    ∀ m ∈ ms, HoldsSince Fact.timestamp s₁.live.facts m.key m.timestamp := by
  intro m hm
  rcases enqueueBatchEventual_ok h with rfl | ⟨p, hp, hnone, hlive, -⟩
  · exact absurd hm List.not_mem_nil
  · rw [hlive, publishMutations_live hp hnone]
    exact holdsSince_of_mem_putAll (List.mem_map_of_mem hm) s.live

theorem flushCascadeEventual_held {ackId : Int64}
    (h : flushCascadeEventual s ms ackId fault = some (.ok (), s₁)) :
    ∀ m ∈ ms, HoldsSince Fact.timestamp s₁.live.facts m.key m.timestamp := by
  obtain ⟨p, flags, hp, hnone, hfacts⟩ := flushCascadeEventual_ok h
  intro m hm
  rw [hfacts, publishMutations_live hp hnone]
  exact holdsSince_of_mem_putAll (List.mem_map_of_mem hm) s.live

end Forward

/-- **Session guarantees.**  Whatever calls are made after `s₁`, in whatever order they step, and whatever
allocations, writes and syncs fail: until a group is taken back, a component that was read in `s₁` is read
with the same timestamp or a newer one, and so is a component that the eventual call returning in `s₁` wrote. -/
theorem session_guarantees {s₁ s₂ : State} (h : wal.Reaches (fun _ _ => True) s₁ s₂) : s₂.Broken ∨
    (∀ namespaceId entity component f, getFact s₁.live namespaceId entity component = some f →
      s₂.ReadsSince namespaceId entity component f.timestamp) ∧
    (∀ s ms accepted fault flags, enqueueBatchEventual s ms accepted fault = some (.ok flags, s₁) →
      ∀ m ∈ ms, s₂.ReadsSince m.namespaceId m.entity m.component m.timestamp) ∧
    (∀ s ms ackId fault, flushCascadeEventual s ms ackId fault = some (.ok (), s₁) →
      ∀ m ∈ ms, s₂.ReadsSince m.namespaceId m.entity m.component m.timestamp) := by
  rcases holdsSince_reaches h with hbroken | hheld
  · exact Or.inl hbroken
  · refine Or.inr ⟨?_, ?_, ?_⟩
    · exact fun namespaceId entity component f hf => hheld _ _ ⟨f, hf, le_rfl⟩
    · exact fun s ms accepted fault flags hcall m hm => hheld _ _ (enqueueBatchEventual_held hcall m hm)
    · exact fun s ms ackId fault hcall m hm => hheld _ _ (flushCascadeEventual_held hcall m hm)

/-- Newer than `firstBatch`, for the same component. -/
def newerBatch : List FactMutation := [⟨[110], 1, 2, [51], ⟨7, 0, 1⟩, ⟨0, 0, []⟩⟩]

/-- An eventual batch is published over a committed one; then a strict batch commits while another eventual one
finds no memory. -/
theorem session_guarantees_mixed : ∃ s₁ s₂ : State,
    getFact s₁.live [110] 1 2 = some ⟨[51], ⟨7, 0, 1⟩, ⟨0, 0, []⟩⟩ ∧ s₂.Drained ∧ s₂.failed = false ∧
    s₂.ReadsSince [110] 1 2 ⟨7, 0, 1⟩ := by
  have hsome : ((wal.runAllowed (fun _ _ => True) (State.opened []) (.enqueueBatch firstBatch .strict none ::
      commitGroup ++ [.enqueueBatch newerBatch .eventual none])).bind fun s₁ =>
        (wal.runAllowed (fun _ _ => True) s₁ [.enqueueBatch secondBatch .strict none, .takeQueue none,
          .enqueueBatch firstBatch .eventual (some (0, .makeKey)), .loopHead, .writeNext .done, .writeNext .done,
          .syncFile true, .settle, .finish, .wake 0]).map fun s₂ =>
            (getFact s₁.live [110] 1 2, decide s₂.Drained, s₂.failed)) =
      some (some ⟨[51], ⟨7, 0, 1⟩, ⟨0, 0, []⟩⟩, true, false) := by decide +kernel
  obtain ⟨s₁, hs₁, hrest⟩ := Option.bind_eq_some_iff.mp hsome
  obtain ⟨s₂, hs₂, hend⟩ := Option.map_eq_some_iff.mp hrest
  simp only [Prod.mk.injEq, decide_eq_true_eq] at hend
  obtain ⟨hread, hdrained, hfailed⟩ := hend
  refine ⟨s₁, s₂, hread, hdrained, hfailed, ?_⟩
  rcases session_guarantees (Machine.reaches_of_runAllowed hs₂) with hbroken | ⟨hreads, -⟩
  · rcases hbroken with hbroken | ⟨g, e, hw⟩
    · rw [hfailed] at hbroken
      cases hbroken
    · rw [hdrained.2] at hw
      cases hw
  · exact hreads [110] 1 2 _ hread

/-! ## Promises that a failing group keeps -/

/-- A component is read with this timestamp or a newer one, also if the group of the worker fails. -/
structure State.Safe (s : State) (k : Bytes) (t : Timestamp) : Prop where
  held : HoldsSince Fact.timestamp s.live.facts k t
  spared : ∀ u ∈ s.undoing, u.Spares Fact.timestamp k t

/-- The worker finds the memory to publish its groups; anything else may fail. -/
def PublicationFits (_ : State) : Label → Prop
  | .takeQueue fault => fault = none
  | _ => True

instance (s : State) : DecidablePred (PublicationFits s)
  | .takeQueue fault => inferInstanceAs (Decidable (fault = none))
  | .enqueueBatch .. | .flushCascade .. | .ack .. | .nextPendingFor _ | .wake _ | .finishFlush _ | .loopHead
  | .writeNext _ | .syncFile _ | .settle | .finish => isTrue trivial

section Promises

variable {s s' s₁ : State} {k : Bytes} {t : Timestamp} {ms : List FactMutation} {fault : Option AdmissionFault}

theorem undoing_of_unsettled {g : Group} (h : s.worker.unsettled = some g) : s.undoing = g.undo := by
  unfold State.undoing
  rw [h]
  rfl

theorem Routine.undoing (h : Routine s s') : s'.undoing = s.undoing := by
  unfold State.undoing
  rw [h.unsettled]

theorem Routine.held (h : Routine s s') (hk : HoldsSince Fact.timestamp s.live.facts k t) :
    HoldsSince Fact.timestamp s'.live.facts k t := by
  obtain ⟨kms, hfacts⟩ := h.facts
  rw [hfacts]
  exact holdsSince_putAll hk kms

/-- **Safe stays safe**: a group is taken back no further than to what it found, and it found the promise kept. -/
theorem State.Safe.step {l : Label} (hsafe : s.Safe k t) (hP : PublicationFits s l) (h : wal.step s l = some s') :
    s'.Safe k t := by
  rcases step_routine h with hr | ⟨fault, rfl, h⟩ | h | h
  · exact ⟨hr.held hsafe.held, fun u hu => hsafe.spared u (hr.undoing ▸ hu)⟩
  · obtain rfl : fault = none := hP
    obtain ⟨-, -, rfl⟩ := takeQueue_none h
    exact ⟨holdsSince_putAll hsafe.held _, hsafe.held.spared _⟩
  · obtain ⟨g, failure, hw, rfl⟩ := settle_cases h
    have hundo : s.undoing = g.undo := undoing_of_unsettled (by rw [hw]; rfl)
    exact ⟨holdsSince_settleGroup hsafe.held (hundo ▸ hsafe.spared), fun u hu => absurd hu List.not_mem_nil⟩
  · obtain ⟨g, failure, hw, ⟨-, rfl⟩ | ⟨e, -, rfl⟩⟩ := finish_cases h <;>
      exact ⟨hsafe.held, fun u hu => absurd hu List.not_mem_nil⟩

theorem State.Safe.reaches (hsafe : s.Safe k t) (h : wal.Reaches PublicationFits s s') : s'.Safe k t :=
  h.invariant (I := fun s => s.Safe k t) hsafe fun _ _ _ hk hP hs => hk.step hP hs

/-- What holds of the facts while groups come and go. -/
structure Kept (s : State) : Prop where
  /-- what the group of the worker wrote is there, or newer facts are -/
  undoing : ∀ u ∈ s.undoing, HoldsSince Fact.timestamp s.live.facts u.key u.stamp
  group : s.worker.failure = none → ∀ r ∈ s.group, r.callerWaits →
    ∀ m ∈ r.mutations, HoldsSince Fact.timestamp s.live.facts m.key m.timestamp
  queued : ∀ r ∈ s.requests, r.callerWaits → r.applyAfterWrite
  told : ∀ m, s.Told m → s.Safe m.key m.timestamp

namespace Kept

theorem opened {base : List Record} : Kept (State.opened base) where
  undoing := fun u hu => absurd hu List.not_mem_nil
  group := fun _ r hr => absurd hr List.not_mem_nil
  queued := fun r hr => absurd hr List.not_mem_nil
  told := fun m hm => by
    rcases hm with ⟨r, hr, -⟩ | ⟨r, hr, -⟩ | ⟨r, hr, -⟩ <;> exact absurd hr List.not_mem_nil

theorem routine (h : Kept s) (hr : Routine s s') : Kept s' where
  undoing := fun u hu => hr.held (h.undoing u (hr.undoing ▸ hu))
  group := fun hnone r hmem hwaits m hm => hr.held (h.group (hr.failure hnone) r (hr.group ▸ hmem) hwaits m hm)
  queued := fun r hmem hwaits => (hr.queued r hmem).elim (fun hmem => h.queued r hmem hwaits) (· hwaits)
  told := fun m hm =>
    ⟨hr.held (h.told m (hr.told m hm)).held, fun u hu => (h.told m (hr.told m hm)).spared u (hr.undoing ▸ hu)⟩

/-- The group is published before its callers are told. -/
theorem takeQueue (h : Kept s) (hs : Wal.takeQueue s none = some s') : Kept s' := by
  have hstep : wal.step s (.takeQueue none) = some s' := hs
  have hfits : PublicationFits s (.takeQueue none) := rfl
  have hsafe : ∀ m, s.Told m → s'.Safe m.key m.timestamp := fun m hm => (h.told m hm).step hfits hstep
  obtain ⟨-, -, rfl⟩ := takeQueue_none hs
  refine ⟨?_, ?_, fun r hr => absurd hr List.not_mem_nil, hsafe⟩
  · intro u hu
    simp only [Live.putAll_facts]
    exact holdsSince_of_mem_recordAll s.live.facts _ u hu
  · intro _ r hr hwaits m hm
    obtain ⟨r₀, hr₀, accepted, rfl⟩ := publishRequests_mem hr
    have hmem : (r₀.recordKind, m) ∈ strictMutations s.requests := by
      refine List.mem_flatMap.mpr ⟨r₀, hr₀, ?_⟩
      rw [if_pos (h.queued r₀ hr₀ hwaits)]
      exact List.mem_map_of_mem hm
    exact holdsSince_of_mem_putAll hmem s.live

theorem settle (h : Kept s) (hs : Wal.settle s = some s') : Kept s' := by
  have hstep : wal.step s .settle = some s' := hs
  have hfits : PublicationFits s .settle := trivial
  have hsafe : ∀ m, s.Told m → s'.Safe m.key m.timestamp := fun m hm => (h.told m hm).step hfits hstep
  obtain ⟨g, failure, hw, rfl⟩ := settle_cases hs
  refine ⟨fun u hu => absurd hu List.not_mem_nil, ?_, h.queued, hsafe⟩
  intro hnone r hr hwaits m hm
  obtain rfl : failure = none := hnone
  exact h.group (by rw [hw]; rfl) r (by simpa [State.group, hw] using hr) hwaits m hm

theorem finish (h : Kept s) (hs : Wal.finish s = some s') : Kept s' := by
  obtain ⟨g, failure, hw, ⟨hnone, rfl⟩ | ⟨e, -, rfl⟩⟩ := finish_cases hs
  · refine ⟨fun u hu => absurd hu List.not_mem_nil, fun _ r hr => absurd hr List.not_mem_nil, h.queued, ?_⟩
    intro m hm
    refine ⟨?_, fun u hu => absurd hu List.not_mem_nil⟩
    rcases hm with hm | hm | ⟨r, hr, hm⟩
    · exact (h.told m (Or.inl hm)).held
    · exact (h.told m (Or.inr (Or.inl hm))).held
    · rcases List.mem_append.mp hr with hr | hr
      · exact (h.told m (Or.inr (Or.inr ⟨r, hr, hm⟩))).held
      · -- a request of the group: its mutations have been held since the group was taken
        obtain ⟨r', hr', heq⟩ := List.mem_map.mp hr
        obtain rfl : r' = r := congrArg Prod.fst heq
        obtain ⟨hbatch, hwaits⟩ := List.mem_filter.mp hr'
        exact h.group (by rw [hw]; exact hnone) r' (by simpa [State.group, hw] using hbatch) hwaits m hm
  · refine ⟨fun u hu => absurd hu List.not_mem_nil, fun _ r hr => absurd hr List.not_mem_nil,
      fun r hr => absurd hr List.not_mem_nil, ?_⟩
    intro m hm
    refine ⟨?_, fun u hu => absurd hu List.not_mem_nil⟩
    rcases hm with hm | hm | ⟨r, hr, hm⟩
    · exact (h.told m (Or.inl hm)).held
    · exact (h.told m (Or.inr (Or.inl hm))).held
    · simp only [List.append_assoc, List.mem_append, List.mem_map, Prod.mk.injEq, reduceCtorEq, and_false, exists_false,
        or_false] at hr
      exact (h.told m (Or.inr (Or.inr ⟨r, hr, hm⟩))).held

theorem step {l : Label} (h : Kept s) (hP : PublicationFits s l) (hs : wal.step s l = some s') : Kept s' := by
  rcases step_routine hs with hr | ⟨fault, rfl, hs⟩ | hs | hs
  · exact h.routine hr
  · obtain rfl : fault = none := hP
    exact h.takeQueue hs
  · exact h.settle hs
  · exact h.finish hs

theorem reaches {base : List Record} (h : wal.Reaches PublicationFits (State.opened base) s) : Kept s :=
  h.invariant opened fun _ _ _ hk hP hs => hk.step hP hs

end Kept

/-- One round that meets no failure puts its mutation and says whether it was accepted. -/
theorem publishMutation_accepted {fault : Option (ℕ × AllocPoint)} {live : Live} {undo : List FactUndo}
    {m : FactMutation} {p : Publication} {accepted : Bool}
    (h : publishMutation fault recordBatch ⟨live, undo, none⟩ m = (p, accepted)) (hnone : p.failure = none) :
    p.live = live.put recordBatch m ∧ accepted = live.accepts m := by
  have hkind : ¬ recordBatch = recordCascade := by decide
  have stopped : ∀ {q : Publication × Bool}, q.1.failure ≠ none → q = (p, accepted) →
      p.live = live.put recordBatch m ∧ accepted = live.accepts m := by
    rintro q hq rfl
    exact absurd hnone hq
  unfold publishMutation at h
  rw [if_neg (by simp)] at h
  simp only at h
  by_cases hmake : faultAt fault undo.length = some .makeKey
  · exact stopped (by simp) (if_pos hmake ▸ h)
  rw [if_neg hmake] at h
  split_ifs at h with hclone happend
  · exact stopped (by simp) h
  · exact stopped (by simp) h
  rcases applyMutation_fault (faultAt fault undo.length) live m with hr | hr
  · rw [hr] at h
    exact stopped (by simp) h
  · rw [hr] at h
    obtain ⟨rfl, rfl⟩ := Prod.mk.inj h
    exact ⟨by rw [Live.put, if_neg hkind], rfl⟩

/-- What a batch was told is accepted is newer than what its key held before the call. -/
theorem lt_of_accepted {fault : Option (ℕ × AllocPoint)} : ∀ {ms : List FactMutation} {live : Live}
    {undo : List FactUndo} {p : Publication} {flags : List Bool},
    publishMutations fault recordBatch ⟨live, undo, none⟩ ms = (p, flags) → p.failure = none →
    ∀ m, (m, true) ∈ ms.zip flags → ∀ c, live.facts.lookup m.key = some c → c.timestamp < m.timestamp
  | [], _, _, _, _, _, _, m, hm, _, _ => by simp at hm
  | m₀ :: ms, live, undo, p, flags, h, hnone, m, hm, c, hc => by
    rw [publishMutations] at h
    rcases hfirst : publishMutation fault recordBatch ⟨live, undo, none⟩ m₀ with ⟨⟨live₁, undo₁, failure₁⟩, accepted⟩
    rcases hrest : publishMutations fault recordBatch ⟨live₁, undo₁, failure₁⟩ ms with ⟨p₁, rest⟩
    simp only [hfirst, hrest] at h
    obtain ⟨rfl, rfl⟩ := Prod.mk.inj h
    cases failure₁ with
    | some e =>
      have hstopped : p₁ = ⟨live₁, undo₁, some e⟩ := by
        have hfst : (publishMutations fault recordBatch ⟨live₁, undo₁, some e⟩ ms).1 = _ := publishMutations_fst _ ms
        rw [hrest, publishAll_stopped] at hfst
        exact hfst
      rw [hstopped] at hnone
      cases hnone
    | none =>
      obtain ⟨hlive, haccepted⟩ := publishMutation_accepted hfirst rfl
      rcases List.mem_cons.mp hm with heq | hm
      · obtain ⟨rfl, hflag⟩ := Prod.mk.inj heq
        rw [← hflag] at haccepted
        have hacc : accepts Fact.timestamp live.facts m.key m.fact = true := haccepted.symm
        rwa [accepts_of_lookup hc, decide_eq_true_iff] at hacc
      · have hold : HoldsSince Fact.timestamp live.facts m.key c.timestamp := ⟨c, hc, le_rfl⟩
        obtain ⟨c₁, hc₁, hle⟩ : HoldsSince Fact.timestamp live₁.facts m.key c.timestamp := by
          rw [show live₁ = live.put recordBatch m₀ from hlive, Live.put_facts]
          exact hold.write
        exact hle.trans_lt (lt_of_accepted hrest hnone m hm c₁ hc₁)

/-- An accepted mutation of an eventual batch is newer than everything that a failing group can take back. -/
theorem safe_of_accepted {accepted flags : List Bool} (hkept : Kept s)
    (h : enqueueBatchEventual s ms accepted fault = some (.ok flags, s₁)) :
    ∀ m, (m, true) ∈ ms.zip flags → s₁.Safe m.key m.timestamp := by
  intro m hm
  refine ⟨enqueueBatchEventual_held h m (List.of_mem_zip hm).1, ?_⟩
  rcases enqueueBatchEventual_ok h with rfl | ⟨p, hp, hnone, -, hworker⟩
  · simp at hm
  have hundoing : s₁.undoing = s.undoing := by
    unfold State.undoing
    rw [hworker]
  intro u hu hkey hle
  obtain ⟨c, hc, hc'⟩ := hkept.undoing u (hundoing ▸ hu)
  rw [hkey] at hc
  exact absurd (hle.trans hc') (not_le.mpr (lt_of_accepted hp hnone m hm c hc))

end Promises

/-- **What was accepted stays readable.**  In every run in which the worker finds the memory to publish its groups,
with any other failure and any mix of durabilities: what a strict call that succeeded wrote, and what an eventual
batch was told is accepted, is read from then on, or something newer is, also after a group has failed. -/
theorem accepted_writes_stay_readable {base : List Record} {s₁ s₂ : State}
    (h₁ : wal.Reaches PublicationFits (State.opened base) s₁) (h₂ : wal.Reaches PublicationFits s₁ s₂) :
    (∀ r ∈ s₁.history.succeeded, ∀ m ∈ r.mutations,
      s₂.ReadsSince m.namespaceId m.entity m.component m.timestamp) ∧
    (∀ s ms accepted fault flags, wal.Reaches PublicationFits (State.opened base) s →
      enqueueBatchEventual s ms accepted fault = some (.ok flags, s₁) →
      ∀ m, (m, true) ∈ ms.zip flags → s₂.ReadsSince m.namespaceId m.entity m.component m.timestamp) := by
  constructor
  · intro r hr m hm
    exact (((Kept.reaches h₁).told m (Or.inl ⟨r, hr, hm⟩)).reaches h₂).held
  · intro s ms accepted fault flags h hcall m hm
    exact ((safe_of_accepted (Kept.reaches h) hcall m hm).reaches h₂).held

/-- The write of a strict batch stops after three bytes; meanwhile an eventual batch has been accepted over it. -/
theorem accepted_writes_stay_readable_failed : ∃ s s₁ s₂ : State,
    enqueueBatchEventual s newerBatch [false] none = some (.ok [true], s₁) ∧
    s₁.history.succeeded = [.batch firstBatch] ∧ s₂.failed = true ∧
    s₂.ReadsSince [110] 1 2 ⟨5, 0, 1⟩ ∧ s₂.ReadsSince [110] 1 2 ⟨7, 0, 1⟩ := by
  have hsome : ((wal.runAllowed PublicationFits (State.opened []) (.enqueueBatch firstBatch .strict none ::
      commitGroup ++ [.enqueueBatch [⟨[110], 1, 2, [50], ⟨6, 0, 1⟩, ⟨0, 0, []⟩⟩] .strict none,
        .takeQueue none])).bind fun s => (enqueueBatchEventual s newerBatch [false] none).bind fun p =>
          (wal.runAllowed PublicationFits p.2
            [.loopHead, .writeNext (.failed 3), .loopHead, .settle, .finish, .wake 0]).map fun s₂ =>
              (p.1, p.2.history.succeeded, s₂.failed)) =
      some (.ok [true], [.batch firstBatch], true) := by decide +kernel
  obtain ⟨s, hs, hrest⟩ := Option.bind_eq_some_iff.mp hsome
  obtain ⟨⟨r, s₁⟩, hcall, hrest⟩ := Option.bind_eq_some_iff.mp hrest
  obtain ⟨s₂, hs₂, hend⟩ := Option.map_eq_some_iff.mp hrest
  simp only [Prod.mk.injEq] at hend
  obtain ⟨rfl, hsucceeded, hfailed⟩ := hend
  have hreach := Machine.reaches_of_runAllowed hs
  have hstep : wal.step s (.enqueueBatch newerBatch .eventual none) = some s₁ := by
    rcases enqueueBatchEventual_cases hcall with ⟨⟨e, he⟩, -⟩ | ⟨-, hstep⟩
    · cases he
    · exact hstep
  have hfits : PublicationFits s (.enqueueBatch newerBatch .eventual none) := trivial
  obtain ⟨hstrict, heventual⟩ :=
    accepted_writes_stay_readable (.step hreach hfits hstep) (Machine.reaches_of_runAllowed hs₂)
  refine ⟨s, s₁, s₂, hcall, hsucceeded, hfailed, ?_, ?_⟩
  · exact hstrict (.batch firstBatch) (by rw [hsucceeded]; exact List.mem_singleton_self _) _
      (List.mem_singleton_self _)
  · exact heventual s newerBatch [false] none [true] hreach hcall _ (List.mem_singleton_self _)

end Slung.Wal
