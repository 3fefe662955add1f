import Slung.Lib.Machine
import Slung.Wal.Publish
import Slung.Wal.Recovery

/-!
# Slung.Wal.Machine — callers and the worker, one critical section at a time (`wal.zig`)

The log as a labelled machine.  A label is one critical section of a caller or of the worker, or one
attempt of the worker to write a record or to sync, together with the outcome that the machine cannot
know: which allocation fails, how many bytes of a write reach the file, whether a sync succeeds.  Any
interleaving of threads is a sequence of labels.

`History` is not in the source; it keeps what the statements about runs speak of.
-/

namespace Slung.Wal

open Slung.Lib

/-! ## State -/

inductive Durability where
  | eventual | strict
deriving DecidableEq, Repr

def maxQueuedRequests : ℕ := 4096

/-- A group that the worker took, with what it needs to take it back. -/
structure Group where
  batch : List Request
  undo : List FactUndo
  pendingStart : ℕ
  nextIdStart : ℤ

/-- Where the worker stands in its loop. -/
inductive Worker where
  | idle
  /-- at the condition of the loop of write attempts -/
  | looping (g : Group) (attempt : ℕ) (failure : Option Err)
  /-- inside an attempt, with the requests still to be written; it syncs when there are none -/
  | writing (g : Group) (attempt : ℕ) (todo : List Request)
  /-- before the critical section that settles the publication -/
  | settling (g : Group) (failure : Option Err)
  /-- before the critical section that marks the requests done -/
  | finishing (g : Group) (failure : Option Err)

/-- What an observer of the run has seen. -/
structure History where
  /-- the records whose bytes are whole in the file, in the order they were appended -/
  log : List Record
  /-- how many of them a successful sync covers -/
  synced : ℕ
  /-- the ids that `nextPendingFor` returned -/
  issued : List ℤ
  /-- the records of strict calls and acknowledgements that returned success -/
  succeeded : List Record
  /-- the accepted mutations in the order they were published, with the tickets of their requests -/
  published : List (ℕ × FactMutation)
  /-- the tickets of the requests in the order their records were appended -/
  logged : List ℕ

structure State where
  live : Live
  requests : List Request
  failed : Bool
  writing : Bool
  worker : Worker
  file : Bytes
  /-- strict requests that are done and whose callers have not looked yet -/
  finished : List (Request × Option Err)
  /-- cascades whose callers saw success and have still to take the acknowledged entry out -/
  removing : List Request
  tickets : ℕ
  history : History

/-- The state after opening a file that holds the log of `rs`. -/
def State.opened (rs : List Record) : State where
  live := Live.init.replayAll rs
  requests := []
  failed := false
  writing := false
  worker := .idle
  file := logOf rs
  finished := []
  removing := []
  tickets := 0
  history := ⟨rs, rs.length, [], [], [], []⟩

/-! ## Critical sections of the callers -/

/-- The accepted mutations of a request, in the order they are published. -/
def acceptedOf (ticket : ℕ) (kind : UInt8) : Live → List FactMutation → List (ℕ × FactMutation)
  | _, [] => []
  | self, m :: ms =>
    (if self.accepts m then [(ticket, m)] else []) ++ acceptedOf ticket kind (self.put kind m) ms

/-- Admission to the queue: refused after a failure, blocked while the queue is full. -/
def admission (s : State) (admitted : State) : Option State :=
  if s.failed then some s
  else if s.requests.length < maxQueuedRequests then some admitted
  else none

/-- The request that a call copies its arguments into. -/
def newRequest (s : State) (kind : UInt8) (mutations : List FactMutation) (ackId : Int64)
    (durability : Durability) : Request where
  ticket := s.tickets
  mutations := mutations
  accepted := if kind = recordCascade then [] else mutations.map fun _ => false
  recordKind := kind
  ackId := ackId
  callerWaits := durability = .strict
  applyAfterWrite := durability = .strict

/-- Put a request at the end of the queue. -/
def State.push (s : State) (request : Request) : State :=
  { s with requests := s.requests ++ [request], tickets := s.tickets + 1 }

/-- Publish an eventual request under the mutex; `undone` is the live state if an allocation fails, and
`flushed` what follows a publication. -/
def State.publishNow (s : State) (fault : Option (ℕ × AllocPoint)) (request : Request)
    (undone flushed : Live → Live) : State :=
  let (p, accepted) := publishMutations fault request.recordKind ⟨s.live, [], none⟩ request.mutations
  match p.failure with
  | some _ => { s with live := undone (rollbackFacts p.live p.undo).1 }
  | none =>
    let request := if request.recordKind = recordCascade then request
      else { request with accepted := accepted }
    let published := s.history.published ++
      acceptedOf request.ticket request.recordKind s.live request.mutations
    { s.push request with live := flushed p.live, history := { s.history with published := published } }

def enqueueBatch (s : State) (mutations : List FactMutation) (durability : Durability)
    (fault : Option (ℕ × AllocPoint)) : Option State :=
  if mutations = [] then some s
  else
    let request := newRequest s recordBatch mutations 0 durability
    admission s (match durability with
      | .strict => s.push request
      | .eventual => s.publishNow fault request
          (fun live => rollbackPending live s.live.pending.length s.live.nextId) id)

def flushCascade (s : State) (mutations : List FactMutation) (ackId : Int64) (durability : Durability)
    (fault : Option (ℕ × AllocPoint)) : Option State :=
  let request := newRequest s recordCascade mutations ackId durability
  admission s (match durability with
    | .strict => s.push request
    | .eventual => s.publishNow fault request id fun live => removePending live ackId.toInt)

/-- The outcome of one positional write of a record. -/
inductive WriteOutcome where
  | done
  /-- the write fails after this many bytes have reached the file -/
  | failed (bytes : ℕ)
deriving DecidableEq, Repr

/-- Append what reaches the file of a record. -/
def State.appendRecord (s : State) (r : Record) (bytes : Bytes) (outcome : WriteOutcome) : State :=
  let reached := match outcome with
    | .done => bytes
    | .failed k => bytes.take k
  { s with
    file := s.file ++ reached
    history := { s.history with
      log := if reached.length = bytes.length then s.history.log ++ [r] else s.history.log } }

/-- `ack` waits for the queue and the worker, then writes and syncs under the mutex. -/
def ack (s : State) (id : Int64) (outcome : WriteOutcome) (synced : Bool) : Option State :=
  if s.writing ∨ s.requests ≠ [] then none
  else match writeAck id with
    | .error _ => some s
    | .ok bytes =>
      let s := s.appendRecord (.ack id) bytes outcome
      if outcome = .done ∧ synced then
        some { s with
          live := removePending s.live id.toInt
          history := { s.history with
            synced := s.history.log.length
            succeeded := s.history.succeeded ++ [.ack id] } }
      else some s

/-- A reader takes the first pending entry of its namespace. -/
def takePending (s : State) (namespaceId : Option NamespaceId) : State :=
  match nextPendingFor s.live namespaceId with
  | some item => { s with history := { s.history with issued := s.history.issued ++ [item.id] } }
  | none => s

/-- A waiting caller finds its request done. -/
def wake (s : State) (i : ℕ) : Option State :=
  match s.finished[i]? with
  | none => none
  | some (request, err) =>
    let s := { s with finished := s.finished.eraseIdx i }
    match err with
    | some _ => some s
    | none =>
      if request.recordKind = recordCascade then some { s with removing := s.removing ++ [request] }
      else some { s with
        history := { s.history with succeeded := s.history.succeeded ++ [request.record] } }

/-- The last critical section of a strict `flushCascade`. -/
def finishFlush (s : State) (i : ℕ) : Option State :=
  match s.removing[i]? with
  | none => none
  | some request => some { s with
      removing := s.removing.eraseIdx i
      live := removePending s.live request.ackId.toInt
      history := { s.history with succeeded := s.history.succeeded ++ [request.record] } }

/-! ## The worker -/

/-- The accepted mutations of the strict requests of a group. -/
def acceptedOfGroup : Live → List Request → List (ℕ × FactMutation)
  | _, [] => []
  | self, r :: rs =>
    if r.applyAfterWrite then
      acceptedOf r.ticket r.recordKind self r.mutations ++
        acceptedOfGroup (self.putAll (r.mutations.map (r.recordKind, ·))) rs
    else acceptedOfGroup self rs

/-- Take the whole queue as one group and publish its strict requests. -/
def takeQueue (s : State) (fault : Option (ℕ × AllocPoint)) : Option State :=
  match s.worker with
  | .idle =>
    if s.requests = [] then none
    else
      let (p, batch) := publishGroup fault s.live s.requests
      let published := if p.failure.isSome then s.history.published
        else s.history.published ++ acceptedOfGroup s.live s.requests
      some { s with
        live := p.live
        requests := []
        writing := true
        worker := .looping ⟨batch, p.undo, s.live.pending.length, s.live.nextId⟩ 0 p.failure
        history := { s.history with published := published } }
  | _ => none

/-- The condition of the loop of write attempts. -/
def loopHead (s : State) : Option State :=
  match s.worker with
  | .looping g attempt failure =>
    if failure = none ∧ attempt < 3 then some { s with worker := .writing g attempt g.batch }
    else some { s with worker := .settling g failure }
  | _ => none

/-- Write the next record of the group; a failure ends the attempt. -/
def writeNext (s : State) (outcome : WriteOutcome) : Option State :=
  match s.worker with
  | .writing g attempt (r :: todo) =>
    match r.record.write with
    | .error e => some { s with worker := .looping g (attempt + 1) (some e) }
    | .ok bytes =>
      let s := s.appendRecord r.record bytes outcome
      match outcome with
      | .done => some { s with
          worker := .writing g attempt todo
          history := { s.history with logged := s.history.logged ++ [r.ticket] } }
      | .failed _ => some { s with worker := .looping g (attempt + 1) (some .io) }
  | _ => none

/-- Sync once all records of the group are written. -/
def syncFile (s : State) (ok : Bool) : Option State :=
  match s.worker with
  | .writing g attempt [] =>
    if ok then some { s with
      worker := .settling g none
      history := { s.history with synced := s.history.log.length } }
    else some { s with worker := .looping g (attempt + 1) (some .io) }
  | _ => none

def settle (s : State) : Option State :=
  match s.worker with
  | .settling g failure => some { s with
      live := settleGroup ⟨s.live, g.undo, failure⟩ g.pendingStart g.nextIdStart failure
      worker := .finishing g failure }
  | _ => none

/-- Mark the requests of the group done; after a failure nothing is admitted any more. -/
def finish (s : State) : Option State :=
  match s.worker with
  | .finishing g failure =>
    let done := (g.batch.filter (·.callerWaits)).map (·, failure)
    match failure with
    | none => some { s with worker := .idle, writing := false, finished := s.finished ++ done }
    | some _ => some { s with
        worker := .idle
        writing := false
        failed := true
        requests := []
        finished := s.finished ++ done ++
          (s.requests.filter (·.callerWaits)).map (·, some .walUnavailable) }
  | _ => none

/-! ## The machine -/

inductive Label where
  | enqueueBatch (mutations : List FactMutation) (durability : Durability)
      (fault : Option (ℕ × AllocPoint))
  | flushCascade (mutations : List FactMutation) (ackId : Int64) (durability : Durability)
      (fault : Option (ℕ × AllocPoint))
  | ack (id : Int64) (outcome : WriteOutcome) (synced : Bool)
  | nextPendingFor (namespaceId : Option NamespaceId)
  | wake (i : ℕ)
  | finishFlush (i : ℕ)
  | takeQueue (fault : Option (ℕ × AllocPoint))
  | loopHead
  | writeNext (outcome : WriteOutcome)
  | syncFile (ok : Bool)
  | settle
  | finish
deriving DecidableEq

/-- One step of the log. -/
def wal : Machine State Label where
  step s
    | .enqueueBatch mutations durability fault => enqueueBatch s mutations durability fault
    | .flushCascade mutations ackId durability fault => flushCascade s mutations ackId durability fault
    | .ack id outcome synced => ack s id outcome synced
    | .nextPendingFor namespaceId => some (takePending s namespaceId)
    | .wake i => wake s i
    | .finishFlush i => finishFlush s i
    | .takeQueue fault => takeQueue s fault
    | .loopHead => loopHead s
    | .writeNext outcome => writeNext s outcome
    | .syncFile ok => syncFile s ok
    | .settle => settle s
    | .finish => finish s

/-! ## What the steps do -/

/-- The live state after publishing a request. -/
def Live.publish (self : Live) (r : Request) : Live := self.putAll (r.mutations.map (r.recordKind, ·))

/-- The id that a cascade will take out of the pending list. -/
def Request.acks (r : Request) : List ℤ := if r.recordKind = recordCascade then [r.ackId.toInt] else []

section Specs

variable {fault : Option (ℕ × AllocPoint)} {kind : UInt8} {s s' : State}

theorem Live.putAll_dirty (self : Live) (hk : kind ≠ recordCascade) (ms : List FactMutation) :
    self.putAll (ms.map (kind, ·)) = ms.foldl Live.putDirty self := by
  induction ms generalizing self with
  | nil => rfl
  | cons m ms ih =>
    rw [List.map_cons, Live.putAll_cons, ih, List.foldl_cons, Live.put, if_neg hk]

theorem Live.putAll_noDirty (self : Live) (ms : List FactMutation) :
    self.putAll (ms.map (recordCascade, ·)) = ms.foldl Live.putFact self := by
  induction ms generalizing self with
  | nil => rfl
  | cons m ms ih =>
    rw [List.map_cons, Live.putAll_cons, ih, List.foldl_cons, Live.put, if_pos rfl]

/-- Replaying the record of a request is publishing it and taking out what it acknowledges. -/
theorem Live.replay_record (self : Live) (r : Request) :
    self.replay r.record = r.acks.foldl removePending (self.publish r) := by
  unfold Request.record Request.acks Live.publish
  by_cases hk : r.recordKind = recordCascade
  · rw [if_pos hk, if_pos hk, hk, Live.putAll_noDirty]
    rfl
  · rw [if_neg hk, if_neg hk, Live.putAll_dirty self hk]
    rfl

theorem Request.toList_ackedId (r : Request) : r.record.ackedId.toList = r.acks := by
  unfold Request.acks Request.record
  split_ifs <;> rfl

theorem Request.mem_acks {r : Request} {a : ℤ} : a ∈ r.acks ↔ r.record.ackedId = some a := by
  rw [← r.toList_ackedId, Option.mem_toList]

variable (fault) in
theorem publishRequest_snd (p : Publication) (r : Request) :
    ∃ accepted, (publishRequest fault p r).2 = { r with accepted := accepted } := by
  unfold publishRequest
  by_cases ha : r.applyAfterWrite
  · rw [if_neg (by simp [ha])]
    cases publishMutations fault r.recordKind p r.mutations with
    | mk p' accepted =>
      by_cases hk : r.recordKind = recordCascade
      · exact ⟨r.accepted, by simp only [if_pos hk]⟩
      · exact ⟨accepted, by simp only [if_neg hk]⟩
  · exact ⟨r.accepted, by rw [if_pos ha]⟩

theorem publishRequests_mem : ∀ {p : Publication} {rs : List Request} {r' : Request},
    r' ∈ (publishRequests fault p rs).2 → ∃ r ∈ rs, ∃ accepted, r' = { r with accepted := accepted }
  | p, [], r', h => by simp [publishRequests] at h
  | p, r :: rs, r', h => by
    rcases List.mem_cons.mp h with rfl | h
    · exact ⟨r, by simp, publishRequest_snd fault p r⟩
    · obtain ⟨r₀, hr₀, ha⟩ := publishRequests_mem h
      exact ⟨r₀, List.mem_cons_of_mem _ hr₀, ha⟩

variable (fault) in
/-- Publication changes nothing of a request but its flags. -/
theorem publishRequests_map {β : Type} (f : Request → β)
    (hf : ∀ r accepted, f { r with accepted := accepted } = f r) :
    ∀ (p : Publication) (rs : List Request), (publishRequests fault p rs).2.map f = rs.map f
  | p, [] => rfl
  | p, r :: rs => by
    have hr : f (publishRequest fault p r).2 = f r := by
      obtain ⟨accepted, h⟩ := publishRequest_snd fault p r
      rw [h, hf]
    have ih := publishRequests_map f hf (publishRequest fault p r).1 rs
    change f (publishRequest fault p r).2 ::
      (publishRequests fault (publishRequest fault p r).1 rs).2.map f = _
    rw [hr, ih, List.map_cons]

variable (kind) in
theorem publishMutations_none (self : Live) (ms : List FactMutation) :
    (publishMutations none kind ⟨self, [], none⟩ ms).1 = ⟨self.putAll (ms.map (kind, ·)),
      (recordAll Fact.timestamp self.facts (writesOf (ms.map (kind, ·)))).2, none⟩ := by
  rw [publishMutations_fst, publishAll_quiet _ self [] (fun _ _ => rfl), List.nil_append]

section NewRequest

variable {mutations : List FactMutation} {ackId : Int64} {durability : Durability}

@[simp] theorem record_newRequest_batch :
    (newRequest s recordBatch mutations ackId durability).record = .batch mutations := rfl

@[simp] theorem record_newRequest_cascade :
    (newRequest s recordCascade mutations ackId durability).record = .cascade ackId mutations := rfl

@[simp] theorem acks_newRequest_batch :
    (newRequest s recordBatch mutations ackId durability).acks = [] := rfl

@[simp] theorem acks_newRequest_cascade :
    (newRequest s recordCascade mutations ackId durability).acks = [ackId.toInt] := rfl

end NewRequest

/-- An eventual publication without a failing allocation. -/
theorem publishNow_none (s : State) (r : Request) (undone flushed : Live → Live) :
    ∃ accepted, s.publishNow none r undone flushed =
      { (s.push { r with accepted := accepted }) with
        live := flushed (s.live.publish r)
        history := { s.history with
          published := s.history.published ++ acceptedOf r.ticket r.recordKind s.live r.mutations } } := by
  have hp := publishMutations_none r.recordKind s.live r.mutations
  unfold State.publishNow
  cases hpub : publishMutations none r.recordKind ⟨s.live, [], none⟩ r.mutations with
  | mk p accepted =>
    rw [hpub] at hp
    obtain rfl : p = _ := hp
    by_cases hk : r.recordKind = recordCascade
    · exact ⟨r.accepted, by simp only [if_pos hk]; rfl⟩
    · exact ⟨accepted, by simp only [if_neg hk]; rfl⟩

variable (fault) in
/-- An eventual publication, whatever fails. -/
theorem publishNow_cases (s : State) (r : Request) (undone flushed : Live → Live) :
    (∃ live, s.publishNow fault r undone flushed = { s with live := live }) ∨
      ∃ accepted live, s.publishNow fault r undone flushed =
        { (s.push { r with accepted := accepted }) with
          live := live
          history := { s.history with
            published := s.history.published ++ acceptedOf r.ticket r.recordKind s.live r.mutations } } := by
  unfold State.publishNow
  cases publishMutations fault r.recordKind ⟨s.live, [], none⟩ r.mutations with
  | mk p accepted =>
    cases hf : p.failure with
    | some e => exact Or.inl ⟨undone (rollbackFacts p.live p.undo).1, by simp only [hf]⟩
    | none =>
      right
      by_cases hk : r.recordKind = recordCascade
      · exact ⟨r.accepted, flushed p.live, by simp only [hf, if_pos hk]⟩
      · exact ⟨accepted, flushed p.live, by simp only [hf, if_neg hk]⟩

/-- An admitted request, whatever the durability, when no allocation fails. -/
theorem admission_cases {admitted : State} (h : admission s admitted = some s') :
    s' = s ∨ (s.failed = false ∧ s' = admitted) := by
  unfold admission at h
  by_cases hf : s.failed
  · rw [if_pos hf] at h
    exact Or.inl (Option.some.inj h).symm
  · rw [if_neg hf] at h
    by_cases hq : s.requests.length < maxQueuedRequests
    · rw [if_pos hq] at h
      exact Or.inr ⟨by simpa using hf, (Option.some.inj h).symm⟩
    · rw [if_neg hq] at h
      cases h

theorem admission_healthy {admitted : State} (hf : s.failed = false) (h : admission s admitted = some s') :
    s' = admitted := by
  unfold admission at h
  rw [if_neg (by simp [hf])] at h
  exact (Option.ite_none_right_eq_some.mp h).2 |> Option.some.inj |>.symm

/-- Taking the queue, whatever fails. -/
theorem takeQueue_cases (h : takeQueue s fault = some s') :
    s.worker = .idle ∧ s.requests ≠ [] ∧ ∃ live undo failure, s' = { s with
      live := live
      requests := []
      writing := true
      worker := .looping ⟨(publishRequests fault ⟨s.live, [], none⟩ s.requests).2, undo,
        s.live.pending.length, s.live.nextId⟩ 0 failure
      history := { s.history with
        published := if failure.isSome then s.history.published
          else s.history.published ++ acceptedOfGroup s.live s.requests } } := by
  have hsnd : (publishGroup fault s.live s.requests).2 =
      (publishRequests fault ⟨s.live, [], none⟩ s.requests).2 := by
    unfold publishGroup
    cases publishRequests fault ⟨s.live, [], none⟩ s.requests with
    | mk p batch => cases hf : p.failure <;> simp only [hf]
  unfold takeQueue at h
  cases hw : s.worker with
  | idle =>
    rw [hw] at h
    simp only at h
    by_cases hq : s.requests = []
    · rw [if_pos hq] at h
      cases h
    · rw [if_neg hq] at h
      refine ⟨rfl, hq, (publishGroup fault s.live s.requests).1.live,
        (publishGroup fault s.live s.requests).1.undo,
        (publishGroup fault s.live s.requests).1.failure, ?_⟩
      rw [← hsnd]
      exact (Option.some.inj h).symm
  | looping g n f => rw [hw] at h; cases h
  | writing g n t => rw [hw] at h; cases h
  | settling g f => rw [hw] at h; cases h
  | finishing g f => rw [hw] at h; cases h

theorem State.appendRecord_done (s : State) (r : Record) (bytes : Bytes) :
    s.appendRecord r bytes .done = { s with
      file := s.file ++ bytes
      history := { s.history with log := s.history.log ++ [r] } } := by
  simp [State.appendRecord]

theorem readable_ack (id : Int64) : (Record.ack id).Readable :=
  ⟨by simp [Record.mutations], by simp only [Record.payload, length_leBytes]; decide⟩

/-- What an acknowledgement that succeeds leaves. -/
def State.acked (s : State) (id : Int64) : State :=
  { s with
    live := removePending s.live id.toInt
    history := { s.history with
      synced := s.history.log.length
      succeeded := s.history.succeeded ++ [.ack id] } }

theorem ack_cases {id : Int64} {outcome : WriteOutcome} {synced : Bool}
    (h : ack s id outcome synced = some s') : s.writing = false ∧ s.requests = [] ∧
      s' = if outcome = .done ∧ synced then
          (s.appendRecord (.ack id) (Record.ack id).encode outcome).acked id
        else s.appendRecord (.ack id) (Record.ack id).encode outcome := by
  have hwrite : writeAck id = .ok (Record.ack id).encode := (readable_ack id).write
  unfold ack at h
  by_cases hbusy : s.writing ∨ s.requests ≠ []
  · rw [if_pos hbusy] at h
    cases h
  · rw [if_neg hbusy, hwrite] at h
    obtain ⟨hw, hq⟩ := not_or.mp hbusy
    refine ⟨by simpa using hw, by simpa using hq, ?_⟩
    simp only at h
    split_ifs at h ⊢ <;> exact (Option.some.inj h).symm

/-- Taking the queue when no allocation fails: everything strict is published. -/
theorem takeQueue_none (h : takeQueue s none = some s') :
    s.worker = .idle ∧ s.requests ≠ [] ∧ s' = { s with
      live := s.live.putAll (strictMutations s.requests)
      requests := []
      writing := true
      worker := .looping ⟨(publishRequests none ⟨s.live, [], none⟩ s.requests).2,
        (recordAll Fact.timestamp s.live.facts (writesOf (strictMutations s.requests))).2,
        s.live.pending.length, s.live.nextId⟩ 0 none
      history := { s.history with
        published := s.history.published ++ acceptedOfGroup s.live s.requests } } := by
  unfold takeQueue at h
  cases hw : s.worker with
  | idle =>
    rw [hw] at h
    simp only at h
    by_cases hq : s.requests = []
    · rw [if_pos hq] at h
      cases h
    · rw [if_neg hq] at h
      have hp : (publishRequests none ⟨s.live, [], none⟩ s.requests).1 =
          ⟨s.live.putAll (strictMutations s.requests),
            (recordAll Fact.timestamp s.live.facts (writesOf (strictMutations s.requests))).2, none⟩ := by
        rw [publishRequests_fst, publishAll_quiet _ s.live [] (fun _ _ => rfl), List.nil_append]
      have hg : publishGroup none s.live s.requests =
          (⟨s.live.putAll (strictMutations s.requests),
            (recordAll Fact.timestamp s.live.facts (writesOf (strictMutations s.requests))).2, none⟩,
            (publishRequests none ⟨s.live, [], none⟩ s.requests).2) := by
        unfold publishGroup
        simp only [hp]
      rw [hg] at h
      exact ⟨rfl, hq, (Option.some.inj h).symm⟩
  | looping g n f => rw [hw] at h; cases h
  | writing g n t => rw [hw] at h; cases h
  | settling g f => rw [hw] at h; cases h
  | finishing g f => rw [hw] at h; cases h

/-! ### Inversion: what a step that was taken did -/

theorem takePending_cases (s : State) (namespaceId : Option NamespaceId) :
    takePending s namespaceId = s ∨ ∃ item ∈ s.live.pending, takePending s namespaceId =
      { s with history := { s.history with issued := s.history.issued ++ [item.id] } } := by
  unfold takePending
  cases hn : nextPendingFor s.live namespaceId with
  | none => exact Or.inl rfl
  | some item => exact Or.inr ⟨item, List.mem_of_find?_eq_some hn, rfl⟩

theorem exists_split_of_getElem? {α : Type} {l : List α} {i : ℕ} {x : α} (h : l[i]? = some x) :
    ∃ l₁ l₂, l = l₁ ++ x :: l₂ ∧ l.eraseIdx i = l₁ ++ l₂ := by
  obtain ⟨hi, rfl⟩ := List.getElem?_eq_some_iff.mp h
  exact ⟨l.take i, l.drop (i + 1), by simp, List.eraseIdx_eq_take_drop_succ l i⟩

theorem wake_cases {i : ℕ} (h : wake s i = some s') :
    ∃ request err l₁ l₂, s.finished = l₁ ++ (request, err) :: l₂ ∧
      ((err ≠ none ∧ s' = { s with finished := l₁ ++ l₂ }) ∨
        (err = none ∧ request.recordKind = recordCascade ∧ s' = { s with
          finished := l₁ ++ l₂, removing := s.removing ++ [request] }) ∨
        (err = none ∧ request.recordKind ≠ recordCascade ∧ s' = { s with
          finished := l₁ ++ l₂
          history := { s.history with succeeded := s.history.succeeded ++ [request.record] } })) := by
  unfold wake at h
  cases hi : s.finished[i]? with
  | none => rw [hi] at h; cases h
  | some p =>
    obtain ⟨request, err⟩ := p
    obtain ⟨l₁, l₂, hl, he⟩ := exists_split_of_getElem? hi
    rw [hi, he] at h
    refine ⟨request, err, l₁, l₂, hl, ?_⟩
    cases err with
    | some e => exact Or.inl ⟨by simp, (Option.some.inj h).symm⟩
    | none =>
      simp only at h
      by_cases hk : request.recordKind = recordCascade
      · rw [if_pos hk] at h
        exact Or.inr (Or.inl ⟨rfl, hk, (Option.some.inj h).symm⟩)
      · rw [if_neg hk] at h
        exact Or.inr (Or.inr ⟨rfl, hk, (Option.some.inj h).symm⟩)

theorem finishFlush_cases {i : ℕ} (h : finishFlush s i = some s') :
    ∃ request l₁ l₂, s.removing = l₁ ++ request :: l₂ ∧ s' = { s with
      removing := l₁ ++ l₂
      live := removePending s.live request.ackId.toInt
      history := { s.history with succeeded := s.history.succeeded ++ [request.record] } } := by
  unfold finishFlush at h
  cases hi : s.removing[i]? with
  | none => rw [hi] at h; cases h
  | some request =>
    obtain ⟨l₁, l₂, hl, he⟩ := exists_split_of_getElem? hi
    rw [hi, he] at h
    exact ⟨request, l₁, l₂, hl, (Option.some.inj h).symm⟩

theorem loopHead_cases (h : loopHead s = some s') :
    ∃ g attempt failure, s.worker = .looping g attempt failure ∧
      ((failure = none ∧ attempt < 3 ∧ s' = { s with worker := .writing g attempt g.batch }) ∨
        (¬ (failure = none ∧ attempt < 3) ∧ s' = { s with worker := .settling g failure })) := by
  unfold loopHead at h
  cases hw : s.worker with
  | looping g attempt failure =>
    rw [hw] at h
    refine ⟨g, attempt, failure, rfl, ?_⟩
    by_cases hc : failure = none ∧ attempt < 3
    · simp only [if_pos hc] at h
      exact Or.inl ⟨hc.1, hc.2, (Option.some.inj h).symm⟩
    · simp only [if_neg hc] at h
      exact Or.inr ⟨hc, (Option.some.inj h).symm⟩
  | idle => rw [hw] at h; cases h
  | writing g n t => rw [hw] at h; cases h
  | settling g f => rw [hw] at h; cases h
  | finishing g f => rw [hw] at h; cases h

theorem writeNext_cases {outcome : WriteOutcome} (h : writeNext s outcome = some s') :
    ∃ g attempt r todo, s.worker = .writing g attempt (r :: todo) ∧
      ((∃ e, r.record.write = .error e ∧
          s' = { s with worker := .looping g (attempt + 1) (some e) }) ∨
        (r.record.Writable ∧ outcome = .done ∧ s' = { s with
          worker := .writing g attempt todo
          file := s.file ++ r.record.encode
          history := { s.history with
            log := s.history.log ++ [r.record], logged := s.history.logged ++ [r.ticket] } }) ∨
        (r.record.Writable ∧ ∃ k, outcome = .failed k ∧
          s' = { (s.appendRecord r.record r.record.encode (.failed k)) with
            worker := .looping g (attempt + 1) (some .io) })) := by
  unfold writeNext at h
  cases hw : s.worker with
  | writing g attempt todo =>
    cases todo with
    | nil => rw [hw] at h; cases h
    | cons r todo =>
      rw [hw] at h
      refine ⟨g, attempt, r, todo, rfl, ?_⟩
      cases hwr : r.record.write with
      | error e =>
        simp only [hwr] at h
        exact Or.inl ⟨e, rfl, (Option.some.inj h).symm⟩
      | ok bytes =>
        obtain ⟨hwritable, rfl⟩ := (r.record.write_ok_iff bytes).mp hwr
        simp only [hwr] at h
        cases outcome with
        | done =>
          simp only [State.appendRecord_done] at h
          exact Or.inr (Or.inl ⟨hwritable, rfl, (Option.some.inj h).symm⟩)
        | failed k => exact Or.inr (Or.inr ⟨hwritable, k, rfl, (Option.some.inj h).symm⟩)
  | idle => rw [hw] at h; cases h
  | looping g n f => rw [hw] at h; cases h
  | settling g f => rw [hw] at h; cases h
  | finishing g f => rw [hw] at h; cases h

theorem syncFile_cases {ok : Bool} (h : syncFile s ok = some s') :
    ∃ g attempt, s.worker = .writing g attempt [] ∧
      ((ok = true ∧ s' = { s with
          worker := .settling g none
          history := { s.history with synced := s.history.log.length } }) ∨
        (ok = false ∧ s' = { s with worker := .looping g (attempt + 1) (some .io) })) := by
  unfold syncFile at h
  cases hw : s.worker with
  | writing g attempt todo =>
    cases todo with
    | nil =>
      rw [hw] at h
      refine ⟨g, attempt, rfl, ?_⟩
      cases ok with
      | true => exact Or.inl ⟨rfl, (Option.some.inj h).symm⟩
      | false => exact Or.inr ⟨rfl, (Option.some.inj h).symm⟩
    | cons r todo => rw [hw] at h; cases h
  | idle => rw [hw] at h; cases h
  | looping g n f => rw [hw] at h; cases h
  | settling g f => rw [hw] at h; cases h
  | finishing g f => rw [hw] at h; cases h

theorem settle_cases (h : settle s = some s') :
    ∃ g failure, s.worker = .settling g failure ∧ s' = { s with
      live := settleGroup ⟨s.live, g.undo, failure⟩ g.pendingStart g.nextIdStart failure
      worker := .finishing g failure } := by
  unfold settle at h
  cases hw : s.worker with
  | settling g failure =>
    rw [hw] at h
    exact ⟨g, failure, rfl, (Option.some.inj h).symm⟩
  | idle => rw [hw] at h; cases h
  | looping g n f => rw [hw] at h; cases h
  | writing g n t => rw [hw] at h; cases h
  | finishing g f => rw [hw] at h; cases h

theorem finish_cases (h : finish s = some s') :
    ∃ g failure, s.worker = .finishing g failure ∧
      ((failure = none ∧ s' = { s with
          worker := .idle
          writing := false
          finished := s.finished ++ (g.batch.filter (·.callerWaits)).map (·, none) }) ∨
        (∃ e, failure = some e ∧ s' = { s with
          worker := .idle
          writing := false
          failed := true
          requests := []
          finished := s.finished ++ (g.batch.filter (·.callerWaits)).map (·, some e) ++
            (s.requests.filter (·.callerWaits)).map (·, some .walUnavailable) })) := by
  unfold finish at h
  cases hw : s.worker with
  | finishing g failure =>
    rw [hw] at h
    refine ⟨g, failure, rfl, ?_⟩
    cases failure with
    | none => exact Or.inl ⟨rfl, (Option.some.inj h).symm⟩
    | some e => exact Or.inr ⟨e, rfl, (Option.some.inj h).symm⟩
  | idle => rw [hw] at h; cases h
  | looping g n f => rw [hw] at h; cases h
  | writing g n t => rw [hw] at h; cases h
  | settling g f => rw [hw] at h; cases h

end Specs

/-! ## What the states of a run have in common -/

namespace State

/-- The group the worker holds. -/
def group (s : State) : List Request :=
  match s.worker with
  | .idle => []
  | .looping g _ _ | .writing g _ _ | .settling g _ | .finishing g _ => g.batch

/-- The requests of the group that are not written yet (while no attempt has failed). -/
def unwritten (s : State) : List Request :=
  match s.worker with
  | .looping g _ _ => g.batch
  | .writing _ _ todo => todo
  | _ => []

section

variable {s : State} {g : Group} {attempt : ℕ} {failure : Option Err} {todo : List Request}

theorem unwritten_of_idle (h : s.worker = .idle) : s.unwritten = [] := by
  unfold unwritten
  rw [h]

theorem unwritten_of_looping (h : s.worker = .looping g attempt failure) : s.unwritten = g.batch := by
  unfold unwritten
  rw [h]

theorem unwritten_of_writing (h : s.worker = .writing g attempt todo) : s.unwritten = todo := by
  unfold unwritten
  rw [h]

theorem unwritten_of_settling (h : s.worker = .settling g failure) : s.unwritten = [] := by
  unfold unwritten
  rw [h]

theorem unwritten_of_finishing (h : s.worker = .finishing g failure) : s.unwritten = [] := by
  unfold unwritten
  rw [h]

end

/-- No request waits and the worker holds no group. -/
def Drained (s : State) : Prop := s.requests = [] ∧ s.worker = .idle

/-- All calls have returned. -/
def Returned (s : State) : Prop := s.finished = [] ∧ s.removing = []

instance : ∀ w : Worker, Decidable (w = .idle)
  | .idle => isTrue rfl
  | .looping .. | .writing .. | .settling .. | .finishing .. => isFalse nofun

instance (s : State) : Decidable s.Drained := inferInstanceAs (Decidable (s.requests = [] ∧ s.worker = .idle))

instance (s : State) : Decidable s.Returned := inferInstanceAs (Decidable (s.finished = [] ∧ s.removing = []))

end State

/-- The worker has met no failure. -/
def Worker.Sound : Worker → Prop
  | .looping _ attempt failure => attempt = 0 ∧ failure = none
  | .settling _ failure | .finishing _ failure => failure = none
  | _ => True

end Slung.Wal
