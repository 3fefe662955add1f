import Slung.Wal.Ledger
import Slung.Wal.Simulation

/-!
# Slung.Wal.StrictFaults — what a strict success is worth after I/O faults

Runs of strict calls and acknowledgements in which writes stop after any number of bytes and syncs fail.
A write that stops in the middle leaves a part of a record at the end of the file.  The worker then refuses
further requests, but an acknowledgement is written all the same, and an acknowledgement that stops in the
middle does not make the worker refuse anything: either way the next record stands behind the part and
recovery takes them for one malformed record (`corrupt_after_failed_ack`).

`strict_durable`: as long as no write starts on such a file and acknowledged ids have been given out, every
call that returned success is in the recovered state, in every state of every run.
-/

namespace Slung.Wal

open Slung.Lib

/-! ## The runs -/

/-- The file ends with a whole record. -/
def State.CleanFile (s : State) : Prop := s.file = logOf s.history.log

/-- No failure has been met, and the worker will go on. -/
def State.Healthy (s : State) : Prop := s.failed = false ∧ s.worker.Sound

instance (w : Worker) : Decidable w.Sound := by
  cases w <;> unfold Worker.Sound <;> infer_instance

instance (s : State) : Decidable s.Healthy := by
  unfold State.Healthy
  infer_instance

/-- Strict calls and acknowledgements, with ids from `nextPendingFor` and records within the reader's limits;
writes and syncs may fail. -/
def StrictIo (s : State) : Label → Prop
  | .enqueueBatch ms durability fault =>
    durability = .strict ∧ fault = none ∧ (Record.batch ms).Readable
  | .flushCascade ms ackId durability fault =>
    durability = .strict ∧ fault = none ∧ (Record.cascade ackId ms).Readable ∧
      ackId.toInt ∈ s.history.issued
  | .ack id _ _ => id.toInt ∈ s.history.issued
  | .takeQueue fault => fault = none
  | _ => True

/-- Strict calls and acknowledgements whose ids have been assigned when they are made, and no write behind a
part of a record. -/
def CleanIo (s : State) : Label → Prop
  | .enqueueBatch ms durability fault =>
    durability = .strict ∧ fault = none ∧ (Record.batch ms).Readable
  | .flushCascade ms ackId durability fault =>
    durability = .strict ∧ fault = none ∧ (Record.cascade ackId ms).Readable ∧
      (s.Healthy → ackId.toInt < s.live.nextId)
  | .ack id _ _ => (s.Healthy → id.toInt < s.live.nextId) ∧ s.CleanFile
  | .takeQueue fault => fault = none
  | .writeNext _ => s.CleanFile
  | _ => True

instance (s : State) : ∀ l, Decidable (StrictIo s l)
  | .enqueueBatch .. | .flushCascade .. => inferInstanceAs (Decidable (_ ∧ _))
  | .ack .. => inferInstanceAs (Decidable (_ ∈ _))
  | .takeQueue .. => inferInstanceAs (Decidable (_ = _))
  | .nextPendingFor .. | .wake .. | .finishFlush .. | .loopHead | .writeNext .. | .syncFile .. | .settle | .finish =>
    inferInstanceAs (Decidable True)

instance (s : State) : Decidable s.CleanFile := inferInstanceAs (Decidable (_ = _))

instance (s : State) : ∀ l, Decidable (CleanIo s l)
  | .enqueueBatch .. | .flushCascade .. | .ack .. => inferInstanceAs (Decidable (_ ∧ _))
  | .takeQueue .. => inferInstanceAs (Decidable (_ = _))
  | .writeNext .. => inferInstanceAs (Decidable s.CleanFile)
  | .nextPendingFor .. | .wake .. | .finishFlush .. | .loopHead | .syncFile .. | .settle | .finish =>
    inferInstanceAs (Decidable True)

/-- A state holds the effect of a record: its mutations, or facts that are at least as new, and no pending
entry with the acknowledged id. -/
structure Record.Holds (r : Record) (self : Live) : Prop where
  facts : ∀ m ∈ r.mutations, HoldsSince Fact.timestamp self.facts m.key m.timestamp
  acked : ∀ a, r.ackedId = some a → ∀ item ∈ self.pending, item.id ≠ a

/-! ## Logs -/

section Logs

variable {self : Live} {k : Bytes} {t : Timestamp}

theorem holdsSince_foldl_putFact (h : HoldsSince Fact.timestamp self.facts k t) (ms : List FactMutation) :
    HoldsSince Fact.timestamp (ms.foldl Live.putFact self).facts k t := by
  induction ms generalizing self with
  | nil => exact h
  | cons m ms ih =>
    have hput : HoldsSince Fact.timestamp (self.putFact m).facts k t := h.write
    exact ih hput

theorem holdsSince_foldl_putDirty (h : HoldsSince Fact.timestamp self.facts k t) (ms : List FactMutation) :
    HoldsSince Fact.timestamp (ms.foldl Live.putDirty self).facts k t := by
  induction ms generalizing self with
  | nil => exact h
  | cons m ms ih =>
    have hput : HoldsSince Fact.timestamp (self.putDirty m).facts k t := h.write
    exact ih hput

/-- No replay takes a key back in time. -/
theorem holdsSince_replay (h : HoldsSince Fact.timestamp self.facts k t) (r : Record) :
    HoldsSince Fact.timestamp (self.replay r).facts k t := by
  cases r with
  | batch ms => exact holdsSince_foldl_putDirty h ms
  | ack id => exact h
  | cascade id ms => exact holdsSince_foldl_putFact h ms

theorem holdsSince_replayAll (h : HoldsSince Fact.timestamp self.facts k t) (rs : List Record) :
    HoldsSince Fact.timestamp (self.replayAll rs).facts k t := by
  induction rs generalizing self with
  | nil => exact h
  | cons r rs ih => exact ih (holdsSince_replay h r)

theorem holdsSince_of_mem_putFact : ∀ {ms : List FactMutation} (self : Live) {m : FactMutation}, m ∈ ms →
    HoldsSince Fact.timestamp (ms.foldl Live.putFact self).facts m.key m.timestamp
  | m' :: ms, self, m, h => by
    rcases List.mem_cons.mp h with rfl | h
    · have hput : HoldsSince Fact.timestamp (self.putFact m).facts m.key m.timestamp :=
        holdsSince_write_self _ _ m.fact
      exact holdsSince_foldl_putFact hput ms
    · exact holdsSince_of_mem_putFact (self.putFact m') h

theorem holdsSince_of_mem_putDirty : ∀ {ms : List FactMutation} (self : Live) {m : FactMutation}, m ∈ ms →
    HoldsSince Fact.timestamp (ms.foldl Live.putDirty self).facts m.key m.timestamp
  | m' :: ms, self, m, h => by
    rcases List.mem_cons.mp h with rfl | h
    · have hput : HoldsSince Fact.timestamp (self.putDirty m).facts m.key m.timestamp :=
        holdsSince_write_self _ _ m.fact
      exact holdsSince_foldl_putDirty hput ms
    · exact holdsSince_of_mem_putDirty (self.putDirty m') h

/-- The mutations of a replayed record are there, or newer ones. -/
theorem holdsSince_of_mem {rs : List Record} {r : Record} (hr : r ∈ rs) (self : Live) :
    ∀ m ∈ r.mutations, HoldsSince Fact.timestamp (self.replayAll rs).facts m.key m.timestamp := by
  intro m hm
  obtain ⟨pre, post, rfl⟩ := List.append_of_mem hr
  rw [Live.replayAll_append, Live.replayAll_cons]
  refine holdsSince_replayAll ?_ post
  cases r with
  | batch ms => exact holdsSince_of_mem_putDirty _ hm
  | ack id => cases hm
  | cascade id ms => exact holdsSince_of_mem_putFact _ hm

/-- No id that the records acknowledge is pending after them. -/
def AckedGone (self : Live) (rs : List Record) : Prop :=
  ∀ r ∈ rs, ∀ a, r.ackedId = some a → ∀ item ∈ (self.replayAll rs).pending, item.id ≠ a

/-- Every id that the records acknowledge has been assigned. -/
def AckedBelow (self : Live) (rs : List Record) : Prop :=
  ∀ r ∈ rs, ∀ a, r.ackedId = some a → a < (self.replayAll rs).nextId

/-- The id that a record acknowledges is not pending after it. -/
theorem ackedId_not_pending (h : self.PendingOk) {r : Record} {a : ℤ} (hr : r.ackedId = some a) :
    ∀ item ∈ (self.replay r).pending, item.id ≠ a := by
  have key : ∀ live : Live, live.PendingOk → ∀ item ∈ (removePending live a).pending, item.id ≠ a := by
    intro live hok item hi
    change item ∈ live.pending.eraseP (fun item => item.id == a) at hi
    rw [Live.eraseP_eq_filter hok.nodup] at hi
    simpa using (List.mem_filter.mp hi).2
  cases r with
  | batch ms => cases hr
  | ack id =>
    obtain rfl := Option.some.inj hr
    exact key _ h
  | cascade id ms =>
    obtain rfl := Option.some.inj hr
    exact key _ (h.foldl_putFact ms)

/-- One more record keeps acknowledged ids gone, unless it makes entries with ids acknowledged too
early. -/
theorem AckedGone.concat {rs : List Record} (hok : self.PendingOk) (h : AckedGone self rs) {r : Record}
    (hr : r.sources = [] ∨ AckedBelow self rs) : AckedGone self (rs ++ [r]) := by
  intro r' hr' a ha item hi
  rw [Live.replayAll_append, Live.replayAll_cons, Live.replayAll_nil] at hi
  rcases List.mem_append.mp hr' with hr' | hr'
  · rcases mem_pending_replay _ r hi with hi | ⟨e, he, rfl⟩
    · exact h r' hr' a ha item hi
    · rcases hr with hr | hr
      · rw [hr] at he
        cases he
      · have hlt := hr r' hr' a ha
        have hle := (created_bounds _ _ e he).1
        simp only [FactMutation.pendingAs]
        omega
  · obtain rfl := List.mem_singleton.mp hr'
    exact ackedId_not_pending (hok.replayAll rs) ha item hi

theorem AckedBelow.concat {rs : List Record} (h : AckedBelow self rs) {r : Record}
    (hr : ∀ a, r.ackedId = some a → a < (self.replayAll rs).nextId) : AckedBelow self (rs ++ [r]) := by
  intro r' hr' a ha
  rw [Live.replayAll_append, Live.replayAll_cons, Live.replayAll_nil]
  refine lt_of_lt_of_le ?_ (Live.nextId_le_replay _ r)
  rcases List.mem_append.mp hr' with hr' | hr'
  · exact h r' hr' a ha
  · exact hr a (List.mem_singleton.mp hr' ▸ ha)

end Logs

/-! ## The invariant -/

/-- What the file is worth: `ran` are the records that the run appended to the log `base` it started from,
and behind the log stands at most a part of one record. -/
structure Recoverable (base ran : List Record) (file : Bytes) (log : List Record) : Prop where
  log_eq : log = base ++ ran
  readable : ∀ r ∈ log, r.Readable
  file_eq : ∃ r : Record, ∃ k, r.Readable ∧ k < r.encode.length ∧ file = logOf log ++ r.encode.take k
  gone : AckedGone (Live.init.replayAll base) ran

namespace Recoverable

variable {base ran log : List Record} {file : Bytes} {r : Record}

theorem encode_length_pos (r : Record) : 0 < r.encode.length := by
  have := r.length_encode
  omega

theorem opened {base : List Record} (h : ∀ r ∈ base, r.Readable) :
    Recoverable base [] (logOf base) base where
  log_eq := by simp
  readable := h
  file_eq := ⟨.ack 0, 0, readable_ack 0, encode_length_pos _, by simp⟩
  gone := fun r hr => by cases hr

/-- A write that completes on a file that ends with a whole record. -/
theorem append (h : Recoverable base ran file log) (hclean : file = logOf log) (hr : r.Readable)
    (hnew : r.sources = [] ∨ AckedBelow (Live.init.replayAll base) ran) :
    Recoverable base (ran ++ [r]) (file ++ r.encode) (log ++ [r]) where
  log_eq := by rw [h.log_eq, List.append_assoc]
  readable := by
    intro r' hr'
    rcases List.mem_append.mp hr' with hr' | hr'
    · exact h.readable r' hr'
    · exact List.mem_singleton.mp hr' ▸ hr
  file_eq := ⟨.ack 0, 0, readable_ack 0, encode_length_pos _, by
    rw [hclean, logOf_concat, List.take_zero, List.append_nil]⟩
  gone := h.gone.concat (Live.pendingOk_init.replayAll base) hnew

/-- A write that stops in the middle, on such a file. -/
theorem torn (h : Recoverable base ran file log) (hclean : file = logOf log) (hr : r.Readable) {k : ℕ}
    (hk : k < r.encode.length) : Recoverable base ran (file ++ r.encode.take k) log :=
  { h with file_eq := ⟨r, k, hr, hk, by rw [hclean]⟩ }

/-- Recovery succeeds, and holds every record of the run. -/
theorem recovers (h : Recoverable base ran file log) : ∃ live whole,
    recover Live.init file = .ok (live, whole) ∧ ∀ r ∈ ran, r.Holds live := by
  obtain ⟨r, k, hr, hk, hfile⟩ := h.file_eq
  refine ⟨_, _, hfile ▸ recover_torn h.readable hr Live.init hk, fun r' hr' => ?_⟩
  rw [h.log_eq, Live.replayAll_append]
  exact ⟨holdsSince_of_mem hr' _, h.gone r' hr'⟩

end Recoverable

/-- The live state is in step with the log and the requests behind it. -/
structure InStep (base ran : List Record) (s : State) : Prop where
  agree : Agree s.live (Live.init.replayAll (s.history.log ++ s.unwritten.map Request.record))
  below : AckedBelow (Live.init.replayAll base) ran
  queued : ∀ r ∈ s.requests, ∀ a ∈ r.acks, a < s.live.nextId
  ahead : ∀ r ∈ s.unwritten, r.record.Readable ∧
    ∀ a ∈ r.acks, a < (Live.init.replayAll s.history.log).nextId
  written : ∀ r ∈ s.group, r ∈ s.unwritten ∨ r.record ∈ ran

/-- The invariant of a run that appended the records `ran` to the log `base`. -/
structure Durable (base ran : List Record) (s : State) : Prop where
  disk : Recoverable base ran s.file s.history.log
  admitted : ∀ r ∈ s.requests, r.applyAfterWrite = true ∧ r.record.Readable
  halted : s.failed = true → s.worker = .idle ∧ s.requests = []
  fresh : ∀ g attempt, s.worker = .looping g attempt none → attempt = 0
  busy : s.writing = false → s.worker = .idle
  inStep : s.Healthy → InStep base ran s
  done : ∀ r, (r, none) ∈ s.finished → r.record ∈ ran
  removing : ∀ r ∈ s.removing, r.record ∈ ran
  succeeded : ∀ r ∈ s.history.succeeded, r ∈ ran

/-- What a write of a record leaves behind: the whole record, or a part of it if the write fails. -/
theorem State.appendRecord_cases (s : State) (r : Record) (outcome : WriteOutcome) :
    s.appendRecord r r.encode outcome = s.appendRecord r r.encode .done ∨
      ∃ k < r.encode.length, outcome = .failed k ∧
        s.appendRecord r r.encode outcome = { s with file := s.file ++ r.encode.take k } := by
  cases outcome with
  | done => exact Or.inl rfl
  | failed k =>
    by_cases hk : k < r.encode.length
    · refine Or.inr ⟨k, hk, rfl, ?_⟩
      simp [State.appendRecord, Nat.min_eq_left hk.le, hk.ne]
    · left
      simp [State.appendRecord, List.take_of_length_le (Nat.le_of_not_lt hk)]

namespace Durable

variable {base ran : List Record} {s s' : State}

theorem opened (h : ∀ r ∈ base, r.Readable) : Durable base [] (State.opened base) where
  disk := Recoverable.opened h
  admitted := by simp [State.opened]
  halted := by simp [State.opened]
  fresh := by simp [State.opened]
  busy := fun _ => rfl
  inStep := fun _ =>
    { agree := ⟨by simp [State.opened, State.unwritten], by simp [State.opened, State.unwritten]⟩
      below := fun r hr => by cases hr
      queued := by simp [State.opened]
      ahead := by simp [State.opened, State.unwritten]
      written := by simp [State.opened, State.group] }
  done := by simp [State.opened]
  removing := by simp [State.opened]
  succeeded := by simp [State.opened]

/-- A worker that holds a group has not stopped. -/
theorem not_failed (h : Durable base ran s) (hw : s.worker ≠ .idle ∨ s.requests ≠ []) :
    s.failed = false := by
  cases hf : s.failed with
  | false => rfl
  | true =>
    obtain ⟨hidle, hq⟩ := h.halted hf
    rcases hw with hw | hw
    · exact absurd hidle hw
    · exact absurd hq hw

/-- A request that joins the queue. -/
theorem push (h : Durable base ran s) (hf : s.failed = false) (request : Request)
    (hmode : request.applyAfterWrite = true) (hread : request.record.Readable)
    (hacks : s.Healthy → ∀ a ∈ request.acks, a < s.live.nextId) : Durable base ran (s.push request) where
  disk := h.disk
  admitted := by
    intro r hr
    rcases List.mem_append.mp hr with hr | hr
    · exact h.admitted r hr
    · exact List.mem_singleton.mp hr ▸ ⟨hmode, hread⟩
  halted := fun hf' => by
    rw [show s.failed = true from hf'] at hf
    cases hf
  fresh := h.fresh
  busy := h.busy
  inStep := fun hh =>
    { h.inStep hh with
      queued := by
        intro r hr
        rcases List.mem_append.mp hr with hr | hr
        · exact (h.inStep hh).queued r hr
        · exact List.mem_singleton.mp hr ▸ hacks hh }
  done := h.done
  removing := h.removing
  succeeded := h.succeeded

theorem step_enqueueBatch (h : Durable base ran s) {ms : List FactMutation}
    (hread : (Record.batch ms).Readable) (hs : enqueueBatch s ms .strict none = some s') :
    Durable base ran s' := by
  unfold enqueueBatch at hs
  by_cases hms : ms = []
  · rw [if_pos hms] at hs
    exact Option.some.inj hs ▸ h
  rw [if_neg hms] at hs
  rcases admission_cases hs with rfl | ⟨hf, rfl⟩
  · exact h
  · exact h.push hf _ rfl hread (by simp [Request.acks, newRequest, recordBatch, recordCascade])

theorem step_flushCascade (h : Durable base ran s) {ms : List FactMutation} {ackId : Int64}
    (hread : (Record.cascade ackId ms).Readable) (hid : s.Healthy → ackId.toInt < s.live.nextId)
    (hs : flushCascade s ms ackId .strict none = some s') : Durable base ran s' := by
  unfold flushCascade at hs
  rcases admission_cases hs with rfl | ⟨hf, rfl⟩
  · exact h
  · exact h.push hf _ rfl hread fun hh a ha => List.mem_singleton.mp ha ▸ hid hh

/-- The record of an acknowledgement that reached the file whole, whether or not the call succeeds. -/
theorem append_ack (h : Durable base ran s) (hw : s.writing = false) (hclean : s.CleanFile) {id : Int64}
    (hid : s.Healthy → id.toInt < s.live.nextId) :
    Durable base (ran ++ [.ack id]) (s.appendRecord (.ack id) (Record.ack id).encode .done) := by
  have hidle := h.busy hw
  have hunwritten : s.unwritten = [] := State.unwritten_of_idle hidle
  rw [State.appendRecord_done]
  refine ⟨h.disk.append hclean (readable_ack id) (Or.inl rfl), h.admitted, h.halted, h.fresh, h.busy,
    fun hh => ?_, ?_, ?_, ?_⟩
  · have hin := h.inStep hh
    have hagree := hin.agree
    rw [hunwritten, List.map_nil, List.append_nil] at hagree
    refine ⟨?_, ?_, hin.queued, ?_, ?_⟩
    · change Agree s.live (Live.init.replayAll (s.history.log ++ [.ack id] ++ s.unwritten.map Request.record))
      rw [hunwritten, List.map_nil, List.append_nil, Live.replayAll_append]
      exact ⟨hagree.facts, hagree.nextId⟩
    · refine hin.below.concat fun a ha => ?_
      obtain rfl := Option.some.inj ha
      rw [← Live.replayAll_append, ← h.disk.log_eq, hagree.nextId]
      exact hid hh
    · intro r hr
      have hr' : r ∈ s.unwritten := hr
      rw [hunwritten] at hr'
      cases hr'
    · intro r hr
      simp [State.group, hidle] at hr
  · exact fun r hr => List.mem_append_left _ (h.done r hr)
  · exact fun r hr => List.mem_append_left _ (h.removing r hr)
  · exact fun r hr => List.mem_append_left _ (h.succeeded r hr)

theorem step_ack (h : Durable base ran s) {id : Int64} {outcome : WriteOutcome} {synced : Bool}
    (hid : s.Healthy → id.toInt < s.live.nextId) (hclean : s.CleanFile) (hs : ack s id outcome synced = some s') :
    ∃ ran', Durable base ran' s' := by
  obtain ⟨hw, -, rfl⟩ := ack_cases hs
  have happend := h.append_ack hw hclean hid
  by_cases hdone : outcome = .done ∧ synced = true
  · rw [if_pos hdone, hdone.1]
    refine ⟨_, { happend with inStep := fun hh => ?_, succeeded := fun r hr => ?_ }⟩
    · have hin := happend.inStep hh
      exact { hin with agree := ⟨hin.agree.facts, hin.agree.nextId⟩ }
    · rcases List.mem_append.mp hr with hr | hr
      · exact happend.succeeded r hr
      · exact List.mem_append_right _ hr
  · rw [if_neg hdone]
    rcases s.appendRecord_cases (.ack id) outcome with heq | ⟨k, hk, -, heq⟩
    · exact ⟨_, heq ▸ happend⟩
    · rw [heq]
      exact ⟨ran, { h with
        disk := h.disk.torn hclean (readable_ack id) hk
        inStep := fun hh => { h.inStep hh with } }⟩

theorem step_takePending (h : Durable base ran s) (namespaceId : Option NamespaceId) :
    Durable base ran (takePending s namespaceId) := by
  rcases takePending_cases s namespaceId with hs | ⟨item, -, hs⟩
  · rw [hs]
    exact h
  · rw [hs]
    exact { h with inStep := fun hh => { h.inStep hh with } }

/-- The worker takes the queue only while nothing has failed, and publishes all of it. -/
theorem step_takeQueue (h : Durable base ran s) (hs : takeQueue s none = some s') : Durable base ran s' := by
  obtain ⟨hidle, hq, rfl⟩ := takeQueue_none hs
  have hf : s.failed = false := h.not_failed (Or.inr hq)
  have hin := h.inStep ⟨hf, by rw [hidle]; trivial⟩
  have hmem : ∀ r ∈ (publishRequests none ⟨s.live, [], none⟩ s.requests).2,
      ∃ r₀ ∈ s.requests, ∃ accepted, r = { r₀ with accepted := accepted } :=
    fun r hr => publishRequests_mem hr
  have hrecords := publishRequests_map none Request.record (fun _ _ => rfl) ⟨s.live, [], none⟩ s.requests
  have hagree := hin.agree
  rw [State.unwritten_of_idle hidle, List.map_nil, List.append_nil] at hagree
  generalize (publishRequests none ⟨s.live, [], none⟩ s.requests).2 = batch at hmem hrecords
  refine ⟨h.disk, by simp, ?_, ?_, by simp, fun _ => ⟨?_, hin.below, by simp, ?_, fun r hr => Or.inl hr⟩,
    h.done, h.removing, h.succeeded⟩
  · intro hf'
    rw [show s.failed = true from hf'] at hf
    cases hf
  · intro g attempt hw
    obtain ⟨-, rfl, -⟩ := Worker.looping.inj hw
    rfl
  · change Agree (s.live.putAll (strictMutations s.requests))
      (Live.init.replayAll (s.history.log ++ batch.map Request.record))
    rw [hrecords, Live.replayAll_append, putAll_strictMutations _ fun r hr => (h.admitted r hr).1]
    exact hagree.replayAll s.requests
  · intro r hr
    obtain ⟨r₀, hr₀, accepted, rfl⟩ := hmem r hr
    refine ⟨(h.admitted r₀ hr₀).2, fun a ha => ?_⟩
    rw [hagree.nextId]
    exact hin.queued r₀ hr₀ a ha

/-- A step of the worker that touches neither the file nor the live state. -/
theorem worker_step (h : Durable base ran s) {worker : Worker} {history : History}
    (hlog : history.log = s.history.log) (hsucceeded : history.succeeded = s.history.succeeded)
    (hbusy : s.worker ≠ .idle)
    (hfresh : ∀ g attempt, worker = .looping g attempt none → attempt = 0)
    (hsound : worker.Sound → s.worker.Sound ∧ ∀ s' : State, s'.worker = worker →
      s'.group = s.group ∧ s'.unwritten = s.unwritten) :
    Durable base ran { s with worker := worker, history := history } where
  disk := by
    simp only [hlog]
    exact h.disk
  admitted := h.admitted
  halted := fun hf => absurd (h.halted hf).1 hbusy
  fresh := hfresh
  busy := fun hw => absurd (h.busy hw) hbusy
  inStep := fun hh => by
    obtain ⟨hs, hsame⟩ := hsound hh.2
    obtain ⟨hg, hu⟩ := hsame { s with worker := worker, history := history } rfl
    have hin := h.inStep ⟨hh.1, hs⟩
    refine ⟨?_, hin.below, hin.queued, ?_, ?_⟩
    · rw [hu]
      simp only [hlog]
      exact hin.agree
    · rw [hu]
      simp only [hlog]
      exact hin.ahead
    · rw [hg, hu]
      exact hin.written
  done := h.done
  removing := h.removing
  succeeded := by
    simp only [hsucceeded]
    exact h.succeeded

theorem step_loopHead (h : Durable base ran s) (hs : loopHead s = some s') : Durable base ran s' := by
  obtain ⟨g, attempt, failure, hw, ⟨rfl, -, rfl⟩ | ⟨hno, rfl⟩⟩ := loopHead_cases hs
  · have hattempt := h.fresh g attempt hw
    exact h.worker_step rfl rfl (by simp [hw]) (by simp) fun _ =>
      ⟨by rw [hw]; exact ⟨hattempt, rfl⟩, fun s' hs' => by simp [State.group, State.unwritten, hs', hw]⟩
  · refine h.worker_step rfl rfl (by simp [hw]) (by simp) fun hsound => ?_
    -- without a failure this is the first attempt
    obtain rfl : failure = none := hsound
    exact absurd ⟨rfl, by rw [h.fresh g attempt hw]; decide⟩ hno

/-- The next record reached the file whole. -/
theorem append_next (h : Durable base ran s) (hclean : s.CleanFile) {g : Group} {attempt : ℕ} {r : Request}
    {todo : List Request} (hw : s.worker = .writing g attempt (r :: todo)) (logged : List ℕ) :
    Durable base (ran ++ [r.record]) { s with
      worker := .writing g attempt todo
      file := s.file ++ r.record.encode
      history := { s.history with log := s.history.log ++ [r.record], logged := logged } } := by
  have hf : s.failed = false := h.not_failed (Or.inl (by simp [hw]))
  have hin := h.inStep ⟨hf, by rw [hw]; trivial⟩
  have hunwritten : s.unwritten = r :: todo := State.unwritten_of_writing hw
  have hgroup : s.group = g.batch := by simp [State.group, hw]
  have hagree := hin.agree
  have hahead := hin.ahead
  have hwritten := hin.written
  rw [hunwritten] at hagree hahead hwritten
  rw [hgroup] at hwritten
  obtain ⟨hread, hacks⟩ := hahead r (by simp)
  refine ⟨h.disk.append hclean hread (Or.inr hin.below), h.admitted, ?_, by simp, ?_,
    fun _ => ⟨?_, ?_, hin.queued, ?_, ?_⟩, ?_, ?_, ?_⟩
  · intro hf'
    rw [show s.failed = true from hf'] at hf
    cases hf
  · intro hw'
    have := h.busy hw'
    rw [hw] at this
    cases this
  · change Agree s.live (Live.init.replayAll (s.history.log ++ [r.record] ++ todo.map Request.record))
    rw [List.append_assoc]
    exact hagree
  · refine hin.below.concat fun a ha => ?_
    rw [← Live.replayAll_append, ← h.disk.log_eq]
    exact hacks a (Request.mem_acks.mpr ha)
  · intro r' hr'
    obtain ⟨hread', hacks'⟩ := hahead r' (List.mem_cons_of_mem _ hr')
    refine ⟨hread', fun a ha => (hacks' a ha).trans_le ?_⟩
    rw [Live.replayAll_append]
    exact Live.nextId_le_replay _ _
  · intro r' hr'
    rcases hwritten r' hr' with hr' | hr'
    · rcases List.mem_cons.mp hr' with rfl | hr'
      · exact Or.inr (by simp)
      · exact Or.inl hr'
    · exact Or.inr (List.mem_append_left _ hr')
  · exact fun r' hr' => List.mem_append_left _ (h.done r' hr')
  · exact fun r' hr' => List.mem_append_left _ (h.removing r' hr')
  · exact fun r' hr' => List.mem_append_left _ (h.succeeded r' hr')

/-- After a write or sync that failed, the worker only has to settle the group. -/
theorem fail (h : Durable base ran s) {g : Group} {attempt : ℕ} {e : Err} (hw : s.worker ≠ .idle) :
    Durable base ran { s with worker := .looping g attempt (some e) } :=
  h.worker_step rfl rfl hw (by simp) fun hsound => nomatch hsound.2

theorem step_writeNext (h : Durable base ran s) (hclean : s.CleanFile) {outcome : WriteOutcome}
    (hs : writeNext s outcome = some s') : ∃ ran', Durable base ran' s' := by
  obtain ⟨g, attempt, r, todo, hw, hcases⟩ := writeNext_cases hs
  have hf : s.failed = false := h.not_failed (Or.inl (by simp [hw]))
  have hread : r.record.Readable :=
    ((h.inStep ⟨hf, by rw [hw]; trivial⟩).ahead r (by simp [State.unwritten, hw])).1
  rcases hcases with ⟨e, he, -⟩ | ⟨-, -, rfl⟩ | ⟨-, k, rfl, rfl⟩
  · rw [hread.write] at he
    cases he
  · exact ⟨_, h.append_next hclean hw _⟩
  · rcases s.appendRecord_cases r.record (.failed k) with heq | ⟨k', hk, hout, heq⟩
    · -- the write failed after the last byte
      rw [heq, State.appendRecord_done]
      exact ⟨_, (h.append_next hclean hw s.history.logged).fail (by simp)⟩
    · rw [heq]
      have htorn : Durable base ran { s with file := s.file ++ r.record.encode.take k' } :=
        { h with
          disk := h.disk.torn hclean hread hk
          inStep := fun hh => { h.inStep hh with } }
      exact ⟨ran, htorn.fail (by simp [hw])⟩

theorem step_syncFile (h : Durable base ran s) {ok : Bool} (hs : syncFile s ok = some s') :
    Durable base ran s' := by
  obtain ⟨g, attempt, hw, ⟨-, rfl⟩ | ⟨-, rfl⟩⟩ := syncFile_cases hs
  · exact h.worker_step rfl rfl (by simp [hw]) (by simp) fun _ =>
      ⟨by rw [hw]; trivial, fun s' hs' => by simp [State.group, State.unwritten, hs', hw]⟩
  · exact h.fail (by simp [hw])

theorem step_settle (h : Durable base ran s) (hs : settle s = some s') : Durable base ran s' := by
  obtain ⟨g, failure, hw, rfl⟩ := settle_cases hs
  have hbusy : s.worker ≠ .idle := by simp [hw]
  cases failure with
  | none => exact h.worker_step rfl rfl hbusy (by simp) fun _ =>
      ⟨by rw [hw]; rfl, fun s' hs' => by simp [State.group, State.unwritten, hs', hw]⟩
  | some e =>
    refine { h with
      halted := fun hf => absurd (h.halted hf).1 hbusy
      fresh := by simp
      busy := fun hwr => absurd (h.busy hwr) hbusy
      inStep := fun hh => nomatch hh.2 }

/-- A group that ends well is in the log. -/
theorem step_finish (h : Durable base ran s) (hs : finish s = some s') : Durable base ran s' := by
  obtain ⟨g, failure, hw, ⟨rfl, rfl⟩ | ⟨e, rfl, rfl⟩⟩ := finish_cases hs
  · have hf : s.failed = false := h.not_failed (Or.inl (by simp [hw]))
    have hin := h.inStep ⟨hf, by rw [hw]; rfl⟩
    have hunwritten : s.unwritten = [] := State.unwritten_of_finishing hw
    refine { h with
      halted := fun hf' => ?_
      fresh := by simp
      busy := fun _ => rfl
      inStep := fun _ => ⟨?_, hin.below, hin.queued, by simp [State.unwritten], by simp [State.group]⟩
      done := fun r hr => ?_ }
    · rw [show s.failed = true from hf'] at hf
      cases hf
    · have hagree := hin.agree
      rw [hunwritten] at hagree
      exact hagree
    · rcases List.mem_append.mp hr with hr | hr
      · exact h.done r hr
      · obtain ⟨r', hr', heq⟩ := List.mem_map.mp hr
        obtain ⟨rfl, -⟩ := Prod.mk.inj heq
        have hmem : r' ∈ s.group := by simpa [State.group, hw] using (List.mem_filter.mp hr').1
        rcases hin.written r' hmem with hr' | hr'
        · rw [hunwritten] at hr'
          cases hr'
        · exact hr'
  · refine { h with
      admitted := by simp
      halted := fun _ => ⟨rfl, rfl⟩
      fresh := by simp
      busy := fun _ => rfl
      inStep := fun hh => nomatch hh.1
      done := fun r hr => h.done r ?_ }
    simpa using hr

theorem step_wake (h : Durable base ran s) {i : ℕ} (hs : wake s i = some s') : Durable base ran s' := by
  obtain ⟨request, err, l₁, l₂, hl, hcases⟩ := wake_cases hs
  have hdone : ∀ r, (r, none) ∈ l₁ ++ l₂ → r.record ∈ ran := fun r hr => h.done r (by
    rw [hl]
    exact List.mem_append.mpr ((List.mem_append.mp hr).imp id (List.mem_cons_of_mem _)))
  rcases hcases with ⟨-, rfl⟩ | ⟨rfl, -, rfl⟩ | ⟨rfl, -, rfl⟩
  · exact { h with inStep := fun hh => { h.inStep hh with }, done := hdone }
  · refine { h with inStep := fun hh => { h.inStep hh with }, done := hdone, removing := fun r hr => ?_ }
    rcases List.mem_append.mp hr with hr | hr
    · exact h.removing r hr
    · exact List.mem_singleton.mp hr ▸ h.done request (by simp [hl])
  · refine { h with inStep := fun hh => { h.inStep hh with }, done := hdone, succeeded := fun r hr => ?_ }
    rcases List.mem_append.mp hr with hr | hr
    · exact h.succeeded r hr
    · exact List.mem_singleton.mp hr ▸ h.done request (by simp [hl])

theorem step_finishFlush (h : Durable base ran s) {i : ℕ} (hs : finishFlush s i = some s') :
    Durable base ran s' := by
  obtain ⟨request, l₁, l₂, hl, rfl⟩ := finishFlush_cases hs
  refine { h with
    inStep := fun hh => { h.inStep hh with
      agree := ⟨(h.inStep hh).agree.facts, (h.inStep hh).agree.nextId⟩ }
    removing := fun r hr => h.removing r ?_
    succeeded := fun r hr => ?_ }
  · rw [hl]
    exact List.mem_append.mpr ((List.mem_append.mp hr).imp id (List.mem_cons_of_mem _))
  · rcases List.mem_append.mp hr with hr | hr
    · exact h.succeeded r hr
    · exact List.mem_singleton.mp hr ▸ h.removing request (by simp [hl])

/-- **Every step keeps the invariant**, with the records it appended. -/
theorem step {l : Label} (h : Durable base ran s) (hP : CleanIo s l) (hs : wal.step s l = some s') :
    ∃ ran', Durable base ran' s' := by
  cases l with
  | enqueueBatch ms durability fault =>
    obtain ⟨rfl, rfl, hread⟩ := hP
    exact ⟨ran, h.step_enqueueBatch hread hs⟩
  | flushCascade ms ackId durability fault =>
    obtain ⟨rfl, rfl, hread, hid⟩ := hP
    exact ⟨ran, h.step_flushCascade hread hid hs⟩
  | ack id outcome synced => exact h.step_ack hP.1 hP.2 hs
  | nextPendingFor namespaceId =>
    obtain rfl := Option.some.inj hs
    exact ⟨ran, h.step_takePending namespaceId⟩
  | wake i => exact ⟨ran, h.step_wake hs⟩
  | finishFlush i => exact ⟨ran, h.step_finishFlush hs⟩
  | takeQueue fault =>
    obtain rfl : fault = none := hP
    exact ⟨ran, h.step_takeQueue hs⟩
  | loopHead => exact ⟨ran, h.step_loopHead hs⟩
  | writeNext outcome => exact h.step_writeNext hP hs
  | syncFile ok => exact ⟨ran, h.step_syncFile hs⟩
  | settle => exact ⟨ran, h.step_settle hs⟩
  | finish => exact ⟨ran, h.step_finish hs⟩

theorem reaches (hbase : ∀ r ∈ base, r.Readable) (h : wal.Reaches CleanIo (State.opened base) s) :
    ∃ ran, Durable base ran s := by
  induction h with
  | refl => exact ⟨[], opened hbase⟩
  | step _ hP hs ih =>
    obtain ⟨ran, hI⟩ := ih
    exact hI.step hP hs

end Durable

/-! ## What a success is worth -/

/-- **Strict successes are durable as long as nothing is written behind a part of a record**: in every
state of such a run, whatever writes and syncs failed, the file recovers, and the recovered state holds the
effect of every call that returned success. -/
theorem strict_durable (base : List Record) (s : State) (hbase : ∀ r ∈ base, r.Readable)
    (h : wal.Reaches CleanIo (State.opened base) s) :
    ∃ live file, recover Live.init s.file = .ok (live, file) ∧ ∀ r ∈ s.history.succeeded, r.Holds live := by
  obtain ⟨ran, hd⟩ := Durable.reaches hbase h
  obtain ⟨live, file, hrec, hholds⟩ := hd.disk.recovers
  exact ⟨live, file, hrec, fun r hr => hholds r (hd.succeeded r hr)⟩

/-- One group, from the queue to its callers. -/
def commitGroup : List Label :=
  [.takeQueue none, .loopHead, .writeNext .done, .syncFile true, .settle, .finish, .wake 0]

def firstBatch : List FactMutation := [⟨[110], 1, 2, [49], ⟨5, 0, 1⟩, ⟨0, 0, []⟩⟩]

def secondBatch : List FactMutation := [⟨[110], 1, 3, [50], ⟨6, 0, 1⟩, ⟨0, 0, []⟩⟩]

/-- A batch commits; an acknowledgement is written but not synced; the write of the next batch stops after
three bytes. -/
def faultyRun : List Label :=
  [.enqueueBatch firstBatch .strict none] ++ commitGroup ++
    [.nextPendingFor (some [110]), .ack 1 .done false, .enqueueBatch secondBatch .strict none, .takeQueue none,
      .loopHead, .writeNext (.failed 3), .loopHead, .settle, .finish, .wake 0]

theorem strict_durable_faulty :
    ∃ s, wal.runAllowed CleanIo (State.opened []) faultyRun = some s ∧
      s.history.succeeded = [.batch firstBatch] ∧
      ∃ live file, recover Live.init s.file = .ok (live, file) ∧
        ∀ r ∈ s.history.succeeded, r.Holds live := by
  have hrun : (wal.runAllowed CleanIo (State.opened []) faultyRun).isSome := by decide +kernel
  obtain ⟨s, hs⟩ := Option.isSome_iff_exists.mp hrun
  have hsucceeded : (wal.runAllowed CleanIo (State.opened []) faultyRun).map
      (fun s => s.history.succeeded) = some [.batch firstBatch] := by decide +kernel
  rw [hs] at hsucceeded
  exact ⟨s, hs, Option.some.inj hsucceeded,
    strict_durable [] s (by simp) (Machine.reaches_of_runAllowed hs)⟩

/-- An acknowledgement stops after three bytes; the batch behind it commits all the same. -/
def overwrittenRun : List Label :=
  [.enqueueBatch firstBatch .strict none] ++ commitGroup ++
    [.nextPendingFor (some [110]), .ack 1 (.failed 3) false, .enqueueBatch secondBatch .strict none] ++ commitGroup

/-- Both batches returned success, and nothing can be recovered. -/
theorem corrupt_after_failed_ack :
    ∃ s, wal.Reaches StrictIo (State.opened []) s ∧
      s.history.succeeded = [.batch firstBatch, .batch secondBatch] ∧
      recover Live.init s.file = .error .corruptWal := by
  have hrun : (wal.runAllowed StrictIo (State.opened []) overwrittenRun).isSome := by decide
  obtain ⟨s, hs⟩ := Option.isSome_iff_exists.mp hrun
  have hend : (wal.runAllowed StrictIo (State.opened []) overwrittenRun).map (fun s =>
      (s.history.succeeded, match recover Live.init s.file with | .ok _ => none | .error e => some e)) =
        some ([.batch firstBatch, .batch secondBatch], some .corruptWal) := by decide +kernel
  rw [hs] at hend
  simp only [Option.map_some, Option.some.injEq, Prod.mk.injEq] at hend
  refine ⟨s, Machine.reaches_of_runAllowed hs, hend.1, ?_⟩
  cases hrec : recover Live.init s.file with
  | ok p =>
    rw [hrec] at hend
    cases hend.2
  | error e =>
    rw [hrec] at hend
    exact congrArg _ (Option.some.inj hend.2)

end Slung.Wal
