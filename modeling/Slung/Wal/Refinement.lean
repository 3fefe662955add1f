import Slung.Wal.Simulation

/-!
# Slung.Wal.Refinement — the log refines the live state

Runs with one fixed durability in which nothing fails.  The journal of a state is its log followed by what
is published and not yet written: the rest of the worker's group, and in eventual mode the queue.  `Tracks`
is the invariant: the live state is what the journal replays to, up to the entries that returning callers
still owe (`Sim`).  Once the queue is drained and all calls have returned, the journal is the log and
nothing is owed (`recovered_eq_live`).
-/

namespace Slung.Wal

open Slung.Lib

/-! ## Runs with one durability and no failure -/

/-- Limits that a run puts on its records: the writer takes them, and acknowledgements are among them. -/
structure Limits (fits : Record → Prop) : Prop where
  writable : ∀ r, fits r → r.Writable
  ack : ∀ id, fits (.ack id)

theorem limits_readable : Limits Record.Readable := ⟨fun _ h => h.writable, readable_ack⟩

/-- The labels of a run in which all calls use durability `d`, ids come from `nextPendingFor`, records are
within the limits and nothing fails. -/
def Uniform (fits : Record → Prop) (d : Durability) (s : State) : Label → Prop
  | .enqueueBatch ms durability fault => durability = d ∧ fault = none ∧ fits (.batch ms)
  | .flushCascade ms ackId durability fault =>
    durability = d ∧ fault = none ∧ fits (.cascade ackId ms) ∧ ackId.toInt ∈ s.history.issued
  | .ack id outcome synced => outcome = .done ∧ synced = true ∧ id.toInt ∈ s.history.issued
  | .takeQueue fault => fault = none
  | .writeNext outcome => outcome = .done
  | .syncFile ok => ok = true
  | _ => True

instance (fits : Record → Prop) [DecidablePred fits] (d : Durability) (s : State) :
    ∀ l, Decidable (Uniform fits d s l)
  | .enqueueBatch .. | .flushCascade .. | .ack .. => inferInstanceAs (Decidable (_ ∧ _))
  | .takeQueue .. | .writeNext .. | .syncFile .. => inferInstanceAs (Decidable (_ = _))
  | .nextPendingFor .. | .wake .. | .finishFlush .. | .loopHead | .settle | .finish => inferInstanceAs (Decidable True)

namespace State

/-- The published records, written or not. -/
def journal (d : Durability) (s : State) : List Record :=
  s.history.log ++ (s.unwritten ++ if d = .eventual then s.requests else []).map Request.record

/-- The acknowledged ids that returning callers have still to take out of the pending list. -/
def owed (s : State) : List ℤ :=
  (s.group.filter (·.callerWaits) ++ s.finished.map Prod.fst ++ s.removing).flatMap Request.acks

end State

/-- The invariant of runs with durability `d` and no failure. -/
structure Tracks (fits : Record → Prop) (d : Durability) (s : State) : Prop where
  limits : Limits fits
  sim : Sim s.owed s.live (Live.init.replayAll (s.journal d))
  mode : ∀ r ∈ s.requests ++ s.group,
    r.callerWaits = decide (d = .strict) ∧ r.applyAfterWrite = decide (d = .strict)
  file : s.file = logOf s.history.log
  logged : ∀ r ∈ s.history.log, fits r
  fitting : ∀ r ∈ s.requests ++ s.group, fits r.record
  unwritten : ∀ r ∈ s.unwritten, r ∈ s.group
  queued : ∀ r ∈ s.requests, ∀ a ∈ r.acks, a < s.live.nextId
  issued : ∀ a ∈ s.history.issued, a < s.live.nextId
  done : ∀ p ∈ s.finished, p.2 = none
  removing : ∀ r ∈ s.removing, r.recordKind = recordCascade
  busy : s.writing = false → s.worker = .idle
  healthy : s.failed = false ∧ s.worker.Sound

namespace Tracks

variable {fits : Record → Prop} {d : Durability} {s s' : State}

theorem opened (hl : Limits fits) {rs : List Record} (h : ∀ r ∈ rs, fits r) :
    Tracks fits d (State.opened rs) where
  limits := hl
  sim := by
    have hj : (State.opened rs).journal d = rs := by
      unfold State.journal
      split_ifs <;> simp [State.opened, State.unwritten]
    rw [hj]
    exact Sim.refl (Live.pendingOk_init.replayAll rs)
  mode := by simp [State.opened, State.group]
  file := rfl
  logged := h
  fitting := by simp [State.opened, State.group]
  unwritten := by simp [State.opened, State.unwritten]
  queued := by simp [State.opened]
  issued := by simp [State.opened]
  done := by simp [State.opened]
  removing := by simp [State.opened]
  busy := fun _ => rfl
  healthy := ⟨rfl, trivial⟩

/-- A request that joins the queue, before it is published. -/
theorem push_strict (h : Tracks fits .strict s) (request : Request)
    (hmode : request.callerWaits = true ∧ request.applyAfterWrite = true)
    (hread : fits request.record) (hacks : ∀ a ∈ request.acks, a < s.live.nextId) :
    Tracks fits .strict (s.push request) where
  limits := h.limits
  sim := h.sim
  mode := by
    intro r hr
    simp only [State.push, List.mem_append, List.mem_singleton] at hr
    rcases hr with (hr | rfl) | hr
    · exact h.mode r (List.mem_append_left _ hr)
    · exact hmode
    · exact h.mode r (List.mem_append_right _ hr)
  file := h.file
  logged := h.logged
  fitting := by
    intro r hr
    simp only [State.push, List.mem_append, List.mem_singleton] at hr
    rcases hr with (hr | rfl) | hr
    · exact h.fitting r (List.mem_append_left _ hr)
    · exact hread
    · exact h.fitting r (List.mem_append_right _ hr)
  unwritten := h.unwritten
  queued := by
    intro r hr
    rcases List.mem_append.mp hr with hr | hr
    · exact h.queued r hr
    · exact List.mem_singleton.mp hr ▸ hacks
  issued := h.issued
  done := h.done
  removing := h.removing
  busy := h.busy
  healthy := h.healthy

/-- A request that joins the queue and is published at once. -/
theorem push_eventual (h : Tracks fits .eventual s) (request : Request) (history : History)
    (hmode : request.callerWaits = false ∧ request.applyAfterWrite = false)
    (hread : fits request.record) (hacks : ∀ a ∈ request.acks, a < s.live.nextId)
    (hlog : history.log = s.history.log) (hissued : history.issued = s.history.issued) :
    Tracks fits .eventual { (s.push request) with
      live := request.acks.foldl removePending (s.live.publish request), history := history } := by
  have hnext : ∀ (l : List ℤ) (live : Live), (l.foldl removePending live).nextId = live.nextId := by
    intro l
    induction l with
    | nil => exact fun _ => rfl
    | cons a l ih => exact fun live => ih _
  have hle : s.live.nextId ≤ (request.acks.foldl removePending (s.live.publish request)).nextId := by
    rw [hnext]
    exact Sim.nextId_le_publish _ _
  refine ⟨h.limits, ?_, ?_, ?_, ?_, ?_, h.unwritten, ?_, ?_, h.done, h.removing, h.busy, h.healthy⟩
  · have hsim := h.sim.replay_eventual request
    have hj : State.journal .eventual { (s.push request) with
        live := request.acks.foldl removePending (s.live.publish request), history := history } =
        s.journal .eventual ++ [request.record] := by
      unfold State.journal
      simp only [hlog]
      simp [State.push, State.unwritten]
    rw [hj, Live.replayAll_append]
    exact hsim
  · intro r hr
    simp only [State.push, List.mem_append, List.mem_singleton] at hr
    rcases hr with (hr | rfl) | hr
    · exact h.mode r (List.mem_append_left _ hr)
    · exact hmode
    · exact h.mode r (List.mem_append_right _ hr)
  · simp only [hlog]
    exact h.file
  · simp only [hlog]
    exact h.logged
  · intro r hr
    simp only [State.push, List.mem_append, List.mem_singleton] at hr
    rcases hr with (hr | rfl) | hr
    · exact h.fitting r (List.mem_append_left _ hr)
    · exact hread
    · exact h.fitting r (List.mem_append_right _ hr)
  · intro r hr a ha
    refine lt_of_lt_of_le ?_ hle
    rcases List.mem_append.mp hr with hr | hr
    · exact h.queued r hr a ha
    · exact hacks a (List.mem_singleton.mp hr ▸ ha)
  · intro a ha
    rw [hissued] at ha
    exact (h.issued a ha).trans_le hle

theorem step_enqueueBatch (h : Tracks fits d s) {ms : List FactMutation} (hread : fits (.batch ms))
    (hs : enqueueBatch s ms d none = some s') : Tracks fits d s' := by
  unfold enqueueBatch at hs
  by_cases hms : ms = []
  · rw [if_pos hms] at hs
    exact Option.some.inj hs ▸ h
  rw [if_neg hms] at hs
  rcases admission_cases hs with rfl | ⟨-, rfl⟩
  · exact h
  cases d with
  | strict => exact h.push_strict _ ⟨rfl, rfl⟩ hread (by simp)
  | eventual =>
    obtain ⟨accepted, hp⟩ := publishNow_none s (newRequest s recordBatch ms 0 .eventual)
      (fun live => rollbackPending live s.live.pending.length s.live.nextId) id
    simp only [hp]
    exact h.push_eventual { newRequest s recordBatch ms 0 .eventual with accepted := accepted } _
      ⟨rfl, rfl⟩ hread (by simp [Request.acks, newRequest, recordBatch, recordCascade]) rfl rfl

theorem step_flushCascade (h : Tracks fits d s) {ms : List FactMutation} {ackId : Int64}
    (hread : fits (.cascade ackId ms)) (hid : ackId.toInt ∈ s.history.issued)
    (hs : flushCascade s ms ackId d none = some s') : Tracks fits d s' := by
  have hacks : ∀ a ∈ [ackId.toInt], a < s.live.nextId := by
    intro a ha
    exact h.issued a (List.mem_singleton.mp ha ▸ hid)
  unfold flushCascade at hs
  rcases admission_cases hs with rfl | ⟨-, rfl⟩
  · exact h
  cases d with
  | strict => exact h.push_strict _ ⟨rfl, rfl⟩ hread hacks
  | eventual =>
    obtain ⟨accepted, hp⟩ := publishNow_none s (newRequest s recordCascade ms ackId .eventual) id
      fun live => removePending live ackId.toInt
    simp only [hp]
    exact h.push_eventual { newRequest s recordCascade ms ackId .eventual with accepted := accepted } _
      ⟨rfl, rfl⟩ hread hacks rfl rfl

/-- Both the log and the pending list lose the acknowledged entry. -/
theorem step_ack (h : Tracks fits d s) {id : Int64} (hs : ack s id .done true = some s') : Tracks fits d s' := by
  obtain ⟨hw, hq, rfl⟩ := ack_cases hs
  have hunwritten : s.unwritten = [] := State.unwritten_of_idle (h.busy hw)
  have hj : s.journal d = s.history.log := by simp [State.journal, hunwritten, hq]
  rw [if_pos ⟨rfl, rfl⟩, State.appendRecord_done]
  refine ⟨h.limits, ?_, h.mode, ?_, ?_, h.fitting, h.unwritten, h.queued, h.issued, h.done, h.removing,
    h.busy, h.healthy⟩
  · have hsim := h.sim.removePending id.toInt
    rw [hj] at hsim
    have hj' : s.history.log ++ [Record.ack id] ++
        (s.unwritten ++ if d = .eventual then s.requests else []).map Request.record =
          s.history.log ++ [Record.ack id] := by simp [hunwritten, hq]
    change Sim s.owed (removePending s.live id.toInt) (Live.init.replayAll (s.history.log ++
      [Record.ack id] ++ (s.unwritten ++ if d = .eventual then s.requests else []).map Request.record))
    rw [hj', Live.replayAll_append]
    exact hsim
  · simp only [State.acked, logOf_concat, h.file]
  · intro r hr
    rcases List.mem_append.mp hr with hr | hr
    · exact h.logged r hr
    · exact List.mem_singleton.mp hr ▸ h.limits.ack id

theorem step_takePending (h : Tracks fits d s) (namespaceId : Option NamespaceId) :
    Tracks fits d (takePending s namespaceId) := by
  rcases takePending_cases s namespaceId with hs | ⟨item, hmem, hs⟩
  · rw [hs]
    exact h
  · rw [hs]
    refine { h with issued := fun a ha => ?_ }
    rcases List.mem_append.mp ha with ha | ha
    · exact h.issued a ha
    · exact List.mem_singleton.mp ha ▸ h.sim.ok.below item hmem

/-- Taking the queue publishes the strict requests, and moves the eventual ones, published before, from
the queue to the group. -/
theorem step_takeQueue (h : Tracks fits d s) (hs : takeQueue s none = some s') : Tracks fits d s' := by
  obtain ⟨hidle, -, rfl⟩ := takeQueue_none hs
  have hmem : ∀ r ∈ (publishRequests none ⟨s.live, [], none⟩ s.requests).2,
      ∃ r₀ ∈ s.requests, ∃ accepted, r = { r₀ with accepted := accepted } :=
    fun r hr => publishRequests_mem hr
  have hrecords := publishRequests_map none Request.record (fun _ _ => rfl) ⟨s.live, [], none⟩ s.requests
  have hacks := publishRequests_map none Request.acks (fun _ _ => rfl) ⟨s.live, [], none⟩ s.requests
  have hgroup : s.group = [] := by simp [State.group, hidle]
  have hunwritten : s.unwritten = [] := State.unwritten_of_idle hidle
  have hmode : ∀ r ∈ s.requests,
      r.callerWaits = decide (d = .strict) ∧ r.applyAfterWrite = decide (d = .strict) :=
    fun r hr => h.mode r (List.mem_append_left _ hr)
  have hsim := h.sim
  have hstrict : d = .strict → s.live.putAll (strictMutations s.requests) =
      s.requests.foldl Live.publish s.live := fun hd =>
    putAll_strictMutations _ fun r hr => by simp [(hmode r hr).2, hd]
  have heventual : d = .eventual → s.live.putAll (strictMutations s.requests) = s.live := by
    intro hd
    rw [strictMutations_eventual fun r hr => by simp [(hmode r hr).2, hd]]
    rfl
  have hle : s.live.nextId ≤ (s.live.putAll (strictMutations s.requests)).nextId := by
    cases d with
    | strict => rw [hstrict rfl]; exact Sim.nextId_le_foldl_publish _ _
    | eventual => rw [heventual rfl]
  generalize (publishRequests none ⟨s.live, [], none⟩ s.requests).2 = batch at hmem hrecords hacks
  have hbatch : ∀ r ∈ batch,
      r.callerWaits = decide (d = .strict) ∧ r.applyAfterWrite = decide (d = .strict) := by
    intro r hr
    obtain ⟨r₀, hr₀, accepted, rfl⟩ := hmem r hr
    exact hmode r₀ hr₀
  refine ⟨h.limits, ?_, ?_, h.file, h.logged, ?_, fun r hr => hr, ?_, ?_, h.done, h.removing, ?_,
    h.healthy.1, rfl, rfl⟩
  · change Sim ((batch.filter (·.callerWaits) ++ s.finished.map Prod.fst ++ s.removing).flatMap Request.acks)
      (s.live.putAll (strictMutations s.requests)) (Live.init.replayAll (s.history.log ++
        (batch ++ if d = Durability.eventual then [] else []).map Request.record))
    rw [ite_self, List.append_nil, hrecords]
    unfold State.journal at hsim
    rw [hunwritten, List.nil_append] at hsim
    unfold State.owed at hsim
    rw [hgroup, List.filter_nil, List.nil_append] at hsim
    cases d with
    | strict =>
      rw [if_neg (by decide), List.map_nil, List.append_nil] at hsim
      have hfilter : batch.filter (·.callerWaits) = batch :=
        List.filter_eq_self.mpr fun r hr => by simp [(hbatch r hr).1]
      have hflat : batch.flatMap Request.acks = s.requests.flatMap Request.acks := by
        rw [List.flatMap_def, List.flatMap_def, hacks]
      rw [hstrict rfl, Live.replayAll_append, hfilter, List.append_assoc, List.flatMap_append, hflat]
      exact hsim.replayAll_strict h.queued
    | eventual =>
      rw [if_pos rfl] at hsim
      have hfilter : batch.filter (·.callerWaits) = [] :=
        List.filter_eq_nil_iff.mpr fun r hr => by simp [(hbatch r hr).1]
      rw [heventual rfl, hfilter]
      exact hsim
  · exact hbatch
  · intro r hr
    obtain ⟨r₀, hr₀, accepted, rfl⟩ := hmem r hr
    exact h.fitting r₀ (List.mem_append_left _ hr₀)
  · simp
  · exact fun a ha => (h.issued a ha).trans_le hle
  · intro hw
    cases hw

/-- A step of the worker that changes neither the live state nor what the callers wait for keeps the
invariant if it keeps the journal. -/
theorem worker_step (h : Tracks fits d s) {worker : Worker} {file : Bytes} {history : History}
    (hgroup : ∀ s' : State, s'.worker = worker → s'.group = s.group)
    (hunwritten : ∀ s' : State, s'.worker = worker → ∀ r ∈ s'.unwritten, r ∈ s.unwritten)
    (hjournal : ∀ s' : State, s'.worker = worker → s'.requests = s.requests → s'.history = history →
      s'.journal d = s.journal d)
    (hfile : file = logOf history.log) (hlogged : ∀ r ∈ history.log, fits r)
    (hissued : history.issued = s.history.issued) (hidle : s.worker ≠ .idle) (hsound : worker.Sound) :
    Tracks fits d { s with worker := worker, file := file, history := history } := by
  have hg := hgroup { s with worker := worker, file := file, history := history } rfl
  have hu := hunwritten { s with worker := worker, file := file, history := history } rfl
  have hj := hjournal { s with worker := worker, file := file, history := history } rfl rfl rfl
  refine ⟨h.limits, ?_, ?_, hfile, hlogged, ?_, ?_, h.queued, ?_, h.done, h.removing, ?_, h.healthy.1,
    hsound⟩
  · unfold State.owed
    rw [hg, hj]
    exact h.sim
  · rw [hg]
    exact h.mode
  · rw [hg]
    exact h.fitting
  · intro r hr
    rw [hg]
    exact h.unwritten r (hu r hr)
  · intro a ha
    exact h.issued a (hissued ▸ ha)
  · exact fun hwr => absurd (h.busy hwr) hidle

theorem step_loopHead (h : Tracks fits d s) (hs : loopHead s = some s') : Tracks fits d s' := by
  obtain ⟨g, attempt, failure, hw, ⟨-, -, rfl⟩ | ⟨hno, -⟩⟩ := loopHead_cases hs
  · exact h.worker_step (fun s' hs' => by simp [State.group, hs', hw])
      (fun s' hs' => by simp [State.unwritten, hs', hw])
      (fun s' hs' hr hh => by simp [State.journal, State.unwritten, hs', hr, hh, hw])
      h.file h.logged rfl (by simp [hw]) trivial
  · have hsound := h.healthy.2
    rw [hw] at hsound
    exact absurd ⟨hsound.2, by rw [hsound.1]; decide⟩ hno

/-- A written record moves from the rest of the group to the log: the journal stays. -/
theorem step_writeNext (h : Tracks fits d s) (hs : writeNext s .done = some s') : Tracks fits d s' := by
  obtain ⟨g, attempt, r, todo, hw, hcases⟩ := writeNext_cases hs
  have hunwritten : s.unwritten = r :: todo := State.unwritten_of_writing hw
  have hr : r ∈ s.group := h.unwritten r (by simp [hunwritten])
  have hfits : fits r.record := h.fitting r (List.mem_append_right _ hr)
  rcases hcases with ⟨e, he, -⟩ | ⟨-, -, rfl⟩ | ⟨-, k, hk, -⟩
  · rw [(r.record.write_ok_iff _).mpr ⟨h.limits.writable _ hfits, rfl⟩] at he
    cases he
  · refine h.worker_step (fun s' hs' => by simp [State.group, hs', hw]) (fun s' hs' r' hr' => ?_)
      (fun s' hs' hr hh => by simp [State.journal, State.unwritten, hs', hr, hh, hw])
      (by simp only [logOf_concat, h.file]) ?_ rfl (by simp [hw]) trivial
    · have hr'' : r' ∈ todo := by simpa [State.unwritten, hs'] using hr'
      rw [hunwritten]
      exact List.mem_cons_of_mem _ hr''
    · intro r' hr'
      rcases List.mem_append.mp hr' with hr' | hr'
      · exact h.logged r' hr'
      · exact List.mem_singleton.mp hr' ▸ hfits
  · cases hk

theorem step_syncFile (h : Tracks fits d s) (hs : syncFile s true = some s') : Tracks fits d s' := by
  obtain ⟨g, attempt, hw, ⟨-, rfl⟩ | ⟨hno, -⟩⟩ := syncFile_cases hs
  · exact h.worker_step (fun s' hs' => by simp [State.group, hs', hw])
      (fun s' hs' => by simp [State.unwritten, hs'])
      (fun s' hs' hr hh => by simp [State.journal, State.unwritten, hs', hr, hh, hw])
      h.file h.logged rfl (by simp [hw]) rfl
  · cases hno

theorem step_settle (h : Tracks fits d s) (hs : settle s = some s') : Tracks fits d s' := by
  obtain ⟨g, failure, hw, rfl⟩ := settle_cases hs
  have hsound := h.healthy.2
  rw [hw] at hsound
  obtain rfl : failure = none := hsound
  exact h.worker_step (fun s' hs' => by simp [State.group, hs', hw])
    (fun s' hs' => by simp [State.unwritten, hs'])
    (fun s' hs' hr hh => by simp [State.journal, State.unwritten, hs', hr, hh, hw])
    h.file h.logged rfl (by simp [hw]) rfl

/-- The strict requests of the group go to their callers, and still owe what they owed. -/
theorem step_finish (h : Tracks fits d s) (hs : finish s = some s') : Tracks fits d s' := by
  obtain ⟨g, failure, hw, hcases⟩ := finish_cases hs
  have hsound := h.healthy.2
  rw [hw] at hsound
  obtain rfl : failure = none := hsound
  rcases hcases with ⟨-, rfl⟩ | ⟨e, he, -⟩
  · have hgroup : s.group = g.batch := by simp [State.group, hw]
    have hunwritten : s.unwritten = [] := State.unwritten_of_finishing hw
    refine ⟨h.limits, ?_, ?_, h.file, h.logged, ?_, ?_, h.queued, h.issued, ?_, h.removing, fun _ => rfl,
      h.healthy.1, trivial⟩
    · have hsim := h.sim
      unfold State.journal at hsim
      rw [hunwritten] at hsim
      refine hsim.congr fun a => ?_
      simp only [State.owed, State.group, hw, List.filter_nil, List.nil_append, List.map_append, List.map_map,
        List.flatMap_append, List.mem_append, Function.comp_def, List.map_id']
      tauto
    · intro r hr
      exact h.mode r (List.mem_append_left _ (by simpa [State.group] using hr))
    · intro r hr
      exact h.fitting r (List.mem_append_left _ (by simpa [State.group] using hr))
    · intro r hr
      cases hr
    · intro p hp
      rcases List.mem_append.mp hp with hp | hp
      · exact h.done p hp
      · obtain ⟨r, -, rfl⟩ := List.mem_map.mp hp
        rfl
  · cases he

theorem step_wake (h : Tracks fits d s) {i : ℕ} (hs : wake s i = some s') : Tracks fits d s' := by
  obtain ⟨request, err, l₁, l₂, hl, hcases⟩ := wake_cases hs
  have hdone : ∀ p ∈ l₁ ++ l₂, p.2 = none := fun p hp => h.done p (by
    rw [hl]
    exact List.mem_append.mpr ((List.mem_append.mp hp).imp id (List.mem_cons_of_mem _)))
  have hsim := h.sim
  unfold State.owed at hsim
  rw [hl] at hsim
  rcases hcases with ⟨herr, -⟩ | ⟨rfl, hk, rfl⟩ | ⟨rfl, hk, rfl⟩
  · exact absurd (h.done (request, err) (by simp [hl])) herr
  · refine { h with sim := hsim.congr fun a => ?_, done := hdone, removing := fun r hr => ?_ }
    · simp only [State.owed, State.group, List.map_append, List.map_cons, List.flatMap_append,
        List.flatMap_cons, List.flatMap_nil, List.mem_append, List.not_mem_nil, or_false]
      tauto
    · rcases List.mem_append.mp hr with hr | hr
      · exact h.removing r hr
      · exact List.mem_singleton.mp hr ▸ hk
  · refine { h with sim := hsim.congr fun a => ?_, done := hdone }
    have hacks : request.acks = [] := if_neg hk
    simp only [State.owed, State.group, List.map_append, List.map_cons, List.flatMap_append,
      List.flatMap_cons, List.mem_append, hacks, List.nil_append]

/-- A returning cascade takes out the entry it owed. -/
theorem step_finishFlush (h : Tracks fits d s) {i : ℕ} (hs : finishFlush s i = some s') : Tracks fits d s' := by
  obtain ⟨request, l₁, l₂, hl, rfl⟩ := finishFlush_cases hs
  have hacks : request.acks = [request.ackId.toInt] := if_pos (h.removing request (by simp [hl]))
  have hsim := h.sim
  unfold State.owed at hsim
  rw [hl] at hsim
  refine { h with sim := hsim.settle ?_ ?_ ?_, removing := fun r hr => ?_ }
  · simp [List.mem_flatMap, hacks]
  · intro a
    simp only [State.owed, State.group, List.flatMap_append, List.flatMap_cons, List.mem_append]
    tauto
  · intro a
    simp only [State.owed, State.group, List.flatMap_append, List.flatMap_cons, List.mem_append, hacks,
      List.mem_singleton]
    tauto
  · refine h.removing r ?_
    rw [hl]
    exact List.mem_append.mpr ((List.mem_append.mp hr).imp id (List.mem_cons_of_mem _))

/-- **Every step keeps the invariant.** -/
theorem step {l : Label} (h : Tracks fits d s) (hP : Uniform fits d s l) (hs : wal.step s l = some s') :
    Tracks fits d s' := by
  cases l with
  | enqueueBatch ms durability fault =>
    obtain ⟨rfl, rfl, hread⟩ := hP
    exact h.step_enqueueBatch hread hs
  | flushCascade ms ackId durability fault =>
    obtain ⟨rfl, rfl, hread, hid⟩ := hP
    exact h.step_flushCascade hread hid hs
  | ack id outcome synced =>
    obtain ⟨rfl, rfl, -⟩ := hP
    exact h.step_ack hs
  | nextPendingFor namespaceId =>
    obtain rfl := Option.some.inj hs
    exact h.step_takePending namespaceId
  | wake i => exact h.step_wake hs
  | finishFlush i => exact h.step_finishFlush hs
  | takeQueue fault =>
    obtain rfl : fault = none := hP
    exact h.step_takeQueue hs
  | loopHead => exact h.step_loopHead hs
  | writeNext outcome =>
    obtain rfl : outcome = .done := hP
    exact h.step_writeNext hs
  | syncFile ok =>
    obtain rfl : ok = true := hP
    exact h.step_syncFile hs
  | settle => exact h.step_settle hs
  | finish => exact h.step_finish hs

theorem reaches (hl : Limits fits) {rs : List Record} (hrs : ∀ r ∈ rs, fits r)
    (h : wal.Reaches (Uniform fits d) (State.opened rs) s) : Tracks fits d s :=
  h.invariant (opened hl hrs) fun _ _ _ hI hP hs => hI.step hP hs

end Tracks

/-! ## The refinement -/

/-- **Recovery refines the live state.**  In every run with one durability in which nothing fails, once the
queue is drained and all callers have returned, replaying the log gives the live facts, the live pending
list and the live id counter; recovery of the file does the same and leaves the file alone. -/
theorem recovered_eq_live (d : Durability) (rs : List Record) (s : State) (hrs : ∀ r ∈ rs, r.Readable)
    (h : wal.Reaches (Uniform Record.Readable d) (State.opened rs) s) (hdrained : s.Drained) (hreturned : s.Returned) :
    Live.init.replayAll s.history.log = s.live ∧ recover Live.init s.file = .ok (s.live, s.file) := by
  have ht := Tracks.reaches limits_readable hrs h
  obtain ⟨hq, hidle⟩ := hdrained
  obtain ⟨hfin, hrem⟩ := hreturned
  have howed : s.owed = [] := by simp [State.owed, State.group, hidle, hfin, hrem]
  have hj : s.journal d = s.history.log := by simp [State.journal, State.unwritten, hidle, hq]
  have hsim := ht.sim
  rw [howed, hj] at hsim
  have heq := hsim.eq_of_nil
  refine ⟨heq, ?_⟩
  rw [ht.file, recover_logOf ht.logged, heq]

/-- One session: a source mutation, the cascade it causes and the checkpoint of that cascade. -/
def sessionRun : List Label :=
  let commit : List Label := [.takeQueue none, .loopHead, .writeNext .done, .syncFile true, .settle, .finish]
  [.enqueueBatch [⟨[110], 1, 2, [34, 34], ⟨5, 0, 1⟩, ⟨0, 0, []⟩⟩] .strict none] ++ commit ++
    [.wake 0, .nextPendingFor (some [110]),
      .flushCascade [⟨[110], 1, 3, [49], ⟨6, 0, 1⟩, ⟨2, 1, []⟩⟩] 1 .strict none] ++ commit ++
    [.wake 0, .finishFlush 0]

theorem recovered_eq_live_session :
    ∃ s, wal.runAllowed (Uniform Record.Readable .strict) (State.opened []) sessionRun = some s ∧
      Live.init.replayAll s.history.log = s.live ∧ recover Live.init s.file = .ok (s.live, s.file) := by
  have hrun : (wal.runAllowed (Uniform Record.Readable .strict) (State.opened []) sessionRun).isSome := by decide
  obtain ⟨s, hs⟩ := Option.isSome_iff_exists.mp hrun
  have hw : (wal.runAllowed (Uniform Record.Readable .strict) (State.opened []) sessionRun).map (fun s =>
      (s.requests, s.worker, s.finished, s.removing)) = some ([], .idle, [], []) := rfl
  rw [hs] at hw
  simp only [Option.map_some, Option.some.injEq, Prod.mk.injEq] at hw
  obtain ⟨h1, h2, h3, h4⟩ := hw
  exact ⟨s, hs, recovered_eq_live .strict [] s (by simp) (Machine.reaches_of_runAllowed hs) ⟨h1, h2⟩ ⟨h3, h4⟩⟩

end Slung.Wal
