import Slung.Wal.Refinement
import Slung.Wal.Tickets

/-!
# Slung.Wal.Shutdown — the worker's thread and `deinit` (`wal.zig`)

The log together with the thread that serves it: `start` spawns the thread once, `deinit` asks it to stop
and joins it, and the thread returns from `workerMain` only when it finds the queue empty after that.  Other
threads may still call while `deinit` waits; what they queue behind the worker's return is `late`.
-/

namespace Slung.Wal

open Slung.Lib

/-! ## Who takes a step -/

/-- The steps of `workerMain`. -/
def Label.byWorker : Label → Bool
  | .takeQueue _ | .loopHead | .writeNext _ | .syncFile _ | .settle | .finish => true
  | _ => false

/-- The calls that put a request into the queue; they start the worker first. -/
def Label.admits : Label → Bool
  | .enqueueBatch .. | .flushCascade .. => true
  | _ => false

/-- The field `worker`, and whether `workerMain` has returned. -/
inductive Thread where
  | unspawned
  | running
  | exited
  | joined
deriving DecidableEq, Repr

structure Service where
  log : State
  thread : Thread
  stopping : Bool
  /-- `deinit` went past the join: the maps are freed and the file is closed -/
  closed : Bool
  /-- what was queued after `workerMain` returned -/
  late : List Request

namespace Service

def opened (rs : List Record) : Service := ⟨State.opened rs, .unspawned, false, false, []⟩

inductive Label where
  | log (l : Wal.Label)
  | start (spawned : Bool)
  | deinit
  | exit
  | join

/-- `start` does nothing when there is a thread; otherwise the spawn may fail. -/
def start (s : Service) (spawned : Bool) : Option Service :=
  if s.closed then none
  else if s.thread = .unspawned ∧ spawned then some { s with thread := .running }
  else some s

/-- `deinit` up to the join; without a thread there is nothing to wait for. -/
def deinit (s : Service) : Option Service :=
  if s.closed ∨ s.stopping then none
  else if s.thread = .unspawned then some { s with closed := true }
  else some { s with stopping := true }

/-- `workerMain` returns. -/
def exit (s : Service) : Option Service :=
  if s.thread = .running ∧ s.log.worker = .idle ∧ s.log.requests = [] ∧ s.stopping then
    some { s with thread := .exited }
  else none

/-- The join in `deinit` returns, and the rest of `deinit` runs. -/
def join (s : Service) : Option Service :=
  if s.thread = .exited ∧ s.stopping then some { s with thread := .joined, closed := true } else none

/-- A step of the log: the worker's only while its thread runs, a call that queues only behind `start`. -/
def logStep (s : Service) (l : Wal.Label) : Option Service :=
  if s.closed ∨ (l.byWorker ∧ s.thread ≠ .running) ∨ (l.admits ∧ s.thread = .unspawned) then none
  else (wal.step s.log l).map fun log => { s with
    log := log
    late := if s.thread = .exited then s.late ++ log.requests.drop s.log.requests.length else s.late }

def Label.ofWorker : Label → Bool
  | .log l => l.byWorker
  | .exit => true
  | _ => false

def Label.admits : Label → Bool
  | .log l => l.admits
  | _ => false

end Service

/-- The log with its thread. -/
def service : Machine Service Service.Label where
  step s
    | .log l => s.logStep l
    | .start spawned => s.start spawned
    | .deinit => s.deinit
    | .exit => s.exit
    | .join => s.join

/-! ## What is queued is written -/

/-- What is written is synced when the worker rests; only an acknowledgement whose own sync failed may stand behind. -/
structure Served (s : State) : Prop extends Ticketed s where
  synced : s.failed = false → (s.worker = .idle ∨ ∃ g, s.worker = .settling g none ∨ s.worker = .finishing g none) →
    ∀ r ∈ s.history.log.drop s.history.synced, ∃ id, r = .ack id

namespace Served

variable {s s' : State}

theorem opened (rs : List Record) : Served (State.opened rs) where
  toTicketed := Ticketed.opened rs
  synced := by simp [State.opened]

/-- A step that leaves the worker and what is written. -/
theorem quiet (h : Served s) (ht : Ticketed s') (hfailed : s'.failed = s.failed) (hworker : s'.worker = s.worker)
    (hlog : s'.history.log = s.history.log) (hsynced : s'.history.synced = s.history.synced) : Served s' := by
  refine { toTicketed := ht, synced := ?_ }
  rw [hfailed, hworker, hlog, hsynced]
  exact h.synced

theorem queues (h : Served s) {request : Request} {extra : List (ℕ × FactMutation)}
    (hq : Queues s request extra s') : Served s' := by
  have ht := h.toTicketed.queues hq
  obtain ⟨-, -, -, live, rfl⟩ := hq
  exact h.quiet ht rfl rfl rfl rfl

/-- A step into the middle of a group. -/
theorem busy (ht : Ticketed s') (hidle : s'.worker ≠ .idle) (hsettling : ∀ g, s'.worker ≠ .settling g none)
    (hfinishing : ∀ g, s'.worker ≠ .finishing g none) : Served s' where
  toTicketed := ht
  synced _ hw := by
    rcases hw with hw | ⟨g, hw | hw⟩
    · exact absurd hw hidle
    · exact absurd hw (hsettling g)
    · exact absurd hw (hfinishing g)

/-- An acknowledgement leaves at most its own record behind the sync. -/
theorem step_ack (h : Served s) {id : Int64} {outcome : WriteOutcome} {synced : Bool}
    (hs : ack s id outcome synced = some s') : Served s' := by
  refine { toTicketed := h.toTicketed.step (l := .ack id outcome synced) hs, synced := ?_ }
  obtain ⟨hwriting, -, hs'⟩ := ack_cases hs
  have hlog : ∀ r ∈ (s.appendRecord (.ack id) (Record.ack id).encode outcome).history.log.drop s.history.synced,
      r ∈ s.history.log.drop s.history.synced ∨ r = .ack id := by
    intro r hr
    simp only [State.appendRecord] at hr
    split_ifs at hr
    · rw [List.drop_append, List.mem_append] at hr
      rcases hr with hr | hr
      · exact Or.inl hr
      · exact Or.inr (List.mem_singleton.mp (List.mem_of_mem_drop hr))
    · exact Or.inl hr
  rw [hs']
  split_ifs
  · intro _ _ r hr
    simp [State.acked] at hr
  · intro hf hw r hr
    rcases hlog r hr with hr | rfl
    · exact h.synced hf hw r hr
    · exact ⟨id, rfl⟩

theorem step_loopHead (h : Served s) (ht : Ticketed s') (hs : loopHead s = some s') : Served s' := by
  obtain ⟨g, attempt, failure, hw, ⟨-, -, rfl⟩ | ⟨hno, rfl⟩⟩ := loopHead_cases hs
  · exact busy ht nofun nofun nofun
  · have hsome : failure ≠ none := by
      rintro rfl
      exact hno ⟨rfl, by rw [h.fresh g attempt hw]; decide⟩
    exact busy ht nofun (fun g' hc => hsome (Worker.settling.inj hc).2) nofun

theorem step_syncFile (ht : Ticketed s') {ok : Bool} (hs : syncFile s ok = some s') : Served s' := by
  obtain ⟨g, attempt, -, ⟨-, rfl⟩ | ⟨-, rfl⟩⟩ := syncFile_cases hs
  · refine { toTicketed := ht, synced := fun _ _ r hr => ?_ }
    simp at hr
  · exact busy ht nofun nofun nofun

theorem step_settle (h : Served s) (ht : Ticketed s') (hs : settle s = some s') : Served s' := by
  obtain ⟨g, failure, hw, rfl⟩ := settle_cases hs
  cases failure with
  | none =>
    refine { toTicketed := ht, synced := fun hf _ => ?_ }
    exact h.synced hf (Or.inr ⟨g, Or.inl hw⟩)
  | some e => exact busy ht nofun nofun nofun

theorem step_finish (h : Served s) (ht : Ticketed s') (hs : finish s = some s') : Served s' := by
  obtain ⟨g, failure, hw, ⟨rfl, rfl⟩ | ⟨e, -, rfl⟩⟩ := finish_cases hs
  · refine { toTicketed := ht, synced := fun hf _ => ?_ }
    exact h.synced hf (Or.inr ⟨g, Or.inr hw⟩)
  · exact { toTicketed := ht, synced := nofun }

/-- Every step keeps it, whatever fails. -/
theorem step {l : Label} (h : Served s) (hs : wal.step s l = some s') : Served s' := by
  have ht := h.toTicketed.step hs
  cases l with
  | enqueueBatch ms d fault =>
    rcases enqueueBatch_cases hs with ⟨live, rfl⟩ | ⟨request, extra, hq⟩
    · exact h.quiet ht rfl rfl rfl rfl
    · exact h.queues hq
  | flushCascade ms ackId d fault =>
    rcases flushCascade_cases hs with ⟨live, rfl⟩ | ⟨request, extra, hq⟩
    · exact h.quiet ht rfl rfl rfl rfl
    · exact h.queues hq
  | ack id outcome synced => exact h.step_ack hs
  | nextPendingFor n =>
    obtain rfl := Option.some.inj hs
    rcases takePending_cases s n with heq | ⟨item, -, heq⟩ <;>
      exact h.quiet ht (by rw [heq]) (by rw [heq]) (by rw [heq]) (by rw [heq])
  | wake i =>
    obtain ⟨request, err, l₁, l₂, -, ⟨-, rfl⟩ | ⟨-, -, rfl⟩ | ⟨-, -, rfl⟩⟩ := wake_cases hs <;>
      exact h.quiet ht rfl rfl rfl rfl
  | finishFlush i =>
    obtain ⟨request, l₁, l₂, -, rfl⟩ := finishFlush_cases hs
    exact h.quiet ht rfl rfl rfl rfl
  | takeQueue fault =>
    obtain ⟨-, -, live, undo, failure, rfl⟩ := takeQueue_cases hs
    exact busy ht nofun nofun nofun
  | loopHead => exact h.step_loopHead ht hs
  | writeNext outcome =>
    obtain ⟨g, attempt, r, todo, -, ⟨e, -, rfl⟩ | ⟨-, -, rfl⟩ | ⟨-, k, -, rfl⟩⟩ := writeNext_cases hs <;>
      exact busy ht nofun nofun nofun
  | syncFile ok => exact step_syncFile ht hs
  | settle => exact h.step_settle ht hs
  | finish => exact h.step_finish ht hs

end Served

/-! ## How much the worker has left to do -/

/-- What the worker does at most before it is idle again: an attempt writes the records of the group one by one,
and the first failure ends the attempts. -/
def Worker.cost : Worker → ℕ
  | .idle => 0
  | .looping g _ none => g.batch.length + 6
  | .looping _ _ (some _) => 3
  | .writing _ _ todo => todo.length + 4
  | .settling .. => 2
  | .finishing .. => 1

/-- The steps that the worker takes at most if nobody calls any more. -/
def State.cost (s : State) : ℕ :=
  s.worker.cost + if s.requests = [] then 0 else s.requests.length + 7

section Steps

variable {s s' : State} {l : Label}

/-- A step of a caller leaves the worker where it is, and adds one request to the queue at most. -/
theorem caller_queue (hl : l.byWorker = false) (hs : wal.step s l = some s') : s'.worker = s.worker ∧
    (s'.requests = s.requests ∨ (l.admits = true ∧ ∃ r, s'.requests = s.requests ++ [r])) := by
  cases l with
  | enqueueBatch ms d fault =>
    rcases enqueueBatch_cases hs with ⟨live, rfl⟩ | ⟨r, extra, -, -, -, live, rfl⟩
    · exact ⟨rfl, Or.inl rfl⟩
    · exact ⟨rfl, Or.inr ⟨rfl, r, rfl⟩⟩
  | flushCascade ms ackId d fault =>
    rcases flushCascade_cases hs with ⟨live, rfl⟩ | ⟨r, extra, -, -, -, live, rfl⟩
    · exact ⟨rfl, Or.inl rfl⟩
    · exact ⟨rfl, Or.inr ⟨rfl, r, rfl⟩⟩
  | ack id outcome synced =>
    obtain ⟨-, -, rfl⟩ := ack_cases hs
    split_ifs <;> exact ⟨rfl, Or.inl rfl⟩
  | nextPendingFor n =>
    rw [← Option.some.inj hs]
    rcases takePending_cases s n with hs' | ⟨item, -, hs'⟩ <;> rw [hs'] <;> exact ⟨rfl, Or.inl rfl⟩
  | wake i =>
    obtain ⟨request, err, l₁, l₂, -, ⟨-, rfl⟩ | ⟨-, -, rfl⟩ | ⟨-, -, rfl⟩⟩ := wake_cases hs <;>
      exact ⟨rfl, Or.inl rfl⟩
  | finishFlush i =>
    obtain ⟨request, l₁, l₂, -, rfl⟩ := finishFlush_cases hs
    exact ⟨rfl, Or.inl rfl⟩
  | takeQueue fault => cases hl
  | loopHead => cases hl
  | writeNext outcome => cases hl
  | syncFile ok => cases hl
  | settle => cases hl
  | finish => cases hl

/-- Every step of the worker leaves it less to do. -/
theorem worker_cost (hl : l.byWorker = true) (hs : wal.step s l = some s') : s'.cost < s.cost := by
  cases l with
  | takeQueue fault =>
    obtain ⟨hidle, hne, live, undo, failure, rfl⟩ := takeQueue_cases hs
    have hlen := congrArg List.length
      (publishRequests_map fault Request.ticket (fun _ _ => rfl) ⟨s.live, [], none⟩ s.requests)
    rw [List.length_map, List.length_map] at hlen
    have hpos := List.length_pos_of_ne_nil hne
    cases failure <;> simp [State.cost, hidle, Worker.cost, hne, hlen]
  | loopHead =>
    obtain ⟨g, attempt, failure, hw, ⟨rfl, -, rfl⟩ | ⟨-, rfl⟩⟩ := loopHead_cases hs
    · simp [State.cost, hw, Worker.cost]
    · cases failure <;> simp [State.cost, hw, Worker.cost]
  | writeNext outcome =>
    obtain ⟨g, attempt, r, todo, hw, ⟨e, -, rfl⟩ | ⟨-, -, rfl⟩ | ⟨-, k, -, rfl⟩⟩ := writeNext_cases hs <;>
      simp [State.cost, hw, Worker.cost, State.appendRecord]
  | syncFile ok =>
    obtain ⟨g, attempt, hw, ⟨-, rfl⟩ | ⟨-, rfl⟩⟩ := syncFile_cases hs <;> simp [State.cost, hw, Worker.cost]
  | settle =>
    obtain ⟨g, failure, hw, rfl⟩ := settle_cases hs
    simp [State.cost, hw, Worker.cost]
  | finish =>
    obtain ⟨g, failure, hw, ⟨-, rfl⟩ | ⟨e, -, rfl⟩⟩ := finish_cases hs <;>
      simp [State.cost, hw, Worker.cost]
  | enqueueBatch ms d fault => cases hl
  | flushCascade ms ackId d fault => cases hl
  | ack id outcome synced => cases hl
  | nextPendingFor n => cases hl
  | wake i => cases hl
  | finishFlush i => cases hl

/-- A step of a caller gives the worker at most eight steps more. -/
theorem caller_cost (hl : l.byWorker = false) (hs : wal.step s l = some s') :
    s'.cost ≤ s.cost + if l.admits then 8 else 0 := by
  obtain ⟨hworker, hqueue | ⟨hadmits, r, hqueue⟩⟩ := caller_queue hl hs
  · unfold State.cost
    rw [hworker, hqueue]
    omega
  · unfold State.cost
    rw [hworker, hqueue, if_pos hadmits, if_neg (by simp), List.length_append, List.length_singleton]
    by_cases hempty : s.requests = []
    · rw [if_pos hempty, hempty, List.length_nil]
    · rw [if_neg hempty]
      omega

/-- A worker that is not idle has a step to take, and an idle one has when somebody waits. -/
theorem worker_enabled (h : s.worker ≠ .idle ∨ s.requests ≠ []) :
    ∃ l : Label, l.byWorker = true ∧ (wal.step s l).isSome := by
  cases hw : s.worker with
  | idle =>
    refine ⟨.takeQueue none, rfl, ?_⟩
    have hne : s.requests ≠ [] := h.resolve_left fun hbusy => hbusy hw
    change (takeQueue s none).isSome
    simp [takeQueue, hw, hne]
  | looping g attempt failure =>
    refine ⟨.loopHead, rfl, ?_⟩
    change (loopHead s).isSome
    unfold loopHead
    rw [hw]
    simp only
    split_ifs <;> rfl
  | writing g attempt todo =>
    cases todo with
    | nil =>
      refine ⟨.syncFile true, rfl, ?_⟩
      change (syncFile s true).isSome
      simp [syncFile, hw]
    | cons r todo =>
      refine ⟨.writeNext .done, rfl, ?_⟩
      change (writeNext s .done).isSome
      cases hwrite : r.record.write <;> simp [writeNext, hw, hwrite]
  | settling g failure =>
    refine ⟨.settle, rfl, ?_⟩
    change (settle s).isSome
    simp [settle, hw]
  | finishing g failure =>
    refine ⟨.finish, rfl, ?_⟩
    change (finish s).isSome
    cases failure <;> simp [finish, hw]

end Steps

/-! ## Runs of the log with its thread -/

namespace Service

variable {s s' : Service} {l : Wal.Label}

theorem logStep_cases (h : s.logStep l = some s') : s.closed = false ∧ (l.byWorker → s.thread = .running) ∧
    (l.admits → s.thread ≠ .unspawned) ∧ ∃ log, wal.step s.log l = some log ∧ s' = { s with
      log := log
      late := if s.thread = .exited then s.late ++ log.requests.drop s.log.requests.length else s.late } := by
  unfold logStep at h
  by_cases hc : s.closed ∨ (l.byWorker ∧ s.thread ≠ .running) ∨ (l.admits ∧ s.thread = .unspawned)
  · rw [if_pos hc] at h
    cases h
  · rw [if_neg hc] at h
    obtain ⟨log, hlog, rfl⟩ := Option.map_eq_some_iff.mp h
    simp only [not_or, not_and, not_not] at hc
    exact ⟨by simpa using hc.1, hc.2.1, hc.2.2, log, hlog, rfl⟩

theorem start_cases {spawned : Bool} (h : s.start spawned = some s') :
    s' = s ∨ (s.thread = .unspawned ∧ s.closed = false ∧ s' = { s with thread := .running }) := by
  unfold start at h
  split_ifs at h with hclosed hspawn
  · exact Or.inr ⟨hspawn.1, by simpa using hclosed, (Option.some.inj h).symm⟩
  · exact Or.inl (Option.some.inj h).symm

theorem deinit_cases (h : s.deinit = some s') : (s.thread = .unspawned ∧ s' = { s with closed := true }) ∨
    (s.thread ≠ .unspawned ∧ s' = { s with stopping := true }) := by
  unfold deinit at h
  split_ifs at h with hclosed hthread
  · exact Or.inl ⟨hthread, (Option.some.inj h).symm⟩
  · exact Or.inr ⟨hthread, (Option.some.inj h).symm⟩

theorem exit_cases (h : s.exit = some s') : s.thread = .running ∧ s.log.worker = .idle ∧ s.log.requests = [] ∧
    s.stopping = true ∧ s' = { s with thread := .exited } := by
  unfold exit at h
  split_ifs at h with hexit
  exact ⟨hexit.1, hexit.2.1, hexit.2.2.1, hexit.2.2.2, (Option.some.inj h).symm⟩

theorem join_cases (h : s.join = some s') :
    s.thread = .exited ∧ s' = { s with thread := .joined, closed := true } := by
  unfold join at h
  split_ifs at h with hjoin
  exact ⟨hjoin.1, (Option.some.inj h).symm⟩

/-! ### The invariant -/

/-- What holds in every run: the worker is at rest unless its thread runs, and behind its return the queue is
what came late. -/
structure Sound (s : Service) : Prop where
  served : Served s.log
  resting : s.thread ≠ .running → s.log.worker = .idle
  early : s.thread = .unspawned ∨ s.thread = .running → s.late = []
  unspawned : s.thread = .unspawned → s.log.requests = []
  late : s.thread = .exited ∨ s.thread = .joined → s.log.requests = s.late
  closed : s.closed = true → s.thread = .unspawned ∨ s.thread = .joined
  joined : s.thread = .joined → s.closed = true
  stopping : s.thread = .exited ∨ s.thread = .joined → s.stopping = true
  spawned : s.stopping = true → s.thread ≠ .unspawned

namespace Sound

theorem opened (rs : List Record) : Sound (opened rs) where
  served := Served.opened rs
  resting := fun _ => rfl
  early := fun _ => rfl
  unspawned := fun _ => rfl
  late := fun _ => rfl
  closed := by simp [Service.opened]
  joined := by simp [Service.opened]
  stopping := by simp [Service.opened]
  spawned := by simp [Service.opened]

/-- A step of the log; only behind the worker's return does it queue something late. -/
theorem step_log (h : Sound s) (hs : s.logStep l = some s') : Sound s' := by
  obtain ⟨hopen, hworker, hspawned, log, hlog, rfl⟩ := logStep_cases hs
  have hnot : s.thread ≠ .joined := fun hc => absurd (h.joined hc) (by simp [hopen])
  cases hl : l.byWorker with
  | true =>
    have hrunning := hworker hl
    refine ⟨h.served.step hlog, fun hc => absurd hrunning hc, fun _ => ?_, fun hc => ?_, fun hc => ?_, h.closed,
      h.joined, h.stopping, h.spawned⟩
    · simp only [hrunning]
      exact h.early (Or.inr hrunning)
    · exact absurd (hrunning.symm.trans hc) (by decide)
    · simp only [hrunning] at hc
      exact absurd hc (by decide)
  | false =>
    obtain ⟨hsame, hqueue⟩ := caller_queue hl hlog
    refine ⟨h.served.step hlog, fun hc => hsame.trans (h.resting hc), fun hc => ?_, fun hc => ?_, fun hc => ?_,
      h.closed, h.joined, h.stopping, h.spawned⟩
    · have hne : s.thread ≠ .exited := by
        intro hexited
        simp only [hexited] at hc
        exact absurd hc (by decide)
      simp only [if_neg hne]
      exact h.early hc
    · rcases hqueue with hqueue | ⟨hadmits, -⟩
      · exact hqueue.trans (h.unspawned hc)
      · exact absurd hc (hspawned hadmits)
    · have hexited : s.thread = .exited := hc.resolve_right hnot
      have hlate := h.late (Or.inl hexited)
      simp only [if_pos hexited]
      rcases hqueue with hqueue | ⟨-, r, hqueue⟩
      · rw [hqueue, List.drop_length, List.append_nil]
        exact hlate
      · rw [hqueue, List.drop_left, hlate]

theorem step {l : Service.Label} (h : Sound s) (hs : service.step s l = some s') : Sound s' := by
  cases l with
  | log l => exact h.step_log hs
  | start spawned =>
    rcases start_cases hs with rfl | ⟨hthread, hopen, rfl⟩
    · exact h
    · exact ⟨h.served, nofun, fun _ => h.early (Or.inl hthread), nofun, by simp, by simp [hopen], nofun, by simp,
        fun _ => nofun⟩
  | deinit =>
    rcases deinit_cases hs with ⟨hthread, rfl⟩ | ⟨hthread, rfl⟩
    · exact ⟨h.served, h.resting, h.early, h.unspawned, h.late, fun _ => Or.inl hthread, fun _ => rfl, h.stopping,
        h.spawned⟩
    · exact ⟨h.served, h.resting, h.early, h.unspawned, h.late, h.closed, h.joined, fun _ => rfl,
        fun _ => hthread⟩
  | exit =>
    obtain ⟨hthread, hidle, hempty, hstopping, rfl⟩ := exit_cases hs
    have hearly := h.early (Or.inr hthread)
    have hopen : s.closed = false := by
      cases hclosed : s.closed with
      | false => rfl
      | true => rcases h.closed hclosed with hc | hc <;> exact absurd (hthread.symm.trans hc) (by decide)
    exact ⟨h.served, fun _ => hidle, fun _ => hearly, nofun, fun _ => hempty.trans hearly.symm, by simp [hopen],
      nofun, fun _ => hstopping, fun _ => nofun⟩
  | join =>
    obtain ⟨hthread, rfl⟩ := join_cases hs
    exact ⟨h.served, fun _ => h.resting (by simp [hthread]), by simp, nofun, fun _ => h.late (Or.inl hthread),
      fun _ => Or.inr rfl, fun _ => rfl, fun _ => h.stopping (Or.inl hthread), fun _ => nofun⟩

theorem reaches {P : Service → Service.Label → Prop} {rs : List Record} (h : service.Reaches P (Service.opened rs) s) :
    Sound s :=
  h.invariant (opened rs) fun _ _ _ hsound _ hs => hsound.step hs

end Sound

/-! ### The worker's bound -/

/-- What is left for the worker; its return is the last step. -/
def cost (s : Service) : ℕ := s.log.cost + if s.thread = .unspawned ∨ s.thread = .running then 1 else 0

theorem step_cost (l : Service.Label) (hs : service.step s l = some s') :
    s'.cost + (if l.ofWorker then 1 else 0) ≤ s.cost + if l.admits then 8 else 0 := by
  cases l with
  | log l =>
    obtain ⟨-, -, -, log, hlog, rfl⟩ := logStep_cases hs
    cases hl : l.byWorker with
    | true =>
      have hless := worker_cost hl hlog
      simp only [cost, Label.ofWorker, hl, ↓reduceIte]
      omega
    | false =>
      have hmore := caller_cost hl hlog
      cases ha : l.admits <;>
        simp only [cost, Label.ofWorker, Label.admits, hl, ha, Bool.false_eq_true, ↓reduceIte] at hmore ⊢ <;> omega
  | start spawned =>
    rcases start_cases hs with rfl | ⟨hthread, -, rfl⟩
    · simp [Label.ofWorker, Label.admits]
    · simp [cost, hthread, Label.ofWorker, Label.admits]
  | deinit => rcases deinit_cases hs with ⟨-, rfl⟩ | ⟨-, rfl⟩ <;> simp [cost, Label.ofWorker, Label.admits]
  | exit =>
    obtain ⟨hthread, -, -, -, rfl⟩ := exit_cases hs
    simp [cost, hthread, Label.ofWorker, Label.admits]
  | join =>
    obtain ⟨hthread, rfl⟩ := join_cases hs
    simp [cost, hthread, Label.ofWorker, Label.admits]

/-- While `deinit` waits, the worker has a step to take or the join returns. -/
theorem Sound.join_enabled (h : Sound s) (hstopping : s.stopping = true) (hopen : s.closed = false) :
    (service.step s .join).isSome ∨ ∃ l : Service.Label, l.ofWorker = true ∧ (service.step s l).isSome := by
  cases hthread : s.thread with
  | unspawned => exact absurd hthread (h.spawned hstopping)
  | exited =>
    refine Or.inl ?_
    change (s.join).isSome
    simp [join, hthread, hstopping]
  | joined => exact absurd (h.joined hthread) (by simp [hopen])
  | running =>
    refine Or.inr ?_
    by_cases hbusy : s.log.worker ≠ .idle ∨ s.log.requests ≠ []
    · obtain ⟨l, hl, hsome⟩ := worker_enabled hbusy
      refine ⟨.log l, hl, ?_⟩
      have hnot : l.admits = false := by cases l <;> first | rfl | cases hl
      change (s.logStep l).isSome
      rw [logStep, if_neg (by simp [hopen, hthread, hnot]), Option.isSome_map]
      exact hsome
    · obtain ⟨hidle, hempty⟩ := not_or.mp hbusy
      refine ⟨.exit, rfl, ?_⟩
      change (s.exit).isSome
      rw [exit, if_pos ⟨hthread, not_not.mp hidle, not_not.mp hempty, hstopping⟩]
      rfl

end Service

/-! ### Runs in which nothing fails -/

namespace Service

/-- `Uniform` of the steps of the log; the thread may do what it likes. -/
def Uniform (fits : Record → Prop) (d : Durability) (s : Service) : Label → Prop
  | .log l => Wal.Uniform fits d s.log l
  | _ => True

instance (fits : Record → Prop) [DecidablePred fits] (d : Durability) (s : Service) :
    ∀ l, Decidable (Uniform fits d s l)
  | .log l => inferInstanceAs (Decidable (Wal.Uniform fits d s.log l))
  | .start _ | .deinit | .exit | .join => inferInstanceAs (Decidable True)

variable {s s' : Service} {fits : Record → Prop} {d : Durability}

theorem tracks_step {l : Label} (h : Tracks fits d s.log) (hP : Uniform fits d s l)
    (hs : service.step s l = some s') : Tracks fits d s'.log := by
  cases l with
  | log l =>
    obtain ⟨-, -, -, log, hlog, rfl⟩ := logStep_cases hs
    exact h.step hP hlog
  | start spawned => rcases start_cases hs with rfl | ⟨-, -, rfl⟩ <;> exact h
  | deinit => rcases deinit_cases hs with ⟨-, rfl⟩ | ⟨-, rfl⟩ <;> exact h
  | exit =>
    obtain ⟨-, -, -, -, rfl⟩ := exit_cases hs
    exact h
  | join =>
    obtain ⟨-, rfl⟩ := join_cases hs
    exact h

theorem tracks_reaches (hl : Limits fits) {rs : List Record} (hrs : ∀ r ∈ rs, fits r)
    (h : service.Reaches (Uniform fits d) (opened rs) s) : Tracks fits d s.log :=
  h.invariant (Tracks.opened hl hrs) fun _ _ _ hI hP hs => tracks_step hI hP hs

end Service

/-! ## Theorems -/

/-- **The worker leaves nothing behind**: in every run, whatever fails and whoever calls, once `workerMain` has
returned no group is in flight and the queue holds only what was queued after the return; unless the log failed,
every other request is written, in the order of the queue, and a sync covers it. -/
theorem exit_drains (rs : List Record) (s : Service)
    (h : service.Reaches (fun _ _ => True) (Service.opened rs) s) (hexit : s.thread = .exited ∨ s.thread = .joined) :
    s.log.worker = .idle ∧ s.log.requests = s.late ∧ (s.log.failed = false →
      s.log.history.logged ++ s.late.map Request.ticket = List.range s.log.tickets ∧
        ∀ r ∈ s.log.history.log.drop s.log.history.synced, ∃ id, r = .ack id) := by
  have hsound := Service.Sound.reaches h
  have hidle : s.log.worker = .idle := hsound.resting (by rcases hexit with hc | hc <;> simp [hc])
  refine ⟨hidle, hsound.late hexit, fun hf => ⟨?_, hsound.served.synced hf (Or.inl hidle)⟩⟩
  have horder := hsound.served.requests_of_idle hidle hf
  rwa [hsound.late hexit] at horder

/-- A write that is served, `deinit`, and a write that comes after the worker has returned. -/
def lateRun (d : Durability) : List Service.Label :=
  let m : FactMutation := ⟨[110], 1, 2, [49], ⟨5, 0, 1⟩, ⟨0, 0, []⟩⟩
  [.start true, .log (.enqueueBatch [m] .eventual none), .deinit, .log (.takeQueue none), .log .loopHead,
    .log (.writeNext .done), .log (.syncFile true), .log .settle, .log .finish, .exit,
    .log (.enqueueBatch [{ m with entity := 2 }] d none), .join]

theorem exit_drains_late : ∃ s, (lateRun .strict).foldlM service.step (Service.opened []) = some s ∧
    s.log.requests = s.late ∧ s.log.history.logged ++ s.late.map Request.ticket = List.range s.log.tickets ∧
      s.late.length = 1 := by
  have hrun : ((lateRun .strict).foldlM service.step (Service.opened [])).map
      (fun s => (s.thread, s.log.failed, s.late.length)) = some (.joined, false, 1) := by decide
  obtain ⟨s, hs, hfinal⟩ := Option.map_eq_some_iff.mp hrun
  obtain ⟨hthread, hfailed, hlate⟩ : s.thread = .joined ∧ s.log.failed = false ∧ s.late.length = 1 := by
    simpa only [Prod.mk.injEq] using hfinal
  obtain ⟨-, hqueue, hlogged⟩ := exit_drains [] s (Machine.reaches_of_foldlM (fun _ _ _ => trivial) hs) (Or.inr hthread)
  exact ⟨s, hs, hqueue, (hlogged hfailed).1, hlate⟩

/-- **`deinit` returns**: in every run the worker takes at most eight steps for each call that queues, and one to
return; and as long as `deinit` waits, the join returns or the worker has a step to take. -/
theorem deinit_returns (rs : List Record) (ls : List Service.Label) (s : Service)
    (h : ls.foldlM service.step (Service.opened rs) = some s) :
    ls.countP Service.Label.ofWorker ≤ 8 * ls.countP Service.Label.admits + 1 ∧
      (s.stopping = true → s.closed = false → (service.step s .join).isSome ∨
        ∃ l : Service.Label, l.ofWorker = true ∧ (service.step s l).isSome) := by
  have hreach : service.Reaches (fun _ _ => True) (Service.opened rs) s :=
    Machine.reaches_of_foldlM (fun _ _ _ => trivial) h
  have hbound := Machine.countP_add_le (fun _ l _ hs => Service.step_cost l hs) h
  have hstart : (Service.opened rs).cost = 1 := rfl
  rw [hstart] at hbound
  exact ⟨by omega, fun hstopping hopen => (Service.Sound.reaches hreach).join_enabled hstopping hopen⟩

theorem deinit_returns_late : ∃ s, (lateRun .strict).foldlM service.step (Service.opened []) = some s ∧
    (lateRun .strict).countP Service.Label.ofWorker ≤ 8 * (lateRun .strict).countP Service.Label.admits + 1 := by
  have hrun : ((lateRun .strict).foldlM service.step (Service.opened [])).isSome := by decide
  obtain ⟨s, hs⟩ := Option.isSome_iff_exists.mp hrun
  exact ⟨s, hs, (deinit_returns [] (lateRun .strict) s hs).1⟩

/-- **Closing and opening again**: in every run with one durability in which nothing fails, what recovery reads from
the closed file becomes the state that the process last showed when the eventual calls that came behind the worker's
return are replayed on it; strict ones have shown nothing. -/
theorem reopened_after_close (d : Durability) (rs : List Record) (s : Service) (hrs : ∀ r ∈ rs, r.Readable)
    (h : service.Reaches (Service.Uniform Record.Readable d) (Service.opened rs) s) (hclosed : s.closed = true)
    (hreturned : s.log.Returned) :
    ∃ live, recover Live.init s.log.file = .ok (live, s.log.file) ∧
      live.replayAll (if d = .eventual then s.late.map Request.record else []) = s.log.live := by
  have hsound := Service.Sound.reaches h
  have ht := Service.tracks_reaches limits_readable hrs h
  obtain ⟨hfin, hrem⟩ := hreturned
  have hidle : s.log.worker = .idle := hsound.resting (by rcases hsound.closed hclosed with hc | hc <;> simp [hc])
  have hqueue : s.log.requests = s.late := by
    rcases hsound.closed hclosed with hc | hc
    · rw [hsound.unspawned hc, hsound.early (Or.inl hc)]
    · exact hsound.late (Or.inr hc)
  have howed : s.log.owed = [] := by simp [State.owed, State.group, hidle, hfin, hrem]
  have hsim := ht.sim
  rw [howed] at hsim
  refine ⟨Live.init.replayAll s.log.history.log, ?_, ?_⟩
  · rw [ht.file, recover_logOf ht.logged]
  · have heq := hsim.eq_of_nil
    rw [State.journal, State.unwritten_of_idle hidle, List.nil_append, hqueue] at heq
    rw [← heq]
    rw [Live.replayAll_append]
    split_ifs <;> rfl

/-- The eventual write that came late is on the live state and not in the file. -/
theorem reopened_after_close_late : ∃ (s : Service) (live : Live),
    recover Live.init s.log.file = .ok (live, s.log.file) ∧
      live.replayAll (s.late.map Request.record) = s.log.live ∧ s.late.length = 1 := by
  have hrun : (service.runAllowed (Service.Uniform Record.Readable .eventual) (Service.opened [])
      (lateRun .eventual)).map (fun s => (s.closed, decide s.log.Returned, s.late.length)) = some (true, true, 1) := by
    decide
  obtain ⟨s, hs, hfinal⟩ := Option.map_eq_some_iff.mp hrun
  obtain ⟨hclosed, hreturned, hlate⟩ : s.closed = true ∧ decide s.log.Returned = true ∧ s.late.length = 1 := by
    simpa only [Prod.mk.injEq] using hfinal
  obtain ⟨live, hrecovered, hlive⟩ := reopened_after_close .eventual [] s (by simp) (Machine.reaches_of_runAllowed hs)
    hclosed (of_decide_eq_true hreturned)
  exact ⟨s, live, hrecovered, hlive, hlate⟩

end Slung.Wal
