import Slung.Wal.Machine

/-!
# Slung.Wal.Tickets — the queue is written in its order

Requests get their tickets when they are admitted, eventual ones are published then and strict ones when the worker
takes them, and all wait in one queue.  What is logged is an initial range of the tickets, whatever fails, and while
the log has not failed the rest is on its way (`Ticketed`).
-/

namespace Slung.Wal

open Slung.Lib

variable {s s' : State}

/-! ## What a call does to the queue -/

theorem ticket_acceptedOf {ticket : ℕ} {kind : UInt8} : ∀ {self : Live} {ms : List FactMutation}
    {p : ℕ × FactMutation}, p ∈ acceptedOf ticket kind self ms → p.1 = ticket
  | _, [], _, h => by cases h
  | self, m :: ms, p, h => by
    rcases List.mem_append.mp h with h | h
    · split_ifs at h
      · exact List.mem_singleton.mp h ▸ rfl
      · cases h
    · exact ticket_acceptedOf h

/-- The state behind an admission: a request with the next ticket, and what it publishes at once. -/
structure Queues (s : State) (request : Request) (extra : List (ℕ × FactMutation)) (s' : State) : Prop where
  running : s.failed = false
  ticket : request.ticket = s.tickets
  published : ∀ p ∈ extra, p.1 = s.tickets ∧ request.applyAfterWrite = false
  eq : ∃ live, s' = { (s.push request) with
    live := live, history := { s.history with published := s.history.published ++ extra } }

/-- A strict request publishes nothing yet. -/
theorem Queues.strict (hf : s.failed = false) {request : Request} (ht : request.ticket = s.tickets) :
    Queues s request [] (s.push request) :=
  ⟨hf, ht, fun _ hp => absurd hp List.not_mem_nil, s.live, by rw [List.append_nil]; rfl⟩

/-- An eventual request is published and queued, or the allocation that failed is all that is seen of it. -/
theorem publishNow_queues (hf : s.failed = false) (fault : Option (ℕ × AllocPoint)) {r : Request}
    (undone flushed : Live → Live) (ht : r.ticket = s.tickets) (hev : r.applyAfterWrite = false) :
    (∃ live, s.publishNow fault r undone flushed = { s with live := live }) ∨
      ∃ request extra, Queues s request extra (s.publishNow fault r undone flushed) := by
  rcases publishNow_cases fault s r undone flushed with hlive | ⟨accepted, live, hs⟩
  · exact Or.inl hlive
  · exact Or.inr ⟨{ r with accepted := accepted }, acceptedOf r.ticket r.recordKind s.live r.mutations,
      hf, ht, fun p hp => ⟨(ticket_acceptedOf hp).trans ht, hev⟩, live, hs⟩

theorem enqueueBatch_cases {ms : List FactMutation} {d : Durability} {fault : Option (ℕ × AllocPoint)}
    (h : enqueueBatch s ms d fault = some s') :
    (∃ live, s' = { s with live := live }) ∨ ∃ request extra, Queues s request extra s' := by
  unfold enqueueBatch at h
  by_cases hms : ms = []
  · rw [if_pos hms] at h
    exact Or.inl ⟨s.live, (Option.some.inj h).symm⟩
  rw [if_neg hms] at h
  rcases admission_cases h with rfl | ⟨hf, rfl⟩
  · exact Or.inl ⟨s'.live, rfl⟩
  cases d with
  | strict => exact Or.inr ⟨_, [], .strict hf rfl⟩
  | eventual => exact publishNow_queues hf fault _ _ rfl rfl

theorem flushCascade_cases {ms : List FactMutation} {ackId : Int64} {d : Durability}
    {fault : Option (ℕ × AllocPoint)} (h : flushCascade s ms ackId d fault = some s') :
    (∃ live, s' = { s with live := live }) ∨ ∃ request extra, Queues s request extra s' := by
  unfold flushCascade at h
  rcases admission_cases h with rfl | ⟨hf, rfl⟩
  · exact Or.inl ⟨s'.live, rfl⟩
  cases d with
  | strict => exact Or.inr ⟨_, [], .strict hf rfl⟩
  | eventual => exact publishNow_queues hf fault _ _ rfl rfl

/-! ## The invariant -/

/-- Tickets are logged in order without a gap, and those that are not logged wait in order. -/
structure Ticketed (s : State) : Prop where
  logged : s.history.logged <+: List.range s.tickets
  order : s.failed = false → s.worker.Sound →
    s.history.logged ++ (s.unwritten ++ s.requests).map Request.ticket = List.range s.tickets
  halted : s.failed = true → s.worker = .idle ∧ s.requests = []
  fresh : ∀ g attempt, s.worker = .looping g attempt none → attempt = 0

namespace Ticketed

theorem opened (rs : List Record) : Ticketed (State.opened rs) where
  logged := List.prefix_rfl
  order := fun _ _ => rfl
  halted := fun h => by cases h
  fresh := fun _ _ h => by cases h

theorem not_failed (h : Ticketed s) (hbusy : s.worker ≠ .idle) : s.failed = false := by
  cases hf : s.failed with
  | false => rfl
  | true => exact absurd (h.halted hf).1 hbusy

theorem not_failed_of_requests (h : Ticketed s) (hne : s.requests ≠ []) : s.failed = false := by
  cases hf : s.failed with
  | false => rfl
  | true => exact absurd (h.halted hf).2 hne

/-- What is logged is an initial range of the tickets. -/
theorem logged_eq (h : Ticketed s) : s.history.logged = List.range s.history.logged.length := by
  have hle := h.logged.length_le
  rw [List.length_range] at hle
  calc s.history.logged = (List.range s.tickets).take s.history.logged.length := List.prefix_iff_eq_take.mp h.logged
    _ = List.range s.history.logged.length := by rw [List.take_range, Nat.min_eq_left hle]

/-- While the worker rests, the queue holds the last tickets in order. -/
theorem requests_of_idle (h : Ticketed s) (hidle : s.worker = .idle) (hf : s.failed = false) :
    s.history.logged ++ s.requests.map Request.ticket = List.range s.tickets := by
  have horder := h.order hf (by rw [hidle]; trivial)
  rwa [State.unwritten_of_idle hidle, List.nil_append] at horder

theorem sorted_requests (h : Ticketed s) (hidle : s.worker = .idle) (hf : s.failed = false) :
    (s.requests.map Request.ticket).Pairwise (· < ·) := by
  have hsorted : (List.range s.tickets).Pairwise (· < ·) := List.pairwise_lt_range
  rw [← h.requests_of_idle hidle hf, List.pairwise_append] at hsorted
  exact hsorted.2.1

theorem lt_of_mem_requests (h : Ticketed s) (hidle : s.worker = .idle) (hf : s.failed = false) {t : ℕ}
    (ht : t ∈ s.requests.map Request.ticket) : t < s.tickets := by
  rw [← List.mem_range, ← h.requests_of_idle hidle hf]
  exact List.mem_append_right _ ht

/-! ### Steps -/

theorem queues (h : Ticketed s) {request : Request} {extra : List (ℕ × FactMutation)}
    (hq : Queues s request extra s') : Ticketed s' := by
  obtain ⟨hf, ht, -, live, rfl⟩ := hq
  refine ⟨h.logged.trans ?_, fun _ hsound => ?_, fun hc => absurd (hf.symm.trans hc) (by simp), h.fresh⟩
  · change List.range s.tickets <+: List.range (s.tickets + 1)
    rw [List.range_succ]
    exact List.prefix_append _ _
  · change s.history.logged ++ (s.unwritten ++ (s.requests ++ [request])).map Request.ticket =
      List.range (s.tickets + 1)
    rw [← List.append_assoc s.unwritten, List.map_append, ← List.append_assoc, h.order hf hsound, List.range_succ,
      List.map_singleton, ht]

theorem step_takeQueue (h : Ticketed s) {fault : Option (ℕ × AllocPoint)} (hs : takeQueue s fault = some s') :
    Ticketed s' := by
  obtain ⟨hidle, hne, live, undo, failure, rfl⟩ := takeQueue_cases hs
  have hf := h.not_failed_of_requests hne
  refine ⟨h.logged, fun _ _ => ?_, fun hc => absurd (hf.symm.trans hc) (by simp), fun g attempt hg => ?_⟩
  · change s.history.logged ++
      ((publishRequests fault ⟨s.live, [], none⟩ s.requests).2 ++ []).map Request.ticket = _
    rw [List.append_nil, publishRequests_map fault Request.ticket (fun _ _ => rfl) ⟨s.live, [], none⟩ s.requests]
    exact h.requests_of_idle hidle hf
  · cases hg
    rfl

/-- A step of the worker that writes nothing. -/
theorem worker_step (h : Ticketed s) (hbusy : s.worker ≠ .idle) {live : Live} {worker : Worker} {file : Bytes}
    {history : History} (hlogged : history.logged = s.history.logged) (hsound : worker.Sound → s.worker.Sound)
    (hunwritten : ∀ t : State, t.worker = worker → worker.Sound → t.unwritten = s.unwritten)
    (hfresh : ∀ g attempt, worker = .looping g attempt none → attempt = 0) :
    Ticketed { s with live := live, worker := worker, file := file, history := history } := by
  refine ⟨?_, fun hf hs => ?_, fun hf => ?_, hfresh⟩
  · simp only [hlogged]
    exact h.logged
  · simp only [hlogged]
    rw [hunwritten _ rfl hs]
    exact h.order hf (hsound hs)
  · exact absurd ((h.not_failed hbusy).symm.trans hf) (by simp)

theorem step_loopHead (h : Ticketed s) (hs : loopHead s = some s') : Ticketed s' := by
  obtain ⟨g, attempt, failure, hw, ⟨rfl, -, rfl⟩ | ⟨hno, rfl⟩⟩ := loopHead_cases hs
  · have h0 := h.fresh g attempt hw
    exact h.worker_step (by simp [hw]) rfl (fun _ => by rw [hw]; exact ⟨h0, rfl⟩)
      (fun t ht _ => by simp [State.unwritten, ht, hw]) (fun _ _ hc => by cases hc)
  · have hsome : failure ≠ none := by
      rintro rfl
      exact hno ⟨rfl, by rw [h.fresh g attempt hw]; decide⟩
    exact h.worker_step (by simp [hw]) rfl (fun hc => absurd hc hsome) (fun _ _ hc => absurd hc hsome)
      (fun _ _ hc => by cases hc)

/-- The record that is written has the next ticket. -/
theorem step_writeNext (h : Ticketed s) {outcome : WriteOutcome} (hs : writeNext s outcome = some s') :
    Ticketed s' := by
  obtain ⟨g, attempt, r, todo, hw, hcases⟩ := writeNext_cases hs
  have hbusy : s.worker ≠ .idle := by simp [hw]
  have hf := h.not_failed hbusy
  rcases hcases with ⟨e, -, rfl⟩ | ⟨-, -, rfl⟩ | ⟨-, k, -, rfl⟩
  · exact h.worker_step hbusy rfl (fun hc => by cases hc.2) (fun _ _ hc => by cases hc.2)
      (fun _ _ hc => by cases hc)
  · have horder := h.order hf (by rw [hw]; trivial)
    rw [State.unwritten_of_writing hw, List.cons_append, List.map_cons, List.append_cons] at horder
    exact ⟨⟨_, horder⟩, fun _ _ => horder, fun hc => absurd (hf.symm.trans hc) (by simp), nofun⟩
  · exact h.worker_step hbusy rfl (fun hc => by cases hc.2) (fun _ _ hc => by cases hc.2)
      (fun _ _ hc => by cases hc)

theorem step_syncFile (h : Ticketed s) {ok : Bool} (hs : syncFile s ok = some s') : Ticketed s' := by
  obtain ⟨g, attempt, hw, ⟨-, rfl⟩ | ⟨-, rfl⟩⟩ := syncFile_cases hs
  · exact h.worker_step (by simp [hw]) rfl (fun _ => by rw [hw]; trivial)
      (fun t ht _ => by simp [State.unwritten, ht, hw]) (fun _ _ hc => by cases hc)
  · exact h.worker_step (by simp [hw]) rfl (fun hc => by cases hc.2) (fun _ _ hc => by cases hc.2)
      (fun _ _ hc => by cases hc)

theorem step_settle (h : Ticketed s) (hs : settle s = some s') : Ticketed s' := by
  obtain ⟨g, failure, hw, rfl⟩ := settle_cases hs
  exact h.worker_step (by simp [hw]) rfl (fun hc => by rw [hw]; exact hc)
    (fun t ht _ => by simp [State.unwritten, ht, hw]) (fun _ _ hc => by cases hc)

theorem step_finish (h : Ticketed s) (hs : finish s = some s') : Ticketed s' := by
  obtain ⟨g, failure, hw, hcases⟩ := finish_cases hs
  have hf := h.not_failed (by simp [hw])
  rcases hcases with ⟨rfl, rfl⟩ | ⟨e, -, rfl⟩
  · have horder := h.order hf (by rw [hw]; rfl)
    rw [State.unwritten_of_finishing hw] at horder
    exact ⟨h.logged, fun _ _ => horder, fun hc => absurd (hf.symm.trans hc) (by simp), nofun⟩
  · exact ⟨h.logged, nofun, fun _ => ⟨rfl, rfl⟩, nofun⟩

/-- Every step keeps it, whatever fails. -/
theorem step {l : Label} (h : Ticketed s) (hs : wal.step s l = some s') : Ticketed s' := by
  cases l with
  | enqueueBatch ms d fault =>
    rcases enqueueBatch_cases hs with ⟨live, rfl⟩ | ⟨request, extra, hq⟩
    · exact { h with }
    · exact h.queues hq
  | flushCascade ms ackId d fault =>
    rcases flushCascade_cases hs with ⟨live, rfl⟩ | ⟨request, extra, hq⟩
    · exact { h with }
    · exact h.queues hq
  | ack id outcome synced =>
    obtain ⟨-, -, rfl⟩ := ack_cases hs
    split_ifs <;> exact { h with }
  | nextPendingFor n =>
    rw [← Option.some.inj hs]
    rcases takePending_cases s n with hs' | ⟨item, -, hs'⟩
    · rw [hs']
      exact h
    · rw [hs']
      exact { h with }
  | wake i =>
    obtain ⟨request, err, l₁, l₂, -, ⟨-, rfl⟩ | ⟨-, -, rfl⟩ | ⟨-, -, rfl⟩⟩ := wake_cases hs <;> exact { h with }
  | finishFlush i =>
    obtain ⟨request, l₁, l₂, -, rfl⟩ := finishFlush_cases hs
    exact { h with }
  | takeQueue fault => exact h.step_takeQueue hs
  | loopHead => exact h.step_loopHead hs
  | writeNext outcome => exact h.step_writeNext hs
  | syncFile ok => exact h.step_syncFile hs
  | settle => exact h.step_settle hs
  | finish => exact h.step_finish hs

end Ticketed

end Slung.Wal
