import Slung.Wal.Tickets

/-!
# Slung.Wal.PublicationOrder — publication order and log order

An eventual request is published when it is admitted, a strict one when the worker takes it, and both wait
in one queue and are written in its order.  Tickets number the admissions, so the log holds an initial range
of them (`Ticketed.logged`), and publication follows the log iff the published tickets never fall.

They fall only at a take that publishes a strict request standing before an eventual request that has been
published already.  `overtaken_run` is such a run; `published_in_log_order` says that every run without
such a take is in order, whatever fails in it.
-/

namespace Slung.Wal

open Slung.Lib

/-- Accepted mutations were published in the order in which the records of their requests stand in the
log; a request that is not in the log counts as behind all that are. -/
def State.PublishedInLogOrder (s : State) : Prop :=
  (s.history.published.map Prod.fst).Pairwise fun a b =>
    s.history.logged.idxOf a ≤ s.history.logged.idxOf b

instance (s : State) : Decidable s.PublishedInLogOrder := by
  unfold State.PublishedInLogOrder; infer_instance

/-- No request of the queue overtakes: where a strict request stands before an eventual one that has been
published, the strict one has no mutation that would be accepted. -/
def State.NoneOvertakes (s : State) : Prop :=
  s.requests.Pairwise fun r e => r.applyAfterWrite = true → e.applyAfterWrite = false →
    e.ticket ∈ s.history.published.map Prod.fst → ∀ m ∈ r.mutations, s.live.accepts m = false

instance (s : State) : Decidable s.NoneOvertakes := by
  unfold State.NoneOvertakes; infer_instance

/-- The labels of runs in which no take publishes a strict request behind an eventual one it precedes. -/
def InOrder (s : State) : Label → Prop
  | .takeQueue _ => s.NoneOvertakes
  | _ => True

/-! ## What a publication adds -/

/-- Mutations that all lose leave the state and publish nothing. -/
theorem acceptedOf_rejected (ticket : ℕ) (kind : UInt8) {self : Live} : ∀ {ms : List FactMutation},
    (∀ m ∈ ms, self.accepts m = false) →
      acceptedOf ticket kind self ms = [] ∧ self.putAll (ms.map (kind, ·)) = self
  | [], _ => ⟨rfl, rfl⟩
  | m :: ms, h => by
    have hm : self.accepts m = false := h m (by simp)
    have hput : self.put kind m = self := by
      unfold Live.put
      split_ifs
      · unfold Live.putFact
        rw [write_of_rejects hm]
      · exact Live.putDirty_of_rejects hm
    obtain ⟨h1, h2⟩ := acceptedOf_rejected ticket kind fun m' hm' => h m' (List.mem_cons_of_mem _ hm')
    refine ⟨?_, ?_⟩
    · rw [acceptedOf, if_neg (by simp [hm]), hput, h1]
      rfl
    · rw [List.map_cons, Live.putAll_cons, hput, h2]

theorem ticket_acceptedOfGroup : ∀ {self : Live} {rs : List Request} {p : ℕ × FactMutation},
    p ∈ acceptedOfGroup self rs → p.1 ∈ rs.map Request.ticket
  | _, [], _, h => by cases h
  | self, r :: rs, p, h => by
    unfold acceptedOfGroup at h
    split_ifs at h
    · rcases List.mem_append.mp h with h | h
      · exact ticket_acceptedOf h ▸ List.mem_cons_self
      · exact List.mem_cons_of_mem _ (ticket_acceptedOfGroup h)
    · exact List.mem_cons_of_mem _ (ticket_acceptedOfGroup h)

/-- A group is published in the order of its tickets. -/
theorem sorted_acceptedOfGroup : ∀ {self : Live} {rs : List Request},
    (rs.map Request.ticket).Pairwise (· < ·) →
      ((acceptedOfGroup self rs).map Prod.fst).Pairwise (· ≤ ·)
  | _, [], _ => List.Pairwise.nil
  | self, r :: rs, h => by
    rw [List.map_cons, List.pairwise_cons] at h
    unfold acceptedOfGroup
    split_ifs
    · rw [List.map_append, List.pairwise_append]
      refine ⟨?_, sorted_acceptedOfGroup h.2, ?_⟩
      · refine List.pairwise_of_forall_mem_list fun a ha b hb => ?_
        obtain ⟨p, hp, rfl⟩ := List.mem_map.mp ha
        obtain ⟨q, hq, rfl⟩ := List.mem_map.mp hb
        rw [ticket_acceptedOf hp, ticket_acceptedOf hq]
      · intro a ha b hb
        obtain ⟨p, hp, rfl⟩ := List.mem_map.mp ha
        obtain ⟨q, hq, rfl⟩ := List.mem_map.mp hb
        rw [ticket_acceptedOf hp]
        exact (h.1 _ (ticket_acceptedOfGroup hq)).le
    · exact sorted_acceptedOfGroup h.2

/-- The requests before a point all lose: what the group publishes comes after that point. -/
theorem acceptedOfGroup_append {self : Live} : ∀ {pre post : List Request},
    (∀ r ∈ pre, r.applyAfterWrite = true → ∀ m ∈ r.mutations, self.accepts m = false) →
      acceptedOfGroup self (pre ++ post) = acceptedOfGroup self post
  | [], _, _ => rfl
  | r :: pre, post, h => by
    have hpre : ∀ r' ∈ pre, r'.applyAfterWrite = true → ∀ m ∈ r'.mutations, self.accepts m = false :=
      fun r' hr' => h r' (by simp [hr'])
    rw [List.cons_append, acceptedOfGroup]
    split_ifs with ha
    · obtain ⟨h1, h2⟩ := acceptedOf_rejected r.ticket r.recordKind (h r (by simp) ha)
      rw [h1, h2, acceptedOfGroup_append hpre]
      rfl
    · exact acceptedOfGroup_append hpre

/-! ## The invariant -/

/-- Published tickets never fall, and one that may still be overtaken is in the queue. -/
structure Numbered (s : State) : Prop extends Ticketed s where
  below : ∀ p ∈ s.history.published, p.1 < s.tickets
  sorted : (s.history.published.map Prod.fst).Pairwise (· ≤ ·)
  queued : ∀ p ∈ s.history.published, ∀ r ∈ s.requests, p.1 < r.ticket ∨
    ∃ e ∈ s.requests, e.applyAfterWrite = false ∧ e.ticket = p.1

namespace Numbered

variable {s s' : State}

theorem opened (rs : List Record) : Numbered (State.opened rs) where
  toTicketed := Ticketed.opened rs
  below := by simp [State.opened]
  sorted := List.Pairwise.nil
  queued := by simp [State.opened]

/-- Tickets that never fall stand in the order of the log. -/
theorem publishedInLogOrder (h : Numbered s) : s.PublishedInLogOrder := by
  unfold State.PublishedInLogOrder
  rw [h.logged_eq]
  have hidx : ∀ a : ℕ, (List.range s.history.logged.length).idxOf a = min a s.history.logged.length := by
    intro a
    by_cases ha : a < s.history.logged.length
    · have hlen : a < (List.range s.history.logged.length).length := by rwa [List.length_range]
      have hget := List.nodup_range.idxOf_getElem a hlen
      rw [List.getElem_range] at hget
      rw [hget, Nat.min_eq_left ha.le]
    · rw [List.idxOf_eq_length (by simpa using ha), List.length_range]
      omega
  refine h.sorted.imp fun {a b} hab => ?_
  rw [hidx, hidx]
  exact min_le_min_right _ hab

/-- A request with the next ticket; what it publishes at once carries that ticket. -/
theorem queues (h : Numbered s) {request : Request} {extra : List (ℕ × FactMutation)}
    (hq : Queues s request extra s') : Numbered s' := by
  refine { toTicketed := h.toTicketed.queues hq, below := ?_, sorted := ?_, queued := ?_ }
  all_goals obtain ⟨-, ht, hextra, live, rfl⟩ := hq
  · intro p hp
    simp only [State.push]
    rcases List.mem_append.mp hp with hp | hp
    · exact (h.below p hp).trans (Nat.lt_succ_self _)
    · rw [(hextra p hp).1]
      exact Nat.lt_succ_self _
  · simp only [List.map_append, List.pairwise_append]
    refine ⟨h.sorted, List.pairwise_of_forall_mem_list fun a ha b hb => ?_, fun a ha b hb => ?_⟩
    · obtain ⟨p, hp, rfl⟩ := List.mem_map.mp ha
      obtain ⟨q, hq, rfl⟩ := List.mem_map.mp hb
      rw [(hextra p hp).1, (hextra q hq).1]
    · obtain ⟨p, hp, rfl⟩ := List.mem_map.mp ha
      obtain ⟨q, hq, rfl⟩ := List.mem_map.mp hb
      rw [(hextra q hq).1]
      exact (h.below p hp).le
  · intro p hp r hr
    simp only [State.push] at hr ⊢
    rcases List.mem_append.mp hp with hp | hp
    · rcases List.mem_append.mp hr with hr | hr
      · rcases h.queued p hp r hr with hlt | ⟨e, he, hev, hte⟩
        · exact Or.inl hlt
        · exact Or.inr ⟨e, List.mem_append_left _ he, hev, hte⟩
      · rw [List.mem_singleton.mp hr, ht]
        exact Or.inl (h.below p hp)
    · obtain ⟨hpt, hev⟩ := hextra p hp
      exact Or.inr ⟨request, by simp, hev, ht.trans hpt.symm⟩

/-- The mutations that a take publishes come behind all that are published, unless one overtakes. -/
theorem le_of_acceptedOfGroup (h : Numbered s) (hidle : s.worker = .idle) (hf : s.failed = false)
    (hno : s.NoneOvertakes) {p q : ℕ × FactMutation} (hp : p ∈ s.history.published)
    (hq : q ∈ acceptedOfGroup s.live s.requests) : p.1 ≤ q.1 := by
  have hlt := h.sorted_requests hidle hf
  obtain ⟨r, hr, hrq⟩ := List.mem_map.mp (ticket_acceptedOfGroup hq)
  rcases h.queued p hp r hr with hpr | ⟨e, he, hev, hep⟩
  · exact hrq ▸ hpr.le
  · -- everything before `e` loses, so what the group publishes stands behind it
    obtain ⟨pre, post, hsplit⟩ := List.append_of_mem he
    have hpe : e.ticket ∈ s.history.published.map Prod.fst := hep ▸ List.mem_map_of_mem hp
    rw [State.NoneOvertakes, hsplit, List.pairwise_append] at hno
    have hpre : ∀ r ∈ pre, r.applyAfterWrite = true → ∀ m ∈ r.mutations, s.live.accepts m = false :=
      fun r hr ha => hno.2.2 r hr e (by simp) ha hev hpe
    rw [hsplit, acceptedOfGroup_append hpre, acceptedOfGroup, if_neg (by simp [hev])] at hq
    rw [hsplit, List.map_append, List.pairwise_append, List.map_cons, List.pairwise_cons] at hlt
    rw [← hep]
    exact (hlt.2.1.1 _ (ticket_acceptedOfGroup hq)).le

theorem step_takeQueue (h : Numbered s) {fault : Option (ℕ × AllocPoint)} (hno : s.NoneOvertakes)
    (hs : takeQueue s fault = some s') : Numbered s' := by
  refine { toTicketed := h.toTicketed.step_takeQueue hs, below := ?_, sorted := ?_, queued := ?_ }
  all_goals
    obtain ⟨hidle, hne, live, undo, failure, rfl⟩ := takeQueue_cases hs
    have hf := h.not_failed_of_requests hne
  · intro p hp
    simp only at hp
    split_ifs at hp
    · exact h.below p hp
    · rcases List.mem_append.mp hp with hp | hp
      · exact h.below p hp
      · exact h.lt_of_mem_requests hidle hf (ticket_acceptedOfGroup hp)
  · simp only
    split_ifs
    · exact h.sorted
    · rw [List.map_append, List.pairwise_append]
      refine ⟨h.sorted, sorted_acceptedOfGroup (h.sorted_requests hidle hf), ?_⟩
      intro a ha b hb
      obtain ⟨p, hp, rfl⟩ := List.mem_map.mp ha
      obtain ⟨q, hq, rfl⟩ := List.mem_map.mp hb
      exact h.le_of_acceptedOfGroup hidle hf hno hp hq
  · intro p _ r hr
    cases hr

/-- A step that publishes nothing and queues nothing. -/
theorem quiet (h : Numbered s) (ht : Ticketed s') (hpub : s'.history.published = s.history.published)
    (htickets : s'.tickets = s.tickets) (hrequests : s'.requests = s.requests ∨ s'.requests = []) : Numbered s' := by
  refine { toTicketed := ht, below := ?_, sorted := ?_, queued := ?_ }
  · rw [hpub, htickets]
    exact h.below
  · rw [hpub]
    exact h.sorted
  · rcases hrequests with hsame | hnil
    · rw [hpub, hsame]
      exact h.queued
    · rw [hnil]
      exact fun p _ r hr => absurd hr List.not_mem_nil

/-- **Every step keeps the tickets in order**, whatever it meets, except a take that overtakes. -/
theorem step {l : Label} (h : Numbered s) (hP : InOrder s l) (hs : wal.step s l = some s') :
    Numbered s' := by
  have ht := h.toTicketed.step hs
  cases l with
  | enqueueBatch ms durability fault =>
    rcases enqueueBatch_cases hs with ⟨live, rfl⟩ | ⟨request, extra, hq⟩
    · exact h.quiet ht rfl rfl (Or.inl rfl)
    · exact h.queues hq
  | flushCascade ms ackId durability fault =>
    rcases flushCascade_cases hs with ⟨live, rfl⟩ | ⟨request, extra, hq⟩
    · exact h.quiet ht rfl rfl (Or.inl rfl)
    · exact h.queues hq
  | ack id outcome synced =>
    obtain ⟨-, -, heq⟩ := ack_cases hs
    refine h.quiet ht ?_ ?_ (Or.inl ?_) <;> rw [heq] <;> split_ifs <;> rfl
  | nextPendingFor namespaceId =>
    obtain rfl := Option.some.inj hs
    rcases takePending_cases s namespaceId with heq | ⟨item, -, heq⟩ <;>
      exact h.quiet ht (by rw [heq]) (by rw [heq]) (Or.inl (by rw [heq]))
  | wake i =>
    obtain ⟨request, err, l₁, l₂, -, ⟨-, rfl⟩ | ⟨-, -, rfl⟩ | ⟨-, -, rfl⟩⟩ := wake_cases hs <;>
      exact h.quiet ht rfl rfl (Or.inl rfl)
  | finishFlush i =>
    obtain ⟨request, l₁, l₂, -, rfl⟩ := finishFlush_cases hs
    exact h.quiet ht rfl rfl (Or.inl rfl)
  | takeQueue fault => exact h.step_takeQueue hP hs
  | loopHead =>
    obtain ⟨g, attempt, failure, -, ⟨-, -, rfl⟩ | ⟨-, rfl⟩⟩ := loopHead_cases hs <;>
      exact h.quiet ht rfl rfl (Or.inl rfl)
  | writeNext outcome =>
    obtain ⟨g, attempt, r, todo, -, ⟨e, -, rfl⟩ | ⟨-, -, rfl⟩ | ⟨-, k, -, rfl⟩⟩ := writeNext_cases hs <;>
      exact h.quiet ht rfl rfl (Or.inl rfl)
  | syncFile ok =>
    obtain ⟨g, attempt, -, ⟨-, rfl⟩ | ⟨-, rfl⟩⟩ := syncFile_cases hs <;> exact h.quiet ht rfl rfl (Or.inl rfl)
  | settle =>
    obtain ⟨g, failure, -, rfl⟩ := settle_cases hs
    exact h.quiet ht rfl rfl (Or.inl rfl)
  | finish =>
    obtain ⟨g, failure, -, ⟨-, rfl⟩ | ⟨e, -, rfl⟩⟩ := finish_cases hs
    · exact h.quiet ht rfl rfl (Or.inl rfl)
    · exact h.quiet ht rfl rfl (Or.inr rfl)

end Numbered

/-! ## The order of publication -/

/-- **Log order is publication order in every run in which no strict request overtakes.** -/
theorem published_in_log_order (rs : List Record) (s : State)
    (h : wal.Reaches InOrder (State.opened rs) s) : s.PublishedInLogOrder :=
  (h.invariant (Numbered.opened rs) fun _ _ _ hI hP hs => hI.step hP hs).publishedInLogOrder

instance (s : State) : ∀ l, Decidable (InOrder s l)
  | .takeQueue .. => inferInstanceAs (Decidable s.NoneOvertakes)
  | .enqueueBatch .. | .flushCascade .. | .ack .. | .nextPendingFor .. | .wake .. | .finishFlush .. | .loopHead
  | .writeNext .. | .syncFile .. | .settle | .finish => inferInstanceAs (Decidable True)

/-- An eventual batch, then a strict one. -/
theorem published_in_log_order_eventual_first :
    ∃ s, wal.runAllowed InOrder (State.opened []) [
        .enqueueBatch [⟨[110], 1, 2, [34, 34], ⟨5, 0, 1⟩, ⟨0, 0, []⟩⟩] .eventual none,
        .enqueueBatch [⟨[110], 1, 3, [34, 34], ⟨6, 0, 1⟩, ⟨0, 0, []⟩⟩] .strict none,
        .takeQueue none, .loopHead, .writeNext .done, .writeNext .done] = some s ∧
      s.PublishedInLogOrder := by
  have hrun : (wal.runAllowed InOrder (State.opened []) [
        .enqueueBatch [⟨[110], 1, 2, [34, 34], ⟨5, 0, 1⟩, ⟨0, 0, []⟩⟩] .eventual none,
        .enqueueBatch [⟨[110], 1, 3, [34, 34], ⟨6, 0, 1⟩, ⟨0, 0, []⟩⟩] .strict none,
        .takeQueue none, .loopHead, .writeNext .done, .writeNext .done]).isSome := by decide
  obtain ⟨s, hs⟩ := Option.isSome_iff_exists.mp hrun
  exact ⟨s, hs, published_in_log_order [] s (Machine.reaches_of_runAllowed hs)⟩

/-- The labels of runs in which nothing fails, in any durability. -/
def NoFailure : Label → Prop
  | .enqueueBatch _ _ fault | .flushCascade _ _ _ fault | .takeQueue fault => fault = none
  | .ack _ outcome synced => outcome = .done ∧ synced = true
  | .writeNext outcome => outcome = .done
  | .syncFile ok => ok = true
  | _ => True

instance : DecidablePred NoFailure
  | .enqueueBatch .. | .flushCascade .. | .takeQueue .. | .writeNext .. | .syncFile .. =>
    inferInstanceAs (Decidable (_ = _))
  | .ack .. => inferInstanceAs (Decidable (_ ∧ _))
  | .nextPendingFor .. | .wake .. | .finishFlush .. | .loopHead | .settle | .finish => inferInstanceAs (Decidable True)

/-- A strict batch waits in the queue, an eventual one behind it is published at once: the log has them the
other way round, and gives their entries each other's ids. -/
theorem overtaken_run :
    ∃ s, wal.Reaches (fun _ l => NoFailure l) (State.opened []) s ∧ s.Drained ∧
      ¬ s.PublishedInLogOrder ∧
      s.live.pending.map (fun item => (item.id, item.component)) = [(1, 3), (2, 2)] ∧
      (Live.init.replayAll s.history.log).pending.map (fun item => (item.id, item.component)) =
        [(1, 2), (2, 3)] := by
  let run : List Label := [
    .enqueueBatch [⟨[110], 1, 2, [34, 34], ⟨5, 0, 1⟩, ⟨0, 0, []⟩⟩] .strict none,
    .enqueueBatch [⟨[110], 1, 3, [34, 34], ⟨6, 0, 1⟩, ⟨0, 0, []⟩⟩] .eventual none,
    .takeQueue none, .loopHead, .writeNext .done, .writeNext .done, .syncFile true, .settle, .finish]
  have hrun : (wal.runAllowed (fun _ l => NoFailure l) (State.opened []) run).isSome := by decide
  obtain ⟨s, hs⟩ := Option.isSome_iff_exists.mp hrun
  have hw : (wal.runAllowed (fun _ l => NoFailure l) (State.opened []) run).map
      (fun s => (s.requests, s.worker)) = some ([], .idle) := rfl
  have hbad : ((wal.runAllowed (fun _ l => NoFailure l) (State.opened []) run).map fun s =>
      (decide s.PublishedInLogOrder,
        s.live.pending.map (fun item => (item.id, item.component)),
        (Live.init.replayAll s.history.log).pending.map (fun item => (item.id, item.component)))) =
      some (false, [(1, 3), (2, 2)], [(1, 2), (2, 3)]) := by decide
  rw [hs] at hw hbad
  simp only [Option.map_some, Option.some.injEq, Prod.mk.injEq, decide_eq_false_iff_not] at hw hbad
  exact ⟨s, Machine.reaches_of_runAllowed hs, hw, hbad⟩

end Slung.Wal
