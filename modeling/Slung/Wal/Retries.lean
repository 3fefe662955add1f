import Slung.Lib.Retry
import Slung.Wal.Admission
import Slung.Wal.StrictFaults

/-!
# Slung.Wal.Retries — records written again by a repeated attempt

An attempt of the worker that fails at a later record, or at the sync, leaves whole records of its group in
the file, and an attempt after it would write them again.  Replay then meets a group's first records several
times.  It makes no difference (`retried_group`): a mutation that was put is refused the second time, and an
acknowledged entry is gone and its id is never given again, because a caller can only acknowledge an id that
was below the counter.  `Retriable` carries that bound through every run with one durability, whatever
allocations, writes and syncs fail.
-/

namespace Slung.Wal

open Slung.Lib

/-! ## Replaying what is there -/

/-- Every acknowledged id is below the counter when its record is replayed. -/
def AcksBelow : Live → List Record → Prop
  | _, [] => True
  | self, r :: rs => (∀ a, r.ackedId = some a → a < self.nextId) ∧ AcksBelow (self.replay r) rs

section Replay

variable {self : Live}

theorem acksBelow_append {rs rs' : List Record} : AcksBelow self (rs ++ rs') ↔
    AcksBelow self rs ∧ AcksBelow (self.replayAll rs) rs' := by
  induction rs generalizing self with
  | nil => simp [AcksBelow]
  | cons r rs ih => simp only [List.cons_append, AcksBelow, ih, Live.replayAll_cons, and_assoc]

theorem acksBelow_singleton {r : Record} :
    AcksBelow self [r] ↔ ∀ a, r.ackedId = some a → a < self.nextId := by
  simp [AcksBelow]

theorem Live.accepts_of_holdsSince {m : FactMutation}
    (h : HoldsSince Fact.timestamp self.facts m.key m.timestamp) : self.accepts m = false := by
  obtain ⟨c, hc, hle⟩ := h
  unfold Live.accepts
  rw [accepts_of_lookup hc]
  exact decide_eq_false (not_lt.mpr hle)

theorem foldl_putDirty_of_holdsSince {ms : List FactMutation}
    (h : ∀ m ∈ ms, HoldsSince Fact.timestamp self.facts m.key m.timestamp) :
    ms.foldl Live.putDirty self = self := by
  induction ms with
  | nil => rfl
  | cons m ms ih =>
    have hm : self.accepts m = false := Live.accepts_of_holdsSince (h m (by simp))
    rw [List.foldl_cons, Live.putDirty_of_rejects hm]
    exact ih fun m' hm' => h m' (List.mem_cons_of_mem _ hm')

theorem foldl_putFact_of_holdsSince {ms : List FactMutation}
    (h : ∀ m ∈ ms, HoldsSince Fact.timestamp self.facts m.key m.timestamp) :
    ms.foldl Live.putFact self = self := by
  induction ms with
  | nil => rfl
  | cons m ms ih =>
    have hm : self.putFact m = self := by
      unfold Live.putFact
      rw [write_of_rejects (Live.accepts_of_holdsSince (h m (by simp)))]
    rw [List.foldl_cons, hm]
    exact ih fun m' hm' => h m' (List.mem_cons_of_mem _ hm')

theorem removePending_of_gone {a : ℤ} (h : ∀ item ∈ self.pending, item.id ≠ a) :
    removePending self a = self := by
  unfold removePending
  rw [List.eraseP_of_forall_not (by simpa using h)]

/-- A state that holds a record's effect does not change when the record is replayed. -/
theorem Record.Holds.replay_eq {r : Record} (h : r.Holds self) : self.replay r = self := by
  obtain ⟨hfacts, hacked⟩ := h
  cases r with
  | batch ms => exact foldl_putDirty_of_holdsSince hfacts
  | ack id => exact removePending_of_gone (hacked _ rfl)
  | cascade id ms =>
    have hms : ms.foldl Live.putFact self = self := foldl_putFact_of_holdsSince hfacts
    show removePending (ms.foldl Live.putFact self) id.toInt = self
    rw [hms, removePending_of_gone (hacked _ rfl)]

theorem replayAll_of_holds {rs : List Record} (h : ∀ r ∈ rs, r.Holds self) : self.replayAll rs = self := by
  induction rs with
  | nil => rfl
  | cons r rs ih =>
    rw [Live.replayAll_cons, (h r (by simp)).replay_eq]
    exact ih fun r' hr' => h r' (List.mem_cons_of_mem _ hr')

/-- Ids below the counter in their turn: they are assigned by the end, and gone. -/
theorem AcksBelow.gone (hok : self.PendingOk) {rs : List Record} (h : AcksBelow self rs) :
    AckedBelow self rs ∧ AckedGone self rs := by
  induction rs using List.reverseRecOn with
  | nil => exact ⟨nofun, nofun⟩
  | append_singleton rs r ih =>
    obtain ⟨hrs, hr⟩ := acksBelow_append.mp h
    obtain ⟨hbelow, hgone⟩ := ih hrs
    exact ⟨hbelow.concat (acksBelow_singleton.mp hr), hgone.concat hok (Or.inr hbelow)⟩

/-- What was replayed is held. -/
theorem AcksBelow.holds (hok : self.PendingOk) {rs : List Record} (h : AcksBelow self rs) :
    ∀ r ∈ rs, r.Holds (self.replayAll rs) :=
  fun r hr => ⟨holdsSince_of_mem hr self, (h.gone hok).2 r hr⟩

/-- **Replay can be repeated**: the first records again, once they have been replayed, change nothing. -/
theorem AcksBelow.repeatable (hok : self.PendingOk) {rs : List Record} (h : AcksBelow self rs) :
    Repeatable Live.replay self rs := by
  rintro done again ⟨rest, rfl⟩ hagain
  have hdone : AcksBelow self done := (acksBelow_append.mp h).1
  exact replayAll_of_holds fun r hr => hdone.holds hok r (hagain.subset hr)

end Replay

/-! ## Runs with one durability -/

/-- All calls use durability `d` and cascades acknowledge ids from `nextPendingFor`.  Allocations, writes and
syncs may fail anywhere. -/
def OneMode (d : Durability) (s : State) : Label → Prop
  | .enqueueBatch _ durability _ => durability = d
  | .flushCascade _ ackId durability _ => durability = d ∧ ackId.toInt ∈ s.history.issued
  | _ => True

instance (d : Durability) (s : State) : ∀ l, Decidable (OneMode d s l)
  | .enqueueBatch .. => inferInstanceAs (Decidable (_ = _))
  | .flushCascade .. => inferInstanceAs (Decidable (_ ∧ _))
  | .ack .. | .takeQueue .. | .nextPendingFor .. | .wake .. | .finishFlush .. | .loopHead | .writeNext ..
  | .syncFile .. | .settle | .finish => inferInstanceAs (Decidable True)

/-- What holds while nothing has failed: facts and counter are those of the journal, ids that callers hold are
below the counter, and so are those that the requests acknowledge, each in its turn. -/
structure Journaled (d : Durability) (live : Live) (log : List Record) (unwritten requests : List Request)
    (issued : List ℤ) : Prop where
  agree : Agree live (Live.init.replayAll
    (log ++ (unwritten ++ if d = .eventual then requests else []).map Request.record))
  below : ∀ item ∈ live.pending, item.id < live.nextId
  issued : ∀ a ∈ issued, a < live.nextId
  acks : AcksBelow (Live.init.replayAll log) ((unwritten ++ requests).map Request.record)

namespace Journaled

variable {d : Durability} {live live' : Live} {log : List Record} {unwritten requests : List Request}
  {issued : List ℤ}

theorem below_putAll (h : ∀ item ∈ live.pending, item.id < live.nextId) (kms : List (UInt8 × FactMutation)) :
    ∀ item ∈ (live.putAll kms).pending, item.id < (live.putAll kms).nextId := by
  induction kms generalizing live with
  | nil => exact h
  | cons km kms ih =>
    refine ih fun item hi => ?_
    change item ∈ (live.put km.1 km.2).pending at hi
    show item.id < (live.put km.1 km.2).nextId
    unfold Live.put at hi ⊢
    split_ifs at hi ⊢ with hk
    · exact h item hi
    · cases hacc : live.accepts km.2 with
      | false =>
        rw [Live.putDirty_of_rejects hacc] at hi ⊢
        exact h item hi
      | true =>
        rw [Live.putDirty_of_accepts hacc] at hi ⊢
        rcases List.mem_append.mp hi with hi | hi
        · exact (h item hi).trans (Int.lt_succ _)
        · obtain rfl := List.mem_singleton.mp hi
          exact Int.lt_succ _

/-- No counter is ahead of what the queue will replay to. -/
theorem nextId_le (h : Journaled d live log unwritten requests issued) : live.nextId ≤
    ((Live.init.replayAll log).replayAll ((unwritten ++ requests).map Request.record)).nextId := by
  rw [← h.agree.nextId, ← Live.replayAll_append]
  cases d with
  | eventual => exact le_rfl
  | strict =>
    rw [if_neg (by decide), List.append_nil, List.map_append, ← List.append_assoc, Live.replayAll_append _ (log ++ _)]
    exact Live.nextId_le_replayAll _ _

theorem acks_concat (h : Journaled d live log unwritten requests issued) {r : Request}
    (hr : ∀ a ∈ r.acks, a < live.nextId) :
    AcksBelow (Live.init.replayAll log) ((unwritten ++ (requests ++ [r])).map Request.record) := by
  rw [← List.append_assoc, List.map_append, acksBelow_append]
  exact ⟨h.acks, acksBelow_singleton.mpr fun a ha => (hr a (Request.mem_acks.mpr ha)).trans_le h.nextId_le⟩

/-- A strict request joins the queue. -/
theorem admit_strict (h : Journaled .strict live log unwritten requests issued) {r : Request}
    (hr : ∀ a ∈ r.acks, a < live.nextId) :
    Journaled .strict live log unwritten (requests ++ [r]) issued :=
  ⟨h.agree, h.below, h.issued, h.acks_concat hr⟩

/-- An eventual request joins the queue and is published; the entry it acknowledges may go. -/
theorem admit_eventual (h : Journaled .eventual live log unwritten requests issued) {r : Request}
    (hr : ∀ a ∈ r.acks, a < live.nextId) (hfacts : live'.facts = (live.publish r).facts)
    (hnext : live'.nextId = (live.publish r).nextId)
    (hpending : ∀ item ∈ live'.pending, item ∈ (live.publish r).pending) :
    Journaled .eventual live' log unwritten (requests ++ [r]) issued where
  agree := by
    have hagree := h.agree.replay_record r
    rw [if_pos rfl] at hagree ⊢
    rw [← List.append_assoc, List.map_append, ← List.append_assoc, Live.replayAll_append]
    exact ⟨hagree.facts.trans hfacts.symm, hagree.nextId.trans hnext.symm⟩
  below := fun item hi => hnext ▸ below_putAll h.below _ item (hpending item hi)
  issued := fun a ha => hnext ▸ (h.issued a ha).trans_le (Sim.nextId_le_publish live r)
  acks := h.acks_concat hr

/-- The worker takes the queue and publishes what is strict in it. -/
theorem take (h : Journaled d live log [] requests issued) {batch : List Request}
    (hmode : ∀ r ∈ requests, r.applyAfterWrite = decide (d = .strict))
    (hbatch : batch.map Request.record = requests.map Request.record) :
    Journaled d (live.putAll (strictMutations requests)) log batch [] issued := by
  have hagree := h.agree
  rw [List.nil_append] at hagree
  refine ⟨?_, below_putAll h.below _, fun a ha => (h.issued a ha).trans_le (live.nextId_le_putAll _), ?_⟩
  · rw [ite_self, List.append_nil, hbatch]
    cases d with
    | strict =>
      rw [putAll_strictMutations _ fun r hr => by simp [hmode r hr], Live.replayAll_append]
      rw [if_neg (by decide), List.map_nil, List.append_nil] at hagree
      exact hagree.replayAll requests
    | eventual =>
      rw [strictMutations_eventual fun r hr => by simp [hmode r hr]]
      rwa [if_pos rfl] at hagree
  · rw [List.append_nil, hbatch]
    exact h.acks

/-- The worker writes the next record. -/
theorem write {r : Request} (h : Journaled d live log (r :: unwritten) requests issued) :
    Journaled d live (log ++ [r.record]) unwritten requests issued where
  agree := by
    rw [List.append_assoc]
    exact h.agree
  below := h.below
  issued := h.issued
  acks := by
    rw [Live.replayAll_append]
    exact h.acks.2

/-- An acknowledgement reaches the file, or does not; its entry goes, or does not. -/
theorem ack (h : Journaled d live log [] [] issued) {id : Int64} {whole : Bool}
    (hlive : live' = live ∨ live' = removePending live id.toInt) :
    Journaled d live' (if whole then log ++ [.ack id] else log) [] [] issued := by
  have hagree : Agree live' (Live.init.replayAll (if whole then log ++ [.ack id] else log)) := by
    have h0 := h.agree
    rw [ite_self, List.append_nil, List.map_nil, List.append_nil] at h0
    cases whole <;> rcases hlive with rfl | rfl
    · exact h0
    · exact ⟨h0.facts, h0.nextId⟩
    · rw [if_pos rfl, Live.replayAll_append]
      exact ⟨h0.facts, h0.nextId⟩
    · rw [if_pos rfl, Live.replayAll_append]
      exact ⟨h0.facts, h0.nextId⟩
  refine ⟨by rwa [ite_self, List.append_nil, List.map_nil, List.append_nil], ?_, ?_, trivial⟩
  · rcases hlive with rfl | rfl
    · exact h.below
    · exact fun item hi => h.below item (List.mem_of_mem_eraseP hi)
  · rcases hlive with rfl | rfl <;> exact h.issued

/-- Entries may go, and ids of entries may be handed out. -/
theorem shrink (h : Journaled d live log unwritten requests issued) (a : ℤ) :
    Journaled d (removePending live a) log unwritten requests issued :=
  ⟨⟨h.agree.facts, h.agree.nextId⟩, fun item hi => h.below item (List.mem_of_mem_eraseP hi), h.issued, h.acks⟩

theorem issue (h : Journaled d live log unwritten requests issued) {item : PendingDirty}
    (hi : item ∈ live.pending) : Journaled d live log unwritten requests (issued ++ [item.id]) := by
  refine { h with issued := fun a ha => ?_ }
  rcases List.mem_append.mp ha with ha | ha
  · exact h.issued a ha
  · exact List.mem_singleton.mp ha ▸ h.below item hi

end Journaled

/-- A group that was taken without a failure is published whole. -/
theorem takeQueue_sound {s s' : State} {fault : Option (ℕ × AllocPoint)} (h : takeQueue s fault = some s')
    (hsound : s'.worker.Sound) : s'.live = s.live.putAll (strictMutations s.requests) := by
  unfold takeQueue at h
  split at h
  swap
  · cases h
  split_ifs at h
  unfold publishGroup at h
  have hfst : (publishRequests fault ⟨s.live, [], none⟩ s.requests).1 =
      publishAll fault ⟨s.live, [], none⟩ (strictMutations s.requests) := publishRequests_fst _ _
  cases hp : publishRequests fault ⟨s.live, [], none⟩ s.requests with
  | mk p batch =>
    rw [hp] at hfst
    obtain rfl : p = _ := hfst
    simp only [hp] at h
    cases hfailure : (publishAll fault ⟨s.live, [], none⟩ (strictMutations s.requests)).failure with
    | some e =>
      simp only [hfailure] at h
      obtain rfl := Option.some.inj h
      cases hsound.2
    | none =>
      simp only [hfailure] at h
      obtain rfl := Option.some.inj h
      exact publishAll_live hfailure

/-- The invariant of runs with durability `d`, whatever fails. -/
structure Retriable (d : Durability) (s : State) : Prop where
  busy : s.writing = false → s.worker = .idle
  halted : s.failed = true → s.requests = []
  mode : ∀ r ∈ s.requests, r.applyAfterWrite = decide (d = .strict)
  first : ∀ g attempt, s.worker = .looping g attempt none → attempt = 0
  healthy : s.Healthy → Journaled d s.live s.history.log s.unwritten s.requests s.history.issued

namespace Retriable

variable {d : Durability} {s s' : State}

theorem opened (rs : List Record) : Retriable d (State.opened rs) where
  busy := fun _ => rfl
  halted := nofun
  mode := nofun
  first := nofun
  healthy := by
    intro _
    refine ⟨?_, (Live.pendingOk_init.replayAll rs).below, nofun, trivial⟩
    show Agree _ (Live.init.replayAll (rs ++ List.map Request.record ([] ++ if d = .eventual then [] else [])))
    rw [ite_self, List.append_nil, List.map_nil, List.append_nil]
    exact ⟨rfl, rfl⟩

/-- A request that joins the queue, published or not. -/
theorem push (h : Retriable d s) (hf : s.failed = false) {request : Request} {live : Live} {history : History}
    (hmode : request.applyAfterWrite = decide (d = .strict))
    (hlog : history.log = s.history.log) (hissued : history.issued = s.history.issued)
    (hjournaled : Journaled d s.live s.history.log s.unwritten s.requests s.history.issued →
      Journaled d live s.history.log s.unwritten (s.requests ++ [request]) s.history.issued) :
    Retriable d { (s.push request) with live := live, history := history } where
  busy := h.busy
  halted := fun hc => absurd (hf.symm.trans hc) (by simp)
  mode := by
    intro r hr
    rcases List.mem_append.mp hr with hr | hr
    · exact h.mode r hr
    · exact List.mem_singleton.mp hr ▸ hmode
  first := h.first
  healthy := by
    intro hs
    simp only [hlog, hissued]
    exact hjournaled (h.healthy hs)

theorem step_enqueueBatch (h : Retriable d s) {ms : List FactMutation} {fault : Option (ℕ × AllocPoint)}
    (hs : enqueueBatch s ms d fault = some s') : Retriable d s' := by
  cases d with
  | strict =>
    unfold enqueueBatch at hs
    by_cases hms : ms = []
    · rw [if_pos hms] at hs
      exact Option.some.inj hs ▸ h
    rw [if_neg hms] at hs
    rcases admission_cases hs with rfl | ⟨hf, rfl⟩
    · exact h
    · exact h.push hf rfl rfl rfl fun hj => hj.admit_strict (by simp)
  | eventual =>
    rcases enqueueBatch_eventual hs with rfl | ⟨request, history, rfl, hf, hrecord, hmode, hlog, hissued⟩
    · exact h
    · refine h.push hf hmode hlog hissued fun hj => hj.admit_eventual ?_ rfl rfl fun _ hi => hi
      intro a ha
      rw [Request.mem_acks, hrecord] at ha
      cases ha

theorem step_flushCascade (h : Retriable d s) {ms : List FactMutation} {ackId : Int64}
    {fault : Option (ℕ × AllocPoint)} (hid : ackId.toInt ∈ s.history.issued)
    (hs : flushCascade s ms ackId d fault = some s') : Retriable d s' := by
  cases d with
  | strict =>
    unfold flushCascade at hs
    rcases admission_cases hs with rfl | ⟨hf, rfl⟩
    · exact h
    · refine h.push hf rfl rfl rfl fun hj => hj.admit_strict fun a ha => ?_
      exact hj.issued a (List.mem_singleton.mp ha ▸ hid)
  | eventual =>
    rcases flushCascade_eventual hs with rfl | ⟨request, history, rfl, hf, hrecord, hmode, hlog, hissued⟩
    · exact h
    · refine h.push hf hmode hlog hissued fun hj => hj.admit_eventual ?_ rfl rfl fun _ => List.mem_of_mem_eraseP
      intro a ha
      rw [Request.mem_acks, hrecord] at ha
      exact Option.some.inj ha ▸ hj.issued _ hid

theorem step_ack (h : Retriable d s) {id : Int64} {outcome : WriteOutcome} {synced : Bool}
    (hs : ack s id outcome synced = some s') : Retriable d s' := by
  obtain ⟨hw, hq, rfl⟩ := ack_cases hs
  have hidle := h.busy hw
  have hunwritten : s.unwritten = [] := State.unwritten_of_idle hidle
  have key : ∀ (live : Live) (file : Bytes) (history : History) (whole : Bool),
      (live = s.live ∨ live = removePending s.live id.toInt) →
      history.log = (if whole then s.history.log ++ [.ack id] else s.history.log) →
      history.issued = s.history.issued →
      Retriable d { s with live := live, file := file, history := history } := by
    intro live file history whole hlive hlog hissued
    refine ⟨h.busy, h.halted, h.mode, h.first, fun hs => ?_⟩
    have hj := h.healthy hs
    rw [hunwritten, hq] at hj
    show Journaled d live history.log s.unwritten s.requests history.issued
    rw [hlog, hissued, hunwritten, hq]
    exact hj.ack hlive
  obtain ⟨whole, hwhole⟩ : ∃ whole : Bool,
      (s.appendRecord (.ack id) (Record.ack id).encode outcome).history.log =
        if whole then s.history.log ++ [.ack id] else s.history.log := by
    unfold State.appendRecord
    simp only
    split_ifs
    · exact ⟨true, rfl⟩
    · exact ⟨false, rfl⟩
  split_ifs
  · exact key _ _ _ whole (Or.inr rfl) hwhole rfl
  · exact key _ _ _ whole (Or.inl rfl) hwhole rfl

theorem step_takePending (h : Retriable d s) (namespaceId : Option NamespaceId) :
    Retriable d (takePending s namespaceId) := by
  rcases takePending_cases s namespaceId with hs | ⟨item, hmem, hs⟩
  · rw [hs]
    exact h
  · rw [hs]
    exact { h with healthy := fun hs => (h.healthy hs).issue hmem }

theorem step_takeQueue (h : Retriable d s) {fault : Option (ℕ × AllocPoint)}
    (hs : takeQueue s fault = some s') : Retriable d s' := by
  obtain ⟨hidle, hne, live, undo, failure, rfl⟩ := takeQueue_cases hs
  have hunwritten : s.unwritten = [] := State.unwritten_of_idle hidle
  have hf : s.failed = false := by
    cases hf : s.failed with
    | false => rfl
    | true => exact absurd (h.halted hf) hne
  refine ⟨nofun, fun _ => rfl, nofun, ?_, fun hsound => ?_⟩
  · intro g attempt hw
    exact (Worker.looping.inj hw).2.1.symm
  · have hlive : live = s.live.putAll (strictMutations s.requests) := takeQueue_sound hs hsound.2
    have hj := h.healthy ⟨hf, by rw [hidle]; trivial⟩
    rw [hunwritten] at hj
    rw [hlive]
    exact hj.take h.mode (publishRequests_map fault Request.record (fun _ _ => rfl) _ _)

/-- A step of the worker inside its group. -/
theorem worker_step (h : Retriable d s) {worker : Worker} {live : Live} {file : Bytes} {history : History}
    (hbusy : s.worker ≠ .idle) (hfirst : ∀ g attempt, worker = .looping g attempt none → attempt = 0)
    (hhealthy : s.failed = false → worker.Sound → Journaled d live history.log
      { s with worker := worker }.unwritten s.requests history.issued) :
    Retriable d { s with worker := worker, live := live, file := file, history := history } where
  busy := fun hw => absurd (h.busy hw) hbusy
  halted := h.halted
  mode := h.mode
  first := hfirst
  healthy := fun hs => hhealthy hs.1 hs.2

theorem step_loopHead (h : Retriable d s) (hs : loopHead s = some s') : Retriable d s' := by
  obtain ⟨g, attempt, failure, hw, ⟨rfl, -, rfl⟩ | ⟨hc, rfl⟩⟩ := loopHead_cases hs
  · have hunwritten : s.unwritten = g.batch := State.unwritten_of_looping hw
    refine h.worker_step (by simp [hw]) nofun fun hf _ => ?_
    have hj := h.healthy ⟨hf, by rw [hw]; exact ⟨h.first g attempt hw, rfl⟩⟩
    rwa [hunwritten] at hj
  · refine h.worker_step (by simp [hw]) nofun fun hf hsound => ?_
    -- the loop ends without a failure only after three attempts, and a second one is never made
    obtain rfl : failure = none := hsound
    rw [h.first g attempt hw] at hc
    exact absurd ⟨rfl, by decide⟩ hc

theorem step_writeNext (h : Retriable d s) {outcome : WriteOutcome} (hs : writeNext s outcome = some s') :
    Retriable d s' := by
  obtain ⟨g, attempt, r, todo, hw, hcases⟩ := writeNext_cases hs
  have hunwritten : s.unwritten = r :: todo := State.unwritten_of_writing hw
  rcases hcases with ⟨e, -, rfl⟩ | ⟨-, -, rfl⟩ | ⟨-, k, -, rfl⟩
  · exact h.worker_step (by simp [hw]) nofun fun _ hsound => nomatch hsound.2
  · refine h.worker_step (by simp [hw]) nofun fun hf _ => ?_
    have hj := h.healthy ⟨hf, by rw [hw]; trivial⟩
    rw [hunwritten] at hj
    exact hj.write
  · exact h.worker_step (by simp [hw]) nofun fun _ hsound => nomatch hsound.2

theorem step_syncFile (h : Retriable d s) {ok : Bool} (hs : syncFile s ok = some s') : Retriable d s' := by
  obtain ⟨g, attempt, hw, ⟨-, rfl⟩ | ⟨-, rfl⟩⟩ := syncFile_cases hs
  · refine h.worker_step (by simp [hw]) nofun fun hf _ => ?_
    have hj := h.healthy ⟨hf, by rw [hw]; trivial⟩
    have hunwritten : s.unwritten = [] := State.unwritten_of_writing hw
    rwa [hunwritten] at hj
  · exact h.worker_step (by simp [hw]) nofun fun _ hsound => nomatch hsound.2

theorem step_settle (h : Retriable d s) (hs : settle s = some s') : Retriable d s' := by
  obtain ⟨g, failure, hw, rfl⟩ := settle_cases hs
  have hunwritten : s.unwritten = [] := State.unwritten_of_settling hw
  refine h.worker_step (by simp [hw]) nofun fun hf hsound => ?_
  obtain rfl : failure = none := hsound
  have hj := h.healthy ⟨hf, by rw [hw]; rfl⟩
  rwa [hunwritten] at hj

theorem step_finish (h : Retriable d s) (hs : finish s = some s') : Retriable d s' := by
  obtain ⟨g, failure, hw, ⟨rfl, rfl⟩ | ⟨e, rfl, rfl⟩⟩ := finish_cases hs
  · refine ⟨fun _ => rfl, h.halted, h.mode, nofun, fun hsound => ?_⟩
    have hunwritten : s.unwritten = [] := State.unwritten_of_finishing hw
    have hj := h.healthy ⟨hsound.1, by rw [hw]; rfl⟩
    rwa [hunwritten] at hj
  · exact ⟨fun _ => rfl, fun _ => rfl, nofun, nofun, fun hsound => nomatch hsound.1⟩

theorem step_wake (h : Retriable d s) {i : ℕ} (hs : wake s i = some s') : Retriable d s' := by
  obtain ⟨request, err, l₁, l₂, -, ⟨-, rfl⟩ | ⟨-, -, rfl⟩ | ⟨-, -, rfl⟩⟩ := wake_cases hs
  · exact ⟨h.busy, h.halted, h.mode, h.first, h.healthy⟩
  · exact ⟨h.busy, h.halted, h.mode, h.first, h.healthy⟩
  · exact ⟨h.busy, h.halted, h.mode, h.first, h.healthy⟩

theorem step_finishFlush (h : Retriable d s) {i : ℕ} (hs : finishFlush s i = some s') : Retriable d s' := by
  obtain ⟨request, l₁, l₂, -, rfl⟩ := finishFlush_cases hs
  exact ⟨h.busy, h.halted, h.mode, h.first, fun hs => (h.healthy hs).shrink _⟩

/-- **Every step keeps the invariant.** -/
theorem step {l : Label} (h : Retriable d s) (hP : OneMode d s l) (hs : wal.step s l = some s') :
    Retriable d s' := by
  cases l with
  | enqueueBatch ms durability fault =>
    obtain rfl : durability = d := hP
    exact h.step_enqueueBatch hs
  | flushCascade ms ackId durability fault =>
    obtain ⟨rfl, hid⟩ := hP
    exact h.step_flushCascade hid hs
  | ack id outcome synced => exact h.step_ack hs
  | nextPendingFor namespaceId =>
    obtain rfl := Option.some.inj hs
    exact h.step_takePending namespaceId
  | wake i => exact h.step_wake hs
  | finishFlush i => exact h.step_finishFlush hs
  | takeQueue fault => exact h.step_takeQueue hs
  | loopHead => exact h.step_loopHead hs
  | writeNext outcome => exact h.step_writeNext hs
  | syncFile ok => exact h.step_syncFile hs
  | settle => exact h.step_settle hs
  | finish => exact h.step_finish hs

theorem reaches {rs : List Record} (h : wal.Reaches (OneMode d) (State.opened rs) s) : Retriable d s :=
  h.invariant (opened rs) fun _ _ _ hI hP hs => hI.step hP hs

end Retriable

/-! ## Retried groups -/

/-- The group that the worker takes is the queue, and its acknowledged ids are below the counter in their turn. -/
theorem taken_repeatable {d : Durability} {rs : List Record} {s s' : State} {fault : Option (ℕ × AllocPoint)}
    (h : wal.Reaches (OneMode d) (State.opened rs) s) (htake : wal.step s (.takeQueue fault) = some s') :
    Repeatable Live.replay (Live.init.replayAll s.history.log) (s'.group.map Request.record) := by
  have hI := Retriable.reaches h
  obtain ⟨hidle, hne, -⟩ := takeQueue_cases htake
  have hf : s.failed = false := by
    cases hf : s.failed with
    | false => rfl
    | true => exact absurd (hI.halted hf) hne
  have hgroup : s'.group.map Request.record = s.requests.map Request.record := by
    obtain ⟨-, -, live, undo, failure, rfl⟩ := takeQueue_cases htake
    exact publishRequests_map fault Request.record (fun _ _ => rfl) _ _
  have hacks : AcksBelow (Live.init.replayAll s.history.log) (s.requests.map Request.record) := by
    have hj := hI.healthy ⟨hf, by rw [hidle]; trivial⟩
    have hunwritten : s.unwritten = [] := State.unwritten_of_idle hidle
    rw [hunwritten] at hj
    exact hj.acks
  rw [hgroup]
  exact hacks.repeatable (Live.pendingOk_init.replayAll _)

/-- **A retried group replays as if written once.**  In every run with one durability, whatever fails, any
number of whole-record beginnings of the group that the worker takes make no difference in front of it. -/
theorem retried_group (d : Durability) (rs : List Record) (s s' : State) (fault : Option (ℕ × AllocPoint))
    (attempts : List (List Record)) (h : wal.Reaches (OneMode d) (State.opened rs) s)
    (htake : wal.step s (.takeQueue fault) = some s')
    (hattempts : ∀ p ∈ attempts, p <+: s'.group.map Request.record) :
    Live.init.replayAll (s.history.log ++ (attempts.flatten ++ s'.group.map Request.record)) =
      Live.init.replayAll (s.history.log ++ s'.group.map Request.record) := by
  rw [Live.replayAll_append _ s.history.log, Live.replayAll_append _ s.history.log]
  exact (taken_repeatable h htake).foldl_attempts hattempts

/-- A cascade and a batch on the key that it wrote; the first attempt stopped before the second record, the
second at the sync. -/
theorem retried_group_example :
    let m : FactMutation := ⟨[110], 1, 2, [49], ⟨5, 0, 1⟩, ⟨0, 0, []⟩⟩
    let cascade : Record := .cascade 1 [{ m with timestamp := ⟨6, 0, 1⟩ }]
    let batch : Record := .batch [{ m with timestamp := ⟨7, 0, 1⟩ }, { m with component := 3 }]
    Live.init.replayAll ([.batch [m]] ++ ([[cascade], [cascade, batch]].flatten ++ [cascade, batch])) =
      Live.init.replayAll ([.batch [m]] ++ [cascade, batch]) := by
  intro m cascade batch
  let run : List Label := [.nextPendingFor none,
    .flushCascade [{ m with timestamp := ⟨6, 0, 1⟩ }] 1 .strict none,
    .enqueueBatch [{ m with timestamp := ⟨7, 0, 1⟩ }, { m with component := 3 }] .strict none]
  have hrun : (wal.runAllowed (OneMode .strict) (State.opened [.batch [m]]) run).isSome := by decide
  have htake : ((wal.runAllowed (OneMode .strict) (State.opened [.batch [m]]) run).bind
      fun s => (wal.step s (.takeQueue none)).map fun s' => (s.history.log, s'.group.map Request.record)) =
      some ([.batch [m]], [cascade, batch]) := by decide
  obtain ⟨s, hs⟩ := Option.isSome_iff_exists.mp hrun
  rw [hs, Option.bind_some] at htake
  obtain ⟨s', hs', htaken⟩ := Option.map_eq_some_iff.mp htake
  obtain ⟨hlog, hgroup⟩ := Prod.mk.inj htaken
  have hattempts : ∀ p ∈ [[cascade], [cascade, batch]], p <+: s'.group.map Request.record := by
    rw [hgroup]
    decide
  have := retried_group .strict _ s s' none _ (Machine.reaches_of_runAllowed hs) hs' hattempts
  rwa [hlog, hgroup] at this

/-- So a file with such beginnings in it recovers to the state that the group alone gives. -/
theorem recover_retried {d : Durability} {rs : List Record} {s s' : State} {fault : Option (ℕ × AllocPoint)}
    {attempts : List (List Record)} (h : wal.Reaches (OneMode d) (State.opened rs) s)
    (htake : wal.step s (.takeQueue fault) = some s')
    (hattempts : ∀ p ∈ attempts, p <+: s'.group.map Request.record)
    (hreadable : ∀ r ∈ s.history.log ++ s'.group.map Request.record, r.Readable) :
    (recover Live.init (logOf (s.history.log ++ (attempts.flatten ++ s'.group.map Request.record)))).map Prod.fst =
      .ok (Live.init.replayAll (s.history.log ++ s'.group.map Request.record)) := by
  have hall : ∀ r ∈ s.history.log ++ (attempts.flatten ++ s'.group.map Request.record), r.Readable := by
    intro r hr
    rcases List.mem_append.mp hr with hr | hr
    · exact hreadable r (List.mem_append_left _ hr)
    · refine hreadable r (List.mem_append_right _ ?_)
      rcases List.mem_append.mp hr with hr | hr
      · obtain ⟨p, hp, hr⟩ := List.mem_flatten.mp hr
        exact (hattempts p hp).subset hr
      · exact hr
  rw [recover_logOf hall, Live.replayAll_append _ s.history.log, Live.replayAll_append _ s.history.log]
  exact congrArg Except.ok ((taken_repeatable h htake).foldl_attempts hattempts)

end Slung.Wal
