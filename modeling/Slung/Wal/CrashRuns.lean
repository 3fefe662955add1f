import Mathlib.Data.List.Find
import Slung.Wal.Ledger
import Slung.Wal.Refinement

/-!
# Slung.Wal.CrashRuns — sessions over one log, with crashes

One session for each namespace takes the next pending entry of its namespace and either gives the run up or
appends the checkpoint that acknowledges the entry; source mutations come from anywhere; a crash keeps some
records of the log, no fewer than the synced ones, and the process recovers from them.  The labels are the
critical sections of `Slung.Wal.Machine`, so callers, sessions and the worker interleave freely.

A strict checkpoint leaves its entry in the pending list until its call returns, and an eventual one is
published before it is written.  So while calls are running the ledger is kept between the journal, which has
the records in flight, and the pending list without the entries that calls are about to take out
(`dirty_once`).  When all calls have returned these are the log and the pending list.
-/

namespace Slung.Wal

open Slung.Lib

/-! ## The process -/

/-- Where the session of a namespace stands. -/
inductive Session where
  | resting
  /-- running the inference for the entry with this id -/
  | running (id : ℤ)
  /-- inside a strict `flushCascade` that acknowledges this id -/
  | flushing (id : ℤ)
deriving DecidableEq

structure Process where
  wal : State
  session : NamespaceId → Session

inductive Event where
  | enqueueBatch (mutations : List FactMutation)
  /-- a resting session asks for its next entry -/
  | take (n : NamespaceId)
  /-- a run ends without a checkpoint -/
  | fail (n : NamespaceId)
  | flush (n : NamespaceId) (mutations : List FactMutation) (ackId : Int64)
  | wake (i : ℕ)
  | finishFlush (n : NamespaceId) (i : ℕ)
  | takeQueue
  | loopHead
  | writeNext
  | syncFile
  | settle
  | finish
  /-- the process dies, and `kept` records of the log are there when it starts again -/
  | crash (kept : ℕ)
deriving DecidableEq

namespace Process

/-- A new process over an empty log. -/
def opened : Process := ⟨State.opened [], fun _ => .resting⟩

/-- A step of the log that no session waits for. -/
def withWal (p : Process) (wal : Option State) : Option Process := wal.map fun s => { p with wal := s }

/-- A session asks for its next entry. -/
def take (p : Process) (n : NamespaceId) : Option Process :=
  match p.session n, nextPendingFor p.wal.live (some n) with
  | .resting, some item => some ⟨takePending p.wal (some n), Function.update p.session n (.running item.id)⟩
  | .resting, none => some p
  | _, _ => none

def fail (p : Process) (n : NamespaceId) : Option Process :=
  match p.session n with
  | .running _ => some { p with session := Function.update p.session n .resting }
  | _ => none

/-- A session appends the checkpoint of its run; a strict call has still to return. -/
def flush (d : Durability) (p : Process) (n : NamespaceId) (mutations : List FactMutation) (ackId : Int64) :
    Option Process :=
  match p.session n with
  | .running id =>
    if ackId.toInt = id then
      (flushCascade p.wal mutations ackId d none).map fun s => ⟨s, Function.update p.session n
        (match d with
          | .strict => .flushing id
          | .eventual => .resting)⟩
    else none
  | _ => none

/-- The strict `flushCascade` of a session returns. -/
def finishFlush (p : Process) (n : NamespaceId) (i : ℕ) : Option Process :=
  match p.session n, p.wal.removing[i]? with
  | .flushing id, some request =>
    if request.ackId.toInt = id then
      (Wal.finishFlush p.wal i).map fun s => ⟨s, Function.update p.session n .resting⟩
    else none
  | _, _ => none

/-- Recovery from a file that holds whole records. -/
def crash (p : Process) (kept : ℕ) : Option Process :=
  if p.wal.history.synced ≤ kept ∧ kept ≤ p.wal.history.log.length then
    match recover Live.init (logOf (p.wal.history.log.take kept)) with
    | .ok (live, file) => some ⟨{ State.opened (p.wal.history.log.take kept) with live := live, file := file },
        fun _ => .resting⟩
    | .error _ => none
  else none

end Process

/-- One step of the sessions and the log, in durability `d`. -/
def sessions (d : Durability) : Machine Process Event where
  step p
    | .enqueueBatch mutations => p.withWal (enqueueBatch p.wal mutations d none)
    | .take n => p.take n
    | .fail n => p.fail n
    | .flush n mutations ackId => p.flush d n mutations ackId
    | .wake i => p.withWal (wake p.wal i)
    | .finishFlush n i => p.finishFlush n i
    | .takeQueue => p.withWal (takeQueue p.wal none)
    | .loopHead => p.withWal (loopHead p.wal)
    | .writeNext => p.withWal (writeNext p.wal .done)
    | .syncFile => p.withWal (syncFile p.wal true)
    | .settle => p.withWal (settle p.wal)
    | .finish => p.withWal (finish p.wal)
    | .crash kept => p.crash kept

/-- What is appended fits into a record. -/
def Appends (_ : Process) : Event → Prop
  | .enqueueBatch mutations => (Record.batch mutations).Writable
  | .flush _ mutations ackId => (Record.cascade ackId mutations).Writable
  | _ => True

/-! ## How the pending list grows -/

/-- Old entries stay and new ones have new ids. -/
structure Grows (live live' : Live) : Prop where
  kept : ∀ item ∈ live.pending, item ∈ live'.pending
  old : ∀ item ∈ live'.pending, item ∈ live.pending ∨ live.nextId ≤ item.id
  nextId : live.nextId ≤ live'.nextId

namespace Grows

variable {live live' live'' : Live}

theorem refl (live : Live) : Grows live live := ⟨fun _ h => h, fun _ h => Or.inl h, le_rfl⟩

theorem trans (h : Grows live live') (h' : Grows live' live'') : Grows live live'' := by
  refine ⟨fun item hi => h'.kept item (h.kept item hi), fun item hi => ?_, h.nextId.trans h'.nextId⟩
  rcases h'.old item hi with hi | hi
  · exact h.old item hi
  · exact Or.inr (h.nextId.trans hi)

theorem publish (live : Live) (r : Request) : Grows live (live.publish r) := by
  have hnext := Sim.nextId_le_publish live r
  unfold Live.publish at hnext ⊢
  by_cases hk : r.recordKind = recordCascade
  · rw [hk, Live.putAll_noDirty] at hnext ⊢
    exact ⟨by simp, fun item hi => Or.inl (by simpa using hi), hnext⟩
  · rw [Live.putAll_dirty _ hk] at hnext ⊢
    refine ⟨fun item hi => ?_, fun item hi => ?_, hnext⟩
    · rw [pending_foldl_putDirty]
      exact List.mem_append_left _ hi
    · rw [pending_foldl_putDirty] at hi
      rcases List.mem_append.mp hi with hi | hi
      · exact Or.inl hi
      · obtain ⟨e, he, rfl⟩ := List.mem_map.mp hi
        exact Or.inr (created_bounds live r.mutations e he).1

theorem foldl_publish (live : Live) (rs : List Request) : Grows live (rs.foldl Live.publish live) := by
  induction rs generalizing live with
  | nil => exact refl live
  | cons r rs ih => exact (publish live r).trans (ih _)

end Grows

/-! ## The records and the acknowledgements on their way -/

namespace State

/-- The log with everything that will be appended to it. -/
def intent (s : State) : List Record := s.history.log ++ (s.unwritten ++ s.requests).map Request.record

/-- The ids that strict calls have still to take out of the pending list. -/
def hidden (s : State) : List ℤ := (s.requests.filter (·.callerWaits)).flatMap Request.acks ++ s.owed

end State

theorem acknowledged_map_record (rs : List Request) :
    acknowledged (rs.map Request.record) = rs.flatMap Request.acks := by
  induction rs with
  | nil => rfl
  | cons r rs ih => rw [List.map_cons, acknowledged_cons, ih, r.toList_ackedId, List.flatMap_cons]

section

variable {fits : Record → Prop} {d : Durability} {s s' : State}

theorem hidden_below (h : Tracks fits d s) : ∀ a ∈ s.hidden, a < s.live.nextId := by
  intro a ha
  rcases List.mem_append.mp ha with ha | ha
  · obtain ⟨r, hr, har⟩ := List.mem_flatMap.mp ha
    exact h.queued r (List.mem_of_mem_filter hr) a har
  · exact h.sim.below a ha

/-- The journal is the intent without the strict requests that still wait in the queue. -/
theorem intent_eq (s : State) (d : Durability) : s.intent =
    s.journal d ++ (if d = .eventual then [] else s.requests).map Request.record := by
  unfold State.intent State.journal
  by_cases hd : d = .eventual
  · simp [hd]
  · simp [hd]

/-- An entry that no call is about to take out is pending after everything has been appended. -/
theorem mem_replayAll_intent (h : Tracks fits d s) {item : PendingDirty} (hi : item ∈ s.live.pending)
    (hno : item.id ∉ s.hidden) : item ∈ (Live.init.replayAll s.intent).pending := by
  obtain ⟨hqueue, howed⟩ := not_or.mp (List.mem_append.not.mp hno)
  rw [intent_eq s d, Live.replayAll_append]
  refine mem_pending_replayAll_of_not_acked ?_ ?_
  · rw [h.sim.pending]
    exact List.mem_filter.mpr ⟨hi, by simpa using howed⟩
  · rw [acknowledged_map_record]
    by_cases hd : d = .eventual
    · simp [hd]
    · rw [if_neg hd]
      have hfilter : s.requests.filter (·.callerWaits) = s.requests := by
        refine List.filter_eq_self.mpr fun r hr => ?_
        have hstrict : d = .strict := by
          cases d with
          | strict => rfl
          | eventual => exact absurd rfl hd
        rw [(h.mode r (List.mem_append_left _ hr)).1, decide_eq_true hstrict]
      rwa [hfilter] at hqueue

/-- A step that appends nothing but source mutations and returns no checkpoint. -/
structure Quiet (s s' : State) : Prop where
  intent : ∃ bs, acknowledged bs = [] ∧ s'.intent = s.intent ++ bs
  hidden : s'.hidden.Perm s.hidden
  issued : s'.history.issued = s.history.issued
  grows : Grows s.live s'.live

theorem acksPending_of_acknowledged_nil : ∀ {self : Live} {bs : List Record},
    acknowledged bs = [] → AcksPending self bs
  | _, [], _ => trivial
  | self, r :: bs, h => by
    rw [acknowledged_cons, List.append_eq_nil_iff] at h
    refine ⟨fun a ha => ?_, acksPending_of_acknowledged_nil h.2⟩
    rw [ha] at h
    cases h.1

/-- A step of the worker, or of a caller that leaves the log. -/
theorem Quiet.of_same (hintent : s'.intent = s.intent) (hhidden : s'.hidden.Perm s.hidden)
    (hissued : s'.history.issued = s.history.issued) (hlive : s'.live = s.live) : Quiet s s' :=
  ⟨⟨[], rfl, by rw [hintent, List.append_nil]⟩, hhidden, hissued, hlive ▸ Grows.refl _⟩

namespace Quiet

theorem enqueueBatch {ms : List FactMutation} (hs : enqueueBatch s ms d none = some s') : Quiet s s' := by
  unfold Wal.enqueueBatch at hs
  by_cases hms : ms = []
  · rw [if_pos hms] at hs
    obtain rfl := Option.some.inj hs
    exact .of_same rfl .rfl rfl rfl
  rw [if_neg hms] at hs
  have hfilter : ∀ r : Request, r.acks = [] →
      ((s.requests ++ [r]).filter (·.callerWaits)).flatMap Request.acks =
        (s.requests.filter (·.callerWaits)).flatMap Request.acks := by
    intro r hr
    rw [List.filter_append, List.flatMap_append]
    cases hw : r.callerWaits <;> simp [hw, hr]
  have hintent : ∀ (s₀ : State) (r : Request) (ms : List FactMutation), r.record = .batch ms →
      s₀.intent = s.intent ++ [r.record] →
        ∃ bs, acknowledged bs = [] ∧ s₀.intent = s.intent ++ bs := by
    intro s₀ r ms hr hs₀
    exact ⟨[r.record], by rw [hr]; rfl, hs₀⟩
  rcases admission_cases hs with rfl | ⟨-, rfl⟩
  · exact .of_same rfl .rfl rfl rfl
  cases d with
  | strict =>
    refine ⟨hintent _ (newRequest s recordBatch ms 0 .strict) ms rfl ?_, ?_, rfl, Grows.refl _⟩
    · simp [State.intent, State.push, State.unwritten]
    · unfold State.hidden
      simp only [State.push, hfilter _ (acks_newRequest_batch)]
      exact .rfl
  | eventual =>
    obtain ⟨accepted, hp⟩ := publishNow_none s (newRequest s recordBatch ms 0 .eventual)
      (fun live => rollbackPending live s.live.pending.length s.live.nextId) id
    simp only [hp]
    refine ⟨hintent _ { newRequest s recordBatch ms 0 .eventual with accepted := accepted } ms rfl ?_, ?_,
      rfl, Grows.publish _ _⟩
    · simp [State.intent, State.push, State.unwritten]
    · unfold State.hidden
      simp only [State.push]
      rw [hfilter { newRequest s recordBatch ms 0 .eventual with accepted := accepted } rfl]
      exact .rfl

theorem takeQueue (h : Tracks fits d s) (hs : takeQueue s none = some s') : Quiet s s' := by
  obtain ⟨hidle, -, rfl⟩ := takeQueue_none hs
  have hmode : ∀ r ∈ s.requests, r.applyAfterWrite = decide (d = .strict) :=
    fun r hr => (h.mode r (List.mem_append_left _ hr)).2
  have hrecords := publishRequests_map none Request.record (fun _ _ => rfl) ⟨s.live, [], none⟩ s.requests
  have hacks := publishRequests_map none (fun r => if r.callerWaits then r.acks else [])
    (fun _ _ => rfl) ⟨s.live, [], none⟩ s.requests
  have hflat : ∀ rs : List Request, (rs.filter (·.callerWaits)).flatMap Request.acks =
      (rs.map fun r => if r.callerWaits then r.acks else []).flatten := by
    intro rs
    induction rs with
    | nil => rfl
    | cons r rs ih =>
      cases hw : r.callerWaits <;> simp [hw, ih]
  generalize (publishRequests none ⟨s.live, [], none⟩ s.requests).2 = batch at hrecords hacks
  refine ⟨⟨[], rfl, ?_⟩, ?_, rfl, ?_⟩
  · simp [State.intent, State.unwritten, hidle, hrecords]
  · have hbatch : (batch.filter (·.callerWaits)).flatMap Request.acks =
        (s.requests.filter (·.callerWaits)).flatMap Request.acks := by rw [hflat, hflat, hacks]
    simp [State.hidden, State.owed, State.group, hidle, hbatch]
  · change Grows s.live (s.live.putAll (strictMutations s.requests))
    cases d with
    | strict =>
      rw [putAll_strictMutations _ fun r hr => by simp [hmode r hr]]
      exact Grows.foldl_publish _ _
    | eventual =>
      rw [strictMutations_eventual fun r hr => by simp [hmode r hr]]
      exact Grows.refl _

theorem loopHead (h : Tracks fits d s) (hs : loopHead s = some s') : Quiet s s' := by
  obtain ⟨g, attempt, failure, hw, ⟨-, -, rfl⟩ | ⟨hno, -⟩⟩ := loopHead_cases hs
  · refine .of_same ?_ ?_ rfl rfl
    · simp [State.intent, State.unwritten, hw]
    · simp [State.hidden, State.owed, State.group, hw]
  · have hsound := h.healthy.2
    rw [hw] at hsound
    exact absurd ⟨hsound.2, by rw [hsound.1]; decide⟩ hno

theorem writeNext (h : Tracks fits d s) (hs : writeNext s .done = some s') : Quiet s s' := by
  obtain ⟨g, attempt, r, todo, hw, hcases⟩ := writeNext_cases hs
  rcases hcases with ⟨e, he, -⟩ | ⟨-, -, rfl⟩ | ⟨-, k, hk, -⟩
  · have hr : r ∈ s.group := h.unwritten r (by simp [State.unwritten, hw])
    have hfits := h.limits.writable _ (h.fitting r (List.mem_append_right _ hr))
    rw [(r.record.write_ok_iff _).mpr ⟨hfits, rfl⟩] at he
    cases he
  · refine .of_same ?_ ?_ rfl rfl
    · simp [State.intent, State.unwritten, hw]
    · simp [State.hidden, State.owed, State.group, hw]
  · cases hk

theorem syncFile (hs : syncFile s true = some s') : Quiet s s' := by
  obtain ⟨g, attempt, hw, ⟨-, rfl⟩ | ⟨hno, -⟩⟩ := syncFile_cases hs
  · refine .of_same ?_ ?_ rfl rfl
    · simp [State.intent, State.unwritten, hw]
    · simp [State.hidden, State.owed, State.group, hw]
  · cases hno

theorem settle (h : Tracks fits d s) (hs : settle s = some s') : Quiet s s' := by
  obtain ⟨g, failure, hw, rfl⟩ := settle_cases hs
  have hsound := h.healthy.2
  rw [hw] at hsound
  obtain rfl : failure = none := hsound
  refine .of_same ?_ ?_ rfl rfl
  · simp [State.intent, State.unwritten, hw]
  · simp [State.hidden, State.owed, State.group, hw]

theorem finish (h : Tracks fits d s) (hs : finish s = some s') : Quiet s s' := by
  obtain ⟨g, failure, hw, hcases⟩ := finish_cases hs
  have hsound := h.healthy.2
  rw [hw] at hsound
  obtain rfl : failure = none := hsound
  rcases hcases with ⟨-, rfl⟩ | ⟨e, he, -⟩
  · refine .of_same ?_ ?_ rfl rfl
    · simp [State.intent, State.unwritten, hw]
    · simp only [State.hidden, State.owed, State.group, hw, List.filter_nil, List.nil_append, List.map_append,
        List.map_map, List.flatMap_append, Function.comp_def, List.map_id', List.append_assoc]
      refine .append_left _ ?_
      rw [← List.append_assoc, ← List.append_assoc]
      exact List.perm_append_comm.append_right _
  · cases he

theorem wake (h : Tracks fits d s) {i : ℕ} (hs : wake s i = some s') : Quiet s s' := by
  obtain ⟨request, err, l₁, l₂, hl, hcases⟩ := wake_cases hs
  rcases hcases with ⟨herr, -⟩ | ⟨rfl, -, rfl⟩ | ⟨rfl, hk, rfl⟩
  · exact absurd (h.done (request, err) (by simp [hl])) herr
  · refine .of_same rfl ?_ rfl rfl
    simp only [State.hidden, State.owed, State.group, hl, List.map_append, List.map_cons, List.flatMap_append,
      List.flatMap_cons, List.flatMap_nil, List.append_assoc, List.append_nil]
    refine .append_left _ (.append_left _ (.append_left _ ?_))
    rw [← List.append_assoc]
    exact List.perm_append_comm
  · refine .of_same rfl ?_ rfl rfl
    have hacks : request.acks = [] := if_neg hk
    simp only [State.hidden, State.owed, State.group, hl, List.map_append, List.map_cons, List.flatMap_append,
      List.flatMap_cons, hacks, List.nil_append]
    exact .rfl

end Quiet

end

/-! ## The invariant -/

/-- The ledger of a process in durability `d`: what will be appended accounts for all work, and every entry
that a run or a call is about is known to the session of its namespace. -/
structure Accounted (d : Durability) (p : Process) : Prop where
  tracks : Tracks Record.Writable d p.wal
  ledger : AcksPending Live.init p.wal.intent
  running : ∀ n id, p.session n = .running id →
    id ∈ p.wal.history.issued ∧ ∃ item ∈ p.wal.live.pending, item.id = id ∧ item.namespaceId = n
  hidden : p.wal.hidden.Nodup
  flushing : ∀ a ∈ p.wal.hidden, ∃ n, p.session n = .flushing a ∧
    ∀ item ∈ p.wal.live.pending, item.id = a → item.namespaceId = n

section Update

variable {session : NamespaceId → Session} {n n' : NamespaceId} {x y : Session}

theorem eq_of_update_eq (h : Function.update session n x n' = y) (hx : x ≠ y) :
    n' ≠ n ∧ session n' = y := by
  have hne : n' ≠ n := by
    rintro rfl
    rw [Function.update_self] at h
    exact hx h
  rw [Function.update_of_ne hne] at h
  exact ⟨hne, h⟩

theorem update_eq_of_eq (h : session n' = y) (hn : session n ≠ y) :
    Function.update session n x n' = y := by
  have hne : n' ≠ n := by
    rintro rfl
    exact hn h
  rw [Function.update_of_ne hne]
  exact h

end Update

theorem limits_writable : Limits Record.Writable := ⟨fun _ h => h, fun id => (readable_ack id).writable⟩

namespace Accounted

variable {d : Durability} {p p' : Process} {n : NamespaceId}

theorem of_log (log : List Record) (hlog : ∀ r ∈ log, r.Writable) (hacks : AcksPending Live.init log) :
    Accounted d ⟨State.opened log, fun _ => .resting⟩ where
  tracks := Tracks.opened limits_writable hlog
  ledger := by simpa [State.intent, State.opened, State.unwritten] using hacks
  running := fun n id h => by cases h
  hidden := by simp [State.hidden, State.opened, State.owed, State.group]
  flushing := by simp [State.hidden, State.opened, State.owed, State.group]

/-- An entry of a namespace whose session is outside of a call is not about to be taken out. -/
theorem not_hidden (h : Accounted d p) (hn : ∀ id, p.session n ≠ .flushing id) {item : PendingDirty}
    (hi : item ∈ p.wal.live.pending) (hns : item.namespaceId = n) : item.id ∉ p.wal.hidden := by
  intro hmem
  obtain ⟨n', hn', hall⟩ := h.flushing item.id hmem
  have hsame : item.namespaceId = n' := hall item hi rfl
  rw [← hns, hsame] at hn
  exact hn _ hn'

/-- Entries with one id are one entry. -/
theorem item_unique (h : Accounted d p) {item item' : PendingDirty} (hi : item ∈ p.wal.live.pending)
    (hi' : item' ∈ p.wal.live.pending) (hid : item.id = item'.id) : item = item' :=
  List.inj_on_of_nodup_map h.tracks.sim.ok.nodup hi hi' hid

theorem quiet (h : Accounted d p) {s' : State} (ht : Tracks Record.Writable d s') (hq : Quiet p.wal s') :
    Accounted d { p with wal := s' } where
  tracks := ht
  ledger := by
    obtain ⟨bs, hbs, hintent⟩ := hq.intent
    rw [hintent]
    exact acksPending_append.mpr ⟨h.ledger, acksPending_of_acknowledged_nil hbs⟩
  running := by
    intro n id hn
    obtain ⟨hissued, item, hi, hitem⟩ := h.running n id hn
    exact ⟨hq.issued ▸ hissued, item, hq.grows.kept item hi, hitem⟩
  hidden := hq.hidden.nodup_iff.mpr h.hidden
  flushing := by
    intro a ha
    have ha' := hq.hidden.mem_iff.mp ha
    obtain ⟨n, hn, hall⟩ := h.flushing a ha'
    refine ⟨n, hn, fun item hi hid => ?_⟩
    rcases hq.grows.old item hi with hi | hi
    · exact hall item hi hid
    · have := hidden_below h.tracks a ha'
      omega

theorem step_withWal (h : Accounted d p) {w : Option State} (hs : p.withWal w = some p')
    (ht : ∀ s', w = some s' → Tracks Record.Writable d s') (hq : ∀ s', w = some s' → Quiet p.wal s') :
    Accounted d p' := by
  obtain ⟨s', hw, rfl⟩ := Option.map_eq_some_iff.mp hs
  exact h.quiet (ht s' hw) (hq s' hw)

theorem step_take (h : Accounted d p) (hs : p.take n = some p') : Accounted d p' := by
  unfold Process.take at hs
  cases hsession : p.session n with
  | resting =>
    cases hnext : nextPendingFor p.wal.live (some n) with
    | none =>
      simp only [hsession, hnext] at hs
      exact Option.some.inj hs ▸ h
    | some item =>
      simp only [hsession, hnext] at hs
      obtain rfl := Option.some.inj hs
      have hi : item ∈ p.wal.live.pending := List.mem_of_find?_eq_some hnext
      have hns : item.namespaceId = n := by
        have hfound := List.find?_some hnext
        exact (beq_iff_eq.mp hfound).symm
      have htake : takePending p.wal (some n) = { p.wal with
          history := { p.wal.history with issued := p.wal.history.issued ++ [item.id] } } := by
        unfold takePending
        rw [hnext]
      refine ⟨h.tracks.step_takePending (some n), ?_, ?_, ?_, ?_⟩
      · rw [htake]
        exact h.ledger
      · intro n' id hn'
        rw [htake]
        by_cases heq : n' = n
        · subst heq
          obtain rfl := Session.running.inj ((Function.update_self n' _ p.session).symm.trans hn')
          exact ⟨by simp, item, hi, rfl, hns⟩
        · obtain ⟨hissued, hitem⟩ := h.running n' id ((Function.update_of_ne heq _ _).symm.trans hn')
          exact ⟨List.mem_append_left _ hissued, hitem⟩
      · rw [htake]
        exact h.hidden
      · rw [htake]
        intro a ha
        obtain ⟨n', hn', hall⟩ := h.flushing a ha
        exact ⟨n', update_eq_of_eq hn' (by simp [hsession]), hall⟩
  | running id => simp only [hsession] at hs; cases hs
  | flushing id => simp only [hsession] at hs; cases hs

theorem step_fail (h : Accounted d p) (hs : p.fail n = some p') : Accounted d p' := by
  unfold Process.fail at hs
  cases hsession : p.session n with
  | running id =>
    simp only [hsession] at hs
    obtain rfl := Option.some.inj hs
    refine { h with running := fun n' id' hn' => ?_, flushing := fun a ha => ?_ }
    · exact h.running n' id' (eq_of_update_eq hn' (by simp)).2
    · obtain ⟨n', hn', hall⟩ := h.flushing a ha
      exact ⟨n', update_eq_of_eq hn' (by simp [hsession]), hall⟩
  | resting => simp only [hsession] at hs; cases hs
  | flushing id => simp only [hsession] at hs; cases hs

/-- A strict call puts the checkpoint into the queue. -/
theorem flushCascade_strict {s s' : State} {ms : List FactMutation} {ackId : Int64} (hf : s.failed = false)
    (hs : flushCascade s ms ackId .strict none = some s') :
    s'.intent = s.intent ++ [.cascade ackId ms] ∧ s'.history.issued = s.history.issued ∧
      s'.live = s.live ∧ s'.hidden.Perm (ackId.toInt :: s.hidden) := by
  unfold flushCascade at hs
  obtain rfl := admission_healthy hf hs
  refine ⟨by simp [State.intent, State.push, State.unwritten], rfl, rfl, ?_⟩
  have hfilter : (s.requests ++ [newRequest s recordCascade ms ackId .strict]).filter (·.callerWaits) =
      s.requests.filter (·.callerWaits) ++ [newRequest s recordCascade ms ackId .strict] := by
    rw [List.filter_append]
    rfl
  simp only [State.hidden, State.push, hfilter, List.flatMap_append, List.flatMap_singleton,
    acks_newRequest_cascade, List.append_assoc, List.singleton_append]
  exact List.perm_middle

/-- An eventual call takes the entry out at once. -/
theorem flushCascade_eventual {s s' : State} {ms : List FactMutation} {ackId : Int64} (hf : s.failed = false)
    (hs : flushCascade s ms ackId .eventual none = some s') :
    s'.intent = s.intent ++ [.cascade ackId ms] ∧ s'.history.issued = s.history.issued ∧
      s'.live.pending = (removePending s.live ackId.toInt).pending ∧ s'.hidden = s.hidden := by
  unfold flushCascade at hs
  obtain ⟨accepted, hp⟩ := publishNow_none s (newRequest s recordCascade ms ackId .eventual) id
    fun live => removePending live ackId.toInt
  obtain rfl := admission_healthy hf hs
  simp only [hp]
  refine ⟨?_, trivial, ?_, ?_⟩
  · simp only [State.intent, State.push, State.unwritten, List.map_append, List.append_assoc]
    rfl
  · have hpublish : (s.live.publish (newRequest s recordCascade ms ackId .eventual)).pending =
        s.live.pending := by
      change (s.live.putAll (ms.map (recordCascade, ·))).pending = _
      rw [Live.putAll_noDirty, Live.foldl_putFact_pending]
    simp only [removePending, hpublish]
  · have hfilter : (s.requests ++
        [{ newRequest s recordCascade ms ackId .eventual with accepted := accepted }]).filter (·.callerWaits) =
          s.requests.filter (·.callerWaits) := by
      rw [List.filter_append]
      exact List.append_nil _
    simp only [State.hidden, State.push, hfilter]
    rfl

theorem step_flush (h : Accounted d p) {ms : List FactMutation} {ackId : Int64}
    (hw : (Record.cascade ackId ms).Writable) (hs : p.flush d n ms ackId = some p') : Accounted d p' := by
  unfold Process.flush at hs
  cases hsession : p.session n with
  | running id =>
    simp only [hsession] at hs
    by_cases hid : ackId.toInt = id
    · rw [if_pos hid] at hs
      obtain ⟨s', hflush, rfl⟩ := Option.map_eq_some_iff.mp hs
      obtain ⟨hissued, item, hi, hitem, hns⟩ := h.running n id hsession
      have hidle : ∀ a, p.session n ≠ .flushing a := by simp [hsession]
      have hhidden : id ∉ p.wal.hidden := hitem ▸ h.not_hidden hidle hi hns
      have ht : Tracks Record.Writable d s' := h.tracks.step_flushCascade hw (hid ▸ hissued) hflush
      have hledger : AcksPending Live.init (p.wal.intent ++ [.cascade ackId ms]) := by
        refine acksPending_append.mpr ⟨h.ledger, fun a ha => ?_, trivial⟩
        obtain rfl := Option.some.inj ha
        have hpending := mem_replayAll_intent h.tracks hi (hitem ▸ hhidden)
        exact List.mem_map.mpr ⟨item, hpending, hitem.trans hid.symm⟩
      -- a run for another namespace is about another entry
      have hother : ∀ n' id', n' ≠ n → p.session n' = .running id' →
          ∃ item' ∈ p.wal.live.pending, item'.id = id' ∧ item'.namespaceId = n' ∧ id' ≠ id := by
        intro n' id' hne hn'
        obtain ⟨-, item', hi', hitem', hns'⟩ := h.running n' id' hn'
        refine ⟨item', hi', hitem', hns', fun heq => hne ?_⟩
        rw [← hns', ← hns, h.item_unique hi' hi (hitem'.trans (heq.trans hitem.symm))]
      cases d with
      | strict =>
        obtain ⟨hintent, hissued', hlive, hperm⟩ := flushCascade_strict h.tracks.healthy.1 hflush
        refine ⟨ht, hintent ▸ hledger, fun n' id' hn' => ?_, ?_, fun a ha => ?_⟩
        · obtain ⟨-, hn'⟩ := eq_of_update_eq hn' (by simp)
          rw [hissued', hlive]
          exact h.running n' id' hn'
        · exact hperm.nodup_iff.mpr (List.nodup_cons.mpr ⟨hid ▸ hhidden, h.hidden⟩)
        · rw [hlive]
          rcases List.mem_cons.mp (hperm.mem_iff.mp ha) with rfl | ha
          · refine ⟨n, by simp [hid], fun item' hi' hitem' => ?_⟩
            rw [h.item_unique hi' hi (hitem'.trans (hid.trans hitem.symm)), hns]
          · obtain ⟨n', hn', hall⟩ := h.flushing a ha
            exact ⟨n', update_eq_of_eq hn' (hidle a), hall⟩
      | eventual =>
        obtain ⟨hintent, hissued', hpending, hhidden'⟩ := flushCascade_eventual h.tracks.healthy.1 hflush
        refine ⟨ht, hintent ▸ hledger, fun n' id' hn' => ?_, hhidden' ▸ h.hidden, fun a ha => ?_⟩
        · obtain ⟨hne, hn'⟩ := eq_of_update_eq hn' (by simp)
          obtain ⟨item', hi', hitem', hns', hdiff⟩ := hother n' id' hne hn'
          refine ⟨hissued' ▸ (h.running n' id' hn').1, item', ?_, hitem', hns'⟩
          rw [hpending]
          refine (List.mem_eraseP_of_neg ?_).mpr hi'
          simpa [hitem', hid] using hdiff
        · rw [hhidden'] at ha
          obtain ⟨n', hn', hall⟩ := h.flushing a ha
          refine ⟨n', update_eq_of_eq hn' (hidle a), fun item' hi' => hall item' ?_⟩
          rw [hpending] at hi'
          exact List.mem_of_mem_eraseP hi'
    · rw [if_neg hid] at hs
      cases hs
  | resting => simp only [hsession] at hs; cases hs
  | flushing id => simp only [hsession] at hs; cases hs

/-- A strict call returns and takes out its own entry. -/
theorem step_finishFlush (h : Accounted d p) {i : ℕ} (hs : p.finishFlush n i = some p') :
    Accounted d p' := by
  unfold Process.finishFlush at hs
  cases hsession : p.session n with
  | flushing id =>
    cases hreq : p.wal.removing[i]? with
    | none => simp only [hsession, hreq] at hs; cases hs
    | some request =>
      simp only [hsession, hreq] at hs
      by_cases hid : request.ackId.toInt = id
      · rw [if_pos hid] at hs
        obtain ⟨s', hfinish, rfl⟩ := Option.map_eq_some_iff.mp hs
        have ht := h.tracks.step_finishFlush hfinish
        obtain ⟨l₁, l₂, hl, he⟩ := exists_split_of_getElem? hreq
        have hkind : request.recordKind = recordCascade := h.tracks.removing request (by simp [hl])
        have hacks : request.acks = [id] := by rw [Request.acks, if_pos hkind, hid]
        unfold Wal.finishFlush at hfinish
        rw [hreq, he] at hfinish
        simp only [hid] at hfinish
        obtain rfl := Option.some.inj hfinish
        have hperm : p.wal.hidden.Perm (id :: State.hidden { p.wal with removing := l₁ ++ l₂ }) := by
          simp only [State.hidden, State.owed, State.group, hl, List.flatMap_append, List.flatMap_cons, hacks]
          simp only [← List.append_assoc]
          rw [List.append_assoc _ [id], List.singleton_append]
          exact List.perm_middle
        obtain ⟨hgone, hnodup⟩ := List.nodup_cons.mp (hperm.nodup_iff.mp h.hidden)
        refine ⟨ht, h.ledger, fun n' id' hn' => ?_, hnodup, fun a ha => ?_⟩
        · obtain ⟨-, hn'⟩ := eq_of_update_eq hn' (by simp)
          obtain ⟨hissued, item, hi, hitem, hns⟩ := h.running n' id' hn'
          refine ⟨hissued, item, (List.mem_eraseP_of_neg ?_).mpr hi, hitem, hns⟩
          have hno := h.not_hidden (by simp [hn']) hi hns
          have hne : item.id ≠ id := fun heq => hno (heq ▸ hperm.mem_iff.mpr (List.mem_cons_self ..))
          simpa using hne
        · have ha' : a ∈ p.wal.hidden := hperm.mem_iff.mpr (List.mem_cons_of_mem _ ha)
          obtain ⟨n', hn', hall⟩ := h.flushing a ha'
          refine ⟨n', update_eq_of_eq hn' ?_, fun item hi => hall item (List.mem_of_mem_eraseP hi)⟩
          rw [hsession]
          rintro ⟨⟩
          exact hgone ha
      · rw [if_neg hid] at hs
        cases hs
  | resting => simp only [hsession] at hs; cases hs
  | running id => simp only [hsession] at hs; cases hs

/-- A crash keeps a prefix of the log. -/
theorem step_crash (h : Accounted d p) {kept : ℕ} (hs : p.crash kept = some p') : Accounted d p' := by
  unfold Process.crash at hs
  by_cases hk : p.wal.history.synced ≤ kept ∧ kept ≤ p.wal.history.log.length
  · rw [if_pos hk] at hs
    have hpre : p.wal.history.log.take kept <+: p.wal.history.log := List.take_prefix _ _
    have hlog : ∀ r ∈ p.wal.history.log.take kept, r.Writable := fun r hr => h.tracks.logged r (hpre.subset hr)
    have hacks : AcksPending Live.init (p.wal.history.log.take kept) :=
      h.ledger.of_prefix (hpre.trans (List.prefix_append _ _))
    cases hrec : recover Live.init (logOf (p.wal.history.log.take kept)) with
    | error e => rw [hrec] at hs; cases hs
    | ok recovered =>
      rw [hrec] at hs
      obtain rfl := Option.some.inj hs
      rw [recover_logOf (readable_of_recover hlog hrec)] at hrec
      obtain rfl := Except.ok.inj hrec
      exact of_log _ hlog hacks
  · rw [if_neg hk] at hs
    cases hs

/-- **Every step keeps the ledger.** -/
theorem step {e : Event} (h : Accounted d p) (hP : Appends p e) (hs : (sessions d).step p e = some p') :
    Accounted d p' := by
  cases e with
  | enqueueBatch ms => exact h.step_withWal hs (fun _ => h.tracks.step_enqueueBatch hP) fun _ => .enqueueBatch
  | take n => exact h.step_take hs
  | fail n => exact h.step_fail hs
  | flush n ms ackId => exact h.step_flush hP hs
  | wake i => exact h.step_withWal hs (fun _ => h.tracks.step_wake) fun _ => .wake h.tracks
  | finishFlush n i => exact h.step_finishFlush hs
  | takeQueue => exact h.step_withWal hs (fun _ => h.tracks.step_takeQueue) fun _ => .takeQueue h.tracks
  | loopHead => exact h.step_withWal hs (fun _ => h.tracks.step_loopHead) fun _ => .loopHead h.tracks
  | writeNext => exact h.step_withWal hs (fun _ => h.tracks.step_writeNext) fun _ => .writeNext h.tracks
  | syncFile => exact h.step_withWal hs (fun _ => h.tracks.step_syncFile) fun _ => .syncFile
  | settle => exact h.step_withWal hs (fun _ => h.tracks.step_settle) fun _ => .settle h.tracks
  | finish => exact h.step_withWal hs (fun _ => h.tracks.step_finish) fun _ => .finish h.tracks
  | crash kept => exact h.step_crash hs

theorem reaches (h : (sessions d).Reaches Appends Process.opened p) : Accounted d p :=
  h.invariant (of_log [] (by simp) trivial) fun _ _ _ hI hP hs => hI.step hP hs

/-- The journal and the entries that no call is about to take out. -/
theorem accounts (h : Accounted d p) : Accounts (p.wal.journal d)
    (p.wal.live.pending.filter fun item => item.id ∉ p.wal.owed) := by
  have hjournal : AcksPending Live.init (p.wal.journal d) := by
    refine h.ledger.of_prefix ?_
    rw [intent_eq p.wal d]
    exact List.prefix_append _ _
  rw [← h.tracks.sim.pending]
  exact hjournal.accounts

/-- What `nextPendingFor` finds does not depend on entries that calls of other sessions will take out. -/
theorem smallest (h : Accounted d p) (hn : ∀ id, p.session n ≠ .flushing id) :
    SmallestUnacknowledged (p.wal.journal d) n (nextPendingFor p.wal.live (some n)) := by
  have hsorted : ((p.wal.live.pending.filter fun item => item.id ∉ p.wal.owed).map PendingDirty.id).Pairwise
      (· < ·) := h.tracks.sim.ok.sorted.sublist (List.filter_sublist.map _)
  have hfind := h.accounts.smallest hsorted n
  rw [List.find?_filter] at hfind
  have hcongr : nextPendingFor p.wal.live (some n) =
      p.wal.live.pending.find? fun item =>
        decide (decide (item.id ∉ p.wal.owed) = true ∧ (n == item.namespaceId) = true) := by
    refine List.find?_congr fun item hi => ?_
    change (n == item.namespaceId) = decide (decide (item.id ∉ p.wal.owed) = true ∧ (n == item.namespaceId) = true)
    by_cases hns : n = item.namespaceId
    · have hno := h.not_hidden hn hi hns.symm
      have howed : item.id ∉ p.wal.owed := fun hmem => hno (List.mem_append_right _ hmem)
      simp [howed, ← hns]
    · simp [hns]
  rw [hcongr]
  exact hfind

end Accounted

/-- **Dirty work is neither lost nor duplicated across crashes.**  In every state of every run of the
sessions, crashes included, each accepted source mutation of the journal has an id of its own, which is either
pending once or acknowledged by one record; when the queue is drained and all calls have returned, as they are
after a crash, this holds of the log and the pending list themselves.  And what a session is given is the
smallest unacknowledged id of its namespace. -/
theorem dirty_once (d : Durability) (p : Process) (h : (sessions d).Reaches Appends Process.opened p) :
    Accounts (p.wal.journal d) (p.wal.live.pending.filter fun item => item.id ∉ p.wal.owed) ∧
      (p.wal.Drained → p.wal.Returned → Accounts p.wal.history.log p.wal.live.pending) ∧
      ∀ n, (∀ id, p.session n ≠ .flushing id) →
        SmallestUnacknowledged (p.wal.journal d) n (nextPendingFor p.wal.live (some n)) := by
  have hI := Accounted.reaches h
  refine ⟨hI.accounts, fun ⟨hq, hidle⟩ ⟨hfin, hrem⟩ => ?_, fun n hn => hI.smallest hn⟩
  have howed : p.wal.owed = [] := by simp [State.owed, State.group, hidle, hfin, hrem]
  have hj : p.wal.journal d = p.wal.history.log := by simp [State.journal, State.unwritten, hidle, hq]
  have haccounts := hI.accounts
  rw [howed, hj] at haccounts
  simpa using haccounts

/-- Two sources are synced, the first is checkpointed; the process dies before the checkpoint is synced and
loses it, starts again, and the same entry is taken again. -/
def crashedRun : List Event :=
  [.enqueueBatch [⟨[110], 1, 2, [49], ⟨5, 0, 1⟩, ⟨0, 0, []⟩⟩],
    .enqueueBatch [⟨[110], 1, 3, [50], ⟨6, 0, 1⟩, ⟨0, 0, []⟩⟩], .takeQueue, .loopHead, .writeNext, .writeNext,
    .syncFile, .settle, .finish, .wake 0, .wake 0, .take [110],
    .flush [110] [⟨[110], 1, 4, [51], ⟨7, 0, 1⟩, ⟨2, 1, []⟩⟩] 1, .takeQueue, .loopHead, .writeNext, .crash 2,
    .take [110]]

instance (p : Process) (e : Event) : Decidable (Appends p e) := by
  cases e <;> unfold Appends <;> infer_instance

theorem dirty_once_crashed :
    ∃ p, (sessions .strict).runAllowed Appends Process.opened crashedRun = some p ∧
      p.session [110] = .running 1 ∧ Accounts p.wal.history.log p.wal.live.pending ∧
      SmallestUnacknowledged p.wal.history.log [110] (nextPendingFor p.wal.live (some [110])) := by
  have hrun : ((sessions .strict).runAllowed Appends Process.opened crashedRun).isSome := by decide +kernel
  obtain ⟨p, hp⟩ := Option.isSome_iff_exists.mp hrun
  have hend : ((sessions .strict).runAllowed Appends Process.opened crashedRun).map (fun p =>
      decide (p.session [110] = .running 1 ∧ p.wal.Drained ∧ p.wal.Returned)) = some true := by decide +kernel
  rw [hp] at hend
  obtain ⟨hsession, hdrained, hreturned⟩ := of_decide_eq_true (Option.some.inj hend)
  obtain ⟨-, hquiet, hnext⟩ := dirty_once .strict p (Machine.reaches_of_runAllowed hp)
  have hj : p.wal.journal .strict = p.wal.history.log := by
    simp [State.journal, State.unwritten, hdrained.2]
  exact ⟨p, hp, hsession, hquiet hdrained hreturned, hj ▸ hnext [110] (by simp [hsession])⟩

end Slung.Wal
