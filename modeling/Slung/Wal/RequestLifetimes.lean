import Slung.Wal.Tickets

/-!
# Slung.Wal.RequestLifetimes — who destroys a commit request, and when (`wal.zig`)

The machine of `Slung.Wal.Machine` with the code between its critical sections that touches a request.  A
request is a token, known by its ticket once it is queued.  Behind its last critical section the worker walks
over its group once more and reads `caller_waits` of every request, to destroy those that nobody waits for.  A
waiting caller destroys its request when it has seen it done; when it then returns an error, the `errdefer` that
it installed when it built the request destroys it again.

`requests_destroyed_once`: as long as no caller overtakes the worker's walk, no group fails that a caller waits
for, and the flags of a batch can be allocated, no request is read after it was destroyed and every request is
destroyed exactly once.  `request_misused` shows the first two exceptions in runs.
-/

namespace Slung.Wal

open Slung.Lib

/-! ## State -/

/-- The log with the requests that its threads still hold behind their critical sections. -/
structure Tokens where
  wal : State
  /-- what the worker has still to walk over behind its last critical section -/
  releasing : List Request
  /-- callers that have seen their request done and have still to destroy it -/
  returning : List (Request × Option Err)
  /-- callers that have destroyed their request and return an error -/
  unwinding : List Request
  /-- the tickets of the requests that were destroyed, in order -/
  destroyed : List ℕ
  /-- for each request that was built and not queued, how often it was destroyed -/
  refused : List ℕ
  /-- the tickets that the worker read after they were destroyed -/
  stale : List ℕ

namespace Tokens

/-- After opening a file that holds the log of `rs`. -/
def opened (rs : List Record) : Tokens := ⟨State.opened rs, [], [], [], [], [], []⟩

/-- The worker reads requests. -/
def read (s : Tokens) (requests : List Request) : Tokens :=
  { s with stale := s.stale ++ (requests.map Request.ticket).filter (· ∈ s.destroyed) }

def destroy (s : Tokens) (requests : List Request) : Tokens :=
  { s with destroyed := s.destroyed ++ requests.map Request.ticket }

/-- A call whose request is not queued destroys it, by `errdefer`. -/
def built (s : Tokens) (wal : State) : Tokens :=
  { s with wal := wal, refused := if wal.tickets = s.wal.tickets then s.refused ++ [1] else s.refused }

/-! ## Steps -/

/-- Where building a request fails before it reaches its critical section. -/
inductive BuildFault where
  /-- the flags of the caller, before `errdefer` is installed; a cascade has none to allocate -/
  | accepted
  | mutations
  | queueSlot
deriving DecidableEq, Repr

inductive Label where
  | wal (l : Wal.Label)
  | buildFails (kind : UInt8) (fault : BuildFault)
  /-- the worker walks over the next request of its group -/
  | release
  /-- a caller destroys its request -/
  | destroy (i : ℕ)
  /-- the `errdefer` of a caller that returns an error -/
  | unwind (i : ℕ)
deriving DecidableEq

/-- Program order: the worker takes the queue after its walk, and a caller of a cascade comes back to the
pending list after it destroyed its request. -/
def Ready (s : Tokens) : Wal.Label → Prop
  | .takeQueue _ => s.releasing = []
  | .finishFlush i => ∀ r ∈ s.wal.removing[i]?, ∀ p ∈ s.returning, p.1.ticket ≠ r.ticket
  | _ => True

instance (s : Tokens) : ∀ l, Decidable (s.Ready l)
  | .takeQueue _ => inferInstanceAs (Decidable (_ = _))
  | .finishFlush _ => inferInstanceAs (Decidable (∀ r ∈ _, ∀ p ∈ _, _))
  | .enqueueBatch .. | .flushCascade .. | .ack .. | .nextPendingFor .. | .wake .. | .loopHead | .writeNext ..
  | .syncFile .. | .settle | .finish => inferInstanceAs (Decidable True)

/-- The failure of a group that is about to be marked done. -/
def failure (s : Tokens) : Option Err :=
  match s.wal.worker with
  | .finishing _ failure => failure
  | _ => none

/-- What a step of the log does to the requests; `wal` is the log after it.  A failed group takes the queue with
it: the requests in it that nobody waits for are destroyed in the same critical section. -/
def account (s : Tokens) (wal : State) : Wal.Label → Tokens
  | .enqueueBatch mutations _ _ => if mutations = [] then { s with wal := wal } else s.built wal
  | .flushCascade .. => s.built wal
  | .wake i => { s with wal := wal, returning := s.returning ++ s.wal.finished[i]?.toList }
  | .takeQueue _ => { s.read s.wal.requests with wal := wal }
  | .writeNext _ => { s.read s.wal.unwritten.head?.toList with wal := wal }
  | .finish =>
    let marked := s.read s.wal.group
    let closed := if s.failure.isSome then
        (marked.read s.wal.requests).destroy (s.wal.requests.filter (!·.callerWaits))
      else marked
    { closed with wal := wal, releasing := s.wal.group }
  | _ => { s with wal := wal }

/-- The worker reads `caller_waits` of the next request; of a destroyed one it would read whatever is there, and
here it goes on with the old value. -/
def release (s : Tokens) : Option Tokens :=
  match s.releasing with
  | [] => none
  | r :: rest =>
    let s := s.read [r]
    some { (if r.callerWaits then s else s.destroy [r]) with releasing := rest }

def destroyAt (s : Tokens) (i : ℕ) : Option Tokens :=
  match s.returning[i]? with
  | none => none
  | some (r, err) => some { s.destroy [r] with
      returning := s.returning.eraseIdx i
      unwinding := if err.isSome then s.unwinding ++ [r] else s.unwinding }

def unwind (s : Tokens) (i : ℕ) : Option Tokens :=
  match s.unwinding[i]? with
  | none => none
  | some r => some { s.destroy [r] with unwinding := s.unwinding.eraseIdx i }

/-- A request that fails before its flags are there is never destroyed. -/
def buildFails (s : Tokens) (kind : UInt8) (fault : BuildFault) : Option Tokens :=
  if fault = .accepted ∧ kind = recordCascade then none
  else some { s with refused := s.refused ++ [if fault = .accepted then 0 else 1] }

end Tokens

/-- The log and the lifetimes of its requests. -/
def tokens : Machine Tokens Tokens.Label where
  step s
    | .wal l => if s.Ready l then (wal.step s.wal l).map (s.account · l) else none
    | .buildFails kind fault => s.buildFails kind fault
    | .release => s.release
    | .destroy i => s.destroyAt i
    | .unwind i => s.unwind i

namespace Tokens

/-- The runs in which every request has one owner at a time: no caller destroys its request before the worker's
walk is past it, no group fails that a caller waits for, in it or in the queue behind it, and the flags of every
batch can be allocated. -/
def Owned (s : Tokens) : Label → Prop
  | .wal .finish => s.failure.isSome → ∀ r ∈ s.wal.group ++ s.wal.requests, r.callerWaits = false
  | .destroy i => ∀ p ∈ s.returning[i]?, ∀ r ∈ s.releasing, r.ticket ≠ p.1.ticket
  | .buildFails _ fault => fault ≠ .accepted
  | _ => True

instance (s : Tokens) : ∀ l, Decidable (s.Owned l)
  | .wal .finish => inferInstanceAs (Decidable (_ → ∀ r ∈ _, _ = _))
  | .destroy _ => inferInstanceAs (Decidable (∀ p ∈ _, ∀ r ∈ _, _))
  | .buildFails .. => inferInstanceAs (Decidable (_ ≠ _))
  | .release | .unwind _ | .wal (.enqueueBatch ..) | .wal (.flushCascade ..) | .wal (.ack ..)
  | .wal (.nextPendingFor ..) | .wal (.wake ..) | .wal (.finishFlush ..) | .wal (.takeQueue ..) | .wal .loopHead
  | .wal (.writeNext ..) | .wal (.syncFile ..) | .wal .settle => inferInstanceAs (Decidable True)

/-- No call is under way and the worker has nothing to do. -/
structure Quiet (s : Tokens) : Prop where
  requests : s.wal.requests = []
  worker : s.wal.worker = .idle
  finished : s.wal.finished = []
  releasing : s.releasing = []
  returning : s.returning = []
  unwinding : s.unwinding = []

/-! ## The invariant -/

/-- The requests that a thread or the queue will still destroy. -/
def owners (s : Tokens) : List Request :=
  s.wal.requests ++ s.wal.group ++ s.releasing.filter (!·.callerWaits) ++ s.wal.finished.map Prod.fst ++
    s.returning.map Prod.fst

/-- How many owners a request has. -/
def held (s : Tokens) (t : ℕ) : ℕ := s.owners.countP (·.ticket = t)

/-- Every request that was queued has one owner or was destroyed once. -/
structure Sound (s : Tokens) : Prop where
  balance : ∀ t, s.held t + s.destroyed.count t = if t < s.wal.tickets then 1 else 0
  stale : s.stale = []
  refused : ∀ n ∈ s.refused, n = 1
  unwinding : s.unwinding = []
  succeeded : ∀ p ∈ s.wal.finished ++ s.returning, p.2 = none
  walked : ∀ r ∈ s.releasing, r.ticket ∉ s.destroyed
  distinct : (s.releasing.map Request.ticket).Nodup
  walking : s.releasing ≠ [] → s.wal.worker = .idle
  unwritten : ∀ r ∈ s.wal.unwritten, r ∈ s.wal.group

namespace Sound

variable {s s' : Tokens}

theorem opened (rs : List Record) : Sound (opened rs) := by
  refine ⟨fun t => ?_, rfl, nofun, rfl, nofun, nofun, List.nodup_nil, fun h => absurd rfl h, nofun⟩
  simp [held, owners, Tokens.opened, State.opened, State.group]

/-- What has an owner has not been destroyed. -/
theorem not_destroyed (h : Sound s) {r : Request} (hr : r ∈ s.owners) : r.ticket ∉ s.destroyed := by
  have hpos : 0 < s.held r.ticket := List.countP_pos_iff.mpr ⟨r, hr, by simp⟩
  have hbalance := h.balance r.ticket
  rw [← List.count_eq_zero]
  split_ifs at hbalance <;> omega

theorem read_eq {rs : List Request} (h : ∀ r ∈ rs, r.ticket ∉ s.destroyed) : s.read rs = s := by
  have hnil : (rs.map Request.ticket).filter (· ∈ s.destroyed) = [] := by
    rw [List.filter_eq_nil_iff]
    intro t ht
    obtain ⟨r, hr, rfl⟩ := List.mem_map.mp ht
    simpa using h r hr
  unfold read
  rw [hnil, List.append_nil]

/-- A step of the log that moves no request. -/
theorem frame (h : Sound s) {w : State} (hrequests : w.requests = s.wal.requests)
    (hgroup : w.group = s.wal.group) (hfinished : w.finished = s.wal.finished)
    (htickets : w.tickets = s.wal.tickets) (hwalking : s.releasing ≠ [] → w.worker = .idle)
    (hunwritten : ∀ r ∈ w.unwritten, r ∈ s.wal.group) : Sound { s with wal := w } := by
  refine ⟨fun t => ?_, h.stale, h.refused, h.unwinding, ?_, h.walked, h.distinct, hwalking, ?_⟩
  · have hbalance := h.balance t
    unfold held owners at hbalance ⊢
    rw [hrequests, hgroup, hfinished, htickets]
    exact hbalance
  · rw [hfinished]
    exact h.succeeded
  · rw [hgroup]
    exact hunwritten

/-- The same where nothing but the live state and the history changes. -/
theorem frame_live (h : Sound s) {w : State} (hrequests : w.requests = s.wal.requests)
    (hworker : w.worker = s.wal.worker) (hfinished : w.finished = s.wal.finished)
    (htickets : w.tickets = s.wal.tickets) : Sound { s with wal := w } := by
  have hgroup : w.group = s.wal.group := by unfold State.group; rw [hworker]
  have hunwritten : w.unwritten = s.wal.unwritten := by unfold State.unwritten; rw [hworker]
  exact h.frame hrequests hgroup hfinished htickets (hworker ▸ h.walking) (hunwritten ▸ h.unwritten)

/-- A request is queued. -/
theorem push (h : Sound s) {r : Request} {live : Live} {history : History} (hr : r.ticket = s.wal.tickets) :
    Sound { s with wal := { (s.wal.push r) with live := live, history := history } } := by
  refine ⟨fun t => ?_, h.stale, h.refused, h.unwinding, h.succeeded, h.walked, h.distinct, h.walking, h.unwritten⟩
  have hbalance := h.balance t
  have howners : held { s with wal := { (s.wal.push r) with live := live, history := history } } t =
      s.held t + if s.wal.tickets = t then 1 else 0 := by
    unfold held owners State.push
    simp only [List.countP_append, List.countP_singleton, decide_eq_true_eq, hr]
    change _ + List.countP _ s.wal.group + _ + _ + _ = _
    omega
  rw [howners]
  change _ + s.destroyed.count t = if t < s.wal.tickets + 1 then 1 else 0
  split_ifs at hbalance ⊢ <;> omega

/-- A call that builds a request: it is queued, or destroyed on the way out. -/
theorem built (h : Sound s) {w : State} (hw : (∃ live, w = { s.wal with live := live }) ∨
    ∃ r extra, Queues s.wal r extra w) : Sound (s.built w) := by
  rcases hw with ⟨live, rfl⟩ | ⟨r, extra, -, hr, -, live, rfl⟩
  · unfold Tokens.built
    rw [if_pos rfl]
    refine { h.frame_live (w := { s.wal with live := live }) rfl rfl rfl rfl with refused := fun n hn => ?_ }
    rcases List.mem_append.mp hn with hn | hn
    · exact h.refused n hn
    · exact List.mem_singleton.mp hn
  · have hnew : ¬ (s.wal.push r).tickets = s.wal.tickets := by simp [State.push]
    unfold Tokens.built
    simp only [if_neg hnew]
    exact h.push hr

/-! ### The requests of the worker -/

/-- No two owned requests have one ticket. -/
theorem held_le_one (h : Sound s) (t : ℕ) : s.held t ≤ 1 := by
  have hbalance := h.balance t
  split_ifs at hbalance <;> omega

theorem mem_owners_of_queued {r : Request} (hr : r ∈ s.wal.requests) : r ∈ s.owners := by
  simp [owners, hr]

theorem mem_owners_of_group {r : Request} (hr : r ∈ s.wal.group) : r ∈ s.owners := by
  simp [owners, hr]

/-- The queue and the group of the worker have no request in common. -/
theorem apart (h : Sound s) {r r' : Request} (hr : r ∈ s.wal.group) (hr' : r' ∈ s.wal.requests) :
    r.ticket ≠ r'.ticket := by
  intro heq
  have hgroup : 0 < s.wal.group.countP (·.ticket = r.ticket) := List.countP_pos_iff.mpr ⟨r, hr, by simp⟩
  have hqueue : 0 < s.wal.requests.countP (·.ticket = r.ticket) :=
    List.countP_pos_iff.mpr ⟨r', hr', by simp [heq]⟩
  have hone := h.held_le_one r.ticket
  unfold held owners at hone
  simp only [List.countP_append] at hone
  omega

theorem group_nodup (h : Sound s) : (s.wal.group.map Request.ticket).Nodup := by
  rw [List.nodup_iff_count_le_one]
  intro t
  have hone := h.held_le_one t
  unfold held owners at hone
  simp only [List.countP_append] at hone
  rw [List.count_eq_countP, List.countP_map]
  change s.wal.group.countP (fun r => r.ticket == t) ≤ 1
  simp only [beq_eq_decide]
  omega

/-- While the worker has a group, its last walk is over. -/
theorem released (h : Sound s) (hbusy : s.wal.worker ≠ .idle) : s.releasing = [] := by
  by_contra hne
  exact hbusy (h.walking hne)

/-- A step of the worker that keeps its group. -/
theorem frame_worker (h : Sound s) {w : State} (hrequests : w.requests = s.wal.requests)
    (hgroup : w.group = s.wal.group) (hfinished : w.finished = s.wal.finished)
    (htickets : w.tickets = s.wal.tickets) (hbusy : s.wal.worker ≠ .idle)
    (hunwritten : ∀ r ∈ w.unwritten, r ∈ s.wal.group) : Sound { s with wal := w } :=
  h.frame hrequests hgroup hfinished htickets (fun hne => absurd (h.released hbusy) hne) hunwritten

/-! ### Step lemmas -/

section Steps

variable {w : State}

theorem step_wake (h : Sound s) {i : ℕ} (hs : wake s.wal i = some w) : Sound (s.account w (.wake i)) := by
  unfold wake at hs
  cases hi : s.wal.finished[i]? with
  | none => rw [hi] at hs; cases hs
  | some p =>
    obtain ⟨hlt, hp⟩ := List.getElem?_eq_some_iff.mp hi
    have hperm : List.Perm s.wal.finished (p :: s.wal.finished.eraseIdx i) :=
      hp ▸ (List.getElem_cons_eraseIdx_perm hlt).symm
    have hmem : ∀ q, q ∈ s.wal.finished.eraseIdx i ++ (s.returning ++ [p]) → q ∈ s.wal.finished ++ s.returning := by
      intro q hq
      simp only [List.mem_append, hperm.mem_iff, List.mem_cons] at hq ⊢
      tauto
    have hframe : w.requests = s.wal.requests ∧ w.worker = s.wal.worker ∧ w.tickets = s.wal.tickets ∧
        w.finished = s.wal.finished.eraseIdx i := by
      rw [hi] at hs
      simp only at hs
      split at hs
      · obtain rfl := Option.some.inj hs
        exact ⟨rfl, rfl, rfl, rfl⟩
      · split_ifs at hs <;> obtain rfl := Option.some.inj hs <;> exact ⟨rfl, rfl, rfl, rfl⟩
    obtain ⟨hrequests, hworker, htickets, hfinished⟩ := hframe
    have hgroup : w.group = s.wal.group := by unfold State.group; rw [hworker]
    have hunwritten : w.unwritten = s.wal.unwritten := by unfold State.unwritten; rw [hworker]
    refine ⟨fun t => ?_, h.stale, h.refused, h.unwinding, fun q hq => h.succeeded q (hmem q ?_), h.walked, h.distinct,
      hworker ▸ h.walking, ?_⟩
    · have hbalance := h.balance t
      have hcount := (hperm.map Prod.fst).countP_eq (p := fun r : Request => decide (r.ticket = t))
      unfold held owners at hbalance ⊢
      simp only [account, hrequests, hgroup, hfinished, htickets, hi, Option.toList_some, List.map_append,
        List.map_cons, List.map_nil, List.countP_append, List.countP_cons, List.countP_nil] at hbalance hcount ⊢
      omega
    · simpa only [account, hi, hfinished, Option.toList_some] using hq
    · simpa only [account, hgroup, hunwritten] using h.unwritten

theorem step_takeQueue (h : Sound s) {fault : Option (ℕ × AllocPoint)} (hready : s.releasing = [])
    (hs : takeQueue s.wal fault = some w) : Sound (s.account w (.takeQueue fault)) := by
  obtain ⟨hidle, -, live, undo, failure, rfl⟩ := takeQueue_cases hs
  have hread : s.read s.wal.requests = s :=
    read_eq fun r hr => h.not_destroyed (mem_owners_of_queued hr)
  have htickets := publishRequests_map fault Request.ticket (fun _ _ => rfl) ⟨s.wal.live, [], none⟩ s.wal.requests
  simp only [account, hread]
  refine ⟨fun t => ?_, h.stale, h.refused, h.unwinding, h.succeeded, h.walked, h.distinct,
    fun hne => absurd hready hne, fun r hr => hr⟩
  have hbalance := h.balance t
  have hcount : (publishRequests fault ⟨s.wal.live, [], none⟩ s.wal.requests).2.countP (·.ticket = t) =
      s.wal.requests.countP (·.ticket = t) := by
    have hmapped := congrArg (List.count t) htickets
    simpa only [List.count_eq_countP, List.countP_map, Function.comp_def, beq_eq_decide] using hmapped
  have hgroup : s.wal.group = [] := by unfold State.group; rw [hidle]
  unfold held owners at hbalance ⊢
  simp only [hgroup, hready, List.filter_nil, List.countP_append, List.countP_nil] at hbalance
  simp only [State.group, hready, List.filter_nil, List.countP_append, List.countP_nil, hcount]
  omega

theorem step_writeNext (h : Sound s) {outcome : WriteOutcome} (hs : writeNext s.wal outcome = some w) :
    Sound (s.account w (.writeNext outcome)) := by
  have hread : s.read s.wal.unwritten.head?.toList = s := by
    refine read_eq fun r hr => h.not_destroyed (mem_owners_of_group (h.unwritten r ?_))
    exact List.mem_of_mem_head? (Option.mem_toList.mp hr)
  obtain ⟨g, attempt, r, todo, hw, hcases⟩ := writeNext_cases hs
  have hgroup : s.wal.group = g.batch := by unfold State.group; rw [hw]
  have hunwritten : s.wal.unwritten = r :: todo := State.unwritten_of_writing hw
  have hbusy : s.wal.worker ≠ .idle := by simp [hw]
  simp only [account, hread]
  rcases hcases with ⟨e, -, rfl⟩ | ⟨-, -, rfl⟩ | ⟨-, k, -, rfl⟩
  · exact h.frame_worker rfl hgroup.symm rfl rfl hbusy fun q hq => hgroup ▸ hq
  · exact h.frame_worker rfl hgroup.symm rfl rfl hbusy fun q hq =>
      h.unwritten q (hunwritten ▸ List.mem_cons_of_mem r hq)
  · exact h.frame_worker rfl hgroup.symm rfl rfl hbusy fun q hq => hgroup ▸ hq

theorem step_loopHead (h : Sound s) (hs : loopHead s.wal = some w) : Sound { s with wal := w } := by
  obtain ⟨g, attempt, failure, hw, hcases⟩ := loopHead_cases hs
  have hgroup : s.wal.group = g.batch := by unfold State.group; rw [hw]
  have hbusy : s.wal.worker ≠ .idle := by simp [hw]
  rcases hcases with ⟨-, -, rfl⟩ | ⟨-, rfl⟩
  · exact h.frame_worker rfl hgroup.symm rfl rfl hbusy fun q hq => hgroup ▸ hq
  · exact h.frame_worker rfl hgroup.symm rfl rfl hbusy nofun

theorem step_syncFile (h : Sound s) {ok : Bool} (hs : syncFile s.wal ok = some w) : Sound { s with wal := w } := by
  obtain ⟨g, attempt, hw, hcases⟩ := syncFile_cases hs
  have hgroup : s.wal.group = g.batch := by unfold State.group; rw [hw]
  have hbusy : s.wal.worker ≠ .idle := by simp [hw]
  rcases hcases with ⟨-, rfl⟩ | ⟨-, rfl⟩
  · exact h.frame_worker rfl hgroup.symm rfl rfl hbusy nofun
  · exact h.frame_worker rfl hgroup.symm rfl rfl hbusy fun q hq => hgroup ▸ hq

theorem step_settle (h : Sound s) (hs : settle s.wal = some w) : Sound { s with wal := w } := by
  obtain ⟨g, failure, hw, rfl⟩ := settle_cases hs
  have hgroup : s.wal.group = g.batch := by unfold State.group; rw [hw]
  exact h.frame_worker rfl hgroup.symm rfl rfl (by simp [hw]) nofun

/-- Requests that no caller waits for all stay with the worker. -/
theorem filter_unawaited {rs : List Request} (h : ∀ r ∈ rs, r.callerWaits = false) :
    rs.filter (·.callerWaits) = [] ∧ rs.filter (!·.callerWaits) = rs :=
  ⟨List.filter_eq_nil_iff.mpr fun r hr => by simp [h r hr], List.filter_eq_self.mpr fun r hr => by simp [h r hr]⟩

/-- A group that is marked done is split: the waiting callers get their requests, the worker walks over it for
the others. -/
theorem step_finish (h : Sound s) (hs : finish s.wal = some w) (howned : s.Owned (.wal .finish)) :
    Sound (s.account w .finish) := by
  have hread : s.read s.wal.group = s := read_eq fun r hr => h.not_destroyed (mem_owners_of_group hr)
  have hread' : s.read s.wal.requests = s := read_eq fun r hr => h.not_destroyed (mem_owners_of_queued hr)
  obtain ⟨g, failure, hw, hcases⟩ := finish_cases hs
  have hgroup : s.wal.group = g.batch := by unfold State.group; rw [hw]
  have hfailure : s.failure = failure := by unfold Tokens.failure; rw [hw]
  have hreleasing : s.releasing = [] := h.released (by simp [hw])
  rcases hcases with ⟨rfl, rfl⟩ | ⟨e, rfl, rfl⟩
  · simp only [account, hread, hfailure, Option.isSome_none, Bool.false_eq_true, if_false]
    refine ⟨fun t => ?_, h.stale, h.refused, h.unwinding, fun p hp => ?_,
      fun r hr => h.not_destroyed (mem_owners_of_group hr), h.group_nodup, fun _ => rfl, nofun⟩
    · have hbalance := h.balance t
      have hsplit := List.countP_eq_countP_filter_add g.batch (fun r : Request => decide (r.ticket = t))
        (·.callerWaits)
      unfold held owners at hbalance ⊢
      simp only [hgroup, hreleasing, List.countP_append, List.filter_nil, List.countP_nil] at hbalance ⊢
      simp only [State.group, List.map_append, List.map_map, Function.comp_def, List.map_id', List.countP_append,
        List.countP_nil]
      omega
    · simp only [List.append_assoc, List.mem_append] at hp
      rcases hp with hp | hp | hp
      · exact h.succeeded p (List.mem_append_left _ hp)
      · obtain ⟨r, -, rfl⟩ := List.mem_map.mp hp
        rfl
      · exact h.succeeded p (List.mem_append_right _ hp)
  · -- nobody waits: the group stays with the worker, and the queue is destroyed
    have hwaits : ∀ r ∈ g.batch ++ s.wal.requests, r.callerWaits = false := by
      rw [← hgroup]
      exact howned (by rw [hfailure]; rfl)
    obtain ⟨hbatch, hbatch'⟩ := filter_unawaited fun r hr => hwaits r (List.mem_append_left _ hr)
    obtain ⟨hqueue, hqueue'⟩ := filter_unawaited fun r hr => hwaits r (List.mem_append_right _ hr)
    simp only [account, hread, hread', hfailure, Option.isSome_some, if_true, hqueue', hbatch, hqueue, List.map_nil,
      List.append_nil]
    refine ⟨fun t => ?_, h.stale, h.refused, h.unwinding, h.succeeded, fun r hr hd => ?_, h.group_nodup, fun _ => rfl,
      nofun⟩
    · have hbalance := h.balance t
      have hcount : (s.wal.requests.map Request.ticket).count t = s.wal.requests.countP (·.ticket = t) := by
        simp only [List.count_eq_countP, List.countP_map, Function.comp_def, beq_eq_decide]
      unfold held owners destroy at *
      simp only [hgroup, hreleasing, List.countP_append, List.filter_nil, List.countP_nil] at hbalance ⊢
      simp only [State.group, hbatch', List.count_append, hcount, List.countP_nil]
      omega
    · rcases List.mem_append.mp hd with hd | hd
      · exact h.not_destroyed (mem_owners_of_group hr) hd
      · obtain ⟨r', hr', heq⟩ := List.mem_map.mp hd
        exact h.apart hr hr' heq.symm

end Steps

/-- The worker destroys what nobody waits for; a request it walked over leaves the walk. -/
theorem step_release (h : Sound s) (hs : s.release = some s') : Sound s' := by
  unfold release at hs
  cases hr : s.releasing with
  | nil => rw [hr] at hs; cases hs
  | cons r rest =>
    have hread : s.read [r] = s :=
      read_eq fun q hq => h.walked q (hr ▸ List.mem_cons.mpr (Or.inl (List.mem_singleton.mp hq)))
    simp only [hr, hread] at hs
    obtain rfl := Option.some.inj hs
    have hwalked : ∀ q ∈ rest, q.ticket ∉ s.destroyed := fun q hq => h.walked q (hr ▸ List.mem_cons_of_mem r hq)
    have hdistinct : r.ticket ∉ rest.map Request.ticket ∧ (rest.map Request.ticket).Nodup := by
      have hnodup := h.distinct
      rwa [hr, List.map_cons, List.nodup_cons] at hnodup
    have hidle : s.wal.worker = .idle := h.walking (by simp [hr])
    cases hc : r.callerWaits with
    | true =>
      refine ⟨fun t => ?_, h.stale, h.refused, h.unwinding, h.succeeded, hwalked, hdistinct.2, fun _ => hidle,
        h.unwritten⟩
      have hbalance := h.balance t
      unfold held owners at hbalance ⊢
      rw [hr, List.filter_cons_of_neg (by simp [hc])] at hbalance
      exact hbalance
    | false =>
      refine ⟨fun t => ?_, h.stale, h.refused, h.unwinding, h.succeeded, fun q hq hd => ?_, hdistinct.2,
        fun _ => hidle, h.unwritten⟩
      · have hbalance := h.balance t
        unfold held owners at hbalance ⊢
        rw [hr, List.filter_cons_of_pos (by simp [hc])] at hbalance
        simp only [destroy, Bool.false_eq_true, if_false, List.map_cons, List.map_nil, List.countP_append,
          List.countP_cons, List.count_append, List.count_singleton, decide_eq_true_eq, beq_iff_eq] at hbalance ⊢
        omega
      · simp only [destroy, Bool.false_eq_true, if_false, List.map_cons, List.map_nil, List.mem_append,
          List.mem_singleton] at hd
        rcases hd with hd | hd
        · exact hwalked q hq hd
        · exact hdistinct.1 (hd ▸ List.mem_map_of_mem hq)

/-- The caller that saw its request done destroys it; no group that it waited for has failed, so it returns without
an error. -/
theorem step_destroy (h : Sound s) {i : ℕ} (howned : s.Owned (.destroy i)) (hs : s.destroyAt i = some s') :
    Sound s' := by
  unfold destroyAt at hs
  cases hi : s.returning[i]? with
  | none => rw [hi] at hs; cases hs
  | some p =>
    obtain ⟨r, err⟩ := p
    obtain ⟨hlt, hp⟩ := List.getElem?_eq_some_iff.mp hi
    have hperm : List.Perm s.returning ((r, err) :: s.returning.eraseIdx i) :=
      hp ▸ (List.getElem_cons_eraseIdx_perm hlt).symm
    have herr : err = none :=
      h.succeeded (r, err) (List.mem_append_right _ (hperm.mem_iff.mpr (List.mem_cons_self ..)))
    subst herr
    rw [hi] at hs
    obtain rfl := Option.some.inj hs
    refine ⟨fun t => ?_, h.stale, h.refused, h.unwinding, fun q hq => h.succeeded q ?_, fun q hq hd => ?_, h.distinct,
      h.walking, h.unwritten⟩
    · have hbalance := h.balance t
      have hcount := (hperm.map Prod.fst).countP_eq (p := fun r : Request => decide (r.ticket = t))
      unfold held owners at hbalance ⊢
      simp only [destroy, List.map_cons, List.map_nil, List.countP_append, List.countP_cons, List.count_append,
        List.count_singleton, decide_eq_true_eq, beq_iff_eq] at hbalance hcount ⊢
      omega
    · rcases List.mem_append.mp hq with hq | hq
      · exact List.mem_append_left _ hq
      · exact List.mem_append_right _ (List.mem_of_mem_eraseIdx hq)
    · rcases List.mem_append.mp hd with hd | hd
      · exact h.walked q hq hd
      · exact howned (r, none) (by simp [hi]) q hq (List.mem_singleton.mp hd)

theorem step_buildFails (h : Sound s) {kind : UInt8} {fault : BuildFault} (howned : fault ≠ .accepted)
    (hs : s.buildFails kind fault = some s') : Sound s' := by
  unfold buildFails at hs
  rw [if_neg fun hc => howned hc.1, if_neg howned] at hs
  obtain rfl := Option.some.inj hs
  refine { h with refused := fun n hn => ?_ }
  rcases List.mem_append.mp hn with hn | hn
  · exact h.refused n hn
  · exact List.mem_singleton.mp hn

/-- A critical section of the log. -/
theorem step_wal (h : Sound s) {w : State} {l : Wal.Label} (hready : s.Ready l) (howned : s.Owned (.wal l))
    (hs : Wal.wal.step s.wal l = some w) : Sound (s.account w l) := by
  cases l with
  | enqueueBatch ms d fault =>
    by_cases hms : ms = []
    · have hw : w = s.wal := by
        change enqueueBatch s.wal ms d fault = some w at hs
        rw [enqueueBatch, if_pos hms] at hs
        exact (Option.some.inj hs).symm
      simp only [account, if_pos hms, hw]
      exact h
    · simp only [account, if_neg hms]
      exact h.built (enqueueBatch_cases hs)
  | flushCascade ms ackId d fault => exact h.built (flushCascade_cases hs)
  | ack id outcome synced =>
    obtain ⟨-, -, rfl⟩ := ack_cases hs
    split_ifs <;> exact h.frame_live rfl rfl rfl rfl
  | nextPendingFor namespaceId =>
    obtain rfl := Option.some.inj hs
    rcases takePending_cases s.wal namespaceId with hw | ⟨item, -, hw⟩ <;> rw [hw]
    · exact h
    · exact h.frame_live rfl rfl rfl rfl
  | wake i => exact h.step_wake hs
  | finishFlush i =>
    obtain ⟨r, l₁, l₂, -, rfl⟩ := finishFlush_cases hs
    exact h.frame_live rfl rfl rfl rfl
  | takeQueue fault => exact h.step_takeQueue hready hs
  | loopHead => exact h.step_loopHead hs
  | writeNext outcome => exact h.step_writeNext hs
  | syncFile ok => exact h.step_syncFile hs
  | settle => exact h.step_settle hs
  | finish => exact h.step_finish hs howned

theorem step {l : Label} (h : Sound s) (howned : s.Owned l) (hs : tokens.step s l = some s') : Sound s' := by
  cases l with
  | wal l =>
    change (if s.Ready l then (Wal.wal.step s.wal l).map (s.account · l) else none) = some s' at hs
    obtain ⟨hready, hs⟩ := Option.ite_none_right_eq_some.mp hs
    obtain ⟨w, hw, rfl⟩ := Option.map_eq_some_iff.mp hs
    exact h.step_wal hready howned hw
  | buildFails kind fault => exact h.step_buildFails howned hs
  | release => exact h.step_release hs
  | destroy i => exact h.step_destroy howned hs
  | unwind i =>
    change s.unwind i = some s' at hs
    unfold unwind at hs
    rw [h.unwinding] at hs
    cases hs

theorem reaches {rs : List Record} (h : tokens.Reaches Owned (Tokens.opened rs) s) : Sound s :=
  h.invariant (opened rs) fun _ _ _ hsound howned hs => hsound.step howned hs

/-- Once all calls have returned, every request that was queued has been destroyed once. -/
theorem all_destroyed (h : Sound s) (hquiet : s.Quiet) {t : ℕ} (ht : t < s.wal.tickets) : s.destroyed.count t = 1 := by
  have hbalance := h.balance t
  have howners : s.owners = [] := by
    unfold owners State.group
    rw [hquiet.requests, hquiet.worker, hquiet.releasing, hquiet.finished, hquiet.returning]
    rfl
  rw [if_pos ht, held, howners, List.countP_nil] at hbalance
  omega

end Sound

instance (s : Tokens) : Decidable s.Quiet :=
  decidable_of_iff (s.wal.requests = [] ∧ s.wal.worker = .idle ∧ s.wal.finished = [] ∧ s.releasing = [] ∧
      s.returning = [] ∧ s.unwinding = [])
    ⟨fun ⟨hr, hw, hf, hl, ht, hu⟩ => ⟨hr, hw, hf, hl, ht, hu⟩, fun h => ⟨h.1, h.2, h.3, h.4, h.5, h.6⟩⟩

end Tokens

/-! ## Theorems -/

/-- **One owner at a time**: while no caller overtakes the worker's walk, no group fails that a caller waits for and
the flags of the batches can be allocated, the worker reads no request that was destroyed, and every request is
destroyed at most once: exactly once when all calls have returned, and exactly once if it was never queued. -/
theorem requests_destroyed_once (rs : List Record) (s : Tokens)
    (h : tokens.Reaches Tokens.Owned (Tokens.opened rs) s) :
    s.stale = [] ∧ (∀ t, s.destroyed.count t ≤ 1) ∧ (∀ n ∈ s.refused, n = 1) ∧
      (s.Quiet → ∀ t < s.wal.tickets, s.destroyed.count t = 1) := by
  have hsound := Tokens.Sound.reaches h
  refine ⟨hsound.stale, fun t => ?_, hsound.refused, fun hquiet t ht => hsound.all_destroyed hquiet ht⟩
  have hbalance := hsound.balance t
  split_ifs at hbalance <;> omega

/-- The run of two strict calls and an eventual one between them, and of one batch that could not be built. -/
theorem requests_destroyed_once_example :
    let m : FactMutation := ⟨[110], 1, 2, [49], ⟨5, 0, 1⟩, ⟨0, 0, []⟩⟩
    let run : List Tokens.Label := [.wal (.enqueueBatch [m] .strict none), .wal (.enqueueBatch [m] .eventual none),
      .buildFails recordBatch .mutations, .wal (.flushCascade [m] 1 .strict none), .wal (.takeQueue none),
      .wal .loopHead, .wal (.writeNext .done), .wal (.writeNext .done), .wal (.writeNext .done), .wal (.syncFile true),
      .wal .settle, .wal .finish, .wal (.wake 1), .release, .release, .release, .destroy 0, .wal (.wake 0),
      .wal (.finishFlush 0), .destroy 0]
    ∃ s, tokens.runAllowed Tokens.Owned (Tokens.opened []) run = some s ∧ s.wal.tickets = 3 ∧ s.refused = [1] ∧
      s.stale = [] ∧ ∀ t < 3, s.destroyed.count t = 1 := by
  intro m run
  have hrun : (tokens.runAllowed Tokens.Owned (Tokens.opened []) run).map
      (fun s => (s.wal.tickets, s.refused, decide s.Quiet)) = some (3, [1], true) := by decide
  obtain ⟨s, hs, hfinal⟩ := Option.map_eq_some_iff.mp hrun
  obtain ⟨htickets, hrefused, hquiet⟩ : s.wal.tickets = 3 ∧ s.refused = [1] ∧ decide s.Quiet = true := by
    simpa only [Prod.mk.injEq] using hfinal
  obtain ⟨hstale, -, -, hall⟩ := requests_destroyed_once [] s (Machine.reaches_of_runAllowed hs)
  exact ⟨s, hs, htickets, hrefused, hstale, htickets ▸ hall (of_decide_eq_true hquiet)⟩

/-- Outside these runs: a strict caller that wakes as soon as its request is done destroys it under the worker's
walk, and a strict caller whose group failed destroys it twice. -/
theorem request_misused :
    let m : FactMutation := ⟨[110], 1, 2, [49], ⟨5, 0, 1⟩, ⟨0, 0, []⟩⟩
    let published : List Tokens.Label := [.wal (.enqueueBatch [m] .strict none), .wal (.takeQueue none), .wal .loopHead]
    let overtaken := published ++ [.wal (.writeNext .done), .wal (.syncFile true), .wal .settle, .wal .finish,
      .wal (.wake 0), .destroy 0, .release]
    let failed := published ++ [.wal (.writeNext (.failed 0)), .wal .loopHead, .wal .settle, .wal .finish, .release,
      .wal (.wake 0), .destroy 0, .unwind 0]
    (overtaken.foldlM tokens.step (Tokens.opened [])).map Tokens.stale = some [0] ∧
      (failed.foldlM tokens.step (Tokens.opened [])).map Tokens.destroyed = some [0, 0] := by
  decide

end Slung.Wal
