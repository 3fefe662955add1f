import Slung.Wal.Machine

/-!
# Slung.Wal.PendingOrder — the pending list under concurrent strict calls

While a group is written its entries stand at the end of the pending list, and callers of earlier groups
take their own entries out of it.  A failed group is taken back by length: the list is cut to the length it
had before the publication.  If a caller removed an entry in between, the cut is one short and leaves an
entry of the failed group behind, whose id is not below the counter and whose fact is gone
(`pending_left_behind`).

`pendingOk_of_settlesWhole`: in every run of strict calls the pending list is in order in every state, as
long as no failed group is settled after such a removal.
-/

namespace Slung.Wal

open Slung.Lib

/-! ## Runs of strict calls -/

/-- A failed group is settled over the pending list that its publication left: it published nothing, or the
list is as long as the remembered length and the published entries together. -/
def State.SettlesWhole (s : State) : Prop :=
  match s.worker with
  | .settling g (some _) => s.live.nextId = g.nextIdStart ∨
      (s.live.pending.length : ℤ) = g.pendingStart + (s.live.nextId - g.nextIdStart)
  | _ => True

/-- Strict batches and cascades, with ids from `nextPendingFor`; writes and syncs may fail. -/
def StrictCalls (s : State) : Label → Prop
  | .enqueueBatch _ durability fault => durability = .strict ∧ fault = none
  | .flushCascade _ ackId durability fault =>
    durability = .strict ∧ fault = none ∧ ackId.toInt ∈ s.history.issued
  | .ack _ _ _ => False
  | .takeQueue fault => fault = none
  | _ => True

/-- Runs of strict calls in which every failed group is settled whole. -/
def SettledWhole (s : State) (l : Label) : Prop := StrictCalls s l ∧ (l = .settle → s.SettlesWhole)

instance (s : State) : ∀ l, Decidable (StrictCalls s l)
  | .enqueueBatch .. | .flushCascade .. => inferInstanceAs (Decidable (_ ∧ _))
  | .ack .. => inferInstanceAs (Decidable False)
  | .takeQueue .. => inferInstanceAs (Decidable (_ = _))
  | .nextPendingFor .. | .wake .. | .finishFlush .. | .loopHead | .writeNext .. | .syncFile .. | .settle | .finish =>
    inferInstanceAs (Decidable True)

instance (s : State) : Decidable s.SettlesWhole := by
  unfold State.SettlesWhole
  split <;> infer_instance

instance (s : State) (l : Label) : Decidable (SettledWhole s l) := by
  unfold SettledWhole; infer_instance

/-! ## What a publication adds to the pending list -/

theorem Live.PendingOk.put {self : Live} (h : self.PendingOk) (kind : UInt8) (m : FactMutation) :
    (self.put kind m).PendingOk := by
  unfold Live.put
  split_ifs
  · exact h.putFact m
  · exact h.putDirty m

theorem Live.PendingOk.putAll {self : Live} (h : self.PendingOk) (kms : List (UInt8 × FactMutation)) :
    (self.putAll kms).PendingOk := by
  induction kms generalizing self with
  | nil => exact h
  | cons km kms ih => exact ih (h.put km.1 km.2)

/-- One mutation appends an entry and takes an id, or does neither. -/
theorem Live.put_pending (self : Live) (kind : UInt8) (m : FactMutation) :
    ∃ new, (self.put kind m).pending = self.pending ++ new ∧ (∀ item ∈ new, self.nextId ≤ item.id) ∧
      (new.length : ℤ) = (self.put kind m).nextId - self.nextId := by
  unfold Live.put
  split_ifs
  · exact ⟨[], by simp, by simp, by simp⟩
  · cases hacc : self.accepts m with
    | true =>
      rw [Live.putDirty_of_accepts hacc]
      exact ⟨[m.pendingAs self.nextId], rfl, by simp [FactMutation.pendingAs], by simp⟩
    | false =>
      rw [Live.putDirty_of_rejects hacc]
      exact ⟨[], by simp, by simp, by simp⟩

/-- A publication appends one entry for each id it takes. -/
theorem Live.putAll_pending (self : Live) (kms : List (UInt8 × FactMutation)) :
    ∃ new, (self.putAll kms).pending = self.pending ++ new ∧ (∀ item ∈ new, self.nextId ≤ item.id) ∧
      (new.length : ℤ) = (self.putAll kms).nextId - self.nextId := by
  induction kms generalizing self with
  | nil => exact ⟨[], by simp, by simp, by simp⟩
  | cons km kms ih =>
    obtain ⟨new, hp, hid, hlen⟩ := self.put_pending km.1 km.2
    obtain ⟨new', hp', hid', hlen'⟩ := ih (self.put km.1 km.2)
    rw [Live.putAll_cons]
    refine ⟨new ++ new', by rw [hp', hp, List.append_assoc], ?_, ?_⟩
    · intro item hi
      rcases List.mem_append.mp hi with hi | hi
      · exact hid item hi
      · have := hid' item hi
        omega
    · rw [List.length_append, Nat.cast_add, hlen, hlen']
      ring

/-! ## The invariant -/

/-- The group that is published and not settled. -/
def Worker.flight : Worker → Option Group
  | .looping g _ _ | .writing g _ _ | .settling g _ => some g
  | _ => none

/-- What the live state is while the group is in flight: the facts are those before the publication with
the group's writes on top, and the pending list is what is left of the old one with all entries of the group
behind it. -/
def InFlight (g : Group) (live : Live) : Prop :=
  ∃ (facts₀ : FMap Bytes Fact) (ws : List (Bytes × Fact)) (old new : List PendingDirty),
    live.facts = (recordAll Fact.timestamp facts₀ ws).1 ∧
    g.undo = (recordAll Fact.timestamp facts₀ ws).2 ∧
    live.pending = old ++ new ∧
    (∀ item ∈ old, item.id < g.nextIdStart ∧
      (facts₀.lookup (makeKey item.namespaceId item.entity item.component)).isSome) ∧
    (∀ item ∈ new, g.nextIdStart ≤ item.id) ∧
    old.length ≤ g.pendingStart ∧
    (new.length : ℤ) = live.nextId - g.nextIdStart

/-- Ids that callers hold are below this one: taking them out leaves a group in flight alone. -/
def State.bound (s : State) : ℤ :=
  match s.worker.flight with
  | some g => g.nextIdStart
  | none => s.live.nextId

/-- The requests whose callers take out, or may still take out, the entry they acknowledged. -/
def State.Holds (s : State) (r : Request) : Prop :=
  r ∈ s.group ∨ (r, none) ∈ s.finished ∨ r ∈ s.removing

/-- Nothing that waits will be written any more. -/
def State.Doomed (s : State) : Prop := s.failed = true ∨ ∃ g e, s.worker = .finishing g (some e)

/-- The invariant of runs of strict calls. -/
structure Ordered (s : State) : Prop where
  ok : s.live.PendingOk
  flight : ∀ g, s.worker.flight = some g → InFlight g s.live
  halted : s.failed = true → s.worker = .idle ∧ s.requests = []
  queued : ¬ s.Doomed → ∀ r ∈ s.requests, ∀ a ∈ r.acks, a < s.live.nextId
  issued : ¬ s.Doomed → ∀ a ∈ s.history.issued, a < s.live.nextId
  held : ∀ r, s.Holds r → ∀ a ∈ r.acks, a < s.bound
  removing : ∀ r ∈ s.removing, r.recordKind = recordCascade

theorem InFlight.start_le {g : Group} {live : Live} (h : InFlight g live) : g.nextIdStart ≤ live.nextId := by
  obtain ⟨_, _, _, _, _, _, _, _, _, _, hlen⟩ := h
  omega

/-- A caller takes out an entry from before the group. -/
theorem InFlight.removePending {g : Group} {live : Live} (h : InFlight g live) (hok : live.PendingOk)
    {a : ℤ} (ha : a < g.nextIdStart) : InFlight g (removePending live a) := by
  obtain ⟨facts₀, ws, old, new, hf, hu, hp, hold, hnew, hfew, hlen⟩ := h
  refine ⟨facts₀, ws, old.filter (fun item => item.id != a), new, hf, hu, ?_, ?_, hnew, ?_, hlen⟩
  · have hkeep : new.filter (fun item => item.id != a) = new := by
      refine List.filter_eq_self.mpr fun item hi => ?_
      have := hnew item hi
      rw [bne_iff_ne]
      omega
    change live.pending.eraseP _ = _
    rw [Live.eraseP_eq_filter hok.nodup, hp, List.filter_append, hkeep]
  · exact fun item hi => hold item (List.mem_of_mem_filter hi)
  · exact (List.length_filter_le _ _).trans hfew

/-- Taking a failed group back by length is right if the list has the length of the publication. -/
theorem InFlight.settle {g : Group} {live : Live} (h : InFlight g live) (hok : live.PendingOk)
    {failure : Option Err} (e : Err) (hwhole : live.nextId = g.nextIdStart ∨
      (live.pending.length : ℤ) = g.pendingStart + (live.nextId - g.nextIdStart)) :
    (settleGroup ⟨live, g.undo, failure⟩ g.pendingStart g.nextIdStart (some e)).PendingOk ∧
      g.nextIdStart ≤
        (settleGroup ⟨live, g.undo, failure⟩ g.pendingStart g.nextIdStart (some e)).nextId := by
  have hstart := h.start_le
  obtain ⟨facts₀, ws, old, new, hf, hu, hp, hold, hnew, hfew, hlen⟩ := h
  unfold settleGroup
  by_cases hundo : g.undo = []
  · rw [if_neg (by simp [hundo])]
    exact ⟨hok, hstart⟩
  rw [if_pos ⟨rfl, hundo⟩]
  have hfacts : (rollback Fact.timestamp live.facts g.undo).1 = facts₀ := by
    rw [hf, hu]
    exact rollback_record _ _
  have hcut : live.pending.take g.pendingStart = old := by
    rcases hwhole with hnone | hall
    · have hnil : new = [] := List.length_eq_zero_iff.mp (by omega)
      rw [hp, hnil, List.append_nil, List.take_of_length_le hfew]
    · have hlength : old.length = g.pendingStart := by
        rw [hp, List.length_append] at hall
        push_cast at hall
        omega
      rw [hp, ← hlength, List.take_left]
  have hsub : old.Sublist live.pending := hp ▸ List.sublist_append_left old new
  change (⟨(rollback Fact.timestamp live.facts g.undo).1, live.pending.take g.pendingStart,
    g.nextIdStart⟩ : Live).PendingOk ∧ g.nextIdStart ≤ g.nextIdStart
  rw [hfacts, hcut]
  exact ⟨⟨hok.sorted.sublist (hsub.map _), fun item hi => (hold item hi).1, fun item hi => (hold item hi).2⟩,
    le_rfl⟩

namespace Ordered

variable {s s' : State}

theorem opened (rs : List Record) : Ordered (State.opened rs) where
  ok := Live.pendingOk_init.replayAll rs
  flight := nofun
  halted := nofun
  queued := by simp [State.opened]
  issued := by simp [State.opened]
  held := by simp [State.Holds, State.opened, State.group]
  removing := by simp [State.opened]

theorem not_doomed_of_requests (h : Ordered s) (hidle : s.worker = .idle) (hne : s.requests ≠ []) :
    ¬ s.Doomed := by
  rintro (hf | ⟨g, e, hw⟩)
  · exact hne (h.halted hf).2
  · rw [hidle] at hw
    cases hw

/-- A strict request joins the queue. -/
theorem push (h : Ordered s) (hf : s.failed = false) (request : Request)
    (hacks : ¬ s.Doomed → ∀ a ∈ request.acks, a < s.live.nextId) : Ordered (s.push request) where
  ok := h.ok
  flight := h.flight
  halted := fun hc => absurd (hf.symm.trans hc) (by simp)
  queued := by
    intro hd r hr
    rcases List.mem_append.mp hr with hr | hr
    · exact h.queued hd r hr
    · exact List.mem_singleton.mp hr ▸ hacks hd
  issued := h.issued
  held := h.held
  removing := h.removing

theorem step_takeQueue (h : Ordered s) (hs : takeQueue s none = some s') : Ordered s' := by
  obtain ⟨hidle, hne, rfl⟩ := takeQueue_none hs
  have hd := h.not_doomed_of_requests hidle hne
  have hbound : s.bound = s.live.nextId := by simp [State.bound, Worker.flight, hidle]
  have hgroup : s.group = [] := by simp [State.group, hidle]
  obtain ⟨new, hp, hnew, hlen⟩ := s.live.putAll_pending (strictMutations s.requests)
  have hle : s.live.nextId ≤ (s.live.putAll (strictMutations s.requests)).nextId := by omega
  refine ⟨h.ok.putAll _, ?_, ?_, ?_, ?_, ?_, h.removing⟩
  · intro g hg
    obtain rfl := Option.some.inj hg
    exact ⟨s.live.facts, writesOf (strictMutations s.requests), s.live.pending, new,
      Live.putAll_facts _ _, rfl, hp, fun item hi => ⟨h.ok.below item hi, h.ok.hasFact item hi⟩, hnew,
      le_rfl, hlen⟩
  · intro hf
    exact absurd (Or.inl hf) hd
  · intro _ r hr
    cases hr
  · exact fun _ a ha => (h.issued hd a ha).trans_le hle
  · intro r hr a ha
    change a < s.live.nextId
    rcases hr with hr | hr
    · obtain ⟨r₀, hr₀, accepted, rfl⟩ := publishRequests_mem hr
      exact h.queued hd r₀ hr₀ a ha
    · exact hbound ▸ h.held r (Or.inr hr) a ha

/-- A step of the worker while its group stays in flight. -/
theorem flight_step (h : Ordered s) {g : Group} {worker : Worker} {file : Bytes} {history : History}
    (hw : s.worker.flight = some g) (hw' : worker.flight = some g)
    (hgroup : ∀ t : State, t.worker = worker → t.group = s.group)
    (hissued : history.issued = s.history.issued) :
    Ordered { s with worker := worker, file := file, history := history } := by
  have hf : s.failed = false := by
    cases hf : s.failed with
    | false => rfl
    | true => rw [(h.halted hf).1] at hw; cases hw
  have hd : ¬ s.Doomed := by
    rintro (hc | ⟨g', e, hc⟩)
    · rw [hf] at hc; cases hc
    · rw [hc] at hw; cases hw
  refine ⟨h.ok, ?_, ?_, fun _ => h.queued hd, ?_, ?_, h.removing⟩
  · intro g' hg'
    exact h.flight g' (hw.trans (hw'.symm.trans hg'))
  · intro hc
    rw [hf] at hc
    cases hc
  · intro _
    simp only [hissued]
    exact h.issued hd
  · have hheld := h.held
    have hb : s.bound = g.nextIdStart := by simp [State.bound, hw]
    unfold State.Holds
    rw [hgroup _ rfl]
    intro r hr a ha
    have := hheld r hr a ha
    rw [hb] at this
    simpa [State.bound, hw'] using this

theorem step_loopHead (h : Ordered s) (hs : loopHead s = some s') : Ordered s' := by
  obtain ⟨g, attempt, failure, hw, ⟨-, -, rfl⟩ | ⟨-, rfl⟩⟩ := loopHead_cases hs <;>
    exact h.flight_step (by rw [hw]; rfl) rfl (fun t ht => by simp [State.group, ht, hw]) rfl

theorem step_writeNext (h : Ordered s) {outcome : WriteOutcome} (hs : writeNext s outcome = some s') :
    Ordered s' := by
  obtain ⟨g, attempt, r, todo, hw, ⟨e, -, rfl⟩ | ⟨-, -, rfl⟩ | ⟨-, k, -, rfl⟩⟩ := writeNext_cases hs <;>
    exact h.flight_step (by rw [hw]; rfl) rfl (fun t ht => by simp [State.group, ht, hw]) rfl

theorem step_syncFile (h : Ordered s) {ok : Bool} (hs : syncFile s ok = some s') : Ordered s' := by
  obtain ⟨g, attempt, hw, ⟨-, rfl⟩ | ⟨-, rfl⟩⟩ := syncFile_cases hs <;>
    exact h.flight_step (by rw [hw]; rfl) rfl (fun t ht => by simp [State.group, ht, hw]) rfl

/-- Settling: a successful group stays, a failed one is taken back whole. -/
theorem step_settle (h : Ordered s) (hwhole : s.SettlesWhole) (hs : settle s = some s') :
    Ordered s' := by
  obtain ⟨g, failure, hw, rfl⟩ := settle_cases hs
  have hflight := h.flight g (by rw [hw]; rfl)
  have hf : s.failed = false := by
    cases hf : s.failed with
    | false => rfl
    | true => rw [(h.halted hf).1] at hw; cases hw
  have hd : ¬ s.Doomed := by
    rintro (hc | ⟨g', e, hc⟩)
    · rw [hf] at hc; cases hc
    · rw [hc] at hw; cases hw
  have hgroup : s.group = g.batch := by simp [State.group, hw]
  have hbound : s.bound = g.nextIdStart := by simp [State.bound, hw, Worker.flight]
  have hsettled : (settleGroup ⟨s.live, g.undo, failure⟩ g.pendingStart g.nextIdStart failure).PendingOk ∧
      g.nextIdStart ≤
        (settleGroup ⟨s.live, g.undo, failure⟩ g.pendingStart g.nextIdStart failure).nextId := by
    cases failure with
    | none => exact ⟨h.ok, hflight.start_le⟩
    | some e =>
      rw [State.SettlesWhole, hw] at hwhole
      exact hflight.settle h.ok e hwhole
  refine ⟨hsettled.1, nofun, ?_, ?_, ?_, ?_, h.removing⟩
  · intro hc
    rw [hf] at hc
    cases hc
  · intro hnd
    cases failure with
    | none => exact h.queued hd
    | some e => exact absurd (Or.inr ⟨g, e, rfl⟩) hnd
  · intro hnd
    cases failure with
    | none => exact h.issued hd
    | some e => exact absurd (Or.inr ⟨g, e, rfl⟩) hnd
  · intro r hr a ha
    have hheld := h.held r (by unfold State.Holds; rw [hgroup]; exact hr) a ha
    rw [hbound] at hheld
    exact hheld.trans_le hsettled.2

/-- The callers of a successful group hold what the group held; those of a failed one hold nothing. -/
theorem step_finish (h : Ordered s) (hs : finish s = some s') : Ordered s' := by
  obtain ⟨g, failure, hw, hcases⟩ := finish_cases hs
  have hbound : s.bound = s.live.nextId := by simp [State.bound, hw, Worker.flight]
  have hgroup : s.group = g.batch := by simp [State.group, hw]
  have hheld := h.held
  rw [hbound] at hheld
  unfold State.Holds at hheld
  rw [hgroup] at hheld
  rcases hcases with ⟨rfl, rfl⟩ | ⟨e, rfl, rfl⟩
  · have hd : ¬ s.Doomed := by
      rintro (hc | ⟨g', e, hc⟩)
      · rw [(h.halted hc).1] at hw; cases hw
      · rw [hw] at hc; cases hc
    refine ⟨h.ok, nofun, fun hc => absurd (Or.inl hc) hd, fun _ => h.queued hd, fun _ => h.issued hd, ?_,
      h.removing⟩
    intro r hr a ha
    refine hheld r ?_ a ha
    rcases hr with hr | hr | hr
    · cases hr
    · rcases List.mem_append.mp hr with hr | hr
      · exact Or.inr (Or.inl hr)
      · obtain ⟨r', hr', he⟩ := List.mem_map.mp hr
        cases he
        exact Or.inl (List.mem_of_mem_filter hr')
    · exact Or.inr (Or.inr hr)
  · refine ⟨h.ok, nofun, fun _ => ⟨rfl, rfl⟩, fun hd => absurd (Or.inl rfl) hd,
      fun hd => absurd (Or.inl rfl) hd, ?_, h.removing⟩
    intro r hr a ha
    refine hheld r (Or.inr ?_) a ha
    rcases hr with hr | hr | hr
    · cases hr
    · left
      simp only [List.mem_append, List.mem_map, Prod.mk.injEq, reduceCtorEq, and_false, exists_false,
        or_false] at hr
      exact hr
    · exact Or.inr hr

theorem step_wake (h : Ordered s) {i : ℕ} (hs : wake s i = some s') : Ordered s' := by
  obtain ⟨request, err, l₁, l₂, hl, hcases⟩ := wake_cases hs
  have hmem : ∀ p ∈ l₁ ++ l₂, p ∈ s.finished := by
    intro p hp
    rw [hl]
    exact List.mem_append.mpr ((List.mem_append.mp hp).imp id (List.mem_cons_of_mem _))
  have hheld : ∀ t : State, t.worker = s.worker → t.live = s.live → t.finished = l₁ ++ l₂ →
      t.removing = s.removing → ∀ r, t.Holds r → ∀ a ∈ r.acks, a < t.bound := by
    intro t h1 h2 h3 h4 r hr a ha
    have hb : t.bound = s.bound := by simp [State.bound, h1, h2]
    have hg : t.group = s.group := by simp [State.group, h1]
    rw [hb]
    unfold State.Holds at hr
    rw [hg, h3, h4] at hr
    exact h.held r (hr.imp id (Or.imp (hmem _) id)) a ha
  rcases hcases with ⟨-, rfl⟩ | ⟨rfl, hk, rfl⟩ | ⟨-, -, rfl⟩
  · exact { h with held := hheld _ rfl rfl rfl rfl }
  · refine { h with held := fun r hr a ha => ?_, removing := fun r hr => ?_ }
    · change a < s.bound
      refine h.held r ?_ a ha
      rcases hr with hr | hr | hr
      · exact Or.inl hr
      · exact Or.inr (Or.inl (hmem _ hr))
      · rcases List.mem_append.mp hr with hr | hr
        · exact Or.inr (Or.inr hr)
        · exact Or.inr (Or.inl (by rw [List.mem_singleton.mp hr, hl]; simp))
    · rcases List.mem_append.mp hr with hr | hr
      · exact h.removing r hr
      · exact List.mem_singleton.mp hr ▸ hk
  · exact { h with held := hheld _ rfl rfl rfl rfl }

/-- A returning caller takes out an entry from before any group in flight. -/
theorem step_finishFlush (h : Ordered s) {i : ℕ} (hs : finishFlush s i = some s') : Ordered s' := by
  obtain ⟨request, l₁, l₂, hl, rfl⟩ := finishFlush_cases hs
  have hin : request ∈ s.removing := by simp [hl]
  have hacks : request.acks = [request.ackId.toInt] := if_pos (h.removing request hin)
  have hid : request.ackId.toInt < s.bound := h.held request (Or.inr (Or.inr hin)) _ (by simp [hacks])
  have hmem : ∀ r ∈ l₁ ++ l₂, r ∈ s.removing := by
    intro r hr
    rw [hl]
    exact List.mem_append.mpr ((List.mem_append.mp hr).imp id (List.mem_cons_of_mem _))
  refine ⟨h.ok.removePending _, ?_, h.halted, h.queued, h.issued, ?_, fun r hr => h.removing r (hmem r hr)⟩
  · intro g hg
    refine (h.flight g hg).removePending h.ok ?_
    have hb : s.bound = g.nextIdStart := by
      change s.worker.flight = some g at hg
      simp [State.bound, hg]
    exact hb ▸ hid
  · intro r hr a ha
    change a < s.bound
    exact h.held r (hr.imp id (Or.imp id (hmem r))) a ha

theorem step_takePending (h : Ordered s) (namespaceId : Option NamespaceId) :
    Ordered (takePending s namespaceId) := by
  rcases takePending_cases s namespaceId with hs | ⟨item, hmem, hs⟩
  · rw [hs]
    exact h
  · rw [hs]
    refine { h with issued := fun hd a ha => ?_ }
    rcases List.mem_append.mp ha with ha | ha
    · exact h.issued hd a ha
    · exact List.mem_singleton.mp ha ▸ h.ok.below item hmem

/-- **Every step keeps the order** if failed groups are settled whole. -/
theorem step {l : Label} (h : Ordered s) (hP : SettledWhole s l) (hs : wal.step s l = some s') :
    Ordered s' := by
  obtain ⟨hP, hsettle⟩ := hP
  cases l with
  | enqueueBatch ms durability fault =>
    obtain ⟨rfl, rfl⟩ := hP
    change enqueueBatch s ms .strict none = some s' at hs
    unfold enqueueBatch at hs
    by_cases hms : ms = []
    · rw [if_pos hms] at hs
      exact Option.some.inj hs ▸ h
    rw [if_neg hms] at hs
    rcases admission_cases hs with rfl | ⟨hf, rfl⟩
    · exact h
    · exact h.push hf _ (by simp)
  | flushCascade ms ackId durability fault =>
    obtain ⟨rfl, rfl, hid⟩ := hP
    change flushCascade s ms ackId .strict none = some s' at hs
    unfold flushCascade at hs
    rcases admission_cases hs with rfl | ⟨hf, rfl⟩
    · exact h
    · exact h.push hf _ fun hd a ha => h.issued hd a (List.mem_singleton.mp ha ▸ hid)
  | ack id outcome synced => exact False.elim hP
  | nextPendingFor namespaceId =>
    obtain rfl := Option.some.inj hs
    exact h.step_takePending namespaceId
  | wake i => exact h.step_wake hs
  | finishFlush i => exact h.step_finishFlush hs
  | takeQueue fault =>
    obtain rfl : fault = none := hP
    exact h.step_takeQueue hs
  | loopHead => exact h.step_loopHead hs
  | writeNext outcome => exact h.step_writeNext hs
  | syncFile ok => exact h.step_syncFile hs
  | settle => exact h.step_settle (hsettle rfl) hs
  | finish => exact h.step_finish hs

end Ordered

/-! ## The pending list -/

/-- **The pending list stays in order** in every state of every run of strict calls in which failed groups
are settled whole. -/
theorem pendingOk_of_settlesWhole (rs : List Record) (s : State)
    (h : wal.Reaches SettledWhole (State.opened rs) s) : s.live.PendingOk :=
  (h.invariant (Ordered.opened rs) fun _ _ _ hI hP hs => hI.step hP hs).ok

/-- A batch that fails while no caller holds an entry. -/
theorem pendingOk_failed_batch :
    ∃ s, wal.runAllowed SettledWhole (State.opened []) [
        .enqueueBatch [⟨[110], 1, 2, [34, 34], ⟨5, 0, 1⟩, ⟨0, 0, []⟩⟩] .strict none,
        .takeQueue none, .loopHead, .writeNext (.failed 3), .loopHead, .settle, .finish] = some s ∧
      s.live.PendingOk := by
  have hrun : (wal.runAllowed SettledWhole (State.opened []) [
        .enqueueBatch [⟨[110], 1, 2, [34, 34], ⟨5, 0, 1⟩, ⟨0, 0, []⟩⟩] .strict none,
        .takeQueue none, .loopHead, .writeNext (.failed 3), .loopHead, .settle, .finish]).isSome := by
    decide
  obtain ⟨s, hs⟩ := Option.isSome_iff_exists.mp hrun
  exact ⟨s, hs, pendingOk_of_settlesWhole [] s (Machine.reaches_of_runAllowed hs)⟩

/-- A second batch is published while the cascade of the first is done and its entry not yet taken out; then
the entry goes and the write of the second batch fails.  The cut to length one keeps the second batch's
entry, with the id that is free again and without a fact. -/
theorem pending_left_behind :
    ∃ s, wal.Reaches StrictCalls (State.opened []) s ∧ s.worker = .idle ∧ ¬ s.live.PendingOk ∧
      s.live.pending = [⟨2, [110], 1, 3⟩] ∧ s.live.nextId = 2 ∧ getFact s.live [110] 1 3 = none := by
  let commit : List Label :=
    [.takeQueue none, .loopHead, .writeNext .done, .syncFile true, .settle, .finish]
  let run : List Label :=
    [.enqueueBatch [⟨[110], 1, 2, [34, 34], ⟨5, 0, 1⟩, ⟨0, 0, []⟩⟩] .strict none] ++ commit ++
    [.nextPendingFor (some [110]), .flushCascade [] 1 .strict none] ++ commit ++
    [.wake 0, .wake 0,
      .enqueueBatch [⟨[110], 1, 3, [34, 34], ⟨6, 0, 1⟩, ⟨0, 0, []⟩⟩] .strict none,
      .takeQueue none, .finishFlush 0, .loopHead, .writeNext (.failed 0), .loopHead, .settle, .finish]
  have hrun : (wal.runAllowed StrictCalls (State.opened []) run).isSome := by decide
  obtain ⟨s, hs⟩ := Option.isSome_iff_exists.mp hrun
  have hw : (wal.runAllowed StrictCalls (State.opened []) run).map State.worker = some .idle := rfl
  have hlive : ((wal.runAllowed StrictCalls (State.opened []) run).map fun s =>
      (s.live.pending, s.live.nextId, getFact s.live [110] 1 3)) =
      some ([⟨2, [110], 1, 3⟩], 2, none) := by decide
  rw [hs] at hw hlive
  simp only [Option.map_some, Option.some.injEq, Prod.mk.injEq] at hw hlive
  refine ⟨s, Machine.reaches_of_runAllowed hs, hw, fun hok => ?_, hlive⟩
  have := hok.below ⟨2, [110], 1, 3⟩ (by simp [hlive.1])
  rw [hlive.2.1] at this
  exact absurd this (by decide)

end Slung.Wal
