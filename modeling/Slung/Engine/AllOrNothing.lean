import Slung.Engine.HostCalls
import Slung.Wasm.Module

/-!
# Slung.Engine.AllOrNothing — the two endings of an inference run

`InCascade` through dispatches, cycles and the run.  `After` is what is left at each level, by how it ended;
`runTimed` turns it into a commit or into what was there before.
-/

namespace Slung

open Slung.Lib

variable {std : StdLib}

/-! ## Dispatches -/

/-- The outputs are the writes that were reported to the rules as done. -/
def Written (run : Run std) : Prop := run.context.cascadeOutputs.map Write.of = run.writes

variable {ctx₀ : Context std.wyhash} {live : Wal.Live} {claims : ClaimRegister} {run run' : Run std}

/-- A run between two host calls. -/
abbrev InRun (ctx₀ : Context std.wyhash) (live : Wal.Live) (claims : ClaimRegister) (run : Run std) : Prop :=
  InCascade ctx₀ live claims run.context.clock.now run.context

/-- What host calls leave. -/
structure Called (ctx₀ : Context std.wyhash) (live : Wal.Live) (claims : ClaimRegister) (run : Run std)
    (stop : Option Stop) : Prop where
  cascade : InRun ctx₀ live claims run
  written : stop = none → Written run
  exhausted : stop = some .panic → run.context.clock.Exhausted

theorem hostCall_spec (h : InRun ctx₀ live claims run) (hw : Written run) {call : HostCall} {stop : Option Stop}
    (hc : hostCall run call = (run', stop)) : Called ctx₀ live claims run' stop := by
  cases call with
  | get entity component faults =>
    have hpanic := slungGet_ne_panic run.context entity component faults
    simp only [hostCall] at hc
    cases hget : (slungGet std run.context entity component faults).1 with
    | panic => exact absurd hget hpanic
    | status n =>
      rw [hget] at hc
      obtain ⟨rfl, rfl⟩ := Prod.mk.inj hc
      exact ⟨h, fun _ => hw, fun h => (by cases h)⟩
    | err e =>
      rw [hget] at hc
      obtain ⟨rfl, rfl⟩ := Prod.mk.inj hc
      exact ⟨h, fun h => (by cases h), fun h => (by cases h)⟩
  | set call =>
    simp only [hostCall] at hc
    cases hset : slungSet run.context call with
    | mk context result =>
      obtain ⟨h', hreported⟩ := h.slungSet_spec hset
      rw [hset] at hc
      cases result with
      | status n =>
        obtain ⟨rfl, rfl⟩ := Prod.mk.inj hc
        refine ⟨h', fun _ => ?_, fun h => (by cases h)⟩
        unfold Written at hw ⊢
        by_cases hn : n = 0
        · rw [hreported.done (hn ▸ rfl), hw]
          simp only [if_pos hn]
          rfl
        · rw [hreported.failed n hn rfl, hw]
          simp only [if_neg hn]
      | err e =>
        obtain ⟨rfl, rfl⟩ := Prod.mk.inj hc
        exact ⟨h', fun h => (by cases h), fun h => (by cases h)⟩
      | panic =>
        obtain ⟨rfl, rfl⟩ := Prod.mk.inj hc
        exact ⟨h', fun h => (by cases h), fun _ => hreported.exhausted rfl⟩
  | now wallNow =>
    simp only [hostCall] at hc
    cases hsend : run.context.clock.sendWithWall wallNow with
    | none =>
      rw [hsend] at hc
      obtain ⟨rfl, rfl⟩ := Prod.mk.inj hc
      exact ⟨h, fun h => (by cases h), fun _ => (Hlc.sendWithWall_none.mp hsend).2⟩
    | some event =>
      obtain ⟨ts, clock⟩ := event
      obtain ⟨rfl, hlt⟩ := Hlc.sendWithWall_some hsend
      rw [hsend] at hc
      obtain ⟨rfl, rfl⟩ := Prod.mk.inj hc
      have hmono := h.mono hlt.le
      exact ⟨{ hmono with }, fun _ => hw, fun h => (by cases h)⟩

theorem hostCalls_spec (h : InRun ctx₀ live claims run) (hw : Written run) {calls : List HostCall}
    {stop : Option Stop} (hc : hostCalls run calls = (run', stop)) : Called ctx₀ live claims run' stop := by
  induction calls generalizing run with
  | nil =>
    obtain ⟨rfl, rfl⟩ := Prod.mk.inj hc
    exact ⟨h, fun _ => hw, nofun⟩
  | cons call calls ih =>
    cases hcall : hostCall run call with
    | mk run₁ stop₁ =>
      have hcalled := hostCall_spec h hw hcall
      simp only [hostCalls, hcall] at hc
      cases stop₁ with
      | none => exact ih hcalled.cascade (hcalled.written rfl) hc
      | some reason =>
        obtain ⟨rfl, rfl⟩ := Prod.mk.inj hc
        exact hcalled

theorem dispatch_spec (h : InRun ctx₀ live claims run) (hw : Written run) {d : Dispatch}
    {result : Except Stop Int32} (hd : dispatch run d = (run', result)) :
    InRun ctx₀ live claims run' ∧ (∀ code, result = .ok code → Written run') ∧
      (result = .error .panic → run'.context.clock.Exhausted) := by
  unfold dispatch at hd
  cases hcalls : hostCalls run d.calls with
  | mk run₁ stop =>
    have hcalled := hostCalls_spec h hw hcalls
    rw [hcalls] at hd
    cases stop with
    | some reason =>
      obtain ⟨rfl, rfl⟩ := Prod.mk.inj hd
      exact ⟨hcalled.cascade, nofun, fun heq => hcalled.exhausted (by rw [Except.error.inj heq])⟩
    | none =>
      cases hcode : d.code with
      | some code =>
        simp only [hcode] at hd
        obtain ⟨rfl, rfl⟩ := Prod.mk.inj hd
        exact ⟨hcalled.cascade, fun _ _ => hcalled.written rfl, nofun⟩
      | none =>
        simp only [hcode] at hd
        obtain ⟨rfl, rfl⟩ := Prod.mk.inj hd
        exact ⟨hcalled.cascade, nofun, nofun⟩

/-- What a part of a run that started without claims leaves.  A panic leaves its claim. -/
structure After {α : Type} (ctx₀ : Context std.wyhash) (live : Wal.Live) (run : Run std)
    (result : Except Stop α) : Prop where
  storage : run.context.storage = some live
  cascade : result ≠ .error .panic → InRun ctx₀ live ∅ run
  written : ∀ a, result = .ok a → Written run
  exhausted : result = .error .panic → run.context.clock.Exhausted

theorem After.ok {α : Type} (h : InRun ctx₀ live ∅ run) (hw : Written run) (a : α) :
    After ctx₀ live run (.ok a : Except Stop α) :=
  ⟨h.storage, fun _ => h, fun _ _ => hw, nofun⟩

theorem After.error {α : Type} (h : InRun ctx₀ live ∅ run) (e : RunError) :
    After ctx₀ live run (.error (.error e) : Except Stop α) :=
  ⟨h.storage, fun _ => h, nofun, nofun⟩

/-- A stop is passed on. -/
theorem After.stop {α β : Type} {stop : Stop} (h : After ctx₀ live run (.error stop : Except Stop α)) :
    After ctx₀ live run (.error stop : Except Stop β) :=
  ⟨h.storage, fun hne => h.cascade fun heq => hne (by rw [Except.error.inj heq]), nofun,
    fun heq => h.exhausted (by rw [Except.error.inj heq])⟩

theorem InRun.setClaims (h : InRun ctx₀ live claims run) (claims' : ClaimRegister) :
    InRun ctx₀ live claims' (run.setClaims claims') := { h with claims := rfl }

theorem runCandidate_spec (h : InRun ctx₀ live ∅ run) (hw : Written run) {env : Environment}
    {entityId : EntityId} {candidate : Candidate} {result : Except Stop ℕ}
    (hr : runCandidate env entityId run candidate = (run', result)) : After ctx₀ live run' result := by
  unfold runCandidate ClaimRegister.tryAcquire at hr
  simp only [h.claims] at hr
  by_cases hfails : (env.dispatches run.dispatched).acquireFails = true
  · simp only [if_pos hfails] at hr
    obtain ⟨rfl, rfl⟩ := Prod.mk.inj hr
    exact After.error h _
  simp only [if_neg hfails, Finset.notMem_empty, if_false] at hr
  have hclaimed : InRun ctx₀ live (insert (candidate.ruleId, entityId) ∅)
      (run.claimed (insert (candidate.ruleId, entityId) ∅) entityId candidate.ruleId) := { h with claims := rfl }
  cases hdispatch : dispatch (run.claimed (insert (candidate.ruleId, entityId) ∅) entityId candidate.ruleId)
      (env.dispatches run.dispatched) with
  | mk run₁ result₁ =>
    obtain ⟨h₁, hw₁, hexhausted⟩ := dispatch_spec hclaimed hw hdispatch
    rw [hdispatch] at hr
    have hreleased : InRun ctx₀ live ∅
        (run₁.setClaims (run₁.context.claimRegister.release candidate.ruleId entityId)) := by
      have hempty : run₁.context.claimRegister.release candidate.ruleId entityId = ∅ := by
        rw [h₁.claims]
        simp [ClaimRegister.release]
      rw [hempty]
      exact InRun.setClaims h₁ ∅
    rcases result₁ with ⟨e | _⟩ | code
    · obtain ⟨rfl, rfl⟩ := Prod.mk.inj hr
      exact After.error hreleased _
    · obtain ⟨rfl, rfl⟩ := Prod.mk.inj hr
      exact ⟨h₁.storage, fun hne => absurd rfl hne, nofun, fun _ => hexhausted rfl⟩
    · obtain ⟨rfl, rfl⟩ := Prod.mk.inj hr
      exact After.ok hreleased (hw₁ code rfl) _

theorem runCandidates_spec (h : InRun ctx₀ live ∅ run) (hw : Written run) {env : Environment}
    {entityId : EntityId} {fired : ℕ} {rest : List Candidate} {result : Except Stop ℕ}
    (hr : runCandidates env entityId run fired rest = (run', result)) : After ctx₀ live run' result := by
  induction rest generalizing run fired with
  | nil =>
    obtain ⟨rfl, rfl⟩ := Prod.mk.inj hr
    exact After.ok h hw _
  | cons candidate rest ih =>
    cases hcandidate : runCandidate env entityId run candidate with
    | mk run₁ result₁ =>
      have hafter := runCandidate_spec h hw hcandidate
      simp only [runCandidates, hcandidate] at hr
      cases result₁ with
      | error stop =>
        obtain ⟨rfl, rfl⟩ := Prod.mk.inj hr
        exact hafter.stop
      | ok n => exact ih (hafter.cascade fun h => (by cases h)) (hafter.written n rfl) hr

/-! ## Cycles -/

theorem fireWatchers_spec (h : InRun ctx₀ live ∅ run) (hw : Written run) {env : Environment} {cycle : ℕ}
    {entry : DirtyEntry} {durableId : Option ℤ} {result : Except Stop (ℕ × Option ℤ)}
    (hr : fireWatchers env cycle run entry durableId = (run', result)) :
    After ctx₀ live run' result ∧ ∀ n id, result = .ok (n, id) → id = durableId := by
  unfold fireWatchers at hr
  cases hlookup : run.context.graph.forward.lookup ⟨entry.entity, entry.component⟩ with
  | none =>
    rw [hlookup] at hr
    obtain ⟨rfl, rfl⟩ := Prod.mk.inj hr
    exact ⟨After.ok h hw _, fun n id heq => (Prod.mk.inj (Except.ok.inj heq)).2.symm⟩
  | some forwardEntry =>
    simp only [hlookup] at hr
    by_cases hnil : forwardEntry.watchers = []
    · rw [if_pos hnil] at hr
      obtain ⟨rfl, rfl⟩ := Prod.mk.inj hr
      exact ⟨After.ok h hw _, fun n id heq => (Prod.mk.inj (Except.ok.inj heq)).2.symm⟩
    rw [if_neg hnil] at hr
    by_cases hfails : env.candidatesFail cycle = true
    · rw [if_pos hfails] at hr
      obtain ⟨rfl, rfl⟩ := Prod.mk.inj hr
      exact ⟨After.error h _, nofun⟩
    rw [if_neg hfails] at hr
    cases hcandidates : runCandidates env entry.entity run 0
        (candidates run.context.graph forwardEntry.watchers) with
    | mk run₁ result₁ =>
      have hafter := runCandidates_spec h hw hcandidates
      rw [hcandidates] at hr
      cases result₁ with
      | error stop =>
        obtain ⟨rfl, rfl⟩ := Prod.mk.inj hr
        exact ⟨hafter.stop, nofun⟩
      | ok fired =>
        obtain ⟨rfl, rfl⟩ := Prod.mk.inj hr
        exact ⟨After.ok (hafter.cascade nofun) (hafter.written fired rfl) _,
          fun n id heq => (Prod.mk.inj (Except.ok.inj heq)).2.symm⟩

/-- The entry that starts a run: the first pending entry of the session's namespace. -/
def trigger (ctx₀ : Context std.wyhash) (live : Wal.Live) : Option Wal.PendingDirty :=
  Wal.nextPendingFor live (some ctx₀.namespaceId)

theorem InCascade.nextPendingDirty {t : Timestamp} {ctx : Context std.wyhash}
    (h : InCascade ctx₀ live claims t ctx) : ctx.nextPendingDirty = trigger ctx₀ live := by
  rw [Context.nextPendingDirty, h.storage, h.namespaceId]
  rfl

/-- A signal that is taken from the queue leaves fewer signals than outputs. -/
theorem InRun.pop (h : InRun ctx₀ live claims run) {entry : DirtyEntry} {queue : DirtyQueue}
    (hpop : run.context.dirtyQueue.pop = some (entry, queue)) :
    InRun ctx₀ live claims { run with context := { run.context with dirtyQueue := queue } } :=
  { h with
    signals := fun e => by
      have hcount := h.signals e
      rw [DirtyQueue.pop_some hpop, List.count_cons] at hcount
      exact (Nat.le_add_right _ _).trans hcount }

theorem runCycleWithSource_spec (h : InRun ctx₀ live ∅ run) (hw : Written run) {env : Environment}
    {useDurableSource : Bool} {cycle : ℕ} {result : Except Stop (ℕ × Option ℤ)}
    (hr : runCycleWithSource env useDurableSource cycle run = (run', result)) :
    After ctx₀ live run' result ∧ ∀ n id, result = .ok (n, id) →
      id = if useDurableSource then (trigger ctx₀ live).map Wal.PendingDirty.id else none := by
  unfold runCycleWithSource at hr
  rw [h.storage, h.nextPendingDirty] at hr
  cases useDurableSource with
  | true =>
    simp only [Option.isSome_some, and_self, if_true] at hr ⊢
    cases htrigger : trigger ctx₀ live with
    | none =>
      rw [htrigger] at hr
      obtain ⟨rfl, rfl⟩ := Prod.mk.inj hr
      exact ⟨After.ok h hw _, fun n id heq => (Prod.mk.inj (Except.ok.inj heq)).2.symm⟩
    | some pending =>
      simp only [htrigger] at hr
      by_cases hfails : env.pendingFails = true
      · rw [if_pos hfails] at hr
        obtain ⟨rfl, rfl⟩ := Prod.mk.inj hr
        exact ⟨After.error h _, nofun⟩
      · rw [if_neg hfails] at hr
        exact fireWatchers_spec h hw hr
  | false =>
    simp only [Bool.false_eq_true, false_and, if_false] at hr ⊢
    cases hpop : run.context.dirtyQueue.pop with
    | none =>
      rw [hpop] at hr
      obtain ⟨rfl, rfl⟩ := Prod.mk.inj hr
      exact ⟨After.ok h hw _, fun n id heq => (Prod.mk.inj (Except.ok.inj heq)).2.symm⟩
    | some popped =>
      obtain ⟨entry, queue⟩ := popped
      simp only [hpop] at hr
      exact fireWatchers_spec (InRun.pop h hpop) hw hr

theorem hasReadyWork_eq_false : hasReadyWork run = false ↔ run.context.dirtyQueue.entries = [] := by
  simp [hasReadyWork, DirtyQueue.isEmpty]

/-- The cycles of a run, the first of which takes the pending entry. -/
theorem runCycles_spec {env : Environment} :
    ∀ {n depth : ℕ} {run run' : Run std} {totalFired : ℕ} {durableId : Option ℤ}
      {result : Except Stop (ℕ × Option ℤ × Bool)},
      InRun ctx₀ live ∅ run → Written run →
      runCycles env n depth run totalFired durableId = (run', result) →
      After ctx₀ live run' result ∧ ∀ total id converged, result = .ok (total, id, converged) →
        id = durableId.or (if depth = 0 ∧ n ≠ 0 then (trigger ctx₀ live).map Wal.PendingDirty.id else none) ∧
          (converged = true → run'.context.dirtyQueue.entries = [])
  | 0, depth, run, run', totalFired, durableId, result, h, hw, hr => by
    obtain ⟨rfl, rfl⟩ := Prod.mk.inj hr
    refine ⟨After.ok h hw _, fun total id converged heq => ?_⟩
    obtain ⟨-, rfl, rfl⟩ : _ ∧ _ ∧ _ := by simpa using heq
    simp
  | n + 1, depth, run, run', totalFired, durableId, result, h, hw, hr => by
    cases hcycle : runCycleWithSource env (depth == 0) depth run with
    | mk run₁ result₁ =>
      obtain ⟨hafter, hid⟩ := runCycleWithSource_spec h hw hcycle
      simp only [runCycles, hcycle] at hr
      cases result₁ with
      | error stop =>
        obtain ⟨rfl, rfl⟩ := Prod.mk.inj hr
        exact ⟨hafter.stop, fun _ _ _ heq => (by cases heq)⟩
      | ok cycled =>
        obtain ⟨fired, id₁⟩ := cycled
        have h₁ := hafter.cascade fun h => (by cases h)
        have hw₁ := hafter.written _ rfl
        simp only [hid fired id₁ rfl] at hr
        cases herror : run₁.context.cascadeError with
        | some err =>
          simp only [herror] at hr
          obtain ⟨rfl, rfl⟩ := Prod.mk.inj hr
          exact ⟨After.error h₁ _, fun _ _ _ heq => (by cases heq)⟩
        | none =>
          simp only [herror] at hr
          by_cases hdone : fired = 0 ∧ ¬ hasReadyWork run₁ = true
          · rw [if_pos hdone] at hr
            obtain ⟨rfl, rfl⟩ := Prod.mk.inj hr
            refine ⟨After.ok h₁ hw₁ _, fun total id converged heq => ?_⟩
            obtain ⟨-, rfl, rfl⟩ : _ ∧ _ ∧ _ := by simpa using heq
            refine ⟨by simp, fun _ => ?_⟩
            exact hasReadyWork_eq_false.mp (Bool.eq_false_iff.mpr hdone.2)
          · rw [if_neg hdone] at hr
            obtain ⟨hafter', hrest⟩ := runCycles_spec h₁ hw₁ hr
            refine ⟨hafter', fun total id converged heq => ?_⟩
            obtain ⟨rfl, hconverged⟩ := hrest total id converged heq
            refine ⟨?_, hconverged⟩
            cases durableId <;> simp

/-! ## The endings -/

/-- The log took the writes of a run, and the entry that started it out. -/
structure Committed (namespaceId : NamespaceId) (started : Option Wal.PendingDirty) (writes : List Write)
    (live live' : Wal.Live) : Prop where
  pending : live'.pending = started.elim live.pending live.pending.erase
  nextId : live'.nextId = live.nextId
  written : ∀ entity component w, lastWrite writes entity component = some w →
    ∃ fact, Wal.getFact live' namespaceId entity component = some fact ∧ fact.value = w.value ∧
      fact.timestamp = w.timestamp
  unwritten : ∀ entity component, lastWrite writes entity component = none →
    Wal.getFact live' namespaceId entity component = Wal.getFact live namespaceId entity component
  elsewhere : ∀ namespaceId', namespaceId' ≠ namespaceId → ∀ entity component,
    Wal.getFact live' namespaceId' entity component = Wal.getFact live namespaceId' entity component

/-- Nothing of a run is left. -/
structure RolledBack (ctx₀ ctx : Context std.wyhash) : Prop where
  observed : ∀ entity component, ctx.observed entity component = ctx₀.observed entity component
  reads : ∀ entity component, slungGet std ctx entity component [] = slungGet std ctx₀ entity component []
  storage : ctx.storage = ctx₀.storage
  idle : ctx.Idle

/-- The clock is at or after every timestamp of the store and of the facts of the namespace. -/
structure Context.UpToDate (ctx : Context std.wyhash) (live : Wal.Live) : Prop where
  store : ∀ key entry, ctx.lwwStore.get key = some entry → entry.hlc ≤ ctx.clock.now
  facts : ∀ entity component fact, Wal.getFact live ctx.namespaceId entity component = some fact →
    fact.timestamp ≤ ctx.clock.now

/-- What is sent next is after every entry. -/
theorem Context.UpToDate.newer {ctx : Context std.wyhash} (h : ctx.UpToDate live) {ts : Timestamp}
    (hts : ctx.clock.now < ts) {key : Bytes} (existing : LwwRegistry.Entry)
    (hl : ctx.lwwStore.entries.lookup key = some existing) : existing.hlc < ts :=
  (h.store key existing ((LwwRegistry.get_eq _ _).trans hl)).trans_lt hts

theorem InCascade.upToDate {ctx : Context std.wyhash} (h : InCascade ctx₀ live claims ctx.clock.now ctx) :
    ctx.UpToDate live where
  store key entry hget := h.stored key entry (by rw [← LwwRegistry.get_eq]; exact hget)
  facts entity component fact hfact := by
    rw [h.namespaceId] at hfact
    exact (h.facts entity component fact hfact).trans h.started

/-- The entry that a run takes; a run of no depth takes none. -/
def started (ctx₀ : Context std.wyhash) (live : Wal.Live) (maxDepth : ℕ) : Option Wal.PendingDirty :=
  if maxDepth = 0 then none else trigger ctx₀ live

theorem InCascade.start {ctx : Context std.wyhash} (hstorage : ctx.storage = some live) (hidle : ctx.Idle)
    (hclock : ctx.UpToDate live) : InCascade ctx live ∅ ctx.clock.now ctx.beginCascade where
  storage := hstorage
  namespaceId := rfl
  claims := hidle.claims
  unwinds := ⟨ctx.lwwStore.entries, by rw [Context.beginCascade, hidle.undo]; rfl, fun key => Or.inl rfl⟩
  logged := by simp [Context.beginCascade, hidle.undo]
  paired := by simp [Context.beginCascade, hidle.undo, hidle.outputs]
  signals := by simp [Context.beginCascade, hidle.queue]
  started := le_rfl
  stored := fun key entry hl => hclock.store key entry (by rw [LwwRegistry.get_eq]; exact hl)
  facts := hclock.facts
  own := by simp [Context.beginCascade, hidle.outputs]
  recent := by simp [Context.beginCascade, hidle.outputs]
  ordered := by simp [Context.beginCascade, hidle.outputs]
  cached := by simp [Context.beginCascade, hidle.outputs, lastWrite]

theorem InCascade.rolledBack {t : Timestamp} {ctx : Context std.wyhash} (h : InCascade ctx₀ live ∅ t ctx)
    (hstorage : ctx₀.storage = some live) : RolledBack ctx₀ ctx.discardCascade := by
  obtain ⟨hhydrated, hqueue, houtputs, hundo, hclaims, hstorage', hns⟩ := h.discarded
  have hobserved := observed_eq_of_hydrated hhydrated hstorage hstorage' hns
  refine ⟨hobserved, fun entity component => ?_, hstorage'.trans hstorage.symm,
    ⟨hqueue, houtputs, hundo, hclaims⟩⟩
  rw [slungGet_observed, slungGet_observed, hobserved]

theorem lastWrite_eq {t : Timestamp} {ctx : Context std.wyhash} (h : InCascade ctx₀ live claims t ctx)
    (entity : EntityId) (component : ComponentId) :
    lastWrite (ctx.cascadeOutputs.map Write.of) entity component =
      (ctx.cascadeOutputs.filter fun m =>
        m.key = Wal.makeKey ctx₀.namespaceId entity component).getLast?.map Write.of := by
  rw [lastWrite, List.filter_map, List.getLast?_map]
  congr 2
  refine List.filter_congr fun m hm => ?_
  refine decide_eq_decide.mpr ⟨?_, fun hkey => (Wal.makeKey_inj hkey).2⟩
  rintro ⟨rfl, rfl⟩
  rw [← h.own m hm]
  rfl

/-- The facts that a checkpoint of the cascade stores. -/
theorem InCascade.lookup_checkpoint {t : Timestamp} {ctx : Context std.wyhash}
    (h : InCascade ctx₀ live claims t ctx) (key : Bytes) :
    (ctx.cascadeOutputs.foldl Wal.Live.putFact live).facts.lookup key =
      ((ctx.cascadeOutputs.filter fun m => m.key = key).getLast?.map Wal.FactMutation.fact).or
        (live.facts.lookup key) :=
  Wal.Live.lookup_foldl_putFact live h.ordered (fun m hm c hc =>
    (h.facts m.entity m.component c (by rw [Wal.getFact, ← h.own m hm]; exact hc)).trans_lt (h.recent m hm).1) key

/-- The last write of a component is its fact after the checkpoint. -/
theorem InCascade.getFact_checkpoint {t : Timestamp} {ctx : Context std.wyhash}
    (h : InCascade ctx₀ live claims t ctx) {entity : EntityId} {component : ComponentId} {w : Write}
    (hlast : lastWrite (ctx.cascadeOutputs.map Write.of) entity component = some w) :
    ∃ fact, Wal.getFact (ctx.cascadeOutputs.foldl Wal.Live.putFact live) ctx₀.namespaceId entity component =
      some fact ∧ fact.value = w.value ∧ fact.timestamp = w.timestamp := by
  rw [lastWrite_eq h] at hlast
  obtain ⟨m, hm, rfl⟩ := Option.map_eq_some_iff.mp hlast
  refine ⟨m.fact, ?_, rfl, rfl⟩
  rw [Wal.getFact, h.lookup_checkpoint, hm]
  rfl

/-- What the checkpoint makes of the log. -/
theorem InRun.committed (h : InRun ctx₀ live ∅ run) (hw : Written run)
    (hids : (live.pending.map Wal.PendingDirty.id).Nodup) {item : Wal.PendingDirty}
    (hitem : trigger ctx₀ live = some item) :
    Committed ctx₀.namespaceId (some item) run.writes live
      (Wal.removePending (run.context.cascadeOutputs.foldl Wal.Live.putFact live) item.id) := by
  rw [← hw]
  refine ⟨?_, Wal.Live.foldl_putFact_nextId _ _, fun entity component w => h.getFact_checkpoint, ?_, ?_⟩
  · rw [Wal.removePending, Wal.Live.foldl_putFact_pending]
    exact Wal.Live.eraseP_eq_erase hids (List.mem_of_find?_eq_some hitem)
  · intro entity component hlast
    rw [lastWrite_eq h, Option.map_eq_none_iff] at hlast
    exact (h.lookup_checkpoint _).trans (by rw [hlast]; rfl)
  · intro namespaceId' hne entity component
    have hnone : (run.context.cascadeOutputs.filter fun m =>
        m.key = Wal.makeKey namespaceId' entity component) = [] := by
      refine List.filter_eq_nil_iff.mpr fun m hm hkey => hne ?_
      rw [← (Wal.makeKey_inj (of_decide_eq_true hkey)).1, h.own m hm]
    exact (h.lookup_checkpoint _).trans (by rw [hnone]; rfl)

/-- Without an entry that starts it, a run does nothing. -/
theorem runCycles_untriggered (h : InRun ctx₀ live ∅ run) (hqueue : run.context.dirtyQueue.entries = [])
    (herror : run.context.cascadeError = none) {maxDepth : ℕ} (hstarted : started ctx₀ live maxDepth = none)
    (env : Environment) : ∃ converged, runCycles env maxDepth 0 run 0 none = (run, .ok (0, none, converged)) := by
  cases maxDepth with
  | zero => exact ⟨false, rfl⟩
  | succ n =>
    have hcycle : runCycleWithSource env true 0 run = (run, .ok (0, none)) := by
      have htrigger : trigger ctx₀ live = none := by simpa [started] using hstarted
      simp [runCycleWithSource, h.storage, h.nextPendingDirty, htrigger]
    refine ⟨true, ?_⟩
    simp [runCycles, hcycle, herror, hasReadyWork_eq_false.mpr hqueue]

/-- The two endings of a run. -/
def Ended (ctx : Context std.wyhash) (live : Wal.Live) (maxDepth : ℕ) : Run std × Except Stop ℕ → Prop
  | (run, .ok _) => run.context.Idle ∧ ∃ live', run.context.storage = some live' ∧
      Committed ctx.namespaceId (started ctx live maxDepth) run.writes live live'
  | (run, .error (.error _)) => RolledBack ctx run.context
  | (_, .error .panic) => False

/-- The process was stopped by the clock in the middle of a run. -/
def Stopped (ctx : Context std.wyhash) : Run std × Except Stop ℕ → Prop
  | (run, .error .panic) => run.context.storage = ctx.storage ∧ run.context.clock.Exhausted
  | _ => False

theorem started_some {ctx : Context std.wyhash} {live : Wal.Live} {maxDepth : ℕ} {item : Wal.PendingDirty}
    (h : started ctx live maxDepth = some item) : trigger ctx live = some item := by
  rw [started] at h
  by_cases hzero : maxDepth = 0
  · rw [if_pos hzero] at h
    cases h
  · rwa [if_neg hzero] at h

/-- The checkpoint of a run that an entry started: it is in the log, or everything is taken back. -/
theorem InRun.ended_checkpoint {ctx : Context std.wyhash} {live : Wal.Live} {run : Run std} {maxDepth : ℕ}
    {item : Wal.PendingDirty} (h : InRun ctx live ∅ run) (hw : Written run) (hstorage : ctx.storage = some live)
    (hids : (live.pending.map Wal.PendingDirty.id).Nodup) (hqueue : run.context.dirtyQueue.entries = [])
    (hitem : started ctx live maxDepth = some item) (env : Environment) (totalFired : ℕ) :
    Ended ctx live maxDepth (checkpoint env run totalFired (some item.id)) := by
  simp only [checkpoint, Context.flushCascade, h.storage]
  cases hflush : env.flushFails with
  | some e => exact h.rolledBack hstorage
  | none =>
    refine ⟨⟨hqueue, rfl, rfl, h.claims⟩, _, rfl, ?_⟩
    rw [hitem]
    exact h.committed hw hids (started_some hitem)

/-- Without an entry nothing was written, and there is no checkpoint. -/
theorem InRun.ended_untriggered {ctx : Context std.wyhash} {live : Wal.Live} {run : Run std} {maxDepth : ℕ}
    (h : InRun ctx live ∅ run) (hstorage : ctx.storage = some live) (hitem : started ctx live maxDepth = none)
    (hwrites : run.writes = []) (env : Environment) (totalFired : ℕ) :
    Ended ctx live maxDepth (checkpoint env run totalFired none) := by
  have hback := h.rolledBack hstorage
  refine ⟨hback.idle, live, hback.storage.trans hstorage, ?_⟩
  rw [hitem]
  show Committed ctx.namespaceId none run.writes live live
  rw [hwrites]
  exact ⟨rfl, rfl, nofun, fun _ _ _ => rfl, fun _ _ _ _ => rfl⟩

/-- A run ends in one of the two ways, or the clock stops it. -/
theorem ended_or_stopped (env : Environment) (maxDepth : ℕ) {ctx : Context std.wyhash} {live : Wal.Live}
    (hstorage : ctx.storage = some live) (hidle : ctx.Idle) (hclock : ctx.UpToDate live)
    (hids : (live.pending.map Wal.PendingDirty.id).Nodup) :
    Ended ctx live maxDepth (runTimed env maxDepth ctx) ∨ Stopped ctx (runTimed env maxDepth ctx) := by
  have hstart : InRun ctx live ∅ (⟨ctx.beginCascade, 0, []⟩ : Run std) :=
    InCascade.start hstorage hidle hclock
  have hwritten : Written (⟨ctx.beginCascade, 0, []⟩ : Run std) := by
    simp [Written, Context.beginCascade, hidle.outputs]
  unfold runTimed
  cases hcycles : runCycles env maxDepth 0 (⟨ctx.beginCascade, 0, []⟩ : Run std) 0 none with
  | mk run result =>
    obtain ⟨hafter, hended⟩ := runCycles_spec hstart hwritten hcycles
    rcases result with ⟨e | _⟩ | ⟨total, id, converged⟩
    · exact Or.inl ((hafter.cascade nofun).rolledBack hstorage)
    · exact Or.inr ⟨hafter.storage.trans hstorage.symm, hafter.exhausted rfl⟩
    · have hrun := hafter.cascade nofun
      obtain ⟨hid, hconverged⟩ := hended total id converged rfl
      refine Or.inl ?_
      by_cases hdeep : ¬ converged = true ∧ hasReadyWork run = true
      · simp only [if_pos hdeep]
        exact hrun.rolledBack hstorage
      simp only [if_neg hdeep]
      have hqueue : run.context.dirtyQueue.entries = [] := by
        by_cases hc : converged = true
        · exact hconverged hc
        · exact hasReadyWork_eq_false.mp (Bool.eq_false_iff.mpr fun hwork => hdeep ⟨hc, hwork⟩)
      obtain rfl : id = (started ctx live maxDepth).map Wal.PendingDirty.id := by
        rw [hid, started, Option.none_or]
        by_cases hzero : maxDepth = 0 <;> simp [hzero]
      cases hitem : started ctx live maxDepth with
      | none =>
        obtain ⟨converged', hsame⟩ := runCycles_untriggered hstart hidle.queue rfl hitem env
        rw [hcycles] at hsame
        obtain ⟨rfl, -⟩ := Prod.mk.inj hsame
        exact hrun.ended_untriggered hstorage hitem rfl env total
      | some item => exact hrun.ended_checkpoint (hafter.written _ rfl) hstorage hids hqueue hitem env total

/-- **An inference run is all or nothing** iff every call that it makes finds room in the clock. -/
theorem run_all_or_nothing_iff (env : Environment) (maxDepth : ℕ) {ctx : Context std.wyhash} {live : Wal.Live}
    (hstorage : ctx.storage = some live) (hidle : ctx.Idle) (hclock : ctx.UpToDate live)
    (hids : (live.pending.map Wal.PendingDirty.id).Nodup) :
    Ended ctx live maxDepth (runTimed env maxDepth ctx) ↔
      ∀ e ∈ runCalls env maxDepth ctx, e.2.FindsRoom std e.1.context.clock := by
  have hpanic : (runTimed env maxDepth ctx).2 = .error .panic ↔ Overflows (runCalls env maxDepth ctx) := runTimed_panic
  have hends := ended_or_stopped env maxDepth hstorage hidle hclock hids
  generalize runTimed env maxDepth ctx = ending at hpanic hends ⊢
  obtain ⟨run, result⟩ := ending
  constructor
  · intro hended e he
    by_contra hroom
    obtain rfl : result = .error .panic := hpanic.mpr ⟨e, he, hroom⟩
    exact hended
  · intro hroom
    refine hends.resolve_right fun hstopped => ?_
    have hresult : result = .error .panic := by
      rcases result with ⟨_ | _⟩ | _
      · exact hstopped.elim
      · rfl
      · exact hstopped.elim
    obtain ⟨e, he, hno⟩ := hpanic.mp hresult
    exact hno (hroom e he)

/-! A session with two rules: the first watches the component of the pending entries and writes another one
twice, the second watches that one. -/

def exampleLive : Wal.Live where
  facts := (∅ : FMap Bytes Wal.Fact).insert (Wal.makeKey [110] 1 2) ⟨[49], ⟨5, 0, 1⟩, ⟨0, 0, []⟩⟩
  pending := [⟨1, [110], 1, 2⟩, ⟨2, [110], 1, 2⟩]
  nextId := 3

def exampleBuilder : GraphBuilder where
  namespaceId := [110]
  moduleRef := []
  sources := []
  components := [(⟨1, 2⟩, ⟨1, [], [], false⟩), (⟨1, 3⟩, ⟨1, [], [], true⟩)]
  rules := [(7, ⟨[97], 1, [⟨1, 2⟩]⟩), (8, ⟨[98], 1, [⟨1, 3⟩]⟩)]

def exampleContext (clock : Hlc) : Context StdLib.fragment.wyhash where
  lwwStore := LwwRegistry.init
  dirtyQueue := DirtyQueue.init 4
  claimRegister := ∅
  storage := some exampleLive
  graph := exampleBuilder.build CapabilityGraph.empty
  clock := clock
  namespaceId := [110]
  currentEntity := 0
  currentRule := 0
  nodeId := []
  cascadeOutputs := []
  cascadeUndo := []
  cascadeError := none

def exampleEnv : Environment where
  pendingFails := false
  candidatesFail _ := false
  dispatches n :=
    if n = 0 then ⟨false, [.set ⟨1, 3, 8, 1, [48], 9, []⟩, .set ⟨1, 3, 8, 1, [49], 9, []⟩], some 0⟩
    else ⟨false, [.get 1 3 []], some 0⟩
  flushFails := none

theorem exampleContext_upToDate {clock : Hlc} (h : (⟨5, 0, 1⟩ : Timestamp) ≤ clock.now) :
    (exampleContext clock).UpToDate exampleLive where
  store key entry hget := by
    rw [LwwRegistry.get_eq] at hget
    simp [exampleContext, LwwRegistry.init] at hget
  facts entity component fact hfact := by
    rw [Wal.getFact, exampleLive, FMap.lookup_insert_eq] at hfact
    split_ifs at hfact
    · obtain rfl := Option.some.inj hfact
      exact h
    · simp at hfact

theorem run_all_or_nothing_iff_example :
    let ctx := exampleContext ⟨1, 5, 0⟩
    (runTimed exampleEnv 4 ctx).2 = .ok 3 ∧
      lastWrite (runTimed exampleEnv 4 ctx).1.writes 1 3 = some ⟨1, 3, [49], ⟨9, 1, 1⟩⟩ ∧
      Ended ctx exampleLive 4 (runTimed exampleEnv 4 ctx) := by
  have hok : (runTimed exampleEnv 4 (exampleContext ⟨1, 5, 0⟩)).2 = .ok 3 := by decide +kernel
  exact ⟨hok, by decide +kernel, (run_all_or_nothing_iff exampleEnv 4 rfl ⟨rfl, rfl, rfl, rfl⟩
    (exampleContext_upToDate (by decide)) (by decide)).mpr (by decide +kernel)⟩

/-- The clock of a session may have no timestamp left for the wall time. -/
theorem run_stopped_by_clock :
    let ctx := exampleContext ⟨1, 9, 0xffffffff⟩
    ctx.storage = some exampleLive ∧ ctx.Idle ∧ ctx.UpToDate exampleLive ∧
      (exampleLive.pending.map Wal.PendingDirty.id).Nodup ∧
      ¬ Ended ctx exampleLive 4 (runTimed exampleEnv 4 ctx) := by
  have hpanic : (runTimed exampleEnv 4 (exampleContext ⟨1, 9, 0xffffffff⟩)).2 = .error .panic := by
    decide +kernel
  refine ⟨rfl, ⟨rfl, rfl, rfl, rfl⟩, exampleContext_upToDate (by decide), by decide, ?_⟩
  generalize runTimed exampleEnv 4 (exampleContext ⟨1, 9, 0xffffffff⟩) = ending at hpanic
  obtain ⟨run, result⟩ := ending
  rw [show result = .error .panic from hpanic]
  exact not_false

end Slung
