import Slung.Engine.AllOrNothing

/-!
# Slung.Engine.Provenance — where the writes of a cascade come from

The causal tag of a write names the rule that was executing (`setCurrentExecution`), and a rule executes only for
an entry that it watches: the pending entry that started the run, or one that an earlier write of the run
signalled.  So what a checkpoint stores descends from the pending entry through watchers, write by write.
-/

namespace Slung

open Slung.Lib

variable {std : StdLib}

/-! ## Descent -/

/-- A write is tagged with a rule that watches `source`, with its own entity and with the session's node. -/
def Causes (graph : CapabilityGraph) (node : NodeId) (source : DirtyEntry) (m : Wal.FactMutation) : Prop :=
  ∃ forward, graph.forward.lookup ⟨source.entity, source.component⟩ = some forward ∧
    m.cause.cause ∈ forward.watchers ∧ m.cause.entity = m.entity ∧ m.cause.node = node

/-- Writes in the order they were made, each caused by the root or by the signal of an earlier one. -/
inductive Descends (graph : CapabilityGraph) (node : NodeId) (root : DirtyEntry) : List Wal.FactMutation → Prop where
  | nil : Descends graph node root []
  | concat {ms : List Wal.FactMutation} {m : Wal.FactMutation} {source : DirtyEntry} :
    Descends graph node root ms → (source = root ∨ source ∈ ms.map signal) → Causes graph node source m →
      Descends graph node root (ms ++ [m])

/-- One write of `ms` leads from one entry to another. -/
def Fires (graph : CapabilityGraph) (node : NodeId) (ms : List Wal.FactMutation) (source target : DirtyEntry) : Prop :=
  ∃ m ∈ ms, Causes graph node source m ∧ signal m = target

section Chains

variable {graph : CapabilityGraph} {node : NodeId} {root : DirtyEntry} {ms : List Wal.FactMutation}

/-- **A chain of watchers leads from the root to every write.** -/
theorem Descends.chain (h : Descends graph node root ms) :
    ∀ m ∈ ms, Relation.TransGen (Fires graph node ms) root (signal m) := by
  induction h with
  | nil => simp
  | @concat ms m source _ hsource hcause ih =>
    have hgrow : ∀ {e e'}, Relation.TransGen (Fires graph node ms) e e' →
        Relation.TransGen (Fires graph node (ms ++ [m])) e e' := fun hchain =>
      Relation.TransGen.mono (fun _ _ ⟨m', hm', hrest⟩ => ⟨m', List.mem_append_left _ hm', hrest⟩) _ _ hchain
    intro m' hm'
    rcases List.mem_append.mp hm' with hm' | hm'
    · exact hgrow (ih m' hm')
    · rw [List.mem_singleton.mp hm']
      have hlast : Fires graph node (ms ++ [m]) source (signal m) := ⟨m, by simp, hcause, rfl⟩
      rcases hsource with rfl | hsource
      · exact .single hlast
      · obtain ⟨m₁, hm₁, rfl⟩ := List.mem_map.mp hsource
        exact (hgrow (ih m₁ hm₁)).tail hlast

end Chains

/-! ## Host calls -/

/-- What a run that started in `ctx₀` with `root` has written descends from `root`. -/
structure Traced (ctx₀ : Context std.wyhash) (root : DirtyEntry) (ctx : Context std.wyhash) : Prop where
  graph : ctx.graph = ctx₀.graph
  node : ctx.nodeId = ctx₀.nodeId
  descends : Descends ctx₀.graph ctx₀.nodeId root ctx.cascadeOutputs

/-- The entry of a cycle is the root, or a write of the run signalled it. -/
def Known (root : DirtyEntry) (ctx : Context std.wyhash) (source : DirtyEntry) : Prop :=
  source = root ∨ source ∈ ctx.cascadeOutputs.map signal

/-- A rule that watches the entry of the cycle is executing. -/
structure Acting (ctx₀ : Context std.wyhash) (root source : DirtyEntry) (ctx : Context std.wyhash) : Prop where
  traced : Traced ctx₀ root ctx
  known : Known root ctx source
  turn : ∃ forward, ctx₀.graph.forward.lookup ⟨source.entity, source.component⟩ = some forward ∧
    ctx.currentRule ∈ forward.watchers

variable {ctx₀ ctx ctx' : Context std.wyhash} {live : Wal.Live} {claims : ClaimRegister} {root source : DirtyEntry}
  {run run' : Run std}

/-- A call of `slungSet` records nothing, or one mutation with the tag of the rule. -/
theorem InCascade.slungSet_outputs (h : InCascade ctx₀ live claims ctx.clock.now ctx) {call : SetCall}
    {result : HostResult} (hs : slungSet ctx call = (ctx', result)) :
    ctx'.graph = ctx.graph ∧ ctx'.nodeId = ctx.nodeId ∧ ctx'.currentRule = ctx.currentRule ∧
      (ctx'.cascadeOutputs = ctx.cascadeOutputs ∨ ∃ m : Wal.FactMutation,
        m.cause = ⟨ctx.currentRule, m.entity, ctx.nodeId⟩ ∧ ctx'.cascadeOutputs = ctx.cascadeOutputs ++ [m]) := by
  have hhydrated : ∀ {clock : Hlc} {key : Bytes} {ctx₁ : Context std.wyhash},
      hydrate { ctx with clock := clock } call key = .ok ctx₁ → ctx₁.graph = ctx.graph ∧ ctx₁.nodeId = ctx.nodeId ∧
        ctx₁.currentRule = ctx.currentRule ∧ ctx₁.cascadeOutputs = ctx.cascadeOutputs := by
    intro clock key ctx₁ hhydrate
    rcases hydrate_cases hhydrate with ⟨rfl, -⟩ | ⟨fact, store, -, -, -, rfl⟩ <;> exact ⟨rfl, rfl, rfl, rfl⟩
  cases slungSet_cases hs with
  | refused hn => exact ⟨rfl, rfl, rfl, Or.inl rfl⟩
  | stopped hsend => exact ⟨rfl, rfl, rfl, Or.inl rfl⟩
  | unnamed hlt => exact ⟨rfl, rfl, rfl, Or.inl rfl⟩
  | unhydrated hlt => exact ⟨rfl, rfl, rfl, Or.inl rfl⟩
  | full hlt hkey hhydrate =>
    obtain ⟨hgraph, hnode, hrule, houtputs⟩ := hhydrated hhydrate
    exact ⟨hgraph, hnode, hrule, Or.inl houtputs⟩
  | @writes clock key value ctx₁ _ _ hlt hkey hvalue hhydrate hroom hwrite =>
    obtain ⟨hgraph, hnode, hrule, houtputs⟩ := hhydrated hhydrate
    have hclock : InCascade ctx₀ live claims ctx.clock.now { ctx with clock := clock } := { h with }
    obtain ⟨h₁, hclock₁, -, -⟩ := hclock.hydrate_spec (bufPrint_eq hkey) hhydrate
    have hkey₁ : bufPrintKey ctx₁.namespaceId call.entity call.component = some key := by
      rw [h₁.namespaceId, ← h.namespaceId]
      exact hkey
    rw [if_pos (by rw [h₁.storage]; rfl)] at hwrite
    have hnew := fun existing hex => (h₁.stored key existing hex).trans_lt hlt
    rcases setInCascade_cases hnew hkey₁ hroom hwrite with
      ⟨store, -, rfl, -⟩ | ⟨store, queue, -, -, rfl, -⟩
    · exact ⟨hgraph, hnode, hrule, Or.inl houtputs⟩
    · refine ⟨hgraph, hnode, hrule, Or.inr ⟨⟨ctx₁.namespaceId, call.entity, call.component, call.memory, clock.now,
        ⟨ctx₁.currentRule, call.entity, ctx₁.nodeId⟩⟩, ?_, ?_⟩⟩
      · rw [hrule, hnode]
      · simp only [houtputs]

namespace Acting

theorem slungSet (h : Acting ctx₀ root source ctx) (hin : InCascade ctx₀ live claims ctx.clock.now ctx)
    {call : SetCall} {result : HostResult} (hs : slungSet ctx call = (ctx', result)) :
    Acting ctx₀ root source ctx' := by
  obtain ⟨hgraph, hnode, hrule, houtputs⟩ := hin.slungSet_outputs hs
  obtain ⟨forward, hforward, hturn⟩ := h.turn
  rw [← hrule] at hturn
  rcases houtputs with hsame | ⟨m, hcause, hconcat⟩
  · refine ⟨⟨hgraph.trans h.traced.graph, hnode.trans h.traced.node, ?_⟩, ?_, forward, hforward, hturn⟩
    · rw [hsame]
      exact h.traced.descends
    · unfold Known
      rw [hsame]
      exact h.known
  · refine ⟨⟨hgraph.trans h.traced.graph, hnode.trans h.traced.node, ?_⟩, ?_, forward, hforward, hturn⟩
    · rw [hconcat]
      refine h.traced.descends.concat h.known ⟨forward, hforward, ?_, ?_, ?_⟩
      · rw [hcause, ← hrule]
        exact hturn
      · rw [hcause]
      · rw [hcause]
        exact h.traced.node
    · refine h.known.imp_right fun hmem => ?_
      rw [hconcat, List.map_append]
      exact List.mem_append_left _ hmem

theorem hostCall (h : Acting ctx₀ root source run.context) (hin : InRun ctx₀ live claims run) {call : HostCall}
    {stop : Option Stop} (hc : hostCall run call = (run', stop)) : Acting ctx₀ root source run'.context := by
  cases call with
  | get entity component faults =>
    simp only [Slung.hostCall] at hc
    cases hget : (slungGet std run.context entity component faults).1 <;> rw [hget] at hc <;>
      obtain ⟨rfl, -⟩ := Prod.mk.inj hc <;> exact h
  | set call =>
    simp only [Slung.hostCall] at hc
    cases hset : Slung.slungSet run.context call with
    | mk context result =>
      have hacting := h.slungSet hin hset
      rw [hset] at hc
      cases result <;> obtain ⟨rfl, -⟩ := Prod.mk.inj hc <;> exact hacting
  | now wallNow =>
    simp only [Slung.hostCall] at hc
    cases hsend : run.context.clock.sendWithWall wallNow with
    | none =>
      rw [hsend] at hc
      obtain ⟨rfl, -⟩ := Prod.mk.inj hc
      exact h
    | some event =>
      rw [hsend] at hc
      obtain ⟨rfl, -⟩ := Prod.mk.inj hc
      exact ⟨⟨h.traced.graph, h.traced.node, h.traced.descends⟩, h.known, h.turn⟩

theorem hostCalls (h : Acting ctx₀ root source run.context) (hin : InRun ctx₀ live claims run) (hw : Written run)
    {calls : List HostCall} {stop : Option Stop} (hc : hostCalls run calls = (run', stop)) :
    Acting ctx₀ root source run'.context := by
  induction calls generalizing run with
  | nil =>
    obtain ⟨rfl, -⟩ := Prod.mk.inj hc
    exact h
  | cons call calls ih =>
    cases hcall : Slung.hostCall run call with
    | mk run₁ stop₁ =>
      have hacting := h.hostCall hin hcall
      have hcalled := hostCall_spec hin hw hcall
      simp only [Slung.hostCalls, hcall] at hc
      cases stop₁ with
      | none => exact ih hacting hcalled.cascade (hcalled.written rfl) hc
      | some reason =>
        obtain ⟨rfl, -⟩ := Prod.mk.inj hc
        exact hacting

theorem dispatch (h : Acting ctx₀ root source run.context) (hin : InRun ctx₀ live claims run) (hw : Written run)
    {d : Dispatch} {result : Except Stop Int32} (hd : dispatch run d = (run', result)) :
    Acting ctx₀ root source run'.context := by
  unfold Slung.dispatch at hd
  cases hcalls : Slung.hostCalls run d.calls with
  | mk run₁ stop =>
    have hacting := h.hostCalls hin hw hcalls
    rw [hcalls] at hd
    cases stop with
    | some reason =>
      obtain ⟨rfl, -⟩ := Prod.mk.inj hd
      exact hacting
    | none =>
      cases hcode : d.code with
      | some code =>
        simp only [hcode] at hd
        obtain ⟨rfl, -⟩ := Prod.mk.inj hd
        exact hacting
      | none =>
        simp only [hcode] at hd
        obtain ⟨rfl, -⟩ := Prod.mk.inj hd
        exact hacting

end Acting

/-! ## Cycles -/

/-- The claims do not matter. -/
theorem Traced.setClaims (h : Traced ctx₀ root run.context) (claims : ClaimRegister) :
    Traced ctx₀ root (run.setClaims claims).context := ⟨h.graph, h.node, h.descends⟩

theorem runCandidate_traced (hin : InRun ctx₀ live ∅ run) (hw : Written run) (h : Traced ctx₀ root run.context)
    (hknown : Known root run.context source) {candidate : Candidate} {forward : Forward}
    (hforward : ctx₀.graph.forward.lookup ⟨source.entity, source.component⟩ = some forward)
    (hmem : candidate.ruleId ∈ forward.watchers) {env : Environment} {entityId : EntityId} {result : Except Stop ℕ}
    (hr : runCandidate env entityId run candidate = (run', result)) :
    Traced ctx₀ root run'.context ∧ Known root run'.context source := by
  unfold runCandidate ClaimRegister.tryAcquire at hr
  simp only [hin.claims] at hr
  by_cases hfails : (env.dispatches run.dispatched).acquireFails = true
  · simp only [if_pos hfails] at hr
    obtain ⟨rfl, -⟩ := Prod.mk.inj hr
    exact ⟨h, hknown⟩
  simp only [if_neg hfails, Finset.notMem_empty, if_false] at hr
  have hclaimed : InRun ctx₀ live (insert (candidate.ruleId, entityId) ∅)
      (run.claimed (insert (candidate.ruleId, entityId) ∅) entityId candidate.ruleId) := { hin with claims := rfl }
  have hacting : Acting ctx₀ root source
      (run.claimed (insert (candidate.ruleId, entityId) ∅) entityId candidate.ruleId).context :=
    ⟨⟨h.graph, h.node, h.descends⟩, hknown, forward, hforward, hmem⟩
  cases hdispatch : dispatch (run.claimed (insert (candidate.ruleId, entityId) ∅) entityId candidate.ruleId)
      (env.dispatches run.dispatched) with
  | mk run₁ result₁ =>
    have hacting₁ := hacting.dispatch hclaimed hw hdispatch
    rw [hdispatch] at hr
    rcases result₁ with ⟨e | _⟩ | code <;> obtain ⟨rfl, -⟩ := Prod.mk.inj hr
    · exact ⟨hacting₁.traced.setClaims _, hacting₁.known⟩
    · exact ⟨hacting₁.traced, hacting₁.known⟩
    · exact ⟨hacting₁.traced.setClaims _, hacting₁.known⟩

/-- A part of a run that ends well leaves a run. -/
theorem After.inRun {α : Type} {a : α} (h : After ctx₀ live run (.ok a : Except Stop α)) : InRun ctx₀ live ∅ run :=
  h.cascade (by simp)

theorem runCandidates_traced {forward : Forward}
    (hforward : ctx₀.graph.forward.lookup ⟨source.entity, source.component⟩ = some forward) {env : Environment}
    {entityId : EntityId} {fired : ℕ} {rest : List Candidate} {result : Except Stop ℕ}
    (hin : InRun ctx₀ live ∅ run) (hw : Written run) (h : Traced ctx₀ root run.context)
    (hknown : Known root run.context source) (hmem : ∀ candidate ∈ rest, candidate.ruleId ∈ forward.watchers)
    (hr : runCandidates env entityId run fired rest = (run', result)) : Traced ctx₀ root run'.context := by
  induction rest generalizing run fired with
  | nil =>
    obtain ⟨rfl, -⟩ := Prod.mk.inj hr
    exact h
  | cons candidate rest ih =>
    cases hcandidate : runCandidate env entityId run candidate with
    | mk run₁ result₁ =>
      have hafter := runCandidate_spec hin hw hcandidate
      obtain ⟨h₁, hknown₁⟩ := runCandidate_traced hin hw h hknown hforward (hmem candidate (by simp)) hcandidate
      simp only [runCandidates, hcandidate] at hr
      cases result₁ with
      | error stop =>
        obtain ⟨rfl, -⟩ := Prod.mk.inj hr
        exact h₁
      | ok n =>
        exact ih hafter.inRun (hafter.written n rfl) h₁ hknown₁ (fun c hc => hmem c (by simp [hc])) hr

theorem fireWatchers_traced (hin : InRun ctx₀ live ∅ run) (hw : Written run) (h : Traced ctx₀ root run.context)
    (hknown : Known root run.context source) {env : Environment} {cycle : ℕ} {durableId : Option ℤ}
    {result : Except Stop (ℕ × Option ℤ)} (hr : fireWatchers env cycle run source durableId = (run', result)) :
    Traced ctx₀ root run'.context := by
  unfold fireWatchers at hr
  cases hlookup : run.context.graph.forward.lookup ⟨source.entity, source.component⟩ with
  | none =>
    rw [hlookup] at hr
    obtain ⟨rfl, -⟩ := Prod.mk.inj hr
    exact h
  | some forward =>
    simp only [hlookup] at hr
    by_cases hnil : forward.watchers = []
    · rw [if_pos hnil] at hr
      obtain ⟨rfl, -⟩ := Prod.mk.inj hr
      exact h
    rw [if_neg hnil] at hr
    by_cases hfails : env.candidatesFail cycle = true
    · rw [if_pos hfails] at hr
      obtain ⟨rfl, -⟩ := Prod.mk.inj hr
      exact h
    rw [if_neg hfails] at hr
    have hmem : ∀ candidate ∈ candidates run.context.graph forward.watchers, candidate.ruleId ∈ forward.watchers :=
      fun candidate hc =>
        (map_candidates_perm run.context.graph hlookup).mem_iff.mp (List.mem_map_of_mem hc)
    rw [h.graph] at hlookup
    cases hcandidates : runCandidates env source.entity run 0 (candidates run.context.graph forward.watchers) with
    | mk run₁ result₁ =>
      have h₁ := runCandidates_traced hlookup hin hw h hknown hmem hcandidates
      rw [hcandidates] at hr
      cases result₁ <;> obtain ⟨rfl, -⟩ := Prod.mk.inj hr <;> exact h₁

/-- A signal in the queue is that of a write of the run. -/
theorem InRun.known_of_mem (hin : InRun ctx₀ live claims run) {entry : DirtyEntry}
    (hmem : entry ∈ run.context.dirtyQueue.entries) : Known root run.context entry := by
  have hcount := hin.signals entry
  have hpos := List.count_pos_iff.mpr hmem
  exact Or.inr (List.count_pos_iff.mp (hpos.trans_le hcount))

/-- The entry that starts a run, as its rules see it. -/
def entryOf (pending : Wal.PendingDirty) : DirtyEntry := ⟨pending.entity, pending.component⟩

theorem runCycleWithSource_traced (hin : InRun ctx₀ live ∅ run) (hw : Written run)
    (h : Traced ctx₀ root run.context) (hroot : ∀ pending, trigger ctx₀ live = some pending → root = entryOf pending)
    {env : Environment} {useDurableSource : Bool} {cycle : ℕ} {result : Except Stop (ℕ × Option ℤ)}
    (hr : runCycleWithSource env useDurableSource cycle run = (run', result)) : Traced ctx₀ root run'.context := by
  unfold runCycleWithSource at hr
  rw [hin.storage, hin.nextPendingDirty] at hr
  cases useDurableSource with
  | true =>
    simp only [Option.isSome_some, and_self, if_true] at hr
    cases htrigger : trigger ctx₀ live with
    | none =>
      rw [htrigger] at hr
      obtain ⟨rfl, -⟩ := Prod.mk.inj hr
      exact h
    | some pending =>
      simp only [htrigger] at hr
      by_cases hfails : env.pendingFails = true
      · rw [if_pos hfails] at hr
        obtain ⟨rfl, -⟩ := Prod.mk.inj hr
        exact h
      · rw [if_neg hfails] at hr
        exact fireWatchers_traced hin hw h (Or.inl (hroot pending htrigger).symm) hr
  | false =>
    simp only [Bool.false_eq_true, false_and, if_false] at hr
    cases hpop : run.context.dirtyQueue.pop with
    | none =>
      rw [hpop] at hr
      obtain ⟨rfl, -⟩ := Prod.mk.inj hr
      exact h
    | some popped =>
      obtain ⟨entry, queue⟩ := popped
      simp only [hpop] at hr
      have hmem : entry ∈ run.context.dirtyQueue.entries := by
        rw [DirtyQueue.pop_some hpop]
        exact List.mem_cons_self
      exact fireWatchers_traced (InRun.pop hin hpop) hw ⟨h.graph, h.node, h.descends⟩ (InRun.known_of_mem hin hmem) hr

theorem runCycles_traced {env : Environment}
    (hroot : ∀ pending, trigger ctx₀ live = some pending → root = entryOf pending) :
    ∀ {n depth : ℕ} {run run' : Run std} {totalFired : ℕ} {durableId : Option ℤ}
      {result : Except Stop (ℕ × Option ℤ × Bool)}, InRun ctx₀ live ∅ run → Written run →
      Traced ctx₀ root run.context → runCycles env n depth run totalFired durableId = (run', result) →
      Traced ctx₀ root run'.context
  | 0, depth, run, run', totalFired, durableId, result, hin, hw, h, hr => by
    obtain ⟨rfl, -⟩ := Prod.mk.inj hr
    exact h
  | n + 1, depth, run, run', totalFired, durableId, result, hin, hw, h, hr => by
    cases hcycle : runCycleWithSource env (depth == 0) depth run with
    | mk run₁ result₁ =>
      obtain ⟨hafter, -⟩ := runCycleWithSource_spec hin hw hcycle
      have h₁ := runCycleWithSource_traced hin hw h hroot hcycle
      simp only [runCycles, hcycle] at hr
      cases result₁ with
      | error stop =>
        obtain ⟨rfl, -⟩ := Prod.mk.inj hr
        exact h₁
      | ok cycled =>
        cases herror : run₁.context.cascadeError with
        | some err =>
          simp only [herror] at hr
          obtain ⟨rfl, -⟩ := Prod.mk.inj hr
          exact h₁
        | none =>
          simp only [herror] at hr
          by_cases hdone : cycled.1 = 0 ∧ ¬ hasReadyWork run₁ = true
          · rw [if_pos hdone] at hr
            obtain ⟨rfl, -⟩ := Prod.mk.inj hr
            exact h₁
          · rw [if_neg hdone] at hr
            exact runCycles_traced hroot hafter.inRun (hafter.written _ rfl) h₁ hr

/-! ## The run -/

theorem Traced.start (root : DirtyEntry) (hidle : ctx.Idle) : Traced ctx root ctx.beginCascade :=
  ⟨rfl, rfl, by rw [Context.beginCascade, hidle.outputs]; exact .nil⟩

/-- **What a run stores descends from the entry that started it**: a run that ends well leaves the log as it was, or
appends one checkpoint that acknowledges the pending entry and stores mutations each of which is tagged with a rule
that watches that entry or an entry that an earlier mutation of the checkpoint changed; so a chain of such rules leads
from the pending entry to every mutation. -/
theorem stored_writes_descend (env : Environment) (maxDepth : ℕ) {ctx : Context std.wyhash} {live : Wal.Live}
    (hstorage : ctx.storage = some live) (hidle : ctx.Idle) (hclock : ctx.UpToDate live) {run : Run std} {fired : ℕ}
    (hrun : runTimed env maxDepth ctx = (run, .ok fired)) :
    run.context.storage = some live ∨ ∃ pending ms, Wal.nextPendingFor live (some ctx.namespaceId) = some pending ∧
      run.context.storage = some (Wal.removePending (ms.foldl Wal.Live.putFact live) pending.id) ∧
      Descends ctx.graph ctx.nodeId (entryOf pending) ms ∧
      ∀ m ∈ ms, Relation.TransGen (Fires ctx.graph ctx.nodeId ms) (entryOf pending) (signal m) := by
  have hstart : InRun ctx live ∅ (⟨ctx.beginCascade, 0, []⟩ : Run std) := InCascade.start hstorage hidle hclock
  have hwritten : Written (⟨ctx.beginCascade, 0, []⟩ : Run std) := by
    simp [Written, Context.beginCascade, hidle.outputs]
  unfold runTimed at hrun
  cases hcycles : runCycles env maxDepth 0 (⟨ctx.beginCascade, 0, []⟩ : Run std) 0 none with
  | mk run₁ result =>
    rw [hcycles] at hrun
    obtain ⟨hafter, hended⟩ := runCycles_spec hstart hwritten hcycles
    rcases result with ⟨e | _⟩ | ⟨total, id, converged⟩
    · cases (Prod.mk.inj hrun).2
    · cases (Prod.mk.inj hrun).2
    · have hin := hafter.inRun
      have hid := (hended total id converged rfl).1
      by_cases hdeep : ¬ converged = true ∧ hasReadyWork run₁ = true
      · simp only [if_pos hdeep] at hrun
        cases (Prod.mk.inj hrun).2
      simp only [if_neg hdeep] at hrun
      cases id with
      | none =>
        obtain ⟨rfl, -⟩ := Prod.mk.inj hrun
        exact Or.inl hin.storage
      | some id =>
        obtain ⟨pending, hpending, rfl⟩ : ∃ pending, trigger ctx live = some pending ∧ pending.id = id := by
          rw [Option.none_or] at hid
          split_ifs at hid
          exact Option.map_eq_some_iff.mp hid.symm
        have hroot : ∀ pending', trigger ctx live = some pending' → entryOf pending = entryOf pending' :=
          fun pending' hpending' => by rw [Option.some.inj (hpending.symm.trans hpending')]
        have htraced := runCycles_traced hroot hstart hwritten (Traced.start _ hidle) hcycles
        simp only [checkpoint, Context.flushCascade, hin.storage, Storage.flushCascade] at hrun
        cases hflush : env.flushFails with
        | some e =>
          simp only [hflush] at hrun
          cases (Prod.mk.inj hrun).2
        | none =>
          simp only [hflush] at hrun
          obtain ⟨rfl, -⟩ := Prod.mk.inj hrun
          exact Or.inr ⟨pending, run₁.context.cascadeOutputs, hpending, rfl, htraced.descends, htraced.descends.chain⟩

/-- Rule 7 watches the pending entry and writes what rule 8 watches. -/
theorem stored_writes_descend_example :
    ∃ run pending ms, runTimed exampleEnv 4 (exampleContext ⟨1, 5, 0⟩) = (run, .ok 3) ∧
      Wal.nextPendingFor exampleLive (some [110]) = some pending ∧
      run.context.storage = some (Wal.removePending (ms.foldl Wal.Live.putFact exampleLive) pending.id) ∧
      Descends (exampleContext ⟨1, 5, 0⟩).graph [] (entryOf pending) ms := by
  have hok : (runTimed exampleEnv 4 (exampleContext ⟨1, 5, 0⟩)).2 = .ok 3 := by decide +kernel
  have hpending : (runTimed exampleEnv 4 (exampleContext ⟨1, 5, 0⟩)).1.context.storage.map Wal.Live.pending ≠
      some exampleLive.pending := by decide +kernel
  obtain ⟨run, hrun⟩ : ∃ run, runTimed exampleEnv 4 (exampleContext ⟨1, 5, 0⟩) = (run, .ok 3) :=
    ⟨_, Prod.ext rfl hok⟩
  rw [hrun] at hpending
  rcases stored_writes_descend exampleEnv 4 rfl ⟨rfl, rfl, rfl, rfl⟩ (exampleContext_upToDate (by decide)) hrun with
    hsame | ⟨pending, ms, hnext, hstored, hdescends, -⟩
  · exact absurd (congrArg (Option.map Wal.Live.pending) hsame) hpending
  · exact ⟨run, pending, ms, hrun, hnext, hstored, hdescends⟩

end Slung
