import Slung.Engine.Session
import Slung.Lib.Machine

/-!
# Slung.Engine.Steps — a session as the interleaving of its writes

`ModuleSession.steps` goes from boundary to boundary: source data and inference runs, in any order, while other
sessions write to the same log.  `session` takes the same session one write at a time, so that its states are
also those in the middle of a run; runs and ingestion are made of its steps (`runTimed_leads`, `ingest_leads`).
-/

namespace Slung

open Slung.Lib

variable {std : StdLib}

/-! ## The steps of a session -/

/-- What changes the state of a session, one write at a time. -/
inductive SessionLabel where
  | set (call : SetCall)
  | now (wallNow : UInt64)
  /-- a signal leaves the queue -/
  | pop
  /-- a rule is about to run, or its claim is released -/
  | turn (claims : ClaimRegister) (entity : EntityId) (rule : RuleId)
  | begin
  | checkpoint (ackId : ℤ)
  | discard
  | ingest (key : ForwardKey) (call : MapperCall)
  /-- the log has served other sessions -/
  | others (storage : Wal.Live)

/-- No cascade is in progress. -/
def Context.Quiet (ctx : Context std.wyhash) : Prop :=
  ctx.dirtyQueue.entries = [] ∧ ctx.cascadeOutputs = [] ∧ ctx.cascadeUndo = []

instance (ctx : Context std.wyhash) : Decidable ctx.Quiet := inferInstanceAs (Decidable (_ ∧ _ ∧ _))

/-- A session as its writes interleave; a step that stops the process is not a step. -/
def session : Machine (Context std.wyhash) SessionLabel where
  step ctx
    | .set call =>
      match slungSet ctx call with
      | (_, .panic) => none
      | (ctx, _) => some ctx
    | .now wallNow => (ctx.clock.sendWithWall wallNow).map fun event => { ctx with clock := event.2 }
    | .pop => ctx.dirtyQueue.pop.map fun popped => { ctx with dirtyQueue := popped.2 }
    | .turn claims entity rule => some ({ ctx with claimRegister := claims }.setCurrentExecution entity rule)
    | .begin => some ctx.beginCascade
    | .checkpoint ackId => if ctx.dirtyQueue.entries = [] then (ctx.flushCascade none ackId).toOption else none
    | .discard => some ctx.discardCascade
    | .ingest key call =>
      if ctx.Quiet then
        match ingestOne ctx key call with
        | (_, some .panic) => none
        | (ctx, _) => some ctx
      else none
    | .others storage => some { ctx with storage := some storage }

/-- Other sessions leave the facts of the namespace alone, and the store has `memory` for what is ingested. -/
def Allowed (memory : Prop) (ctx : Context std.wyhash) : SessionLabel → Prop
  | .ingest _ call => memory → call.put = none
  | .others storage => ∀ entity component,
      Wal.getFact storage ctx.namespaceId entity component = ctx.loadFact entity component
  | _ => True

/-- What a session does between two of its boundaries. -/
inductive SessionStep where
  | ingest (sourceName : Bytes) (calls : List (ForwardKey × MapperCall))
  | run (env : Environment) (maxDepth : ℕ)
  | others (storage : Wal.Live)

/-- A session from boundary to boundary. -/
def ModuleSession.steps : Machine (Context std.wyhash) SessionStep where
  step ctx
    | .ingest sourceName calls =>
      match ingestSourceData sourceName ctx calls with
      | (_, some .panic) => none
      | (ctx, _) => some ctx
    | .run env maxDepth =>
      match runTimed env maxDepth ctx with
      | (_, .error .panic) => none
      | (run, _) => some run.context
    | .others storage => some { ctx with storage := some storage }

def ModuleSession.Allowed (ctx : Context std.wyhash) : SessionStep → Prop
  | .ingest _ calls => ∀ c ∈ calls, c.2.put = none
  | .run _ _ => True
  | .others storage => ∀ entity component,
      Wal.getFact storage ctx.namespaceId entity component = ctx.loadFact entity component

/-! ## Runs and ingestion are made of these steps -/

/-- A checkpoint that succeeds meets no fault. -/
theorem Context.flushCascade_ok {hash : Bytes → ℕ} {ctx ctx' : Context hash} {fails : Option Wal.Err} {ackId : ℤ}
    (h : ctx.flushCascade fails ackId = .ok ctx') : ctx.flushCascade none ackId = .ok ctx' := by
  unfold Context.flushCascade at h ⊢
  cases hstorage : ctx.storage with
  | none =>
    rw [hstorage] at h
    exact h
  | some storage =>
    rw [hstorage] at h
    cases fails with
    | some e => cases h
    | none => exact h

section Simulation

variable {memory : Prop} {run run' : Run std}

abbrev Leads (memory : Prop) (ctx ctx' : Context std.wyhash) : Prop :=
  session.Reaches (Allowed memory) ctx ctx'

theorem Leads.single {ctx ctx' : Context std.wyhash} {l : SessionLabel} (hl : Allowed memory ctx l)
    (hs : session.step ctx l = some ctx') : Leads memory ctx ctx' := .step .refl hl hs

theorem hostCall_leads {call : HostCall} {stop : Option Stop} (hc : hostCall run call = (run', stop))
    (hstop : stop ≠ some .panic) : Leads memory run.context run'.context := by
  cases call with
  | get entity component faults =>
    simp only [hostCall] at hc
    cases hget : (slungGet std run.context entity component faults).1 <;> rw [hget] at hc <;>
      obtain ⟨rfl, rfl⟩ := Prod.mk.inj hc <;> exact .refl
  | set call =>
    simp only [hostCall] at hc
    cases hset : slungSet run.context call with
    | mk context result =>
      have hstep (hresult : result ≠ .panic) : Leads memory run.context context := by
        refine .single (l := .set call) trivial ?_
        show (match slungSet run.context call with
          | (_, .panic) => none
          | (ctx, _) => some ctx) = some context
        rw [hset]
        cases result with
        | panic => exact absurd rfl hresult
        | _ => rfl
      rw [hset] at hc
      cases result with
      | panic =>
        obtain ⟨rfl, rfl⟩ := Prod.mk.inj hc
        exact absurd rfl hstop
      | _ =>
        obtain ⟨rfl, rfl⟩ := Prod.mk.inj hc
        exact hstep nofun
  | now wallNow =>
    simp only [hostCall] at hc
    cases hsend : run.context.clock.sendWithWall wallNow with
    | none =>
      rw [hsend] at hc
      obtain ⟨rfl, rfl⟩ := Prod.mk.inj hc
      exact absurd rfl hstop
    | some event =>
      rw [hsend] at hc
      obtain ⟨rfl, rfl⟩ := Prod.mk.inj hc
      refine .single (l := .now wallNow) trivial ?_
      show (run.context.clock.sendWithWall wallNow).map _ = _
      rw [hsend]
      rfl

theorem hostCalls_leads {calls : List HostCall} {stop : Option Stop} (hc : hostCalls run calls = (run', stop))
    (hstop : stop ≠ some .panic) : Leads memory run.context run'.context := by
  induction calls generalizing run with
  | nil =>
    obtain ⟨rfl, rfl⟩ := Prod.mk.inj hc
    exact .refl
  | cons call calls ih =>
    cases hcall : hostCall run call with
    | mk run₁ stop₁ =>
      simp only [hostCalls, hcall] at hc
      cases stop₁ with
      | none => exact (hostCall_leads hcall nofun).trans (ih hc)
      | some reason =>
        obtain ⟨rfl, rfl⟩ := Prod.mk.inj hc
        exact hostCall_leads hcall hstop

theorem dispatch_leads {d : Dispatch} {result : Except Stop Int32} (hd : dispatch run d = (run', result))
    (hresult : result ≠ .error .panic) : Leads memory run.context run'.context := by
  unfold dispatch at hd
  cases hcalls : hostCalls run d.calls with
  | mk run₁ stop =>
    rw [hcalls] at hd
    cases stop with
    | some reason =>
      obtain ⟨rfl, rfl⟩ := Prod.mk.inj hd
      exact hostCalls_leads hcalls fun heq => hresult (by rw [Option.some.inj heq])
    | none =>
      have hrun : run₁ = run' := by
        cases hcode : d.code <;> simp only [hcode] at hd <;> exact (Prod.mk.inj hd).1
      rw [← hrun]
      exact hostCalls_leads hcalls nofun

/-- Claims and the current rule are bookkeeping. -/
theorem turn_leads (ctx : Context std.wyhash) (claims : ClaimRegister) (entity : EntityId) (rule : RuleId) :
    Leads memory ctx ({ ctx with claimRegister := claims }.setCurrentExecution entity rule) :=
  .single (l := .turn claims entity rule) trivial rfl

theorem setClaims_leads (run : Run std) (claims : ClaimRegister) :
    Leads memory run.context (run.setClaims claims).context :=
  turn_leads run.context claims run.context.currentEntity run.context.currentRule

theorem runCandidate_leads {env : Environment} {entityId : EntityId} {candidate : Candidate}
    {result : Except Stop ℕ} (hr : runCandidate env entityId run candidate = (run', result))
    (hresult : result ≠ .error .panic) : Leads memory run.context run'.context := by
  unfold runCandidate at hr
  simp only at hr
  cases hacquire : ClaimRegister.tryAcquire (env.dispatches run.dispatched).acquireFails
      run.context.claimRegister candidate.ruleId entityId with
  | error e =>
    rw [hacquire] at hr
    obtain ⟨rfl, rfl⟩ := Prod.mk.inj hr
    exact .refl
  | ok acquired =>
    obtain ⟨claims, taken⟩ := acquired
    rw [hacquire] at hr
    cases taken with
    | false =>
      obtain ⟨rfl, rfl⟩ := Prod.mk.inj hr
      exact .refl
    | true =>
      simp only at hr
      have hclaimed : Leads memory run.context (run.claimed claims entityId candidate.ruleId).context :=
        turn_leads run.context claims entityId candidate.ruleId
      cases hdispatch : dispatch (run.claimed claims entityId candidate.ruleId)
          (env.dispatches run.dispatched) with
      | mk run₁ result₁ =>
        rw [hdispatch] at hr
        rcases result₁ with ⟨e | _⟩ | code
        · obtain ⟨rfl, rfl⟩ := Prod.mk.inj hr
          exact (hclaimed.trans (dispatch_leads hdispatch nofun)).trans (setClaims_leads _ _)
        · obtain ⟨rfl, rfl⟩ := Prod.mk.inj hr
          exact absurd rfl hresult
        · obtain ⟨rfl, rfl⟩ := Prod.mk.inj hr
          exact (hclaimed.trans (dispatch_leads hdispatch nofun)).trans (setClaims_leads _ _)

theorem runCandidates_leads {env : Environment} {entityId : EntityId} {fired : ℕ} {rest : List Candidate}
    {result : Except Stop ℕ} (hr : runCandidates env entityId run fired rest = (run', result))
    (hresult : result ≠ .error .panic) : Leads memory run.context run'.context := by
  induction rest generalizing run fired with
  | nil =>
    obtain ⟨rfl, rfl⟩ := Prod.mk.inj hr
    exact .refl
  | cons candidate rest ih =>
    cases hcandidate : runCandidate env entityId run candidate with
    | mk run₁ result₁ =>
      simp only [runCandidates, hcandidate] at hr
      cases result₁ with
      | error stop =>
        obtain ⟨rfl, rfl⟩ := Prod.mk.inj hr
        exact runCandidate_leads hcandidate hresult
      | ok n => exact (runCandidate_leads hcandidate nofun).trans (ih hr)

theorem fireWatchers_leads {env : Environment} {cycle : ℕ} {entry : DirtyEntry} {durableId : Option ℤ}
    {result : Except Stop (ℕ × Option ℤ)} (hr : fireWatchers env cycle run entry durableId = (run', result))
    (hresult : result ≠ .error .panic) : Leads memory run.context run'.context := by
  unfold fireWatchers at hr
  cases hlookup : run.context.graph.forward.lookup ⟨entry.entity, entry.component⟩ with
  | none =>
    rw [hlookup] at hr
    obtain ⟨rfl, rfl⟩ := Prod.mk.inj hr
    exact .refl
  | some forwardEntry =>
    simp only [hlookup] at hr
    split_ifs at hr
    · obtain ⟨rfl, rfl⟩ := Prod.mk.inj hr
      exact .refl
    · obtain ⟨rfl, rfl⟩ := Prod.mk.inj hr
      exact .refl
    · cases hcandidates : runCandidates env entry.entity run 0
          (candidates run.context.graph forwardEntry.watchers) with
      | mk run₁ result₁ =>
        rw [hcandidates] at hr
        cases result₁ with
        | error stop =>
          obtain ⟨rfl, rfl⟩ := Prod.mk.inj hr
          exact runCandidates_leads hcandidates fun heq => hresult (by rw [Except.error.inj heq])
        | ok fired =>
          obtain ⟨rfl, rfl⟩ := Prod.mk.inj hr
          exact runCandidates_leads hcandidates nofun

theorem runCycleWithSource_leads {env : Environment} {useDurableSource : Bool} {cycle : ℕ}
    {result : Except Stop (ℕ × Option ℤ)}
    (hr : runCycleWithSource env useDurableSource cycle run = (run', result))
    (hresult : result ≠ .error .panic) : Leads memory run.context run'.context := by
  unfold runCycleWithSource at hr
  by_cases hdurable : useDurableSource = true ∧ run.context.storage.isSome = true
  · rw [if_pos hdurable] at hr
    cases hpending : run.context.nextPendingDirty with
    | none =>
      rw [hpending] at hr
      obtain ⟨rfl, rfl⟩ := Prod.mk.inj hr
      exact .refl
    | some pending =>
      simp only [hpending] at hr
      split_ifs at hr
      · obtain ⟨rfl, rfl⟩ := Prod.mk.inj hr
        exact .refl
      · exact fireWatchers_leads hr hresult
  · rw [if_neg hdurable] at hr
    cases hpop : run.context.dirtyQueue.pop with
    | none =>
      rw [hpop] at hr
      obtain ⟨rfl, rfl⟩ := Prod.mk.inj hr
      exact .refl
    | some popped =>
      obtain ⟨entry, queue⟩ := popped
      rw [hpop] at hr
      have hstep : Leads memory run.context { run.context with dirtyQueue := queue } := by
        refine .single (l := .pop) trivial ?_
        show run.context.dirtyQueue.pop.map _ = _
        rw [hpop]
        rfl
      exact hstep.trans (fireWatchers_leads hr hresult)

/-- The cycles of a run; a run that converged has emptied its queue. -/
theorem runCycles_leads {env : Environment} : ∀ {n depth : ℕ} {run run' : Run std} {totalFired : ℕ}
    {durableId : Option ℤ} {result : Except Stop (ℕ × Option ℤ × Bool)},
    runCycles env n depth run totalFired durableId = (run', result) → result ≠ .error .panic →
    Leads memory run.context run'.context ∧ ∀ total id, result = .ok (total, id, true) →
      hasReadyWork run' = false
  | 0, depth, run, run', totalFired, durableId, result, hr, hresult => by
    obtain ⟨rfl, rfl⟩ := Prod.mk.inj hr
    exact ⟨.refl, fun total id heq => by simp at heq⟩
  | n + 1, depth, run, run', totalFired, durableId, result, hr, hresult => by
    cases hcycle : runCycleWithSource env (depth == 0) depth run with
    | mk run₁ result₁ =>
      simp only [runCycles, hcycle] at hr
      cases result₁ with
      | error stop =>
        obtain ⟨rfl, rfl⟩ := Prod.mk.inj hr
        exact ⟨runCycleWithSource_leads hcycle fun heq => hresult (by rw [Except.error.inj heq]), nofun⟩
      | ok cycled =>
        obtain ⟨fired, id₁⟩ := cycled
        have hfirst : Leads memory run.context run₁.context := runCycleWithSource_leads hcycle nofun
        cases herror : run₁.context.cascadeError with
        | some err =>
          simp only [herror] at hr
          obtain ⟨rfl, rfl⟩ := Prod.mk.inj hr
          exact ⟨hfirst, nofun⟩
        | none =>
          simp only [herror] at hr
          by_cases hdone : fired = 0 ∧ ¬ hasReadyWork run₁ = true
          · rw [if_pos hdone] at hr
            obtain ⟨rfl, rfl⟩ := Prod.mk.inj hr
            exact ⟨hfirst, fun _ _ _ => Bool.eq_false_iff.mpr hdone.2⟩
          · rw [if_neg hdone] at hr
            obtain ⟨hrest, hconverged⟩ := runCycles_leads hr hresult
            exact ⟨hfirst.trans hrest, hconverged⟩

/-- A cascade ends in a checkpoint or is discarded. -/
def SessionLabel.Ends : SessionLabel → Prop
  | .checkpoint _ => True
  | .discard => True
  | _ => False

/-- **A run of the inference loop is made of the steps of the session**, the last of which ends the cascade. -/
theorem runTimed_leads {env : Environment} {maxDepth : ℕ} {ctx : Context std.wyhash} {result : Except Stop ℕ}
    (hr : runTimed env maxDepth ctx = (run', result)) (hresult : result ≠ .error .panic) :
    ∃ ctx₁ l, Leads memory ctx ctx₁ ∧ SessionLabel.Ends l ∧ session.step ctx₁ l = some run'.context := by
  have hbegin : Leads memory ctx ctx.beginCascade := .single (l := .begin) trivial rfl
  unfold runTimed at hr
  cases hcycles : runCycles env maxDepth 0 (⟨ctx.beginCascade, 0, []⟩ : Run std) 0 none with
  | mk run₁ result₁ =>
    rw [hcycles] at hr
    have hdiscard (h : Leads memory ctx run₁.context) : ∃ ctx₁ l, Leads memory ctx ctx₁ ∧ SessionLabel.Ends l ∧
        session.step ctx₁ l = some run₁.discardCascade.context := ⟨_, .discard, h, trivial, rfl⟩
    rcases result₁ with ⟨e | _⟩ | ⟨total, id, converged⟩
    · obtain ⟨rfl, rfl⟩ := Prod.mk.inj hr
      exact hdiscard (hbegin.trans (runCycles_leads hcycles nofun).1)
    · obtain ⟨rfl, rfl⟩ := Prod.mk.inj hr
      exact absurd rfl hresult
    · obtain ⟨hrun, hconverged⟩ : Leads memory ctx.beginCascade run₁.context ∧ _ := runCycles_leads hcycles nofun
      have hended := hbegin.trans hrun
      by_cases hdeep : ¬ converged = true ∧ hasReadyWork run₁ = true
      · simp only [if_pos hdeep] at hr
        obtain ⟨rfl, rfl⟩ := Prod.mk.inj hr
        exact hdiscard hended
      simp only [if_neg hdeep] at hr
      have hempty : run₁.context.dirtyQueue.entries = [] := by
        have hwork : hasReadyWork run₁ = false := by
          cases converged with
          | true => exact hconverged total id rfl
          | false => exact Bool.eq_false_iff.mpr fun hwork => hdeep ⟨nofun, hwork⟩
        simpa [hasReadyWork, DirtyQueue.isEmpty] using hwork
      cases id with
      | none =>
        obtain ⟨rfl, rfl⟩ := Prod.mk.inj hr
        exact hdiscard hended
      | some id =>
        simp only [checkpoint] at hr
        cases hflush : run₁.context.flushCascade env.flushFails id with
        | error e =>
          rw [hflush] at hr
          obtain ⟨rfl, rfl⟩ := Prod.mk.inj hr
          exact hdiscard hended
        | ok context =>
          rw [hflush] at hr
          obtain ⟨rfl, rfl⟩ := Prod.mk.inj hr
          refine ⟨_, .checkpoint id, hended, trivial, ?_⟩
          show (if run₁.context.dirtyQueue.entries = [] then
            (run₁.context.flushCascade none id).toOption else none) = some context
          rw [if_pos hempty, Context.flushCascade_ok hflush]
          rfl

/-- A round of ingestion leaves no trace of a cascade. -/
theorem Context.Quiet.ingestOne {ctx ctx' : Context std.wyhash} {key : ForwardKey} {call : MapperCall}
    {stop : Option Stop} (h : ctx.Quiet) (hi : Slung.ingestOne ctx key call = (ctx', stop)) : ctx'.Quiet := by
  cases ingestOne_spec hi <;> exact h

/-- **The data of a source is ingested by the steps of the session.** -/
theorem ingest_leads {sourceName : Bytes} {ctx ctx' : Context std.wyhash} {calls : List (ForwardKey × MapperCall)}
    {stop : Option Stop} (h : ctx.Quiet) (hput : memory → ∀ c ∈ calls, c.2.put = none)
    (hi : ingestSourceData sourceName ctx calls = (ctx', stop)) (hstop : stop ≠ some .panic) :
    Leads memory ctx ctx' ∧ ctx'.Quiet := by
  induction calls generalizing ctx with
  | nil =>
    obtain ⟨rfl, rfl⟩ := Prod.mk.inj hi
    exact ⟨.refl, h⟩
  | cons c calls ih =>
    obtain ⟨key, call⟩ := c
    have hfirst (hm : memory) : call.put = none := hput hm (key, call) (by simp)
    have hothers (hm : memory) : ∀ c ∈ calls, c.2.put = none := fun c hc => hput hm c (by simp [hc])
    rw [ingestSourceData] at hi
    split at hi
    · exact ih h hothers hi
    · cases hone : ingestOne ctx key call with
      | mk ctx₁ stop₁ =>
        have hquiet := h.ingestOne hone
        have hstep (hne : stop₁ ≠ some .panic) : Leads memory ctx ctx₁ := by
          refine .single (l := .ingest key call) hfirst ?_
          show (if ctx.Quiet then _ else none) = _
          rw [if_pos h, hone]
          rcases stop₁ with _ | ⟨e⟩ | _
          · rfl
          · rfl
          · exact absurd rfl hne
        rw [hone] at hi
        cases stop₁ with
        | none =>
          obtain ⟨hrest, hquiet'⟩ := ih hquiet hothers hi
          exact ⟨(hstep nofun).trans hrest, hquiet'⟩
        | some reason =>
          obtain ⟨rfl, rfl⟩ := Prod.mk.inj hi
          exact ⟨hstep hstop, hquiet⟩

end Simulation

end Slung
