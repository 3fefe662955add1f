import Slung.Engine.Cascade
import Slung.Primitives.HlcCalls

/-!
# Slung.Engine.HostCalls — the host calls that an inference run makes

`runCalls` lists the calls of a run in order, each with the run that it finds.  The only thing that stops the process
in a run is the counter of the clock (`runTimed_panic`): a call that reads the clock finds no room in it.
-/

namespace Slung

open Slung.Lib

variable {std : StdLib}

/-! ## The calls of a run -/

/-- The calls of a rule, up to the first that traps. -/
def callsMade (run : Run std) : List HostCall → List (Run std × HostCall)
  | [] => []
  | call :: calls => (run, call) ::
    match hostCall run call with
    | (run, none) => callsMade run calls
    | (_, some _) => []

/-- Those of the rule that is dispatched, if it is. -/
def candidateCalls (env : Environment) (entityId : EntityId) (run : Run std) (candidate : Candidate) :
    List (Run std × HostCall) :=
  let d := env.dispatches run.dispatched
  match ClaimRegister.tryAcquire d.acquireFails run.context.claimRegister candidate.ruleId entityId with
  | .ok (claims, true) => callsMade (run.claimed claims entityId candidate.ruleId) d.calls
  | _ => []

def candidatesCalls (env : Environment) (entityId : EntityId) (run : Run std) :
    List Candidate → List (Run std × HostCall)
  | [] => []
  | candidate :: rest => candidateCalls env entityId run candidate ++
    match runCandidate env entityId run candidate with
    | (run, .ok _) => candidatesCalls env entityId run rest
    | (_, .error _) => []

def watchersCalls (env : Environment) (cycle : ℕ) (run : Run std) (dirtyEntry : DirtyEntry) :
    List (Run std × HostCall) :=
  match run.context.graph.forward.lookup ⟨dirtyEntry.entity, dirtyEntry.component⟩ with
  | none => []
  | some forwardEntry =>
    if forwardEntry.watchers = [] ∨ env.candidatesFail cycle then []
    else candidatesCalls env dirtyEntry.entity run (candidates run.context.graph forwardEntry.watchers)

def cycleCalls (env : Environment) (useDurableSource : Bool) (cycle : ℕ) (run : Run std) :
    List (Run std × HostCall) :=
  if useDurableSource ∧ run.context.storage.isSome then
    match run.context.nextPendingDirty with
    | none => []
    | some pending =>
      if env.pendingFails then [] else watchersCalls env cycle run ⟨pending.entity, pending.component⟩
  else
    match run.context.dirtyQueue.pop with
    | none => []
    | some (entry, queue) =>
      watchersCalls env cycle { run with context := { run.context with dirtyQueue := queue } } entry

def cyclesCalls (env : Environment) : ℕ → ℕ → Run std → List (Run std × HostCall)
  | 0, _, _ => []
  | n + 1, depth, run => cycleCalls env (depth == 0) depth run ++
    match runCycleWithSource env (depth == 0) depth run with
    | (run, .ok (fired, _)) =>
      if run.context.cascadeError.isSome ∨ (fired = 0 ∧ ¬ hasReadyWork run) then []
      else cyclesCalls env n (depth + 1) run
    | (_, .error _) => []

/-- The host calls of `runTimed`. -/
def runCalls (env : Environment) (maxDepth : ℕ) (context : Context std.wyhash) : List (Run std × HostCall) :=
  cyclesCalls env maxDepth 0 ⟨context.beginCascade, 0, []⟩

/-! ## Room in the clock -/

variable (std) in
/-- The call comes to the clock: its value is read and parsed. -/
def SetCall.ReadsClock (call : SetCall) : Prop :=
  ¬ (call.valueLen = 0 ∨ call.valuePtr = 0) ∧ .memoryRead ∉ call.faults ∧ .parse ∉ call.faults ∧
    (std.parseFromSlice call.memory).isSome

instance (call : SetCall) : Decidable (call.ReadsClock std) := inferInstanceAs (Decidable (_ ∧ _))

variable (std) in
/-- A call that reads the clock finds room in it. -/
def HostCall.FindsRoom (clock : Hlc) : HostCall → Prop
  | .get _ _ _ => True
  | .set call => call.ReadsClock std → clock.HasRoom (.send call.wallNow)
  | .now wallNow => clock.HasRoom (.send wallNow)

instance (clock : Hlc) : DecidablePred (HostCall.FindsRoom std clock)
  | .get _ _ _ => isTrue trivial
  | .set call => inferInstanceAs (Decidable (call.ReadsClock std → clock.HasRoom (.send call.wallNow)))
  | .now wallNow => inferInstanceAs (Decidable (clock.HasRoom (.send wallNow)))

theorem Hlc.sendWithWall_eq_none {clock : Hlc} {wallNow : UInt64} :
    clock.sendWithWall wallNow = none ↔ ¬ clock.HasRoom (.send wallNow) := by
  rw [← call_isSome_iff, ← Option.not_isSome_iff_eq_none]
  rfl

/-! ### Only the clock stops the process -/

theorem setInCascade_ne_panic (ctx : Context std.wyhash) (call : SetCall) (key : Bytes) (ts : Timestamp) (value : Value)
    (cause : CausalTag) : (setInCascade ctx call key ts value cause).2 ≠ .panic := by
  unfold setInCascade
  by_cases hclone : .cloneEntry ∈ call.faults ∧ (ctx.lwwStore.get key).isSome = true
  · rw [if_pos hclone]
    exact pushStatus_ne_panic call.faults 5
  rw [if_neg hclone]
  cases ctx.lwwStore.put (HostFault.ofPut call.faults) key ts value cause with
  | error e => exact pushStatus_ne_panic call.faults 5
  | ok stored =>
    obtain ⟨store, _ | _⟩ := stored
    · exact pushStatus_ne_panic call.faults 0
    · simp only [if_true]
      split
      · split
        · exact pushStatus_ne_panic call.faults 5
        · exact pushStatus_ne_panic call.faults 5
      · split
        · exact pushStatus_ne_panic call.faults 0
        · exact pushStatus_ne_panic call.faults 6

theorem setInMemory_ne_panic (ctx : Context std.wyhash) (call : SetCall) (key : Bytes) (ts : Timestamp) (value : Value)
    (cause : CausalTag) : (setInMemory ctx call key ts value cause).2 ≠ .panic := by
  unfold setInMemory
  by_cases hclone : .cloneEntry ∈ call.faults ∧ (ctx.lwwStore.get key).isSome = true
  · rw [if_pos hclone]
    exact pushStatus_ne_panic call.faults 5
  rw [if_neg hclone]
  cases ctx.lwwStore.put (HostFault.ofPut call.faults) key ts value cause with
  | error e => exact pushStatus_ne_panic call.faults 5
  | ok stored =>
    obtain ⟨store, _ | _⟩ := stored
    · exact pushStatus_ne_panic call.faults 0
    · simp only [if_true]
      split
      · exact pushStatus_ne_panic call.faults 0
      · split
        · exact pushStatus_ne_panic call.faults 6
        · exact pushStatus_ne_panic call.faults 5

theorem slungSet_panic {ctx : Context std.wyhash} {call : SetCall} :
    (slungSet ctx call).2 = .panic ↔ ¬ (call.ReadsClock std → ctx.clock.HasRoom (.send call.wallNow)) := by
  unfold slungSet SetCall.ReadsClock
  by_cases hargs : call.valueLen = 0 ∨ call.valuePtr = 0
  · rw [if_pos hargs]
    exact iff_of_false (pushStatus_ne_panic call.faults 1) fun h => h fun hreads => absurd hargs hreads.1
  rw [if_neg hargs]
  by_cases hread : .memoryRead ∈ call.faults
  · rw [if_pos hread]
    exact iff_of_false (pushStatus_ne_panic call.faults 2) fun h => h fun hreads => absurd hread hreads.2.1
  rw [if_neg hread]
  by_cases hparse : .parse ∈ call.faults
  · rw [if_pos hparse]
    exact iff_of_false (pushStatus_ne_panic call.faults 3) fun h => h fun hreads => absurd hparse hreads.2.2.1
  rw [if_neg hparse]
  cases hvalue : std.parseFromSlice call.memory with
  | none =>
    refine iff_of_false (pushStatus_ne_panic call.faults 3) fun h => h fun hreads => ?_
    exact absurd hreads.2.2.2 (by simp)
  | some parsed =>
    cases hsend : ctx.clock.sendWithWall call.wallNow with
    | none =>
      refine iff_of_true rfl fun h => Hlc.sendWithWall_eq_none.mp hsend (h ⟨hargs, hread, hparse, rfl⟩)
    | some event =>
      obtain ⟨ts, clock⟩ := event
      refine iff_of_false ?_ fun h => h fun _ => ?_
      · simp only
        split
        · exact pushStatus_ne_panic call.faults 4
        split
        · exact nofun
        split_ifs
        · exact pushStatus_ne_panic call.faults 6
        · exact setInCascade_ne_panic _ _ _ _ _ _
        · exact setInMemory_ne_panic _ _ _ _ _ _
      · by_contra hroom
        rw [Hlc.sendWithWall_eq_none.mpr hroom] at hsend
        cases hsend

theorem hostCall_panic {run : Run std} {call : HostCall} :
    (hostCall run call).2 = some .panic ↔ ¬ call.FindsRoom std run.context.clock := by
  cases call with
  | get entity component faults =>
    refine iff_of_false ?_ fun h => h trivial
    have hne := slungGet_ne_panic run.context entity component faults
    simp only [hostCall]
    cases hget : (slungGet std run.context entity component faults).1 with
    | status n => exact nofun
    | err e => exact nofun
    | panic => exact absurd hget hne
  | set call =>
    rw [HostCall.FindsRoom, ← slungSet_panic]
    cases hset : slungSet run.context call with
    | mk context result => cases result <;> simp [hostCall, hset]
  | now wallNow =>
    rw [HostCall.FindsRoom, ← Hlc.sendWithWall_eq_none]
    cases hsend : run.context.clock.sendWithWall wallNow <;> simp [hostCall, hsend]

/-- A call of the list finds no room. -/
def Overflows (calls : List (Run std × HostCall)) : Prop := ∃ e ∈ calls, ¬ e.2.FindsRoom std e.1.context.clock

theorem not_overflows_nil : ¬ Overflows ([] : List (Run std × HostCall)) := by simp [Overflows]

theorem overflows_append {calls calls' : List (Run std × HostCall)} :
    Overflows (calls ++ calls') ↔ Overflows calls ∨ Overflows calls' := by
  simp only [Overflows, List.mem_append, or_and_right, exists_or]

theorem hostCalls_panic {run : Run std} {calls : List HostCall} :
    (hostCalls run calls).2 = some .panic ↔ Overflows (callsMade run calls) := by
  induction calls generalizing run with
  | nil => exact iff_of_false nofun not_overflows_nil
  | cons call calls ih =>
    have hfirst : Overflows (callsMade run (call :: calls)) ↔ (hostCall run call).2 = some .panic ∨ _ :=
      (@overflows_append _ [(run, call)] _).trans (or_congr_left (by simp [Overflows, hostCall_panic]))
    rw [hfirst, hostCalls]
    cases hcall : hostCall run call with
    | mk run₁ stop =>
      cases stop with
      | none => exact ih.trans (by simp)
      | some stop => simp [not_overflows_nil]

theorem runCandidate_panic {env : Environment} {entityId : EntityId} {run : Run std} {candidate : Candidate} :
    (runCandidate env entityId run candidate).2 = .error .panic ↔
      Overflows (candidateCalls env entityId run candidate) := by
  unfold runCandidate candidateCalls
  simp only
  cases hclaim : ClaimRegister.tryAcquire (env.dispatches run.dispatched).acquireFails run.context.claimRegister
      candidate.ruleId entityId with
  | error e => exact iff_of_false (by simp) not_overflows_nil
  | ok claimed =>
    obtain ⟨claims, _ | _⟩ := claimed
    · exact iff_of_false (by simp) not_overflows_nil
    · simp only
      rw [← hostCalls_panic]
      unfold dispatch
      cases hostCalls (run.claimed claims entityId candidate.ruleId) (env.dispatches run.dispatched).calls with
      | mk run₁ stop =>
        rcases stop with _ | e | _
        · cases (env.dispatches run.dispatched).code <;> simp
        · simp
        · simp

theorem runCandidates_panic {env : Environment} {entityId : EntityId} {run : Run std} (fired : ℕ)
    {rest : List Candidate} : (runCandidates env entityId run fired rest).2 = .error .panic ↔
      Overflows (candidatesCalls env entityId run rest) := by
  induction rest generalizing run fired with
  | nil => exact iff_of_false nofun not_overflows_nil
  | cons candidate rest ih =>
    rw [candidatesCalls, overflows_append, ← runCandidate_panic, runCandidates]
    cases runCandidate env entityId run candidate with
    | mk run₁ result =>
      cases result with
      | error stop => simp [not_overflows_nil]
      | ok n => simpa using ih _

theorem fireWatchers_panic {env : Environment} {cycle : ℕ} {run : Run std} {entry : DirtyEntry}
    {durableId : Option ℤ} : (fireWatchers env cycle run entry durableId).2 = .error .panic ↔
      Overflows (watchersCalls env cycle run entry) := by
  unfold fireWatchers watchersCalls
  cases run.context.graph.forward.lookup ⟨entry.entity, entry.component⟩ with
  | none => exact iff_of_false nofun not_overflows_nil
  | some forwardEntry =>
    simp only
    by_cases hnil : forwardEntry.watchers = []
    · rw [if_pos hnil, if_pos (Or.inl hnil)]
      exact iff_of_false nofun not_overflows_nil
    by_cases hfails : env.candidatesFail cycle = true
    · rw [if_neg hnil, if_pos hfails, if_pos (Or.inr hfails)]
      exact iff_of_false (by simp) not_overflows_nil
    rw [if_neg hnil, if_neg hfails, if_neg (not_or.mpr ⟨hnil, hfails⟩),
      ← runCandidates_panic 0]
    cases runCandidates env entry.entity run 0 (candidates run.context.graph forwardEntry.watchers) with
    | mk run₁ result => cases result <;> simp

theorem runCycleWithSource_panic {env : Environment} {useDurableSource : Bool} {cycle : ℕ} {run : Run std} :
    (runCycleWithSource env useDurableSource cycle run).2 = .error .panic ↔
      Overflows (cycleCalls env useDurableSource cycle run) := by
  unfold runCycleWithSource cycleCalls
  by_cases hdurable : useDurableSource = true ∧ run.context.storage.isSome = true
  · rw [if_pos hdurable, if_pos hdurable]
    cases run.context.nextPendingDirty with
    | none => exact iff_of_false nofun not_overflows_nil
    | some pending =>
      simp only
      by_cases hfails : env.pendingFails = true
      · rw [if_pos hfails, if_pos hfails]
        exact iff_of_false (by simp) not_overflows_nil
      · rw [if_neg hfails, if_neg hfails]
        exact fireWatchers_panic
  · rw [if_neg hdurable, if_neg hdurable]
    cases run.context.dirtyQueue.pop with
    | none => exact iff_of_false nofun not_overflows_nil
    | some popped => exact fireWatchers_panic

theorem runCycles_panic {env : Environment} {n depth : ℕ} {run : Run std} (totalFired : ℕ) (durableId : Option ℤ) :
    (runCycles env n depth run totalFired durableId).2 = .error .panic ↔ Overflows (cyclesCalls env n depth run) := by
  induction n generalizing depth run totalFired durableId with
  | zero => exact iff_of_false nofun not_overflows_nil
  | succ n ih =>
    rw [cyclesCalls, overflows_append, ← runCycleWithSource_panic, runCycles]
    cases runCycleWithSource env (depth == 0) depth run with
    | mk run₁ result =>
      cases result with
      | error stop => simp [not_overflows_nil]
      | ok cycled =>
        obtain ⟨fired, id⟩ := cycled
        simp only
        cases run₁.context.cascadeError with
        | some err => simp [not_overflows_nil]
        | none =>
          simp only [Option.isSome_none, Bool.false_eq_true, false_or]
          by_cases hdone : fired = 0 ∧ ¬ hasReadyWork run₁ = true
          · rw [if_pos hdone, if_pos hdone]
            simp [not_overflows_nil]
          · rw [if_neg hdone, if_neg hdone]
            simpa using ih _ _

/-- **A run stops the process iff a call that it makes finds no room in the clock.** -/
theorem runTimed_panic {env : Environment} {maxDepth : ℕ} {ctx : Context std.wyhash} :
    (runTimed env maxDepth ctx).2 = .error .panic ↔ Overflows (runCalls env maxDepth ctx) := by
  rw [runCalls, ← runCycles_panic 0 none, runTimed]
  cases runCycles env maxDepth 0 (⟨ctx.beginCascade, 0, []⟩ : Run std) 0 none with
  | mk run result =>
    rcases result with ⟨e | _⟩ | ⟨total, id, converged⟩
    · simp
    · simp
    · simp only
      split_ifs
      · simp
      · cases id with
        | none => simp [checkpoint]
        | some id =>
          simp only [checkpoint]
          cases hflush : run.context.flushCascade env.flushFails id <;> simp

end Slung
