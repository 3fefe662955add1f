import Mathlib.Data.List.Sort
import Slung.Wasm.HostAbi.Generic

/-!
# Slung.Engine.Loop — the inference loop (`engine/loop.zig`)

One run takes a pending entry, fires the rules that watch it, then the rules that watch what they wrote, until
nothing is left to do or the depth is used up, and writes one checkpoint.  A dispatched rule is any finite
sequence of host calls that ends with a code or a trap; `Environment` is all that the run does not decide.

`Run.writes` is not in the source; it keeps the writes that were reported to the guest as done.
-/

namespace Slung

open Slung.Lib

/-! ## The environment -/

inductive HostCall where
  | get (entity : EntityId) (component : ComponentId) (faults : List HostFault)
  | set (call : SetCall)
  | now (wallNow : UInt64)
deriving DecidableEq, Repr

/-- One dispatch of a rule. -/
structure Dispatch where
  acquireFails : Bool
  calls : List HostCall
  /-- the code that the rule returns; `none` if it traps -/
  code : Option Int32

structure Environment where
  pendingFails : Bool
  /-- does the allocation of the candidates fail in this cycle? -/
  candidatesFail : ℕ → Bool
  dispatches : ℕ → Dispatch
  flushFails : Option Wal.Err

/-- A write of a rule that returned status 0. -/
structure Write where
  entity : EntityId
  component : ComponentId
  value : Bytes
  timestamp : Timestamp
deriving DecidableEq, Repr

/-- A run in progress. -/
structure Run (std : StdLib) where
  context : Context std.wyhash
  /-- how many rules have been dispatched -/
  dispatched : ℕ
  writes : List Write

/-- Why a run ends early: an error of the source, or a checked operation that stops the process. -/
inductive Stop where
  | error (e : RunError)
  | panic
deriving DecidableEq, Repr

variable {std : StdLib}

/-! ## Dispatching -/

def hostCall (run : Run std) : HostCall → Run std × Option Stop
  | .get entity component faults =>
    match (slungGet std run.context entity component faults).1 with
    | .status _ => (run, none)
    | .err e => (run, some (.error e))
    | .panic => (run, some .panic)
  | .set call =>
    let (context, result) := slungSet run.context call
    let write : Write := ⟨call.entity, call.component, call.memory, context.clock.now⟩
    match result with
    | .status n => ({ run with
        context := context
        writes := if n = 0 then run.writes ++ [write] else run.writes }, none)
    | .err e => ({ run with context := context }, some (.error e))
    | .panic => ({ run with context := context }, some .panic)
  | .now wallNow =>
    match run.context.clock.sendWithWall wallNow with
    | some (_, clock) => ({ run with context := { run.context with clock := clock } }, none)
    | none => (run, some .panic)

/-- The host calls of a rule, up to the first that traps. -/
def hostCalls (run : Run std) : List HostCall → Run std × Option Stop
  | [] => (run, none)
  | call :: calls =>
    match hostCall run call with
    | (run, none) => hostCalls run calls
    | (run, some stop) => (run, some stop)

/-- Rule dispatcher: run the entrypoint of a rule. -/
def dispatch (run : Run std) (d : Dispatch) : Run std × Except Stop Int32 :=
  match hostCalls run d.calls with
  | (run, some stop) => (run, .error stop)
  | (run, none) =>
    match d.code with
    | some code => (run, .ok code)
    | none => (run, .error (.error .trap))

/-- Candidate rule for execution. -/
structure Candidate where
  ruleId : RuleId
  priority : UInt8
deriving DecidableEq, Repr

/-- The watchers with their priorities, higher priority first; the sort is stable. -/
def candidates (graph : CapabilityGraph) (watchers : List RuleId) : List Candidate :=
  let unsorted := watchers.filterMap fun ruleId =>
    (graph.reverse.lookup ruleId).map fun entry => (⟨ruleId, entry.priority⟩ : Candidate)
  unsorted.insertionSort fun a b => b.priority ≤ a.priority

def Run.setClaims (run : Run std) (claims : ClaimRegister) : Run std :=
  { run with context := { run.context with claimRegister := claims } }

/-- A rule is about to be dispatched under its claim. -/
def Run.claimed (run : Run std) (claims : ClaimRegister) (entityId : EntityId) (ruleId : RuleId) : Run std :=
  { run.setClaims claims with
    context := (run.setClaims claims).context.setCurrentExecution entityId ruleId
    dispatched := run.dispatched + 1 }

/-- Claim, dispatch and release one candidate; the number of rules fired. -/
def runCandidate (env : Environment) (entityId : EntityId) (run : Run std) (candidate : Candidate) :
    Run std × Except Stop ℕ :=
  let d := env.dispatches run.dispatched
  match ClaimRegister.tryAcquire d.acquireFails run.context.claimRegister candidate.ruleId entityId with
  | .error e => (run, .error (.error e))
  | .ok (_, false) => (run, .ok 0)
  | .ok (claims, true) =>
    match dispatch (run.claimed claims entityId candidate.ruleId) d with
    | (run, .error .panic) => (run, .error .panic)
    | (run, .error (.error e)) =>
      (run.setClaims (run.context.claimRegister.release candidate.ruleId entityId), .error (.error e))
    | (run, .ok _) => (run.setClaims (run.context.claimRegister.release candidate.ruleId entityId), .ok 1)

def runCandidates (env : Environment) (entityId : EntityId) (run : Run std) (fired : ℕ) :
    List Candidate → Run std × Except Stop ℕ
  | [] => (run, .ok fired)
  | candidate :: rest =>
    match runCandidate env entityId run candidate with
    | (run, .error stop) => (run, .error stop)
    | (run, .ok n) => runCandidates env entityId run (fired + n) rest

/-! ## Cycles -/

/-- The second half of a cycle: fire the rules that watch the entry. -/
def fireWatchers (env : Environment) (cycle : ℕ) (run : Run std) (dirtyEntry : DirtyEntry)
    (durableId : Option ℤ) : Run std × Except Stop (ℕ × Option ℤ) :=
  match run.context.graph.forward.lookup ⟨dirtyEntry.entity, dirtyEntry.component⟩ with
  | none => (run, .ok (0, durableId))
  | some forwardEntry =>
    if forwardEntry.watchers = [] then (run, .ok (0, durableId))
    else if env.candidatesFail cycle then (run, .error (.error .outOfMemory))
    else
      match runCandidates env dirtyEntry.entity run 0
          (candidates run.context.graph forwardEntry.watchers) with
      | (run, .error stop) => (run, .error stop)
      | (run, .ok fired) => (run, .ok (fired, durableId))

/-- One inference cycle, driven by the next pending entry or by the next signal of the queue. -/
def runCycleWithSource (env : Environment) (useDurableSource : Bool) (cycle : ℕ) (run : Run std) :
    Run std × Except Stop (ℕ × Option ℤ) :=
  if useDurableSource ∧ run.context.storage.isSome then
    match run.context.nextPendingDirty with
    | none => (run, .ok (0, none))
    | some pending =>
      if env.pendingFails then (run, .error (.error .outOfMemory))
      else fireWatchers env cycle run ⟨pending.entity, pending.component⟩ (some pending.id)
  else
    match run.context.dirtyQueue.pop with
    | none => (run, .ok (0, none))
    | some (entry, queue) =>
      fireWatchers env cycle { run with context := { run.context with dirtyQueue := queue } } entry none

def hasReadyWork (run : Run std) : Bool := !run.context.dirtyQueue.isEmpty

/-- The cycles of a run: `n` are left, `depth` have been made. -/
def runCycles (env : Environment) : ℕ → ℕ → Run std → ℕ → Option ℤ →
    Run std × Except Stop (ℕ × Option ℤ × Bool)
  | 0, _, run, totalFired, durableId => (run, .ok (totalFired, durableId, false))
  | n + 1, depth, run, totalFired, durableId =>
    match runCycleWithSource env (depth == 0) depth run with
    | (run, .error stop) => (run, .error stop)
    | (run, .ok (fired, id)) =>
      match run.context.cascadeError with
      | some err => (run, .error (.error err))
      | none =>
        if fired = 0 ∧ ¬ hasReadyWork run then (run, .ok (totalFired + fired, durableId.or id, true))
        else runCycles env n (depth + 1) run (totalFired + fired) (durableId.or id)

def Run.discardCascade (run : Run std) : Run std := { run with context := run.context.discardCascade }

/-- The end of a run that did not fail: the checkpoint, or nothing if no entry started it. -/
def checkpoint (env : Environment) (run : Run std) (totalFired : ℕ) :
    Option ℤ → Run std × Except Stop ℕ
  | some id =>
    match run.context.flushCascade env.flushFails id with
    | .error e => (run.discardCascade, .error (.error e))
    | .ok context => ({ run with context := context }, .ok totalFired)
  | none => (run.discardCascade, .ok totalFired)

/-- Run the full inference cascade from one dirty entry until convergence. -/
def runTimed (env : Environment) (maxDepth : ℕ) (context : Context std.wyhash) :
    Run std × Except Stop ℕ :=
  match runCycles env maxDepth 0 ⟨context.beginCascade, 0, []⟩ 0 none with
  | (run, .error (.error e)) => (run.discardCascade, .error (.error e))
  | (run, .error .panic) => (run, .error .panic)
  | (run, .ok (totalFired, durableId, converged)) =>
    if ¬ converged ∧ hasReadyWork run then (run.discardCascade, .error (.error .maxDepthExceeded))
    else checkpoint env run totalFired durableId

/-- The candidates are the watchers: no slot is left undefined. -/
theorem map_candidates_perm (graph : CapabilityGraph) {key : ForwardKey} {entry : Forward}
    (h : graph.forward.lookup key = some entry) :
    ((candidates graph entry.watchers).map Candidate.ruleId).Perm entry.watchers := by
  refine ((List.perm_insertionSort _ _).map _).trans (List.Perm.of_eq ?_)
  rw [List.map_filterMap]
  refine (List.filterMap_congr fun r hr => ?_).trans List.filterMap_some
  obtain ⟨reverseEntry, hreverse⟩ := Option.isSome_iff_exists.mp (graph.registered key entry h r hr)
  rw [hreverse]
  rfl

end Slung
