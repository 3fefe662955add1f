import Slung.Lib.Claims
import Slung.Lib.Machine
import Slung.Engine.Loop
import Slung.Wasm.Module

/-!
# Slung.Engine.Workers — many inference loops on one queue (`engine/loop.zig`, `engine/context.zig`)

Any number of loops share the dirty queue, the claim register and the capability graph.  A step is one critical
section of a loop (a pop, a claim attempt, a release), the beginning or the end of a dispatch, or a push.  The clock
of the machine, the list of signals that were popped and the list of executions are not in the source.

A loop that finds a rule claimed skips it and has consumed the signal.  `no_wakeup_lost`: the claims exclude each
other in every run, and no wake-up is lost as long as no skipped claim is held by an execution that began before the
signal was pushed, and nothing fails that ends a cycle early.  `wakeup_lost` is the run with such a claim.
-/

namespace Slung

open Slung.Lib

/-! ## State -/

/-- An entry of the queue with the time at which it was pushed. -/
structure Signal where
  entry : DirtyEntry
  pushed : ℕ
deriving DecidableEq, Repr

structure Execution where
  ruleId : RuleId
  entity : EntityId
  began : ℕ
deriving DecidableEq, Repr

/-- Where a loop stands in its cycle; `rest` are the candidates that come after. -/
inductive Worker where
  | idle
  | claiming (signal : Signal) (rest : List RuleId)
  | claimed (signal : Signal) (ruleId : RuleId) (rest : List RuleId)
  | executing (signal : Signal) (ruleId : RuleId) (began : ℕ) (rest : List RuleId)
  | releasing (signal : Signal) (ruleId : RuleId) (began : ℕ) (rest : List RuleId) (failed : Bool)
deriving DecidableEq

namespace Worker

/-- On to the next candidate, if there is one. -/
def next (signal : Signal) : List RuleId → Worker
  | [] => .idle
  | ruleId :: rest => .claiming signal (ruleId :: rest)

/-- The claim that a loop holds. -/
def holding : Worker → Option (RuleId × EntityId)
  | .claimed signal ruleId _ | .executing signal ruleId _ _ | .releasing signal ruleId _ _ _ =>
    some (ruleId, signal.entry.entity)
  | .idle | .claiming .. => none

/-- The execution under the claim, once it has begun. -/
def begun : Worker → Option Execution
  | .executing signal ruleId began _ | .releasing signal ruleId began _ _ => some ⟨ruleId, signal.entry.entity, began⟩
  | .idle | .claiming .. | .claimed .. => none

/-- The claim that a loop is about to try. -/
def asks : Worker → Option (Signal × RuleId)
  | .claiming signal (ruleId :: _) => some (signal, ruleId)
  | _ => none

/-- The candidates that come after the current execution. -/
def waiting : Worker → List RuleId
  | .executing _ _ _ rest => rest
  | _ => []

/-- The loop will still execute the rule: it has the claim, or the rule is among its candidates for the signal. -/
def Awaits (signal : Signal) (ruleId : RuleId) : Worker → Prop
  | .idle => False
  | .claiming signal' rest => signal' = signal ∧ ruleId ∈ rest
  | .claimed signal' ruleId' rest =>
    (ruleId' = ruleId ∧ signal'.entry.entity = signal.entry.entity) ∨ (signal' = signal ∧ ruleId ∈ rest)
  | .executing signal' _ _ rest => signal' = signal ∧ ruleId ∈ rest
  | .releasing signal' _ _ rest failed => failed = false ∧ signal' = signal ∧ ruleId ∈ rest

theorem awaits_next {signal signal' : Signal} {ruleId : RuleId} {rest : List RuleId}
    (hsignal : signal' = signal) (hmem : ruleId ∈ rest) : (Worker.next signal' rest).Awaits signal ruleId := by
  cases rest with
  | nil => cases hmem
  | cons r rest => exact ⟨hsignal, hmem⟩

@[simp] theorem next_holding (signal : Signal) (rest : List RuleId) : (Worker.next signal rest).holding = none := by
  cases rest <;> rfl

@[simp] theorem next_begun (signal : Signal) (rest : List RuleId) : (Worker.next signal rest).begun = none := by
  cases rest <;> rfl

/-- Between two candidates, and after a cycle that ended early, a loop holds nothing. -/
theorem free (ended : Bool) (signal : Signal) (rest : List RuleId) :
    (if ended then Worker.idle else .next signal rest).holding = none ∧
      (if ended then Worker.idle else .next signal rest).begun = none := by
  cases ended with
  | true => exact ⟨rfl, rfl⟩
  | false => exact ⟨next_holding signal rest, next_begun signal rest⟩

end Worker

/-- `n` loops over their shared state. -/
structure Workers (n : ℕ) where
  time : ℕ
  queue : DirtyQueue
  /-- when the entries of the queue were pushed -/
  pushed : List ℕ
  claims : ClaimRegister
  workers : Fin n → Worker
  popped : List Signal
  executions : List Execution

namespace Workers

variable {n : ℕ}

def init (n capacity : ℕ) : Workers n := ⟨0, DirtyQueue.init capacity, [], ∅, fun _ => .idle, [], []⟩

def watchers (graph : CapabilityGraph) (entry : DirtyEntry) : List RuleId :=
  match graph.forward.lookup ⟨entry.entity, entry.component⟩ with
  | none => []
  | some forwardEntry => (candidates graph forwardEntry.watchers).map Candidate.ruleId

/-- A loop has made a step. -/
def moved (s : Workers n) (i : Fin n) (worker : Worker) : Workers n :=
  { s with workers := Function.update s.workers i worker, time := s.time + 1 }

/-! ## Steps -/

def push (s : Workers n) (entry : DirtyEntry) : Option (Workers n) :=
  (s.queue.push entry).map fun queue => { s with queue := queue, pushed := s.pushed ++ [s.time], time := s.time + 1 }

/-- A cycle begins; without memory for the candidates it ends at once. -/
def pop (graph : CapabilityGraph) (s : Workers n) (i : Fin n) (allocFails : Bool) : Option (Workers n) :=
  match s.workers i, s.queue.pop, s.pushed with
  | .idle, some (entry, queue), time :: pushed =>
    let signal : Signal := ⟨entry, time⟩
    some { s.moved i (if allocFails then .idle else .next signal (watchers graph entry)) with
      queue := queue, pushed := pushed, popped := s.popped ++ [signal] }
  | _, _, _ => none

/-- An error ends the cycle; a claim of another loop is skipped. -/
def claim (s : Workers n) (i : Fin n) (fails : Bool) : Option (Workers n) :=
  match s.workers i with
  | .claiming signal (ruleId :: rest) =>
    match ClaimRegister.tryAcquire fails s.claims ruleId signal.entry.entity with
    | .error _ => some (s.moved i .idle)
    | .ok (_, false) => some (s.moved i (.next signal rest))
    | .ok (claims, true) => some { s.moved i (.claimed signal ruleId rest) with claims := claims }
  | _ => none

def dispatch (s : Workers n) (i : Fin n) : Option (Workers n) :=
  match s.workers i with
  | .claimed signal ruleId rest => some { s.moved i (.executing signal ruleId s.time rest) with
      executions := s.executions ++ [⟨ruleId, signal.entry.entity, s.time⟩] }
  | _ => none

def finishDispatch (s : Workers n) (i : Fin n) (failed : Bool) : Option (Workers n) :=
  match s.workers i with
  | .executing signal ruleId began rest => some (s.moved i (.releasing signal ruleId began rest failed))
  | _ => none

/-- An execution that failed ends the cycle. -/
def release (s : Workers n) (i : Fin n) : Option (Workers n) :=
  match s.workers i with
  | .releasing signal ruleId _ rest failed =>
    some { s.moved i (if failed then .idle else .next signal rest) with
      claims := s.claims.release ruleId signal.entry.entity }
  | _ => none

inductive Label (n : ℕ) where
  | push (entry : DirtyEntry)
  | pop (i : Fin n) (allocFails : Bool)
  | claim (i : Fin n) (fails : Bool)
  | dispatch (i : Fin n)
  | finishDispatch (i : Fin n) (failed : Bool)
  | release (i : Fin n)
deriving DecidableEq

end Workers

/-- The loops, in any interleaving. -/
def sharedLoops (n : ℕ) (graph : CapabilityGraph) : Machine (Workers n) (Workers.Label n) where
  step s
    | .push entry => s.push entry
    | .pop i allocFails => s.pop graph i allocFails
    | .claim i fails => s.claim i fails
    | .dispatch i => s.dispatch i
    | .finishDispatch i failed => s.finishDispatch i failed
    | .release i => s.release i

namespace Workers

variable {n : ℕ} {graph : CapabilityGraph}

/-! ## What the steps do -/

section Cases

variable {s s' : Workers n} {i : Fin n}

theorem pop_cases {allocFails : Bool} (h : s.pop graph i allocFails = some s') :
    ∃ entry queue time pushed, s.workers i = .idle ∧ s.queue.pop = some (entry, queue) ∧ s.pushed = time :: pushed ∧
      s' = { s.moved i (if allocFails then .idle else .next ⟨entry, time⟩ (watchers graph entry)) with
        queue := queue, pushed := pushed, popped := s.popped ++ [⟨entry, time⟩] } := by
  unfold pop at h
  split at h
  · rename_i entry queue time pushed hidle hqueue hpushed
    exact ⟨entry, queue, time, pushed, hidle, hqueue, hpushed, (Option.some.inj h).symm⟩
  · cases h

theorem claim_cases {fails : Bool} (h : s.claim i fails = some s') :
    ∃ signal ruleId rest, s.workers i = .claiming signal (ruleId :: rest) ∧
      ((fails = true ∧ s' = s.moved i .idle) ∨
        (fails = false ∧ (ruleId, signal.entry.entity) ∈ s.claims ∧ s' = s.moved i (.next signal rest)) ∨
        (fails = false ∧ (ruleId, signal.entry.entity) ∉ s.claims ∧
          s' = { s.moved i (.claimed signal ruleId rest) with
            claims := insert (ruleId, signal.entry.entity) s.claims })) := by
  unfold claim at h
  split at h
  · rename_i signal ruleId rest hclaiming
    refine ⟨signal, ruleId, rest, hclaiming, ?_⟩
    unfold ClaimRegister.tryAcquire at h
    cases fails with
    | true => exact Or.inl ⟨rfl, (Option.some.inj h).symm⟩
    | false =>
      right
      by_cases htaken : (ruleId, signal.entry.entity) ∈ s.claims
      · rw [if_neg (by decide), if_pos htaken] at h
        exact Or.inl ⟨rfl, htaken, (Option.some.inj h).symm⟩
      · rw [if_neg (by decide), if_neg htaken] at h
        exact Or.inr ⟨rfl, htaken, (Option.some.inj h).symm⟩
  · cases h

theorem dispatch_cases (h : s.dispatch i = some s') : ∃ signal ruleId rest,
    s.workers i = .claimed signal ruleId rest ∧
      s' = { s.moved i (.executing signal ruleId s.time rest) with
        executions := s.executions ++ [⟨ruleId, signal.entry.entity, s.time⟩] } := by
  unfold dispatch at h
  split at h
  · rename_i signal ruleId rest hclaimed
    exact ⟨signal, ruleId, rest, hclaimed, (Option.some.inj h).symm⟩
  · cases h

theorem finishDispatch_cases {failed : Bool} (h : s.finishDispatch i failed = some s') :
    ∃ signal ruleId began rest, s.workers i = .executing signal ruleId began rest ∧
      s' = s.moved i (.releasing signal ruleId began rest failed) := by
  unfold finishDispatch at h
  split at h
  · rename_i signal ruleId began rest hexecuting
    exact ⟨signal, ruleId, began, rest, hexecuting, (Option.some.inj h).symm⟩
  · cases h

theorem release_cases (h : s.release i = some s') : ∃ signal ruleId began rest failed,
    s.workers i = .releasing signal ruleId began rest failed ∧
      s' = { s.moved i (if failed then .idle else .next signal rest) with
        claims := s.claims.erase (ruleId, signal.entry.entity) } := by
  unfold release at h
  split at h
  · rename_i signal ruleId began rest failed hreleasing
    exact ⟨signal, ruleId, began, rest, failed, hreleasing, (Option.some.inj h).symm⟩
  · cases h

end Cases

/-! ## The claims exclude each other -/

/-- What holds in every run. -/
structure Sound (s : Workers n) : Prop where
  exclusive : Exclusive (fun i => (s.workers i).holding) s.claims
  stamps : s.pushed.length = s.queue.entries.length
  queued : ∀ time ∈ s.pushed, time < s.time
  popped : ∀ signal ∈ s.popped, signal.pushed < s.time
  begun : ∀ i, ∀ x ∈ (s.workers i).begun, x ∈ s.executions

theorem holding_update (s : Workers n) (i : Fin n) (worker : Worker) :
    (fun j => (Function.update s.workers i worker j).holding) =
      Function.update (fun j => (s.workers j).holding) i worker.holding := by
  funext j
  by_cases h : j = i
  · rw [h, Function.update_self, Function.update_self]
  · rw [Function.update_of_ne h, Function.update_of_ne h]

namespace Sound

variable {s s' : Workers n}

theorem init (n capacity : ℕ) : Sound (init n capacity) :=
  ⟨.empty fun _ => rfl, rfl, nofun, nofun, fun _ => nofun⟩

/-- A loop moves; the claims follow what it holds, and what it has begun is on record. -/
theorem moved (h : Sound s) {i : Fin n} {worker : Worker} {claims : ClaimRegister} {executions : List Execution}
    (hclaims : Exclusive (Function.update (fun j => (s.workers j).holding) i worker.holding) claims)
    (hexecutions : ∀ x ∈ s.executions, x ∈ executions) (hbegun : ∀ x ∈ worker.begun, x ∈ executions) :
    Sound { s.moved i worker with claims := claims, executions := executions } := by
  refine ⟨?_, h.stamps, fun time htime => Nat.lt_succ_of_lt (h.queued time htime),
    fun signal hsignal => Nat.lt_succ_of_lt (h.popped signal hsignal), fun j x hx => ?_⟩
  · change Exclusive (fun j => (Function.update s.workers i worker j).holding) claims
    rw [holding_update]
    exact hclaims
  · change x ∈ (Function.update s.workers i worker j).begun at hx
    by_cases hj : j = i
    · rw [hj, Function.update_self] at hx
      exact hbegun x hx
    · rw [Function.update_of_ne hj] at hx
      exact hexecutions x (h.begun j x hx)

theorem step_push (h : Sound s) {entry : DirtyEntry} (hs : s.push entry = some s') : Sound s' := by
  obtain ⟨queue, hqueue, rfl⟩ := Option.map_eq_some_iff.mp hs
  have hentries : queue.entries = s.queue.entries ++ [entry] := by
    unfold DirtyQueue.push at hqueue
    split at hqueue
    · cases hqueue
    · obtain rfl := Option.some.inj hqueue
      rfl
  refine ⟨h.exclusive, ?_, fun time htime => ?_, fun signal hsignal => Nat.lt_succ_of_lt (h.popped signal hsignal),
    h.begun⟩
  · rw [List.length_append, hentries, List.length_append, h.stamps]
    rfl
  · rcases List.mem_append.mp htime with htime | htime
    · exact Nat.lt_succ_of_lt (h.queued time htime)
    · rw [List.mem_singleton.mp htime]
      exact Nat.lt_succ_self _

theorem step_pop (h : Sound s) {i : Fin n} {allocFails : Bool} (hs : s.pop graph i allocFails = some s') :
    Sound s' := by
  obtain ⟨entry, queue, time, pushed, hidle, hqueue, hpushed, rfl⟩ := pop_cases hs
  obtain ⟨hholding, hbegun⟩ := Worker.free allocFails ⟨entry, time⟩ (watchers graph entry)
  have hmoved : Sound { s.moved i (if allocFails then .idle else .next ⟨entry, time⟩ (watchers graph entry)) with
      claims := s.claims, executions := s.executions } :=
    h.moved (by rw [hholding]; exact h.exclusive.keep (by simp [hidle, Worker.holding])) (fun _ => id)
      (fun x hx => by rw [hbegun] at hx; cases hx)
  have hstamps := h.stamps
  rw [hpushed, DirtyQueue.pop_some hqueue, List.length_cons, List.length_cons] at hstamps
  refine ⟨hmoved.exclusive, Nat.succ.inj hstamps, fun t ht => ?_, fun signal hsignal => ?_, hmoved.begun⟩
  · exact Nat.lt_succ_of_lt (h.queued t (hpushed ▸ List.mem_cons_of_mem time ht))
  · rcases List.mem_append.mp hsignal with hsignal | hsignal
    · exact Nat.lt_succ_of_lt (h.popped signal hsignal)
    · rw [List.mem_singleton.mp hsignal]
      exact Nat.lt_succ_of_lt (h.queued time (hpushed ▸ List.mem_cons_self))

theorem step_claim (h : Sound s) {i : Fin n} {fails : Bool} (hs : s.claim i fails = some s') : Sound s' := by
  obtain ⟨signal, ruleId, rest, hclaiming, hcases⟩ := claim_cases hs
  have hfree : (s.workers i).holding = none := by rw [hclaiming]; rfl
  rcases hcases with ⟨-, rfl⟩ | ⟨-, -, rfl⟩ | ⟨-, htaken, rfl⟩
  · exact h.moved (h.exclusive.keep hfree) (fun _ => id) nofun
  · exact h.moved (by rw [Worker.next_holding]; exact h.exclusive.keep hfree) (fun _ => id) (by simp)
  · exact h.moved (h.exclusive.acquire htaken hfree) (fun _ => id) nofun

theorem step_dispatch (h : Sound s) {i : Fin n} (hs : s.dispatch i = some s') : Sound s' := by
  obtain ⟨signal, ruleId, rest, hclaimed, rfl⟩ := dispatch_cases hs
  have hheld : (s.workers i).holding = some (ruleId, signal.entry.entity) := by rw [hclaimed]; rfl
  refine h.moved (h.exclusive.keep hheld) (fun _ => List.mem_append_left _) fun x hx => ?_
  obtain rfl := Option.some.inj hx
  exact List.mem_append_right _ (List.mem_singleton.mpr rfl)

theorem step_finishDispatch (h : Sound s) {i : Fin n} {failed : Bool} (hs : s.finishDispatch i failed = some s') :
    Sound s' := by
  obtain ⟨signal, ruleId, began, rest, hexecuting, rfl⟩ := finishDispatch_cases hs
  have hheld : (s.workers i).holding = some (ruleId, signal.entry.entity) := by rw [hexecuting]; rfl
  refine h.moved (h.exclusive.keep hheld) (fun _ => id) fun x hx => h.begun i x ?_
  rw [hexecuting]
  exact hx

theorem step_release (h : Sound s) {i : Fin n} (hs : s.release i = some s') : Sound s' := by
  obtain ⟨signal, ruleId, began, rest, failed, hreleasing, rfl⟩ := release_cases hs
  have hheld : (s.workers i).holding = some (ruleId, signal.entry.entity) := by rw [hreleasing]; rfl
  obtain ⟨hholding, hbegun⟩ := Worker.free failed signal rest
  exact h.moved (by rw [hholding]; exact h.exclusive.release hheld) (fun _ => id) (by rw [hbegun]; exact nofun)

theorem step (h : Sound s) {l : Label n} (hs : (sharedLoops n graph).step s l = some s') : Sound s' := by
  cases l with
  | push entry => exact h.step_push hs
  | pop i allocFails => exact h.step_pop hs
  | claim i fails => exact h.step_claim hs
  | dispatch i => exact h.step_dispatch hs
  | finishDispatch i failed => exact h.step_finishDispatch hs
  | release i => exact h.step_release hs

theorem reaches {P : Workers n → Label n → Prop} {capacity : ℕ}
    (h : (sharedLoops n graph).Reaches P (Workers.init n capacity) s) : Sound s :=
  h.invariant (init n capacity) fun _ _ _ hsound _ hs => hsound.step hs

end Sound

/-! ## No wake-up is lost -/

/-- A claim attempt meets no execution of its rule that began before its signal was pushed, and nothing fails that
takes the remaining candidates with it. -/
def Attentive (s : Workers n) : Label n → Prop
  | .pop _ allocFails => allocFails = false
  | .claim i fails => fails = false ∧ ∀ p ∈ (s.workers i).asks, ∀ j, ∀ x ∈ (s.workers j).begun,
      (x.ruleId, x.entity) = (p.2, p.1.entry.entity) → p.1.pushed < x.began
  | .finishDispatch i failed => failed = true → (s.workers i).waiting = []
  | _ => True

instance (s : Workers n) : ∀ l, Decidable (s.Attentive l)
  | .pop .. => inferInstanceAs (Decidable (_ = _))
  | .claim .. => inferInstanceAs (Decidable (_ ∧ ∀ p ∈ _, ∀ _, ∀ x ∈ _, _ → _))
  | .finishDispatch .. => inferInstanceAs (Decidable (_ → _))
  | .push _ | .dispatch _ | .release _ => inferInstanceAs (Decidable True)

/-- Some execution of the rule on the entity began after the signal was pushed. -/
def Served (executions : List Execution) (signal : Signal) (ruleId : RuleId) : Prop :=
  ∃ x ∈ executions, x.ruleId = ruleId ∧ x.entity = signal.entry.entity ∧ signal.pushed < x.began

/-- Every watcher of a signal that was popped has been executed since, or will be. -/
def Attended (graph : CapabilityGraph) (s : Workers n) : Prop :=
  ∀ signal ∈ s.popped, ∀ ruleId ∈ watchers graph signal.entry,
    Served s.executions signal ruleId ∨ ∃ i, (s.workers i).Awaits signal ruleId

namespace Attended

variable {s s' : Workers n}

/-- A loop moves; what it was to execute is executed, or somebody will. -/
theorem moved (h : Attended graph s) (claims : ClaimRegister) {i : Fin n} {worker : Worker}
    {executions : List Execution} (hexecutions : ∀ x ∈ s.executions, x ∈ executions)
    (hmove : ∀ signal ∈ s.popped, ∀ ruleId, (s.workers i).Awaits signal ruleId →
      Served executions signal ruleId ∨ ∃ j, (Function.update s.workers i worker j).Awaits signal ruleId) :
    Attended graph { s.moved i worker with claims := claims, executions := executions } := by
  intro signal hsignal ruleId hruleId
  rcases h signal hsignal ruleId hruleId with ⟨x, hx, hserved⟩ | ⟨j, hj⟩
  · exact Or.inl ⟨x, hexecutions x hx, hserved⟩
  · by_cases hji : j = i
    · exact hmove signal hsignal ruleId (hji ▸ hj)
    · refine Or.inr ⟨j, ?_⟩
      change (Function.update s.workers i worker j).Awaits signal ruleId
      rwa [Function.update_of_ne hji]

/-- The same where the loop goes on with all it was to execute. -/
theorem carried (h : Attended graph s) (claims : ClaimRegister) {i : Fin n} {worker : Worker}
    {executions : List Execution} (hexecutions : ∀ x ∈ s.executions, x ∈ executions)
    (hmove : ∀ signal ∈ s.popped, ∀ ruleId, (s.workers i).Awaits signal ruleId →
      Served executions signal ruleId ∨ worker.Awaits signal ruleId) :
    Attended graph { s.moved i worker with claims := claims, executions := executions } :=
  h.moved claims hexecutions fun signal hsignal ruleId hawaits =>
    (hmove signal hsignal ruleId hawaits).imp_right fun hworker => ⟨i, by rwa [Function.update_self]⟩

theorem step_pop (h : Attended graph s) {i : Fin n} (hs : s.pop graph i false = some s') : Attended graph s' := by
  obtain ⟨entry, queue, time, pushed, hidle, -, -, rfl⟩ := pop_cases hs
  have hmoved : Attended graph { s.moved i (.next ⟨entry, time⟩ (watchers graph entry)) with
      claims := s.claims, executions := s.executions } :=
    h.carried s.claims (fun _ => id) (fun signal _ ruleId hawaits => by rw [hidle] at hawaits; exact hawaits.elim)
  intro signal hsignal ruleId hruleId
  rcases List.mem_append.mp hsignal with hsignal | hsignal
  · exact hmoved signal hsignal ruleId hruleId
  · obtain rfl := List.mem_singleton.mp hsignal
    refine Or.inr ⟨i, ?_⟩
    change (Function.update s.workers i _ i).Awaits _ _
    rw [Function.update_self]
    exact Worker.awaits_next rfl hruleId

/-- A claim attempt: the claim is taken, or its holder is as good. -/
theorem step_claim (h : Attended graph s) (hsound : Sound s) {i : Fin n} {fails : Bool}
    (hattentive : s.Attentive (.claim i fails)) (hs : s.claim i fails = some s') : Attended graph s' := by
  obtain ⟨signal₀, r₀, rest, hclaiming, hcases⟩ := claim_cases hs
  obtain ⟨hfails, hheld⟩ := hattentive
  rcases hcases with ⟨htrue, -⟩ | ⟨-, htaken, rfl⟩ | ⟨-, -, rfl⟩
  · rw [hfails] at htrue
    cases htrue
  · refine h.moved s.claims (fun _ => id) fun signal hsignal ruleId hawaits => ?_
    rw [hclaiming] at hawaits
    obtain ⟨rfl, hmem⟩ := hawaits
    rcases List.mem_cons.mp hmem with rfl | hmem
    · obtain ⟨j, hj⟩ := (hsound.exclusive.mem_iff _).mp htaken
      have hji : j ≠ i := by
        rintro rfl
        simp [hclaiming, Worker.holding] at hj
      cases hbegun : (s.workers j).begun with
      | some x =>
        -- the holder has begun: the run says that this was after the push
        have hkey : (x.ruleId, x.entity) = (ruleId, signal₀.entry.entity) := by
          cases hw : s.workers j <;> simp [hw, Worker.begun, Worker.holding] at hj hbegun ⊢ <;> obtain rfl := hbegun <;>
            exact hj
        obtain ⟨hrule, hentity⟩ := Prod.mk.inj hkey
        refine Or.inl ⟨x, hsound.begun j x hbegun, hrule, hentity, ?_⟩
        exact hheld (signal₀, ruleId) (by simp [hclaiming, Worker.asks]) j x hbegun hkey
      | none =>
        -- it has the claim and not begun
        refine Or.inr ⟨j, ?_⟩
        rw [Function.update_of_ne hji]
        cases hw : s.workers j <;> simp [hw, Worker.begun, Worker.holding] at hj hbegun
        exact Or.inl hj
    · refine Or.inr ⟨i, ?_⟩
      rw [Function.update_self]
      exact Worker.awaits_next rfl hmem
  · refine h.carried _ (fun _ => id) fun signal _ ruleId hawaits => Or.inr ?_
    rw [hclaiming] at hawaits
    obtain ⟨rfl, hmem⟩ := hawaits
    rcases List.mem_cons.mp hmem with rfl | hmem
    · exact Or.inl ⟨rfl, rfl⟩
    · exact Or.inr ⟨rfl, hmem⟩

/-- An execution that begins now serves every signal that was popped before. -/
theorem step_dispatch (h : Attended graph s) (hsound : Sound s) {i : Fin n} (hs : s.dispatch i = some s') :
    Attended graph s' := by
  obtain ⟨signal₀, r₀, rest, hclaimed, rfl⟩ := dispatch_cases hs
  refine h.carried s.claims (fun _ => List.mem_append_left _) fun signal hsignal ruleId hawaits => ?_
  rw [hclaimed] at hawaits
  rcases hawaits with ⟨rfl, hentity⟩ | hawaits
  · exact Or.inl ⟨_, List.mem_append_right _ (List.mem_singleton.mpr rfl), rfl, hentity, hsound.popped signal hsignal⟩
  · exact Or.inr hawaits

theorem step_finishDispatch (h : Attended graph s) {i : Fin n} {failed : Bool}
    (hattentive : s.Attentive (.finishDispatch i failed)) (hs : s.finishDispatch i failed = some s') :
    Attended graph s' := by
  obtain ⟨signal₀, r₀, began, rest, hexecuting, rfl⟩ := finishDispatch_cases hs
  refine h.carried s.claims (fun _ => id) fun signal _ ruleId hawaits => Or.inr ?_
  rw [hexecuting] at hawaits
  refine ⟨?_, hawaits⟩
  by_contra hfailed
  have hrest : (s.workers i).waiting = [] := hattentive (by simpa using hfailed)
  rw [hexecuting] at hrest
  obtain rfl : rest = [] := hrest
  cases hawaits.2

theorem step_release (h : Attended graph s) {i : Fin n} (hs : s.release i = some s') : Attended graph s' := by
  obtain ⟨signal₀, r₀, began, rest, failed, hreleasing, rfl⟩ := release_cases hs
  refine h.carried _ (fun _ => id) fun signal _ ruleId hawaits => Or.inr ?_
  rw [hreleasing] at hawaits
  obtain ⟨rfl, hsignal, hmem⟩ := hawaits
  exact Worker.awaits_next hsignal hmem

theorem step (h : Attended graph s) (hsound : Sound s) {l : Label n} (hattentive : s.Attentive l)
    (hs : (sharedLoops n graph).step s l = some s') : Attended graph s' := by
  cases l with
  | push entry =>
    obtain ⟨queue, -, rfl⟩ := Option.map_eq_some_iff.mp hs
    exact h
  | pop i allocFails =>
    obtain rfl : allocFails = false := hattentive
    exact h.step_pop hs
  | claim i fails => exact h.step_claim hsound hattentive hs
  | dispatch i => exact h.step_dispatch hsound hs
  | finishDispatch i failed => exact h.step_finishDispatch hattentive hs
  | release i => exact h.step_release hs

theorem reaches {capacity : ℕ} (h : (sharedLoops n graph).Reaches Attentive (Workers.init n capacity) s) :
    Attended graph s := by
  have hboth : Sound s ∧ Attended graph s :=
    h.invariant (I := fun s => Sound s ∧ Attended graph s) ⟨.init n capacity, nofun⟩
      fun _ _ _ hi hattentive hs => ⟨hi.1.step hs, hi.2.step hi.1 hattentive hs⟩
  exact hboth.2

end Attended

theorem mem_watchers {entry : DirtyEntry} {forwardEntry : Forward}
    (h : graph.forward.lookup ⟨entry.entity, entry.component⟩ = some forwardEntry) {ruleId : RuleId}
    (hmem : ruleId ∈ forwardEntry.watchers) : ruleId ∈ watchers graph entry := by
  unfold watchers
  rw [h]
  exact (map_candidates_perm graph h).mem_iff.mpr hmem

end Workers

/-! ## Theorems -/

/-- **Claims and wake-ups**: in no run do two loops hold the claim of one rule and entity.  In a run in which no claim
attempt meets an execution that began before its signal was pushed, and nothing fails that ends a cycle early, when no
loop is inside a cycle every rule that watches a signal that was popped has been executed since the push. -/
theorem no_wakeup_lost (n capacity : ℕ) (graph : CapabilityGraph) :
    (∀ s, (sharedLoops n graph).Reaches (fun _ _ => True) (Workers.init n capacity) s →
      ∀ i j key, (s.workers i).holding = some key → (s.workers j).holding = some key → i = j) ∧
    (∀ s, (sharedLoops n graph).Reaches Workers.Attentive (Workers.init n capacity) s →
      (∀ i, s.workers i = .idle) → ∀ signal ∈ s.popped, ∀ forwardEntry,
      graph.forward.lookup ⟨signal.entry.entity, signal.entry.component⟩ = some forwardEntry →
      ∀ ruleId ∈ forwardEntry.watchers, ∃ x ∈ s.executions,
        x.ruleId = ruleId ∧ x.entity = signal.entry.entity ∧ signal.pushed < x.began) := by
  refine ⟨fun s h => (Workers.Sound.reaches h).exclusive.unique, fun s h hidle signal hsignal forwardEntry hlookup
    ruleId hruleId => ?_⟩
  rcases Workers.Attended.reaches h signal hsignal ruleId (Workers.mem_watchers hlookup hruleId) with
    hserved | ⟨i, hawaits⟩
  · exact hserved
  · rw [hidle i] at hawaits
    exact hawaits.elim

/-- Rule 7 watches component 2 of entity 1. -/
def oneRule : GraphBuilder where
  namespaceId := [110]
  moduleRef := []
  sources := []
  components := [(⟨1, 2⟩, ⟨1, [], [], false⟩)]
  rules := [(7, ⟨[97], 1, [⟨1, 2⟩]⟩)]

/-- Two loops take two signals; the second one skips a claim whose holder has yet to begin. -/
theorem no_wakeup_lost_example :
    let graph := oneRule.build CapabilityGraph.empty
    let run : List (Workers.Label 2) := [.push ⟨1, 2⟩, .push ⟨1, 2⟩, .pop 0 false, .claim 0 false, .pop 1 false,
      .claim 1 false, .dispatch 0, .finishDispatch 0 false, .release 0]
    ∃ s, (sharedLoops 2 graph).runAllowed Workers.Attentive (Workers.init 2 8) run = some s ∧
      s.popped = [⟨⟨1, 2⟩, 0⟩, ⟨⟨1, 2⟩, 1⟩] ∧ s.executions.length = 1 ∧
      ∃ x ∈ s.executions, x.ruleId = 7 ∧ x.entity = 1 ∧ 1 < x.began := by
  intro graph run
  have hrun : ((sharedLoops 2 graph).runAllowed Workers.Attentive (Workers.init 2 8) run).map
      (fun s => (s.popped, s.executions.length, decide (∀ i, s.workers i = .idle))) =
      some ([⟨⟨1, 2⟩, 0⟩, ⟨⟨1, 2⟩, 1⟩], 1, true) := by decide +kernel
  obtain ⟨s, hs, hfinal⟩ := Option.map_eq_some_iff.mp hrun
  obtain ⟨hpopped, hexecutions, hidle⟩ : s.popped = [⟨⟨1, 2⟩, 0⟩, ⟨⟨1, 2⟩, 1⟩] ∧ s.executions.length = 1 ∧
      decide (∀ i, s.workers i = .idle) = true := by
    simpa only [Prod.mk.injEq] using hfinal
  refine ⟨s, hs, hpopped, hexecutions, ?_⟩
  have hlookup : graph.forward.lookup ⟨1, 2⟩ = some ⟨[7], [], [], [], false⟩ := by decide +kernel
  exact (no_wakeup_lost 2 8 graph).2 s (Machine.reaches_of_runAllowed hs) (of_decide_eq_true hidle) ⟨⟨1, 2⟩, 1⟩
    (by rw [hpopped]; decide) _ hlookup 7 (by decide)

/-- A signal that is pushed while the rule is executing, and taken by another loop before the execution ends. -/
theorem wakeup_lost :
    let graph := oneRule.build CapabilityGraph.empty
    let run : List (Workers.Label 2) := [.push ⟨1, 2⟩, .pop 0 false, .claim 0 false, .dispatch 0, .push ⟨1, 2⟩,
      .pop 1 false, .claim 1 false, .finishDispatch 0 false, .release 0]
    (run.foldlM (sharedLoops 2 graph).step (Workers.init 2 8)).map
      (fun s => (s.queue.isEmpty, decide (∀ i, s.workers i = .idle), s.popped, s.executions)) =
      some (true, true, [⟨⟨1, 2⟩, 0⟩, ⟨⟨1, 2⟩, 4⟩], [⟨7, 1, 3⟩]) ∧
    (graph.forward.lookup ⟨1, 2⟩).map Forward.watchers = some [7] := by
  decide +kernel

end Slung
