import Slung.Engine.Loop
import Slung.Wasm.Inverse

/-!
# Slung.Engine.Firing — which rules a cycle dispatches (`engine/loop.zig`)

A cycle fills a slot for every watcher of its entry, sorts the slots by priority and dispatches them one after
the other.  Over a built graph no slot stays undefined (`indices_inverse`), and a rule is dispatched as often as
its watch list names the entry: once for every rule exactly if no watch list names it twice
(`fires_once_iff`).
-/

namespace Slung

open Slung.Lib

variable {std : StdLib}

/-! ## Candidates -/

/-- The slots of the watchers; `none` is one that is left undefined. -/
def slots (graph : CapabilityGraph) (watchers : List RuleId) : List (Option Candidate) :=
  watchers.map fun ruleId =>
    (graph.reverse.lookup ruleId).map fun entry => (⟨ruleId, entry.priority⟩ : Candidate)

theorem none_notMem_slots {graph : CapabilityGraph} {watchers : List RuleId}
    (h : ∀ r ∈ watchers, (graph.reverse.lookup r).isSome) : none ∉ slots graph watchers := by
  intro hnone
  obtain ⟨r, hr, hslot⟩ := List.mem_map.mp hnone
  have hsome := h r hr
  rw [← Option.isSome_map, hslot] at hsome
  cases hsome

/-- The candidates are the slots in the order of their priorities. -/
theorem candidates_perm_slots (graph : CapabilityGraph) (watchers : List RuleId) :
    (candidates graph watchers).Perm ((slots graph watchers).filterMap id) := by
  refine (List.perm_insertionSort _ _).trans (List.Perm.of_eq ?_)
  rw [slots, List.filterMap_map]
  rfl

/-- Higher priority first. -/
theorem pairwise_candidates (graph : CapabilityGraph) (watchers : List RuleId) :
    (candidates graph watchers).Pairwise fun a b => b.priority ≤ a.priority := by
  have htotal : Std.Total fun a b : Candidate => b.priority ≤ a.priority :=
    ⟨fun a b => UInt8.le_total b.priority a.priority⟩
  have htrans : IsTrans Candidate fun a b => b.priority ≤ a.priority :=
    ⟨fun _ _ _ hab hbc => UInt8.le_trans hbc hab⟩
  exact List.pairwise_insertionSort (fun a b : Candidate => b.priority ≤ a.priority) _

/-- A candidate has the priority of its rule. -/
theorem priority_of_mem_candidates {graph : CapabilityGraph} {watchers : List RuleId} {candidate : Candidate}
    (h : candidate ∈ candidates graph watchers) :
    (graph.reverse.lookup candidate.ruleId).map Reverse.priority = some candidate.priority := by
  rw [(candidates_perm_slots graph watchers).mem_iff, List.mem_filterMap] at h
  obtain ⟨slot, hslot, rfl⟩ := h
  obtain ⟨r, -, hr⟩ := List.mem_map.mp hslot
  obtain ⟨entry, hentry, rfl⟩ := Option.map_eq_some_iff.mp hr
  rw [hentry]
  rfl

/-! ## A dispatch leaves the claims and the graph alone -/

/-- What host calls do not touch. -/
structure Framed (before after : Context std.wyhash) : Prop where
  claims : after.claimRegister = before.claimRegister
  graph : after.graph = before.graph

namespace Framed

variable {ctx ctx' ctx'' : Context std.wyhash}

theorem refl (ctx : Context std.wyhash) : Framed ctx ctx := ⟨rfl, rfl⟩

theorem trans (h : Framed ctx ctx') (h' : Framed ctx' ctx'') : Framed ctx ctx'' :=
  ⟨h'.claims.trans h.claims, h'.graph.trans h.graph⟩

theorem discardCascade (ctx : Context std.wyhash) : Framed ctx ctx.discardCascade := ⟨rfl, rfl⟩

theorem accumulateMutation (fault : Option AccumulateAlloc) (ctx : Context std.wyhash) (mutation : Wal.FactMutation)
    (previous : Option LwwRegistry.Entry) : Framed ctx (ctx.accumulateMutation fault mutation previous).1 := by
  unfold Context.accumulateMutation
  simp only
  split_ifs <;> exact ⟨rfl, rfl⟩

theorem hydrate {call : SetCall} {key : Bytes} (h : hydrate ctx call key = .ok ctx') : Framed ctx ctx' := by
  unfold Slung.hydrate at h
  by_cases hmissing : ctx.storage.isSome ∧ ctx.lwwStore.get key = none
  · rw [if_pos hmissing] at h
    split at h
    · cases h
    split at h
    · obtain rfl := Except.ok.inj h
      exact refl ctx
    · split at h
      · cases h
      · obtain rfl := Except.ok.inj h
        exact ⟨rfl, rfl⟩
  · rw [if_neg hmissing] at h
    obtain rfl := Except.ok.inj h
    exact refl ctx

theorem setInCascade (ctx : Context std.wyhash) (call : SetCall) (key : Bytes) (ts : Timestamp) (value : Value)
    (cause : CausalTag) : Framed ctx (setInCascade ctx call key ts value cause).1 := by
  unfold Slung.setInCascade
  simp only
  split_ifs with hclone
  · exact refl ctx
  · split
    · exact refl ctx
    · rename_i store accepted hput
      split_ifs
      · have hacc := accumulateMutation (HostFault.ofAccumulate call.faults) { ctx with lwwStore := store }
          ⟨ctx.namespaceId, call.entity, call.component, call.memory, ts, cause⟩ (ctx.lwwStore.get key)
        split
        · rename_i ctx' heq
          rw [heq] at hacc
          split <;> exact ⟨hacc.claims, hacc.graph⟩
        · rename_i ctx' heq
          rw [heq] at hacc
          split <;> exact ⟨hacc.claims, hacc.graph⟩
      · exact ⟨rfl, rfl⟩

theorem setInMemory (ctx : Context std.wyhash) (call : SetCall) (key : Bytes) (ts : Timestamp) (value : Value)
    (cause : CausalTag) : Framed ctx (setInMemory ctx call key ts value cause).1 := by
  unfold Slung.setInMemory
  simp only
  split_ifs with hclone
  · exact refl ctx
  · split
    · exact refl ctx
    · split_ifs
      · split
        · exact ⟨rfl, rfl⟩
        · split <;> exact ⟨rfl, rfl⟩
      · exact ⟨rfl, rfl⟩

theorem slungSet (ctx : Context std.wyhash) (call : SetCall) : Framed ctx (slungSet ctx call).1 := by
  unfold Slung.slungSet
  by_cases hargs : call.valueLen = 0 ∨ call.valuePtr = 0
  · rw [if_pos hargs]
    exact refl ctx
  rw [if_neg hargs]
  by_cases hread : .memoryRead ∈ call.faults
  · rw [if_pos hread]
    exact refl ctx
  rw [if_neg hread]
  split
  · exact refl ctx
  · split
    · exact refl ctx
    · rename_i ts clock hsend
      have hclock : Framed ctx { ctx with clock := clock } := ⟨rfl, rfl⟩
      simp only
      split
      · exact hclock
      · split
        · exact hclock
        · rename_i ctx' hhydrate
          have hframed := hclock.trans (hydrate hhydrate)
          split_ifs
          · exact hframed.trans ⟨rfl, rfl⟩
          · exact hframed.trans (setInCascade ..)
          · exact hframed.trans (setInMemory ..)

end Framed

section

variable {run run' : Run std}

theorem hostCall_framed (run : Run std) (call : HostCall) : Framed run.context (hostCall run call).1.context := by
  cases call with
  | get entity component faults =>
    simp only [hostCall]
    split <;> exact .refl _
  | set call =>
    have hset := Framed.slungSet run.context call
    simp only [hostCall]
    split <;> exact hset
  | now wallNow =>
    simp only [hostCall]
    split
    · exact ⟨rfl, rfl⟩
    · exact .refl _

theorem hostCalls_framed (run : Run std) (calls : List HostCall) :
    Framed run.context (hostCalls run calls).1.context := by
  induction calls generalizing run with
  | nil => exact .refl _
  | cons call calls ih =>
    have hcall := hostCall_framed run call
    simp only [hostCalls]
    split
    · rename_i run₁ heq
      rw [heq] at hcall
      exact hcall.trans (ih run₁)
    · rename_i run₁ stop heq
      rw [heq] at hcall
      exact hcall

theorem dispatch_framed (run : Run std) (d : Dispatch) : Framed run.context (dispatch run d).1.context := by
  have hcalls := hostCalls_framed run d.calls
  unfold dispatch
  split
  · rename_i run₁ stop heq
    rw [heq] at hcalls
    exact hcalls
  · rename_i run₁ heq
    rw [heq] at hcalls
    split <;> exact hcalls

/-- Where no claim is held, a candidate that is not stopped by a failure is dispatched and leaves no claim. -/
theorem runCandidate_unclaimed {env : Environment} {entityId : EntityId} {candidate : Candidate} {n : ℕ}
    (hclaims : run.context.claimRegister = ∅) (hr : runCandidate env entityId run candidate = (run', .ok n)) :
    n = 1 ∧ run'.context.claimRegister = ∅ ∧ run'.context.graph = run.context.graph := by
  unfold runCandidate at hr
  simp only [ClaimRegister.tryAcquire, hclaims, Finset.notMem_empty, if_false] at hr
  by_cases hfails : (env.dispatches run.dispatched).acquireFails = true
  · rw [if_pos hfails] at hr
    cases (Prod.mk.inj hr).2
  rw [if_neg hfails] at hr
  have hframed := dispatch_framed (run.claimed (insert (candidate.ruleId, entityId) ∅) entityId candidate.ruleId)
    (env.dispatches run.dispatched)
  cases hdispatch : dispatch (run.claimed (insert (candidate.ruleId, entityId) ∅) entityId candidate.ruleId)
      (env.dispatches run.dispatched) with
  | mk run₁ result =>
    rw [hdispatch] at hframed
    simp only [hdispatch] at hr
    rcases result with ⟨e | _⟩ | code
    · cases (Prod.mk.inj hr).2
    · cases (Prod.mk.inj hr).2
    · obtain ⟨rfl, hn⟩ := Prod.mk.inj hr
      refine ⟨(Except.ok.inj hn).symm, ?_, hframed.graph⟩
      have hclaimed : run₁.context.claimRegister = insert (candidate.ruleId, entityId) ∅ := hframed.claims
      change run₁.context.claimRegister.erase (candidate.ruleId, entityId) = ∅
      rw [hclaimed]
      exact Finset.erase_insert (Finset.notMem_empty _)

/-! ## What a cycle dispatches -/

/-- The candidates that are dispatched, in their order, as long as no dispatch fails. -/
def dispatchedIn (env : Environment) (entityId : EntityId) (run : Run std) : List Candidate → List Candidate
  | [] => []
  | candidate :: rest =>
    match runCandidate env entityId run candidate with
    | (run, .ok n) => List.replicate n candidate ++ dispatchedIn env entityId run rest
    | (_, .error _) => []

/-- **Where no claim is held, every candidate is dispatched.** -/
theorem dispatchedIn_unclaimed {env : Environment} {entityId : EntityId} {fired n : ℕ} {rest : List Candidate}
    (hclaims : run.context.claimRegister = ∅) (hr : runCandidates env entityId run fired rest = (run', .ok n)) :
    dispatchedIn env entityId run rest = rest := by
  induction rest generalizing run fired with
  | nil => rfl
  | cons candidate rest ih =>
    cases hcandidate : runCandidate env entityId run candidate with
    | mk run₁ result =>
      simp only [runCandidates, hcandidate] at hr
      cases result with
      | error stop => cases (Prod.mk.inj hr).2
      | ok m =>
        obtain ⟨rfl, hclaims', -⟩ := runCandidate_unclaimed hclaims hcandidate
        simp only [dispatchedIn, hcandidate]
        rw [ih hclaims' hr]
        rfl

/-- The entry that a cycle takes, with the pending id that the run will acknowledge. -/
def takeEntry (env : Environment) (useDurableSource : Bool) (run : Run std) :
    Except Stop (Option (Run std × DirtyEntry × Option ℤ)) :=
  if useDurableSource ∧ run.context.storage.isSome then
    match run.context.nextPendingDirty with
    | none => .ok none
    | some pending =>
      if env.pendingFails then .error (.error .outOfMemory)
      else .ok (some (run, ⟨pending.entity, pending.component⟩, some pending.id))
  else
    match run.context.dirtyQueue.pop with
    | none => .ok none
    | some (entry, queue) => .ok (some ({ run with context := { run.context with dirtyQueue := queue } }, entry, none))

/-- A cycle takes an entry and fires the rules that watch it. -/
theorem runCycle_of_takeEntry {env : Environment} {useDurableSource : Bool} {entry : DirtyEntry}
    {durableId : Option ℤ} (cycle : ℕ)
    (h : takeEntry env useDurableSource run = .ok (some (run', entry, durableId))) :
    runCycleWithSource env useDurableSource cycle run = fireWatchers env cycle run' entry durableId ∧
      Framed run.context run'.context := by
  unfold takeEntry at h
  unfold runCycleWithSource
  by_cases hdurable : useDurableSource ∧ run.context.storage.isSome
  · rw [if_pos hdurable] at h ⊢
    cases hpending : run.context.nextPendingDirty with
    | none =>
      simp only [hpending] at h
      cases h
    | some pending =>
      simp only [hpending] at h ⊢
      by_cases hfails : env.pendingFails = true
      · rw [if_pos hfails] at h
        cases h
      · rw [if_neg hfails] at h ⊢
        obtain ⟨rfl, hrest⟩ := Prod.mk.inj (Option.some.inj (Except.ok.inj h))
        obtain ⟨rfl, rfl⟩ := Prod.mk.inj hrest
        exact ⟨rfl, .refl _⟩
  · rw [if_neg hdurable] at h ⊢
    cases hpop : run.context.dirtyQueue.pop with
    | none =>
      simp only [hpop] at h
      cases h
    | some popped =>
      simp only [hpop] at h ⊢
      obtain ⟨rfl, hrest⟩ := Prod.mk.inj (Option.some.inj (Except.ok.inj h))
      obtain ⟨rfl, rfl⟩ := Prod.mk.inj hrest
      exact ⟨rfl, ⟨rfl, rfl⟩⟩

/-- What the cycle dispatches for the entry that it takes. -/
def cycleDispatches (env : Environment) (useDurableSource : Bool) (run : Run std) : List Candidate :=
  match takeEntry env useDurableSource run with
  | .ok (some (run, entry, _)) =>
    match run.context.graph.forward.lookup ⟨entry.entity, entry.component⟩ with
    | none => []
    | some forwardEntry =>
      dispatchedIn env entry.entity run (candidates run.context.graph forwardEntry.watchers)
  | _ => []

/-- A cycle that returns dispatches the watchers of its entry by priority. -/
theorem cycleDispatches_eq {env : Environment} {useDurableSource : Bool} {cycle : ℕ} {entry : DirtyEntry}
    {durableId : Option ℤ} {result : ℕ × Option ℤ} (hclaims : run.context.claimRegister = ∅)
    (htake : takeEntry env useDurableSource run = .ok (some (run', entry, durableId)))
    (hok : (runCycleWithSource env useDurableSource cycle run).2 = .ok result) :
    cycleDispatches env useDurableSource run =
      candidates run.context.graph (run.context.graph.forward.watchers ⟨entry.entity, entry.component⟩) := by
  obtain ⟨hcycle, hframed⟩ := runCycle_of_takeEntry cycle htake
  rw [hcycle, fireWatchers, hframed.graph] at hok
  simp only [cycleDispatches, htake, hframed.graph]
  cases hlookup : run.context.graph.forward.lookup ⟨entry.entity, entry.component⟩ with
  | none =>
    rw [ForwardIndex.watchers, hlookup]
    rfl
  | some forwardEntry =>
    rw [GraphBuilder.watchers_of_lookup hlookup]
    simp only [hlookup] at hok
    by_cases hempty : forwardEntry.watchers = []
    · simp only [hempty]
      rfl
    rw [if_neg hempty] at hok
    by_cases hfails : env.candidatesFail cycle = true
    · rw [if_pos hfails] at hok
      cases hok
    rw [if_neg hfails] at hok
    cases hrun : runCandidates env entry.entity run' 0 (candidates run.context.graph forwardEntry.watchers) with
    | mk run₁ fired =>
      simp only [hrun] at hok
      cases fired with
      | error stop => cases hok
      | ok n => exact dispatchedIn_unclaimed (hframed.claims.trans hclaims) hrun

end

/-! ## Over a built graph -/

open GraphBuilder (Registration)

/-- **The two indices are inverse**: after any registrations, and with the maps iterated in any order, a watched
component is known, a rule is as often among the watchers of a component as the component is in its watch list,
every watcher is a rule, so that every slot is filled, and distinct fields have distinct keys. -/
theorem indices_inverse {namespaceId : NamespaceId} {moduleRef : Bytes} {calls : List Registration}
    {builder other : GraphBuilder}
    (hregister : (GraphBuilder.init namespaceId moduleRef).registerAll calls = some builder)
    (horder : builder.Reordered other) :
    let graph := other.build .empty
    (∀ r, ∀ key ∈ graph.reverse.watch r, (graph.forward.lookup key).isSome) ∧
      (∀ r key, (graph.forward.watchers key).count r = (graph.reverse.watch r).count key) ∧
      (∀ key, (∀ r ∈ graph.forward.watchers key, (graph.reverse.lookup r).isSome) ∧
        none ∉ slots graph (graph.forward.watchers key)) ∧
      ∃ keys : List ForwardKey, keys.Nodup ∧ keys.length = (calls.flatMap Registration.fields).length ∧
        ∀ (i : ℕ) (field : ComponentField), (calls.flatMap Registration.fields)[i]? = some field → ∃ key entry,
          keys[i]? = some key ∧ graph.forward.lookup key = some entry ∧ entry.mapper = field.mapper ∧
            entry.dynamic = field.dynamic := by
  intro graph
  obtain ⟨hbuilder, hfields⟩ := (GraphBuilder.consistent_init namespaceId moduleRef).registerAll hregister
  have hother := hbuilder.reordered horder
  have hregistered : ∀ key, ∀ r ∈ graph.forward.watchers key, (graph.reverse.lookup r).isSome := by
    intro key r hr
    cases hlookup : graph.forward.lookup key with
    | none =>
      rw [ForwardIndex.watchers, hlookup] at hr
      cases hr
    | some entry =>
      rw [GraphBuilder.watchers_of_lookup hlookup] at hr
      exact graph.registered key entry hlookup r hr
  refine ⟨fun r key => GraphBuilder.isSome_of_mem_watch hother, GraphBuilder.count_watchers hother,
    fun key => ⟨hregistered key, none_notMem_slots (hregistered key)⟩, builder.keys, hbuilder.nodup, ?_, ?_⟩
  · have hlength := congrArg List.length hfields
    rw [GraphBuilder.registeredFields, List.length_map, List.length_append, List.length_map] at hlength
    rw [GraphBuilder.keys, List.length_map, hlength]
    exact Nat.zero_add _
  · intro i field hfield
    have hget : builder.registeredFields[i]? = some (field.mapper, field.dynamic) := by
      rw [hfields]
      change (([] : List (Bytes × Bool)) ++ _)[i]? = _
      rw [List.nil_append, List.getElem?_map, hfield]
      rfl
    rw [GraphBuilder.registeredFields, List.getElem?_map] at hget
    obtain ⟨component, hcomponent, heq⟩ := Option.map_eq_some_iff.mp hget
    obtain ⟨hmapper, hdynamic⟩ := Prod.mk.inj heq
    obtain ⟨entry, hlookup, hentry, hentry'⟩ := GraphBuilder.lookup_component hother
      (horder.components.mem_iff.mp (List.mem_of_getElem? hcomponent))
    refine ⟨component.1, entry, ?_, hlookup, hentry.trans hmapper, hentry'.trans hdynamic⟩
    rw [GraphBuilder.keys, List.getElem?_map, hcomponent]
    rfl

/-- A source `S` with a component `c`, and a rule with these watch entries. -/
def exampleCalls (watch : List Bytes) : List Registration :=
  [.source ⟨[83], [⟨[99], [], [], false⟩]⟩, .rule ⟨[114], watch, 1⟩]

/-- What they leave when every entry resolves. -/
def exampleRegistered (watchList : List ForwardKey) : GraphBuilder where
  namespaceId := []
  moduleRef := []
  sources := [⟨[83], 0, [([99], 0)]⟩]
  components := [(⟨0, 0⟩, ⟨0, [], [], false⟩)]
  rules := [(0, ⟨[114], 1, watchList⟩)]
  nextEntityId := 1
  nextComponentId := 1
  nextRuleId := 1

/-- The entry `S::c`, and one that goes on after it. -/
theorem indices_inverse_example :
    (GraphBuilder.init [] []).registerAll (exampleCalls [[83, 58, 58, 99], [83, 58, 58, 99, 58, 58], [83]]) =
        some (exampleRegistered [⟨0, 0⟩, ⟨0, 0⟩]) ∧
      (((exampleRegistered [⟨0, 0⟩, ⟨0, 0⟩]).build .empty).forward.watchers ⟨0, 0⟩).count 0 =
        (((exampleRegistered [⟨0, 0⟩, ⟨0, 0⟩]).build .empty).reverse.watch 0).count ⟨0, 0⟩ := by
  have hregister : (GraphBuilder.init [] []).registerAll
      (exampleCalls [[83, 58, 58, 99], [83, 58, 58, 99, 58, 58], [83]]) =
        some (exampleRegistered [⟨0, 0⟩, ⟨0, 0⟩]) := rfl
  exact ⟨hregister, (indices_inverse hregister ⟨rfl, rfl, .rfl, .rfl, .rfl, rfl, rfl, rfl⟩).2.1 0 ⟨0, 0⟩⟩

/-- What a cycle should dispatch: every rule that watches the entry once and no other, by priority. -/
structure FiresOnce (graph : CapabilityGraph) (key : ForwardKey) (dispatched : List Candidate) : Prop where
  once : ∀ r, (dispatched.map Candidate.ruleId).count r = if key ∈ graph.reverse.watch r then 1 else 0
  priority : ∀ candidate ∈ dispatched,
    (graph.reverse.lookup candidate.ruleId).map Reverse.priority = some candidate.priority
  sorted : dispatched.Pairwise fun a b => b.priority ≤ a.priority

/-- The components that a rule watches are those of its watch list. -/
theorem GraphBuilder.watch_of_mem {other : GraphBuilder} (h : other.Consistent) {rule : RuleId × RuleRegistry}
    (hrule : rule ∈ other.rules) : (other.build .empty).reverse.watch rule.1 = rule.2.watchList := by
  have hfind := (find?_eq_some_iff_mem (f := Prod.fst) (b := rule.1) h.ids).mpr ⟨hrule, rfl⟩
  rw [ReverseIndex.watch, GraphBuilder.lookup_reverse_build h, hfind]
  rfl

theorem GraphBuilder.exists_of_mem_watch {other : GraphBuilder} (h : other.Consistent) {r : RuleId} {key : ForwardKey}
    (hmem : key ∈ (other.build .empty).reverse.watch r) :
    ∃ rule ∈ other.rules, (other.build .empty).reverse.watch r = rule.2.watchList := by
  rw [ReverseIndex.watch, GraphBuilder.lookup_reverse_build h] at hmem ⊢
  cases hfind : other.rules.find? fun rule => rule.1 == r with
  | none =>
    rw [hfind] at hmem
    cases hmem
  | some rule => exact ⟨rule, List.mem_of_find?_eq_some hfind, rfl⟩

/-- **A rule is dispatched as often as its watch list names the entry.** -/
theorem count_cycleDispatches {other : GraphBuilder} (h : other.Consistent) {env : Environment}
    {useDurableSource : Bool} {cycle : ℕ} {run run' : Run std} {entry : DirtyEntry} {durableId : Option ℤ}
    {result : ℕ × Option ℤ} (hgraph : run.context.graph = other.build .empty)
    (hclaims : run.context.claimRegister = ∅)
    (htake : takeEntry env useDurableSource run = .ok (some (run', entry, durableId)))
    (hok : (runCycleWithSource env useDurableSource cycle run).2 = .ok result) (r : RuleId) :
    ((cycleDispatches env useDurableSource run).map Candidate.ruleId).count r =
      ((other.build .empty).reverse.watch r).count ⟨entry.entity, entry.component⟩ := by
  rw [cycleDispatches_eq hclaims htake hok, hgraph, ← GraphBuilder.count_watchers h r]
  cases hlookup : (other.build .empty).forward.lookup ⟨entry.entity, entry.component⟩ with
  | none =>
    rw [ForwardIndex.watchers, hlookup]
    rfl
  | some forwardEntry =>
    rw [GraphBuilder.watchers_of_lookup hlookup]
    exact (map_candidates_perm _ hlookup).count_eq r

/-- **When every watcher fires once**: a cycle that returns dispatches every rule that watches its entry exactly
once, by priority, iff no rule names the entry twice. -/
theorem fires_once_iff {namespaceId : NamespaceId} {moduleRef : Bytes} {calls : List Registration}
    {builder other : GraphBuilder}
    (hregister : (GraphBuilder.init namespaceId moduleRef).registerAll calls = some builder)
    (horder : builder.Reordered other) {env : Environment} {useDurableSource : Bool} {cycle : ℕ}
    {run run' : Run std} {entry : DirtyEntry} {durableId : Option ℤ} {result : ℕ × Option ℤ}
    (hgraph : run.context.graph = other.build .empty) (hclaims : run.context.claimRegister = ∅)
    (htake : takeEntry env useDurableSource run = .ok (some (run', entry, durableId)))
    (hok : (runCycleWithSource env useDurableSource cycle run).2 = .ok result) :
    FiresOnce run.context.graph ⟨entry.entity, entry.component⟩ (cycleDispatches env useDurableSource run) ↔
      ∀ rule ∈ builder.rules, rule.2.watchList.count ⟨entry.entity, entry.component⟩ ≤ 1 := by
  have hother := ((GraphBuilder.consistent_init namespaceId moduleRef).registerAll hregister).1.reordered horder
  have hdispatched := cycleDispatches_eq hclaims htake hok
  have hcount := count_cycleDispatches hother hgraph hclaims htake hok
  constructor
  · intro h rule hrule
    rw [← GraphBuilder.watch_of_mem hother (horder.rules.mem_iff.mp hrule), ← hcount rule.1, h.once rule.1]
    split_ifs <;> decide
  · intro h
    refine ⟨fun r => ?_, fun candidate hcandidate => ?_, ?_⟩
    · rw [hcount r, hgraph]
      split_ifs with hmem
      · refine le_antisymm ?_ (List.count_pos_iff.mpr hmem)
        obtain ⟨rule, hrule, hwatch⟩ := GraphBuilder.exists_of_mem_watch hother hmem
        rw [hwatch]
        exact h rule (horder.rules.mem_iff.mpr hrule)
      · exact List.count_eq_zero_of_not_mem hmem
    · rw [hdispatched] at hcandidate
      exact priority_of_mem_candidates hcandidate
    · rw [hdispatched]
      exact pairwise_candidates ..

/-! A session with the rule of `exampleCalls` and a signal of `S::c`. -/

def firingContext (graph : CapabilityGraph) : Context StdLib.fragment.wyhash where
  lwwStore := LwwRegistry.init
  dirtyQueue := ⟨4, [⟨0, 0⟩], by decide⟩
  claimRegister := ∅
  storage := none
  graph := graph
  clock := ⟨1, 5, 0⟩
  namespaceId := []
  currentEntity := 0
  currentRule := 0
  nodeId := []
  cascadeOutputs := []
  cascadeUndo := []
  cascadeError := none

def firingEnv : Environment where
  pendingFails := false
  candidatesFail _ := false
  dispatches _ := ⟨false, [], some 0⟩
  flushFails := none

theorem fires_once_example :
    let run : Run StdLib.fragment := ⟨firingContext ((exampleRegistered [⟨0, 0⟩]).build .empty), 0, []⟩
    (GraphBuilder.init [] []).registerAll (exampleCalls [[83, 58, 58, 99]]) = some (exampleRegistered [⟨0, 0⟩]) ∧
      FiresOnce run.context.graph ⟨0, 0⟩ (cycleDispatches firingEnv false run) := by
  intro run
  have hregister : (GraphBuilder.init [] []).registerAll (exampleCalls [[83, 58, 58, 99]]) =
      some (exampleRegistered [⟨0, 0⟩]) := rfl
  have htake : takeEntry firingEnv false run =
      .ok (some ({ run with context := { run.context with dirtyQueue := ⟨4, [], by decide⟩ } }, ⟨0, 0⟩, none)) :=
    rfl
  have hok : (runCycleWithSource firingEnv false 0 run).2 = .ok (1, none) := by decide +kernel
  exact ⟨hregister, (fires_once_iff hregister ⟨rfl, rfl, .rfl, .rfl, .rfl, rfl, rfl, rfl⟩ rfl rfl htake hok).mpr
    (by decide)⟩

/-- A rule that names its component twice runs twice for one signal. -/
theorem watcher_fires_twice :
    let run : Run StdLib.fragment :=
      ⟨firingContext ((exampleRegistered [⟨0, 0⟩, ⟨0, 0⟩]).build .empty), 0, []⟩
    (GraphBuilder.init [] []).registerAll (exampleCalls [[83, 58, 58, 99], [83, 58, 58, 99]]) =
        some (exampleRegistered [⟨0, 0⟩, ⟨0, 0⟩]) ∧
      run.context.claimRegister = ∅ ∧ (runCycleWithSource firingEnv false 0 run).2 = .ok (2, none) ∧
      (cycleDispatches firingEnv false run).map Candidate.ruleId = [0, 0] ∧
      ¬ FiresOnce run.context.graph ⟨0, 0⟩ (cycleDispatches firingEnv false run) := by
  intro run
  have hdispatched : (cycleDispatches firingEnv false run).map Candidate.ruleId = [0, 0] := by decide +kernel
  refine ⟨rfl, rfl, by decide +kernel, hdispatched, fun h => ?_⟩
  have honce := h.once 0
  rw [hdispatched] at honce
  split_ifs at honce <;> cases honce

end Slung
