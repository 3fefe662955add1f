import Slung.Engine.AllOrNothing

/-!
# Slung.Engine.AtomicSet — a write of a rule is done whole or not at all

`slungSetWith` is `slungSet` with a parameter in the place of `discardCascade`.  The queue has room before the
store is written, so no parameter makes a difference.  `Untouched` is what a call leaves that does not report
success and `Recorded` what it leaves when it does; `Logged` carries both through the host calls of a rule.
-/

namespace Slung

open Slung.Lib

variable {std : StdLib}

/-- A call takes four operands from the stack of the guest, and there is room for its status. -/
def SetCall.StackHasRoom (call : SetCall) : Prop := .pushOperand ∉ call.faults

/-! ## The branch that discards the cascade -/

/-- `setInCascade`, with `discard` for `discardCascade`. -/
def setInCascadeWith (discard : Context std.wyhash → Context std.wyhash) (ctx : Context std.wyhash)
    (call : SetCall) (key : Bytes) (ts : Timestamp) (value : Value) (cause : CausalTag) :
    Context std.wyhash × HostResult :=
  let previous := ctx.lwwStore.get key
  if .cloneEntry ∈ call.faults ∧ previous.isSome then (ctx, pushStatus call.faults 5)
  else match ctx.lwwStore.put (HostFault.ofPut call.faults) key ts value cause with
    | .error _ => (ctx, pushStatus call.faults 5)
    | .ok (store, memoryAccepted) =>
      let ctx := { ctx with lwwStore := store }
      if memoryAccepted then
        let mutation : Wal.FactMutation :=
          ⟨ctx.namespaceId, call.entity, call.component, call.memory, ts, cause⟩
        match ctx.accumulateMutation (HostFault.ofAccumulate call.faults) mutation previous with
        | (ctx, false) =>
          match ctx.lwwStore.rollbackPut key ts previous with
          | .ok store => ({ ctx with lwwStore := store }, pushStatus call.faults 5)
          | .error e => (ctx.recordCascadeError (.store e), pushStatus call.faults 5)
        | (ctx, true) =>
          match ctx.dirtyQueue.push ⟨call.entity, call.component⟩ with
          | some queue => ({ ctx with dirtyQueue := queue }, pushStatus call.faults 0)
          | none => ((discard ctx).recordCascadeError .queueFull, pushStatus call.faults 6)
      else (ctx, pushStatus call.faults 0)

/-- `slungSet`, with `discard` for `discardCascade`. -/
def slungSetWith (discard : Context std.wyhash → Context std.wyhash) (ctx : Context std.wyhash) (call : SetCall) :
    Context std.wyhash × HostResult :=
  if call.valueLen = 0 ∨ call.valuePtr = 0 then (ctx, pushStatus call.faults 1)
  else if .memoryRead ∈ call.faults then (ctx, pushStatus call.faults 2)
  else match if .parse ∈ call.faults then none else std.parseFromSlice call.memory with
    | none => (ctx, pushStatus call.faults 3)
    | some parsed =>
      match ctx.clock.sendWithWall call.wallNow with
      | none => (ctx, .panic)
      | some (ts, clock) =>
        let ctx := { ctx with clock := clock }
        let cause : CausalTag := ⟨ctx.currentRule, call.entity, ctx.nodeId⟩
        match bufPrintKey ctx.namespaceId call.entity call.component with
        | none => (ctx, pushStatus call.faults 4)
        | some key =>
          match hydrate ctx call key with
          | .error e => (ctx, .err e)
          | .ok ctx =>
            if ctx.dirtyQueue.isFull then
              (ctx.recordCascadeError .queueFull, pushStatus call.faults 6)
            else
              let value := cachedValue parsed call.memory
              if ctx.storage.isSome then setInCascadeWith discard ctx call key ts value cause
              else setInMemory ctx call key ts value cause

theorem slungSetWith_discardCascade (ctx : Context std.wyhash) (call : SetCall) :
    slungSetWith Context.discardCascade ctx call = slungSet ctx call := rfl

/-- With room in the queue, the signal is sent. -/
theorem setInCascadeWith_eq {ctx : Context std.wyhash} (hroom : ctx.dirtyQueue.isFull = false)
    (discard : Context std.wyhash → Context std.wyhash) (call : SetCall) (key : Bytes) (ts : Timestamp)
    (value : Value) (cause : CausalTag) :
    setInCascadeWith discard ctx call key ts value cause = setInCascade ctx call key ts value cause := by
  unfold setInCascadeWith setInCascade
  by_cases hclone : .cloneEntry ∈ call.faults ∧ (ctx.lwwStore.get key).isSome = true
  · rw [if_pos hclone, if_pos hclone]
  rw [if_neg hclone, if_neg hclone]
  cases ctx.lwwStore.put (HostFault.ofPut call.faults) key ts value cause with
  | error e => rfl
  | ok stored =>
    obtain ⟨store, accepted⟩ := stored
    cases accepted with
    | false => rfl
    | true =>
      rcases accumulateMutation_cases (HostFault.ofAccumulate call.faults) { ctx with lwwStore := store }
        ⟨ctx.namespaceId, call.entity, call.component, call.memory, ts, cause⟩
        (ctx.lwwStore.get key) with hacc | hacc
      · cases hroll : store.rollbackPut key ts (ctx.lwwStore.get key) with
        | ok store' => simp only [hacc, hroll]
        | error e => simp only [hacc, hroll]
      · obtain ⟨queue, hpush, -⟩ := DirtyQueue.push_isSome hroom ⟨call.entity, call.component⟩
        simp only [hacc, hpush]

/-- **The branch that discards the cascade is never reached.** -/
theorem slungSetWith_eq (discard : Context std.wyhash → Context std.wyhash) (ctx : Context std.wyhash)
    (call : SetCall) : slungSetWith discard ctx call = slungSet ctx call := by
  unfold slungSetWith slungSet
  by_cases hargs : call.valueLen = 0 ∨ call.valuePtr = 0
  · rw [if_pos hargs, if_pos hargs]
  rw [if_neg hargs, if_neg hargs]
  by_cases hread : .memoryRead ∈ call.faults
  · rw [if_pos hread, if_pos hread]
  rw [if_neg hread, if_neg hread]
  cases if .parse ∈ call.faults then none else std.parseFromSlice call.memory with
  | none => rfl
  | some parsed =>
    cases ctx.clock.sendWithWall call.wallNow with
    | none => rfl
    | some event =>
      obtain ⟨ts, clock⟩ := event
      cases hkey : bufPrintKey ctx.namespaceId call.entity call.component with
      | none => simp only [hkey]
      | some key =>
        cases hhydrate : hydrate { ctx with clock := clock } call key with
        | error e => simp only [hkey, hhydrate]
        | ok ctx₁ =>
          simp only [hkey, hhydrate]
          cases hroom : ctx₁.dirtyQueue.isFull with
          | true => rfl
          | false => simp only [Bool.false_eq_true, if_false, setInCascadeWith_eq hroom]

/-! ## What a call leaves -/

/-- What was there before the call. -/
structure Untouched (ctx ctx' : Context std.wyhash) : Prop where
  observed : ∀ entity component, ctx'.observed entity component = ctx.observed entity component
  dirtyQueue : ctx'.dirtyQueue = ctx.dirtyQueue
  cascadeOutputs : ctx'.cascadeOutputs = ctx.cascadeOutputs
  cascadeUndo : ctx'.cascadeUndo = ctx.cascadeUndo

/-- One write over `previous`, with one output, one undo record and one dirty entry. -/
structure Recorded (ctx ctx' : Context std.wyhash) (call : SetCall) (key : Bytes) (value : Value)
    (previous : Option LwwRegistry.Entry) : Prop where
  printed : bufPrintKey ctx.namespaceId call.entity call.component = some key
  parsed : (std.parseFromSlice call.memory).map (cachedValue · call.memory) = some value
  stamp : ctx.clock.now < ctx'.clock.now
  snapshot : previous.map (fun entry => (entry.value, entry.hlc)) = ctx.observed call.entity call.component
  kept : ∀ entry, ctx.lwwStore.get key = some entry → previous = some entry
  earlier : ∀ entry, previous = some entry → entry.hlc < ctx'.clock.now
  accepted : ctx'.lwwStore.get key = some ⟨ctx'.clock.now, value, ⟨ctx.currentRule, call.entity, ctx.nodeId⟩⟩
  others : ∀ key', key' ≠ key → ctx'.lwwStore.get key' = ctx.lwwStore.get key'
  output : ctx'.cascadeOutputs = ctx.cascadeOutputs ++ [⟨ctx.namespaceId, call.entity, call.component,
    call.memory, ctx'.clock.now, ⟨ctx.currentRule, call.entity, ctx.nodeId⟩⟩]
  undo : ctx'.cascadeUndo = ctx.cascadeUndo ++ [⟨key, ctx'.clock.now, previous⟩]
  signal : ctx'.dirtyQueue.entries = ctx.dirtyQueue.entries ++ [⟨call.entity, call.component⟩]

/-- Outputs and undo records match one to one, and what is left in the queue are the signals of the last outputs. -/
structure Lockstep (ctx : Context std.wyhash) : Prop where
  undo : ctx.cascadeUndo.map (fun u => (u.key, u.stamp)) =
    ctx.cascadeOutputs.map fun m => (formatKey m.namespaceId m.entity m.component, m.timestamp)
  queue : ctx.dirtyQueue.entries <:+ ctx.cascadeOutputs.map signal

variable {ctx ctx' : Context std.wyhash} {live : Wal.Live} {call : SetCall} {key : Bytes} {result : HostResult}

theorem Untouched.lockstep (h : Untouched ctx ctx') (hl : Lockstep ctx) : Lockstep ctx' where
  undo := by
    rw [h.cascadeUndo, h.cascadeOutputs]
    exact hl.undo
  queue := by
    rw [h.dirtyQueue, h.cascadeOutputs]
    exact hl.queue

theorem Recorded.lockstep {value : Value} {previous : Option LwwRegistry.Entry}
    (h : Recorded ctx ctx' call key value previous) (hl : Lockstep ctx) : Lockstep ctx' where
  undo := by
    rw [h.undo, h.output, List.map_append, List.map_append, hl.undo, bufPrint_eq h.printed]
    rfl
  queue := by
    rw [h.signal, h.output, List.map_append]
    obtain ⟨earlier, heq⟩ := hl.queue
    refine ⟨earlier, ?_⟩
    rw [← heq, ← List.append_assoc]
    rfl

/-! ## Bringing a key in -/

/-- What bringing a key in leaves. -/
structure BroughtIn (live : Wal.Live) (ctx ctx' : Context std.wyhash) (call : SetCall) (key : Bytes) : Prop where
  context : ctx' = { ctx with lwwStore := ctx'.lwwStore }
  hydrated : Hydrated ctx live ctx'.lwwStore.entries
  kept : ∀ entry, ctx.lwwStore.get key = some entry → ctx'.lwwStore.get key = some entry
  others : ∀ key', key' ≠ key → ctx'.lwwStore.get key' = ctx.lwwStore.get key'
  present : (ctx'.lwwStore.get key).map (fun entry => (entry.value, entry.hlc)) =
    ctx.observed call.entity call.component
  origin : ∀ key' entry, ctx'.lwwStore.get key' = some entry → ctx.lwwStore.get key' = some entry ∨
    ∃ fact, Wal.getFact live ctx.namespaceId call.entity call.component = some fact ∧ entry.hlc = fact.timestamp

theorem hydrate_broughtIn (hstorage : ctx.storage = some live)
    (hkey : bufPrintKey ctx.namespaceId call.entity call.component = some key)
    (h : hydrate ctx call key = .ok ctx') : BroughtIn live ctx ctx' call key := by
  rcases hydrate_cases h with ⟨rfl, hread⟩ | ⟨fact, store, habsent, hfact, hentries, rfl⟩
  · refine ⟨rfl, fun _ => Or.inl rfl, fun _ => id, fun _ _ => rfl, ?_, fun _ _ => Or.inl⟩
    rw [Context.observed, hkey, Option.bind_some]
    cases hget : ctx'.lwwStore.get key with
    | some entry => rfl
    | none => rw [hread (by rw [← LwwRegistry.get_eq]; exact hget)]; rfl
  have hlive : Wal.getFact live ctx.namespaceId call.entity call.component = some fact := by
    rw [Context.loadFact, hstorage] at hfact
    exact hfact
  refine ⟨rfl, fun key' => ?_, fun entry hget => ?_, fun key' hne => ?_, ?_, fun key' entry hget => ?_⟩
  · rw [hentries, FMap.lookup_insert_eq]
    by_cases heq : key' = key
    · subst heq
      exact Or.inr ⟨habsent, call.entity, call.component, fact, _, bufPrint_eq hkey, hlive, if_pos rfl, rfl, rfl⟩
    · exact Or.inl (if_neg heq)
  · rw [LwwRegistry.get_eq, habsent] at hget
    cases hget
  · rw [LwwRegistry.get_eq, LwwRegistry.get_eq, hentries, FMap.lookup_insert_eq, if_neg hne]
  · rw [LwwRegistry.get_eq, hentries, FMap.lookup_insert_eq, if_pos rfl, Context.observed, hkey, Option.bind_some,
      LwwRegistry.get_eq, habsent, hfact]
    rfl
  · rw [LwwRegistry.get_eq, hentries, FMap.lookup_insert_eq] at hget
    by_cases heq : key' = key
    · rw [if_pos heq] at hget
      obtain rfl := Option.some.inj hget
      exact Or.inr ⟨fact, hlive, rfl⟩
    · rw [if_neg heq, ← LwwRegistry.get_eq] at hget
      exact Or.inl hget

theorem BroughtIn.le {t : Timestamp} (h : BroughtIn live ctx ctx' call key)
    (hstore : ∀ key entry, ctx.lwwStore.get key = some entry → entry.hlc ≤ t)
    (hfacts : ∀ entity component fact, Wal.getFact live ctx.namespaceId entity component = some fact →
      fact.timestamp ≤ t) {key' : Bytes} {entry : LwwRegistry.Entry}
    (hget : ctx'.lwwStore.get key' = some entry) : entry.hlc ≤ t := by
  rcases h.origin key' entry hget with hsame | ⟨fact, hfact, heq⟩
  · exact hstore key' entry hsame
  · rw [heq]
    exact hfacts _ _ fact hfact

/-! ## The call -/

theorem Untouched.of_hydrated (hstorage : ctx.storage = some live) (hstorage' : ctx'.storage = ctx.storage)
    (hns : ctx'.namespaceId = ctx.namespaceId) (h : Hydrated ctx live ctx'.lwwStore.entries)
    (hqueue : ctx'.dirtyQueue = ctx.dirtyQueue) (houtputs : ctx'.cascadeOutputs = ctx.cascadeOutputs)
    (hundo : ctx'.cascadeUndo = ctx.cascadeUndo) : Untouched ctx ctx' :=
  ⟨observed_eq_of_hydrated h hstorage (hstorage'.trans hstorage) hns, hqueue, houtputs, hundo⟩

theorem pushStatus_ne_zero {n : ℕ} (hn : n ≠ 0) (faults : List HostFault) : pushStatus faults n ≠ .status 0 :=
  fun h => hn (eq_of_pushStatus h)

/-- A call records its write and asks for status 0, or it leaves what was there and reports no success. -/
theorem slungSet_ends (hstorage : ctx.storage = some live) (hclock : ctx.UpToDate live)
    (h : slungSet ctx call = (ctx', result)) :
    (Untouched ctx ctx' ∧ result ≠ .status 0) ∨
      (result = pushStatus call.faults 0 ∧ ∃ key value previous, Recorded ctx ctx' call key value previous) := by
  have hsame : ∀ clock, Untouched ctx { ctx with clock := clock } := fun _ => ⟨fun _ _ => rfl, rfl, rfl, rfl⟩
  cases slungSet_cases h with
  | refused hn => exact Or.inl ⟨hsame _, pushStatus_ne_zero hn _⟩
  | stopped => exact Or.inl ⟨hsame _, nofun⟩
  | unnamed => exact Or.inl ⟨hsame _, pushStatus_ne_zero (by decide) _⟩
  | unhydrated => exact Or.inl ⟨hsame _, nofun⟩
  | @full clock key ctx₁ hlt hkey hhydrate =>
    have hin : BroughtIn live { ctx with clock := clock } ctx₁ call key :=
      hydrate_broughtIn hstorage hkey hhydrate
    left
    refine ⟨Untouched.of_hydrated hstorage ?_ ?_ hin.hydrated ?_ ?_ ?_, pushStatus_ne_zero (by decide) _⟩
    all_goals
      simp only [Context.recordCascadeError]
      rw [hin.context]
  | @writes clock key value ctx₁ _ _ hlt hkey hvalue hhydrate hroom hwrite =>
    have hin : BroughtIn live { ctx with clock := clock } ctx₁ call key :=
      hydrate_broughtIn hstorage hkey hhydrate
    have hnewer : ∀ entry, ctx₁.lwwStore.get key = some entry → entry.hlc < clock.now := fun entry hget =>
      (hin.le hclock.store hclock.facts hget).trans_lt hlt
    have hkey₁ : bufPrintKey ctx₁.namespaceId call.entity call.component = some key := by
      rw [hin.context]
      exact hkey
    rw [if_pos (by rw [hin.context]; exact Option.isSome_iff_exists.mpr ⟨live, hstorage⟩)] at hwrite
    have hends := setInCascade_cases (fun entry hl => hnewer entry ((LwwRegistry.get_eq _ _).trans hl)) hkey₁ hroom
      hwrite
    obtain ⟨store₁, rfl⟩ : ∃ store, ctx₁ = { ctx with clock := clock, lwwStore := store } := ⟨_, hin.context⟩
    rcases hends with ⟨store, hentries, rfl, rfl⟩ | ⟨store, queue, hentries, hqueue, rfl, rfl⟩
    · left
      refine ⟨Untouched.of_hydrated hstorage rfl rfl ?_ rfl rfl rfl, pushStatus_ne_zero (by decide) _⟩
      simp only [hentries]
      exact hin.hydrated
    · refine Or.inr ⟨rfl, key, value, store₁.get key, ?_⟩
      refine ⟨hkey, hvalue, hlt, hin.present, hin.kept, hnewer, ?_, fun key' hne => ?_, rfl, ?_, hqueue⟩
      · rw [LwwRegistry.get_eq, hentries, FMap.lookup_insert_eq, if_pos rfl]
      · rw [← hin.others key' hne]
        simp only [LwwRegistry.get_eq, hentries, FMap.lookup_insert_eq, if_neg hne]
      · rw [LwwRegistry.get_eq]

/-- **`slungSet` is atomic**: no call discards the cascade, a call that reports a failure or ends with an error
leaves what was there, a call that reports success has recorded exactly one write, and the three sequences stay in
lockstep. -/
theorem slungSet_atomic (hstorage : ctx.storage = some live) (hclock : ctx.UpToDate live) (hroom : call.StackHasRoom)
    (h : slungSet ctx call = (ctx', result)) :
    (∀ discard, slungSetWith discard ctx call = (ctx', result)) ∧
      (result ≠ .status 0 → Untouched ctx ctx') ∧
      (result = .status 0 → ∃ key value previous, Recorded ctx ctx' call key value previous) ∧
      (Lockstep ctx → Lockstep ctx') := by
  have hdone : pushStatus call.faults 0 = .status 0 := if_neg hroom
  refine ⟨fun discard => (slungSetWith_eq discard ctx call).trans h, fun hresult => ?_, fun hresult => ?_, ?_⟩
  · rcases slungSet_ends hstorage hclock h with ⟨huntouched, -⟩ | ⟨rfl, -⟩
    · exact huntouched
    · exact absurd hdone hresult
  · rcases slungSet_ends hstorage hclock h with ⟨-, hfailed⟩ | ⟨-, hrecorded⟩
    · exact absurd hresult hfailed
    · exact hrecorded
  · rcases slungSet_ends hstorage hclock h with ⟨huntouched, -⟩ | ⟨-, _, _, _, hrecorded⟩
    · exact huntouched.lockstep
    · exact hrecorded.lockstep

/-- A write of the component that `exampleLive` has a fact for. -/
def exampleUpdate (faults : List HostFault) : SetCall := ⟨1, 2, 8, 1, [48], 9, faults⟩

/-- The fact of storage is brought in, and then an allocation of `accumulateMutation` fails, or none does. -/
theorem slungSet_atomic_example :
    let ctx := exampleContext ⟨1, 5, 0⟩
    (∃ ctx', slungSet ctx (exampleUpdate [.accumulate .undo]) = (ctx', .status 5) ∧ Untouched ctx ctx') ∧
      ∃ ctx', slungSet ctx (exampleUpdate []) = (ctx', .status 0) ∧
        ∃ key value previous, Recorded ctx ctx' (exampleUpdate []) key value previous := by
  have hclock : (exampleContext ⟨1, 5, 0⟩).UpToDate exampleLive := exampleContext_upToDate (by decide)
  have hfailed : (slungSet (exampleContext ⟨1, 5, 0⟩) (exampleUpdate [.accumulate .undo])).2 = .status 5 := by
    decide +kernel
  have hdone : (slungSet (exampleContext ⟨1, 5, 0⟩) (exampleUpdate [])).2 = .status 0 := by decide +kernel
  refine ⟨⟨_, Prod.ext rfl hfailed, ?_⟩, ⟨_, Prod.ext rfl hdone, ?_⟩⟩
  · have hroom : (exampleUpdate [.accumulate .undo]).StackHasRoom := by simp [SetCall.StackHasRoom, exampleUpdate]
    exact (slungSet_atomic rfl hclock hroom (Prod.ext rfl hfailed)).2.1 nofun
  · have hroom : (exampleUpdate []).StackHasRoom := List.not_mem_nil
    exact (slungSet_atomic rfl hclock hroom (Prod.ext rfl hdone)).2.2.1 rfl

/-! ## The calls of a rule -/

/-- Taking an entry to dispatch it. -/
theorem Lockstep.pop {entry : DirtyEntry} {queue : DirtyQueue} (h : Lockstep ctx)
    (hpop : ctx.dirtyQueue.pop = some (entry, queue)) : Lockstep { ctx with dirtyQueue := queue } where
  undo := h.undo
  queue := by
    have hqueue := h.queue
    rw [DirtyQueue.pop_some hpop] at hqueue
    exact (List.suffix_cons _ _).trans hqueue

variable {ctx₀ : Context std.wyhash} {claims : ClaimRegister} {run run' : Run std} {stop : Option Stop}

theorem hostCall_lockstep (h : InRun ctx₀ live claims run) (hl : Lockstep run.context) {call : HostCall}
    (hc : hostCall run call = (run', stop)) : Lockstep run'.context := by
  cases call with
  | get entity component faults =>
    simp only [hostCall] at hc
    split at hc <;> obtain ⟨rfl, -⟩ := Prod.mk.inj hc <;> exact hl
  | set call =>
    simp only [hostCall] at hc
    cases hset : slungSet run.context call with
    | mk context result =>
      have hlockstep : Lockstep context := by
        rcases slungSet_ends h.storage h.upToDate hset with ⟨huntouched, -⟩ | ⟨-, _, _, _, hrecorded⟩
        · exact huntouched.lockstep hl
        · exact hrecorded.lockstep hl
      rw [hset] at hc
      cases result <;> obtain ⟨rfl, -⟩ := Prod.mk.inj hc <;> exact hlockstep
  | now wallNow =>
    simp only [hostCall] at hc
    split at hc <;> obtain ⟨rfl, -⟩ := Prod.mk.inj hc <;> exact ⟨hl.undo, hl.queue⟩

/-- **The three sequences stay in lockstep through the host calls of a rule**, wherever these fail. -/
theorem hostCalls_lockstep (h : InRun ctx₀ live claims run) (hw : Written run) (hl : Lockstep run.context)
    {calls : List HostCall} (hc : hostCalls run calls = (run', stop)) : Lockstep run'.context := by
  induction calls generalizing run with
  | nil =>
    obtain ⟨rfl, rfl⟩ := Prod.mk.inj hc
    exact hl
  | cons call calls ih =>
    cases hcall : hostCall run call with
    | mk run₁ stop₁ =>
      have hcalled := hostCall_spec h hw hcall
      have hl₁ := hostCall_lockstep h hl hcall
      simp only [hostCalls, hcall] at hc
      cases stop₁ with
      | none => exact ih hcalled.cascade (hcalled.written rfl) hl₁ hc
      | some reason =>
        obtain ⟨rfl, rfl⟩ := Prod.mk.inj hc
        exact hl₁

end Slung
