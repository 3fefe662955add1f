import Slung.Engine.Loop

/-!
# Slung.Engine.Cascade — an inference run is all or nothing

Between two host calls of a run the undo log unwinds the store to the store at the start, up to keys that
were brought in from storage (`Hydrated`), which read the same either way; every signal in the queue belongs
to an output; and no timestamp is after the clock, so that every write is accepted and later writes win.
`InCascade` says this, every host call keeps it, and it gives both endings of `run_all_or_nothing_iff`.
-/

namespace Slung

open Slung.Lib

variable {std : StdLib}

/-! ## What a reader sees -/

namespace Context

variable {hash : Bytes → ℕ}

/-- The value and timestamp behind a component. -/
def observed (ctx : Context hash) (entity : EntityId) (component : ComponentId) : Option (Value × Timestamp) :=
  (bufPrintKey ctx.namespaceId entity component).bind fun key =>
    match ctx.lwwStore.get key with
    | some entry => some (entry.value, entry.hlc)
    | none => (ctx.loadFact entity component).map fun fact => (.bytes fact.value, fact.timestamp)

/-- Nothing is left over from a run. -/
structure Idle (ctx : Context hash) : Prop where
  queue : ctx.dirtyQueue.entries = []
  outputs : ctx.cascadeOutputs = []
  undo : ctx.cascadeUndo = []
  claims : ctx.claimRegister = ∅

end Context

/-- A read without a fault gives the guest what is observed. -/
theorem slungGet_observed (ctx : Context std.wyhash) (entity : EntityId) (component : ComponentId) :
    slungGet std ctx entity component [] = match ctx.observed entity component with
      | none => (.status 1, none)
      | some (value, _) => (.status 0, some (renderValue std value)) := by
  unfold slungGet Context.observed
  cases bufPrintKey ctx.namespaceId entity component with
  | none => rfl
  | some key =>
    simp only [Option.bind_some]
    cases ctx.lwwStore.get key with
    | some entry => simp [pushStatus]
    | none => cases ctx.loadFact entity component <;> simp [pushStatus]

/-! ## Writes -/

/-- The write that a mutation records. -/
def Write.of (m : Wal.FactMutation) : Write := ⟨m.entity, m.component, m.value, m.timestamp⟩

/-- The last write of a component. -/
def lastWrite (writes : List Write) (entity : EntityId) (component : ComponentId) : Option Write :=
  (writes.filter fun w => w.entity = entity ∧ w.component = component).getLast?

theorem lastWrite_concat (writes : List Write) (w : Write) (entity : EntityId) (component : ComponentId) :
    lastWrite (writes ++ [w]) entity component =
      if w.entity = entity ∧ w.component = component then some w else lastWrite writes entity component := by
  rw [lastWrite, List.filter_append]
  by_cases h : w.entity = entity ∧ w.component = component
  · rw [if_pos h, List.filter_cons_of_pos (by simpa using h), List.filter_nil, List.getLast?_concat]
  · rw [if_neg h, List.filter_cons_of_neg (by simpa using h), List.filter_nil, List.append_nil, lastWrite]

/-- The store has the value that a write caches. -/
def Cached (ctx : Context std.wyhash) (write : Write) : Prop :=
  ∃ key entry, bufPrintKey ctx.namespaceId write.entity write.component = some key ∧
    ctx.lwwStore.get key = some entry ∧
    (std.parseFromSlice write.value).map (cachedValue · write.value) = some entry.value

/-! ## The invariant -/

/-- `base` is the store at the start with some facts of storage brought in. -/
def Hydrated (ctx₀ : Context std.wyhash) (live : Wal.Live) (base : FMap Bytes LwwRegistry.Entry) : Prop :=
  ∀ key, base.lookup key = ctx₀.lwwStore.entries.lookup key ∨
    (ctx₀.lwwStore.entries.lookup key = none ∧ ∃ entity component fact entry,
      key = formatKey ctx₀.namespaceId entity component ∧
        Wal.getFact live ctx₀.namespaceId entity component = some fact ∧ base.lookup key = some entry ∧
        entry.value = .bytes fact.value ∧ entry.hlc = fact.timestamp)

/-- The signal that a mutation sends. -/
def signal (m : Wal.FactMutation) : DirtyEntry := ⟨m.entity, m.component⟩

/-- The state of a cascade that started in `ctx₀` over `live`, with no timestamp after `t`. -/
structure InCascade (ctx₀ : Context std.wyhash) (live : Wal.Live) (claims : ClaimRegister) (t : Timestamp)
    (ctx : Context std.wyhash) : Prop where
  storage : ctx.storage = some live
  namespaceId : ctx.namespaceId = ctx₀.namespaceId
  claims : ctx.claimRegister = claims
  unwinds : ∃ base, unwind LwwRegistry.Entry.hlc ctx.lwwStore.entries ctx.cascadeUndo = some base ∧
    Hydrated ctx₀ live base
  logged : ∀ u ∈ ctx.cascadeUndo, (ctx.lwwStore.entries.lookup u.key).isSome
  paired : ctx.cascadeUndo.map (fun u => (u.key, u.stamp)) =
    ctx.cascadeOutputs.map fun m => (formatKey m.namespaceId m.entity m.component, m.timestamp)
  signals : ∀ e, ctx.dirtyQueue.entries.count e ≤ (ctx.cascadeOutputs.map signal).count e
  started : ctx₀.clock.now ≤ t
  stored : ∀ key entry, ctx.lwwStore.entries.lookup key = some entry → entry.hlc ≤ t
  facts : ∀ entity component fact,
    Wal.getFact live ctx₀.namespaceId entity component = some fact → fact.timestamp ≤ ctx₀.clock.now
  own : ∀ m ∈ ctx.cascadeOutputs, m.namespaceId = ctx₀.namespaceId
  recent : ∀ m ∈ ctx.cascadeOutputs, ctx₀.clock.now < m.timestamp ∧ m.timestamp ≤ t
  ordered : (ctx.cascadeOutputs.map Wal.FactMutation.timestamp).Pairwise (· < ·)
  cached : ∀ entity component w,
    lastWrite (ctx.cascadeOutputs.map Write.of) entity component = some w → Cached ctx w

/-! ## Taking a cascade back -/

section

variable {hash : Bytes → ℕ}

/-- Rolling back a log that unwinds meets no error. -/
theorem foldr_rollbackOne {undo : List LwwRegistry.Undo} {base : FMap Bytes LwwRegistry.Entry}
    (store : LwwRegistry hash) (error : Option RunError)
    (h : unwind LwwRegistry.Entry.hlc store.entries undo = some base) :
    (undo.foldr Context.rollbackOne (store, error)).1.entries = base ∧
      (undo.foldr Context.rollbackOne (store, error)).2 = error := by
  induction undo generalizing base with
  | nil => exact ⟨Option.some.inj h, rfl⟩
  | cons u undo ih =>
    rw [unwind_cons] at h
    obtain ⟨b, hb, htake⟩ := Option.bind_eq_some_iff.mp h
    obtain ⟨hentries, herror⟩ := ih hb
    rw [List.foldr_cons]
    generalize undo.foldr Context.rollbackOne (store, error) = acc at hentries herror
    have hroll := LwwRegistry.rollbackPut_entries acc.1 u
    rw [hentries, htake] at hroll
    unfold Context.rollbackOne
    cases hput : acc.1.rollbackPut u.key u.stamp u.previous with
    | error e =>
      rw [hput] at hroll
      cases hroll
    | ok store' =>
      rw [hput] at hroll
      exact ⟨Option.some.inj hroll, herror⟩

theorem count_foldl_removeLast (outputs : List Wal.FactMutation) (queue : DirtyQueue) (e : DirtyEntry) :
    (outputs.foldl (fun queue m => (queue.removeLast ⟨m.entity, m.component⟩).1) queue).entries.count e =
      queue.entries.count e - (outputs.map signal).count e := by
  induction outputs generalizing queue with
  | nil => rfl
  | cons m outputs ih =>
    rw [List.foldl_cons, ih, DirtyQueue.count_removeLast, List.map_cons, List.count_cons]
    simp only [signal, beq_iff_eq]
    omega

end

namespace InCascade

variable {ctx₀ ctx : Context std.wyhash} {live : Wal.Live} {claims : ClaimRegister} {t t' : Timestamp}

theorem mono (h : InCascade ctx₀ live claims t ctx) (ht : t ≤ t') : InCascade ctx₀ live claims t' ctx :=
  { h with
    started := h.started.trans ht
    stored := fun key entry hl => (h.stored key entry hl).trans ht
    recent := fun m hm => ⟨(h.recent m hm).1, (h.recent m hm).2.trans ht⟩ }

/-- What `discardCascade` leaves. -/
theorem discarded (h : InCascade ctx₀ live claims t ctx) :
    Hydrated ctx₀ live ctx.discardCascade.lwwStore.entries ∧ ctx.discardCascade.dirtyQueue.entries = [] ∧
      ctx.discardCascade.cascadeOutputs = [] ∧ ctx.discardCascade.cascadeUndo = [] ∧
      ctx.discardCascade.claimRegister = claims ∧ ctx.discardCascade.storage = some live ∧
      ctx.discardCascade.namespaceId = ctx₀.namespaceId := by
  obtain ⟨base, hbase, hhydrated⟩ := h.unwinds
  obtain ⟨hentries, -⟩ := foldr_rollbackOne ctx.lwwStore ctx.cascadeError hbase
  refine ⟨?_, ?_, rfl, rfl, h.claims, h.storage, h.namespaceId⟩
  · change Hydrated ctx₀ live
      (ctx.cascadeUndo.foldr Context.rollbackOne (ctx.lwwStore, ctx.cascadeError)).1.entries
    rw [hentries]
    exact hhydrated
  · change (ctx.cascadeOutputs.foldl (fun queue m => (queue.removeLast ⟨m.entity, m.component⟩).1)
      ctx.dirtyQueue).entries = []
    refine List.eq_nil_iff_forall_not_mem.mpr fun e he => ?_
    have hcount := count_foldl_removeLast ctx.cascadeOutputs ctx.dirtyQueue e
    have hsignals := h.signals e
    have hpos := List.count_pos_iff.mpr he
    omega

end InCascade

/-- A hydrated store reads as the store at the start. -/
theorem observed_eq_of_hydrated {ctx₀ ctx : Context std.wyhash} {live : Wal.Live}
    (h : Hydrated ctx₀ live ctx.lwwStore.entries) (hstorage₀ : ctx₀.storage = some live)
    (hstorage : ctx.storage = some live) (hns : ctx.namespaceId = ctx₀.namespaceId) (entity : EntityId)
    (component : ComponentId) : ctx.observed entity component = ctx₀.observed entity component := by
  have hload : ctx.loadFact entity component = ctx₀.loadFact entity component := by
    simp only [Context.loadFact, hstorage, hstorage₀, hns]
  unfold Context.observed
  rw [hns, hload]
  cases hkey : bufPrintKey ctx₀.namespaceId entity component with
  | none => rfl
  | some key =>
    simp only [Option.bind_some, LwwRegistry.get_eq]
    rcases h key with heq | ⟨hnone, entity', component', fact, entry, hkey', hfact, hentry, hvalue, hhlc⟩
    · rw [heq]
    · obtain ⟨rfl, rfl⟩ := formatKey_inj ((bufPrint_eq hkey).symm.trans hkey')
      have hload₀ : ctx₀.loadFact entity component = some fact := by
        simp only [Context.loadFact, hstorage₀, Option.bind_some, hfact]
      rw [hnone, hentry]
      simp only [hload₀, Option.map_some, hvalue, hhlc]

/-! ## Host calls -/

theorem pushStatus_cases (faults : List HostFault) (n : ℕ) :
    pushStatus faults n = .status n ∨ pushStatus faults n = .err .guest := by
  unfold pushStatus
  by_cases h : .pushOperand ∈ faults
  · rw [if_pos h]
    exact Or.inr rfl
  · rw [if_neg h]
    exact Or.inl rfl

theorem eq_of_pushStatus {faults : List HostFault} {n n' : ℕ} (h : pushStatus faults n = .status n') :
    n = n' := by
  rcases pushStatus_cases faults n with heq | heq
  · exact HostResult.status.inj (heq.symm.trans h)
  · rw [heq] at h
    cases h

/-- A mutation is recorded with its snapshot, or not at all. -/
theorem accumulateMutation_cases {hash : Bytes → ℕ} (fault : Option AccumulateAlloc) (ctx : Context hash)
    (m : Wal.FactMutation) (previous : Option LwwRegistry.Entry) :
    ctx.accumulateMutation fault m previous = (ctx, false) ∨
      ctx.accumulateMutation fault m previous = ({ ctx with
        cascadeOutputs := ctx.cascadeOutputs ++ [m]
        cascadeUndo := ctx.cascadeUndo ++
          [⟨formatKey m.namespaceId m.entity m.component, m.timestamp, previous⟩] }, true) := by
  unfold Context.accumulateMutation
  by_cases hfirst : fault ∈ [some .namespaceId, some .value, some .causeNode, some .output]
  · rw [if_pos hfirst]
    exact Or.inl rfl
  rw [if_neg hfirst]
  by_cases hsecond : fault ∈ [some .key, some .undo]
  · left
    simp only [if_pos hsecond, List.dropLast_concat]
  · right
    simp only [if_neg hsecond]

theorem pushStatus_ne_panic (faults : List HostFault) (n : ℕ) : pushStatus faults n ≠ .panic := by
  rcases pushStatus_cases faults n with heq | heq <;> rw [heq] <;> exact nofun

/-- Reading does not stop the process. -/
theorem slungGet_ne_panic (ctx : Context std.wyhash) (entity : EntityId) (component : ComponentId)
    (faults : List HostFault) : (slungGet std ctx entity component faults).1 ≠ .panic := by
  have hite : ∀ {p : Prop} [Decidable p] {a b : HostResult × Option Bytes}, a.1 ≠ .panic → b.1 ≠ .panic →
      (if p then a else b).1 ≠ .panic := by
    intro p _ a b ha hb
    by_cases hp : p
    · rwa [if_pos hp]
    · rwa [if_neg hp]
  unfold slungGet
  cases bufPrintKey ctx.namespaceId entity component with
  | none => exact hite nofun (pushStatus_ne_panic faults 1)
  | some key =>
    refine hite nofun (hite nofun ?_)
    generalize (if Option.map (·.value) (ctx.lwwStore.get key) = none then ctx.loadFact entity component else none) =
      persisted
    dsimp only
    cases (Option.map (·.value) (ctx.lwwStore.get key)).or (persisted.map fun fact => Value.bytes fact.value) with
    | none => exact hite nofun (pushStatus_ne_panic faults 1)
    | some value =>
      refine hite nofun (hite nofun ?_)
      rcases pushStatus_cases faults 0 with heq | heq <;> rw [heq] <;> exact nofun

/-- What bringing a key in leaves: the store as it was, or with the fact of storage under a key that it did not have. -/
theorem hydrate_cases {ctx ctx' : Context std.wyhash} {call : SetCall} {key : Bytes}
    (h : hydrate ctx call key = .ok ctx') :
    ctx' = ctx ∧ (ctx.lwwStore.entries.lookup key = none → ctx.loadFact call.entity call.component = none) ∨
      ∃ fact store, ctx.lwwStore.entries.lookup key = none ∧
      ctx.loadFact call.entity call.component = some fact ∧
      store.entries = ctx.lwwStore.entries.insert key
        ⟨fact.timestamp, .bytes fact.value, ⟨fact.cause.cause, fact.cause.entity, ctx.nodeId⟩⟩ ∧
      ctx' = { ctx with lwwStore := store } := by
  unfold hydrate at h
  by_cases hmissing : ctx.storage.isSome = true ∧ ctx.lwwStore.get key = none
  swap
  · rw [if_neg hmissing] at h
    refine Or.inl ⟨(Except.ok.inj h).symm, fun habsent => ?_⟩
    rw [LwwRegistry.get_eq] at hmissing
    have hnone : ctx.storage = none := by simpa [habsent] using hmissing
    rw [Context.loadFact, hnone]
    rfl
  rw [if_pos hmissing] at h
  by_cases hf : .loadFact ∈ call.faults
  · rw [if_pos hf] at h
    cases h
  rw [if_neg hf] at h
  cases hfact : ctx.loadFact call.entity call.component with
  | none =>
    rw [hfact] at h
    exact Or.inl ⟨(Except.ok.inj h).symm, fun _ => rfl⟩
  | some fact =>
    simp only [hfact] at h
    cases hput : ctx.lwwStore.put (HostFault.ofHydrate call.faults) key fact.timestamp (.bytes fact.value)
        ⟨fact.cause.cause, fact.cause.entity, ctx.nodeId⟩ with
    | error e => rw [hput] at h; cases h
    | ok stored =>
      obtain ⟨store, accepted⟩ := stored
      rw [hput] at h
      have habsent : ctx.lwwStore.entries.lookup key = none := by rw [← LwwRegistry.get_eq]; exact hmissing.2
      obtain ⟨-, hentries⟩ := LwwRegistry.put_newer hput fun existing hex => by
        rw [habsent] at hex
        cases hex
      exact Or.inr ⟨fact, store, habsent, rfl, hentries, (Except.ok.inj h).symm⟩

/-- A write that is newer than everything in the store: taken back where something fails, or recorded with its
snapshot, its output and its signal. -/
theorem setInCascade_cases {ctx ctx' : Context std.wyhash} {call : SetCall} {key : Bytes} {ts : Timestamp}
    {value : Value} {cause : CausalTag} {result : HostResult}
    (hnew : ∀ existing, ctx.lwwStore.entries.lookup key = some existing → existing.hlc < ts)
    (hkey : bufPrintKey ctx.namespaceId call.entity call.component = some key) (hroom : ctx.dirtyQueue.isFull = false)
    (h : setInCascade ctx call key ts value cause = (ctx', result)) :
    (∃ store, store.entries = ctx.lwwStore.entries ∧ ctx' = { ctx with lwwStore := store } ∧
        result = pushStatus call.faults 5) ∨
      ∃ store queue, store.entries = ctx.lwwStore.entries.insert key ⟨ts, value, cause⟩ ∧
        queue.entries = ctx.dirtyQueue.entries ++ [⟨call.entity, call.component⟩] ∧
        ctx' = { ctx with
          lwwStore := store
          dirtyQueue := queue
          cascadeOutputs := ctx.cascadeOutputs ++
            [⟨ctx.namespaceId, call.entity, call.component, call.memory, ts, cause⟩]
          cascadeUndo := ctx.cascadeUndo ++ [⟨key, ts, ctx.lwwStore.entries.lookup key⟩] } ∧
        result = pushStatus call.faults 0 := by
  unfold setInCascade at h
  by_cases hclone : .cloneEntry ∈ call.faults ∧ (ctx.lwwStore.get key).isSome = true
  · rw [if_pos hclone] at h
    obtain ⟨rfl, rfl⟩ := Prod.mk.inj h
    exact Or.inl ⟨ctx.lwwStore, rfl, rfl, rfl⟩
  rw [if_neg hclone] at h
  cases hput : ctx.lwwStore.put (HostFault.ofPut call.faults) key ts value cause with
  | error e =>
    rw [hput] at h
    obtain ⟨rfl, rfl⟩ := Prod.mk.inj h
    exact Or.inl ⟨ctx.lwwStore, rfl, rfl, rfl⟩
  | ok stored =>
    obtain ⟨store, accepted⟩ := stored
    obtain ⟨rfl, hentries⟩ := LwwRegistry.put_newer hput hnew
    simp only [hput, if_true] at h
    rcases accumulateMutation_cases (HostFault.ofAccumulate call.faults) { ctx with lwwStore := store }
      ⟨ctx.namespaceId, call.entity, call.component, call.memory, ts, cause⟩
      (ctx.lwwStore.get key) with hacc | hacc
    · -- the write is taken back at once
      simp only [hacc] at h
      have hback := LwwRegistry.rollbackPut_entries store ⟨key, ts, ctx.lwwStore.get key⟩
      have hundo : takeBack LwwRegistry.Entry.hlc store.entries ⟨key, ts, ctx.lwwStore.get key⟩ =
          some ctx.lwwStore.entries := by
        rw [hentries, LwwRegistry.get_eq]
        exact takeBack_insert ctx.lwwStore.entries key ⟨ts, value, cause⟩
      rw [hundo] at hback
      cases hroll : store.rollbackPut key ts (ctx.lwwStore.get key) with
      | error e =>
        rw [hroll] at hback
        cases hback
      | ok store' =>
        rw [hroll] at hback h
        obtain ⟨rfl, rfl⟩ := Prod.mk.inj h
        exact Or.inl ⟨store', Option.some.inj hback, rfl, rfl⟩
    · -- the write stays, with its signal
      simp only [hacc] at h
      obtain ⟨queue, hpush, hqueue⟩ := DirtyQueue.push_isSome hroom ⟨call.entity, call.component⟩
      simp only [hpush] at h
      obtain ⟨rfl, rfl⟩ := Prod.mk.inj h
      rw [← bufPrint_eq hkey, LwwRegistry.get_eq]
      exact Or.inr ⟨store, queue, hentries, hqueue, rfl, rfl⟩

/-- How a call of `slungSet` ends. -/
inductive SetRun (ctx : Context std.wyhash) (call : SetCall) : Context std.wyhash → HostResult → Prop where
  | refused {n : ℕ} (hn : n ≠ 0) : SetRun ctx call ctx (pushStatus call.faults n)
  | stopped (hsend : ctx.clock.sendWithWall call.wallNow = none) : SetRun ctx call ctx .panic
  | unnamed {clock : Hlc} (hlt : ctx.clock.now < clock.now) :
    SetRun ctx call { ctx with clock := clock } (pushStatus call.faults 4)
  | unhydrated {clock : Hlc} {e : RunError} (hlt : ctx.clock.now < clock.now) :
    SetRun ctx call { ctx with clock := clock } (.err e)
  | full {clock : Hlc} {key : Bytes} {ctx₁ : Context std.wyhash} (hlt : ctx.clock.now < clock.now)
    (hkey : bufPrintKey ctx.namespaceId call.entity call.component = some key)
    (hhydrate : hydrate { ctx with clock := clock } call key = .ok ctx₁) :
    SetRun ctx call (ctx₁.recordCascadeError .queueFull) (pushStatus call.faults 6)
  | writes {clock : Hlc} {key : Bytes} {value : Value} {ctx₁ ctx' : Context std.wyhash} {result : HostResult}
    (hlt : ctx.clock.now < clock.now)
    (hkey : bufPrintKey ctx.namespaceId call.entity call.component = some key)
    (hvalue : (std.parseFromSlice call.memory).map (cachedValue · call.memory) = some value)
    (hhydrate : hydrate { ctx with clock := clock } call key = .ok ctx₁)
    (hroom : ctx₁.dirtyQueue.isFull = false)
    (hs : (if ctx₁.storage.isSome then
        setInCascade ctx₁ call key clock.now value ⟨ctx₁.currentRule, call.entity, ctx₁.nodeId⟩
      else setInMemory ctx₁ call key clock.now value ⟨ctx₁.currentRule, call.entity, ctx₁.nodeId⟩) =
        (ctx', result)) :
    SetRun ctx call ctx' result

theorem slungSet_cases {ctx ctx' : Context std.wyhash} {call : SetCall} {result : HostResult}
    (hs : slungSet ctx call = (ctx', result)) : SetRun ctx call ctx' result := by
  unfold slungSet at hs
  by_cases hargs : call.valueLen = 0 ∨ call.valuePtr = 0
  · rw [if_pos hargs] at hs
    obtain ⟨rfl, rfl⟩ := Prod.mk.inj hs
    exact .refused (by decide)
  rw [if_neg hargs] at hs
  by_cases hread : .memoryRead ∈ call.faults
  · rw [if_pos hread] at hs
    obtain ⟨rfl, rfl⟩ := Prod.mk.inj hs
    exact .refused (by decide)
  rw [if_neg hread] at hs
  cases hparse : if .parse ∈ call.faults then none else std.parseFromSlice call.memory with
  | none =>
    rw [hparse] at hs
    obtain ⟨rfl, rfl⟩ := Prod.mk.inj hs
    exact .refused (by decide)
  | some parsed =>
    cases hsend : ctx.clock.sendWithWall call.wallNow with
    | none =>
      simp only [hparse, hsend] at hs
      obtain ⟨rfl, rfl⟩ := Prod.mk.inj hs
      exact .stopped hsend
    | some event =>
      obtain ⟨ts, clock⟩ := event
      obtain ⟨rfl, hlt⟩ := Hlc.sendWithWall_some hsend
      simp only [hparse, hsend] at hs
      cases hkey : bufPrintKey ctx.namespaceId call.entity call.component with
      | none =>
        simp only [hkey] at hs
        obtain ⟨rfl, rfl⟩ := Prod.mk.inj hs
        exact .unnamed hlt
      | some key =>
        simp only [hkey] at hs
        cases hhydrate : hydrate { ctx with clock := clock } call key with
        | error e =>
          simp only [hhydrate] at hs
          obtain ⟨rfl, rfl⟩ := Prod.mk.inj hs
          exact .unhydrated hlt
        | ok ctx₁ =>
          simp only [hhydrate] at hs
          by_cases hfull : ctx₁.dirtyQueue.isFull = true
          · rw [if_pos hfull] at hs
            obtain ⟨rfl, rfl⟩ := Prod.mk.inj hs
            exact .full hlt hkey hhydrate
          rw [if_neg hfull] at hs
          have hsame : ctx₁.currentRule = ctx.currentRule ∧ ctx₁.nodeId = ctx.nodeId := by
            rcases hydrate_cases hhydrate with ⟨rfl, -⟩ | ⟨fact, store, -, -, -, rfl⟩ <;> exact ⟨rfl, rfl⟩
          rw [← hsame.1, ← hsame.2] at hs
          have hvalue : (std.parseFromSlice call.memory).map (cachedValue · call.memory) =
              some (cachedValue parsed call.memory) := by
            by_cases hp : .parse ∈ call.faults
            · rw [if_pos hp] at hparse
              cases hparse
            · rw [if_neg hp] at hparse
              rw [hparse]
              rfl
          exact .writes hlt hkey hvalue hhydrate (Bool.eq_false_iff.mpr hfull) hs

/-- The write that a call asks for, at a timestamp. -/
def SetCall.write (call : SetCall) (ts : Timestamp) : Write :=
  ⟨call.entity, call.component, call.memory, ts⟩

/-- A call that reports success has recorded its write, and one that reports a failure has not. -/
structure Reported (ctx ctx' : Context std.wyhash) (write : Write) (result : HostResult) : Prop where
  done : result = .status 0 →
    ctx'.cascadeOutputs.map Write.of = ctx.cascadeOutputs.map Write.of ++ [write]
  failed : ∀ n, n ≠ 0 → result = .status n → ctx'.cascadeOutputs = ctx.cascadeOutputs
  exhausted : result = .panic → ctx'.clock.Exhausted

/-- Nothing was recorded, and the call does not report success. -/
theorem Reported.of_same {ctx ctx' : Context std.wyhash} {write : Write} {faults : List HostFault} {n : ℕ}
    (hn : n ≠ 0) (h : ctx'.cascadeOutputs = ctx.cascadeOutputs) :
    Reported ctx ctx' write (pushStatus faults n) :=
  ⟨fun h0 => absurd (eq_of_pushStatus h0) hn, fun _ _ _ => h, fun hp => absurd hp (pushStatus_ne_panic _ _)⟩

/-- A store that keeps the entry keeps the cached value. -/
theorem Cached.mono {ctx : Context std.wyhash} {w : Write} (h : Cached ctx w)
    {store : LwwRegistry std.wyhash}
    (hkeep : ∀ key entry, ctx.lwwStore.entries.lookup key = some entry →
      bufPrintKey ctx.namespaceId w.entity w.component = some key → store.entries.lookup key = some entry) :
    Cached { ctx with lwwStore := store } w := by
  obtain ⟨key, entry, hkey, hentry, hvalue⟩ := h
  rw [LwwRegistry.get_eq] at hentry
  exact ⟨key, entry, hkey, by rw [LwwRegistry.get_eq]; exact hkeep key entry hentry hkey, hvalue⟩

namespace InCascade

variable {ctx₀ ctx ctx' : Context std.wyhash} {live : Wal.Live} {claims : ClaimRegister} {t ts : Timestamp}

/-- The filter of the store does not matter. -/
theorem of_entries (h : InCascade ctx₀ live claims t ctx) {store : LwwRegistry std.wyhash}
    (hentries : store.entries = ctx.lwwStore.entries) :
    InCascade ctx₀ live claims t { ctx with lwwStore := store } :=
  { h with
    unwinds := by
      simp only [hentries]
      exact h.unwinds
    logged := by
      simp only [hentries]
      exact h.logged
    stored := by
      simp only [hentries]
      exact h.stored
    cached := fun entity component w hw => (h.cached entity component w hw).mono fun key entry hl _ => by
      rw [hentries]
      exact hl }

/-- A key that the store does not have is brought in below the undo log. -/
theorem hydrate_spec (h : InCascade ctx₀ live claims t ctx) {call : SetCall} {key : Bytes}
    (hkey : key = formatKey ctx.namespaceId call.entity call.component)
    (hs : hydrate ctx call key = .ok ctx') :
    InCascade ctx₀ live claims t ctx' ∧ ctx'.clock = ctx.clock ∧ ctx'.dirtyQueue = ctx.dirtyQueue ∧
      ctx'.cascadeOutputs = ctx.cascadeOutputs := by
  rcases hydrate_cases hs with ⟨rfl, -⟩ | ⟨fact, store, habsent, hfact, hentries, rfl⟩
  · exact ⟨h, rfl, rfl, rfl⟩
  have hlive : Wal.getFact live ctx₀.namespaceId call.entity call.component = some fact := by
    rw [Context.loadFact, h.storage, h.namespaceId] at hfact
    exact hfact
  have hunlogged : ∀ u ∈ ctx.cascadeUndo, u.key ≠ key := by
    rintro u hu rfl
    have := h.logged u hu
    rw [habsent] at this
    cases this
  refine ⟨{ h with unwinds := ?_, logged := ?_, stored := ?_, cached := ?_ }, rfl, rfl, rfl⟩
  · obtain ⟨base, hbase, hhydrated⟩ := h.unwinds
    simp only [hentries]
    rw [unwind_insert hunlogged, hbase]
    refine ⟨_, rfl, fun key' => ?_⟩
    rw [FMap.lookup_insert_eq]
    by_cases heq : key' = key
    · subst heq
      have hb : base.lookup key' = none := (lookup_unwind hunlogged hbase).trans habsent
      have h₀ : ctx₀.lwwStore.entries.lookup key' = none := by
        rcases hhydrated key' with heq | ⟨hnone, -⟩
        · rw [← heq, hb]
        · exact hnone
      right
      refine ⟨h₀, call.entity, call.component, fact, _, ?_, hlive, if_pos rfl, rfl, rfl⟩
      rw [hkey, h.namespaceId]
    · simp only [if_neg heq]
      exact hhydrated key'
  · intro u hu
    simp only [hentries]
    rw [FMap.lookup_insert_eq, if_neg (hunlogged u hu)]
    exact h.logged u hu
  · intro key' entry hl
    simp only [hentries] at hl
    rw [FMap.lookup_insert_eq] at hl
    by_cases heq : key' = key
    · rw [if_pos heq] at hl
      obtain rfl := Option.some.inj hl
      exact (h.facts _ _ fact hlive).trans h.started
    · rw [if_neg heq] at hl
      exact h.stored key' entry hl
  · intro entity component w hw
    refine (h.cached entity component w hw).mono fun key' entry hl _ => ?_
    have hne : key' ≠ key := by
      rintro rfl
      rw [habsent] at hl
      cases hl
    rw [hentries, FMap.lookup_insert_eq, if_neg hne]
    exact hl

/-- The last write of each component is what the cache has, once one more is in it. -/
theorem cached_record (h : InCascade ctx₀ live claims t ctx) (m : Wal.FactMutation) {store : LwwRegistry std.wyhash}
    {value : Value} {key : Bytes} (hprint : bufPrintKey ctx.namespaceId m.entity m.component = some key)
    (hvalue : (std.parseFromSlice m.value).map (cachedValue · m.value) = some value)
    (hentries : store.entries = ctx.lwwStore.entries.insert key ⟨ts, value, m.cause⟩) (entity : EntityId)
    (component : ComponentId) (w : Write)
    (hw : lastWrite ((ctx.cascadeOutputs ++ [m]).map Write.of) entity component = some w) :
    Cached { ctx with lwwStore := store } w := by
  rw [List.map_append, List.map_singleton, lastWrite_concat] at hw
  by_cases hsame : (Write.of m).entity = entity ∧ (Write.of m).component = component
  · rw [if_pos hsame] at hw
    obtain rfl := Option.some.inj hw
    exact ⟨key, ⟨ts, value, m.cause⟩, hprint, by
      rw [LwwRegistry.get_eq, hentries, FMap.lookup_insert_eq, if_pos rfl], hvalue⟩
  · rw [if_neg hsame] at hw
    have hw' := List.mem_filter.mp (List.mem_of_getLast? hw)
    refine (h.cached entity component w hw).mono fun key' entry hl hkey' => ?_
    -- another component has another key
    have hne : key' ≠ key := by
      rintro rfl
      refine hsame ?_
      have hinj := formatKey_inj ((bufPrint_eq hprint).symm.trans (bufPrint_eq hkey'))
      have hcomponent := of_decide_eq_true hw'.2
      exact ⟨hinj.1.trans hcomponent.1, hinj.2.trans hcomponent.2⟩
    rw [hentries, FMap.lookup_insert_eq, if_neg hne]
    exact hl

/-- A write that is newer than everything, with its snapshot, its output and its signal. -/
theorem record (h : InCascade ctx₀ live claims t ctx) (hts : t < ts) (m : Wal.FactMutation)
    {store : LwwRegistry std.wyhash} {value : Value} {queue : DirtyQueue} {key : Bytes}
    (hm : m.timestamp = ts) (hns : m.namespaceId = ctx.namespaceId)
    (hkey : key = formatKey m.namespaceId m.entity m.component)
    (hprint : bufPrintKey ctx.namespaceId m.entity m.component = some key)
    (hvalue : (std.parseFromSlice m.value).map (cachedValue · m.value) = some value)
    (hentries : store.entries = ctx.lwwStore.entries.insert key ⟨ts, value, m.cause⟩)
    (hqueue : queue.entries = ctx.dirtyQueue.entries ++ [signal m]) :
    InCascade ctx₀ live claims ts { ctx with
      lwwStore := store
      dirtyQueue := queue
      cascadeOutputs := ctx.cascadeOutputs ++ [m]
      cascadeUndo := ctx.cascadeUndo ++
        [⟨formatKey m.namespaceId m.entity m.component, m.timestamp, ctx.lwwStore.entries.lookup key⟩] } where
  storage := h.storage
  namespaceId := h.namespaceId
  claims := h.claims
  unwinds := by
    obtain ⟨base, hbase, hhydrated⟩ := h.unwinds
    refine ⟨base, ?_, hhydrated⟩
    simp only [hentries, hm, ← hkey]
    exact (unwind_write ctx.lwwStore.entries ctx.cascadeUndo key ⟨ts, value, m.cause⟩).trans hbase
  logged := by
    intro u hu
    simp only [hentries, FMap.lookup_insert_eq]
    by_cases heq : u.key = key
    · rw [if_pos heq]
      rfl
    · rw [if_neg heq]
      rcases List.mem_append.mp hu with hu | hu
      · exact h.logged u hu
      · rw [List.mem_singleton.mp hu] at heq
        exact absurd hkey.symm heq
  paired := by
    rw [List.map_append, List.map_append, h.paired]
    rfl
  signals := by
    intro e
    have := h.signals e
    simp only [hqueue, List.map_append, List.count_append, List.map_cons, List.map_nil]
    omega
  started := h.started.trans hts.le
  stored := by
    intro key' entry hl
    simp only [hentries, FMap.lookup_insert_eq] at hl
    by_cases heq : key' = key
    · rw [if_pos heq] at hl
      obtain rfl := Option.some.inj hl
      exact le_rfl
    · rw [if_neg heq] at hl
      exact (h.stored key' entry hl).trans hts.le
  facts := h.facts
  own := by
    intro m' hm'
    rcases List.mem_append.mp hm' with hm' | hm'
    · exact h.own m' hm'
    · rw [List.mem_singleton.mp hm', hns, h.namespaceId]
  recent := by
    intro m' hm'
    rcases List.mem_append.mp hm' with hm' | hm'
    · exact ⟨(h.recent m' hm').1, (h.recent m' hm').2.trans hts.le⟩
    · rw [List.mem_singleton.mp hm', hm]
      exact ⟨h.started.trans_lt hts, le_rfl⟩
  ordered := by
    rw [List.map_append, List.pairwise_append]
    refine ⟨h.ordered, List.pairwise_singleton _ _, fun a ha b hb => ?_⟩
    obtain ⟨m', hm', rfl⟩ := List.mem_map.mp ha
    rw [List.map_cons, List.map_nil, List.mem_singleton] at hb
    rw [hb, hm]
    exact (h.recent m' hm').2.trans_lt hts
  cached := by
    intro entity component w hw
    exact h.cached_record m hprint hvalue hentries entity component w hw

/-- The write with storage; its timestamp is what the clock shows. -/
theorem setInCascade_spec (h : InCascade ctx₀ live claims t ctx) (hts : t < ctx.clock.now) {call : SetCall}
    {key : Bytes} (hkey : bufPrintKey ctx.namespaceId call.entity call.component = some key)
    (hroom : ctx.dirtyQueue.isFull = false) {value : Value} {cause : CausalTag} {result : HostResult}
    (hvalue : (std.parseFromSlice call.memory).map (cachedValue · call.memory) = some value)
    (hs : setInCascade ctx call key ctx.clock.now value cause = (ctx', result)) :
    InCascade ctx₀ live claims ctx'.clock.now ctx' ∧ ctx'.clock = ctx.clock ∧
      Reported ctx ctx' (call.write ctx.clock.now) result := by
  rcases setInCascade_cases (fun existing hex => (h.stored key existing hex).trans_lt hts) hkey hroom hs with
    ⟨store, hentries, rfl, rfl⟩ | ⟨store, queue, hentries, hqueue, rfl, rfl⟩
  · exact ⟨(h.mono hts.le).of_entries hentries, rfl, Reported.of_same (by decide) rfl⟩
  · have hrecord := h.record hts ⟨ctx.namespaceId, call.entity, call.component, call.memory,
      ctx.clock.now, cause⟩ rfl rfl (bufPrint_eq hkey) hkey hvalue hentries hqueue
    rw [← bufPrint_eq hkey] at hrecord
    refine ⟨hrecord, rfl, fun _ => ?_, fun n hn hstatus => absurd (eq_of_pushStatus hstatus) hn.symm,
      fun hp => absurd hp (pushStatus_ne_panic _ _)⟩
    rw [List.map_append]
    rfl

/-- **A write of a rule keeps the invariant**, and its status says whether it was recorded. -/
theorem slungSet_spec (h : InCascade ctx₀ live claims ctx.clock.now ctx) {call : SetCall} {result : HostResult}
    (hs : slungSet ctx call = (ctx', result)) :
    InCascade ctx₀ live claims ctx'.clock.now ctx' ∧ Reported ctx ctx' (call.write ctx'.clock.now) result := by
  have hclock : ∀ clock, InCascade ctx₀ live claims ctx.clock.now { ctx with clock := clock } :=
    fun _ => { h with }
  cases slungSet_cases hs with
  | refused hn => exact ⟨h, Reported.of_same hn rfl⟩
  | stopped hsend => exact ⟨h, nofun, nofun, fun _ => (Hlc.sendWithWall_none.mp hsend).2⟩
  | @unnamed clock hlt => exact ⟨(hclock clock).mono hlt.le, Reported.of_same (by decide) rfl⟩
  | @unhydrated clock _ hlt => exact ⟨(hclock clock).mono hlt.le, nofun, nofun, nofun⟩
  | @full clock key ctx₁ hlt hkey hhydrate =>
    obtain ⟨h₁, hclock₁, -, houtputs₁⟩ := (hclock clock).hydrate_spec (bufPrint_eq hkey) hhydrate
    have hlt₁ : ctx.clock.now ≤ ctx₁.clock.now := by rw [hclock₁]; exact hlt.le
    have hmono := h₁.mono hlt₁
    exact ⟨{ hmono with }, Reported.of_same (by decide) houtputs₁⟩
  | @writes clock key value ctx₁ _ _ hlt hkey hvalue hhydrate hroom hwrite =>
    obtain ⟨h₁, hclock₁, -, houtputs₁⟩ := (hclock clock).hydrate_spec (bufPrint_eq hkey) hhydrate
    have hlt₁ : ctx.clock.now < ctx₁.clock.now := by rw [hclock₁]; exact hlt
    have hnow : clock.now = ctx₁.clock.now := by rw [hclock₁]
    rw [if_pos (by rw [h₁.storage]; rfl), hnow] at hwrite
    have hkey₁ : bufPrintKey ctx₁.namespaceId call.entity call.component = some key := by
      rw [h₁.namespaceId, ← h.namespaceId]
      exact hkey
    obtain ⟨h', hclock', hreported⟩ := h₁.setInCascade_spec hlt₁ hkey₁ hroom hvalue hwrite
    rw [hclock']
    rw [hclock'] at h'
    refine ⟨h', fun hstatus => ?_, fun n hn hstatus => ?_, hreported.exhausted⟩
    · rw [hreported.done hstatus, houtputs₁]
    · rw [hreported.failed n hn hstatus, houtputs₁]

end InCascade

end Slung
