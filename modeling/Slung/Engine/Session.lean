import Slung.Engine.Loop
import Slung.Primitives.ExactHlc
import Slung.Wal.Namespaces

/-!
# Slung.Engine.Session — a module session (`engine/events.zig`)

How a session starts and what it does with the data of a source.  The guest's mappers are functions of the raw
bytes that call nothing of the host.

The clock of a session starts from the latest timestamp of its namespace and never hears of the node id of its
configuration (`sessions_never_tie_iff`).
-/

namespace Slung

open Slung.Lib

variable {std : StdLib}

/-! ## Start -/

structure ModuleConfig where
  namespaceId : NamespaceId
  nodeId : NodeId
  graph : CapabilityGraph

/-- The clock of a session, from the latest timestamp of its namespace. -/
def sessionClock (persistedTimestamp : Option Timestamp) : Hlc :=
  match persistedTimestamp with
  | some ts => Hlc.fromTimestamp ts
  | none => Hlc.init 1

/-- The state of a new session over a log. -/
def ModuleSession.init (std : StdLib) (config : ModuleConfig) (storage : Wal.Live) : Context std.wyhash where
  lwwStore := LwwRegistry.init
  dirtyQueue := DirtyQueue.init 8
  claimRegister := ∅
  storage := some storage
  graph := config.graph
  clock := sessionClock (Wal.latestTimestamp storage config.namespaceId)
  namespaceId := config.namespaceId
  currentEntity := 0
  currentRule := 0
  nodeId := config.nodeId
  cascadeOutputs := []
  cascadeUndo := []
  cascadeError := none

/-- No event can follow a starting timestamp, whatever the wall time. -/
def Spent (persistedTimestamp : Option Timestamp) : Prop :=
  ∃ ts, persistedTimestamp = some ts ∧ ts.wall = 0xffffffffffffffff ∧ ts.logical = 0xffffffff

/-- The node id in the timestamps of a session. -/
def sessionNode (persistedTimestamp : Option Timestamp) : UInt32 :=
  match persistedTimestamp with
  | some ts => ts.nodeId
  | none => 1

theorem sessionClock_nodeId (persistedTimestamp : Option Timestamp) :
    (sessionClock persistedTimestamp).nodeId = sessionNode persistedTimestamp := by
  cases persistedTimestamp <;> rfl

theorem spent_iff (persistedTimestamp : Option Timestamp) : Spent persistedTimestamp ↔
    (sessionClock persistedTimestamp).wall = 0xffffffffffffffff ∧ (sessionClock persistedTimestamp).Exhausted := by
  cases persistedTimestamp with
  | none => exact iff_of_false nofun fun h => absurd h.1 (by decide)
  | some ts =>
    constructor
    · rintro ⟨ts', heq, hwall, hlogical⟩
      obtain rfl := Option.some.inj heq
      exact ⟨hwall, hlogical⟩
    · exact fun h => ⟨ts, rfl, h⟩

/-- A spent clock issues nothing. -/
theorem sends_of_spent {persistedTimestamp : Option Timestamp} (h : Spent persistedTimestamp)
    (walls : List UInt64) : (sessionClock persistedTimestamp).sends walls = [] := by
  obtain ⟨hwall, hlogical⟩ := (spent_iff _).mp h
  cases walls with
  | nil => rfl
  | cons wallNow walls =>
    have hle : wallNow ≤ (sessionClock persistedTimestamp).wall := by
      have hbound := wallNow.toNat_lt
      rw [hwall, UInt64.le_iff_toNat_le]
      show wallNow.toNat ≤ 18446744073709551615
      omega
    rw [Hlc.sends, Hlc.sendWithWall_none.mpr ⟨hle, hlogical⟩]

/-- **When two sessions never issue the same timestamp.**  The node ids of their configurations do not matter. -/
theorem sessions_never_tie_iff (std : StdLib) (config config' : ModuleConfig) (storage storage' : Wal.Live) :
    (∀ walls walls' ts, ts ∈ (ModuleSession.init std config storage).clock.sends walls →
      ts ∉ (ModuleSession.init std config' storage').clock.sends walls') ↔
    sessionNode (Wal.latestTimestamp storage config.namespaceId) ≠
        sessionNode (Wal.latestTimestamp storage' config'.namespaceId) ∨
      Spent (Wal.latestTimestamp storage config.namespaceId) ∨
      Spent (Wal.latestTimestamp storage' config'.namespaceId) := by
  show (∀ walls walls' ts, ts ∈ (sessionClock (Wal.latestTimestamp storage config.namespaceId)).sends walls →
    ts ∉ (sessionClock (Wal.latestTimestamp storage' config'.namespaceId)).sends walls') ↔ _
  generalize Wal.latestTimestamp storage config.namespaceId = persisted
  generalize Wal.latestTimestamp storage' config'.namespaceId = persisted'
  constructor
  · intro h
    by_contra hnot
    rw [not_or, not_or, not_not, spent_iff, spent_iff] at hnot
    obtain ⟨hnode, hspent, hspent'⟩ := hnot
    -- both clocks come to the same last timestamp
    obtain ⟨walls, hmem⟩ := Hlc.last_mem_sends hspent
    obtain ⟨walls', hmem'⟩ := Hlc.last_mem_sends hspent'
    have hlast : (sessionClock persisted).last = (sessionClock persisted').last := by
      rw [Hlc.last, Hlc.last, sessionClock_nodeId, sessionClock_nodeId, hnode]
    exact h walls walls' _ hmem (hlast ▸ hmem')
  · rintro (hnode | hspent | hspent) walls walls' ts hmem hmem'
    · have heq := Hlc.nodeId_of_mem_sends hmem
      rw [Hlc.nodeId_of_mem_sends hmem', sessionClock_nodeId, sessionClock_nodeId] at heq
      exact hnode heq.symm
    · rw [sends_of_spent hspent] at hmem
      cases hmem
    · rw [sends_of_spent hspent] at hmem'
      cases hmem'

/-- Two nodes with new stores, in the same millisecond. -/
theorem sessions_tie :
    let config : ModuleConfig := ⟨[110], [97], CapabilityGraph.empty⟩
    let config' : ModuleConfig := ⟨[110], [98], CapabilityGraph.empty⟩
    config.nodeId ≠ config'.nodeId ∧
      (⟨5, 0, 1⟩ : Timestamp) ∈ (ModuleSession.init StdLib.fragment config Wal.Live.init).clock.sends [5] ∧
      (⟨5, 0, 1⟩ : Timestamp) ∈ (ModuleSession.init StdLib.fragment config' Wal.Live.init).clock.sends [5] := by
  decide +kernel

/-! ## Source data -/

inductive MapperResult where
  | trap
  /-- a status other than 0 -/
  | declined
  /-- status 0; the output may not be readable -/
  | mapped (value : Bytes) (readFails : Bool)
deriving DecidableEq, Repr

/-- What one round of `ingestSourceData` does not decide. -/
structure MapperCall where
  /-- the raw data does not fit the memory of the guest -/
  writeFails : Bool
  result : MapperResult
  wallNow : UInt64
  persistFails : Option Wal.Err
  put : Option LwwRegistry.PutAlloc
deriving DecidableEq, Repr

/-- The key in a buffer of 128 bytes. -/
def bufPrintStoreKey (namespaceId : NamespaceId) (entity : EntityId) (component : ComponentId) : Option Bytes :=
  bufPrint 128 (formatKey namespaceId entity component)

/-- Source ingestion checkpoint: persists the input fact durably before execution; `none` if that fails. -/
def Context.persistMutation {hash : Bytes → ℕ} (fails : Option Wal.Err) (self : Context hash)
    (mutation : Wal.FactMutation) : Option (Context hash × Bool) :=
  match self.storage, fails with
  | some storage, none => some ({ self with storage := some (storage.putDirty mutation) }, storage.accepts mutation)
  | _, _ => none

def Context.sourceCause {hash : Bytes → ℕ} (self : Context hash) (key : ForwardKey) : CausalTag :=
  ⟨key.component, key.entity, self.nodeId⟩

/-- The fact that a mapped value becomes. -/
def Context.sourceMutation {hash : Bytes → ℕ} (self : Context hash) (key : ForwardKey) (mapped : Bytes)
    (timestamp : Timestamp) : Wal.FactMutation :=
  ⟨self.namespaceId, key.entity, key.component, mapped, timestamp, self.sourceCause key⟩

/-- A value that a mapper returned: into the log, then into the store. -/
def ingestMapped (ctx : Context std.wyhash) (key : ForwardKey) (call : MapperCall) (mapped : Bytes) :
    Context std.wyhash × Option Stop :=
  match bufPrintStoreKey ctx.namespaceId key.entity key.component with
  | none => (ctx, none)
  | some storeKey =>
    match ctx.clock.sendWithWall call.wallNow with
    | none => (ctx, some .panic)
    | some (timestamp, clock) =>
      let ctx := { ctx with clock := clock }
      match ctx.persistMutation call.persistFails (ctx.sourceMutation key mapped timestamp) with
      | none => (ctx, none)
      | some (ctx, false) => (ctx, none)
      | some (ctx, true) =>
        match ctx.lwwStore.put call.put storeKey timestamp (.bytes mapped) (ctx.sourceCause key) with
        | .error _ => (ctx, none)
        | .ok (store, _) => ({ ctx with lwwStore := store }, none)

/-- One mapper of the source. -/
def ingestOne (ctx : Context std.wyhash) (key : ForwardKey) (call : MapperCall) :
    Context std.wyhash × Option Stop :=
  if call.writeFails then (ctx, some (.error .guest))
  else match call.result with
    | .trap => (ctx, none)
    | .declined => (ctx, none)
    | .mapped value readFails => if readFails then (ctx, some (.error .guest)) else ingestMapped ctx key call value

/-- What one round of ingestion leaves. -/
inductive Ingested (ctx : Context std.wyhash) (key : ForwardKey) (call : MapperCall) : Context std.wyhash → Prop where
  | nothing : Ingested ctx key call ctx
  /-- the log does not take the write -/
  | unlogged {ts : Timestamp} {clock : Hlc} (hsend : ctx.clock.sendWithWall call.wallNow = some (ts, clock)) :
    Ingested ctx key call { ctx with clock := clock }
  | rejected {ts : Timestamp} {clock : Hlc} {storage : Wal.Live} {mapped : Bytes}
    (hsend : ctx.clock.sendWithWall call.wallNow = some (ts, clock)) (hstorage : ctx.storage = some storage)
    (hrejects : storage.accepts (ctx.sourceMutation key mapped ts) = false) :
    Ingested ctx key call
      { ctx with clock := clock, storage := some (storage.putDirty (ctx.sourceMutation key mapped ts)) }
  /-- the store has no memory for the write -/
  | uncached {ts : Timestamp} {clock : Hlc} {storage : Wal.Live} {mapped storeKey : Bytes} {e : LwwRegistry.Err}
    (hsend : ctx.clock.sendWithWall call.wallNow = some (ts, clock)) (hstorage : ctx.storage = some storage)
    (haccepts : storage.accepts (ctx.sourceMutation key mapped ts) = true)
    (hput : ctx.lwwStore.put call.put storeKey ts (.bytes mapped) (ctx.sourceCause key) = .error e) :
    Ingested ctx key call
      { ctx with clock := clock, storage := some (storage.putDirty (ctx.sourceMutation key mapped ts)) }
  | cached {ts : Timestamp} {clock : Hlc} {storage : Wal.Live} {mapped storeKey : Bytes}
    {store : LwwRegistry std.wyhash} {accepted : Bool}
    (hsend : ctx.clock.sendWithWall call.wallNow = some (ts, clock)) (hstorage : ctx.storage = some storage)
    (hkey : storeKey = formatKey ctx.namespaceId key.entity key.component)
    (haccepts : storage.accepts (ctx.sourceMutation key mapped ts) = true)
    (hput : ctx.lwwStore.put call.put storeKey ts (.bytes mapped) (ctx.sourceCause key) = .ok (store, accepted)) :
    Ingested ctx key call { ctx with
      clock := clock, storage := some (storage.putDirty (ctx.sourceMutation key mapped ts)), lwwStore := store }

theorem Context.persistMutation_cases {hash : Bytes → ℕ} (fails : Option Wal.Err) (self : Context hash)
    (mutation : Wal.FactMutation) : self.persistMutation fails mutation = none ∨
      ∃ storage, self.storage = some storage ∧ self.persistMutation fails mutation =
        some ({ self with storage := some (storage.putDirty mutation) }, storage.accepts mutation) := by
  unfold Context.persistMutation
  split
  · rename_i storage hstorage
    exact Or.inr ⟨storage, hstorage, rfl⟩
  · exact Or.inl rfl

theorem Context.persistMutation_error {hash : Bytes → ℕ} (self : Context hash) (mutation : Wal.FactMutation)
    (e : Wal.Err) : self.persistMutation (some e) mutation = none := by
  unfold Context.persistMutation
  cases self.storage <;> rfl

theorem Context.persistMutation_some {hash : Bytes → ℕ} (self : Context hash) {storage : Wal.Live}
    (hstorage : self.storage = some storage) (mutation : Wal.FactMutation) :
    self.persistMutation none mutation =
      some ({ self with storage := some (storage.putDirty mutation) }, storage.accepts mutation) := by
  unfold Context.persistMutation
  rw [hstorage]

theorem ingestMapped_spec {ctx ctx' : Context std.wyhash} {key : ForwardKey} {call : MapperCall} {mapped : Bytes}
    {stop : Option Stop} (h : ingestMapped ctx key call mapped = (ctx', stop)) : Ingested ctx key call ctx' := by
  unfold ingestMapped at h
  cases hkey : bufPrintStoreKey ctx.namespaceId key.entity key.component with
  | none =>
    rw [hkey] at h
    obtain ⟨rfl, -⟩ := Prod.mk.inj h
    exact .nothing
  | some storeKey =>
    cases hsend : ctx.clock.sendWithWall call.wallNow with
    | none =>
      simp only [hkey, hsend] at h
      obtain ⟨rfl, -⟩ := Prod.mk.inj h
      exact .nothing
    | some event =>
      obtain ⟨ts, clock⟩ := event
      simp only [hkey, hsend] at h
      have hmutation : ({ ctx with clock := clock } : Context std.wyhash).sourceMutation key mapped ts =
          ctx.sourceMutation key mapped ts := rfl
      rw [hmutation] at h
      rcases Context.persistMutation_cases call.persistFails { ctx with clock := clock }
        (ctx.sourceMutation key mapped ts) with hpersist | ⟨storage, hstorage, hpersist⟩
      · rw [hpersist] at h
        obtain ⟨rfl, -⟩ := Prod.mk.inj h
        exact .unlogged hsend
      rw [hpersist] at h
      cases haccepts : storage.accepts (ctx.sourceMutation key mapped ts) with
      | false =>
        rw [haccepts] at h
        obtain ⟨rfl, -⟩ := Prod.mk.inj h
        exact .rejected hsend hstorage haccepts
      | true =>
        rw [haccepts] at h
        change (match ctx.lwwStore.put call.put storeKey ts (.bytes mapped) (ctx.sourceCause key) with
          | .error _ => (_, none)
          | .ok (store, _) => (_, none)) = (ctx', stop) at h
        cases hput : ctx.lwwStore.put call.put storeKey ts (.bytes mapped) (ctx.sourceCause key) with
        | error e =>
          rw [hput] at h
          obtain ⟨rfl, -⟩ := Prod.mk.inj h
          exact .uncached hsend hstorage haccepts hput
        | ok stored =>
          obtain ⟨store, accepted⟩ := stored
          rw [hput] at h
          obtain ⟨rfl, -⟩ := Prod.mk.inj h
          exact .cached hsend hstorage (bufPrint_eq hkey) haccepts hput

theorem ingestOne_spec {ctx ctx' : Context std.wyhash} {key : ForwardKey} {call : MapperCall} {stop : Option Stop}
    (h : ingestOne ctx key call = (ctx', stop)) : Ingested ctx key call ctx' := by
  unfold ingestOne at h
  split at h
  · obtain ⟨rfl, -⟩ := Prod.mk.inj h
    exact .nothing
  · cases hresult : call.result with
    | trap =>
      rw [hresult] at h
      obtain ⟨rfl, -⟩ := Prod.mk.inj h
      exact .nothing
    | declined =>
      rw [hresult] at h
      obtain ⟨rfl, -⟩ := Prod.mk.inj h
      exact .nothing
    | mapped value readFails =>
      simp only [hresult] at h
      split at h
      · obtain ⟨rfl, -⟩ := Prod.mk.inj h
        exact .nothing
      · exact ingestMapped_spec h

/-- Every mapper of the source, in the order of the forward index. -/
def ingestSourceData (sourceName : Bytes) (ctx : Context std.wyhash) :
    List (ForwardKey × MapperCall) → Context std.wyhash × Option Stop
  | [] => (ctx, none)
  | (key, call) :: rest =>
    if (ctx.graph.forward.lookup key).all fun entry => entry.source ≠ sourceName then
      ingestSourceData sourceName ctx rest
    else match ingestOne ctx key call with
      | (ctx, none) => ingestSourceData sourceName ctx rest
      | (ctx, some stop) => (ctx, some stop)

end Slung
