import Slung.Engine.Context

/-!
# Slung.Wasm.HostAbi.Generic — the host calls of rules (`wasm/host_abi/generic.zig`)

`slungGet` and `slungSet` with the guest's arguments, what the guest's memory holds there, the wall time when
the clock is read, and the allocations and guest accesses that fail.  What the source takes from the standard
library of its language is a parameter.
-/

namespace Slung

open Slung.Lib

/-- A parsed JSON value; a number keeps the form it was parsed to. -/
inductive JsonValue where
  | null
  | bool (b : Bool)
  | integer (i : Int64)
  | float (bits : UInt64)
  | numberString (s : Bytes)
  | string (s : Bytes)
  | array (items : List JsonValue)
  | object (fields : List (Bytes × JsonValue))

/-- Hashing and JSON as the standard library has them. -/
structure StdLib where
  wyhash : Bytes → ℕ
  parseFromSlice : Bytes → Option JsonValue
  stringify : JsonValue → Bytes

/-- What the host calls rely on: a value that was parsed is parsed from its text, and the text of a string is
longer than the string, for it has two quotes and no escape is shorter than what it stands for. -/
structure StdLib.Lawful (std : StdLib) : Prop where
  inverse : ∀ t v, std.parseFromSlice t = some v → std.parseFromSlice (std.stringify v) = some v
  quoted : ∀ t s, std.parseFromSlice t = some (.string s) → s.length + 2 ≤ t.length

/-- A small part of JSON, to run host calls with: the literals, two numbers, and strings without escapes. -/
def StdLib.fragment : StdLib where
  wyhash key := key.foldl (fun h b => 31 * h + b.toNat) 0
  parseFromSlice t :=
    if t = [110, 117, 108, 108] then some .null
    else if t = [116, 114, 117, 101] then some (.bool true)
    else if t = [102, 97, 108, 115, 101] then some (.bool false)
    else if t = [48] then some (.integer 0)
    else if t = [49] then some (.integer 1)
    else if t.head? = some 34 ∧ t.tail.getLast? = some 34 ∧ 34 ∉ t.tail.dropLast ∧ 92 ∉ t.tail.dropLast then
      some (.string t.tail.dropLast)
    else none
  stringify
    | .null => [110, 117, 108, 108]
    | .bool true => [116, 114, 117, 101]
    | .bool false => [102, 97, 108, 115, 101]
    | .integer i => if i = 0 then [48] else [49]
    | .string s => 34 :: (s ++ [34])
    | _ => []

theorem StdLib.fragment_lawful : StdLib.fragment.Lawful where
  inverse t v h := by
    simp only [fragment] at h
    split_ifs at h with _ _ _ _ _ hstring <;> obtain rfl := Option.some.inj h
    · rfl
    · rfl
    · rfl
    · rfl
    · rfl
    · obtain ⟨-, -, hquote, hescape⟩ := hstring
      simp [fragment, hquote, hescape]
  quoted t s h := by
    simp only [fragment] at h
    split_ifs at h with _ _ _ _ _ hstring <;> cases h
    obtain ⟨-, hlast, -⟩ := hstring
    have hpos := List.length_pos_of_mem (List.mem_of_getLast? hlast)
    rw [List.length_tail] at hpos
    rw [List.length_dropLast, List.length_tail]
    omega

/-- How a host call ends: with a status for the guest, with an error that traps it, or not at all, because a
checked operation stops the process. -/
inductive HostResult where
  | status (n : ℕ)
  | err (e : RunError)
  | panic
deriving DecidableEq, Repr

/-- Where a host call may fail. -/
inductive HostFault where
  | memoryRead | parse | cachedBytes | loadFact
  | hydrate (a : LwwRegistry.PutAlloc)
  | cloneEntry
  | put (a : LwwRegistry.PutAlloc)
  | accumulate (a : AccumulateAlloc)
  | render | guestMemory | pushOperand
deriving DecidableEq, Repr

/-- The allocations of a `put` and of `accumulateMutation` that fail; the first failure ends the function. -/
def HostFault.ofHydrate (faults : List HostFault) : Option LwwRegistry.PutAlloc :=
  faults.findSome? fun | .hydrate a => some a | _ => none

def HostFault.ofPut (faults : List HostFault) : Option LwwRegistry.PutAlloc :=
  faults.findSome? fun | .put a => some a | _ => none

def HostFault.ofAccumulate (faults : List HostFault) : Option AccumulateAlloc :=
  faults.findSome? fun | .accumulate a => some a | _ => none

/-- Push the status for the guest. -/
def pushStatus (faults : List HostFault) (n : ℕ) : HostResult :=
  if .pushOperand ∈ faults then .err .guest else .status n

variable (std : StdLib)

/-! ## Reading -/

/-- The bytes that the guest gets for a value. -/
def renderValue : Value → Bytes
  | .bool b => std.stringify (.bool b)
  | .int i => std.stringify (.integer i)
  | .float f => std.stringify (.float f)
  | .bytes b => b

/-- Reads a component value; `none` for the guest is a missing value. -/
def slungGet (ctx : Context std.wyhash) (entity : EntityId) (component : ComponentId)
    (faults : List HostFault) : HostResult × Option Bytes :=
  match bufPrintKey ctx.namespaceId entity component with
  | none => if .guestMemory ∈ faults then (.err .guest, none) else (pushStatus faults 1, none)
  | some key =>
    let cachedValue := (ctx.lwwStore.get key).map (·.value)
    if .cachedBytes ∈ faults ∧ cachedValue.any LwwRegistry.allocates then (.err .outOfMemory, none)
    else if .loadFact ∈ faults ∧ cachedValue = none ∧ ctx.storage.isSome then (.err .outOfMemory, none)
    else
      let persisted := if cachedValue = none then ctx.loadFact entity component else none
      match cachedValue.or (persisted.map fun fact => .bytes fact.value) with
      | none => if .guestMemory ∈ faults then (.err .guest, none) else (pushStatus faults 1, none)
      | some value =>
        if .render ∈ faults then (.err .outOfMemory, none)
        else if .guestMemory ∈ faults then (.err .guest, none)
        else
          match pushStatus faults 0 with
          | .status n => (.status n, some (renderValue std value))
          | result => (result, none)

/-! ## Writing -/

/-- The arguments of `slung_set` and what the guest's memory holds at the value. -/
structure SetCall where
  entity : EntityId
  component : ComponentId
  valuePtr : UInt32
  valueLen : UInt32
  memory : Bytes
  wallNow : UInt64
  faults : List HostFault
deriving DecidableEq, Repr

/-- The value that the store caches. -/
def cachedValue (parsed : JsonValue) (valueBytes : Bytes) : Value :=
  match parsed with
  | .bool b => .bool b
  | .integer i => .int i
  | .float f => .float f
  | .string s => .bytes s
  | _ => .bytes valueBytes

variable {std}

/-- Bring a key that the store does not have in from storage. -/
def hydrate (ctx : Context std.wyhash) (call : SetCall) (key : Bytes) :
    Except RunError (Context std.wyhash) :=
  if ctx.storage.isSome ∧ ctx.lwwStore.get key = none then
    -- the key of the fact is allocated before it is looked up
    if .loadFact ∈ call.faults then .error .outOfMemory
    else match ctx.loadFact call.entity call.component with
    | none => .ok ctx
    | some fact =>
      match ctx.lwwStore.put (HostFault.ofHydrate call.faults) key fact.timestamp (.bytes fact.value)
          ⟨fact.cause.cause, fact.cause.entity, ctx.nodeId⟩ with
      | .error e => .error (.store e)
      | .ok (store, _) => .ok { ctx with lwwStore := store }
  else .ok ctx

/-- The write with storage: into the store, into the cascade, and a signal. -/
def setInCascade (ctx : Context std.wyhash) (call : SetCall) (key : Bytes) (ts : Timestamp) (value : Value)
    (cause : CausalTag) : Context std.wyhash × HostResult :=
  let previous := ctx.lwwStore.get key
  if .cloneEntry ∈ call.faults ∧ previous.isSome then (ctx, pushStatus call.faults 5)
  else match ctx.lwwStore.put (HostFault.ofPut call.faults) key ts value cause with
    | .error _ => (ctx, pushStatus call.faults 5)
    | .ok (store, memoryAccepted) =>
      let ctx := { ctx with lwwStore := store }
      if memoryAccepted then
        let mutation : Wal.FactMutation :=
          ⟨ctx.namespaceId, call.entity, call.component, call.memory, ts, cause⟩
        match ctx.accumulateMutation (HostFault.ofAccumulate call.faults) mutation previous with
        | (ctx, false) =>
          match ctx.lwwStore.rollbackPut key ts previous with
          | .ok store => ({ ctx with lwwStore := store }, pushStatus call.faults 5)
          | .error e => (ctx.recordCascadeError (.store e), pushStatus call.faults 5)
        | (ctx, true) =>
          match ctx.dirtyQueue.push ⟨call.entity, call.component⟩ with
          | some queue => ({ ctx with dirtyQueue := queue }, pushStatus call.faults 0)
          | none => (ctx.discardCascade.recordCascadeError .queueFull, pushStatus call.faults 6)
      else (ctx, pushStatus call.faults 0)

/-- The write without storage: into the store, and a signal. -/
def setInMemory (ctx : Context std.wyhash) (call : SetCall) (key : Bytes) (ts : Timestamp) (value : Value)
    (cause : CausalTag) : Context std.wyhash × HostResult :=
  let previous := ctx.lwwStore.get key
  if .cloneEntry ∈ call.faults ∧ previous.isSome then (ctx, pushStatus call.faults 5)
  else match ctx.lwwStore.put (HostFault.ofPut call.faults) key ts value cause with
    | .error _ => (ctx, pushStatus call.faults 5)
    | .ok (store, memoryAccepted) =>
      let ctx := { ctx with lwwStore := store }
      if memoryAccepted then
        match ctx.dirtyQueue.push ⟨call.entity, call.component⟩ with
        | some queue => ({ ctx with dirtyQueue := queue }, pushStatus call.faults 0)
        | none =>
          match ctx.lwwStore.rollbackPut key ts previous with
          | .ok store =>
            (({ ctx with lwwStore := store } : Context std.wyhash).recordCascadeError .queueFull,
              pushStatus call.faults 6)
          | .error e => (ctx.recordCascadeError (.store e), pushStatus call.faults 5)
      else (ctx, pushStatus call.faults 0)

/-- Writes a component value and signals its dirty entry. -/
def slungSet (ctx : Context std.wyhash) (call : SetCall) : Context std.wyhash × HostResult :=
  if call.valueLen = 0 ∨ call.valuePtr = 0 then (ctx, pushStatus call.faults 1)
  else if .memoryRead ∈ call.faults then (ctx, pushStatus call.faults 2)
  else match if .parse ∈ call.faults then none else std.parseFromSlice call.memory with
    | none => (ctx, pushStatus call.faults 3)
    | some parsed =>
      match ctx.clock.sendWithWall call.wallNow with
      | none => (ctx, .panic)
      | some (ts, clock) =>
        let ctx := { ctx with clock := clock }
        let cause : CausalTag := ⟨ctx.currentRule, call.entity, ctx.nodeId⟩
        match bufPrintKey ctx.namespaceId call.entity call.component with
        | none => (ctx, pushStatus call.faults 4)
        | some key =>
          match hydrate ctx call key with
          | .error e => (ctx, .err e)
          | .ok ctx =>
            if ctx.dirtyQueue.isFull then
              (ctx.recordCascadeError .queueFull, pushStatus call.faults 6)
            else
              let value := cachedValue parsed call.memory
              if ctx.storage.isSome then setInCascade ctx call key ts value cause
              else setInMemory ctx call key ts value cause

end Slung
