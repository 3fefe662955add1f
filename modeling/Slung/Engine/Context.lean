import Mathlib.Data.List.Basic
import Slung.Memory.Lww
import Slung.Queue
import Slung.Wal.State
import Slung.Wasm.Index

/-!
# Slung.Engine.Context — the state of a session (`engine/context.zig`)

The cascade of an inference run: rule writes go to the store at once, with a snapshot in the undo log and a
mutation in the output list, and reach the log as one checkpoint at the end (`flushCascade`) or are taken back
(`discardCascade`).

`Storage.flushCascade` is one step that succeeds or fails; `Slung.Wal` is about how it does so.
-/

namespace Slung

open Slung.Lib

/-- What host calls and inference runs fail with. -/
inductive RunError where
  | outOfMemory
  | queueFull
  | maxDepthExceeded
  | trap
  | guest
  | store (e : LwwRegistry.Err)
  | wal (e : Wal.Err)
deriving DecidableEq, Repr

/-! ## Claims -/

/-- The (rule, entity) pairs that are executing. -/
abbrev ClaimRegister := Finset (RuleId × EntityId)

namespace ClaimRegister

/-- `false` if the claim is taken. -/
def tryAcquire (fails : Bool) (self : ClaimRegister) (ruleId : RuleId) (entityId : EntityId) :
    Except RunError (ClaimRegister × Bool) :=
  if fails then .error .outOfMemory
  else if (ruleId, entityId) ∈ self then .ok (self, false)
  else .ok (insert (ruleId, entityId) self, true)

def release (self : ClaimRegister) (ruleId : RuleId) (entityId : EntityId) : ClaimRegister :=
  self.erase (ruleId, entityId)

end ClaimRegister

/-! ## Keys -/

/-- A number in decimal digits. -/
def formatDecimal (n : ℕ) : Bytes := (Nat.toDigits 10 n).map fun c => UInt8.ofNat c.toNat

/-- `namespace:entity:component` -/
def formatKey (namespaceId : NamespaceId) (entity : EntityId) (component : ComponentId) : Bytes :=
  namespaceId ++ 58 :: (formatDecimal entity.toNat ++ 58 :: formatDecimal component.toNat)

/-- A text in a buffer. -/
def bufPrint (size : ℕ) (text : Bytes) : Option Bytes := if text.length ≤ size then some text else none

theorem bufPrint_eq {size : ℕ} {text printed : Bytes} (h : bufPrint size text = some printed) : printed = text := by
  obtain ⟨-, htext⟩ := Option.ite_none_right_eq_some.mp h
  exact (Option.some.inj htext).symm

/-- The key in a buffer of 512 bytes. -/
def bufPrintKey (namespaceId : NamespaceId) (entity : EntityId) (component : ComponentId) : Option Bytes :=
  bufPrint 512 (formatKey namespaceId entity component)

theorem isDigit_bounds {c : Char} (h : c.isDigit = true) : 48 ≤ c.toNat ∧ c.toNat ≤ 57 := by
  simp only [Char.isDigit, Bool.and_eq_true, decide_eq_true_eq, ge_iff_le, UInt32.le_iff_toNat_le] at h
  exact h

theorem formatDecimal_injective : Function.Injective formatDecimal := by
  have back : ∀ n, (formatDecimal n).map (fun b => Char.ofNat b.toNat) = Nat.toDigits 10 n := by
    intro n
    rw [formatDecimal, List.map_map]
    refine (List.map_congr_left fun c hc => ?_).trans (List.map_id _)
    have hbound := isDigit_bounds (Nat.isDigit_of_mem_toDigits (by decide) (by decide) hc)
    have hmod : c.toNat % 256 = c.toNat := by omega
    simp only [Function.comp_apply, UInt8.toNat_ofNat', hmod, Char.ofNat_toNat, id_eq]
  intro m n h
  have hdigits : Nat.toDigits 10 m = Nat.toDigits 10 n := by rw [← back m, ← back n, h]
  calc m = Nat.ofDigitChars 10 (Nat.toDigits 10 m) 0 := Nat.ofDigitChars_ten_toDigits.symm
    _ = Nat.ofDigitChars 10 (Nat.toDigits 10 n) 0 := by rw [hdigits]
    _ = n := Nat.ofDigitChars_ten_toDigits

/-- No separator in a number. -/
theorem colon_notMem_formatDecimal (n : ℕ) : (58 : UInt8) ∉ formatDecimal n := by
  intro h
  obtain ⟨c, hc, heq⟩ := List.mem_map.mp h
  have hbound := isDigit_bounds (Nat.isDigit_of_mem_toDigits (by decide) (by decide) hc)
  have hval := congrArg UInt8.toNat heq
  rw [UInt8.toNat_ofNat'] at hval
  change c.toNat % 256 = 58 at hval
  omega

/-- **Within a namespace, keys tell entities and components apart.** -/
theorem formatKey_inj {namespaceId : NamespaceId} {entity entity' : EntityId} {component component' : ComponentId}
    (h : formatKey namespaceId entity component = formatKey namespaceId entity' component') :
    entity = entity' ∧ component = component' := by
  have htail := (List.cons.inj (List.append_cancel_left h)).2
  obtain ⟨he, -, hc⟩ := (List.append_cons_inj_of_notMem (colon_notMem_formatDecimal _)
    (colon_notMem_formatDecimal _)).mp htail
  exact ⟨UInt32.toNat_inj.mp (formatDecimal_injective he), UInt32.toNat_inj.mp (formatDecimal_injective hc)⟩

/-! ## Storage -/

/-- All mutations and the acknowledgement, or an error and nothing. -/
def Storage.flushCascade (fails : Option Wal.Err) (self : Wal.Live) (mutations : List Wal.FactMutation)
    (ackId : ℤ) : Except Wal.Err Wal.Live :=
  match fails with
  | some e => .error e
  | none => .ok (Wal.removePending (mutations.foldl Wal.Live.putFact self) ackId)

/-! ## The context -/

structure Context (hash : Bytes → ℕ) where
  lwwStore : LwwRegistry hash
  dirtyQueue : DirtyQueue
  claimRegister : ClaimRegister
  storage : Option Wal.Live
  graph : CapabilityGraph
  clock : Hlc
  namespaceId : NamespaceId
  currentEntity : EntityId
  currentRule : RuleId
  nodeId : NodeId
  cascadeOutputs : List Wal.FactMutation
  cascadeUndo : List LwwRegistry.Undo
  cascadeError : Option RunError

/-- The allocations of `accumulateMutation`. -/
inductive AccumulateAlloc where
  | namespaceId | value | causeNode | output | key | undo
deriving DecidableEq, Repr

namespace Context

variable {hash : Bytes → ℕ}

def beginCascade (self : Context hash) : Context hash := { self with cascadeError := none }

/-- Only the first error of a cascade is kept. -/
def recordCascadeError (self : Context hash) (err : RunError) : Context hash :=
  { self with cascadeError := self.cascadeError.or (some err) }

/-- Records a rule-produced mutation; `false` if it could not, and then nothing is recorded. -/
def accumulateMutation (fault : Option AccumulateAlloc) (self : Context hash) (mutation : Wal.FactMutation)
    (previous : Option LwwRegistry.Entry) : Context hash × Bool :=
  if fault ∈ [some .namespaceId, some .value, some .causeNode, some .output] then (self, false)
  else
    let self := { self with cascadeOutputs := self.cascadeOutputs ++ [mutation] }
    if fault ∈ [some .key, some .undo] then
      ({ self with cascadeOutputs := self.cascadeOutputs.dropLast }, false)
    else
      let key := formatKey mutation.namespaceId mutation.entity mutation.component
      ({ self with cascadeUndo := self.cascadeUndo ++ [⟨key, mutation.timestamp, previous⟩] }, true)

/-- Writes accumulated cascade outputs + dirty ack as one WAL checkpoint. -/
def flushCascade (fails : Option Wal.Err) (self : Context hash) (ackId : ℤ) :
    Except RunError (Context hash) :=
  match self.storage with
  | none => .ok self
  | some storage =>
    match Storage.flushCascade fails storage self.cascadeOutputs ackId with
    | .error e => .error (.wal e)
    | .ok storage => .ok { self with storage := some storage, cascadeOutputs := [], cascadeUndo := [] }

/-- Roll one write back, or record why it cannot be. -/
def rollbackOne (u : LwwRegistry.Undo) (acc : LwwRegistry hash × Option RunError) :
    LwwRegistry hash × Option RunError :=
  match acc.1.rollbackPut u.key u.stamp u.previous with
  | .ok store => (store, acc.2)
  | .error e => (acc.1, acc.2.or (some (.store e)))

/-- Clears the cascade accumulator without writing (used on error paths): rolls the writes back from the last to
the first and takes their signals out of the queue. -/
def discardCascade (self : Context hash) : Context hash :=
  let (store, error) := self.cascadeUndo.foldr rollbackOne (self.lwwStore, self.cascadeError)
  { self with
    lwwStore := store
    cascadeError := error
    dirtyQueue := self.cascadeOutputs.foldl
      (fun queue m => (queue.removeLast ⟨m.entity, m.component⟩).1) self.dirtyQueue
    cascadeOutputs := []
    cascadeUndo := [] }

/-- Direct in-memory fact read. -/
def loadFact (self : Context hash) (entity : EntityId) (component : ComponentId) : Option Wal.Fact :=
  self.storage.bind fun storage => Wal.getFact storage self.namespaceId entity component

/-- Direct in-memory pending read. -/
def nextPendingDirty (self : Context hash) : Option Wal.PendingDirty :=
  self.storage.bind fun storage => Wal.nextPendingFor storage (some self.namespaceId)

def setCurrentExecution (self : Context hash) (entityId : EntityId) (ruleId : RuleId) : Context hash :=
  { self with currentEntity := entityId, currentRule := ruleId }

end Context

end Slung
