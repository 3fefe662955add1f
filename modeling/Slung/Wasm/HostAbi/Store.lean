import Slung.Lib.Object
import Slung.ModuleStore
import Slung.Sdks.Allocation
import Slung.Wasm.HostAbi.Generic

/-!
# Slung.Wasm.HostAbi.Store — the store of a module (`wasm/host_abi/store.zig`)

The host reads a key, and a value, out of the guest's memory, calls the storage under the namespace and the name of
the module, and pushes a status.  While the storage runs its statements other threads run theirs, so a host call comes
in two halves: it ends without the storage, or it asks the storage and goes on with what that returns.
-/

namespace Slung

open Slung.Lib

/-- A computation in the guest's memory that ends, or asks the storage once and goes on with its answer; no answer is
an error. -/
inductive Asking (ρ : Type) where
  | done (h : GuestHeap) (r : ρ)
  | ask (h : GuestHeap) (op : StoreOp) (next : GuestHeap → Option StoreReply → GuestHeap × ρ)

/-- Go on when it ends. -/
def Asking.andThen {ρ ρ' : Type} (f : GuestHeap → ρ → GuestHeap × ρ') : Asking ρ → Asking ρ'
  | .done h r => .done (f h r).1 (f h r).2
  | .ask h op next => .ask h op fun h reply => f (next h reply).1 (next h reply).2

/-- Whose call it is. -/
structure StoreContext where
  namespaceId : Bytes
  moduleName : Bytes
  /-- the runtime may have none -/
  storage : Bool
deriving DecidableEq, Repr

/-- The copies that may not be made on the host. -/
inductive StoreCallFault where
  | copyKey
  | copyValue
deriving DecidableEq, Repr

/-- The bytes that `get` returns; the other calls return none. -/
def StoreReply.found : StoreReply → Option Bytes
  | .value v => v
  | .stored | .deleted _ => none

/-- What `delete` returns. -/
def StoreReply.existed : StoreReply → Bool
  | .deleted existed => existed
  | .value _ | .stored => false

namespace HostAbi

/-- The key in the table. -/
def storeKey (ctx : StoreContext) (key : Bytes) : StoreKey := ⟨ctx.namespaceId, ctx.moduleName, key⟩

/-- A range that is not empty and begins at 0 is refused. -/
def isNull (c : Block) : Bool := decide (c.size ≠ 0 ∧ c.addr = 0)

/-- `slung_store_get`, behind the call of the storage. -/
def storeGetReturned (A : GuestAllocator) (sdk : Sdk) (outPtr outLen : ℕ) (h : GuestHeap) :
    Option StoreReply → GuestHeap × HostResult
  | none => (h, .status 2)
  | some reply =>
    match reply.found with
    | none => (h, .status 1)
    | some bytes =>
      match allocate A sdk h bytes with
      | (h, none) => (h, .status 2)
      | (h, some ptr) =>
        match writeResult h outPtr outLen ptr bytes.length with
        | none => (h, .err .guest)
        | some h => (h, .status 0)

def slungStoreGet (A : GuestAllocator) (sdk : Sdk) (ctx : StoreContext) (faults : List StoreCallFault) (h : GuestHeap)
    (key : Block) (outPtr outLen : ℕ) : Asking HostResult :=
  match writeResult h outPtr outLen 0 0 with
  | none => .done h (.err .guest)
  | some h =>
    if ¬ ctx.storage then .done h (.status 2)
    else if isNull key then .done h (.status 1)
    else
      match memoryRead (StoreCallFault.copyKey ∈ faults) h key with
      | none => .done h (.status 1)
      | some k => .ask h (.get (storeKey ctx k)) (storeGetReturned A sdk outPtr outLen)

def slungStoreSet (ctx : StoreContext) (faults : List StoreCallFault) (h : GuestHeap) (key value : Block) :
    Asking HostResult :=
  if ¬ ctx.storage then .done h (.status 2)
  else if isNull key ∨ isNull value then .done h (.status 1)
  else
    match memoryRead (StoreCallFault.copyKey ∈ faults) h key with
    | none => .done h (.status 1)
    | some k =>
      match memoryRead (StoreCallFault.copyValue ∈ faults) h value with
      | none => .done h (.status 1)
      | some v => .ask h (.set (storeKey ctx k) v) fun h reply => (h, .status (if reply.isSome then 0 else 2))

def slungStoreDelete (ctx : StoreContext) (faults : List StoreCallFault) (h : GuestHeap) (key : Block) :
    Asking HostResult :=
  if ¬ ctx.storage then .done h (.status 2)
  else if isNull key then .done h (.status 1)
  else
    match memoryRead (StoreCallFault.copyKey ∈ faults) h key with
    | none => .done h (.status 1)
    | some k => .ask h (.delete (storeKey ctx k)) fun h reply =>
      match reply with
      | none => (h, .status 2)
      | some reply => (h, .status (if reply.existed then 0 else 1))

end HostAbi

/-! ## What a module calls -/

inductive KeyOp where
  | get (key : Bytes)
  | set (key value : Bytes)
  | delete (key : Bytes)
deriving DecidableEq, Repr

namespace KeyOp

def effect : KeyOp → (Bytes → Option Bytes) → Bytes → Option Bytes
  | .get _, t => t
  | .set k v, t => Function.update t k (some v)
  | .delete k, t => Function.update t k none

def reply : KeyOp → (Bytes → Option Bytes) → StoreReply
  | .get k, t => .value (t k)
  | .set _ _, _ => .stored
  | .delete k, t => .deleted (t k).isSome

/-- The call of the storage. -/
def storeOp (ctx : StoreContext) : KeyOp → StoreOp
  | .get k => .get (HostAbi.storeKey ctx k)
  | .set k v => .set (HostAbi.storeKey ctx k) v
  | .delete k => .delete (HostAbi.storeKey ctx k)

/-- The host has no copy of the key, or of the value. -/
def unread (faults : List StoreCallFault) : KeyOp → Bool
  | .set _ _ => decide (.copyKey ∈ faults ∨ .copyValue ∈ faults)
  | .get _ | .delete _ => decide (.copyKey ∈ faults)

/-- How a call ends that does not come to the storage. -/
def refusal (ctx : StoreContext) (faults : List StoreCallFault) (op : KeyOp) : Option HostResult :=
  if ¬ ctx.storage then some (.status 2)
  else if op.unread faults then some (.status 1)
  else none

end KeyOp

/-- What the key has that is not read. -/
def KeyOp.absent : KeyOp → Option StoreReply
  | .get _ => some (.value none)
  | .set _ _ => none
  | .delete _ => some (.deleted false)

/-- The call of this module that a call of the storage is. -/
def KeyOp.ofStore (namespaceId moduleName : Bytes) : StoreOp → Option KeyOp
  | .get k => if k.namespaceId = namespaceId ∧ k.module = moduleName then some (.get k.key) else none
  | .set k v => if k.namespaceId = namespaceId ∧ k.module = moduleName then some (.set k.key v) else none
  | .delete k => if k.namespaceId = namespaceId ∧ k.module = moduleName then some (.delete k.key) else none

/-- The rows of one module. -/
def StoreTable.rows (t : StoreTable) (namespaceId moduleName : Bytes) : Bytes → Option Bytes :=
  fun key => t ⟨namespaceId, moduleName, key⟩

/-- A map from keys to values. -/
def privateMap : Object (Bytes → Option Bytes) KeyOp StoreReply where
  call t op := (op.effect t, op.reply t)

section

variable {t : StoreTable} {namespaceId moduleName : Bytes} {op : StoreOp} {key : KeyOp}

theorem rows_update {k : StoreKey} {v : Option Bytes} (h : k.namespaceId = namespaceId ∧ k.module = moduleName) :
    StoreTable.rows (Function.update t k v) namespaceId moduleName =
      Function.update (t.rows namespaceId moduleName) k.key v := by
  funext key
  rcases k with ⟨ns, name, key'⟩
  obtain ⟨rfl, rfl⟩ := h
  simp [StoreTable.rows, Function.update_apply]

theorem rows_update_of_ne {k : StoreKey} {v : Option Bytes}
    (h : ¬ (k.namespaceId = namespaceId ∧ k.module = moduleName)) :
    StoreTable.rows (Function.update t k v) namespaceId moduleName = t.rows namespaceId moduleName := by
  funext key
  refine Function.update_of_ne (fun heq => h ?_) _ _
  rw [← heq]
  exact ⟨rfl, rfl⟩

/-- Calls of a module are calls on its rows. -/
theorem KeyOp.call_rows (h : KeyOp.ofStore namespaceId moduleName op = some key) :
    privateMap.call (t.rows namespaceId moduleName) key =
      ((moduleKv.call t op).1.rows namespaceId moduleName, (moduleKv.call t op).2) := by
  cases op with
  | get k =>
    obtain ⟨⟨rfl, rfl⟩, hkey⟩ := Option.ite_none_right_eq_some.mp h
    obtain rfl := Option.some.inj hkey
    rfl
  | set k v =>
    obtain ⟨hk, hkey⟩ := Option.ite_none_right_eq_some.mp h
    obtain rfl := Option.some.inj hkey
    exact Prod.ext (rows_update hk).symm rfl
  | delete k =>
    obtain ⟨hk, hkey⟩ := Option.ite_none_right_eq_some.mp h
    obtain rfl := Option.some.inj hkey
    refine Prod.ext (rows_update hk).symm ?_
    obtain ⟨rfl, rfl⟩ := hk
    rfl

/-- Calls of other modules leave them. -/
theorem KeyOp.rows_of_other (h : KeyOp.ofStore namespaceId moduleName op = none) :
    (moduleKv.call t op).1.rows namespaceId moduleName = t.rows namespaceId moduleName := by
  cases op with
  | get k => rfl
  | set k v => exact rows_update_of_ne fun hk => by rw [KeyOp.ofStore, if_pos hk] at h; cases h
  | delete k => exact rows_update_of_ne fun hk => by rw [KeyOp.ofStore, if_pos hk] at h; cases h

end

/-! ## What the host calls come to -/

section

variable {A : GuestAllocator} {sdk : Sdk} {ctx : StoreContext} {faults : List StoreCallFault} {h h' : GuestHeap}
  {touched : List Block} {key value : Block} {k v : Bytes} {p q : ℕ} {op : KeyOp} {r : HostResult}

theorem KeyOp.refusal_cases (hr : op.refusal ctx faults = some r) :
    r = .status 2 ∨ (r = .status 1 ∧ op.unread faults) := by
  unfold refusal at hr
  by_cases hstorage : ¬ ctx.storage
  · rw [if_pos hstorage] at hr
    exact Or.inl (Option.some.inj hr).symm
  rw [if_neg hstorage] at hr
  by_cases hunread : op.unread faults
  · rw [if_pos hunread] at hr
    exact Or.inr ⟨(Option.some.inj hr).symm, hunread⟩
  · rw [if_neg hunread] at hr
    cases hr

namespace HostAbi

theorem isNull_eq (hkey : h.Valid touched key) : isNull key = false :=
  decide_eq_false fun hnull => hkey.addr_ne_zero hnull.1 hnull.2

theorem slungStoreSet_eq (hkey : h.Valid touched key) (hvalue : h.Valid touched value) (hk : h.get key = some k)
    (hv : h.get value = some v) :
    slungStoreSet ctx faults h key value = ((KeyOp.set k v).refusal ctx faults).elim
      (.ask h ((KeyOp.set k v).storeOp ctx) fun h reply => (h, .status (if reply.isSome then 0 else 2)))
      (Asking.done h) := by
  unfold slungStoreSet KeyOp.refusal memoryRead
  rw [isNull_eq hkey, isNull_eq hvalue, hk, hv]
  simp only [KeyOp.unread, KeyOp.storeOp, Bool.false_eq_true, or_self, if_false, decide_eq_true_eq]
  by_cases hstorage : ¬ ctx.storage
  · rw [if_pos hstorage, if_pos hstorage]
    rfl
  rw [if_neg hstorage, if_neg hstorage]
  by_cases hcopy : .copyKey ∈ faults
  · rw [if_pos hcopy, if_pos (Or.inl hcopy)]
    rfl
  rw [if_neg hcopy]
  by_cases hcopyValue : .copyValue ∈ faults
  · rw [if_pos hcopyValue, if_pos (Or.inr hcopyValue)]
    rfl
  · rw [if_neg hcopyValue, if_neg (not_or.mpr ⟨hcopy, hcopyValue⟩)]
    rfl

theorem slungStoreDelete_eq (hkey : h.Valid touched key) (hk : h.get key = some k) :
    slungStoreDelete ctx faults h key = ((KeyOp.delete k).refusal ctx faults).elim
      (.ask h ((KeyOp.delete k).storeOp ctx) fun h reply =>
        match reply with
        | none => (h, .status 2)
        | some reply => (h, .status (if reply.existed then 0 else 1)))
      (Asking.done h) := by
  unfold slungStoreDelete KeyOp.refusal memoryRead
  rw [isNull_eq hkey, hk]
  simp only [KeyOp.unread, KeyOp.storeOp, Bool.false_eq_true, if_false, decide_eq_true_eq]
  by_cases hstorage : ¬ ctx.storage
  · rw [if_pos hstorage, if_pos hstorage]
    rfl
  rw [if_neg hstorage, if_neg hstorage]
  by_cases hcopy : .copyKey ∈ faults
  · rw [if_pos hcopy, if_pos hcopy]
    rfl
  · rw [if_neg hcopy, if_neg hcopy]
    rfl

/-- The two variables are 0 until there is a value. -/
theorem slungStoreGet_eq (A : GuestAllocator) (sdk : Sdk) (ctx : StoreContext) (faults : List StoreCallFault)
    (hp : word p ∈ h.live) (hq : word q ∈ h.live) (hne : p ≠ q) (hkey : h.Valid [word p, word q] key)
    (hk : h.get key = some k) : ∃ h₁, h.Keeps [word p, word q] h₁ ∧
      h₁.live = h.live ∧ slungStoreGet A sdk ctx faults h key p q = ((KeyOp.get k).refusal ctx faults).elim
        (.ask h₁ ((KeyOp.get k).storeOp ctx) (storeGetReturned A sdk p q)) (Asking.done h₁) := by
  obtain ⟨h₁, hzero, hlive₁, hkeeps₁, -, -⟩ := writeResult_words hp hq hne (Nat.two_pow_pos 32) (Nat.two_pow_pos 32)
  obtain ⟨hkey₁, hget₁⟩ := hkeeps₁.get hkey
  refine ⟨h₁, hkeeps₁, hlive₁, ?_⟩
  unfold slungStoreGet KeyOp.refusal memoryRead
  simp only [hzero, isNull_eq hkey₁, hget₁.trans hk, KeyOp.unread, KeyOp.storeOp, Bool.false_eq_true, if_false,
    decide_eq_true_eq]
  by_cases hstorage : ¬ ctx.storage
  · rw [if_pos hstorage, if_pos hstorage]
    rfl
  rw [if_neg hstorage, if_neg hstorage]
  by_cases hcopy : .copyKey ∈ faults
  · simp only [if_pos hcopy]
    rfl
  · simp only [if_neg hcopy]
    rfl

/-- **What `slung_store_get` leaves the guest**: a status, and with 0 the value in a block of its own. -/
theorem storeGetReturned_cases (hA : A.Lawful) (hp : word p ∈ h.live) (hq : word q ∈ h.live) (hne : p ≠ q)
    {reply : Option StoreReply} (hsmall : ∀ bytes, reply.bind StoreReply.found = some bytes → bytes.length < 2 ^ 32)
    (hs : storeGetReturned A sdk p q h reply = (h', r)) : h.Keeps [word p, word q] h' ∧
      ((reply = none ∧ r = .status 2 ∧ h'.live = h.live) ∨
        (∃ answer, reply = some answer ∧ answer.found = none ∧ r = .status 1 ∧ h'.live = h.live) ∨
        ∃ answer bytes, reply = some answer ∧ answer.found = some bytes ∧ ((r = .status 2 ∧ h'.live = h.live) ∨
          ∃ ptr, r = .status 0 ∧ Handed h' ptr bytes ∧ h'.live = buffer ptr bytes ++ h.live ∧
            readU32 h' p = some ptr ∧ readU32 h' q = some bytes.length)) := by
  unfold storeGetReturned at hs
  cases reply with
  | none =>
    obtain ⟨rfl, rfl⟩ := Prod.mk.inj hs
    exact ⟨Heap.Keeps.refl _ _, Or.inl ⟨rfl, rfl, rfl⟩⟩
  | some answer =>
    cases hfound : answer.found with
    | none =>
      simp only [hfound] at hs
      obtain ⟨rfl, rfl⟩ := Prod.mk.inj hs
      exact ⟨Heap.Keeps.refl _ _, Or.inr (Or.inl ⟨answer, rfl, hfound, rfl, rfl⟩)⟩
    | some bytes =>
      simp only [hfound] at hs
      rcases hasked : allocate A sdk h bytes with ⟨h₁, asked⟩
      obtain ⟨hkeeps₁, ⟨rfl, hlive₁⟩ | ⟨ptr, rfl, hhanded, hlive₁⟩⟩ := allocate_cases hA hasked
      · simp only [hasked] at hs
        obtain ⟨rfl, rfl⟩ := Prod.mk.inj hs
        rw [lost_of_small (hsmall bytes hfound), List.nil_append] at hlive₁
        exact ⟨hkeeps₁.mono (List.nil_subset _), Or.inr (Or.inr ⟨answer, bytes, rfl, hfound, Or.inl ⟨rfl, hlive₁⟩⟩)⟩
      · simp only [hasked] at hs
        obtain ⟨hptr, hlength⟩ := hhanded.bounds
        have hwords : ∀ address, word address ∈ h.live → word address ∈ h₁.live := fun address hin =>
          hlive₁ ▸ List.mem_append_right _ hin
        obtain ⟨h₂, hresult, hlive₂, hkeeps₂, hreadp, hreadq⟩ :=
          writeResult_words (hwords p hp) (hwords q hq) hne hptr hlength
        simp only [hresult] at hs
        obtain ⟨rfl, rfl⟩ := Prod.mk.inj hs
        have hfresh : ∀ b ∈ buffer ptr bytes, b ∉ [word p, word q] := by
          intro b hb hin
          have hlive : b ∈ h.live := by
            rcases List.mem_pair.mp hin with rfl | rfl
            · exact hp
            · exact hq
          exact Heap.fresh_of_live hlive₁ b hb hlive
        refine ⟨(hkeeps₁.mono (List.nil_subset _)).trans hkeeps₂, Or.inr (Or.inr ⟨answer, bytes, rfl, hfound,
          Or.inr ⟨ptr, rfl, hhanded.keeps hkeeps₂ hfresh, hlive₂.trans hlive₁, hreadp, hreadq⟩⟩)⟩

end HostAbi

end

end Slung
