import Slung.Wasm.HostAbi.Store

/-!
# Slung.Sdks.Store — the store of a module, in the guest (`sdks/rust/src/host/store.rs`, `sdks/go/host/store.go`)

Any number of instances of modules call the store through their SDKs, each with keys and values in its own memory.
An instance waits while the storage runs the statements of its call, and the statements of other calls come in between.
What a module sees is a map of its own.
-/

namespace Slung

open Slung.Lib

/-! ## The two SDKs -/

namespace Sdk

/-- Whatever is not a status. -/
def ofHost (status : ℕ → SdkResult StoreReply) : HostResult → SdkResult StoreReply
  | .status n => status n
  | .err _ => .trapped
  | .panic => .panicked

/-- A status other than 0. -/
def getStatus (n : ℕ) : SdkResult StoreReply :=
  if n = 1 then .ok (.value none) else .failed "slung_store_get" n

def setStatus (n : ℕ) : SdkResult StoreReply := if n = 0 then .ok .stored else .failed "slung_store_set" n

def deleteStatus (n : ℕ) : SdkResult StoreReply :=
  if n = 0 then .ok (.deleted true) else if n = 1 then .ok (.deleted false) else .failed "slung_store_delete" n

/-- `get` and `StoreGet`, behind the host call; `p` and `q` are the addresses of the two variables. -/
def received (A : GuestAllocator) (sdk : Sdk) (p q : ℕ) (h : GuestHeap) : HostResult → GuestHeap × SdkResult StoreReply
  | .status 0 =>
    match readU32 h p, readU32 h q with
    | some valuePtr, some valueLen =>
      match sdk.copyAndFree A h valuePtr valueLen with
      | (h, some bytes) => (h, .ok (.value (some bytes)))
      | (h, none) => (h, .trapped)
    | _, _ => (h, .trapped)
  | result => (h, ofHost getStatus result)

/-- `get` of the Rust SDK and `StoreGet` of the Go SDK. -/
def storeGet (A : GuestAllocator) (sdk : Sdk) (ctx : StoreContext) (faults : List StoreCallFault) (h : GuestHeap)
    (key : Block) (p q : ℕ) : Asking (SdkResult StoreReply) :=
  match HostAbi.writeResult h p q 0 0 with
  | none => .done h .trapped
  | some h => (HostAbi.slungStoreGet A sdk ctx faults h key p q).andThen (sdk.received A p q)

/-- `set` and `StoreSet` -/
def storeSet (ctx : StoreContext) (faults : List StoreCallFault) (h : GuestHeap) (key value : Block) :
    Asking (SdkResult StoreReply) :=
  (HostAbi.slungStoreSet ctx faults h key value).andThen fun h result => (h, ofHost setStatus result)

/-- `delete` and `StoreDelete` -/
def storeDelete (ctx : StoreContext) (faults : List StoreCallFault) (h : GuestHeap) (key : Block) :
    Asking (SdkResult StoreReply) :=
  (HostAbi.slungStoreDelete ctx faults h key).andThen fun h result => (h, ofHost deleteStatus result)

end Sdk

/-! ## Modules that share a storage -/

/-- A call of the SDK, with where its arguments are; a `get` has two variables. -/
inductive StoreCall where
  | get (key : Block) (p q : ℕ)
  | set (key value : Block)
  | delete (key : Block)
deriving DecidableEq, Repr

structure ModuleInstance where
  ctx : StoreContext
  sdk : Sdk
deriving DecidableEq, Repr

namespace StoreCall

/-- The variables of a call. -/
def locals : StoreCall → List Block
  | .get _ p q => [word p, word q]
  | .set _ _ | .delete _ => []

/-- The arguments are slices of the module, which no variable of the SDK overlaps. -/
def Fits (h : GuestHeap) : StoreCall → Prop
  | .get key p q => word p ∈ h.live ∧ word q ∈ h.live ∧ p ≠ q ∧ h.Valid [word p, word q] key
  | .set key value => h.Valid [] key ∧ h.Valid [] value
  | .delete key => h.Valid [] key

instance (h : GuestHeap) : DecidablePred (Fits h)
  | .get key p q =>
    inferInstanceAs (Decidable (word p ∈ h.live ∧ word q ∈ h.live ∧ p ≠ q ∧ h.Valid [word p, word q] key))
  | .set key value => inferInstanceAs (Decidable (h.Valid [] key ∧ h.Valid [] value))
  | .delete key => inferInstanceAs (Decidable (h.Valid [] key))

/-- What is called, with the bytes that are there. -/
def op (h : GuestHeap) : StoreCall → Option KeyOp
  | .get key _ _ => (h.get key).map .get
  | .set key value => (h.get key).bind fun k => (h.get value).map (.set k)
  | .delete key => (h.get key).map .delete

def start (A : GuestAllocator) (m : ModuleInstance) (faults : List StoreCallFault) (h : GuestHeap) :
    StoreCall → Asking (SdkResult StoreReply)
  | .get key p q => m.sdk.storeGet A m.ctx faults h key p q
  | .set key value => Sdk.storeSet m.ctx faults h key value
  | .delete key => Sdk.storeDelete m.ctx faults h key

end StoreCall

/-- What is remembered of a call that has returned. -/
structure StoreEntry where
  ctx : StoreContext
  call : StoreCall
  op : KeyOp
  faults : List StoreCallFault
  /-- the memory of the instance when it calls, and when the call returns -/
  before : GuestHeap
  after : GuestHeap
  /-- the number of the call of the storage, with what it returned; `none` where the storage is not asked -/
  answer : Option (ℕ × Option StoreReply)
  result : SdkResult StoreReply

/-- An instance that waits for the storage. -/
structure WaitingCall where
  id : ℕ
  call : StoreCall
  op : KeyOp
  faults : List StoreCallFault
  before : GuestHeap
  next : GuestHeap → Option StoreReply → GuestHeap × SdkResult StoreReply

structure Modules (δ : Type) where
  store : ModuleStore δ
  /-- the memory of each instance, by number -/
  heap : ℕ → GuestHeap
  waiting : ℕ → Option WaitingCall
  log : List StoreEntry
  /-- the process has stopped -/
  stopped : Bool

namespace Modules

variable {δ φ : Type} (db : Sqlite δ φ)

inductive Label (φ : Type) where
  /-- an instance computes for itself -/
  | work (i : ℕ) (h : GuestHeap)
  | call (i : ℕ) (c : StoreCall) (faults : List StoreCallFault)
  /-- the next statement of a call of the storage -/
  | statement (id : ℕ) (outcome : φ) (ok : Bool)
  /-- the call of the storage has returned -/
  | resume (i : ℕ)

/-- The instance whose memory a step concerns. -/
def Label.guest : Label φ → Option ℕ
  | .work i _ | .call i _ _ | .resume i => some i
  | .statement _ _ _ => none

/-- The storage is open and nobody has called. -/
def opened (d : δ) (heap : ℕ → GuestHeap) : Modules δ := ⟨ModuleStore.opened d, heap, fun _ => none, [], false⟩

/-- A call ends without the storage, or asks it and waits. -/
def call (A : GuestAllocator) (m : ModuleInstance) (s : Modules δ) (i : ℕ) (c : StoreCall)
    (faults : List StoreCallFault) (op : KeyOp) : Modules δ :=
  match c.start A m faults (s.heap i) with
  | .done h result => { s with
      heap := Function.update s.heap i h
      log := s.log ++ [⟨m.ctx, c, op, faults, s.heap i, h, none, result⟩] }
  | .ask h asked next => { s with
      store := s.store.call asked
      heap := Function.update s.heap i h
      waiting := Function.update s.waiting i (some ⟨s.store.next, c, op, faults, s.heap i, next⟩) }

/-- The instance goes on with what the storage returned. -/
def resume (m : ModuleInstance) (s : Modules δ) (i : ℕ) (w : WaitingCall) (reply : Option StoreReply) : Modules δ :=
  let (h, result) := w.next (s.heap i) reply
  { s with
    heap := Function.update s.heap i h
    waiting := Function.update s.waiting i none
    log := s.log ++ [⟨m.ctx, w.call, w.op, w.faults, w.before, h, some (w.id, reply), result⟩] }

/-- What the storage returned for a call. -/
def reply (s : ModuleStore δ) (id : ℕ) : Option (Option StoreReply) :=
  (s.returned.find? fun e => e.1 = id).map fun e => e.2.2

/-- The calls of one module that took effect, in that order. -/
def effects (namespaceId moduleName : Bytes) (s : ModuleStore δ) : List (KeyOp × StoreReply) :=
  (s.log.map Prod.snd).filterMap fun e => (KeyOp.ofStore namespaceId moduleName e.1).map fun op => (op, e.2)

end Modules

/-- The instances `inst` share a storage. -/
def modules {δ φ : Type} (db : Sqlite δ φ) (A : GuestAllocator) (inst : ℕ → ModuleInstance) :
    Machine (Modules δ) (Modules.Label φ) where
  step s l :=
    if s.stopped then none
    else
      match l with
      | .work i h => if (s.waiting i).isSome then none else some { s with heap := Function.update s.heap i h }
      | .call i c faults =>
        if (s.waiting i).isSome then none else (c.op (s.heap i)).map fun op => s.call A (inst i) i c faults op
      | .statement id outcome ok =>
        if s.store.panics id ok then some { s with stopped := true }
        else ((moduleStore db).step s.store (.advance id outcome ok)).map fun store => { s with store := store }
      | .resume i =>
        (s.waiting i).bind fun w => (Modules.reply s.store w.id).map fun reply => s.resume (inst i) i w reply

/-! ## What a call comes to -/

/-- What the module gets of a call that does not come to the storage. -/
def KeyOp.refused : KeyOp → HostResult → SdkResult StoreReply
  | .get _ => Sdk.ofHost Sdk.getStatus
  | .set _ _ => Sdk.ofHost Sdk.setStatus
  | .delete _ => Sdk.ofHost Sdk.deleteStatus

/-- An error of the storage is passed on as one, and so is an answer, unless there is no room for a value. -/
def Heard : Option StoreReply → SdkResult StoreReply → Prop
  | none, r => ∃ operation, r = .failed operation 2
  | some reply, r => r = .ok reply ∨ ∃ bytes, reply = .value (some bytes) ∧ r = .failed "slung_store_get" 2

section

variable {δ φ : Type} {db : Sqlite δ φ} {A : GuestAllocator} {sdk : Sdk} {ctx : StoreContext}
  {h h' h₁ : GuestHeap} {key value : Block} {k v : Bytes} {p q : ℕ} {op : KeyOp}
  {c : StoreCall} {r : SdkResult StoreReply}

/-- A call goes on in a memory that it has not changed, apart from its variables. -/
structure Resumes (db : Sqlite δ φ) (h : GuestHeap) (c : StoreCall) (op : StoreOp) (h₁ : GuestHeap)
    (next : GuestHeap → Option StoreReply → GuestHeap × SdkResult StoreReply) : Prop where
  ends : ∀ reply, (∀ answer, reply = some answer → ModuleStore.Gives db op answer) → ∀ h' r,
    next h₁ reply = (h', r) → h.Keeps c.locals h' ∧ h.live.Perm h'.live ∧ Heard reply r

/-- **A `get` behind the storage**: the value comes out of the guest's memory, and its block is free again. -/
theorem Sdk.received_cases (hA : A.Lawful) (hdb : db.Limited) (hp : word p ∈ h.live) (hq : word q ∈ h.live)
    (hne : p ≠ q) {reply : Option StoreReply} (hgives : ∀ answer, reply = some answer →
      ModuleStore.Gives db ((KeyOp.get k).storeOp ctx) answer)
    (hs : sdk.received A p q (HostAbi.storeGetReturned A sdk p q h reply).1
      (HostAbi.storeGetReturned A sdk p q h reply).2 = (h', r)) :
    h.Keeps [word p, word q] h' ∧ h.live.Perm h'.live ∧ Heard reply r := by
  have hsmall : ∀ bytes, reply.bind StoreReply.found = some bytes → bytes.length < 2 ^ 32 := by
    intro bytes hbytes
    obtain ⟨answer, rfl, hfound⟩ := Option.bind_eq_some_iff.mp hbytes
    have hanswer := hgives answer rfl
    cases answer with
    | value v =>
      obtain rfl : v = some bytes := hfound
      obtain ⟨d, f, hselect⟩ := hanswer
      exact (hdb hselect).trans (by decide)
    | stored => cases hfound
    | deleted existed => cases hfound
  rcases hreturned : HostAbi.storeGetReturned A sdk p q h reply with ⟨h₁, host⟩
  rw [hreturned] at hs
  obtain ⟨hkeeps, hends⟩ := HostAbi.storeGetReturned_cases hA hp hq hne hsmall hreturned
  rcases hends with ⟨rfl, rfl, hlive⟩ | ⟨answer, rfl, hfound, rfl, hlive⟩ | ⟨answer, bytes, rfl, hfound,
    ⟨rfl, hlive⟩ | ⟨ptr, rfl, hhanded, hlive, hreadp, hreadq⟩⟩
  · obtain ⟨rfl, rfl⟩ := Prod.mk.inj hs
    exact ⟨hkeeps, hlive ▸ List.Perm.refl _, "slung_store_get", rfl⟩
  · obtain ⟨rfl, rfl⟩ := Prod.mk.inj hs
    refine ⟨hkeeps, hlive ▸ List.Perm.refl _, Or.inl ?_⟩
    have hanswer := hgives answer rfl
    cases answer with
    | value v =>
      obtain rfl : v = none := hfound
      rfl
    | stored => exact hanswer.elim
    | deleted existed => exact hanswer.elim
  · obtain ⟨rfl, rfl⟩ := Prod.mk.inj hs
    refine ⟨hkeeps, hlive ▸ List.Perm.refl _, Or.inr ⟨bytes, ?_, rfl⟩⟩
    cases answer with
    | value v => exact congrArg StoreReply.value hfound
    | stored => cases hfound
    | deleted existed => cases hfound
  · obtain ⟨h₂, hcopy, hperm, hkeeps₂⟩ := sdk.copyAndFree_handed hA hhanded
    simp only [Sdk.received, hreadp, hreadq, hcopy] at hs
    obtain ⟨rfl, rfl⟩ := Prod.mk.inj hs
    refine ⟨?_, ?_, Or.inl ?_⟩
    · have hall := (hkeeps.mono (List.subset_append_right (buffer ptr bytes) _)).trans
        (hkeeps₂.mono (List.subset_append_left _ [word p, word q]))
      exact hall.of_fresh (Heap.fresh_of_live hlive)
    · rw [hlive] at hperm
      exact (List.perm_append_left_iff _).mp hperm
    · cases answer with
      | value v =>
        obtain rfl : v = some bytes := hfound
        rfl
      | stored => cases hfound
      | deleted existed => cases hfound

/-- A call without variables only passes on what the storage returns. -/
theorem Resumes.passed_on {op : StoreOp} {next : GuestHeap → Option StoreReply → GuestHeap × SdkResult StoreReply}
    (hfailed : ∃ operation, next h none = (h, .failed operation 2))
    (hanswered : ∀ answer, ModuleStore.Gives db op answer → next h (some answer) = (h, .ok answer)) :
    Resumes db h c op h next where
  ends := by
    intro reply hgives h' r hs
    cases reply with
    | none =>
      obtain ⟨operation, herror⟩ := hfailed
      obtain ⟨rfl, rfl⟩ := Prod.mk.inj (herror.symm.trans hs)
      exact ⟨Heap.Keeps.refl _ h, List.Perm.refl _, operation, rfl⟩
    | some answer =>
      obtain ⟨rfl, rfl⟩ := Prod.mk.inj ((hanswered answer (hgives answer rfl)).symm.trans hs)
      exact ⟨Heap.Keeps.refl _ h, List.Perm.refl _, Or.inl rfl⟩

/-- **One call**: it is refused, or it asks the storage under its own name and goes on with the answer. -/
theorem StoreCall.start_cases (m : ModuleInstance) (faults : List StoreCallFault) (hA : A.Lawful) (hdb : db.Limited)
    (hfits : c.Fits h) (hop : c.op h = some op) :
    (∃ h' host, c.start A m faults h = .done h' (op.refused host) ∧ op.refusal m.ctx faults = some host ∧
      h.Keeps c.locals h' ∧ h'.live = h.live) ∨
    ∃ h₁ next, c.start A m faults h = .ask h₁ (op.storeOp m.ctx) next ∧
      Resumes db h c (op.storeOp m.ctx) h₁ next := by
  cases c with
  | get key p q =>
    obtain ⟨hp, hq, hne, hkey⟩ := hfits
    obtain ⟨k, hk, rfl⟩ := Option.map_eq_some_iff.mp hop
    obtain ⟨h₁, hzero, hlive₁, hkeeps₁, -, -⟩ :=
      HostAbi.writeResult_words hp hq hne (Nat.two_pow_pos 32) (Nat.two_pow_pos 32)
    obtain ⟨hkey₁, hget₁⟩ := hkeeps₁.get hkey
    obtain ⟨h₂, hkeeps₂, hlive₂, hhost⟩ := HostAbi.slungStoreGet_eq A m.sdk m.ctx faults (hlive₁ ▸ hp) (hlive₁ ▸ hq)
      hne hkey₁ (hget₁.trans hk)
    have hkeeps := hkeeps₁.trans hkeeps₂
    have hlive := hlive₂.trans hlive₁
    simp only [StoreCall.start, Sdk.storeGet, hzero, hhost]
    cases hrefusal : (KeyOp.get k).refusal m.ctx faults with
    | some host =>
      refine Or.inl ⟨h₂, host, ?_, rfl, hkeeps, hlive⟩
      rcases KeyOp.refusal_cases hrefusal with rfl | ⟨rfl, -⟩ <;> rfl
    | none =>
      refine Or.inr ⟨h₂, _, rfl, ⟨fun reply hgives h' r hs => ?_⟩⟩
      obtain ⟨hkeeps₃, hperm, hheard⟩ := Sdk.received_cases hA hdb (hlive ▸ hp) (hlive ▸ hq) hne hgives hs
      exact ⟨hkeeps.trans hkeeps₃, hlive ▸ hperm, hheard⟩
  | set key value =>
    obtain ⟨hkey, hvalue⟩ := hfits
    obtain ⟨k, hk, hrest⟩ := Option.bind_eq_some_iff.mp hop
    obtain ⟨v, hv, rfl⟩ := Option.map_eq_some_iff.mp hrest
    simp only [StoreCall.start, Sdk.storeSet, HostAbi.slungStoreSet_eq hkey hvalue hk hv]
    cases hrefusal : (KeyOp.set k v).refusal m.ctx faults with
    | some host => exact Or.inl ⟨h, host, rfl, rfl, Heap.Keeps.refl _ h, rfl⟩
    | none =>
      refine Or.inr ⟨h, _, rfl, Resumes.passed_on ⟨"slung_store_set", rfl⟩ fun answer hgives => ?_⟩
      cases answer with
      | value v => exact hgives.elim
      | stored => rfl
      | deleted existed => exact hgives.elim
  | delete key =>
    obtain ⟨k, hk, rfl⟩ := Option.map_eq_some_iff.mp hop
    simp only [StoreCall.start, Sdk.storeDelete, HostAbi.slungStoreDelete_eq hfits hk]
    cases hrefusal : (KeyOp.delete k).refusal m.ctx faults with
    | some host => exact Or.inl ⟨h, host, rfl, rfl, Heap.Keeps.refl _ h, rfl⟩
    | none =>
      refine Or.inr ⟨h, _, rfl, Resumes.passed_on ⟨"slung_store_delete", rfl⟩ fun answer hgives => ?_⟩
      cases answer with
      | value v => exact hgives.elim
      | stored => exact hgives.elim
      | deleted existed => cases existed <;> rfl

end

namespace Modules

variable {δ φ : Type} (db : Sqlite δ φ)

/-- The modules keep to the rules of their languages, and the calls of the storage to their transactions. -/
def Allowed (s : Modules δ) : Label φ → Prop
  | .call i c _ => c.Fits (s.heap i)
  | .statement id outcome ok => ModuleStore.Owned db s.store (.advance id outcome ok)
  | .work _ _ | .resume _ => True

instance (s : Modules δ) : DecidablePred (Allowed db s)
  | .call i c _ => inferInstanceAs (Decidable (c.Fits (s.heap i)))
  | .statement id outcome ok => inferInstanceAs (Decidable (ModuleStore.Owned db s.store (.advance id outcome ok)))
  | .work _ _ | .resume _ => isTrue trivial

end Modules

/-- What the module is told, and what the storage answered: a module is told what the storage returned, or that there is
nothing, where the host had no copy of its key; and its memory is as it was, apart from the variables of the call. -/
structure StoreEntry.Honest (e : StoreEntry) : Prop where
  told : ∀ reply, e.result = .ok reply → (∃ id, e.answer = some (id, some reply)) ∨
    (e.answer = none ∧ e.op.unread e.faults ∧ e.op.absent = some reply)
  heard : ∀ id reply, e.answer = some (id, reply) → Heard reply e.result
  refused : e.answer = none → e.ctx.storage = false ∨ e.op.unread e.faults
  returns : e.result ≠ .trapped ∧ e.result ≠ .panicked
  keeps : e.before.Keeps e.call.locals e.after
  live : e.before.live.Perm e.after.live

/-- Whoever is refused is told so, or has no copy of its key on the host. -/
theorem KeyOp.refused_honest {ctx : StoreContext} {c : StoreCall} {faults : List StoreCallFault} {op : KeyOp}
    {host : HostResult} {h h' : GuestHeap} (hr : op.refusal ctx faults = some host) (hkeeps : h.Keeps c.locals h')
    (hlive : h'.live = h.live) : StoreEntry.Honest ⟨ctx, c, op, faults, h, h', none, op.refused host⟩ := by
  have hcases := KeyOp.refusal_cases hr
  refine ⟨fun reply hok => Or.inr ⟨rfl, ?_⟩, fun id reply hnone => (by cases hnone), fun _ => ?_, ?_, hkeeps,
    hlive ▸ List.Perm.refl _⟩
  · rcases hcases with rfl | ⟨rfl, hunread⟩
    · cases op <;> cases hok
    · cases op with
      | get k => exact ⟨hunread, congrArg some (SdkResult.ok.inj hok)⟩
      | set k v => cases hok
      | delete k => exact ⟨hunread, congrArg some (SdkResult.ok.inj hok)⟩
  · by_cases hstorage : ctx.storage = false
    · exact Or.inl hstorage
    · refine Or.inr (hcases.elim (fun hhost => ?_) And.right)
      by_contra hread
      rw [KeyOp.refusal, if_neg (not_not.mpr (Bool.eq_true_of_not_eq_false hstorage)), if_neg hread] at hr
      cases hr
  · rcases hcases with rfl | ⟨rfl, -⟩ <;> cases op <;> exact ⟨fun h => (by cases h), fun h => (by cases h)⟩

/-- Whoever has asked the storage is told what it returned. -/
theorem Heard.honest {ctx : StoreContext} {c : StoreCall} {faults : List StoreCallFault} {op : KeyOp} {id : ℕ}
    {reply : Option StoreReply} {result : SdkResult StoreReply} {h h' : GuestHeap} (hr : Heard reply result)
    (hkeeps : h.Keeps c.locals h') (hperm : h.live.Perm h'.live) :
    StoreEntry.Honest ⟨ctx, c, op, faults, h, h', some (id, reply), result⟩ := by
  refine ⟨fun reply' hok => Or.inl ⟨id, ?_⟩, fun id' reply' hsome => ?_, fun hnone => (by cases hnone), ?_, hkeeps,
    hperm⟩
  · obtain rfl : result = .ok reply' := hok
    cases reply with
    | none =>
      obtain ⟨operation, hfailed⟩ := hr
      cases hfailed
    | some answer =>
      rcases hr with hok | ⟨bytes, -, hfailed⟩
      · rw [SdkResult.ok.inj hok]
      · cases hfailed
  · obtain ⟨-, rfl⟩ := Prod.mk.inj (Option.some.inj hsome)
    exact hr
  · cases reply with
    | none =>
      obtain ⟨operation, rfl⟩ := hr
      exact ⟨fun h => (by cases h), fun h => (by cases h)⟩
    | some answer =>
      rcases hr with rfl | ⟨bytes, -, rfl⟩
      · exact ⟨fun h => (by cases h), fun h => (by cases h)⟩
      · exact ⟨fun h => (by cases h), fun h => (by cases h)⟩

namespace Modules

variable {δ φ : Type} {db : Sqlite δ φ}

/-- A waiting instance has a call of the storage under its own name, and goes on with what that returns. -/
structure Ready (db : Sqlite δ φ) (s : ModuleStore δ) (h : GuestHeap) (ctx : StoreContext) (w : WaitingCall) :
    Prop where
  old : w.id < s.next
  inFlight : ∀ op pc, s.calls w.id = some (op, pc) → op = w.op.storeOp ctx
  returned : ∀ op reply, (w.id, op, reply) ∈ s.returned →
    op = w.op.storeOp ctx ∧ ∀ answer, reply = some answer → ModuleStore.Gives db op answer
  resumes : Resumes db w.before w.call (w.op.storeOp ctx) h w.next

structure Sound (db : Sqlite δ φ) (inst : ℕ → ModuleInstance) (s : Modules δ) : Prop where
  waiting : ∀ i w, s.waiting i = some w → Ready db s.store (s.heap i) (inst i).ctx w
  honest : ∀ e ∈ s.log, e.Honest
  asked : ∀ e ∈ s.log, ∀ id reply, e.answer = some (id, reply) → (id, e.op.storeOp e.ctx, reply) ∈ s.store.returned
  stops : s.stopped = true → ∃ id op pc, s.store.calls id = some (op, pc) ∧ op.binds = false

section

variable {A : GuestAllocator} {inst : ℕ → ModuleInstance} {s s' : Modules δ} {i : ℕ} {c : StoreCall}
  {faults : List StoreCallFault} {l : Label φ} {h : GuestHeap} {ctx : StoreContext} {w : WaitingCall}

theorem forall_mem_concat {α : Type} {P : α → Prop} {xs : List α} {x : α} (hxs : ∀ y ∈ xs, P y) (hx : P x) :
    ∀ y ∈ xs ++ [x], P y := fun y hy =>
  (List.mem_append.mp hy).elim (hxs y) fun hnew => List.mem_singleton.mp hnew ▸ hx

theorem Ready.call {store : ModuleStore δ} (hw : Ready db store h ctx w) (op : StoreOp) :
    Ready db (store.call op) h ctx w where
  old := Nat.lt_succ_of_lt hw.old
  inFlight op' pc hc := hw.inFlight op' pc ((Function.update_of_ne (Nat.ne_of_lt hw.old) _ _).symm.trans hc)
  returned := hw.returned
  resumes := hw.resumes

theorem Ready.advance {store : ModuleStore δ} (hw : Ready db store h ctx w) (hb : ModuleStore.Booked store) {id : ℕ}
    {op : StoreOp} {pc : StorePc} (hc : store.calls id = some (op, pc)) (outcome : φ) (ok : Bool) :
    Ready db (store.advance db id op outcome ok pc) h ctx w := by
  have hop : w.id = id → op = w.op.storeOp ctx := fun heq => hw.inFlight op pc (heq ▸ hc)
  refine ⟨ModuleStore.advance_next db store id op outcome ok pc ▸ hw.old, fun op' pc' hc' => ?_,
    fun op' reply hreply => ?_, hw.resumes⟩
  · rcases ModuleStore.advance_cases hb hc outcome ok with ⟨pc₁, hcalls, -⟩ | ⟨reply, hcalls, -, -⟩
    · rw [hcalls, Function.update_apply] at hc'
      split_ifs at hc' with heq
      · obtain ⟨rfl, -⟩ := Prod.mk.inj (Option.some.inj hc')
        exact hop heq
      · exact hw.inFlight op' pc' hc'
    · rw [hcalls, Function.update_apply] at hc'
      split_ifs at hc'
      exact hw.inFlight op' pc' hc'
  · rcases ModuleStore.advance_cases hb hc outcome ok with ⟨pc₁, -, hreturned⟩ | ⟨reply', -, hreturned, hgives⟩
    · rw [hreturned] at hreply
      exact hw.returned op' reply hreply
    · rw [hreturned] at hreply
      rcases List.mem_append.mp hreply with hold | hnew
      · exact hw.returned op' reply hold
      · obtain ⟨hid, rest⟩ := Prod.mk.inj (List.mem_singleton.mp hnew)
        obtain ⟨rfl, rfl⟩ := Prod.mk.inj rest
        exact ⟨hop hid, hgives⟩

/-- An instance whose call comes to the storage is ready for what it returns. -/
theorem Ready.asked {store : ModuleStore δ} (hb : ModuleStore.Booked store) {op : KeyOp} {before : GuestHeap}
    {next : GuestHeap → Option StoreReply → GuestHeap × SdkResult StoreReply}
    (hresumes : Resumes db before c (op.storeOp ctx) h next) :
    Ready db (store.call (op.storeOp ctx)) h ctx ⟨store.next, c, op, faults, before, next⟩ where
  old := Nat.lt_succ_self _
  inFlight op' pc hc := by
    simp only [ModuleStore.call, Function.update_self] at hc
    exact (Prod.mk.inj (Option.some.inj hc)).1.symm
  returned op' reply hreply :=
    absurd (hb.old store.next (Or.inr (List.mem_map_of_mem hreply))) (Nat.lt_irrefl _)
  resumes := hresumes

theorem Sound.call (hs : Sound db inst s) (hb : ModuleStore.Booked s.store) (hA : A.Lawful) (hdb : db.Limited)
    (hidle : s.waiting i = none) (hrunning : s.stopped = false) {op : KeyOp} (hfits : c.Fits (s.heap i))
    (hop : c.op (s.heap i) = some op) : Sound db inst (s.call A (inst i) i c faults op) := by
  have hwaiting : ∀ {heap j w}, s.waiting j = some w → Function.update s.heap i heap j = s.heap j := by
    intro heap j w hj
    refine Function.update_of_ne ?_ _ _
    rintro rfl
    cases hidle.symm.trans hj
  unfold Modules.call
  rcases StoreCall.start_cases (inst i) faults hA hdb hfits hop with
    ⟨h', host, hstart, hrefusal, hkeeps, hlive⟩ | ⟨h₁, next, hstart, hresumes⟩
  · simp only [hstart]
    refine ⟨fun j w hj => ?_, forall_mem_concat hs.honest (KeyOp.refused_honest hrefusal hkeeps hlive), ?_, hs.stops⟩
    · simp only [hwaiting hj]
      exact hs.waiting j w hj
    · exact forall_mem_concat hs.asked fun id reply hnone => by cases hnone
  · simp only [hstart]
    refine ⟨fun j w hj => ?_, hs.honest, hs.asked, fun hstopped => ?_⟩
    · simp only [Function.update_apply] at hj ⊢
      split_ifs at hj ⊢ with heq
      · obtain rfl := Option.some.inj hj
        subst heq
        exact Ready.asked hb hresumes
      · exact (hs.waiting j w hj).call _
    · cases hrunning.symm.trans hstopped

theorem Sound.statement (hs : Sound db inst s) (hb : ModuleStore.Booked s.store) (hrunning : s.stopped = false) {id : ℕ}
    {op : StoreOp} {pc : StorePc} (hc : s.store.calls id = some (op, pc)) (outcome : φ) (ok : Bool) :
    Sound db inst { s with store := s.store.advance db id op outcome ok pc } where
  waiting j w hj := (hs.waiting j w hj).advance hb hc outcome ok
  honest := hs.honest
  asked e he id' reply hanswer := by
    have hold := hs.asked e he id' reply hanswer
    rcases ModuleStore.advance_cases hb hc outcome ok with ⟨pc', -, hreturned⟩ | ⟨reply', -, hreturned, -⟩
    · exact hreturned ▸ hold
    · exact hreturned ▸ List.mem_append_left _ hold
  stops hstopped := by cases hrunning.symm.trans hstopped

theorem Sound.resume (hs : Sound db inst s) (hrunning : s.stopped = false) (hw : s.waiting i = some w)
    {reply : Option StoreReply} (hreply : Modules.reply s.store w.id = some reply) :
    Sound db inst (s.resume (inst i) i w reply) := by
  obtain ⟨⟨id, op, reply'⟩, hfound, rfl⟩ := Option.map_eq_some_iff.mp hreply
  have hid := List.find?_some hfound
  obtain rfl : id = w.id := of_decide_eq_true hid
  have hmem := List.mem_of_find?_eq_some hfound
  have hready := hs.waiting i w hw
  obtain ⟨rfl, hgives⟩ := hready.returned op reply' hmem
  rcases hnext : w.next (s.heap i) reply' with ⟨h', result⟩
  obtain ⟨hkeeps, hperm, hheard⟩ := hready.resumes.ends reply' hgives h' result hnext
  unfold Modules.resume
  simp only [hnext]
  refine ⟨fun j w' hj => ?_, forall_mem_concat hs.honest (hheard.honest hkeeps hperm), ?_, fun hstopped => ?_⟩
  · simp only [Function.update_apply] at hj ⊢
    split_ifs at hj ⊢
    exact hs.waiting j w' hj
  · refine forall_mem_concat hs.asked fun id reply hanswer => ?_
    obtain ⟨rfl, rfl⟩ := Prod.mk.inj (Option.some.inj hanswer)
    exact hmem
  · cases hrunning.symm.trans hstopped

/-- A step of the modules leaves the storage alone, or is one of its steps. -/
theorem store_step (hA : A.Lawful) (hdb : db.Limited) (hallowed : Allowed db s l)
    (hstep : (modules db A inst).step s l = some s') :
    s'.store = s.store ∨ ∃ l', ModuleStore.Owned db s.store l' ∧ (moduleStore db).step s.store l' = some s'.store := by
  simp only [modules] at hstep
  obtain ⟨hstopped, hstep⟩ := Option.ite_none_left_eq_some.mp hstep
  cases l with
  | work i h =>
    obtain ⟨-, hstep⟩ := Option.ite_none_left_eq_some.mp hstep
    obtain rfl := Option.some.inj hstep
    exact Or.inl rfl
  | call i c faults =>
    obtain ⟨-, hstep⟩ := Option.ite_none_left_eq_some.mp hstep
    obtain ⟨op, hop, rfl⟩ := Option.map_eq_some_iff.mp hstep
    unfold Modules.call
    rcases StoreCall.start_cases (inst i) faults hA hdb hallowed hop with
      ⟨h', host, hstart, -⟩ | ⟨h₁, next, hstart, -⟩
    · rw [hstart]
      exact Or.inl rfl
    · rw [hstart]
      exact Or.inr ⟨.call (op.storeOp (inst i).ctx), trivial, rfl⟩
  | statement id outcome ok =>
    simp only at hstep
    by_cases hpanics : s.store.panics id ok = true
    · rw [if_pos hpanics] at hstep
      obtain rfl := Option.some.inj hstep
      exact Or.inl rfl
    · rw [if_neg hpanics] at hstep
      obtain ⟨store, hstore, rfl⟩ := Option.map_eq_some_iff.mp hstep
      exact Or.inr ⟨.advance id outcome ok, hallowed, hstore⟩
  | resume i =>
    obtain ⟨w, -, hrest⟩ := Option.bind_eq_some_iff.mp hstep
    obtain ⟨reply, -, rfl⟩ := Option.map_eq_some_iff.mp hrest
    exact Or.inl rfl

/-- **What the storage does in a run of the modules is a run of its own.** -/
theorem store_reaches (hA : A.Lawful) (hdb : db.Limited) {s₀ : Modules δ}
    (h : (modules db A inst).Reaches (Allowed db) s₀ s) :
    (moduleStore db).Reaches (ModuleStore.Owned db) s₀.store s.store :=
  h.invariant (I := fun s => (moduleStore db).Reaches (ModuleStore.Owned db) s₀.store s.store) .refl
    fun s s' l hrun hallowed hstep => by
      rcases store_step hA hdb hallowed hstep with hsame | ⟨l', howned, hstore⟩
      · exact hsame ▸ hrun
      · exact hrun.step howned hstore

theorem Sound.step (hs : Sound db inst s) (hb : ModuleStore.Booked s.store) (hA : A.Lawful) (hdb : db.Limited)
    (hallowed : Allowed db s l) (hstep : (modules db A inst).step s l = some s') : Sound db inst s' := by
  simp only [modules] at hstep
  obtain ⟨hstopped, hstep⟩ := Option.ite_none_left_eq_some.mp hstep
  have hrunning : s.stopped = false := eq_false_of_ne_true hstopped
  cases l with
  | work i h =>
    obtain ⟨hidle, hstep⟩ := Option.ite_none_left_eq_some.mp hstep
    obtain rfl := Option.some.inj hstep
    refine ⟨fun j w hj => ?_, hs.honest, hs.asked, hs.stops⟩
    have hne : j ≠ i := by
      rintro rfl
      exact hidle (by rw [hj]; rfl)
    simp only [Function.update_of_ne hne]
    exact hs.waiting j w hj
  | call i c faults =>
    obtain ⟨hidle, hstep⟩ := Option.ite_none_left_eq_some.mp hstep
    obtain ⟨op, hop, rfl⟩ := Option.map_eq_some_iff.mp hstep
    exact hs.call hb hA hdb (Option.not_isSome_iff_eq_none.mp hidle) hrunning hallowed hop
  | statement id outcome ok =>
    simp only at hstep
    by_cases hpanics : s.store.panics id ok = true
    · rw [if_pos hpanics] at hstep
      obtain rfl := Option.some.inj hstep
      refine ⟨hs.waiting, hs.honest, hs.asked, fun _ => ?_⟩
      unfold ModuleStore.panics at hpanics
      split at hpanics
      · exact ⟨id, _, _, ‹_›, by simp only [Bool.and_eq_true, Bool.not_eq_true'] at hpanics; exact hpanics.2⟩
      · exact ⟨id, _, _, ‹_›, by simp only [Bool.and_eq_true, Bool.not_eq_true'] at hpanics; exact hpanics.2⟩
      · cases hpanics
    · rw [if_neg hpanics] at hstep
      obtain ⟨store, hstore, rfl⟩ := Option.map_eq_some_iff.mp hstep
      obtain ⟨⟨op, pc⟩, hc, rfl⟩ := Option.map_eq_some_iff.mp hstore
      exact hs.statement hb hrunning hc outcome ok
  | resume i =>
    obtain ⟨w, hw, hrest⟩ := Option.bind_eq_some_iff.mp hstep
    obtain ⟨reply, hreply, rfl⟩ := Option.map_eq_some_iff.mp hrest
    exact hs.resume hrunning hw hreply

/-- The run lemma. -/
theorem Sound.reaches (hlaws : db.Lawful) (hdb : db.Limited) (hA : A.Lawful) {d : δ}
    (hd : (db.view d).working = none) {heap : ℕ → GuestHeap}
    (h : (modules db A inst).Reaches (Allowed db) (opened d heap) s) :
    (ModuleStore.Serial db (db.view d).committed s.store ∧ ModuleStore.Booked s.store) ∧ Sound db inst s := by
  refine h.invariant (I := fun s => (ModuleStore.Serial db (db.view d).committed s.store ∧
    ModuleStore.Booked s.store) ∧ Sound db inst s) ⟨⟨ModuleStore.Serial.opened hd, ModuleStore.Booked.opened d⟩, ?_⟩ ?_
  · exact ⟨nofun, fun e he => absurd he List.not_mem_nil, fun e he => absurd he List.not_mem_nil, nofun⟩
  · rintro s s' l ⟨⟨hserial, hbooked⟩, hsound⟩ hallowed hstep
    refine ⟨?_, hsound.step hbooked hA hdb hallowed hstep⟩
    rcases store_step hA hdb hallowed hstep with hsame | ⟨l', howned, hstore⟩
    · exact hsame ▸ ⟨hserial, hbooked⟩
    · exact hserial.step hlaws hbooked howned hstore

/-- A step concerns the memory of one instance, or of none. -/
theorem heap_step (hstep : (modules db A inst).step s l = some s') {j : ℕ} (hj : l.guest ≠ some j) :
    s'.heap j = s.heap j := by
  simp only [modules] at hstep
  obtain ⟨hstopped, hstep⟩ := Option.ite_none_left_eq_some.mp hstep
  cases l with
  | work i h =>
    obtain ⟨-, hstep⟩ := Option.ite_none_left_eq_some.mp hstep
    obtain rfl := Option.some.inj hstep
    exact Function.update_of_ne (fun heq => hj (congrArg some heq.symm)) _ _
  | call i c faults =>
    obtain ⟨-, hstep⟩ := Option.ite_none_left_eq_some.mp hstep
    obtain ⟨op, hop, rfl⟩ := Option.map_eq_some_iff.mp hstep
    unfold Modules.call
    split <;> exact Function.update_of_ne (fun heq => hj (congrArg some heq.symm)) _ _
  | statement id outcome ok =>
    simp only at hstep
    by_cases hpanics : s.store.panics id ok = true
    · rw [if_pos hpanics] at hstep
      obtain rfl := Option.some.inj hstep
      rfl
    · rw [if_neg hpanics] at hstep
      obtain ⟨store, hstore, rfl⟩ := Option.map_eq_some_iff.mp hstep
      rfl
  | resume i =>
    obtain ⟨w, -, hrest⟩ := Option.bind_eq_some_iff.mp hstep
    obtain ⟨reply, -, rfl⟩ := Option.map_eq_some_iff.mp hrest
    exact Function.update_of_ne (fun heq => hj (congrArg some heq.symm)) _ _

end

end Modules

variable {δ φ : Type} {db : Sqlite δ φ} {A : GuestAllocator} {inst : ℕ → ModuleInstance}

/-- **Every module sees a map of its own**: in whatever order the instances of any modules call the store through
their SDKs and the statements of these calls run, as long as nobody rolls back a transaction of another call or fails to
end its own, the calls of one module that took effect got the answers of a map from keys to values that nobody else
uses, which its committed rows are.  A call that asks the storage is told what it returned: an error, of a call that
took no effect; or an answer, of one that did, or of a read which saw what a call had stored or deleted under the same
key in its open transaction.  A value without room in the module is an error too.  What else a module is told is that
there is nothing, where the host had no copy of its key; only a key, a value or a name of `2 ^ 31` bytes or more stops
the process; and a call leaves all blocks in use as they were but the two variables of a `get`. -/
theorem modules_see_private_maps (hlaws : db.Lawful) (hdb : db.Limited) (hA : A.Lawful) (d : δ)
    (hd : (db.view d).working = none) (heap : ℕ → GuestHeap) {s : Modules δ}
    (h : (modules db A inst).Reaches (Modules.Allowed db) (Modules.opened d heap) s) :
    (∀ namespaceId moduleName, privateMap.Explains ((db.view d).committed.rows namespaceId moduleName)
      (Modules.effects namespaceId moduleName s.store) ((db.view s.store.db).committed.rows namespaceId moduleName)) ∧
    (∀ e ∈ s.log, e.Honest) ∧
    (∀ e ∈ s.log, ∀ id reply, e.answer = some (id, reply) →
      (id, e.op.storeOp e.ctx, reply) ∈ s.store.returned ∧ (reply = none → id ∉ s.store.log.map Prod.fst) ∧
      ∀ answer, reply = some answer → (id, e.op.storeOp e.ctx, answer) ∈ s.store.log ∨
        ∃ r ∈ s.store.dirty, r.id = id ∧ e.op.storeOp e.ctx = .get r.key ∧ answer = .value r.value ∧
          ModuleStore.SeenBefore db d s.store r) ∧
    (moduleStore db).Reaches (ModuleStore.Owned db) (ModuleStore.opened d) s.store ∧
    (s.stopped = true → ∃ id op pc, s.store.calls id = some (op, pc) ∧ op.binds = false) ∧
    ∀ l s', (modules db A inst).step s l = some s' → ∀ j, l.guest ≠ some j → s'.heap j = s.heap j := by
  obtain ⟨⟨hserial, hbooked⟩, hsound⟩ := Modules.Sound.reaches hlaws hdb hA hd h
  have hrun : (moduleStore db).Reaches (ModuleStore.Owned db) (ModuleStore.opened d) s.store :=
    Modules.store_reaches hA hdb h
  refine ⟨fun namespaceId moduleName => ?_, hsound.honest, fun e he id reply hanswer => ?_, hrun, hsound.stops,
    fun l s' hstep j hj => Modules.heap_step hstep hj⟩
  · exact hserial.explained.project (StoreTable.rows · namespaceId moduleName) (KeyOp.ofStore namespaceId moduleName)
      (fun t op key hkey => KeyOp.call_rows hkey) fun t op hother => KeyOp.rows_of_other hother
  · have hreturned := hsound.asked e he id reply hanswer
    refine ⟨hreturned, ?_, ?_⟩
    · rintro rfl
      exact hbooked.failed id _ hreturned
    · rintro answer rfl
      refine (hbooked.answered id _ answer hreturned).imp_right ?_
      rintro ⟨r, hr, hid, hop, hvalue⟩
      exact ⟨r, hr, hid, hop, hvalue, ModuleStore.seen_of_reaches hlaws hd hrun hr⟩

/-- Sixty-four bytes with a key at 8, a value at 16 and two variables. -/
def exampleGuest : GuestHeap where
  mem := ⟨List.replicate 8 0 ++ [107] ++ List.replicate 7 0 ++ [1, 2] ++ List.replicate 46 0, by decide⟩
  live := [⟨8, 1⟩, ⟨16, 2⟩, word 24, word 32]
  inside := by decide
  proper := by decide
  apart := by decide

/-- Two modules, one with each SDK. -/
def exampleInstances (i : ℕ) : ModuleInstance :=
  if i = 0 then ⟨⟨[110], [97], true⟩, .rust⟩ else ⟨⟨[110], [98], true⟩, .go⟩

/-- One module stores a value under a key; while its transaction is open, the other one finds nothing there, and cannot
delete; and an unread key is like none. -/
theorem modules_see_private_maps_two :
    let run : List (Modules.Label Sqlite.Outcome) := [.call 0 (.set ⟨8, 1⟩ ⟨16, 2⟩) [], .statement 0 .ok true,
      .statement 0 .ok true, .statement 0 .ok true, .call 1 (.get ⟨8, 1⟩ 24 32) [], .statement 1 .ok true, .resume 1,
      .call 1 (.delete ⟨8, 1⟩) [], .statement 2 .ok true, .resume 1, .statement 0 .ok true, .resume 0,
      .call 0 (.get ⟨8, 1⟩ 24 32) [], .statement 3 .ok true, .resume 0, .call 0 (.get ⟨8, 1⟩ 24 32) [.copyKey]]
    ∃ s, (modules Sqlite.reference (Allocator.firstFit 40) exampleInstances).runAllowed
        (Modules.Allowed Sqlite.reference) (Modules.opened emptyConnection fun _ => exampleGuest) run = some s ∧
      s.log.map StoreEntry.result = [.ok (.value none), .failed "slung_store_delete" 2, .ok .stored,
        .ok (.value (some [1, 2])), .ok (.value none)] ∧
      (∀ e ∈ s.log, e.Honest) ∧ privateMap.Explains (fun _ => none) (Modules.effects [110] [97] s.store)
        ((Sqlite.reference.view s.store.db).committed.rows [110] [97]) := by
  intro run
  have hrun : ((modules Sqlite.reference (Allocator.firstFit 40) exampleInstances).runAllowed
      (Modules.Allowed Sqlite.reference) (Modules.opened emptyConnection fun _ => exampleGuest) run).map
      (fun s => s.log.map StoreEntry.result) = some [.ok (.value none), .failed "slung_store_delete" 2, .ok .stored,
        .ok (.value (some [1, 2])), .ok (.value none)] := by decide +kernel
  obtain ⟨s, hs, hresults⟩ := Option.map_eq_some_iff.mp hrun
  have hprivate := modules_see_private_maps Sqlite.reference_lawful Sqlite.reference_limited
    (Allocator.firstFit_lawful 40) emptyConnection rfl (fun _ => exampleGuest) (Machine.reaches_of_runAllowed hs)
  exact ⟨s, hs, hresults, hprivate.2.1, hprivate.1 [110] [97]⟩

end Slung
