import Slung.Lib.Bytes
import Slung.Lib.JoinedKey
import Slung.Lib.KeyedList
import Slung.Types

/-!
# Slung.Bin.Deployment — the deployment server (`bin/deployment.zig`)

The envelope of a deployment, the record of what is deployed, and the handling of a request.  A record is kept
under `namespace/module`; `Deployments` carries the fact that no key and no namespace has two of them.
-/

namespace Slung

open Slung.Lib

structure Deployment where
  namespaceId : NamespaceId
  moduleName : Bytes
  config : Bytes
  wasm : Bytes
deriving DecidableEq, Repr

/-! ## Envelopes -/

namespace Deployment

/-- `SLNGDEP1` -/
def magic : Bytes := [83, 76, 78, 71, 68, 69, 80, 49]

def headerSize : ℕ := 24

def maxPayloadSize : ℕ := 64 * 1024 * 1024

/-- Four bytes, the highest first. -/
def readU32 (bytes : Bytes) : ℕ := leNat bytes.reverse

def writeU32 (value : ℕ) : Bytes := (leBytes 4 value).reverse

/-- The payload of an envelope: the four parts one after the other. -/
def payload (d : Deployment) : Bytes := d.namespaceId ++ d.moduleName ++ d.config ++ d.wasm

/-- The header of an envelope: the magic and the four lengths. -/
def header (d : Deployment) : Bytes :=
  magic ++ writeU32 d.namespaceId.length ++ writeU32 d.moduleName.length ++ writeU32 d.config.length ++
    writeU32 d.wasm.length

/-- `none` if the envelope would be too large. -/
def writeEnvelope (d : Deployment) : Option Bytes :=
  if headerSize + d.namespaceId.length + d.moduleName.length + d.config.length + d.wasm.length >
      maxPayloadSize then none
  else some (d.header ++ d.payload)

/-- `none` if the envelope is invalid or there is no memory for its parts. -/
def parseEnvelope (allocFails : Bool) (body : Bytes) : Option Deployment :=
  if body.length < headerSize ∨ slice body 0 8 ≠ magic then none
  else
    let namespaceLen := readU32 (slice body 8 12)
    let moduleNameLen := readU32 (slice body 12 16)
    let configLen := readU32 (slice body 16 20)
    let wasmLen := readU32 (slice body 20 24)
    let total := namespaceLen + moduleNameLen + configLen + wasmLen
    if total > maxPayloadSize ∨ headerSize + total ≠ body.length then none
    else if allocFails then none
    else
      let moduleName := headerSize + namespaceLen
      let config := moduleName + moduleNameLen
      let wasm := config + configLen
      some ⟨slice body headerSize moduleName, slice body moduleName config, slice body config wasm,
        slice body wasm (wasm + wasmLen)⟩

theorem readU32_writeU32 {n : ℕ} (h : n < 256 ^ 4) : readU32 (writeU32 n) = n := by
  rw [readU32, writeU32, List.reverse_reverse, leNat_leBytes_of_lt h]

@[simp] theorem length_writeU32 (n : ℕ) : (writeU32 n).length = 4 := by simp [writeU32]

theorem length_header (d : Deployment) : d.header.length = headerSize := by simp [header, magic, headerSize]

/-- The magic and the four lengths stand in the header. -/
theorem slice_header (d : Deployment) : slice (d.header ++ d.payload) 0 8 = magic ∧
    slice (d.header ++ d.payload) 8 12 = writeU32 d.namespaceId.length ∧
    slice (d.header ++ d.payload) 12 16 = writeU32 d.moduleName.length ∧
    slice (d.header ++ d.payload) 16 20 = writeU32 d.config.length ∧
    slice (d.header ++ d.payload) 20 24 = writeU32 d.wasm.length := by
  have hheader : SegAt (d.header ++ d.payload) 0 d.header := segAt_left _ _
  generalize d.header ++ d.payload = body at hheader ⊢
  simp only [header, segAt_append, List.length_append, length_writeU32] at hheader
  obtain ⟨⟨⟨⟨hmagic, hnamespaceLen⟩, hmoduleNameLen⟩, hconfigLen⟩, hwasmLen⟩ := hheader
  exact ⟨slice_of_segAt hmagic rfl, slice_of_segAt hnamespaceLen (by simp),
    slice_of_segAt hmoduleNameLen (by simp), slice_of_segAt hconfigLen (by simp),
    slice_of_segAt hwasmLen (by simp)⟩

/-- The four parts stand in the payload. -/
theorem slice_payload (d : Deployment) :
    slice (d.header ++ d.payload) headerSize (headerSize + d.namespaceId.length) = d.namespaceId ∧
    slice (d.header ++ d.payload) (headerSize + d.namespaceId.length)
      (headerSize + d.namespaceId.length + d.moduleName.length) = d.moduleName ∧
    slice (d.header ++ d.payload) (headerSize + d.namespaceId.length + d.moduleName.length)
      (headerSize + d.namespaceId.length + d.moduleName.length + d.config.length) = d.config ∧
    slice (d.header ++ d.payload) (headerSize + d.namespaceId.length + d.moduleName.length + d.config.length)
      (headerSize + d.namespaceId.length + d.moduleName.length + d.config.length + d.wasm.length) = d.wasm := by
  have hpayload : SegAt (d.header ++ d.payload) headerSize d.payload := by
    have hall := (segAt_append.mp (segAt_self (d.header ++ d.payload))).2
    rwa [length_header] at hall
  generalize d.header ++ d.payload = body at hpayload ⊢
  simp only [payload, segAt_append, List.length_append, ← Nat.add_assoc] at hpayload
  obtain ⟨⟨⟨hnamespace, hmoduleName⟩, hconfig⟩, hwasm⟩ := hpayload
  exact ⟨slice_of_segAt hnamespace rfl, slice_of_segAt hmoduleName rfl, slice_of_segAt hconfig rfl,
    slice_of_segAt hwasm rfl⟩

/-- A header and its payload are parsed back. -/
theorem parseEnvelope_header_payload {d : Deployment} (h : d.payload.length ≤ maxPayloadSize) :
    parseEnvelope false (d.header ++ d.payload) = some d := by
  have hlength : (d.header ++ d.payload).length = headerSize + d.payload.length := by
    rw [List.length_append, length_header]
  have hsum : d.payload.length = d.namespaceId.length + d.moduleName.length + d.config.length + d.wasm.length := by
    simp only [payload, List.length_append]
  have hread {n : ℕ} (hn : n ≤ maxPayloadSize) : readU32 (writeU32 n) = n := by
    refine readU32_writeU32 ?_
    simp only [maxPayloadSize] at hn
    omega
  obtain ⟨hmagic, hnamespaceLen, hmoduleNameLen, hconfigLen, hwasmLen⟩ := d.slice_header
  obtain ⟨hnamespace, hmoduleName, hconfig, hwasm⟩ := d.slice_payload
  unfold parseEnvelope
  rw [if_neg (by rw [hmagic, hlength]; simp)]
  simp only [hnamespaceLen, hmoduleNameLen, hconfigLen, hwasmLen]
  rw [hread (by omega), hread (by omega), hread (by omega), hread (by omega), hnamespace, hmoduleName, hconfig,
    hwasm, if_neg (by omega), if_neg Bool.false_ne_true]

/-- **An envelope that was written is parsed back.** -/
theorem parseEnvelope_writeEnvelope {d : Deployment} {body : Bytes} (h : d.writeEnvelope = some body) :
    parseEnvelope false body = some d := by
  unfold writeEnvelope at h
  by_cases hlarge : headerSize + d.namespaceId.length + d.moduleName.length + d.config.length +
      d.wasm.length > maxPayloadSize
  · rw [if_pos hlarge] at h
    cases h
  rw [if_neg hlarge] at h
  obtain rfl := Option.some.inj h
  refine parseEnvelope_header_payload ?_
  simp only [payload, List.length_append]
  omega

end Deployment

/-! ## The record of what is deployed -/

/-- `namespace/module` -/
def Deployment.key (d : Deployment) : Bytes := joinKey 47 d.namespaceId d.moduleName

/-- The records under their keys, in the order in which the hash map is iterated. -/
structure Deployments where
  entries : List (Bytes × Deployment)
  keyed : ∀ e ∈ entries, e.1 = e.2.key
  keys : (entries.map Prod.fst).Nodup
  namespaces : (entries.map fun e => e.2.namespaceId).Nodup

/-- Where `put` may fail. -/
inductive StoreFault where
  | allocPrint | lock
  /-- the copy of the namespace, or the entry of the map -/
  | store
  /-- the copy of the module's name, of its configuration or of its code -/
  | copy
deriving DecidableEq, Repr

inductive DeployErr where
  | outOfMemory | canceled | missingDeploymentContext
  /-- slices that were never set are freed, and what the process does then is not defined -/
  | invalidFree
  /-- the request could not be read -/
  | body
  /-- the module could not be loaded or started -/
  | activation
deriving DecidableEq, Repr

namespace Deployments

def empty : Deployments := ⟨[], by simp, by simp, by simp⟩

/-- The records without the one of a namespace and the one under a key. -/
def without (self : Deployments) (namespaceId : NamespaceId) (key : Bytes) : Deployments where
  entries := (self.entries.eraseP fun e => e.2.namespaceId == namespaceId).eraseP fun e => e.1 == key
  keyed e he := self.keyed e (List.mem_of_mem_eraseP (List.mem_of_mem_eraseP he))
  keys := self.keys.sublist ((List.eraseP_sublist.trans List.eraseP_sublist).map _)
  namespaces := self.namespaces.sublist ((List.eraseP_sublist.trans List.eraseP_sublist).map _)

theorem entries_without (self : Deployments) (namespaceId : NamespaceId) (key : Bytes) :
    (self.without namespaceId key).entries =
      (self.entries.filter fun e => e.2.namespaceId != namespaceId).filter fun e => e.1 != key := by
  have hkeys : ((self.entries.eraseP fun e => e.2.namespaceId == namespaceId).map Prod.fst).Nodup :=
    self.keys.sublist (List.eraseP_sublist.map _)
  show (self.entries.eraseP fun e => e.2.namespaceId == namespaceId).eraseP (fun e => e.1 == key) = _
  rw [eraseP_eq_filter hkeys key, eraseP_eq_filter self.namespaces namespaceId]

theorem key_notMem_without (self : Deployments) (namespaceId : NamespaceId) (key : Bytes) :
    key ∉ (self.without namespaceId key).entries.map Prod.fst := by
  rw [entries_without]
  simp

theorem namespace_notMem_without (self : Deployments) (namespaceId : NamespaceId) (key : Bytes) :
    namespaceId ∉ (self.without namespaceId key).entries.map fun e => e.2.namespaceId := by
  rw [entries_without]
  simp

/-- The records with a deployment in the place of the one of its namespace and the one under its key. -/
def replace (self : Deployments) (d : Deployment) : Deployments where
  entries := (self.without d.namespaceId d.key).entries ++ [(d.key, d)]
  keyed e he := by
    rcases List.mem_append.mp he with hold | hnew
    · exact (self.without d.namespaceId d.key).keyed e hold
    · rw [List.mem_singleton.mp hnew]
  keys := by
    rw [List.map_append, List.map_singleton, ← List.concat_eq_append, List.nodup_concat]
    exact ⟨self.key_notMem_without d.namespaceId d.key, (self.without d.namespaceId d.key).keys⟩
  namespaces := by
    rw [List.map_append, List.map_singleton, ← List.concat_eq_append, List.nodup_concat]
    exact ⟨self.namespace_notMem_without d.namespaceId d.key,
      (self.without d.namespaceId d.key).namespaces⟩

/-- Take a deployment in, and say whether it is the first of its namespace.  The old records are gone before
the new one has its memory. -/
def put (fault : Option StoreFault) (self : Deployments) (d : Deployment) :
    Deployments × Except DeployErr Bool :=
  match fault with
  | some .allocPrint => (self, .error .outOfMemory)
  | some .lock => (self, .error .canceled)
  | some .store => (self.without d.namespaceId d.key, .error .outOfMemory)
  -- the `errdefer` frees all four parts of the new record, and its later ones are `undefined`
  | some .copy => (self.without d.namespaceId d.key, .error .invalidFree)
  | none => (self.replace d, .ok (self.entries.all fun e => e.2.namespaceId != d.namespaceId))

/-- A call frees what it has set, unless a part of the module cannot be copied. -/
theorem put_ne_invalidFree_iff {self : Deployments} {d : Deployment} {fault : Option StoreFault} :
    (self.put fault d).2 ≠ .error .invalidFree ↔ fault ≠ some .copy := by
  rcases fault with _ | fault
  · simp [put]
  · cases fault <;> simp [put]

/-- The deployment of a namespace. -/
def stored (self : Deployments) (namespaceId : NamespaceId) : Option Deployment :=
  (self.entries.find? fun e => e.2.namespaceId == namespaceId).map Prod.snd

theorem stored_eq_some_iff {self : Deployments} {namespaceId : NamespaceId} {d : Deployment} :
    self.stored namespaceId = some d ↔ (d.key, d) ∈ self.entries ∧ d.namespaceId = namespaceId := by
  rw [stored, Option.map_eq_some_iff]
  constructor
  · rintro ⟨e, hfind, rfl⟩
    obtain ⟨he, hns⟩ := (find?_eq_some_iff_mem self.namespaces).mp hfind
    rw [← self.keyed e he]
    exact ⟨he, hns⟩
  · rintro ⟨hmem, hns⟩
    exact ⟨(d.key, d), (find?_eq_some_iff_mem self.namespaces).mpr ⟨hmem, hns⟩, rfl⟩

/-- Taking records out takes out the one of the namespace and the one under the key. -/
theorem stored_without (self : Deployments) (namespaceId namespaceId' : NamespaceId) (key : Bytes) :
    (self.without namespaceId key).stored namespaceId' =
      if namespaceId' = namespaceId then none else (self.stored namespaceId').filter fun d => d.key != key := by
  ext d
  rw [stored_eq_some_iff, entries_without]
  split_ifs with hns
  · subst hns
    simp
  · rw [Option.mem_def.symm, Option.mem_filter_iff, Option.mem_def, stored_eq_some_iff]
    grind

/-- Taking a deployment in gives its namespace this one. -/
theorem stored_replace (self : Deployments) (d : Deployment) (namespaceId : NamespaceId) :
    (self.replace d).stored namespaceId =
      if namespaceId = d.namespaceId then some d
      else (self.stored namespaceId).filter fun d' => d'.key != d.key := by
  have hwithout := self.stored_without d.namespaceId namespaceId d.key
  ext d'
  rw [stored_eq_some_iff]
  show (d'.key, d') ∈ (self.without d.namespaceId d.key).entries ++ [(d.key, d)] ∧ _ ↔ _
  split_ifs with hns
  · rw [if_pos hns] at hwithout
    have hnone : ¬ (self.without d.namespaceId d.key).stored namespaceId = some d' := by simp [hwithout]
    rw [stored_eq_some_iff] at hnone
    grind
  · rw [if_neg hns] at hwithout
    rw [← hwithout, stored_eq_some_iff]
    grind

end Deployments

/-! ## Requests -/

inductive Status where
  | ok | badRequest
deriving DecidableEq, Repr

structure Response where
  contentType : String
  status : Status
  body : String
deriving DecidableEq, Repr

/-- A request to deploy, and what fails while it is handled, up to the activation. -/
structure DeployRequest where
  body : Except DeployErr (Option Bytes)
  parseFails : Bool
  putFault : Option StoreFault
  headerFails : Bool

namespace DeployRequest

def respond (req : DeployRequest) (status : Status) (body : String) : Except DeployErr Response :=
  if req.headerFails then .error .outOfMemory else .ok ⟨"application/json", status, body⟩

def writeError (req : DeployRequest) (status : Status) (message : String) : Except DeployErr Response :=
  req.respond status message

/-- The deployment that the request is for, if it is for one. -/
def deployment (req : DeployRequest) : Option Deployment :=
  match req.body with
  | .ok (some body) => Deployment.parseEnvelope req.parseFails body
  | _ => none

end DeployRequest

/-- The callback gets the deployment once it is stored, and with it the context that it works on. -/
def handleDeploy {σ : Type} (onDeploy : Option (Deployment → σ → σ × Except DeployErr Unit))
    (deployments : Deployments) (context : Option σ) (req : DeployRequest) :
    (Deployments × Option σ) × Except DeployErr Response :=
  match req.body with
  | .error e => ((deployments, context), .error e)
  | .ok none => ((deployments, context), req.writeError .badRequest "deployment body is required")
  | .ok (some body) =>
    match Deployment.parseEnvelope req.parseFails body with
    | none => ((deployments, context), req.writeError .badRequest "invalid deployment envelope")
    | some deployment =>
      match deployments.put req.putFault deployment with
      | (deployments, .error e) => ((deployments, context), .error e)
      | (deployments, .ok firstDeployment) =>
        let response := req.respond .ok
          (if firstDeployment then "\x7b\n \"status\": \"first deployment\"\n\x7d"
            else "\x7b\n \"status\": \"redeployment\"\n\x7d")
        match onDeploy with
        | none => ((deployments, context), response)
        | some callback =>
          match context with
          | none => ((deployments, none), .error .missingDeploymentContext)
          | some context =>
            match callback deployment context with
            | (context, .error e) => ((deployments, some context), .error e)
            | (context, .ok ()) => ((deployments, some context), response)

end Slung
