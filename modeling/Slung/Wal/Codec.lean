import Slung.Wal.State

/-!
# Slung.Wal.Codec — the byte format of the log (`wal.zig`)

A record on disk is a little-endian `u32` length, that many bytes (a kind byte and a payload) and a
checksum of those bytes.  This module has the writer (`writeBatch`, `writeCascade`, the acknowledgement's
`writeRecord`), the cursor readers (`getU32` … `decodeMutation`) and the replay functions that read a
payload.  All allocations succeed here.

The facts: `encode` is what the writer writes (`Record.write_ok_iff`); the replay functions first decode and
then replay (`replayBody_eq`); and decoding gives the written record back iff its byte fields are within the
reader's limit (`decodeBody_readable`, `decodeBody_too_large`).
-/

namespace Slung.Wal

open Slung.Lib

/-! ## Constants -/

def recordBatch : UInt8 := 1
def recordAck : UInt8 := 2
def recordCascade : UInt8 := 3
def headerSize : ℕ := 4
def trailerSize : ℕ := 4
def maxRecordSize : ℕ := 16 * 1024 * 1024
def maxFieldSize : ℕ := 8 * 1024 * 1024
def maxMutationCount : ℕ := 1 * 1024 * 1024

/-! ## The writer -/

def checksum (bytes : Bytes) : UInt32 :=
  bytes.foldl (fun h byte => (h ^^^ byte.toUInt32) * 16777619) 2166136261

def putU32 (out : Bytes) (value : UInt32) : Bytes := out ++ leBytes 4 value.toNat

def putU64 (out : Bytes) (value : UInt64) : Bytes := out ++ leBytes 8 value.toNat

/-- A length-prefixed slice; the length is a checked cast to `u32`. -/
def putBytes (out bytes : Bytes) : Except Err Bytes :=
  if bytes.length < 2 ^ 32 then .ok (putU32 out (UInt32.ofNat bytes.length) ++ bytes)
  else .error .integerOverflow

def encodeMutation (out : Bytes) (m : FactMutation) : Except Err Bytes := do
  let out ← putBytes out m.namespaceId
  let out := putU32 out m.entity
  let out := putU32 out m.component
  let out ← putBytes out m.value
  let out := putU64 out m.timestamp.wall
  let out := putU32 out m.timestamp.logical
  let out := putU32 out m.timestamp.nodeId
  let out := putU32 out m.cause.cause
  let out := putU32 out m.cause.entity
  putBytes out m.cause.node

/-- The bytes that `writeRecord` appends to the file. -/
def writeRecord (kind : UInt8) (payload : Bytes) : Except Err Bytes :=
  if payload.length > maxRecordSize - 1 then .error .walRecordTooLarge
  else
    let length := payload.length + 1
    .ok (leBytes headerSize length ++ kind :: payload ++
      leBytes trailerSize (checksum (kind :: payload)).toNat)

def encodeMutations (out : Bytes) (mutations : List FactMutation) : Except Err Bytes :=
  if mutations.length < 2 ^ 32 then
    mutations.foldlM encodeMutation (putU32 out (UInt32.ofNat mutations.length))
  else .error .integerOverflow

def writeBatch (mutations : List FactMutation) : Except Err Bytes := do
  let payload ← encodeMutations [] mutations
  writeRecord recordBatch payload

def writeCascade (mutations : List FactMutation) (ackId : Int64) : Except Err Bytes := do
  let payload ← encodeMutations (putU64 [] ackId.toUInt64) mutations
  writeRecord recordCascade payload

/-- The record of `ack`. -/
def writeAck (id : Int64) : Except Err Bytes := writeRecord recordAck (leBytes 8 id.toUInt64.toNat)

/-- The writer of each kind of record. -/
def Record.write : Record → Except Err Bytes
  | .batch ms => writeBatch ms
  | .ack id => writeAck id
  | .cascade id ms => writeCascade ms id

/-! ## The reader -/

def getU32 (bytes : Bytes) (pos : ℕ) : Except Err (UInt32 × ℕ) :=
  if bytes.length - pos < 4 then .error .corruptWal
  else .ok (UInt32.ofNat (readLE 4 bytes pos), pos + 4)

def getU64 (bytes : Bytes) (pos : ℕ) : Except Err (UInt64 × ℕ) :=
  if bytes.length - pos < 8 then .error .corruptWal
  else .ok (UInt64.ofNat (readLE 8 bytes pos), pos + 8)

def getBytes (bytes : Bytes) (pos : ℕ) : Except Err (Bytes × ℕ) := do
  let (n, pos) ← getU32 bytes pos
  if n.toNat > maxFieldSize ∨ n.toNat > bytes.length - pos then .error .corruptWal
  else .ok ((bytes.drop pos).take n.toNat, pos + n.toNat)

def decodeMutation (bytes : Bytes) (pos : ℕ) : Except Err (FactMutation × ℕ) := do
  let (namespaceId, pos) ← getBytes bytes pos
  let (entity, pos) ← getU32 bytes pos
  let (component, pos) ← getU32 bytes pos
  let (value, pos) ← getBytes bytes pos
  let (wall, pos) ← getU64 bytes pos
  let (logical, pos) ← getU32 bytes pos
  let (nodeId, pos) ← getU32 bytes pos
  let (cause, pos) ← getU32 bytes pos
  let (causeEntity, pos) ← getU32 bytes pos
  let (node, pos) ← getBytes bytes pos
  .ok (⟨namespaceId, entity, component, value, ⟨wall, logical, nodeId⟩, ⟨cause, causeEntity, node⟩⟩, pos)

/-- The loop of the replay functions: decode `count` mutations and apply each. -/
def decodeEach (apply : Live → FactMutation → Except Err Live) (bytes : Bytes) :
    ℕ → Live → ℕ → Except Err (Live × ℕ)
  | 0, self, pos => .ok (self, pos)
  | count + 1, self, pos => do
    let (decoded, pos) ← decodeMutation bytes pos
    let self ← apply self decoded
    decodeEach apply bytes count self pos

def replayBatch (self : Live) (bytes : Bytes) : Except Err Live :=
  if bytes.length < 4 then .error .corruptWal
  else
    let count := readLE 4 bytes 0
    if count > maxMutationCount then .error .corruptWal
    else do
      let (self, pos) ← decodeEach (fun self m => (applyMutation none self m).map Prod.fst) bytes count self 4
      if pos ≠ bytes.length then .error .corruptWal else .ok self

def replayAck (self : Live) (bytes : Bytes) : Except Err Live :=
  if bytes.length ≠ 8 then .error .corruptWal
  else .ok (removePending self (UInt64.ofNat (readLE 8 bytes 0)).toInt64.toInt)

def replayCascade (self : Live) (bytes : Bytes) : Except Err Live :=
  if bytes.length < 12 then .error .corruptWal
  else do
    let (ackId, pos) ← getU64 bytes 0
    let (count, pos) ← getU32 bytes pos
    if count.toNat > maxMutationCount then .error .corruptWal
    else do
      let (self, pos) ← decodeEach (applyMutationNoDirty none) bytes count.toNat self pos
      if pos ≠ bytes.length then .error .corruptWal
      else .ok (removePending self ackId.toInt64.toInt)

/-- Dispatch on the kind byte of a record body. -/
def replayBody (self : Live) : Bytes → Except Err Live
  | [] => .error .corruptWal
  | kind :: payload =>
    if kind = recordBatch then replayBatch self payload
    else if kind = recordAck then replayAck self payload
    else if kind = recordCascade then replayCascade self payload
    else .error .corruptWal

/-! ## What the writer writes -/

namespace FactMutation

/-- A length-prefixed field. -/
def field (bytes : Bytes) : Bytes := leBytes 4 bytes.length ++ bytes

/-- The bytes of a mutation. -/
def encode (m : FactMutation) : Bytes :=
  field m.namespaceId ++ (leBytes 4 m.entity.toNat ++ (leBytes 4 m.component.toNat ++
    (field m.value ++ (leBytes 8 m.timestamp.wall.toNat ++ (leBytes 4 m.timestamp.logical.toNat ++
      (leBytes 4 m.timestamp.nodeId.toNat ++ (leBytes 4 m.cause.cause.toNat ++
        (leBytes 4 m.cause.entity.toNat ++ field m.cause.node))))))))

/-- The byte fields fit a `u32` length. -/
def Fits (m : FactMutation) : Prop :=
  m.namespaceId.length < 2 ^ 32 ∧ m.value.length < 2 ^ 32 ∧ m.cause.node.length < 2 ^ 32

/-- The byte fields are within the reader's limit. -/
def FieldsOk (m : FactMutation) : Prop :=
  m.namespaceId.length ≤ maxFieldSize ∧ m.value.length ≤ maxFieldSize ∧
    m.cause.node.length ≤ maxFieldSize

instance (m : FactMutation) : Decidable m.Fits := by unfold Fits; infer_instance

instance (m : FactMutation) : Decidable m.FieldsOk := by unfold FieldsOk; infer_instance

theorem FieldsOk.fits {m : FactMutation} (h : m.FieldsOk) : m.Fits := by
  obtain ⟨h1, h2, h3⟩ := h
  unfold maxFieldSize at h1 h2 h3
  refine ⟨?_, ?_, ?_⟩ <;> omega

@[simp] theorem length_field (bytes : Bytes) : (field bytes).length = 4 + bytes.length := by
  simp [field]

theorem length_encode (m : FactMutation) : m.encode.length =
    44 + m.namespaceId.length + m.value.length + m.cause.node.length := by
  unfold encode
  simp only [List.length_append, length_field, length_leBytes]
  omega

end FactMutation

open FactMutation

theorem putBytes_eq (out bytes : Bytes) : putBytes out bytes =
    if bytes.length < 2 ^ 32 then .ok (out ++ field bytes) else .error .integerOverflow := by
  unfold putBytes putU32 field
  split_ifs with h
  · rw [UInt32.toNat_ofNat_of_lt' h, List.append_assoc]
  · rfl

theorem encodeMutation_eq (out : Bytes) (m : FactMutation) : encodeMutation out m =
    if m.Fits then .ok (out ++ m.encode) else .error .integerOverflow := by
  unfold encodeMutation Fits
  simp only [putBytes_eq, putU32, putU64]
  by_cases h1 : m.namespaceId.length < 2 ^ 32
  · by_cases h2 : m.value.length < 2 ^ 32
    · by_cases h3 : m.cause.node.length < 2 ^ 32
      · simp only [h1, h2, h3, if_true, and_self, encode]
        simp [bind, Except.bind]
      · simp only [h1, h2, h3, if_true, if_false, and_false, bind, Except.bind]
    · simp only [h1, h2, if_true, if_false, false_and, and_false, bind, Except.bind]
  · simp only [h1, if_false, false_and, bind, Except.bind]

theorem foldlM_encodeMutation (ms : List FactMutation) (out : Bytes) :
    ms.foldlM encodeMutation out = if ∀ m ∈ ms, m.Fits then
      .ok (out ++ ms.flatMap FactMutation.encode) else .error .integerOverflow := by
  induction ms generalizing out with
  | nil => simp [pure, Except.pure]
  | cons m ms ih =>
    rw [List.foldlM_cons, encodeMutation_eq]
    by_cases hm : m.Fits
    · simp only [if_pos hm, bind, Except.bind]
      rw [ih]
      by_cases hms : ∀ m ∈ ms, m.Fits
      · rw [if_pos hms, if_pos (by simpa using ⟨hm, hms⟩)]
        simp
      · rw [if_neg hms, if_neg (fun h => hms fun x hx => h x (by simp [hx]))]
    · rw [if_neg hm, if_neg (fun h => hm (h m (by simp)))]
      rfl

namespace Record

def kind : Record → UInt8
  | batch _ => recordBatch
  | ack _ => recordAck
  | cascade _ _ => recordCascade

/-- The payload bytes of a record. -/
def payload : Record → Bytes
  | batch ms => leBytes 4 ms.length ++ ms.flatMap FactMutation.encode
  | ack id => leBytes 8 id.toUInt64.toNat
  | cascade id ms =>
    leBytes 8 id.toUInt64.toNat ++ (leBytes 4 ms.length ++ ms.flatMap FactMutation.encode)

/-- What stands between the length and the checksum. -/
def body (r : Record) : Bytes := r.kind :: r.payload

/-- The bytes of a record in the file. -/
def encode (r : Record) : Bytes :=
  leBytes headerSize r.body.length ++ (r.body ++ leBytes trailerSize (checksum r.body).toNat)

/-- The writer writes the record. -/
structure Writable (r : Record) : Prop where
  fields : ∀ m ∈ r.mutations, m.Fits
  count : r.mutations.length < 2 ^ 32
  size : r.payload.length ≤ maxRecordSize - 1

/-- The record is within the reader's size limits. -/
structure Readable (r : Record) : Prop where
  fields : ∀ m ∈ r.mutations, m.FieldsOk
  size : r.payload.length ≤ maxRecordSize - 1

instance (r : Record) : Decidable r.Writable :=
  decidable_of_iff ((∀ m ∈ r.mutations, m.Fits) ∧ r.mutations.length < 2 ^ 32 ∧
      r.payload.length ≤ maxRecordSize - 1)
    ⟨fun h => ⟨h.1, h.2.1, h.2.2⟩, fun h => ⟨h.fields, h.count, h.size⟩⟩

instance (r : Record) : Decidable r.Readable :=
  decidable_of_iff ((∀ m ∈ r.mutations, m.FieldsOk) ∧ r.payload.length ≤ maxRecordSize - 1)
    ⟨fun h => ⟨h.1, h.2⟩, fun h => ⟨h.fields, h.size⟩⟩

@[simp] theorem length_body (r : Record) : r.body.length = r.payload.length + 1 := rfl

theorem length_encode (r : Record) : r.encode.length = r.payload.length + 9 := by
  unfold encode
  simp only [List.length_append, length_leBytes, headerSize, trailerSize, length_body]
  omega

/-- A record under the size limit cannot hold many mutations: each takes at least 44 bytes. -/
theorem length_flatMap_encode (ms : List FactMutation) :
    44 * ms.length ≤ (ms.flatMap FactMutation.encode).length := by
  induction ms with
  | nil => simp
  | cons m ms ih =>
    rw [List.flatMap_cons, List.length_append, List.length_cons, FactMutation.length_encode]
    omega

theorem count_le (r : Record) (h : r.payload.length ≤ maxRecordSize - 1) :
    r.mutations.length ≤ maxMutationCount := by
  have key : ∀ ms : List FactMutation, (ms.flatMap FactMutation.encode).length ≤ maxRecordSize →
      ms.length ≤ maxMutationCount := by
    intro ms hms
    have := length_flatMap_encode ms
    unfold maxRecordSize at hms
    unfold maxMutationCount
    omega
  cases r with
  | batch ms =>
    simp only [payload, List.length_append, length_leBytes] at h
    exact key ms (by omega)
  | ack id => exact Nat.zero_le _
  | cascade id ms =>
    simp only [payload, List.length_append, length_leBytes] at h
    exact key ms (by omega)

theorem Readable.writable {r : Record} (h : r.Readable) : r.Writable := by
  refine ⟨fun m hm => (h.fields m hm).fits, ?_, h.size⟩
  have := r.count_le h.size
  unfold maxMutationCount at this
  omega

end Record

theorem encodeMutations_eq (out : Bytes) (ms : List FactMutation) : encodeMutations out ms =
    if ms.length < 2 ^ 32 ∧ ∀ m ∈ ms, m.Fits then
      .ok (out ++ (leBytes 4 ms.length ++ ms.flatMap FactMutation.encode))
    else .error .integerOverflow := by
  unfold encodeMutations
  by_cases h : ms.length < 2 ^ 32
  · rw [if_pos h, foldlM_encodeMutation, putU32, UInt32.toNat_ofNat_of_lt' h]
    by_cases hf : ∀ m ∈ ms, m.Fits
    · rw [if_pos hf, if_pos ⟨h, hf⟩, List.append_assoc]
    · rw [if_neg hf, if_neg fun hc => hf hc.2]
  · rw [if_neg h, if_neg fun hc => h hc.1]

theorem writeRecord_eq (kind : UInt8) (payload : Bytes) : writeRecord kind payload =
    if payload.length ≤ maxRecordSize - 1 then
      .ok (leBytes headerSize (payload.length + 1) ++ (kind :: payload ++
        leBytes trailerSize (checksum (kind :: payload)).toNat))
    else .error .walRecordTooLarge := by
  unfold writeRecord
  by_cases h : payload.length ≤ maxRecordSize - 1
  · rw [if_neg (by omega), if_pos h]
    simp
  · rw [if_pos (by omega), if_neg h]

/-- **The writer accepts exactly the writable records**, and appends `encode`. -/
theorem Record.write_ok_iff (r : Record) (bytes : Bytes) :
    r.write = .ok bytes ↔ r.Writable ∧ bytes = r.encode := by
  have key : ∀ kind payload, (writeRecord kind payload = .ok bytes) ↔
      payload.length ≤ maxRecordSize - 1 ∧ bytes = leBytes headerSize (payload.length + 1) ++
        (kind :: payload ++ leBytes trailerSize (checksum (kind :: payload)).toNat) := by
    intro kind payload
    rw [writeRecord_eq]
    split_ifs with h
    · simp [h, eq_comm]
    · simp [h]
  cases r with
  | batch ms =>
    change writeBatch ms = _ ↔ _
    unfold writeBatch
    rw [encodeMutations_eq]
    by_cases h : ms.length < 2 ^ 32 ∧ ∀ m ∈ ms, m.Fits
    · rw [if_pos h]
      simp only [bind, Except.bind, List.nil_append]
      rw [key]
      exact ⟨fun ⟨h1, h2⟩ => ⟨⟨h.2, h.1, h1⟩, h2⟩, fun ⟨h1, h2⟩ => ⟨h1.size, h2⟩⟩
    · rw [if_neg h]
      constructor
      · intro h'
        cases h'
      · intro h'
        exact absurd ⟨h'.1.count, h'.1.fields⟩ h
  | ack id =>
    change writeAck id = _ ↔ _
    unfold writeAck
    rw [key]
    exact ⟨fun ⟨h1, h2⟩ => ⟨⟨by simp [mutations], by simp [mutations], h1⟩, h2⟩,
      fun ⟨h1, h2⟩ => ⟨h1.size, h2⟩⟩
  | cascade id ms =>
    change writeCascade ms id = _ ↔ _
    unfold writeCascade
    rw [encodeMutations_eq]
    by_cases h : ms.length < 2 ^ 32 ∧ ∀ m ∈ ms, m.Fits
    · rw [if_pos h]
      simp only [bind, Except.bind, putU64, List.nil_append]
      rw [key]
      exact ⟨fun ⟨h1, h2⟩ => ⟨⟨h.2, h.1, h1⟩, h2⟩, fun ⟨h1, h2⟩ => ⟨h1.size, h2⟩⟩
    · rw [if_neg h]
      constructor
      · intro h'
        cases h'
      · intro h'
        exact absurd ⟨h'.1.count, h'.1.fields⟩ h

theorem Record.Readable.write {r : Record} (h : r.Readable) : r.write = .ok r.encode :=
  (r.write_ok_iff _).mpr ⟨h.writable, rfl⟩

/-! ## Reading it back -/

section Reading

variable {bytes : Bytes} {pos : ℕ}

theorem getU32_segAt {v : UInt32} (h : SegAt bytes pos (leBytes 4 v.toNat)) :
    getU32 bytes pos = .ok (v, pos + 4) := by
  have hlen := h.length_le
  rw [length_leBytes] at hlen
  unfold getU32
  rw [if_neg (by omega), readLE_segAt v.toNat_lt h, UInt32.ofNat_toNat]

theorem getU64_segAt {v : UInt64} (h : SegAt bytes pos (leBytes 8 v.toNat)) :
    getU64 bytes pos = .ok (v, pos + 8) := by
  have hlen := h.length_le
  rw [length_leBytes] at hlen
  unfold getU64
  rw [if_neg (by omega), readLE_segAt v.toNat_lt h, UInt64.ofNat_toNat]

/-- A field is read back iff it is within the limit. -/
theorem getBytes_segAt {b : Bytes} (hb : b.length < 2 ^ 32) (h : SegAt bytes pos (field b)) :
    getBytes bytes pos =
      if b.length ≤ maxFieldSize then .ok (b, pos + (field b).length) else .error .corruptWal := by
  obtain ⟨hlen, hb'⟩ := segAt_append.mp h
  rw [length_leBytes] at hb'
  have hle := hb'.length_le
  have hn : (UInt32.ofNat b.length).toNat = b.length := UInt32.toNat_ofNat_of_lt' hb
  unfold getBytes
  have hget : getU32 bytes pos = .ok (UInt32.ofNat b.length, pos + 4) := getU32_segAt (by rwa [hn])
  rw [hget]
  simp only [bind, Except.bind, hn]
  split_ifs with h1 h2 h2
  · omega
  · rfl
  · rw [hb'.take, length_field, Nat.add_assoc]
  · omega

/-- **Round trip of a mutation**, wherever its bytes stand. -/
theorem decodeMutation_segAt {m : FactMutation} (hm : m.FieldsOk) (h : SegAt bytes pos m.encode) :
    decodeMutation bytes pos = .ok (m, pos + m.encode.length) := by
  have hlen := m.length_encode
  simp only [FactMutation.encode, segAt_append, length_leBytes, length_field] at h
  obtain ⟨h1, h2, h3, h4, h5, h6, h7, h8, h9, h10⟩ := h
  obtain ⟨f1, f2, f3⟩ := hm.fits
  obtain ⟨l1, l2, l3⟩ := hm
  unfold decodeMutation
  rw [getBytes_segAt f1 h1, if_pos l1]
  simp only [bind, Except.bind, length_field]
  rw [getU32_segAt h2]
  simp only
  rw [getU32_segAt h3]
  simp only
  rw [getBytes_segAt f2 h4, if_pos l2]
  simp only [length_field]
  rw [getU64_segAt h5]
  simp only
  rw [getU32_segAt h6]
  simp only
  rw [getU32_segAt h7]
  simp only
  rw [getU32_segAt h8]
  simp only
  rw [getU32_segAt h9]
  simp only
  rw [getBytes_segAt f3 h10, if_pos l3]
  simp only [length_field, Except.ok.injEq, Prod.mk.injEq, true_and]
  omega

/-- A mutation with a field beyond the limit is refused. -/
theorem decodeMutation_too_large {m : FactMutation} (hf : m.Fits) (hm : ¬ m.FieldsOk)
    (h : SegAt bytes pos m.encode) : decodeMutation bytes pos = .error .corruptWal := by
  simp only [FactMutation.encode, segAt_append, length_leBytes, length_field] at h
  obtain ⟨h1, h2, h3, h4, h5, h6, h7, h8, h9, h10⟩ := h
  obtain ⟨f1, f2, f3⟩ := hf
  unfold decodeMutation
  rw [getBytes_segAt f1 h1]
  by_cases l1 : m.namespaceId.length ≤ maxFieldSize
  · rw [if_pos l1]
    simp only [bind, Except.bind, length_field]
    rw [getU32_segAt h2]
    simp only
    rw [getU32_segAt h3]
    simp only
    rw [getBytes_segAt f2 h4]
    by_cases l2 : m.value.length ≤ maxFieldSize
    · have l3 : ¬ m.cause.node.length ≤ maxFieldSize := fun l3 => hm ⟨l1, l2, l3⟩
      rw [if_pos l2]
      simp only [length_field]
      rw [getU64_segAt h5]
      simp only
      rw [getU32_segAt h6]
      simp only
      rw [getU32_segAt h7]
      simp only
      rw [getU32_segAt h8]
      simp only
      rw [getU32_segAt h9]
      simp only
      rw [getBytes_segAt f3 h10, if_neg l3]
    · rw [if_neg l2]
  · rw [if_neg l1]
    rfl

/-- Decode `count` mutations without applying them. -/
def decodeList (bytes : Bytes) : ℕ → ℕ → Except Err (List FactMutation × ℕ)
  | 0, pos => .ok ([], pos)
  | count + 1, pos => do
    let (decoded, pos) ← decodeMutation bytes pos
    let (rest, pos) ← decodeList bytes count pos
    .ok (decoded :: rest, pos)

/-- The loop of the replay functions decodes a list and folds it into the state. -/
theorem decodeEach_eq {apply : Live → FactMutation → Except Err Live} {put : Live → FactMutation → Live}
    (happ : ∀ s m, apply s m = .ok (put s m)) :
    ∀ (count : ℕ) (self : Live) (pos : ℕ), decodeEach apply bytes count self pos =
      (decodeList bytes count pos).map (fun r => (r.1.foldl put self, r.2))
  | 0, self, pos => rfl
  | count + 1, self, pos => by
    rw [decodeEach, decodeList]
    cases hd : decodeMutation bytes pos with
    | error e => rfl
    | ok r =>
      simp only [bind, Except.bind, happ]
      rw [decodeEach_eq happ count (put self r.1) r.2]
      cases decodeList bytes count r.2 <;> rfl

theorem decodeList_segAt :
    ∀ (ms : List FactMutation) (pos : ℕ), (∀ m ∈ ms, m.FieldsOk) →
      SegAt bytes pos (ms.flatMap FactMutation.encode) →
      decodeList bytes ms.length pos = .ok (ms, pos + (ms.flatMap FactMutation.encode).length)
  | [], pos, _, _ => rfl
  | m :: ms, pos, hf, h => by
    rw [List.flatMap_cons, segAt_append] at h
    rw [List.length_cons, decodeList, decodeMutation_segAt (hf m (by simp)) h.1]
    simp only [bind, Except.bind]
    rw [decodeList_segAt ms _ (fun m' hm' => hf m' (by simp [hm'])) h.2]
    simp only [List.flatMap_cons, List.length_append, Nat.add_assoc]

/-- One field beyond the limit anywhere in the list stops the loop. -/
theorem decodeList_too_large :
    ∀ (ms : List FactMutation) (pos : ℕ), (∀ m ∈ ms, m.Fits) → (¬ ∀ m ∈ ms, m.FieldsOk) →
      SegAt bytes pos (ms.flatMap FactMutation.encode) →
      decodeList bytes ms.length pos = .error .corruptWal
  | [], _, _, hno, _ => absurd (by simp) hno
  | m :: ms, pos, hf, hno, h => by
    rw [List.flatMap_cons, segAt_append] at h
    rw [List.length_cons, decodeList]
    by_cases hm : m.FieldsOk
    · have hrest : ¬ ∀ m ∈ ms, m.FieldsOk := fun hall => hno (by simpa using ⟨hm, hall⟩)
      rw [decodeMutation_segAt hm h.1]
      simp only [bind, Except.bind]
      rw [decodeList_too_large ms _ (fun m' hm' => hf m' (by simp [hm'])) hrest h.2]
    · rw [decodeMutation_too_large (hf m (by simp)) hm h.1]
      rfl

end Reading

/-! ## Records read back -/

def decodeBatch (bytes : Bytes) : Except Err Record :=
  if bytes.length < 4 ∨ maxMutationCount < readLE 4 bytes 0 then .error .corruptWal
  else do
    let (ms, pos) ← decodeList bytes (readLE 4 bytes 0) 4
    if pos ≠ bytes.length then .error .corruptWal else .ok (.batch ms)

def decodeAck (bytes : Bytes) : Except Err Record :=
  if bytes.length ≠ 8 then .error .corruptWal
  else .ok (.ack (UInt64.ofNat (readLE 8 bytes 0)).toInt64)

def decodeCascade (bytes : Bytes) : Except Err Record :=
  if bytes.length < 12 then .error .corruptWal
  else do
    let (ackId, pos) ← getU64 bytes 0
    let (count, pos) ← getU32 bytes pos
    if maxMutationCount < count.toNat then .error .corruptWal
    else do
      let (ms, pos) ← decodeList bytes count.toNat pos
      if pos ≠ bytes.length then .error .corruptWal else .ok (.cascade ackId.toInt64 ms)

/-- The record that a body holds, with the checks of the replay functions. -/
def decodeBody : Bytes → Except Err Record
  | [] => .error .corruptWal
  | kind :: payload =>
    if kind = recordBatch then decodeBatch payload
    else if kind = recordAck then decodeAck payload
    else if kind = recordCascade then decodeCascade payload
    else .error .corruptWal

theorem applyMutation_map_fst (s : Live) (m : FactMutation) :
    (applyMutation none s m).map Prod.fst = .ok (s.putDirty m) := by
  rw [applyMutation_none]; rfl

theorem replayBatch_eq (self : Live) (bytes : Bytes) :
    replayBatch self bytes = (decodeBatch bytes).map self.replay := by
  unfold replayBatch decodeBatch
  by_cases h1 : bytes.length < 4
  · rw [if_pos h1, if_pos (Or.inl h1)]; rfl
  · by_cases h2 : maxMutationCount < readLE 4 bytes 0
    · rw [if_neg h1, if_pos (Or.inr h2)]
      exact if_pos h2
    · rw [if_neg h1, if_neg (not_or.mpr ⟨h1, h2⟩)]
      simp only [gt_iff_lt, if_neg h2]
      rw [decodeEach_eq applyMutation_map_fst]
      cases decodeList bytes (readLE 4 bytes 0) 4 with
      | error e => rfl
      | ok r =>
        simp only [Except.map, bind, Except.bind]
        split_ifs <;> rfl

theorem replayAck_eq (self : Live) (bytes : Bytes) :
    replayAck self bytes = (decodeAck bytes).map self.replay := by
  unfold replayAck decodeAck
  by_cases h : bytes.length ≠ 8
  · rw [if_pos h, if_pos h]; rfl
  · rw [if_neg h, if_neg h]; rfl

theorem replayCascade_eq (self : Live) (bytes : Bytes) :
    replayCascade self bytes = (decodeCascade bytes).map self.replay := by
  unfold replayCascade decodeCascade
  by_cases h1 : bytes.length < 12
  · rw [if_pos h1, if_pos h1]; rfl
  · rw [if_neg h1, if_neg h1]
    cases getU64 bytes 0 with
    | error e => rfl
    | ok a =>
      simp only [bind, Except.bind]
      cases getU32 bytes a.2 with
      | error e => rfl
      | ok c =>
        simp only [gt_iff_lt]
        by_cases h2 : maxMutationCount < c.1.toNat
        · rw [if_pos h2, if_pos h2]; rfl
        · rw [if_neg h2, if_neg h2, decodeEach_eq applyMutationNoDirty_none]
          cases decodeList bytes c.1.toNat c.2 with
          | error e => rfl
          | ok r =>
            simp only [Except.map]
            split_ifs <;> rfl

/-- **Replaying a body is decoding it and replaying the record**: no replay function fails on a record once
it is decoded. -/
theorem replayBody_eq (self : Live) (body : Bytes) :
    replayBody self body = (decodeBody body).map self.replay := by
  cases body with
  | nil => rfl
  | cons kind payload =>
    rw [replayBody, decodeBody, replayBatch_eq, replayAck_eq, replayCascade_eq]
    split_ifs <;> rfl

theorem toNat_toUInt64_lt (id : Int64) : id.toUInt64.toNat < 256 ^ 8 := id.toUInt64.toNat_lt

section Written

variable {ms : List FactMutation} {id : Int64}

/-- Decoding a written batch comes down to reading its list. -/
theorem decodeBatch_written (h : (Record.batch ms).Writable) :
    SegAt (Record.batch ms).payload 4 (ms.flatMap FactMutation.encode) ∧
      decodeBatch (Record.batch ms).payload = (decodeList (Record.batch ms).payload ms.length 4).bind
        fun r => if r.2 ≠ (Record.batch ms).payload.length then .error .corruptWal else .ok (.batch r.1) := by
  have hcount : ms.length ≤ maxMutationCount := (Record.batch ms).count_le h.size
  have hs := segAt_append.mp (segAt_self (Record.batch ms).payload)
  rw [length_leBytes] at hs
  have hcnt : readLE 4 (Record.batch ms).payload 0 = ms.length := readLE_segAt h.count hs.1
  have hlen : ¬ (Record.batch ms).payload.length < 4 := by simp [Record.payload]
  refine ⟨hs.2, ?_⟩
  unfold decodeBatch
  rw [hcnt, if_neg (not_or.mpr ⟨hlen, not_lt.mpr hcount⟩)]
  rfl

theorem decodeCascade_written (h : (Record.cascade id ms).Writable) :
    SegAt (Record.cascade id ms).payload 12 (ms.flatMap FactMutation.encode) ∧
      decodeCascade (Record.cascade id ms).payload =
        (decodeList (Record.cascade id ms).payload ms.length 12).bind
          fun r => if r.2 ≠ (Record.cascade id ms).payload.length then .error .corruptWal
            else .ok (.cascade id r.1) := by
  have hcount : ms.length ≤ maxMutationCount := (Record.cascade id ms).count_le h.size
  have hs := segAt_append.mp (segAt_self (Record.cascade id ms).payload)
  rw [segAt_append] at hs
  simp only [length_leBytes, Nat.zero_add] at hs
  obtain ⟨h1, h2, h3⟩ := hs
  have hn : (UInt32.ofNat ms.length).toNat = ms.length := UInt32.toNat_ofNat_of_lt' h.count
  have hlen : ¬ (Record.cascade id ms).payload.length < 12 := by
    simp only [Record.payload, List.length_append, length_leBytes]; omega
  have hget : getU32 (Record.cascade id ms).payload 8 = .ok (UInt32.ofNat ms.length, 12) :=
    getU32_segAt (by rwa [hn])
  refine ⟨h3, ?_⟩
  unfold decodeCascade
  rw [if_neg hlen, getU64_segAt h1]
  simp only [bind, Except.bind, Nat.zero_add, hget, hn]
  rw [if_neg (not_lt.mpr hcount)]
  rfl

theorem decodeAck_written : decodeAck (Record.ack id).payload = .ok (.ack id) := by
  have hid : readLE 8 (Record.ack id).payload 0 = id.toUInt64.toNat :=
    readLE_segAt (toNat_toUInt64_lt id) (segAt_self (Record.ack id).payload)
  unfold decodeAck
  rw [hid, if_neg (by simp [Record.payload]), UInt64.ofNat_toNat]
  rfl

end Written

/-- **Round trip of a record** within the reader's limits. -/
theorem decodeBody_readable {r : Record} (h : r.Readable) : decodeBody r.body = .ok r := by
  cases r with
  | batch ms =>
    obtain ⟨hs, hd⟩ := decodeBatch_written h.writable
    change decodeBatch (Record.batch ms).payload = _
    rw [hd, decodeList_segAt ms 4 h.fields hs]
    simp [Except.bind, Record.payload]
  | ack id => exact decodeAck_written
  | cascade id ms =>
    obtain ⟨hs, hd⟩ := decodeCascade_written h.writable
    change decodeCascade (Record.cascade id ms).payload = _
    rw [hd, decodeList_segAt ms 12 h.fields hs]
    simp only [Except.bind, Record.payload, List.length_append, length_leBytes]
    rw [if_neg (by omega)]

/-- A record that was written with a field beyond the reader's limit cannot be decoded. -/
theorem decodeBody_too_large {r : Record} (h : r.Writable) (hno : ¬ ∀ m ∈ r.mutations, m.FieldsOk) :
    decodeBody r.body = .error .corruptWal := by
  cases r with
  | batch ms =>
    obtain ⟨hs, hd⟩ := decodeBatch_written h
    change decodeBatch (Record.batch ms).payload = _
    rw [hd, decodeList_too_large ms 4 h.fields hno hs]
    rfl
  | ack id => exact absurd (by simp [Record.mutations]) hno
  | cascade id ms =>
    obtain ⟨hs, hd⟩ := decodeCascade_written h
    change decodeCascade (Record.cascade id ms).payload = _
    rw [hd, decodeList_too_large ms 12 h.fields hno hs]
    rfl

theorem replayBody_readable {r : Record} (h : r.Readable) (self : Live) :
    replayBody self r.body = .ok (self.replay r) := by
  rw [replayBody_eq, decodeBody_readable h]
  rfl

end Slung.Wal
