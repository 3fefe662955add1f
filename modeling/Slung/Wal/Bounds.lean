import Slung.Lib.Owning
import Slung.Wal.DecodeCleanup
import Slung.Wal.Recovery

/-!
# Slung.Wal.Bounds — recovery reads inside the file (`wal.zig`, `recover` and its decoders)

The functions of `Slung.Wal.Codec` and `Slung.Wal.Recovery` once more, with the checks that the source leaves
to the language: every slice and every integer read is checked against the bytes it reads from, every plain
subtraction against zero (a saturating one is a subtraction of naturals), the loop of `recover` against its fuel, and
every free against the live buffers: the copy of the file and the fields of the mutation that is decoded.

`recover_safe_iff`: no check of an index fails, whatever the file holds, and recovery ends in one of three ways, unless
it comes to a mutation with a namespace and a value that cannot be read: that namespace is freed twice.
-/

namespace Slung.Wal

open Slung.Lib

/-- A body that the writer can have written. -/
structure WellFormed (body : Bytes) : Prop where
  size : SizeOk body
  decodes : ∃ r, decodeBody body = .ok r

/-- A row of bodies is replayed iff each of them decodes. -/
theorem foldlM_replayBody_ok_iff (self : Live) (bodies : List Bytes) :
    (∃ live, bodies.foldlM replayBody self = .ok live) ↔ ∀ body ∈ bodies, ∃ r, decodeBody body = .ok r := by
  induction bodies generalizing self with
  | nil => exact iff_of_true ⟨self, rfl⟩ nofun
  | cons body bodies ih =>
    rw [List.foldlM_cons, replayBody_eq, List.forall_mem_cons]
    cases hd : decodeBody body with
    | error e =>
      refine iff_of_false ?_ fun h => ?_
      · rintro ⟨live, h⟩
        cases h
      · obtain ⟨r, hr⟩ := h.1
        cases hr
    | ok r =>
      rw [← ih (self.replay r)]
      exact ⟨fun h => ⟨⟨r, rfl⟩, h⟩, fun h => h.2⟩

namespace Guarded

open Slung.Lib.Owning

/-! ## The functions of the source -/

def getU32 (bytes : Bytes) (pos : ℕ) : Checked Err (UInt32 × ℕ) :=
  if bytes.length - pos < 4 then throw .corruptWal
  else do
    let v ← Checked.readLE 4 bytes pos
    pure (UInt32.ofNat v, pos + 4)

def getU64 (bytes : Bytes) (pos : ℕ) : Checked Err (UInt64 × ℕ) :=
  if bytes.length - pos < 8 then throw .corruptWal
  else do
    let v ← Checked.readLE 8 bytes pos
    pure (UInt64.ofNat v, pos + 8)

/-- The subtraction of the source is a plain one; it is not made when the first test holds. -/
def getBytes (bytes : Bytes) (pos : ℕ) : Owning Err (Slice × ℕ) := do
  let (n, pos) ← liftM (getU32 bytes pos)
  if n.toNat > maxFieldSize then throw .corruptWal
  else do
    let left ← liftM (Checked.sub bytes.length pos : Checked Err ℕ)
    if n.toNat > left then throw .corruptWal
    else do
      let field ← liftM (Checked.slice bytes pos n.toNat : Checked Err Bytes)
      let result ← dupe field
      pure (result, pos + n.toNat)

def decodeMutation (bytes : Bytes) (pos : ℕ) : Owning Err (DecodedMutation × ℕ) := do
  let (namespaceId, pos) ← getBytes bytes pos
  errdefer (free namespaceId) do
    let (entity, pos) ← liftM (getU32 bytes pos)
    let (component, pos) ← liftM (getU32 bytes pos)
    let (value, pos) ← tryCatch (getBytes bytes pos) fun err => do
      free namespaceId
      throw err
    let (wall, pos) ← liftM (getU64 bytes pos)
    let (logical, pos) ← liftM (getU32 bytes pos)
    let (nodeId, pos) ← liftM (getU32 bytes pos)
    let (cause, pos) ← liftM (getU32 bytes pos)
    let (causeEntity, pos) ← liftM (getU32 bytes pos)
    let (node, pos) ← getBytes bytes pos
    pure (⟨namespaceId, entity, component, value, ⟨wall, logical, nodeId⟩, cause, causeEntity, node⟩, pos)

/-- The body of the loop of the replay functions: the fields are freed behind the write, the last one first. -/
def decodeOne (apply : Live → FactMutation → Except Err Live) (bytes : Bytes) (self : Live) (pos : ℕ) :
    Owning Err (Live × ℕ) := do
  let (decoded, pos) ← decodeMutation bytes pos
  let self ← deferred (free decoded.namespaceId) <| deferred (free decoded.value) <| deferred (free decoded.node) <|
    plain (apply self decoded.mutation)
  pure (self, pos)

def decodeEach (apply : Live → FactMutation → Except Err Live) (bytes : Bytes) :
    ℕ → Live → ℕ → Owning Err (Live × ℕ)
  | 0, self, pos => pure (self, pos)
  | count + 1, self, pos => do
    let (self, pos) ← decodeOne apply bytes self pos
    decodeEach apply bytes count self pos

def replayBatch (self : Live) (bytes : Bytes) : Owning Err Live :=
  if bytes.length < 4 then throw .corruptWal
  else do
    let count ← liftM (Checked.readLE 4 bytes 0 : Checked Err ℕ)
    if count > maxMutationCount then throw .corruptWal
    else do
      let (self, pos) ← decodeEach (fun self m => (applyMutation none self m).map Prod.fst) bytes count self 4
      if pos ≠ bytes.length then throw .corruptWal else pure self

def replayAck (self : Live) (bytes : Bytes) : Checked Err Live :=
  if bytes.length ≠ 8 then throw .corruptWal
  else do
    let id ← Checked.readLE 8 bytes 0
    pure (removePending self (UInt64.ofNat id).toInt64.toInt)

def replayCascade (self : Live) (bytes : Bytes) : Owning Err Live :=
  if bytes.length < 12 then throw .corruptWal
  else do
    let (ackId, pos) ← liftM (getU64 bytes 0)
    let (count, pos) ← liftM (getU32 bytes pos)
    if count.toNat > maxMutationCount then throw .corruptWal
    else do
      let (self, pos) ← decodeEach (applyMutationNoDirty none) bytes count.toNat self pos
      if pos ≠ bytes.length then throw .corruptWal
      else pure (removePending self ackId.toInt64.toInt)

/-- The kind is the first byte of the body and the payload the slice behind it. -/
def replayBody (self : Live) (body : Bytes) : Owning Err Live := do
  let kind ← liftM (Checked.readLE 1 body 0 : Checked Err ℕ)
  let rest ← liftM (Checked.sub body.length 1 : Checked Err ℕ)
  let payload ← liftM (Checked.slice body 1 rest : Checked Err Bytes)
  if UInt8.ofNat kind = recordBatch then replayBatch self payload
  else if UInt8.ofNat kind = recordAck then liftM (replayAck self payload)
  else if UInt8.ofNat kind = recordCascade then replayCascade self payload
  else throw .corruptWal

def recoverLoop (bytes : Bytes) : ℕ → Live → ℕ → Owning Err (Live × Option ℕ)
  | 0, _, _ => lift (Checked.fault .stuck)
  | fuel + 1, self, pos =>
    if bytes.length ≤ pos then pure (self, none)
    else do
      let left ← liftM (Checked.sub bytes.length pos : Checked Err ℕ)
      if left < headerSize then pure (self, some pos)
      else do
        let length ← liftM (Checked.readLE 4 bytes pos : Checked Err ℕ)
        if length < 1 ∨ length > maxRecordSize then throw .corruptWal
        else do
          let remaining ← liftM (Checked.sub bytes.length pos : Checked Err ℕ)
          if length > remaining - headerSize - trailerSize then pure (self, some pos)
          else do
            let body ← liftM (Checked.slice bytes (pos + headerSize) length : Checked Err Bytes)
            let stored ← liftM (Checked.readLE 4 bytes (pos + headerSize + length) : Checked Err ℕ)
            if (checksum body).toNat ≠ stored then throw .corruptWal
            else do
              let self ← replayBody self body
              recoverLoop bytes fuel self (pos + headerSize + length + trailerSize)

/-- The file is copied, and the copy is freed when `recover` returns. -/
def recoverFile (self : Live) (file : Bytes) : Owning Err (Live × Option ℕ) := do
  let bytes ← dupe file
  deferred (free bytes) (recoverLoop bytes.bytes (file.length + 1) self 0)

/-- `recover`, with the file that it leaves; only the two `setLength` of the loop change it. -/
def recover (self : Live) (file : Bytes) : Except Fault (Except Err Live × Bytes) :=
  if file.length = 0 then .ok (.ok self, file)
  else match (recoverFile self file).outcome .empty with
    | .error fault => .error fault
    | .ok (.error e, _) => .ok (.error e, file)
    | .ok (.ok (self, none), _) => .ok (.ok self, file)
    | .ok (.ok (self, some length), _) => .ok (.ok self, file.take length)

/-! ## Where a namespace is freed twice -/

/-- Behind the namespace the ids are read and the value is not. -/
def ValueFails (bytes : Bytes) (pos : ℕ) : Prop :=
  ∃ ids pos₁ e, getIds bytes pos = .ok (ids, pos₁) ∧ Wal.getBytes bytes pos₁ = .error e

/-- A mutation with a namespace whose value cannot be read. -/
def ValueUnreadable (bytes : Bytes) (pos : ℕ) : Prop :=
  ∃ namespaceId pos₁, Wal.getBytes bytes pos = .ok (namespaceId, pos₁) ∧ namespaceId ≠ [] ∧ ValueFails bytes pos₁

/-- One of `count` mutations is, and those before it are read. -/
def AnyUnreadable (bytes : Bytes) : ℕ → ℕ → Prop
  | 0, _ => False
  | count + 1, pos => ValueUnreadable bytes pos ∨
    ∃ decoded pos', Wal.decodeMutation bytes pos = .ok (decoded, pos') ∧ AnyUnreadable bytes count pos'

/-- A batch or a cascade with such a mutation. -/
def BodyUnreadable : Bytes → Prop
  | [] => False
  | kind :: payload =>
    (kind = recordBatch ∧ 4 ≤ payload.length ∧ readLE 4 payload 0 ≤ maxMutationCount ∧
      AnyUnreadable payload (readLE 4 payload 0) 4) ∨
    (kind = recordCascade ∧ 12 ≤ payload.length ∧ readLE 4 payload 8 ≤ maxMutationCount ∧
      AnyUnreadable payload (readLE 4 payload 8) 12)

/-- Behind well-formed records there is a complete one with such a mutation. -/
def FreedTwice (bytes : Bytes) : Prop :=
  ∃ (bodies : List Bytes) (body rest : Bytes), bytes = bodies.flatMap frame ++ (frame body ++ rest) ∧
    (∀ body' ∈ bodies, WellFormed body') ∧ SizeOk body ∧ BodyUnreadable body

/-! ## No other check fails -/

section Safety

variable (bytes : Bytes) (pos : ℕ) (self : Live)

theorem getU32_safe : Safe .corruptWal (getU32 bytes pos) (Wal.getU32 bytes pos) := by
  refine Safe.ite (fun _ => Safe.throw) fun h => ?_
  rw [Checked.readLE_bind (by omega)]
  exact Safe.pure _

theorem getU64_safe : Safe .corruptWal (getU64 bytes pos) (Wal.getU64 bytes pos) := by
  refine Safe.ite (fun _ => Safe.throw) fun h => ?_
  rw [Checked.readLE_bind (by omega)]
  exact Safe.pure _

variable {bytes pos} in
/-- A read that succeeds leaves the cursor inside the bytes. -/
theorem getU32_pos {n : UInt32} {pos' : ℕ} (h : Wal.getU32 bytes pos = .ok (n, pos')) : pos' ≤ bytes.length := by
  unfold Wal.getU32 at h
  split_ifs at h
  obtain ⟨-, rfl⟩ := Prod.mk.inj (Except.ok.inj h)
  omega

/-- A field is read into a buffer of its own. -/
theorem getBytes_eq : getBytes bytes pos = (do
    let (field, pos) ← plain (Wal.getBytes bytes pos)
    let result ← dupe field
    pure (result, pos)) := by
  unfold getBytes Wal.getBytes
  rw [(getU32_safe bytes pos).eq]
  cases hn : Wal.getU32 bytes pos with
  | error e => rfl
  | ok p =>
    obtain ⟨n, pos'⟩ := p
    have hpos := getU32_pos hn
    show (if n.toNat > maxFieldSize then _ else _) =
      plain (if n.toNat > maxFieldSize ∨ n.toNat > bytes.length - pos' then _ else _) >>= _
    by_cases hmax : n.toNat > maxFieldSize
    · rw [if_pos hmax, if_pos (Or.inl hmax)]
      rfl
    rw [if_neg hmax, sub_bind hpos]
    by_cases hleft : n.toNat > bytes.length - pos'
    · rw [if_pos hleft, if_pos (Or.inr hleft)]
      rfl
    · rw [if_neg hleft, if_neg (not_or.mpr ⟨hmax, hleft⟩), slice_bind (by omega)]
      rfl

theorem lift_getU32 : (liftM (getU32 bytes pos) : Owning Err (UInt32 × ℕ)) = plain (Wal.getU32 bytes pos) :=
  lift_eq (getU32_safe bytes pos)

theorem lift_getU64 : (liftM (getU64 bytes pos) : Owning Err (UInt64 × ℕ)) = plain (Wal.getU64 bytes pos) :=
  lift_eq (getU64_safe bytes pos)

/-- What follows the value, once it is read. -/
def decodeRest (bytes : Bytes) (namespaceId : Slice) (ids : EntityId × ComponentId) (value : Slice) (pos : ℕ) :
    Owning Err (DecodedMutation × ℕ) := do
  let (stamp, pos) ← plain (getStamp bytes pos)
  let (node, pos) ← getBytes bytes pos
  pure (⟨namespaceId, ids.1, ids.2, value, stamp.1, stamp.2.1, stamp.2.2, node⟩, pos)

/-- What follows the namespace. -/
def decodeScope (bytes : Bytes) (namespaceId : Slice) (pos : ℕ) : Owning Err (DecodedMutation × ℕ) := do
  let (ids, pos) ← plain (getIds bytes pos)
  let (value, pos) ← errdefer (free namespaceId) (getBytes bytes pos)
  decodeRest bytes namespaceId ids value pos

/-- The reads between the fields taken together. -/
theorem decodeMutation_eq : decodeMutation bytes pos = (do
    let (namespaceId, pos) ← getBytes bytes pos
    errdefer (free namespaceId) (decodeScope bytes namespaceId pos)) := by
  unfold decodeMutation decodeScope decodeRest getIds getStamp errdefer
  simp only [lift_getU32, lift_getU64, plain_bind, bind_assoc]
  rfl

/-! ### The exits of the decoder -/

variable {bytes pos} {l l' : Ledger} {e : Err} {field : Bytes} {pos' : ℕ}

theorem outcome_getBytes_ok (h : Wal.getBytes bytes pos = .ok (field, pos')) (l : Ledger) :
    (getBytes bytes pos).outcome l = .ok (.ok (l.sliceOf field, pos'), l.acquire field) := by
  rw [getBytes_eq, h]
  rfl

theorem outcome_getBytes_error (h : Wal.getBytes bytes pos = .error e) (l : Ledger) :
    (getBytes bytes pos).outcome l = .ok (.error e, l) := by
  rw [getBytes_eq, h]
  rfl

theorem getBytes_only (bytes : Bytes) (pos : ℕ) : OnlyError Err.corruptWal (Wal.getBytes bytes pos) := by
  refine (getU32_safe bytes pos).only.bind fun p _ => ?_
  show OnlyError _ (if _ then _ else _)
  split_ifs
  · exact fun e he => (Except.error.inj he).symm
  · exact nofun

theorem getIds_only (bytes : Bytes) (pos : ℕ) : OnlyError Err.corruptWal (getIds bytes pos) :=
  (getU32_safe bytes pos).only.bind fun p _ => (getU32_safe bytes p.2).only.bind fun _ _ => nofun

theorem getStamp_only (bytes : Bytes) (pos : ℕ) : OnlyError Err.corruptWal (getStamp bytes pos) :=
  (getU64_safe bytes pos).only.bind fun p _ => (getU32_safe bytes p.2).only.bind fun p _ =>
    (getU32_safe bytes p.2).only.bind fun p _ => (getU32_safe bytes p.2).only.bind fun p _ =>
      (getU32_safe bytes p.2).only.bind fun _ _ => nofun

/-- The mutation that is decoded, in three buffers of its own. -/
def decodedIn (l : Ledger) (m : FactMutation) : DecodedMutation :=
  ⟨l.sliceOf m.namespaceId, m.entity, m.component, (l.acquire m.namespaceId).sliceOf m.value, m.timestamp,
    m.cause.cause, m.cause.entity, ((l.acquire m.namespaceId).acquire m.value).sliceOf m.cause.node⟩

/-- What follows the value, read without buffers. -/
def readRest (bytes : Bytes) (namespaceId : Bytes) (ids : EntityId × ComponentId) (value : Bytes) (pos : ℕ) :
    Except Err (FactMutation × ℕ) := do
  let (stamp, pos) ← getStamp bytes pos
  let (node, pos) ← Wal.getBytes bytes pos
  .ok (⟨namespaceId, ids.1, ids.2, value, stamp.1, ⟨stamp.2.1, stamp.2.2, node⟩⟩, pos)

/-- What follows the namespace, read without buffers. -/
def readScope (bytes : Bytes) (namespaceId : Bytes) (pos : ℕ) : Except Err (FactMutation × ℕ) := do
  let (ids, pos) ← getIds bytes pos
  let (value, pos) ← Wal.getBytes bytes pos
  readRest bytes namespaceId ids value pos

theorem decodeMutation_readScope (bytes : Bytes) (pos : ℕ) : Wal.decodeMutation bytes pos = (do
    let (namespaceId, pos) ← Wal.getBytes bytes pos
    readScope bytes namespaceId pos) := decodeMutation_reads bytes pos

theorem valueFails_iff {ids : EntityId × ComponentId} {pos₁ : ℕ} (hids : getIds bytes pos = .ok (ids, pos₁)) :
    ValueFails bytes pos ↔ ∃ e, Wal.getBytes bytes pos₁ = .error e := by
  constructor
  · rintro ⟨ids', pos₁', e, h, herror⟩
    obtain ⟨-, rfl⟩ := Prod.mk.inj (Except.ok.inj (hids.symm.trans h))
    exact ⟨e, herror⟩
  · exact fun ⟨e, herror⟩ => ⟨ids, pos₁, e, hids, herror⟩

section Scope

variable (ns value : Bytes) (l : Ledger)

/-- Behind the value nothing is freed. -/
theorem decodeRest_cases (bytes : Bytes) (pos : ℕ) (ids : EntityId × ComponentId) :
    (∃ m pos', readRest bytes ns ids value pos = .ok (m, pos') ∧ m.namespaceId = ns ∧
      (decodeRest bytes (l.sliceOf ns) ids ((l.acquire ns).sliceOf value) pos).outcome ((l.acquire ns).acquire value) =
        .ok (.ok (decodedIn l m, pos'), ((l.acquire m.namespaceId).acquire m.value).acquire m.cause.node)) ∨
    (readRest bytes ns ids value pos = .error .corruptWal ∧
      (decodeRest bytes (l.sliceOf ns) ids ((l.acquire ns).sliceOf value) pos).outcome ((l.acquire ns).acquire value) =
        .ok (.error .corruptWal, (l.acquire ns).acquire value)) := by
  unfold decodeRest readRest
  cases hstamp : getStamp bytes pos with
  | error e =>
    obtain rfl := getStamp_only bytes pos e hstamp
    exact Or.inr ⟨rfl, rfl⟩
  | ok p =>
    obtain ⟨stamp, pos₁⟩ := p
    rw [outcome_bind_ok (outcome_plain _ _)]
    show (∃ m pos', (Wal.getBytes bytes pos₁ >>= _) = _ ∧ _) ∨ (Wal.getBytes bytes pos₁ >>= _) = _ ∧ _
    cases hnode : Wal.getBytes bytes pos₁ with
    | error e =>
      obtain rfl := getBytes_only bytes pos₁ e hnode
      exact Or.inr ⟨rfl, outcome_bind_error (outcome_getBytes_error hnode _)⟩
    | ok q => exact Or.inl ⟨_, _, rfl, rfl, outcome_bind_ok (outcome_getBytes_ok hnode _)⟩

/-- Behind the namespace: the handler of the value frees the namespace. -/
theorem decodeScope_cases (bytes : Bytes) (pos : ℕ) :
    (∃ m pos', readScope bytes ns pos = .ok (m, pos') ∧ m.namespaceId = ns ∧ ¬ ValueFails bytes pos ∧
      (decodeScope bytes (l.sliceOf ns) pos).outcome (l.acquire ns) = .ok (.ok (decodedIn l m, pos'),
        ((l.acquire m.namespaceId).acquire m.value).acquire m.cause.node)) ∨
    (readScope bytes ns pos = .error .corruptWal ∧ ¬ ValueFails bytes pos ∧ ∃ l', (l.acquire ns).live ⊆ l'.live ∧
      (decodeScope bytes (l.sliceOf ns) pos).outcome (l.acquire ns) = .ok (.error .corruptWal, l')) ∨
    (readScope bytes ns pos = .error .corruptWal ∧ ValueFails bytes pos ∧
      (decodeScope bytes (l.sliceOf ns) pos).outcome (l.acquire ns) =
        .ok (.error .corruptWal, (l.acquire ns).free (l.sliceOf ns))) := by
  unfold decodeScope readScope
  cases hids : getIds bytes pos with
  | error e =>
    obtain rfl := getIds_only bytes pos e hids
    refine Or.inr (Or.inl ⟨rfl, ?_, l.acquire ns, Finset.Subset.refl _, rfl⟩)
    rintro ⟨ids, pos₁, e, h, -⟩
    cases hids.symm.trans h
  | ok p =>
    obtain ⟨ids, pos₁⟩ := p
    rw [outcome_bind_ok (outcome_plain _ _)]
    rw [valueFails_iff hids]
    show (∃ m pos', (Wal.getBytes bytes pos₁ >>= _) = _ ∧ _) ∨ ((Wal.getBytes bytes pos₁ >>= _) = _ ∧ _) ∨
      (Wal.getBytes bytes pos₁ >>= _) = _ ∧ _
    cases hvalue : Wal.getBytes bytes pos₁ with
    | error e =>
      obtain rfl := getBytes_only bytes pos₁ e hvalue
      exact Or.inr (Or.inr ⟨rfl, ⟨_, rfl⟩, outcome_bind_error
        (outcome_errdefer_free (outcome_getBytes_error hvalue _) (Finset.Subset.refl _))⟩)
    | ok p =>
      obtain ⟨value, pos₂⟩ := p
      rw [outcome_bind_ok (outcome_errdefer_ok (outcome_getBytes_ok hvalue _))]
      have hread : ¬ ∃ e, Except.ok (value, pos₂) = Except.error (ε := Err) e := fun ⟨_, h⟩ => by cases h
      rcases decodeRest_cases ns value l bytes pos₂ ids with ⟨m, pos', hm, hns, hout⟩ | ⟨hm, hout⟩
      · exact Or.inl ⟨m, pos', hm, hns, hread, hout⟩
      · exact Or.inr (Or.inl ⟨hm, hread, _, Ledger.live_subset_acquire value, hout⟩)

end Scope

/-- **How decoding ends**: with a mutation, with an error, or with a namespace that is freed twice. -/
theorem decodeMutation_cases (bytes : Bytes) (pos : ℕ) (l : Ledger) :
    (∃ m pos', Wal.decodeMutation bytes pos = .ok (m, pos') ∧ ¬ ValueUnreadable bytes pos ∧
      (decodeMutation bytes pos).outcome l = .ok (.ok (decodedIn l m, pos'),
        ((l.acquire m.namespaceId).acquire m.value).acquire m.cause.node)) ∨
    (Wal.decodeMutation bytes pos = .error .corruptWal ∧ ¬ ValueUnreadable bytes pos ∧
      ∃ l', l.live ⊆ l'.live ∧ (decodeMutation bytes pos).outcome l = .ok (.error .corruptWal, l')) ∨
    (Wal.decodeMutation bytes pos = .error .corruptWal ∧ ValueUnreadable bytes pos ∧
      (decodeMutation bytes pos).outcome l = .error .doubleFree) := by
  rw [decodeMutation_eq, decodeMutation_readScope]
  cases hns : Wal.getBytes bytes pos with
  | error e =>
    obtain rfl := getBytes_only bytes pos e hns
    refine Or.inr (Or.inl ⟨rfl, ?_, l, Finset.Subset.refl _, outcome_bind_error (outcome_getBytes_error hns l)⟩)
    rintro ⟨ns, pos₁, hread, -⟩
    cases hns.symm.trans hread
  | ok p =>
    obtain ⟨ns, pos₁⟩ := p
    have hlost : ValueUnreadable bytes pos ↔ ns ≠ [] ∧ ValueFails bytes pos₁ := by
      constructor
      · rintro ⟨ns', pos₁', hread, hne, hfails⟩
        obtain ⟨rfl, rfl⟩ := Prod.mk.inj (Except.ok.inj (hns.symm.trans hread))
        exact ⟨hne, hfails⟩
      · exact fun ⟨hne, hfails⟩ => ⟨ns, pos₁, hns, hne, hfails⟩
    rw [outcome_bind_ok (outcome_getBytes_ok hns l), hlost]
    show (∃ m pos', readScope bytes ns pos₁ = _ ∧ _) ∨ (readScope bytes ns pos₁ = _ ∧ _) ∨
      readScope bytes ns pos₁ = _ ∧ _
    rcases decodeScope_cases ns l bytes pos₁ with ⟨m, pos', hm, hns, hread, hout⟩ | ⟨hm, hread, l', hsub, hout⟩ |
      ⟨hm, hfails, hout⟩
    · exact Or.inl ⟨m, pos', hm, fun h => hread h.2, outcome_errdefer_ok hout⟩
    · exact Or.inr (Or.inl ⟨hm, fun h => hread h.2, _, Ledger.live_subset_free_sliceOf ns hsub,
        outcome_errdefer_free hout hsub⟩)
    have hgone := Ledger.live_freed_iff (l := l) ns rfl
    by_cases hempty : ns = []
    · -- an empty namespace has no buffer to free
      have hnone : (l.sliceOf ns).ids = [] := (Ledger.sliceOf_ids_nil ns).mpr hempty
      refine Or.inr (Or.inl ⟨hm, fun h => h.1 hempty, ((l.acquire ns).free (l.sliceOf ns)).free (l.sliceOf ns), ?_, ?_⟩)
      · rw [Ledger.live_free, Ledger.live_free_sliceOf ns rfl, hnone, List.toFinset_nil, Finset.sdiff_empty]
      · rw [outcome_errdefer_error hout, outcome_bind_ok (outcome_free (hgone.mpr hempty))]
        rfl
    · exact Or.inr (Or.inr ⟨hm, ⟨hempty, hfails⟩, outcome_errdefer_free_twice hout (mt hgone.mp hempty)⟩)

/-- Each field is freed once behind the write. -/
theorem outcome_deferred_fields (l : Ledger) (m : FactMutation) (r : Except Err Live) :
    ∃ l', (deferred (free (decodedIn l m).namespaceId) <| deferred (free (decodedIn l m).value) <|
      deferred (free (decodedIn l m).node) <| plain r).outcome
        (((l.acquire m.namespaceId).acquire m.value).acquire m.cause.node) = .ok (r, l') ∧ l'.live = l.live := by
  have hnode := Ledger.live_free_sliceOf (l := (l.acquire m.namespaceId).acquire m.value) m.cause.node rfl
  have hvalue := Ledger.live_free_sliceOf (l := l.acquire m.namespaceId) m.value hnode
  have hns := Ledger.live_free_sliceOf (l := l) m.namespaceId hvalue
  refine ⟨_, outcome_deferred (outcome_deferred (outcome_deferred (outcome_plain r _) (outcome_free ?_))
    (outcome_free ?_)) (outcome_free ?_), hns⟩
  · exact Ledger.sliceOf_ids_subset m.cause.node (Finset.Subset.refl _)
  · exact Ledger.sliceOf_ids_subset m.value hnode.ge
  · exact Ledger.sliceOf_ids_subset m.namespaceId hvalue.ge

section Loop

variable {apply : Live → FactMutation → Except Err Live} {put : Live → FactMutation → Live}
  (happ : ∀ s m, apply s m = .ok (put s m))
include happ

theorem decodeOne_spec (bytes : Bytes) (self : Live) (pos : ℕ) :
    FreesTwice (ValueUnreadable bytes pos) Err.corruptWal (decodeOne apply bytes self pos)
      ((Wal.decodeMutation bytes pos).map fun p => (put self p.1, p.2)) where
  twice hlost l := by
    rcases decodeMutation_cases bytes pos l with ⟨-, -, -, hno, -⟩ | ⟨-, hno, -⟩ | ⟨-, -, hout⟩
    · exact absurd hlost hno
    · exact absurd hlost hno
    · exact outcome_bind_fault hout
  refused hlost := by
    rcases decodeMutation_cases bytes pos .empty with ⟨-, -, -, hno, -⟩ | ⟨hm, -⟩ | ⟨hm, -⟩
    · exact absurd hlost hno
    · rw [hm]
      rfl
    · rw [hm]
      rfl
  once hno l := by
    rcases decodeMutation_cases bytes pos l with ⟨m, pos', hm, -, hout⟩ | ⟨hm, -, l', hsub, hout⟩ | ⟨-, hlost, -⟩
    · obtain ⟨l', hdeferred, hlive⟩ := outcome_deferred_fields l m (.ok (put self m))
      refine ⟨l', ?_, hlive.ge⟩
      rw [hm, decodeOne, outcome_bind_ok hout]
      simp only [happ]
      exact outcome_bind_ok hdeferred
    · rw [hm]
      exact ⟨l', outcome_bind_error hout, hsub⟩
    · exact absurd hlost hno
  only := by
    intro e he
    rcases decodeMutation_cases bytes pos .empty with ⟨m, pos', hm, -⟩ | ⟨hm, -⟩ | ⟨hm, -⟩ <;> rw [hm] at he <;>
      cases he
    · rfl
    · rfl

/-- The loop of the replay functions, over a write that succeeds. -/
theorem decodeEach_spec (bytes : Bytes) (count : ℕ) (self : Live) (pos : ℕ) :
    FreesTwice (AnyUnreadable bytes count pos) Err.corruptWal (decodeEach apply bytes count self pos)
      (Wal.decodeEach apply bytes count self pos) := by
  induction count generalizing self pos with
  | zero => exact FreesTwice.pure _
  | succ count ih =>
    have hloop := (decodeOne_spec happ bytes self pos).bind fun p _ => ih p.1 p.2
    have heq : Wal.decodeEach apply bytes (count + 1) self pos =
        ((Wal.decodeMutation bytes pos).map fun p => (put self p.1, p.2)) >>= fun p =>
          Wal.decodeEach apply bytes count p.1 p.2 := by
      rw [Wal.decodeEach]
      cases Wal.decodeMutation bytes pos with
      | error e => rfl
      | ok p =>
        show (apply self p.1 >>= _) = _
        rw [happ]
        rfl
    rw [heq]
    refine hloop.iff (or_congr_right ⟨?_, ?_⟩)
    · rintro ⟨p, hp, hany⟩
      cases hm : Wal.decodeMutation bytes pos with
      | error e =>
        rw [hm] at hp
        cases hp
      | ok q =>
        rw [hm] at hp
        obtain rfl := Except.ok.inj hp
        exact ⟨q.1, q.2, rfl, hany⟩
    · rintro ⟨m, pos', hm, hany⟩
      exact ⟨(put self m, pos'), by rw [hm]; rfl, hany⟩

end Loop

theorem replayBatch_spec (payload : Bytes) (self : Live) :
    FreesTwice (4 ≤ payload.length ∧ readLE 4 payload 0 ≤ maxMutationCount ∧
      AnyUnreadable payload (readLE 4 payload 0) 4) Err.corruptWal (replayBatch self payload)
      (Wal.replayBatch self payload) := by
  refine FreesTwice.iff (FreesTwice.guard fun h => ?_) (and_congr_left' not_lt)
  rw [readLE_bind (by omega)]
  refine FreesTwice.iff (FreesTwice.guard fun _ => ?_) (and_congr_left' not_lt)
  refine (decodeEach_spec applyMutation_map_fst payload _ self 4).bind_pure fun p _ => ?_
  exact FreesTwice.iff (FreesTwice.guard fun _ => FreesTwice.pure _) (Iff.of_eq (and_false _))

theorem replayAck_safe (payload : Bytes) (self : Live) :
    Safe .corruptWal (replayAck self payload) (Wal.replayAck self payload) := by
  refine Safe.ite (fun _ => Safe.throw) fun h => ?_
  rw [Checked.readLE_bind (by omega)]
  exact Safe.pure _

theorem replayCascade_spec (payload : Bytes) (self : Live) :
    FreesTwice (12 ≤ payload.length ∧ readLE 4 payload 8 ≤ maxMutationCount ∧
      AnyUnreadable payload (readLE 4 payload 8) 12) Err.corruptWal (replayCascade self payload)
      (Wal.replayCascade self payload) := by
  refine FreesTwice.iff (FreesTwice.guard fun h => ?_) (and_congr_left' not_lt)
  have hack : Wal.getU64 payload 0 = .ok (UInt64.ofNat (readLE 8 payload 0), 8) := by
    rw [Wal.getU64, if_neg (by omega)]
  have hcount : Wal.getU32 payload 8 = .ok (UInt32.ofNat (readLE 4 payload 8), 12) := by
    rw [Wal.getU32, if_neg (by omega)]
  have hnat : (UInt32.ofNat (readLE 4 payload 8)).toNat = readLE 4 payload 8 :=
    UInt32.toNat_ofNat_of_lt' (readLE_lt 4 payload 8)
  rw [lift_getU64, hack]
  show FreesTwice _ _ (liftM (getU32 payload 8) >>= _) (Wal.getU32 payload 8 >>= _)
  rw [lift_getU32, hcount]
  show FreesTwice _ _ (if _ then _ else _) (if _ then _ else _)
  rw [hnat]
  refine FreesTwice.iff (FreesTwice.guard fun _ => ?_) (and_congr_left' not_lt)
  refine (decodeEach_spec applyMutationNoDirty_none payload _ self 12).bind_pure fun p _ => ?_
  exact FreesTwice.iff (FreesTwice.guard fun _ => FreesTwice.pure _) (Iff.of_eq (and_false _))

/-- The kind byte is there because `recover` refuses a length of zero. -/
theorem replayBody_spec {body : Bytes} (h : 1 ≤ body.length) (self : Live) :
    FreesTwice (BodyUnreadable body) Err.corruptWal (replayBody self body) (Wal.replayBody self body) := by
  cases body with
  | nil => cases h
  | cons kind payload =>
    unfold replayBody
    have hkind : UInt8.ofNat (readLE 1 (kind :: payload) 0) = kind := by
      simp [readLE, leNat]
    have hpayload : ((kind :: payload).drop 1).take ((kind :: payload).length - 1) = payload := by simp
    rw [readLE_bind h, sub_bind h, slice_bind (by omega), hkind, hpayload]
    refine FreesTwice.iff (FreesTwice.ite (fun _ => replayBatch_spec payload self) fun hbatch =>
      FreesTwice.ite (fun _ => FreesTwice.of_safe (replayAck_safe payload self)) fun _ =>
        FreesTwice.ite (fun _ => replayCascade_spec payload self) fun _ => FreesTwice.throw) ?_
    unfold BodyUnreadable
    by_cases hbatch : kind = recordBatch
    · subst hbatch
      simp [recordBatch, recordCascade]
    by_cases hack : kind = recordAck
    · subst hack
      simp [recordBatch, recordAck, recordCascade]
    simp only [hbatch, hack, if_false, false_and, false_or]
    by_cases hcascade : kind = recordCascade
    · simp only [hcascade, if_true, true_and]
    · simp only [hcascade, if_false, false_and]

/-! ### The loop -/

/-- A body that decodes has no such mutation. -/
theorem not_bodyUnreadable {body : Bytes} (hsize : SizeOk body) (h : ∃ r, decodeBody body = .ok r) :
    ¬ BodyUnreadable body := by
  intro hbad
  obtain ⟨r, hr⟩ := h
  have herror := (replayBody_spec hsize.1 Live.init).refused hbad
  rw [replayBody_eq, hr] at herror
  cases herror

/-- A complete record in front is one of those it is about, or is read and the rest is asked. -/
theorem freedTwice_frame {body : Bytes} (rest : Bytes) (h : SizeOk body) :
    FreedTwice (frame body ++ rest) ↔ BodyUnreadable body ∨ (∃ r, decodeBody body = .ok r) ∧ FreedTwice rest := by
  have hhead : ∀ {body' rest' : Bytes}, SizeOk body' → frame body ++ rest = frame body' ++ rest' →
      body = body' ∧ rest = rest' := by
    intro body' rest' h' hsame
    have hscan := scanRecord_frame rest h
    rw [hsame, scanRecord_frame rest' h'] at hscan
    obtain ⟨rfl, -⟩ := Scan.frame.inj hscan
    exact ⟨rfl, List.append_cancel_left hsame⟩
  constructor
  · rintro ⟨_ | ⟨first, bodies⟩, bad, rest', hsplit, hok, hsize, hbad⟩
    · obtain ⟨rfl, -⟩ := hhead hsize hsplit
      exact Or.inl hbad
    · have hfirst := hok first (by simp)
      rw [List.flatMap_cons, List.append_assoc] at hsplit
      obtain ⟨rfl, rfl⟩ := hhead hfirst.size hsplit
      exact Or.inr ⟨hfirst.decodes, bodies, bad, rest', rfl, fun b hb => hok b (List.mem_cons_of_mem _ hb), hsize, hbad⟩
  · rintro (hbad | ⟨hdecodes, bodies, bad, rest', rfl, hok, hsize, hbad⟩)
    · exact ⟨[], body, rest, rfl, nofun, h, hbad⟩
    · refine ⟨body :: bodies, bad, rest', ?_, List.forall_mem_cons.mpr ⟨⟨h, hdecodes⟩, hok⟩, hsize, hbad⟩
      rw [List.flatMap_cons, List.append_assoc]

/-- Well-formed records in front are read. -/
theorem freedTwice_append {pre : List Bytes} {rest : Bytes} (h : ∀ body ∈ pre, WellFormed body) :
    FreedTwice (pre.flatMap frame ++ rest) ↔ FreedTwice rest := by
  induction pre with
  | nil => exact Iff.rfl
  | cons body pre ih =>
    obtain ⟨hsize, hdecodes⟩ := h body (by simp)
    rw [List.flatMap_cons, List.append_assoc, freedTwice_frame _ hsize,
      ih fun body' h' => h body' (List.mem_cons_of_mem _ h'), or_iff_right (not_bodyUnreadable hsize hdecodes)]
    exact and_iff_right hdecodes

/-- There has to be a complete record in front. -/
theorem not_freedTwice {bytes : Bytes} (h : ∀ body size, scanRecord bytes ≠ .frame body size) : ¬ FreedTwice bytes := by
  rintro ⟨_ | ⟨first, bodies⟩, bad, rest, rfl, hok, hsize, -⟩
  · exact h _ _ (scanRecord_frame rest hsize)
  · rw [List.flatMap_cons, List.append_assoc] at h
    exact h _ _ (scanRecord_frame _ (hok first (by simp)).size)

theorem not_freedTwice_of_torn {bytes : Bytes} (h : scanRecord bytes = .torn) : ¬ FreedTwice bytes :=
  not_freedTwice fun body size hframe => by cases h.symm.trans hframe

theorem not_freedTwice_of_corrupt {bytes : Bytes} (h : scanRecord bytes = .corrupt) : ¬ FreedTwice bytes :=
  not_freedTwice fun body size hframe => by cases h.symm.trans hframe

theorem not_freedTwice_nil : ¬ FreedTwice [] := not_freedTwice_of_torn rfl

/-- A record and what comes behind it. -/
theorem replayRest_spec {body rest : Bytes} (hok : SizeOk body) (self : Live)
    {next : Live → Owning Err (Live × Option ℕ)} {next' : Live → Except Err (Live × Option ℕ)}
    (hnext : ∀ self', FreesTwice (FreedTwice rest) Err.corruptWal (next self') (next' self')) :
    FreesTwice (FreedTwice (frame body ++ rest)) Err.corruptWal (replayBody self body >>= next)
      (Wal.replayBody self body >>= next') := by
  refine ((replayBody_spec hok.1 self).bind fun self' _ => hnext self').iff ?_
  rw [freedTwice_frame rest hok, replayBody_eq]
  refine or_congr_right ?_
  cases decodeBody body with
  | error e => simp [Except.map]
  | ok r => simp [Except.map]

/-- The loop moves on by a record in each round, so one step of fuel for each byte, and one for the end, is
enough. -/
theorem recoverLoop_spec {bytes : Bytes} {pos : ℕ} (self : Live) (fuel : ℕ) (hfuel : bytes.length - pos < fuel) :
    FreesTwice (FreedTwice (bytes.drop pos)) Err.corruptWal (recoverLoop bytes fuel self pos)
      (Wal.recoverLoop bytes fuel self pos) := by
  have hh : headerSize = 4 := rfl
  have ht : trailerSize = 4 := rfl
  induction fuel generalizing self pos with
  | zero => cases hfuel
  | succ fuel ih =>
    have hscan := scanRecord_drop bytes pos
    have htorn : scanRecord (bytes.drop pos) = .torn → ∀ r : Live × Option ℕ,
        FreesTwice (FreedTwice (bytes.drop pos)) Err.corruptWal (pure r) (.ok r) := fun h r =>
      (FreesTwice.pure r).iff (iff_of_false id (not_freedTwice_of_torn h))
    have hcorrupt : scanRecord (bytes.drop pos) = .corrupt → FreesTwice (FreedTwice (bytes.drop pos)) Err.corruptWal
        (throw Err.corruptWal) (.error Err.corruptWal : Except Err (Live × Option ℕ)) := fun h =>
      FreesTwice.throw.iff (iff_of_false id (not_freedTwice_of_corrupt h))
    rw [recoverLoop, Wal.recoverLoop]
    by_cases hend : bytes.length ≤ pos
    · rw [if_pos hend, if_pos hend]
      exact htorn (by rw [List.drop_eq_nil_of_le hend]; rfl) _
    rw [if_neg hend, if_neg hend, sub_bind (by omega)]
    by_cases hheader : bytes.length - pos < headerSize
    · rw [if_pos hheader] at hscan ⊢
      rw [if_pos hheader]
      exact htorn hscan _
    rw [if_neg hheader] at hscan ⊢
    rw [if_neg hheader, readLE_bind (by omega)]
    by_cases hlength : readLE 4 bytes pos < 1 ∨ readLE 4 bytes pos > maxRecordSize
    · simp only [if_pos hlength] at hscan ⊢
      exact hcorrupt hscan
    simp only [if_neg hlength] at hscan ⊢
    rw [sub_bind (by omega)]
    by_cases hwhole : readLE 4 bytes pos > bytes.length - pos - headerSize - trailerSize
    · rw [if_pos hwhole] at hscan ⊢
      rw [if_pos hwhole]
      exact htorn hscan _
    rw [if_neg hwhole] at hscan ⊢
    rw [if_neg hwhole, slice_bind (by omega), readLE_bind (by omega)]
    by_cases hsum : (checksum ((bytes.drop (pos + headerSize)).take (readLE 4 bytes pos))).toNat ≠
        readLE 4 bytes (pos + headerSize + readLE 4 bytes pos)
    · rw [if_pos hsum] at hscan ⊢
      rw [if_pos hsum]
      exact hcorrupt hscan
    rw [if_neg hsum] at hscan ⊢
    rw [if_neg hsum]
    -- a complete record, and the next round behind it
    generalize (bytes.drop (pos + headerSize)).take (readLE 4 bytes pos) = body at hscan ⊢
    obtain ⟨hok, hsize, rest, hrest⟩ := scanRecord_sound hscan
    have hdrop : bytes.drop (pos + headerSize + readLE 4 bytes pos + trailerSize) = rest := by
      have hnext : pos + headerSize + readLE 4 bytes pos + trailerSize = pos + (readLE 4 bytes pos + 8) := by omega
      rw [hnext, ← List.drop_drop, hsize, ← hrest, List.drop_left]
    have hfuel' : bytes.length - (pos + headerSize + readLE 4 bytes pos + trailerSize) < fuel := by omega
    have hbody := replayRest_spec hok self fun self' => hdrop ▸ ih self' hfuel'
    rw [hrest] at hbody
    refine hbody.of_eq ?_
    cases Wal.replayBody self body <;> rfl

end Safety

/-- One more step of fuel than `recover` is given changes nothing. -/
theorem recoverLoop_fuel (file : Bytes) (self : Live) :
    Wal.recoverLoop file (file.length + 1) self 0 = Wal.recoverLoop file file.length self 0 := by
  rw [recoverLoop_eq file _ self 0 (Nat.zero_le _) (by omega),
    recoverLoop_eq file _ self 0 (Nat.zero_le _) (by omega), List.drop_zero,
    recordScanner.scanLog_succ Wal.replayBody _ _ _ _ (Nat.le_refl _)]

/-- The copy of the file is freed once, behind the loop. -/
theorem recoverFile_spec (self : Live) (file : Bytes) : FreesTwice (FreedTwice file) Err.corruptWal
    (recoverFile self file) (Wal.recoverLoop file file.length self 0) := by
  have hloop := @recoverLoop_spec file 0 self (file.length + 1) (by omega)
  rw [List.drop_zero, recoverLoop_fuel] at hloop
  refine ⟨fun hbad l => ?_, hloop.refused, fun hno l => ?_, hloop.only⟩
  · exact (outcome_bind_ok (outcome_dupe file l)).trans (outcome_deferred_fault (hloop.twice hbad _))
  · obtain ⟨l', hout, hsub⟩ := hloop.once hno (l.acquire file)
    refine ⟨l'.free (l.sliceOf file), (outcome_bind_ok (outcome_dupe file l)).trans
      (outcome_deferred hout (outcome_free (l.sliceOf_ids_subset file hsub))),
      Ledger.live_subset_free_sliceOf file hsub⟩

variable {self : Live} {file : Bytes}

/-- Recovery with its checks is recovery: no check fails, and an error leaves the file alone. -/
theorem recover_eq (h : ¬ FreedTwice file) : recover self file =
    .ok ((Wal.recover self file).map Prod.fst, ((Wal.recover self file).toOption.map Prod.snd).getD file) := by
  unfold recover Wal.recover
  by_cases hempty : file.length = 0
  · rw [if_pos hempty, if_pos hempty]
    rfl
  rw [if_neg hempty, if_neg hempty]
  obtain ⟨l, hout, -⟩ := (recoverFile_spec self file).once h .empty
  rw [hout]
  cases Wal.recoverLoop file file.length self 0 with
  | error e => rfl
  | ok r =>
    obtain ⟨live, _ | n⟩ := r
    · rfl
    · rfl

theorem recover_twice (h : FreedTwice file) : recover self file = .error .doubleFree := by
  have hne : file.length ≠ 0 := by
    intro hempty
    obtain rfl := List.length_eq_zero_iff.mp hempty
    exact not_freedTwice_nil h
  unfold recover
  rw [if_neg hne, (recoverFile_spec self file).twice h .empty]

end Guarded

/-- The only error of recovery. -/
theorem recover_error {self : Live} {file : Bytes} {e : Err} (h : recover self file = .error e) :
    e = .corruptWal := by
  have honly := (Guarded.recoverFile_spec self file).only
  unfold recover at h
  split_ifs at h
  cases hloop : recoverLoop file file.length self 0 with
  | error e' =>
    rw [hloop] at h
    obtain rfl := Except.error.inj h
    exact honly e' hloop
  | ok r =>
    rw [hloop] at h
    obtain ⟨live, _ | n⟩ := r
    · cases h
    · cases h

/-! ## The three ends -/

/-- The ways in which recovery can end. -/
inductive Ending where
  /-- all bytes are complete records -/
  | consumed
  /-- the file is cut at the start of an incomplete final record -/
  | cut
  | corrupt
deriving DecidableEq, Repr

/-- What recovery returned for a file, and the file it left, are those of an ending. -/
def EndsIn (self : Live) (file : Bytes) (result : Except Err Live) (file' : Bytes) : Ending → Prop
  | .consumed => ∃ (bodies : List Bytes) (live : Live), file = bodies.flatMap frame ∧
      (∀ body ∈ bodies, SizeOk body) ∧ bodies.foldlM replayBody self = .ok live ∧ result = .ok live ∧ file' = file
  | .cut => ∃ (bodies : List Bytes) (rest : Bytes) (live : Live), file = bodies.flatMap frame ++ rest ∧
      (∀ body ∈ bodies, SizeOk body) ∧ Incomplete rest ∧ bodies.foldlM replayBody self = .ok live ∧
      result = .ok live ∧ file' = bodies.flatMap frame
  | .corrupt => result = .error .corruptWal ∧ file' = file

/-- A file that is cut gets shorter. -/
theorem EndsIn.unique {self : Live} {file file' : Bytes} {result : Except Err Live} {e e' : Ending}
    (h : EndsIn self file result file' e) (h' : EndsIn self file result file' e') : e = e' := by
  have hcut : EndsIn self file result file' .cut → file' ≠ file ∧ ∃ live, result = .ok live := by
    rintro ⟨bodies, rest, live, rfl, -, ⟨hne, -⟩, -, hresult, rfl⟩
    exact ⟨fun hsame => hne (List.self_eq_append_right.mp hsame), live, hresult⟩
  have hconsumed : EndsIn self file result file' .consumed → file' = file ∧ ∃ live, result = .ok live := by
    rintro ⟨bodies, live, -, -, -, hresult, hsame⟩
    exact ⟨hsame, live, hresult⟩
  have hcorrupt : EndsIn self file result file' .corrupt → file' = file ∧ ¬ ∃ live, result = .ok live := by
    rintro ⟨hresult, hsame⟩
    exact ⟨hsame, fun ⟨live, hlive⟩ => nomatch hresult.symm.trans hlive⟩
  cases e with
  | consumed => cases e' with
    | consumed => rfl
    | cut => exact absurd (hconsumed h).1 (hcut h').1
    | corrupt => exact absurd (hconsumed h).2 (hcorrupt h').2
  | cut => cases e' with
    | consumed => exact absurd (hconsumed h').1 (hcut h).1
    | cut => rfl
    | corrupt => exact absurd (hcorrupt h').1 (hcut h).1
  | corrupt => cases e' with
    | consumed => exact absurd (hconsumed h').2 (hcorrupt h).2
    | cut => exact absurd (hcorrupt h).1 (hcut h').1
    | corrupt => rfl

/-- Recovery that frees nothing twice ends in one of the three ways. -/
theorem exists_endsIn (self : Live) (file : Bytes) : ∃ ending, EndsIn self file ((recover self file).map Prod.fst)
    (((recover self file).toOption.map Prod.snd).getD file) ending := by
  cases hr : recover self file with
  | error e =>
    obtain rfl := recover_error hr
    exact ⟨.corrupt, rfl, rfl⟩
  | ok r =>
    obtain ⟨live, file'⟩ := r
    obtain ⟨bodies, rest, rfl, hok, hfold, rfl, rfl | hrest⟩ := (recover_ok_iff _ _ _ _).mp hr
    · exact ⟨.consumed, bodies, live, List.append_nil _, hok, hfold, rfl, (List.append_nil _).symm⟩
    · exact ⟨.cut, bodies, rest, live, rfl, hok, hrest, hfold, rfl, rfl⟩

/-- **When recovery is safe.**  Whatever the file holds, recovery stays inside it and ends in exactly one of the three
ways iff it comes to no complete record in which a mutation with a namespace has a value that cannot be read; if it
does, that namespace is freed twice. -/
theorem recover_safe_iff (self : Live) (file : Bytes) :
    ((∃ result file', Guarded.recover self file = .ok (result, file') ∧ result = (recover self file).map Prod.fst ∧
      ∃! ending, EndsIn self file result file' ending) ↔ ¬ Guarded.FreedTwice file) ∧
    (Guarded.FreedTwice file → Guarded.recover self file = .error .doubleFree) := by
  refine ⟨⟨?_, fun hno => ?_⟩, Guarded.recover_twice⟩
  · rintro ⟨result, file', hout, -⟩ hbad
    rw [Guarded.recover_twice hbad] at hout
    cases hout
  · obtain ⟨ending, hending⟩ := exists_endsIn self file
    exact ⟨_, _, Guarded.recover_eq hno, rfl, ending, hending, fun _ h => h.unique hending⟩

/-- A complete record with its checksum: a batch of one mutation of the namespace `n`, whose value is longer than the
bytes that are left. -/
def unreadableValue : Bytes := frame [1, 1, 0, 0, 0, 1, 0, 0, 0, 110, 1, 0, 0, 0, 2, 0, 0, 0, 255, 255, 255, 255]

/-- The handler of the value frees the namespace, and the `errdefer` frees it again: recovery ends in none of the three
ways. -/
theorem recover_unreadableValue : Guarded.recover Live.init unreadableValue = .error .doubleFree ∧
    ¬ ∃ result file' ending, Guarded.recover Live.init unreadableValue = .ok (result, file') ∧
      EndsIn Live.init unreadableValue result file' ending := by
  have htwice : Guarded.recover Live.init unreadableValue = .error .doubleFree := by decide +kernel
  refine ⟨htwice, ?_⟩
  rintro ⟨result, file', ending, hout, -⟩
  cases htwice.symm.trans hout

end Slung.Wal
