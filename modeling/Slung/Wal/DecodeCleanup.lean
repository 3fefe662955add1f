import Slung.Lib.Cleanup
import Slung.Wal.Codec

/-!
# Slung.Wal.DecodeCleanup — the buffers of a decoded mutation (`wal.zig`, `decodeMutation`)

`decodeMutation` once more, with its allocator: three fields are copied into buffers, and each read may fail.
The namespace is freed on every error behind it, but the handler of the value frees it as well, and nothing
frees the value.  `decodeMutation_settles_iff` says which inputs and which refusals are spared.
-/

namespace Slung.Wal

open Slung.Lib Slung.Lib.Allocating

/-- A mutation whose byte fields lie in buffers. -/
structure DecodedMutation where
  namespaceId : Slice
  entity : EntityId
  component : ComponentId
  value : Slice
  timestamp : Timestamp
  cause : UInt32
  causeEntity : EntityId
  node : Slice
deriving DecidableEq, Repr

namespace DecodedMutation

/-- The buffers that its owner frees. -/
def buffers (m : DecodedMutation) : List ℕ := m.namespaceId.ids ++ (m.value.ids ++ m.node.ids)

/-- What is decoded. -/
def mutation (m : DecodedMutation) : FactMutation :=
  ⟨m.namespaceId.bytes, m.entity, m.component, m.value.bytes, m.timestamp, ⟨m.cause, m.causeEntity, m.node.bytes⟩⟩

end DecodedMutation

namespace Allocated

variable (refuses : ℕ → Bool)

def getBytes (bytes : Bytes) (pos : ℕ) : Allocating Err (Slice × ℕ) := do
  let (n, pos) ← liftM (getU32 bytes pos)
  if n.toNat > maxFieldSize ∨ n.toNat > bytes.length - pos then throw .corruptWal
  else do
    let result ← dupe refuses .outOfMemory ((bytes.drop pos).take n.toNat)
    pure (result, pos + n.toNat)

def decodeMutation (bytes : Bytes) (pos : ℕ) : Allocating Err (DecodedMutation × ℕ) := do
  let (namespaceId, pos) ← getBytes refuses bytes pos
  errdefer (free namespaceId) do
    let (entity, pos) ← liftM (getU32 bytes pos)
    let (component, pos) ← liftM (getU32 bytes pos)
    let (value, pos) ← tryCatch (getBytes refuses bytes pos) fun err => do
      free namespaceId
      throw err
    let (wall, pos) ← liftM (getU64 bytes pos)
    let (logical, pos) ← liftM (getU32 bytes pos)
    let (nodeId, pos) ← liftM (getU32 bytes pos)
    let (cause, pos) ← liftM (getU32 bytes pos)
    let (causeEntity, pos) ← liftM (getU32 bytes pos)
    let (node, pos) ← getBytes refuses bytes pos
    pure (⟨namespaceId, entity, component, value, ⟨wall, logical, nodeId⟩, cause, causeEntity, node⟩, pos)

end Allocated

/-! ## The reads between the fields -/

/-- What stands between the namespace and the value. -/
def getIds (bytes : Bytes) (pos : ℕ) : Except Err ((EntityId × ComponentId) × ℕ) := do
  let (entity, pos) ← getU32 bytes pos
  let (component, pos) ← getU32 bytes pos
  .ok ((entity, component), pos)

/-- What stands between the value and the node. -/
def getStamp (bytes : Bytes) (pos : ℕ) : Except Err ((Timestamp × UInt32 × EntityId) × ℕ) := do
  let (wall, pos) ← getU64 bytes pos
  let (logical, pos) ← getU32 bytes pos
  let (nodeId, pos) ← getU32 bytes pos
  let (cause, pos) ← getU32 bytes pos
  let (causeEntity, pos) ← getU32 bytes pos
  .ok ((⟨wall, logical, nodeId⟩, cause, causeEntity), pos)

/-- The field at `pos` is in range and granted, with what is behind it. -/
def FieldAt (refuses : ℕ → Bool) (request : ℕ) (bytes : Bytes) (pos : ℕ) (field : Bytes) (pos' : ℕ) : Prop :=
  getBytes bytes pos = .ok (field, pos') ∧ Granted refuses request field

/-- Behind the value everything is read. -/
def RestAt (refuses : ℕ → Bool) (request : ℕ) (bytes : Bytes) (pos : ℕ) : Prop :=
  ∃ stamp pos₁ node pos₂, getStamp bytes pos = .ok (stamp, pos₁) ∧ FieldAt refuses request bytes pos₁ node pos₂

/-- No buffer is lost: if reading comes to the value, then the namespace is empty or the value is read; and if it
is, then the value is empty or everything behind it is read. -/
def NothingLost (refuses : ℕ → Bool) (request : ℕ) (bytes : Bytes) (pos : ℕ) : Prop :=
  ∀ namespaceId pos₁ ids pos₂, FieldAt refuses request bytes pos namespaceId pos₁ →
    getIds bytes pos₁ = .ok (ids, pos₂) →
    (namespaceId = [] ∨ ∃ value pos₃, FieldAt refuses (Ledger.requestAfter request namespaceId) bytes pos₂ value pos₃) ∧
    ∀ value pos₃, FieldAt refuses (Ledger.requestAfter request namespaceId) bytes pos₂ value pos₃ →
      value = [] ∨ RestAt refuses (Ledger.requestAfter (Ledger.requestAfter request namespaceId) value) bytes pos₃

theorem decodeMutation_reads (bytes : Bytes) (pos : ℕ) : decodeMutation bytes pos = (do
    let (namespaceId, pos) ← getBytes bytes pos
    let (ids, pos) ← getIds bytes pos
    let (value, pos) ← getBytes bytes pos
    let (stamp, pos) ← getStamp bytes pos
    let (node, pos) ← getBytes bytes pos
    .ok (⟨namespaceId, ids.1, ids.2, value, stamp.1, ⟨stamp.2.1, stamp.2.2, node⟩⟩, pos)) := by
  unfold decodeMutation getIds getStamp
  simp only [bind_assoc]
  rfl

/-! ## The exits -/

namespace Allocated

variable {refuses : ℕ → Bool} {bytes : Bytes} {pos : ℕ} {l : Ledger}

theorem getBytes_eq : Allocated.getBytes refuses bytes pos = (do
    let (field, pos) ← liftM (Wal.getBytes bytes pos)
    let result ← dupe refuses .outOfMemory field
    pure (result, pos)) := by
  unfold Allocated.getBytes Wal.getBytes
  cases getU32 bytes pos with
  | error e => rfl
  | ok p =>
    obtain ⟨n, pos'⟩ := p
    show (if n.toNat > maxFieldSize ∨ n.toNat > bytes.length - pos' then _ else _) = _
    by_cases hrange : n.toNat > maxFieldSize ∨ n.toNat > bytes.length - pos'
    · rw [if_pos hrange]
      show _ = liftM (if n.toNat > maxFieldSize ∨ n.toNat > bytes.length - pos' then _ else _) >>= _
      rw [if_pos hrange]
      rfl
    · rw [if_neg hrange]
      show _ = liftM (if n.toNat > maxFieldSize ∨ n.toNat > bytes.length - pos' then _ else _) >>= _
      rw [if_neg hrange]
      rfl

theorem outcome_getBytes_ok {field : Bytes} {pos' : ℕ} (h : FieldAt refuses l.requests bytes pos field pos') :
    (Allocated.getBytes refuses bytes pos).outcome l = (.ok (l.sliceOf field, pos'), l.acquire field) := by
  rw [getBytes_eq, h.1, outcome_bind_ok (outcome_liftM _ l), outcome_bind_ok (outcome_dupe_ok h.2)]
  rfl

theorem outcome_getBytes_error (h : ¬ ∃ field pos', FieldAt refuses l.requests bytes pos field pos') :
    ∃ e l', (Allocated.getBytes refuses bytes pos).outcome l = (.error e, l') ∧ l.Keeps l' := by
  rw [getBytes_eq]
  cases hread : Wal.getBytes bytes pos with
  | error e => exact ⟨e, l, outcome_bind_error (outcome_liftM _ l), .refl l⟩
  | ok p =>
    have hrefused : ¬ Granted refuses l.requests p.1 := fun hgranted => h ⟨p.1, p.2, hread, hgranted⟩
    refine ⟨.outOfMemory, l.refuse, ?_, l.keeps_refuse⟩
    rw [outcome_bind_ok (outcome_liftM _ l)]
    exact outcome_bind_error (outcome_dupe_error hrefused)

theorem fieldAt_unique {request : ℕ} {field field' : Bytes} {pos₁ pos₁' : ℕ}
    (h : FieldAt refuses request bytes pos field pos₁) (h' : FieldAt refuses request bytes pos field' pos₁') :
    field = field' ∧ pos₁ = pos₁' := Prod.mk.inj (Except.ok.inj (h.1.symm.trans h'.1))

/-- What follows the value, once it is read. -/
def decodeRest (refuses : ℕ → Bool) (bytes : Bytes) (namespaceId : Slice) (ids : EntityId × ComponentId)
    (value : Slice) (pos : ℕ) : Allocating Err (DecodedMutation × ℕ) := do
  let (stamp, pos) ← liftM (getStamp bytes pos)
  let (node, pos) ← Allocated.getBytes refuses bytes pos
  pure (⟨namespaceId, ids.1, ids.2, value, stamp.1, stamp.2.1, stamp.2.2, node⟩, pos)

/-- What follows the namespace. -/
def decodeScope (refuses : ℕ → Bool) (bytes : Bytes) (namespaceId : Slice) (pos : ℕ) :
    Allocating Err (DecodedMutation × ℕ) := do
  let (ids, pos) ← liftM (getIds bytes pos)
  let (value, pos) ← errdefer (free namespaceId) (Allocated.getBytes refuses bytes pos)
  decodeRest refuses bytes namespaceId ids value pos

/-- The reads between the fields taken together. -/
theorem decodeMutation_eq : Allocated.decodeMutation refuses bytes pos = (do
    let (namespaceId, pos) ← Allocated.getBytes refuses bytes pos
    errdefer (free namespaceId) (decodeScope refuses bytes namespaceId pos)) := by
  unfold Allocated.decodeMutation decodeScope decodeRest getIds getStamp errdefer
  simp only [liftM_bind, bind_assoc]
  rfl

section Exits

variable {namespaceId value field : Slice} {ids : EntityId × ComponentId} {stamp : Timestamp × UInt32 × EntityId}
  {pos₁ pos₂ : ℕ} {l' : Ledger} {e : Err}

theorem outcome_decodeRest_ok (hstamp : getStamp bytes pos = .ok (stamp, pos₁))
    (hnode : (Allocated.getBytes refuses bytes pos₁).outcome l = (.ok (field, pos₂), l')) :
    (decodeRest refuses bytes namespaceId ids value pos).outcome l =
      (.ok (⟨namespaceId, ids.1, ids.2, value, stamp.1, stamp.2.1, stamp.2.2, field⟩, pos₂), l') := by
  unfold decodeRest
  rw [hstamp, outcome_bind_ok (outcome_liftM _ l), outcome_bind_ok hnode]
  rfl

theorem outcome_decodeRest_stamp (hstamp : getStamp bytes pos = .error e) :
    (decodeRest refuses bytes namespaceId ids value pos).outcome l = (.error e, l) := by
  unfold decodeRest
  rw [hstamp]
  exact outcome_bind_error (outcome_liftM _ l)

theorem outcome_decodeRest_node (hstamp : getStamp bytes pos = .ok (stamp, pos₁))
    (hnode : (Allocated.getBytes refuses bytes pos₁).outcome l = (.error e, l')) :
    (decodeRest refuses bytes namespaceId ids value pos).outcome l = (.error e, l') := by
  unfold decodeRest
  rw [hstamp, outcome_bind_ok (outcome_liftM _ l)]
  exact outcome_bind_error hnode

theorem outcome_decodeRest_error (h : ¬ RestAt refuses l.requests bytes pos) :
    ∃ e l', (decodeRest refuses bytes namespaceId ids value pos).outcome l = (.error e, l') ∧ l.Keeps l' := by
  cases hstamp : getStamp bytes pos with
  | error e => exact ⟨e, l, outcome_decodeRest_stamp hstamp, .refl l⟩
  | ok p =>
    have hnode : ¬ ∃ node pos', FieldAt refuses l.requests bytes p.2 node pos' := by
      rintro ⟨node, pos', hnode⟩
      exact h ⟨p.1, p.2, node, pos', hstamp, hnode⟩
    obtain ⟨e, l', hout, hkeeps⟩ := outcome_getBytes_error hnode
    exact ⟨e, l', outcome_decodeRest_node hstamp hout, hkeeps⟩

theorem outcome_decodeScope_ids (hids : getIds bytes pos = .error e) :
    (decodeScope refuses bytes namespaceId pos).outcome l = (.error e, l) := by
  unfold decodeScope
  rw [hids]
  exact outcome_bind_error (outcome_liftM _ l)

/-- The handler of the value frees the namespace. -/
theorem outcome_decodeScope_value (hids : getIds bytes pos = .ok (ids, pos₁))
    (hvalue : (Allocated.getBytes refuses bytes pos₁).outcome l = (.error e, l')) :
    (decodeScope refuses bytes namespaceId pos).outcome l = (.error e, l'.free namespaceId) := by
  unfold decodeScope
  rw [hids, outcome_bind_ok (outcome_liftM _ l)]
  exact outcome_bind_error (outcome_errdefer_error hvalue)

theorem outcome_decodeScope_rest (namespaceId : Slice) (hids : getIds bytes pos = .ok (ids, pos₁))
    (hvalue : (Allocated.getBytes refuses bytes pos₁).outcome l = (.ok (field, pos₂), l')) :
    (decodeScope refuses bytes namespaceId pos).outcome l =
      (decodeRest refuses bytes namespaceId ids field pos₂).outcome l' := by
  unfold decodeScope
  rw [hids, outcome_bind_ok (outcome_liftM _ l), outcome_bind_ok (outcome_errdefer_ok hvalue)]

end Exits

section Determined

variable {refuses : ℕ → Bool} {bytes namespaceId value : Bytes} {pos pos₁ pos₂ pos₃ : ℕ} {l : Ledger}
  {ids : EntityId × ComponentId}

/-- The namespace and the ids are determined. -/
theorem nothingLost_iff (hns : FieldAt refuses l.requests bytes pos namespaceId pos₁)
    (hids : getIds bytes pos₁ = .ok (ids, pos₂)) :
    NothingLost refuses l.requests bytes pos ↔
      (namespaceId = [] ∨ ∃ value pos₃, FieldAt refuses (l.acquire namespaceId).requests bytes pos₂ value pos₃) ∧
      ∀ value pos₃, FieldAt refuses (l.acquire namespaceId).requests bytes pos₂ value pos₃ →
        value = [] ∨ RestAt refuses ((l.acquire namespaceId).acquire value).requests bytes pos₃ := by
  simp only [Ledger.requests_acquire]
  refine ⟨fun h => h _ _ _ _ hns hids, fun h ns p₁ ids' p₂ hfield hids' => ?_⟩
  obtain ⟨rfl, rfl⟩ := fieldAt_unique hns hfield
  obtain ⟨rfl, rfl⟩ := Prod.mk.inj (Except.ok.inj (hids.symm.trans hids'))
  exact h

/-- So is the value, where it is read. -/
theorem behind_iff (hvalue : FieldAt refuses (l.acquire namespaceId).requests bytes pos₂ value pos₃) :
    ((namespaceId = [] ∨ ∃ value pos₃, FieldAt refuses (l.acquire namespaceId).requests bytes pos₂ value pos₃) ∧
      ∀ value pos₃, FieldAt refuses (l.acquire namespaceId).requests bytes pos₂ value pos₃ →
        value = [] ∨ RestAt refuses ((l.acquire namespaceId).acquire value).requests bytes pos₃) ↔
      value = [] ∨ RestAt refuses ((l.acquire namespaceId).acquire value).requests bytes pos₃ := by
  refine ⟨fun h => h.2 _ _ hvalue, fun h => ⟨Or.inr ⟨_, _, hvalue⟩, fun value' pos' hfield => ?_⟩⟩
  obtain ⟨rfl, rfl⟩ := fieldAt_unique hvalue hfield
  exact h

end Determined

/-- **When a decoded mutation settles its buffers.**  Where reading comes to the value and that fails, the
namespace is freed twice; where it fails behind the value, the value is not freed. -/
theorem decodeMutation_settles_iff (refuses : ℕ → Bool) (bytes : Bytes) (pos : ℕ) (l : Ledger) :
    l.Settles (fun d => d.1.buffers) ((Allocated.decodeMutation refuses bytes pos).outcome l) ↔
      NothingLost refuses l.requests bytes pos := by
  rw [decodeMutation_eq]
  by_cases hns : ∃ namespaceId pos₁, FieldAt refuses l.requests bytes pos namespaceId pos₁
  case neg =>
    obtain ⟨e, l', hout, hkeeps⟩ := outcome_getBytes_error hns
    rw [outcome_bind_error hout]
    exact iff_of_true hkeeps.settles fun namespaceId pos₁ _ _ hfield => absurd ⟨namespaceId, pos₁, hfield⟩ hns
  obtain ⟨namespaceId, pos₁, hns⟩ := hns
  rw [outcome_bind_ok (outcome_getBytes_ok hns)]
  cases hids : getIds bytes pos₁ with
  | error e =>
    rw [outcome_errdefer_error (outcome_decodeScope_ids hids)]
    refine iff_of_true (Ledger.settles_free _ (.refl _)) fun ns p₁ ids p₂ hfield hids' => ?_
    obtain ⟨rfl, rfl⟩ := fieldAt_unique hns hfield
    cases hids.symm.trans hids'
  | ok p =>
    obtain ⟨ids, pos₂⟩ := p
    rw [nothingLost_iff hns hids]
    by_cases hvalue : ∃ value pos₃, FieldAt refuses (l.acquire namespaceId).requests bytes pos₂ value pos₃
    case neg =>
      obtain ⟨e, l', hout, hkeeps⟩ := outcome_getBytes_error hvalue
      rw [outcome_errdefer_error (outcome_decodeScope_value hids hout), Ledger.settles_free_free _ hkeeps]
      exact ⟨fun h => ⟨Or.inl h, fun value pos₃ hfield => absurd ⟨value, pos₃, hfield⟩ hvalue⟩,
        fun h => h.1.resolve_right hvalue⟩
    obtain ⟨value, pos₃, hvalue⟩ := hvalue
    have hscope := outcome_decodeScope_rest (l.sliceOf namespaceId) hids (outcome_getBytes_ok hvalue)
    rw [behind_iff hvalue]
    by_cases hrest : RestAt refuses ((l.acquire namespaceId).acquire value).requests bytes pos₃
    case neg =>
      obtain ⟨e, l', hout, hkeeps⟩ := outcome_decodeRest_error hrest
      rw [outcome_errdefer_error (hscope.trans hout), Ledger.settles_free_first _ _ hkeeps, or_iff_left hrest]
    obtain ⟨stamp, pos₄, node, pos₅, hstamp, hnode⟩ := id hrest
    rw [outcome_errdefer_ok (hscope.trans (outcome_decodeRest_ok hstamp (outcome_getBytes_ok hnode)))]
    exact iff_of_true (Ledger.settles_three _ _ _ rfl) (Or.inr hrest)

/-- A record that ends behind the component. -/
theorem not_decodeMutation_settles :
    ¬ ∀ (refuses : ℕ → Bool) (bytes : Bytes) (pos : ℕ) (l : Ledger),
      l.Settles (fun d => d.1.buffers) ((Allocated.decodeMutation refuses bytes pos).outcome l) := by
  intro h
  have hcut := h (fun _ => false) [1, 0, 0, 0, 110, 0, 0, 0, 0, 0, 0, 0, 0] 0 .empty
  have hout : (Allocated.decodeMutation (fun _ => false) [1, 0, 0, 0, 110, 0, 0, 0, 0, 0, 0, 0, 0] 0).outcome .empty =
      (.error .corruptWal, (Ledger.empty.grant.free ⟨some 0, [110]⟩).free ⟨some 0, [110]⟩) := rfl
  rw [hout, Ledger.settles_error_iff [0] [0, 0] rfl rfl] at hcut
  exact absurd hcut.2.1.length_eq (by decide)

/-! ## The decoder of the log -/

/-- A field is read as the decoder without an allocator reads it, unless its buffer is refused. -/
theorem outcome_getBytes (refuses : ℕ → Bool) (bytes : Bytes) (pos : ℕ) (l : Ledger) :
    (∃ e, Wal.getBytes bytes pos = .error e ∧ (Allocated.getBytes refuses bytes pos).outcome l = (.error e, l)) ∨
    ((∃ r, refuses r = true) ∧ (Allocated.getBytes refuses bytes pos).outcome l = (.error .outOfMemory, l.refuse)) ∨
    ∃ field pos', Wal.getBytes bytes pos = .ok (field, pos') ∧
      (Allocated.getBytes refuses bytes pos).outcome l = (.ok (l.sliceOf field, pos'), l.acquire field) := by
  cases hread : Wal.getBytes bytes pos with
  | error e =>
    refine Or.inl ⟨e, rfl, ?_⟩
    rw [getBytes_eq, hread]
    exact outcome_bind_error (outcome_liftM _ l)
  | ok p =>
    obtain ⟨field, pos'⟩ := p
    by_cases hgranted : Granted refuses l.requests field
    · exact Or.inr (Or.inr ⟨field, pos', rfl, outcome_getBytes_ok ⟨hread, hgranted⟩⟩)
    · refine Or.inr (Or.inl ⟨⟨l.requests, by simpa using (Classical.not_imp.mp hgranted).2⟩, ?_⟩)
      rw [getBytes_eq, hread, outcome_bind_ok (outcome_liftM _ l)]
      exact outcome_bind_error (outcome_dupe_error hgranted)

/-- **What is decoded is what the decoder without an allocator decodes**, error or mutation, unless a buffer is
refused. -/
theorem decodeMutation_outcome (refuses : ℕ → Bool) (bytes : Bytes) (pos : ℕ) (l : Ledger) :
    (∃ r, refuses r = true) ∧ ((Allocated.decodeMutation refuses bytes pos).outcome l).1 = .error .outOfMemory ∨
    ((Allocated.decodeMutation refuses bytes pos).outcome l).1.map (fun d => (d.1.mutation, d.2)) =
      Wal.decodeMutation bytes pos := by
  rw [decodeMutation_eq, decodeMutation_reads]
  rcases outcome_getBytes refuses bytes pos l with ⟨e, hread, hout⟩ | ⟨hrefuses, hout⟩ | ⟨ns, pos₁, hread, hout⟩
  · rw [hread, outcome_bind_error hout]
    exact Or.inr rfl
  · rw [outcome_bind_error hout]
    exact Or.inl ⟨hrefuses, rfl⟩
  rw [hread, outcome_bind_ok hout]
  show _ ∨ _ = (getIds bytes pos₁ >>= fun p => _)
  cases hids : getIds bytes pos₁ with
  | error e =>
    rw [outcome_errdefer_error (outcome_decodeScope_ids hids)]
    exact Or.inr rfl
  | ok p =>
    obtain ⟨ids, pos₂⟩ := p
    show _ ∨ _ = (Wal.getBytes bytes pos₂ >>= fun p => _)
    rcases outcome_getBytes refuses bytes pos₂ (l.acquire ns) with
      ⟨e, hread, hout⟩ | ⟨hrefuses, hout⟩ | ⟨value, pos₃, hread, hout⟩
    · rw [hread, outcome_errdefer_error (outcome_decodeScope_value hids hout)]
      exact Or.inr rfl
    · rw [outcome_errdefer_error (outcome_decodeScope_value hids hout)]
      exact Or.inl ⟨hrefuses, rfl⟩
    rw [hread]
    show _ ∨ _ = (getStamp bytes pos₃ >>= fun p => _)
    have hscope := outcome_decodeScope_rest (l.sliceOf ns) hids hout
    cases hstamp : getStamp bytes pos₃ with
    | error e =>
      rw [outcome_errdefer_error (hscope.trans (outcome_decodeRest_stamp hstamp))]
      exact Or.inr rfl
    | ok p =>
      obtain ⟨stamp, pos₄⟩ := p
      show _ ∨ _ = (Wal.getBytes bytes pos₄ >>= fun p => _)
      rcases outcome_getBytes refuses bytes pos₄ ((l.acquire ns).acquire value) with
        ⟨e, hread, hnode⟩ | ⟨hrefuses, hnode⟩ | ⟨node, pos₅, hread, hnode⟩
      · rw [hread, outcome_errdefer_error (hscope.trans (outcome_decodeRest_node hstamp hnode))]
        exact Or.inr rfl
      · rw [outcome_errdefer_error (hscope.trans (outcome_decodeRest_node hstamp hnode))]
        exact Or.inl ⟨hrefuses, rfl⟩
      · rw [hread, outcome_errdefer_ok (hscope.trans (outcome_decodeRest_ok hstamp hnode))]
        exact Or.inr rfl

end Allocated

end Slung.Wal
