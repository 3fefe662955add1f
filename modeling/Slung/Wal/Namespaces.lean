import Slung.Lib.Latest
import Slung.Wal.Machine

/-!
# Slung.Wal.Namespaces — what one namespace sees of another one's calls (`wal.zig`)

All namespaces share one fact map under concatenated keys, one pending list and one id counter.  Facts and
pending entries are kept apart by the whole key and the whole namespace.  `latestTimestamp` looks at the first
bytes of a key only, so it also sees facts of namespaces that begin with the given one and a zero byte, and of
those whose keys run on into it; `sameFor_perform_iff` says exactly when a call of another namespace shows.
-/

namespace Slung.Wal

open Slung.Lib

/-! ## Reads -/

/-- One round of the scan of the fact map. -/
def scanFact (namespaceId : NamespaceId) (result : Option Timestamp) (key : Bytes) (fact : Fact) :
    Option Timestamp :=
  if ¬ namespaceId <+: key then result
  else if key.length ≤ namespaceId.length ∨ key[namespaceId.length]? ≠ some 0 then result
  else match result with
    | none => some fact.timestamp
    | some found => if fact.timestamp.after found then some fact.timestamp else result

/-- The keys that the scan does not skip. -/
def Scanned (namespaceId : NamespaceId) (key : Bytes) : Prop := namespaceId ++ [0] <+: key

instance (namespaceId : NamespaceId) : DecidablePred (Scanned namespaceId) :=
  fun key => inferInstanceAs (Decidable (namespaceId ++ [0] <+: key))

theorem scanned_iff {namespaceId : NamespaceId} {key : Bytes} : Scanned namespaceId key ↔
    namespaceId <+: key ∧ ¬ (key.length ≤ namespaceId.length ∨ key[namespaceId.length]? ≠ some 0) := by
  constructor
  · rintro ⟨rest, rfl⟩
    exact ⟨⟨[0] ++ rest, by simp⟩, by simp⟩
  · rintro ⟨⟨rest, rfl⟩, hzero⟩
    cases rest with
    | nil => exact absurd (Or.inl (by simp)) hzero
    | cons b rest =>
      have hb : b = 0 := by simpa using (not_or.mp hzero).2
      exact ⟨rest, by simp [hb]⟩

theorem scanFact_eq (namespaceId : NamespaceId) :
    scanFact namespaceId = latestStep (Scanned namespaceId) Fact.timestamp := by
  funext result key fact
  unfold scanFact latestStep
  by_cases hstarts : namespaceId <+: key
  · rw [if_neg (not_not.mpr hstarts)]
    by_cases hzero : key.length ≤ namespaceId.length ∨ key[namespaceId.length]? ≠ some 0
    · rw [if_pos hzero, if_neg fun hs => (scanned_iff.mp hs).2 hzero]
    · rw [if_neg hzero, if_pos (scanned_iff.mpr ⟨hstarts, hzero⟩)]
      cases result with
      | none => rfl
      | some found =>
        show (if fact.timestamp.after found = true then _ else _) = if found < fact.timestamp then _ else _
        simp only [Timestamp.after_iff]
  · rw [if_pos hstarts, if_neg fun hs => hstarts (scanned_iff.mp hs).1]

/-- The order of the scan does not matter. -/
theorem scanFact_comm (namespaceId : NamespaceId) (result : Option Timestamp) (key : Bytes) (fact : Fact)
    (key' : Bytes) (fact' : Fact) :
    scanFact namespaceId (scanFact namespaceId result key fact) key' fact' =
      scanFact namespaceId (scanFact namespaceId result key' fact') key fact := by
  rw [scanFact_eq]
  exact latestStep_comm _ _ result key fact key' fact'

def latestTimestamp (self : Live) (namespaceId : NamespaceId) : Option Timestamp :=
  self.facts.foldl (scanFact namespaceId) (scanFact_comm namespaceId) none

def pendingCountFor (self : Live) (namespaceId : Option NamespaceId) : ℕ :=
  self.pending.countP fun item => namespaceId.all (· == item.namespaceId)

theorem latestTimestamp_eq (self : Live) (namespaceId : NamespaceId) :
    latestTimestamp self namespaceId = latest (Scanned namespaceId) Fact.timestamp self.facts := by
  unfold latestTimestamp latest
  congr 1
  exact scanFact_eq namespaceId

theorem scanned_makeKey (namespaceId : NamespaceId) (entity : EntityId) (component : ComponentId) :
    Scanned namespaceId (makeKey namespaceId entity component) :=
  ⟨leBytes 4 entity.toNat ++ leBytes 4 component.toNat, by simp [makeKey]⟩

/-- The scan meets every fact of the namespace. -/
theorem le_latestTimestamp {self : Live} {namespaceId : NamespaceId} {t : Timestamp}
    (h : latestTimestamp self namespaceId = some t) {entity : EntityId} {component : ComponentId} {fact : Fact}
    (hfact : getFact self namespaceId entity component = some fact) : fact.timestamp ≤ t := by
  rw [latestTimestamp_eq] at h
  exact le_latest h hfact (scanned_makeKey namespaceId entity component)

theorem getFact_of_latestTimestamp_none {self : Live} {namespaceId : NamespaceId}
    (h : latestTimestamp self namespaceId = none) (entity : EntityId) (component : ComponentId) :
    getFact self namespaceId entity component = none := by
  rw [latestTimestamp_eq] at h
  by_contra hsome
  obtain ⟨fact, hfact⟩ := Option.ne_none_iff_exists'.mp hsome
  exact latest_eq_none_iff.mp h _ fact hfact (scanned_makeKey namespaceId entity component)

/-! ## Calls -/

/-- A call is let into the queue. -/
def State.Admits (s : State) : Prop := s.failed = false ∧ s.requests.length < maxQueuedRequests

instance (s : State) : Decidable s.Admits := inferInstanceAs (Decidable (_ ∧ _))

/-- The calls that change facts or pending work. -/
inductive Operation where
  | enqueueBatch (mutations : List FactMutation)
  | flushCascade (mutations : List FactMutation) (ackId : Int64)
  | ack (id : Int64)

namespace Operation

def mutations : Operation → List FactMutation
  | enqueueBatch ms => ms
  | flushCascade ms _ => ms
  | ack _ => []

def kind : Operation → UInt8
  | enqueueBatch _ => recordBatch
  | _ => recordCascade

/-- The id that the call takes out of the pending list. -/
def acked : Operation → Option ℤ
  | enqueueBatch _ => none
  | flushCascade _ ackId => some ackId.toInt
  | ack id => some id.toInt

/-- The live state after a call, with no other thread in between: a strict request is a group of its own. -/
def perform (s : State) (durability : Durability) (fault : Option (ℕ × AllocPoint)) (io : ℕ → Option Err) :
    Operation → Live
  | enqueueBatch ms =>
    match durability with
    | .eventual => ((Wal.enqueueBatch s ms .eventual fault).getD s).live
    | .strict =>
      if ms = [] ∨ ¬ s.Admits then s.live
      else (runGroup s.live [newRequest s recordBatch ms 0 .strict] fault io).1
  | flushCascade ms ackId =>
    match durability with
    | .eventual => ((Wal.flushCascade s ms ackId .eventual fault).getD s).live
    | .strict =>
      if ¬ s.Admits then s.live
      else match runGroup s.live [newRequest s recordCascade ms ackId .strict] fault io with
        | (live, some _) => live
        | (live, none) => removePending live ackId.toInt
  | ack id => if io 0 = none then removePending s.live id.toInt else s.live

/-- The mutations belong to a namespace, and so does a pending entry with the acknowledged id. -/
structure IsFor (namespaceId : NamespaceId) (live : Live) (op : Operation) : Prop where
  mutations : ∀ m ∈ op.mutations, m.namespaceId = namespaceId
  acked : ∀ id, op.acked = some id → ∃ item ∈ live.pending, item.id = id ∧ item.namespaceId = namespaceId

end Operation

/-- What a namespace sees of the log. -/
structure SameFor (namespaceId : NamespaceId) (live live' : Live) : Prop where
  getFact : ∀ entity component, getFact live' namespaceId entity component = getFact live namespaceId entity component
  latestTimestamp : latestTimestamp live' namespaceId = latestTimestamp live namespaceId
  pendingCountFor : pendingCountFor live' (some namespaceId) = pendingCountFor live (some namespaceId)
  pending : live'.pending.filter (·.namespaceId = namespaceId) = live.pending.filter (·.namespaceId = namespaceId)

/-! ## What a call does -/

namespace Operation

/-- The mutations with the kind of their record. -/
def kinded (op : Operation) : List (UInt8 × FactMutation) := op.mutations.map (op.kind, ·)

/-- The call is admitted, no allocation fails, and what a caller waits for succeeds. -/
def Publishes (s : State) (durability : Durability) (fault : Option (ℕ × AllocPoint)) (io : ℕ → Option Err) :
    Operation → Prop
  | ack _ => io 0 = none
  | op => s.Admits ∧ allocFails s.live op.kinded fault = false ∧ (durability = .strict → io 0 = none)

/-- An allocation fails while the worker publishes. -/
def Exhausts (s : State) (durability : Durability) (fault : Option (ℕ × AllocPoint)) (op : Operation) : Prop :=
  durability = .strict ∧ s.Admits ∧ allocFails s.live op.kinded fault = true

/-- What is left after the call when its effect is reached. -/
def effect (op : Operation) (live : Live) : Live :=
  op.acked.elim (live.putAll op.kinded) (removePending (live.putAll op.kinded))

end Operation

section Perform

variable {s : State} {durability : Durability} {fault : Option (ℕ × AllocPoint)} {io : ℕ → Option Err}

theorem recordedBefore_isPrefix (kms : List (UInt8 × FactMutation)) (fault : Option (ℕ × AllocPoint)) :
    recordedBefore kms fault <+: kms := by
  cases fault with
  | none => exact List.prefix_rfl
  | some f => exact List.take_prefix _ _

/-- Publishing under the mutex: whole, or not at all. -/
theorem publishNow_live (s : State) (r : Request) (fault : Option (ℕ × AllocPoint)) (undone flushed : Live → Live)
    (hundone : ∀ kms : List (UInt8 × FactMutation), (∀ km ∈ kms, km.1 = r.recordKind) →
      undone { (s.live.putAll kms) with facts := s.live.facts } = s.live) :
    (s.publishNow fault r undone flushed).live =
      if allocFails s.live (r.mutations.map (r.recordKind, ·)) fault then s.live
      else flushed (s.live.putAll (r.mutations.map (r.recordKind, ·))) := by
  have hfst : (publishMutations fault r.recordKind ⟨s.live, [], none⟩ r.mutations).1 =
      publishAll fault ⟨s.live, [], none⟩ (r.mutations.map (r.recordKind, ·)) := publishMutations_fst _ _
  unfold State.publishNow
  generalize hkms : r.mutations.map (r.recordKind, ·) = kms at hfst ⊢
  have hkinds : ∀ km ∈ recordedBefore kms fault, km.1 = r.recordKind := by
    intro km hkm
    have hmem := (recordedBefore_isPrefix kms fault).subset hkm
    rw [← hkms] at hmem
    obtain ⟨m, -, rfl⟩ := List.mem_map.mp hmem
    rfl
  cases hpub : publishMutations fault r.recordKind ⟨s.live, [], none⟩ r.mutations with
  | mk p accepted =>
    rw [hpub] at hfst
    obtain rfl : p = _ := hfst
    rcases publishAll_cases s.live kms fault with
      ⟨hfails, hp⟩ | ⟨hfails, pre, hpre, hp⟩ | ⟨hfails, pre, km, hpre, hp⟩
    · rw [hfails, hp]
      rfl
    · rw [hpre] at hkinds
      have hexact : (rollback Fact.timestamp (recordAll Fact.timestamp s.live.facts (writesOf pre)).1
          (recordAll Fact.timestamp s.live.facts (writesOf pre)).2).1 = s.live.facts := rollback_record _ _
      rw [← Live.putAll_facts] at hexact
      rw [hfails, hp, if_pos rfl]
      simp only [rollbackFacts, hexact]
      exact hundone pre hkinds
    · rw [hpre] at hkinds
      have hexact : (rollback Fact.timestamp (recordAll Fact.timestamp s.live.facts (writesOf pre)).1
          ((recordAll Fact.timestamp s.live.facts (writesOf pre)).2 ++ [undoOf Fact.timestamp
            (recordAll Fact.timestamp s.live.facts (writesOf pre)).1 km.2.key km.2.fact])).1 = s.live.facts :=
        rollback_record_unwritten _ _ _ _
      rw [← Live.putAll_facts] at hexact
      rw [hfails, hp, if_pos rfl]
      simp only [rollbackFacts, hexact]
      exact hundone pre fun km' hkm' => hkinds km' (List.mem_append_left _ hkm')

theorem admission_live (s admitted : State) :
    ((admission s admitted).getD s).live = if s.Admits then admitted.live else s.live := by
  unfold admission
  by_cases hfailed : s.failed = true
  · rw [if_pos hfailed, if_neg fun h => by rw [h.1] at hfailed; cases hfailed]
    rfl
  · by_cases hroom : s.requests.length < maxQueuedRequests
    · rw [if_neg hfailed, if_pos hroom, if_pos ⟨Bool.eq_false_iff.mpr hfailed, hroom⟩]
      rfl
    · rw [if_neg hfailed, if_neg hroom, if_neg fun h => hroom h.2]
      rfl

/-- An eventual call has its effect if it is admitted and no allocation fails. -/
theorem perform_eventual (op : Operation) (hop : ∀ id, op ≠ .ack id) :
    op.perform s .eventual fault io =
      if s.Admits ∧ allocFails s.live op.kinded fault = false then op.effect s.live else s.live := by
  have hite : ∀ live : Live, (if s.Admits then if allocFails s.live op.kinded fault = true then s.live
      else live else s.live) =
      if s.Admits ∧ allocFails s.live op.kinded fault = false then live else s.live := by
    intro live
    by_cases hadm : s.Admits <;> cases allocFails s.live op.kinded fault <;> simp [hadm]
  cases op with
  | ack id => exact absurd rfl (hop id)
  | enqueueBatch ms =>
    show ((Wal.enqueueBatch s ms .eventual fault).getD s).live = _
    unfold Wal.enqueueBatch
    by_cases hnil : ms = []
    · subst hnil
      rw [if_pos rfl]
      exact (ite_self _).symm
    · rw [if_neg hnil]
      simp only
      rw [admission_live, publishNow_live, ← hite]
      · rfl
      · intro kms _
        show rollbackPending _ s.live.pending.length s.live.nextId = _
        unfold rollbackPending
        simp only [← List.prefix_iff_eq_take.mp (s.live.putAll_pending_prefix kms)]
  | flushCascade ms ackId =>
    show ((Wal.flushCascade s ms ackId .eventual fault).getD s).live = _
    unfold Wal.flushCascade
    simp only
    rw [admission_live, publishNow_live, ← hite]
    · rfl
    · intro kms hkinds
      have hms : kms = (kms.map Prod.snd).map (recordCascade, ·) := by
        rw [List.map_map]
        refine (List.map_id kms).symm.trans (List.map_congr_left fun km hkm => ?_)
        exact Prod.ext (hkinds km hkm) rfl
      show Live.mk s.live.facts (s.live.putAll kms).pending (s.live.putAll kms).nextId = s.live
      rw [hms, Live.putAll_noDirty, Live.foldl_putFact_pending, Live.foldl_putFact_nextId]

/-- A strict request is a group whose mutations are its own. -/
theorem strictMutations_newRequest (kind : UInt8) (ms : List FactMutation) (ackId : Int64) :
    strictMutations [newRequest s kind ms ackId .strict] = ms.map (kind, ·) := by
  simp [strictMutations, newRequest]

/-- A call that does not wait for the disk in vain removes what it acknowledges. -/
theorem perform_strict (op : Operation) (hop : ∀ id, op ≠ .ack id) (hadm : s.Admits) :
    ∃ r, strictMutations [r] = op.kinded ∧ op.perform s .strict fault io =
      if (runGroup s.live [r] fault io).2 = none then op.acked.elim (runGroup s.live [r] fault io).1
        (removePending (runGroup s.live [r] fault io).1) else (runGroup s.live [r] fault io).1 := by
  cases op with
  | ack id => exact absurd rfl (hop id)
  | enqueueBatch ms =>
    refine ⟨newRequest s recordBatch ms 0 .strict, strictMutations_newRequest _ _ _, ?_⟩
    refine Eq.trans ?_ (ite_self _).symm
    by_cases hnil : ms = []
    · have hnone : (runGroup s.live [newRequest s recordBatch ms 0 .strict] fault io).1 = s.live := by
        subst hnil
        have hkms : strictMutations [newRequest s recordBatch [] 0 .strict] = [] :=
          strictMutations_newRequest _ _ _
        rcases runGroup_cases s.live [newRequest s recordBatch [] 0 .strict] fault io with
          ⟨-, -, hrun⟩ | ⟨-, e, -, hrun⟩ | ⟨hfails, -⟩
        · rw [hrun, hkms]
          rfl
        · rw [hrun]
        · rw [hkms] at hfails
          cases fault <;> exact absurd hfails Bool.false_ne_true
      rw [hnone]
      exact if_pos (Or.inl hnil)
    · exact if_neg (not_or.mpr ⟨hnil, not_not.mpr hadm⟩)
  | flushCascade ms ackId =>
    refine ⟨newRequest s recordCascade ms ackId .strict, strictMutations_newRequest _ _ _, ?_⟩
    refine (if_neg (not_not.mpr hadm)).trans ?_
    cases runGroup s.live [newRequest s recordCascade ms ackId .strict] fault io with
    | mk live err =>
      cases err with
      | none => rfl
      | some e => rfl

variable (s durability fault io) in
/-- **What a call leaves**: its effect, the state before it, or the state before it without the facts that the
publication tied with when it failed. -/
theorem perform_cases (op : Operation) :
    (op.Publishes s durability fault io ∧ ¬ op.Exhausts s durability fault ∧
      op.perform s durability fault io = op.effect s.live) ∨
    (¬ op.Publishes s durability fault io ∧ ¬ op.Exhausts s durability fault ∧
      op.perform s durability fault io = s.live) ∨
    (¬ op.Publishes s durability fault io ∧ op.Exhausts s durability fault ∧ ∃ facts,
      op.perform s durability fault io = { s.live with facts := facts } ∧ ∀ key,
        (Tied Fact.timestamp s.live.facts (writesOf (recordedBefore op.kinded fault)) key →
          facts.lookup key = none) ∧
        (¬ Tied Fact.timestamp s.live.facts (writesOf (recordedBefore op.kinded fault)) key →
          facts.lookup key = s.live.facts.lookup key)) := by
  by_cases hack : ∃ id, op = .ack id
  · obtain ⟨id, rfl⟩ := hack
    have hquiet : allocFails s.live (Operation.ack id).kinded fault = false := by
      cases fault <;> rfl
    have hexhausts : ¬ (Operation.ack id).Exhausts s durability fault := fun h =>
      Bool.noConfusion (hquiet.symm.trans h.2.2)
    by_cases hio : io 0 = none
    · exact Or.inl ⟨hio, hexhausts, if_pos hio⟩
    · exact Or.inr (Or.inl ⟨hio, hexhausts, if_neg hio⟩)
  have hop : ∀ id, op ≠ .ack id := fun id h => hack ⟨id, h⟩
  have hpublishes : op.Publishes s durability fault io ↔ s.Admits ∧
      allocFails s.live op.kinded fault = false ∧ (durability = .strict → io 0 = none) := by
    cases op with
    | ack id => exact absurd rfl (hop id)
    | _ => exact Iff.rfl
  rw [hpublishes]
  cases durability with
  | eventual =>
    have hexhausts : ¬ op.Exhausts s .eventual fault := fun h => nomatch h.1
    rw [perform_eventual op hop]
    by_cases heffect : s.Admits ∧ allocFails s.live op.kinded fault = false
    · exact Or.inl ⟨⟨heffect.1, heffect.2, nofun⟩, hexhausts, if_pos heffect⟩
    · exact Or.inr (Or.inl ⟨fun h => heffect ⟨h.1, h.2.1⟩, hexhausts, if_neg heffect⟩)
  | strict =>
    by_cases hadm : s.Admits
    swap
    · refine Or.inr (Or.inl ⟨fun h => hadm h.1, fun h => hadm h.2.1, ?_⟩)
      cases op with
      | ack id => exact absurd rfl (hop id)
      | enqueueBatch ms => exact if_pos (Or.inr hadm)
      | flushCascade ms ackId => exact if_pos hadm
    obtain ⟨r, hr, hperform⟩ : ∃ r, strictMutations [r] = op.kinded ∧ op.perform s .strict fault io = _ :=
      perform_strict op hop hadm
    rw [hperform]
    rcases runGroup_cases s.live [r] fault io with
      ⟨hfails, hio, hrun⟩ | ⟨hfails, e, hio, hrun⟩ | ⟨hfails, facts, hrun, hfacts⟩
    · rw [hr] at hfails hrun
      refine Or.inl ⟨⟨hadm, hfails, fun _ => hio⟩, fun h => ?_, ?_⟩
      · rw [h.2.2] at hfails
        cases hfails
      · rw [hrun, if_pos rfl]
        rfl
    · rw [hr] at hfails
      refine Or.inr (Or.inl ⟨fun h => ?_, fun h => ?_, ?_⟩)
      · rw [h.2.2 rfl] at hio
        cases hio
      · rw [h.2.2] at hfails
        cases hfails
      · rw [hrun, if_neg nofun]
    · rw [hr] at hfails hfacts
      refine Or.inr (Or.inr ⟨fun h => ?_, ⟨rfl, hadm, hfails⟩, facts, ?_, hfacts⟩)
      · rw [h.2.1] at hfails
        cases hfails
      · rw [hrun, if_neg nofun]

end Perform

/-! ## What another namespace sees of it -/

section View

variable {self : Live} {A B : NamespaceId} {kms : List (UInt8 × FactMutation)}

theorem putAll_facts_foldl (self : Live) (kms : List (UInt8 × FactMutation)) : (self.putAll kms).facts =
    kms.foldl (fun facts km => write Fact.timestamp facts km.2.key km.2.fact) self.facts := by
  induction kms generalizing self with
  | nil => rfl
  | cons km kms ih =>
    rw [Live.putAll_cons, ih, Live.put_facts]
    rfl

theorem lookup_putAll {key : Bytes} (h : ∀ km ∈ kms, km.2.key ≠ key) :
    (self.putAll kms).facts.lookup key = self.facts.lookup key := by
  induction kms generalizing self with
  | nil => rfl
  | cons km kms ih =>
    rw [List.forall_mem_cons] at h
    rw [Live.putAll_cons, ih h.2, Live.put_facts, lookup_write_ne (Ne.symm h.1)]

theorem key_ne_makeKey {m : FactMutation} (h : m.namespaceId ≠ A) (entity : EntityId) (component : ComponentId) :
    m.key ≠ makeKey A entity component := fun heq => h (makeKey_inj heq).1

/-- Pending entries of other namespaces come and go unnoticed. -/
theorem filter_putAll (h : ∀ km ∈ kms, km.2.namespaceId ≠ A) :
    (self.putAll kms).pending.filter (·.namespaceId = A) = self.pending.filter (·.namespaceId = A) := by
  induction kms generalizing self with
  | nil => rfl
  | cons km kms ih =>
    rw [List.forall_mem_cons] at h
    rw [Live.putAll_cons, ih h.2]
    unfold Live.put
    by_cases hk : km.1 = recordCascade
    · rw [if_pos hk]
      rfl
    · rw [if_neg hk]
      show List.filter _ (if self.accepts km.2 then _ else _) = _
      by_cases hacc : self.accepts km.2 = true
      · rw [if_pos hacc, List.filter_append, List.filter_cons_of_neg (decide_eq_false h.1 ▸ Bool.false_ne_true),
          List.filter_nil, List.append_nil]
      · rw [if_neg hacc]

/-- Taking the first element with `p` out is not seen through `q` iff that element is not. -/
theorem filter_eraseP_eq_iff {α : Type} (p q : α → Bool) (l : List α) :
    (l.eraseP p).filter q = l.filter q ↔ ∀ a, l.find? p = some a → q a = false := by
  induction l with
  | nil => simp
  | cons a l ih =>
    by_cases hp : p a = true
    · rw [List.eraseP_cons_of_pos hp, List.find?_cons_of_pos hp]
      constructor
      · rintro h _ ⟨⟩
        by_contra hq
        rw [List.filter_cons_of_pos (by simpa using hq)] at h
        exact absurd (congrArg List.length h) (by simp)
      · intro h
        rw [List.filter_cons_of_neg (by simp [h a rfl])]
    · rw [List.eraseP_cons_of_neg hp, List.find?_cons_of_neg hp, ← ih]
      by_cases hq : q a = true
      · rw [List.filter_cons_of_pos hq, List.filter_cons_of_pos hq, List.cons.injEq, and_iff_right rfl]
      · rw [List.filter_cons_of_neg hq, List.filter_cons_of_neg hq]

theorem pendingCountFor_eq (self : Live) (A : NamespaceId) :
    pendingCountFor self (some A) = (self.pending.filter (·.namespaceId = A)).length := by
  rw [pendingCountFor, ← List.countP_eq_length_filter]
  refine List.countP_congr fun item _ => ?_
  show (A == item.namespaceId) = true ↔ _
  rw [beq_iff_eq, decide_eq_true_iff, eq_comm]

/-- Facts are kept apart by their keys; the count follows from the entries. -/
theorem sameFor_iff {live : Live}
    (hfacts : ∀ entity component, live.facts.lookup (makeKey A entity component) =
      self.facts.lookup (makeKey A entity component)) :
    SameFor A self live ↔ latestTimestamp live A = latestTimestamp self A ∧
      live.pending.filter (·.namespaceId = A) = self.pending.filter (·.namespaceId = A) := by
  constructor
  · exact fun h => ⟨h.latestTimestamp, h.pending⟩
  · rintro ⟨hlatest, hpending⟩
    refine ⟨hfacts, hlatest, ?_, hpending⟩
    rw [pendingCountFor_eq, pendingCountFor_eq, hpending]

end View

namespace Operation

/-- When a call does not show in a namespace: nothing newer is published under a key that the scan of the namespace
meets; the acknowledged entry is not of the namespace; and of the facts that the scan meets a latest one stays
when a failed publication deletes facts that it ties with. -/
structure Unseen (A : NamespaceId) (s : State) (durability : Durability) (fault : Option (ℕ × AllocPoint))
    (io : ℕ → Option Err) (op : Operation) : Prop where
  older : op.Publishes s durability fault io → ∀ m ∈ op.mutations, Scanned A m.key →
    ∃ t, latestTimestamp s.live A = some t ∧ m.timestamp ≤ t
  acked : op.Publishes s durability fault io → ∀ id, op.acked = some id →
    ∀ item, s.live.pending.find? (fun item => item.id == id) = some item → item.namespaceId ≠ A
  kept : op.Exhausts s durability fault → ∀ t, latestTimestamp s.live A = some t →
    ∃ key fact, s.live.facts.lookup key = some fact ∧ Scanned A key ∧ fact.timestamp = t ∧
      ∀ km ∈ recordedBefore op.kinded fault, km.2.key = key → km.2.timestamp ≠ t

end Operation

section View

variable {s : State} {durability : Durability} {fault : Option (ℕ × AllocPoint)} {io : ℕ → Option Err}
  {A B : NamespaceId} {op : Operation}

theorem mem_kinded {km : UInt8 × FactMutation} (h : km ∈ op.kinded) : km.1 = op.kind ∧ km.2 ∈ op.mutations := by
  obtain ⟨m, hm, rfl⟩ := List.mem_map.mp h
  exact ⟨rfl, hm⟩

/-- Only cascades and acknowledgements take an entry out, and they put none in. -/
theorem effect_pending (op : Operation) (self : Live) {id : ℤ} (h : op.acked = some id) :
    (op.effect self).pending = self.pending.eraseP fun item => item.id == id := by
  have hkind : op.kind = recordCascade := by
    cases op with
    | enqueueBatch ms => cases h
    | _ => rfl
  rw [Operation.effect, h]
  show (removePending (self.putAll op.kinded) id).pending = _
  rw [Operation.kinded, hkind, Live.putAll_noDirty, removePending, Live.foldl_putFact_pending]

theorem effect_facts (op : Operation) (self : Live) :
    (op.effect self).facts = (self.putAll op.kinded).facts := by
  rw [Operation.effect]
  cases op.acked <;> rfl

/-- The effect of a call, seen from another namespace. -/
theorem sameFor_effect_iff (hne : A ≠ B) (self : Live) (hop : op.IsFor B self) : SameFor A self (op.effect self) ↔
    (∀ m ∈ op.mutations, Scanned A m.key → ∃ t, latestTimestamp self A = some t ∧ m.timestamp ≤ t) ∧
      ∀ id, op.acked = some id →
        ∀ item, self.pending.find? (fun item => item.id == id) = some item → item.namespaceId ≠ A := by
  have hforeign : ∀ km ∈ op.kinded, km.2.namespaceId ≠ A := fun km hkm => by
    rw [hop.mutations km.2 (mem_kinded hkm).2]
    exact hne.symm
  have hfacts : ∀ entity component, (op.effect self).facts.lookup (makeKey A entity component) =
      self.facts.lookup (makeKey A entity component) := fun entity component => by
    rw [effect_facts]
    exact lookup_putAll fun km hkm => key_ne_makeKey (hforeign km hkm) entity component
  have hlatest : latestTimestamp (op.effect self) A = latestTimestamp self A ↔
      ∀ m ∈ op.mutations, Scanned A m.key → ∃ t, latestTimestamp self A = some t ∧ m.timestamp ≤ t := by
    rw [latestTimestamp_eq, latestTimestamp_eq, effect_facts, putAll_facts_foldl,
      latest_foldl_write_eq_iff (fun km : UInt8 × FactMutation => km.2.key) (fun km => km.2.fact)]
    rw [Operation.kinded, List.forall_mem_map]
    rfl
  have hpending : (op.effect self).pending.filter (·.namespaceId = A) =
      self.pending.filter (·.namespaceId = A) ↔ ∀ id, op.acked = some id →
        ∀ item, self.pending.find? (fun item => item.id == id) = some item → item.namespaceId ≠ A := by
    cases hacked : op.acked with
    | none =>
      refine iff_of_true ?_ nofun
      rw [Operation.effect, hacked]
      exact filter_putAll hforeign
    | some id =>
      rw [effect_pending op self hacked, filter_eraseP_eq_iff]
      simp only [decide_eq_false_iff_not, Option.some.injEq, forall_eq']
  rw [sameFor_iff hfacts, hlatest, hpending]

variable (s durability fault io) in
/-- **When a call of one namespace does not show in another.** -/
theorem sameFor_perform_iff (hne : A ≠ B) (op : Operation) (hop : op.IsFor B s.live) :
    SameFor A s.live (op.perform s durability fault io) ↔ op.Unseen A s durability fault io := by
  rcases perform_cases s durability fault io op with
    ⟨hpub, hexh, hperform⟩ | ⟨hpub, hexh, hperform⟩ | ⟨hpub, hexh, facts, hperform, hfacts⟩
  · rw [hperform, sameFor_effect_iff hne s.live hop]
    exact ⟨fun h => ⟨fun _ => h.1, fun _ => h.2, fun he => absurd he hexh⟩,
      fun h => ⟨h.older hpub, h.acked hpub⟩⟩
  · rw [hperform]
    exact iff_of_true ⟨fun _ _ => rfl, rfl, rfl, rfl⟩
      ⟨fun h => absurd h hpub, fun h => absurd h hpub, fun he => absurd he hexh⟩
  · rw [hperform]
    have htied : ∀ key fact, s.live.facts.lookup key = some fact →
        (¬ Tied Fact.timestamp s.live.facts (writesOf (recordedBefore op.kinded fault)) key ↔
          ∀ km ∈ recordedBefore op.kinded fault, km.2.key = key → km.2.timestamp ≠ fact.timestamp) := by
      intro key fact hfact
      constructor
      · intro hno km hkm hkey heq
        exact hno ⟨(km.2.key, km.2.fact), List.mem_map_of_mem hkm, hkey, fact, hfact, heq.symm⟩
      · rintro hno ⟨w, hw, hkey, c, hc, heq⟩
        obtain ⟨km, hkm, rfl⟩ := List.mem_map.mp hw
        rw [hfact] at hc
        obtain rfl := Option.some.inj hc
        exact hno km hkm hkey heq.symm
    have hown : ∀ entity component, facts.lookup (makeKey A entity component) =
        s.live.facts.lookup (makeKey A entity component) := by
      refine fun entity component => (hfacts _).2 ?_
      rintro ⟨w, hw, hkey, -⟩
      obtain ⟨km, hkm, rfl⟩ := List.mem_map.mp hw
      have hmem := mem_kinded ((recordedBefore_isPrefix op.kinded fault).subset hkm)
      exact key_ne_makeKey (by rw [hop.mutations km.2 hmem.2]; exact hne.symm) entity component hkey
    have hgone : ∀ key, facts.lookup key = none ∨ facts.lookup key = s.live.facts.lookup key := by
      intro key
      by_cases h : Tied Fact.timestamp s.live.facts (writesOf (recordedBefore op.kinded fault)) key
      · exact Or.inl ((hfacts key).1 h)
      · exact Or.inr ((hfacts key).2 h)
    rw [sameFor_iff hown, latestTimestamp_eq, latestTimestamp_eq, latest_eq_of_gone_iff hgone]
    simp only [and_true]
    constructor
    · intro h
      refine ⟨fun hp => absurd hp hpub, fun hp => absurd hp hpub, fun _ t ht => ?_⟩
      rw [latestTimestamp_eq] at ht
      obtain ⟨key, fact, hfact, hscanned, rfl⟩ := h t ht
      have hno : ¬ Tied Fact.timestamp s.live.facts (writesOf (recordedBefore op.kinded fault)) key := by
        intro htied'
        rw [(hfacts key).1 htied'] at hfact
        cases hfact
      rw [(hfacts key).2 hno] at hfact
      exact ⟨key, fact, hfact, hscanned, rfl, (htied key fact hfact).mp hno⟩
    · intro h t ht
      rw [← latestTimestamp_eq] at ht
      obtain ⟨key, fact, hfact, hscanned, rfl, hno⟩ := h.kept hexh t ht
      exact ⟨key, fact, ((hfacts key).2 ((htied key fact hfact).mpr hno)).trans hfact, hscanned, rfl⟩

/-- Distinct ids: the entry that a call acknowledges is the one it means. -/
theorem acked_unseen (hne : A ≠ B) {self : Live} (hids : (self.pending.map PendingDirty.id).Nodup)
    (hop : op.IsFor B self) (id : ℤ) (hacked : op.acked = some id) (item : PendingDirty)
    (hfind : self.pending.find? (fun item => item.id == id) = some item) : item.namespaceId ≠ A := by
  obtain ⟨item', hmem', hid', hns'⟩ := hop.acked id hacked
  have hid : item.id = id := by simpa using List.find?_some hfind
  have heq : item = item' :=
    List.inj_on_of_nodup_map hids (List.mem_of_find?_eq_some hfind) hmem' (hid.trans hid'.symm)
  rw [heq, hns']
  exact hne.symm

/-- Without zero bytes in the namespaces, the scan of one meets no key of the other. -/
theorem not_scanned_makeKey (hne : A ≠ B) (hA : (0 : UInt8) ∉ A) (hB : (0 : UInt8) ∉ B) (entity : EntityId)
    (component : ComponentId) : ¬ Scanned A (makeKey B entity component) := by
  rintro ⟨rest, hrest⟩
  rw [List.append_assoc, List.singleton_append, makeKey] at hrest
  -- the longer of the two would have the zero byte that ends the shorter
  rcases List.append_eq_append_iff.mp hrest with ⟨_ | ⟨b, c⟩, hB', hc⟩ | ⟨_ | ⟨b, c⟩, hA', hc⟩
  · exact hne (by rw [hB', List.append_nil])
  · obtain ⟨rfl, -⟩ := List.cons.inj hc
    exact hB (by simp [hB'])
  · exact hne (by rw [hA', List.append_nil])
  · obtain ⟨rfl, -⟩ := List.cons.inj hc
    exact hA (by simp [hA'])

/-- **Namespaces without zero bytes are isolated**, as long as pending ids are distinct. -/
theorem sameFor_of_no_zero (hne : A ≠ B) (hA : (0 : UInt8) ∉ A) (hB : (0 : UInt8) ∉ B)
    (hids : (s.live.pending.map PendingDirty.id).Nodup) (hop : op.IsFor B s.live) :
    SameFor A s.live (op.perform s durability fault io) := by
  have hforeign : ∀ m ∈ op.mutations, ¬ Scanned A m.key := by
    intro m hm
    rw [FactMutation.key, hop.mutations m hm]
    exact not_scanned_makeKey hne hA hB m.entity m.component
  refine (sameFor_perform_iff s durability fault io hne op hop).mpr ⟨fun _ m hm hscanned =>
    absurd hscanned (hforeign m hm), fun _ => acked_unseen hne hids hop, fun _ t ht => ?_⟩
  rw [latestTimestamp_eq] at ht
  obtain ⟨key, fact, hfact, hscanned, rfl⟩ := (latest_eq_some_iff.mp ht).1
  refine ⟨key, fact, hfact, hscanned, rfl, ?_⟩
  rintro km hkm rfl
  exact absurd hscanned (hforeign km.2 (mem_kinded ((recordedBefore_isPrefix op.kinded fault).subset hkm)).2)

/-- A call of namespace `o`, seen from namespace `n`. -/
theorem sameFor_perform_example :
    let m : FactMutation := ⟨[110], 1, 2, [49], ⟨5, 0, 1⟩, ⟨0, 0, []⟩⟩
    let s := State.opened [.batch [m]]
    let op := Operation.enqueueBatch [{ m with namespaceId := [111], timestamp := ⟨9, 0, 1⟩ }]
    SameFor [110] s.live (op.perform s .strict none fun _ => none) := by
  intro m s op
  refine (sameFor_perform_iff s .strict none (fun _ => none) (A := [110]) (B := [111]) (by decide) op
    ⟨by simp [op, Operation.mutations], nofun⟩).mpr ⟨fun _ m' hm' => ?_, fun _ => nofun, fun h => nomatch h.2.2⟩
  obtain rfl := List.mem_singleton.mp hm'
  exact fun hscanned => absurd hscanned (by decide)

/-- A call of the namespace `n`, zero byte, `x`, seen from namespace `n`. -/
theorem latestTimestamp_of_another :
    let m : FactMutation := ⟨[110], 1, 2, [49], ⟨5, 0, 1⟩, ⟨0, 0, []⟩⟩
    let s := State.opened [.batch [m]]
    let op := Operation.enqueueBatch [{ m with namespaceId := [110, 0, 120], timestamp := ⟨9, 0, 1⟩ }]
    wal.Reaches (fun _ _ => True) (State.opened [.batch [m]]) s ∧ op.IsFor [110, 0, 120] s.live ∧
      latestTimestamp s.live [110] = some ⟨5, 0, 1⟩ ∧
      latestTimestamp (op.perform s .eventual none fun _ => none) [110] = some ⟨9, 0, 1⟩ ∧
      ¬ SameFor [110] s.live (op.perform s .eventual none fun _ => none) := by
  intro m s op
  have hbefore : latestTimestamp s.live [110] = some ⟨5, 0, 1⟩ := by decide +kernel
  have hafter : latestTimestamp (op.perform s .eventual none fun _ => none) [110] = some ⟨9, 0, 1⟩ := by
    decide +kernel
  refine ⟨.refl, ⟨by simp [op, Operation.mutations], nofun⟩, hbefore, hafter, fun h => ?_⟩
  have hsame := h.latestTimestamp
  rw [hbefore, hafter] at hsame
  exact absurd hsame (by decide)

end View

end Slung.Wal
