import Slung.Wal.State

/-!
# Slung.Wal.Ledger — dirty work as the log records it

A log says which ids its accepted source mutations get when it is replayed, and which ids it acknowledges.
If every acknowledgement takes out an entry that is pending where it stands in the log, then the pending list
after a replay is the accepted source mutations that have no acknowledgement, each once
(`AcksPending.accounts`).  The condition is kept by cutting the log, which is all a crash does to it.
-/

namespace Slung.Wal

/-! ## What a log says -/

/-- The mutations that a batch creates pending work for, with the ids they get. -/
def created : Live → List FactMutation → List (ℤ × FactMutation)
  | _, [] => []
  | self, m :: ms => (if self.accepts m then [(self.nextId, m)] else []) ++ created (self.putDirty m) ms

/-- The accepted source mutations of a log, with their ids. -/
def acceptedSources : Live → List Record → List (ℤ × FactMutation)
  | _, [] => []
  | self, r :: rs => created self r.sources ++ acceptedSources (self.replay r) rs

/-- The ids that a log acknowledges. -/
def acknowledged (rs : List Record) : List ℤ := rs.filterMap Record.ackedId

/-- Every acknowledgement takes out an entry that is pending. -/
def AcksPending : Live → List Record → Prop
  | _, [] => True
  | self, r :: rs =>
    (∀ a, r.ackedId = some a → a ∈ self.pending.map PendingDirty.id) ∧ AcksPending (self.replay r) rs

/-- Every accepted source mutation of the log has an id of its own, and its id is pending once or acknowledged
by one record; nothing else is pending. -/
structure Accounts (log : List Record) (pending : List PendingDirty) : Prop where
  own : ((acceptedSources Live.init log).map Prod.fst).Nodup
  once : ∀ e ∈ acceptedSources Live.init log,
    (acknowledged log).count e.1 + (pending.map PendingDirty.id).count e.1 = 1
  entries : ∀ item ∈ pending, ∃ e ∈ acceptedSources Live.init log, item = e.2.pendingAs e.1

/-- The pending entry of a namespace with the smallest id that the log does not acknowledge. -/
def SmallestUnacknowledged (log : List Record) (n : NamespaceId) : Option PendingDirty → Prop
  | none => ∀ e ∈ acceptedSources Live.init log, e.2.namespaceId = n → e.1 ∈ acknowledged log
  | some item => (∃ e ∈ acceptedSources Live.init log,
      e.2.namespaceId = n ∧ e.1 ∉ acknowledged log ∧ item = e.2.pendingAs e.1) ∧
    ∀ e ∈ acceptedSources Live.init log, e.2.namespaceId = n → e.1 ∉ acknowledged log → item.id ≤ e.1

section

variable {self : Live} {r : Record} {rs : List Record}

@[simp] theorem acknowledged_nil : acknowledged [] = [] := rfl

theorem acknowledged_cons (r : Record) (rs : List Record) :
    acknowledged (r :: rs) = r.ackedId.toList ++ acknowledged rs := by
  unfold acknowledged
  cases h : r.ackedId with
  | none => rw [List.filterMap_cons_none h]; rfl
  | some a => rw [List.filterMap_cons_some h]; rfl

/-! ## One batch -/

theorem pending_foldl_putDirty (self : Live) (ms : List FactMutation) :
    (ms.foldl Live.putDirty self).pending =
      self.pending ++ (created self ms).map fun e => e.2.pendingAs e.1 := by
  induction ms generalizing self with
  | nil => simp [created]
  | cons m ms ih =>
    rw [List.foldl_cons, ih, created]
    cases hacc : self.accepts m with
    | false => rw [Live.putDirty_of_rejects hacc, if_neg (by simp), List.nil_append]
    | true => rw [Live.putDirty_of_accepts hacc, if_pos rfl, List.map_append, List.append_assoc]; rfl

/-- The new ids are between the counter before and the counter after. -/
theorem created_bounds : ∀ (self : Live) (ms : List FactMutation), ∀ e ∈ created self ms,
    self.nextId ≤ e.1 ∧ e.1 < (ms.foldl Live.putDirty self).nextId
  | _, [], e, he => by cases he
  | self, m :: ms, e, he => by
    have hle := self.nextId_le_putDirty m
    have hlast := (self.putDirty m).nextId_le_foldl_putDirty ms
    rcases List.mem_append.mp he with he | he
    · cases hacc : self.accepts m with
      | false => rw [hacc] at he; cases he
      | true =>
        rw [hacc, if_pos rfl] at he
        obtain rfl := List.mem_singleton.mp he
        rw [Live.putDirty_of_accepts hacc] at hlast
        rw [List.foldl_cons, Live.putDirty_of_accepts hacc]
        simp only at hlast ⊢
        omega
    · obtain ⟨hlo, hhi⟩ := created_bounds (self.putDirty m) ms e he
      exact ⟨hle.trans hlo, hhi⟩

theorem created_sorted (self : Live) (ms : List FactMutation) :
    ((created self ms).map Prod.fst).Pairwise (· < ·) := by
  induction ms generalizing self with
  | nil => exact List.Pairwise.nil
  | cons m ms ih =>
    rw [created, List.map_append, List.pairwise_append]
    cases hacc : self.accepts m with
    | false => exact ⟨by simp, ih _, by simp⟩
    | true =>
      refine ⟨by simp, ih _, fun a ha b hb => ?_⟩
      obtain ⟨e, he, rfl⟩ := List.mem_map.mp hb
      obtain ⟨hlo, -⟩ := created_bounds (self.putDirty m) ms e he
      rw [Live.putDirty_of_accepts hacc] at hlo
      obtain rfl : a = self.nextId := by simpa using ha
      simp only at hlo
      omega

/-! ## One record -/

theorem nextId_replay (self : Live) (r : Record) :
    (self.replay r).nextId = (r.sources.foldl Live.putDirty self).nextId := by
  cases r with
  | batch ms => rfl
  | ack id => rfl
  | cascade id ms => exact Live.foldl_putFact_nextId _ _

/-- A pending entry after one more record is an old one or belongs to a mutation of the record. -/
theorem mem_pending_replay (self : Live) (r : Record) {item : PendingDirty}
    (h : item ∈ (self.replay r).pending) :
    item ∈ self.pending ∨ ∃ e ∈ created self r.sources, item = e.2.pendingAs e.1 := by
  cases r with
  | batch ms =>
    have h' : item ∈ (ms.foldl Live.putDirty self).pending := h
    rw [pending_foldl_putDirty] at h'
    rcases List.mem_append.mp h' with h' | h'
    · exact Or.inl h'
    · obtain ⟨e, he, rfl⟩ := List.mem_map.mp h'
      exact Or.inr ⟨e, he, rfl⟩
  | ack id => exact Or.inl (List.mem_of_mem_eraseP h)
  | cascade id ms =>
    have h' : item ∈ (ms.foldl Live.putFact self).pending := List.mem_of_mem_eraseP h
    exact Or.inl (by simpa using h')

/-- An entry stays until its id is acknowledged. -/
theorem mem_pending_replay_of_not_acked {item : PendingDirty} (h : item ∈ self.pending)
    (hr : item.id ∉ r.ackedId.toList) : item ∈ (self.replay r).pending := by
  have keep : ∀ {live : Live} {a : ℤ}, item ∈ live.pending → item.id ≠ a →
      item ∈ (removePending live a).pending := by
    intro live a hi ha
    exact (List.mem_eraseP_of_neg (by simpa using ha)).mpr hi
  cases r with
  | batch ms =>
    change item ∈ (ms.foldl Live.putDirty self).pending
    rw [pending_foldl_putDirty]
    exact List.mem_append_left _ h
  | ack id => exact keep h (by simpa [Record.ackedId] using hr)
  | cascade id ms => exact keep (by simpa using h) (by simpa [Record.ackedId] using hr)

/-- Taking an entry out takes its id out once. -/
theorem count_removePending (self : Live) {a : ℤ} (ha : a ∈ self.pending.map PendingDirty.id) (x : ℤ) :
    [a].count x + ((removePending self a).pending.map PendingDirty.id).count x =
      (self.pending.map PendingDirty.id).count x := by
  have hmap : (removePending self a).pending.map PendingDirty.id =
      (self.pending.map PendingDirty.id).erase a := by
    unfold removePending
    rw [List.erase_eq_eraseP', List.eraseP_map]
    rfl
  have hpos := List.count_pos_iff.mpr ha
  rw [hmap, List.count_erase, List.count_singleton]
  by_cases hx : a = x
  · subst hx
    simp only [beq_self_eq_true, if_true]
    omega
  · simp [hx]

/-- **One record neither loses nor duplicates work**: what it acknowledges and what is pending after it is
what was pending before it and what it creates. -/
theorem count_replay (h : ∀ a, r.ackedId = some a → a ∈ self.pending.map PendingDirty.id) (x : ℤ) :
    r.ackedId.toList.count x + ((self.replay r).pending.map PendingDirty.id).count x =
      (self.pending.map PendingDirty.id).count x + ((created self r.sources).map Prod.fst).count x := by
  cases r with
  | batch ms =>
    change [].count x + ((ms.foldl Live.putDirty self).pending.map PendingDirty.id).count x = _
    rw [pending_foldl_putDirty, List.map_append, List.count_append, List.count_nil, Nat.zero_add, List.map_map]
    rfl
  | ack id => exact count_removePending self (h id.toInt rfl) x
  | cascade id ms =>
    have hp : (ms.foldl Live.putFact self).pending = self.pending := Live.foldl_putFact_pending _ _
    have hc := count_removePending (ms.foldl Live.putFact self) (hp ▸ h id.toInt rfl) x
    rw [hp] at hc
    exact hc

/-! ## A whole log -/

theorem acksPending_append : ∀ {self : Live} {rs rs' : List Record},
    AcksPending self (rs ++ rs') ↔ AcksPending self rs ∧ AcksPending (self.replayAll rs) rs'
  | _, [], _ => by simp [AcksPending]
  | self, r :: rs, rs' => by
    rw [List.cons_append, AcksPending, AcksPending, acksPending_append, and_assoc, Live.replayAll_cons]

/-- Cutting the log keeps the condition, and the ids of what remains. -/
theorem AcksPending.of_prefix {self : Live} {rs rs' : List Record} (h : AcksPending self rs') (hp : rs <+: rs') :
    AcksPending self rs := by
  obtain ⟨t, rfl⟩ := hp
  exact (acksPending_append.mp h).1

theorem nextId_le_of_mem_acceptedSources : ∀ {self : Live} {rs : List Record},
    ∀ e ∈ acceptedSources self rs, self.nextId ≤ e.1
  | _, [], e, he => by cases he
  | self, r :: rs, e, he => by
    rcases List.mem_append.mp he with he | he
    · exact (created_bounds self r.sources e he).1
    · exact (self.nextId_le_replay r).trans (nextId_le_of_mem_acceptedSources e he)

theorem acceptedSources_sorted (self : Live) (rs : List Record) :
    ((acceptedSources self rs).map Prod.fst).Pairwise (· < ·) := by
  induction rs generalizing self with
  | nil => exact List.Pairwise.nil
  | cons r rs ih =>
    rw [acceptedSources, List.map_append, List.pairwise_append]
    refine ⟨created_sorted self r.sources, ih _, fun a ha b hb => ?_⟩
    obtain ⟨e, he, rfl⟩ := List.mem_map.mp ha
    obtain ⟨e', he', rfl⟩ := List.mem_map.mp hb
    have hlt := (created_bounds self r.sources e he).2
    have hle := nextId_le_of_mem_acceptedSources e' he'
    rw [nextId_replay] at hle
    omega

theorem mem_pending_replayAll : ∀ {self : Live} {rs : List Record} {item : PendingDirty},
    item ∈ (self.replayAll rs).pending →
      item ∈ self.pending ∨ ∃ e ∈ acceptedSources self rs, item = e.2.pendingAs e.1
  | _, [], _, h => Or.inl h
  | self, r :: rs, item, h => by
    have h' : item ∈ ((self.replay r).replayAll rs).pending := h
    rcases mem_pending_replayAll h' with h | ⟨e, he, rfl⟩
    · rcases mem_pending_replay self r h with h | ⟨e, he, rfl⟩
      · exact Or.inl h
      · exact Or.inr ⟨e, List.mem_append_left _ he, rfl⟩
    · exact Or.inr ⟨e, List.mem_append_right _ he, rfl⟩

theorem mem_pending_replayAll_of_not_acked {item : PendingDirty} (h : item ∈ self.pending)
    (hrs : item.id ∉ acknowledged rs) : item ∈ (self.replayAll rs).pending := by
  induction rs generalizing self with
  | nil => exact h
  | cons r rs ih =>
    rw [acknowledged_cons, List.mem_append, not_or] at hrs
    exact ih (mem_pending_replay_of_not_acked h hrs.1) hrs.2

/-- **A log neither loses nor duplicates work.** -/
theorem AcksPending.count_replayAll (h : AcksPending self rs) (x : ℤ) :
    (acknowledged rs).count x + ((self.replayAll rs).pending.map PendingDirty.id).count x =
      (self.pending.map PendingDirty.id).count x + ((acceptedSources self rs).map Prod.fst).count x := by
  induction rs generalizing self with
  | nil => simp [acceptedSources]
  | cons r rs ih =>
    have hone := count_replay h.1 x
    have hrest := ih h.2
    rw [acknowledged_cons, acceptedSources, List.count_append, List.map_append, List.count_append,
      Live.replayAll_cons]
    omega

/-- The pending list of a replayed log accounts for its source mutations. -/
theorem AcksPending.accounts (h : AcksPending Live.init rs) :
    Accounts rs (Live.init.replayAll rs).pending where
  own := (acceptedSources_sorted Live.init rs).imp fun hlt => ne_of_lt hlt
  once := by
    intro e he
    have hnodup : ((acceptedSources Live.init rs).map Prod.fst).Nodup :=
      (acceptedSources_sorted Live.init rs).imp fun hlt => ne_of_lt hlt
    have hone := List.count_eq_one_of_mem hnodup (List.mem_map_of_mem he)
    have hcount := h.count_replayAll e.1
    rw [hone] at hcount
    simpa [Live.init] using hcount
  entries := by
    intro item hi
    rcases mem_pending_replayAll hi with hi | hi
    · cases hi
    · exact hi

/-! ## The next piece of work -/

variable {log : List Record} {pending : List PendingDirty} {n : NamespaceId}

/-- A mutation without an acknowledgement has its entry in the pending list. -/
theorem Accounts.mem_pending (h : Accounts log pending) {e : ℤ × FactMutation}
    (he : e ∈ acceptedSources Live.init log) (hno : e.1 ∉ acknowledged log) :
    e.2.pendingAs e.1 ∈ pending := by
  have honce := h.once e he
  rw [List.count_eq_zero_of_not_mem hno, Nat.zero_add] at honce
  have hmem : e.1 ∈ pending.map PendingDirty.id := List.count_pos_iff.mp (by omega)
  obtain ⟨item, hi, hid⟩ := List.mem_map.mp hmem
  obtain ⟨e', he', rfl⟩ := h.entries item hi
  obtain rfl : e' = e := List.inj_on_of_nodup_map h.own he' he hid
  exact hi

/-- A pending entry has no acknowledgement. -/
theorem Accounts.not_acknowledged (h : Accounts log pending) {e : ℤ × FactMutation}
    (he : e ∈ acceptedSources Live.init log) (hp : e.2.pendingAs e.1 ∈ pending) :
    e.1 ∉ acknowledged log := by
  have honce := h.once e he
  have hpos : 0 < (pending.map PendingDirty.id).count e.1 :=
    List.count_pos_iff.mpr (List.mem_map.mpr ⟨_, hp, rfl⟩)
  intro hmem
  have := List.count_pos_iff.mpr hmem
  omega

theorem find?_le_of_sorted : ∀ {l : List PendingDirty} {p : PendingDirty → Bool} {item : PendingDirty},
    (l.map PendingDirty.id).Pairwise (· < ·) → l.find? p = some item →
      ∀ item' ∈ l, p item' = true → item.id ≤ item'.id
  | x :: l, p, item, hs, hf, item', hi, hp => by
    rw [List.map_cons, List.pairwise_cons] at hs
    by_cases hx : p x = true
    · rw [List.find?_cons_of_pos hx] at hf
      obtain rfl := Option.some.inj hf
      rcases List.mem_cons.mp hi with rfl | hi
      · exact le_rfl
      · exact (hs.1 _ (List.mem_map_of_mem hi)).le
    · rw [List.find?_cons_of_neg hx] at hf
      rcases List.mem_cons.mp hi with rfl | hi
      · exact absurd hp hx
      · exact find?_le_of_sorted hs.2 hf item' hi hp

/-- **The first pending entry of a namespace is its smallest unacknowledged one.** -/
theorem Accounts.smallest (h : Accounts log pending) (hs : (pending.map PendingDirty.id).Pairwise (· < ·))
    (n : NamespaceId) :
    SmallestUnacknowledged log n (pending.find? fun item => n == item.namespaceId) := by
  have key : ∀ e : ℤ × FactMutation, (n == (e.2.pendingAs e.1).namespaceId) = true ↔ e.2.namespaceId = n :=
    fun e => beq_iff_eq.trans eq_comm
  cases hf : pending.find? fun item => n == item.namespaceId with
  | none =>
    intro e he hn
    by_contra hno
    exact List.find?_eq_none.mp hf _ (h.mem_pending he hno) ((key e).mpr hn)
  | some item =>
    have hi := List.mem_of_find?_eq_some hf
    have hn := List.find?_some hf
    obtain ⟨e, he, rfl⟩ := h.entries item hi
    refine ⟨⟨e, he, (key e).mp hn, h.not_acknowledged he hi, rfl⟩, ?_⟩
    intro e' he' hn' hno'
    exact find?_le_of_sorted hs hf _ (h.mem_pending he' hno') ((key e').mpr hn')

end

end Slung.Wal
