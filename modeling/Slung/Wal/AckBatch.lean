import Slung.Wal.StrictFaults

/-!
# Slung.Wal.AckBatch — acknowledging a batch (`storage.zig`)

`acknowledgeDirtyBatch` is documented as one transaction and writes one record per id, each synced on its own.  It
is all or nothing, in memory and after a crash at any byte, exactly while no two of the listed ids are pending
(`one_transaction_iff`).
-/

namespace Slung.Wal

open Slung.Lib

/-! ## The batch -/

/-- Acknowledges several completed inference entries, with what becomes of the record of each; `false` is an error
return. -/
def acknowledgeDirtyBatch (io : ℕ → WriteOutcome × Bool) (s : State) : List Int64 → Option (State × Bool)
  | [] => some (s, true)
  | id :: ids =>
    (ack s id (io 0).1 (io 0).2).bind fun s =>
      if (io 0).1 = .done ∧ (io 0).2 = true then acknowledgeDirtyBatch (fun i => io (i + 1)) s ids
      else some (s, false)

/-- The queue is empty and the worker writes nothing: what `ack` waits for. -/
structure State.Rests (s : State) : Prop where
  writing : s.writing = false
  requests : s.requests = []

/-- What acknowledgements that succeed leave. -/
def State.ackedAll (s : State) (ids : List Int64) : State :=
  ids.foldl (fun s id => (s.appendRecord (.ack id) (Record.ack id).encode .done).acked id) s

/-- The ids of the pending list. -/
def Live.pendingIds (self : Live) : List ℤ := self.pending.map PendingDirty.id

theorem ack_rests {s : State} (h : s.Rests) (id : Int64) (outcome : WriteOutcome) (synced : Bool) :
    ack s id outcome synced = some (if outcome = .done ∧ synced then
        (s.appendRecord (.ack id) (Record.ack id).encode outcome).acked id
      else s.appendRecord (.ack id) (Record.ack id).encode outcome) := by
  have hwrite : writeAck id = .ok (Record.ack id).encode := (readable_ack id).write
  unfold ack
  rw [if_neg (by simp [h.writing, h.requests]), hwrite]
  simp only
  split_ifs <;> rfl

theorem State.Rests.acked {s : State} (h : s.Rests) (id : Int64) (outcome : WriteOutcome) :
    ((s.appendRecord (.ack id) (Record.ack id).encode outcome).acked id).Rests := ⟨h.writing, h.requests⟩

section

variable {s s' : State} {io : ℕ → WriteOutcome × Bool} {ids pre post : List Int64} {ok : Bool}

theorem State.file_ackedAll (s : State) (ids : List Int64) :
    (s.ackedAll ids).file = s.file ++ logOf (ids.map .ack) := by
  induction ids generalizing s with
  | nil => simp [State.ackedAll]
  | cons id ids ih =>
    rw [State.ackedAll, List.foldl_cons]
    change (State.ackedAll _ ids).file = _
    rw [ih, appendRecord_done, List.map_cons, logOf_cons, ← List.append_assoc]
    rfl

theorem State.live_ackedAll (s : State) (ids : List Int64) :
    (s.ackedAll ids).live = ids.foldl (fun live id => removePending live id.toInt) s.live := by
  induction ids generalizing s with
  | nil => rfl
  | cons id ids ih =>
    rw [State.ackedAll, List.foldl_cons]
    change (State.ackedAll _ ids).live = _
    rw [ih, List.foldl_cons, appendRecord_done]
    rfl

/-- Acknowledgements that succeed at the front of a batch. -/
theorem batch_append (h : s.Rests) (hio : ∀ i < pre.length, io i = (.done, true)) :
    acknowledgeDirtyBatch io s (pre ++ post) =
      acknowledgeDirtyBatch (fun i => io (i + pre.length)) (s.ackedAll pre) post ∧ (s.ackedAll pre).Rests := by
  induction pre generalizing s io with
  | nil => exact ⟨rfl, h⟩
  | cons id pre ih =>
    have hhead : io 0 = (.done, true) := hio 0 (by simp)
    have hshifted : ∀ i < pre.length, (fun i => io (i + 1)) i = (.done, true) := fun i hi =>
      hio (i + 1) (by rw [List.length_cons]; omega)
    obtain ⟨hrest, hrests⟩ := ih (h.acked id .done) hshifted
    refine ⟨?_, hrests⟩
    simp only [List.cons_append, acknowledgeDirtyBatch, ack_rests h, hhead, Option.bind_some, and_self, if_true]
    rw [hrest]
    simp only [List.length_cons, Nat.add_assoc]
    rfl

/-- The record after the first `n` is not written. -/
def failsAt (n i : ℕ) : WriteOutcome × Bool := if i < n then (.done, true) else (.failed 0, false)

theorem batch_failsAt (h : s.Rests) (pre : List Int64) (id : Int64) (post : List Int64) :
    acknowledgeDirtyBatch (failsAt pre.length) s (pre ++ id :: post) = some (s.ackedAll pre, false) := by
  have hdone : ∀ i < pre.length, failsAt pre.length i = (.done, true) := fun i hi => if_pos hi
  obtain ⟨hrun, hrests⟩ := batch_append h hdone
  have hfails : failsAt pre.length (0 + pre.length) = (.failed 0, false) := if_neg (by simp)
  rw [hrun, acknowledgeDirtyBatch, ack_rests hrests, hfails, Option.bind_some, if_neg (by simp), if_neg (by simp)]
  have hnonempty := Recoverable.encode_length_pos (.ack id)
  simp [State.appendRecord, Nat.ne_of_lt hnonempty]

/-- **What a batch leaves**: the acknowledgements before the first failure, and in the file a beginning of the
records of the batch. -/
theorem batch_cases (h : s.Rests) (hbatch : acknowledgeDirtyBatch io s ids = some (s', ok)) :
    ∃ rest, ∃ acked, ids = acked ++ rest ∧ s'.live = (s.ackedAll acked).live ∧
      (ok = true → rest = [] ∧ s' = s.ackedAll acked) ∧ s.file <+: s'.file ∧
      s'.file <+: s.file ++ logOf (ids.map .ack) := by
  induction ids generalizing s io with
  | nil =>
    obtain ⟨rfl, rfl⟩ := Prod.mk.inj (Option.some.inj hbatch)
    exact ⟨[], [], rfl, rfl, fun _ => ⟨rfl, rfl⟩, List.prefix_rfl, by simp⟩
  | cons id ids ih =>
    rw [acknowledgeDirtyBatch, ack_rests h, Option.bind_some] at hbatch
    have hlog : logOf ((id :: ids).map .ack) = (Record.ack id).encode ++ logOf (ids.map .ack) :=
      logOf_cons _ _
    by_cases hdone : (io 0).1 = .done ∧ (io 0).2 = true
    · rw [if_pos hdone, if_pos hdone, hdone.1] at hbatch
      obtain ⟨rest, acked, rfl, hlive, hok, hpre, hfile⟩ := ih (h.acked id .done) hbatch
      have hstart : ((s.appendRecord (.ack id) (Record.ack id).encode .done).acked id).file =
          s.file ++ (Record.ack id).encode := by
        rw [State.appendRecord_done]
        rfl
      rw [hstart] at hpre hfile
      refine ⟨rest, id :: acked, rfl, hlive, hok, (List.prefix_append _ _).trans hpre, ?_⟩
      rw [hlog, ← List.append_assoc]
      exact hfile
    · rw [if_neg hdone, if_neg hdone] at hbatch
      obtain ⟨rfl, rfl⟩ := Prod.mk.inj (Option.some.inj hbatch)
      refine ⟨id :: ids, [], rfl, rfl, nofun, List.prefix_append _ _, ?_⟩
      rw [hlog]
      refine (List.prefix_append_right_inj _).mpr ?_
      cases (io 0).1 with
      | done => exact List.prefix_append _ _
      | failed k => exact (List.take_prefix k _).trans (List.prefix_append _ _)

end

/-! ## What is pending afterwards -/

/-- With distinct ids, the acknowledged ids are gone and the others stay. -/
theorem mem_pendingIds_removeAll {live : Live} (h : live.pendingIds.Nodup) (ids : List Int64) (x : ℤ) :
    x ∈ (ids.foldl (fun live id => removePending live id.toInt) live).pendingIds ↔
      x ∈ live.pendingIds ∧ x ∉ ids.map Int64.toInt := by
  induction ids generalizing live with
  | nil => simp
  | cons id ids ih =>
    have hids : (removePending live id.toInt).pendingIds = live.pendingIds.filter (· != id.toInt) := by
      rw [Live.pendingIds, removePending, Live.eraseP_eq_filter h, Live.pendingIds, List.filter_map]
      rfl
    have hnodup : (removePending live id.toInt).pendingIds.Nodup := by
      rw [hids]
      exact h.filter _
    rw [List.foldl_cons, ih hnodup, hids, List.mem_filter, List.map_cons, List.mem_cons, bne_iff_ne]
    tauto

theorem replayAll_acks (live : Live) (ids : List Int64) :
    live.replayAll (ids.map .ack) = ids.foldl (fun live id => removePending live id.toInt) live := by
  induction ids generalizing live with
  | nil => rfl
  | cons id ids ih => exact ih (removePending live id.toInt)

/-- All of the listed ids that were pending are gone, or none is. -/
def AllOrNone (ids : List Int64) (before after : Live) : Prop :=
  (∀ id ∈ ids, id.toInt ∈ before.pendingIds → id.toInt ∉ after.pendingIds) ∨
    ∀ id ∈ ids, id.toInt ∈ before.pendingIds → id.toInt ∈ after.pendingIds

/-- No two of the listed ids are pending. -/
def AtMostOne (ids : List Int64) (live : Live) : Prop :=
  ∀ id ∈ ids, ∀ id' ∈ ids, id.toInt ∈ live.pendingIds → id'.toInt ∈ live.pendingIds → id = id'

-- over the list, not over all ids of 64 bits
instance (ids : List Int64) (live : Live) : Decidable (AtMostOne ids live) :=
  have (id : Int64) : Decidable (∀ id' ∈ ids,
      id.toInt ∈ live.pendingIds → id'.toInt ∈ live.pendingIds → id = id') := List.decidableBAll _ ids
  List.decidableBAll _ ids

theorem AllOrNone.refl (ids : List Int64) (live : Live) : AllOrNone ids live live := Or.inr fun _ _ h => h

/-- One id is gone or stays. -/
theorem AtMostOne.allOrNone {ids : List Int64} {before : Live} (h : AtMostOne ids before) (after : Live) :
    AllOrNone ids before after := by
  by_cases hgone : ∃ id ∈ ids, id.toInt ∈ before.pendingIds ∧ id.toInt ∉ after.pendingIds
  · obtain ⟨id, hid, hbefore, hafter⟩ := hgone
    refine Or.inl fun id' hid' hbefore' => ?_
    rw [h id' hid' id hid hbefore' hbefore]
    exact hafter
  · push Not at hgone
    exact Or.inr hgone

/-- Of two pending ids of a list, one comes first. -/
theorem exists_split {ids : List Int64} {live : Live} (h : ¬ AtMostOne ids live) :
    ∃ pre post id id', ids = pre ++ id :: post ∧ post ≠ [] ∧ id' ∈ ids ∧ id.toInt ∈ live.pendingIds ∧
      id'.toInt ∈ live.pendingIds ∧ id'.toInt ∉ (pre ++ [id]).map Int64.toInt := by
  unfold AtMostOne at h
  push Not at h
  obtain ⟨a, ha, b, hb, hapending, hbpending, hne⟩ := h
  obtain ⟨id, hfind⟩ := Option.isSome_iff_exists.mp
    (List.find?_isSome.mpr ⟨a, ha, decide_eq_true hapending⟩ :
      (ids.find? fun id => decide (id.toInt ∈ live.pendingIds)).isSome)
  obtain ⟨hpending, pre, post, rfl, hpre⟩ := List.find?_eq_some_iff_append.mp hfind
  have hpending : id.toInt ∈ live.pendingIds := of_decide_eq_true hpending
  -- the other one is neither before the first nor the first itself
  have hexists : ∃ id' ∈ pre ++ id :: post, id'.toInt ∈ live.pendingIds ∧ id' ≠ id := by
    by_cases hfirst : a = id
    · exact ⟨b, hb, hbpending, fun heq => hne (hfirst.trans heq.symm)⟩
    · exact ⟨a, ha, hapending, hfirst⟩
  obtain ⟨id', hid', hpending', hother⟩ := hexists
  have hnotBefore : ∀ x ∈ pre ++ [id], x.toInt ≠ id'.toInt := by
    intro x hx heq
    rcases List.mem_append.mp hx with hx | hx
    · have hnot := hpre x hx
      rw [heq, decide_eq_true hpending'] at hnot
      cases hnot
    · rw [List.mem_singleton.mp hx] at heq
      exact hother (Int64.toInt_inj.mp heq).symm
  refine ⟨pre, post, id, id', rfl, ?_, hid', hpending, hpending', ?_⟩
  · rintro rfl
    exact hnotBefore id' hid' rfl
  · intro hmem
    obtain ⟨x, hx, heq⟩ := List.mem_map.mp hmem
    exact hnotBefore x hx heq

/-! ## One transaction -/

/-- What the documentation promises of a batch, for whatever becomes of its records and wherever the process
crashes: in memory and in the recovered state, all listed ids that were pending are gone or none is, and all of
them are after an ordinary return.  A crash keeps the first `kept` bytes; what was pending before is what the same
bytes of the old file hold. -/
structure OneTransaction (s : State) (ids : List Int64) : Prop where
  returned : ∀ io s', acknowledgeDirtyBatch io s ids = some (s', true) →
    (∀ id ∈ ids, id.toInt ∉ s'.live.pendingIds) ∧
      ∃ live file, recover Live.init s'.file = .ok (live, file) ∧ ∀ id ∈ ids, id.toInt ∉ live.pendingIds
  memory : ∀ io s' ok, acknowledgeDirtyBatch io s ids = some (s', ok) → AllOrNone ids s.live s'.live
  recovered : ∀ io s' ok kept, acknowledgeDirtyBatch io s ids = some (s', ok) → ∃ before after file file',
    recover Live.init (s.file.take kept) = .ok (before, file) ∧
      recover Live.init (s'.file.take kept) = .ok (after, file') ∧ AllOrNone ids before after

section

variable {s s' : State} {ids : List Int64} {io : ℕ → WriteOutcome × Bool} {ok : Bool}

theorem readable_acks (hreadable : ∀ r ∈ s.history.log, r.Readable) (ids : List Int64) :
    ∀ r ∈ s.history.log ++ ids.map .ack, r.Readable := by
  intro r hr
  rcases List.mem_append.mp hr with hr | hr
  · exact hreadable r hr
  · obtain ⟨id, -, rfl⟩ := List.mem_map.mp hr
    exact readable_ack id

theorem State.CleanFile.append_acks (hclean : s.CleanFile) (ids : List Int64) :
    s.file ++ logOf (ids.map .ack) = logOf (s.history.log ++ ids.map .ack) := by
  rw [show s.file = logOf s.history.log from hclean, logOf_append]

/-- What the file after acknowledgements that succeeded recovers to. -/
theorem recover_ackedAll (hclean : s.CleanFile) (hreadable : ∀ r ∈ s.history.log, r.Readable) (acked : List Int64) :
    recover Live.init (s.ackedAll acked).file =
      .ok (acked.foldl (fun live id => removePending live id.toInt) (Live.init.replayAll s.history.log),
        logOf (s.history.log ++ acked.map .ack)) := by
  rw [State.file_ackedAll, hclean.append_acks, recover_logOf (readable_acks hreadable acked), Live.replayAll_append,
    replayAll_acks]

/-- The write behind some acknowledgements fails. -/
theorem batch_fails (hrests : s.Rests) {pre post : List Int64} {id : Int64} (hsplit : ids = pre ++ id :: post)
    (hpost : post ≠ []) :
    acknowledgeDirtyBatch (failsAt (pre ++ [id]).length) s ids = some (s.ackedAll (pre ++ [id]), false) := by
  obtain ⟨next, post, rfl⟩ := List.exists_cons_of_ne_nil hpost
  rw [hsplit, show pre ++ id :: next :: post = (pre ++ [id]) ++ next :: post by simp]
  exact batch_failsAt hrests (pre ++ [id]) next post

/-- Some acknowledgements of a batch are not all of it, nor none, if two of its ids were pending. -/
theorem not_allOrNone {live : Live} (hnodup : live.pendingIds.Nodup) {pre post : List Int64} {id id' : Int64}
    (hsplit : ids = pre ++ id :: post) (hid' : id' ∈ ids) (hpending : id.toInt ∈ live.pendingIds)
    (hpending' : id'.toInt ∈ live.pendingIds) (hother : id'.toInt ∉ (pre ++ [id]).map Int64.toInt) :
    ¬ AllOrNone ids live ((pre ++ [id]).foldl (fun live id => removePending live id.toInt) live) := by
  have hid : id ∈ ids := by simp [hsplit]
  rintro (hall | hnone)
  · exact hall id' hid' hpending' ((mem_pendingIds_removeAll hnodup _ _).mpr ⟨hpending', hother⟩)
  · exact ((mem_pendingIds_removeAll hnodup _ _).mp (hnone id hid hpending)).2 (by simp)

theorem OneTransaction.atMostOne (h : OneTransaction s ids) (hrests : s.Rests)
    (hids : s.live.pendingIds.Nodup) : AtMostOne ids s.live := by
  by_contra hmany
  obtain ⟨pre, post, id, id', hsplit, hpost, hid', hpending, hpending', hother⟩ := exists_split hmany
  have hall := h.memory _ _ _ (batch_fails hrests hsplit hpost)
  rw [State.live_ackedAll] at hall
  exact not_allOrNone hids hsplit hid' hpending hpending' hother hall

theorem OneTransaction.atMostOne_logged (h : OneTransaction s ids) (hrests : s.Rests) (hclean : s.CleanFile)
    (hreadable : ∀ r ∈ s.history.log, r.Readable) (hlogged : (Live.init.replayAll s.history.log).pendingIds.Nodup) :
    AtMostOne ids (Live.init.replayAll s.history.log) := by
  by_contra hmany
  obtain ⟨pre, post, id, id', hsplit, hpost, hid', hpending, hpending', hother⟩ := exists_split hmany
  -- nothing of the file is lost
  obtain ⟨before, after, file, file', hbefore, hafter, hall⟩ :=
    h.recovered _ _ _ (s.ackedAll (pre ++ [id])).file.length (batch_fails hrests hsplit hpost)
  have hlong : s.file.length ≤ (s.ackedAll (pre ++ [id])).file.length := by
    rw [State.file_ackedAll, List.length_append]
    exact Nat.le_add_right _ _
  rw [List.take_of_length_le hlong, show s.file = logOf s.history.log from hclean, recover_logOf hreadable] at hbefore
  rw [List.take_length, recover_ackedAll hclean hreadable] at hafter
  obtain ⟨rfl, -⟩ := Prod.mk.inj (Except.ok.inj hbefore)
  obtain ⟨rfl, -⟩ := Prod.mk.inj (Except.ok.inj hafter)
  exact not_allOrNone hlogged hsplit hid' hpending hpending' hother hall

/-- A crash behind a batch of which at most one entry was logged as pending. -/
theorem AtMostOne.recovered (hlog : AtMostOne ids (Live.init.replayAll s.history.log)) (hrests : s.Rests)
    (hclean : s.CleanFile) (hreadable : ∀ r ∈ s.history.log, r.Readable)
    (hbatch : acknowledgeDirtyBatch io s ids = some (s', ok)) (kept : ℕ) :
    ∃ before after file file', recover Live.init (s.file.take kept) = .ok (before, file) ∧
      recover Live.init (s'.file.take kept) = .ok (after, file') ∧ AllOrNone ids before after := by
  obtain ⟨rest, acked, -, -, -, hpre, hfile⟩ := batch_cases hrests hbatch
  rw [hclean.append_acks] at hfile
  -- what is kept of the new file is a beginning of the log with the whole batch
  have hcut : s'.file.take kept =
      (logOf (s.history.log ++ ids.map .ack)).take (min kept s'.file.length) := by
    rw [← List.take_take, ← List.prefix_iff_eq_take.mp hfile]
  have hafter := recover_take (readable_acks hreadable ids) Live.init (min kept s'.file.length)
  rw [← hcut] at hafter
  have hbefore := recover_take hreadable Live.init kept
  rw [← show s.file = logOf s.history.log from hclean] at hbefore
  refine ⟨_, _, _, _, hbefore, hafter, ?_⟩
  by_cases hkept : kept ≤ s.file.length
  · -- no byte of the batch is kept
    have hsame : s'.file.take kept = s.file.take kept := by
      obtain ⟨tail, htail⟩ := hpre
      rw [← htail, List.take_append_of_le_length hkept]
    rw [hsame, hbefore] at hafter
    rw [← (Prod.mk.inj (Except.ok.inj hafter)).1]
    exact .refl ids _
  · have hlength : (logOf s.history.log).length ≤ kept := by
      rw [← show s.file = logOf s.history.log from hclean]
      exact Nat.le_of_not_le hkept
    have hall : wholeRecords s.history.log kept = s.history.log := recordFraming.whole_of_length_le hlength
    rw [hall]
    exact hlog.allOrNone _

end

/-- **A batch is one transaction exactly while no two listed ids are pending**, in memory and in the log. -/
theorem one_transaction_iff (s : State) (ids : List Int64) (hrests : s.Rests) (hclean : s.CleanFile)
    (hreadable : ∀ r ∈ s.history.log, r.Readable) (hids : s.live.pendingIds.Nodup) :
    OneTransaction s ids ↔ AtMostOne ids s.live ∧ AtMostOne ids (Live.init.replayAll s.history.log) := by
  have hlogged : (Live.init.replayAll s.history.log).pendingIds.Nodup :=
    (Live.pendingOk_init.replayAll s.history.log).nodup
  refine ⟨fun h => ⟨h.atMostOne hrests hids, h.atMostOne_logged hrests hclean hreadable hlogged⟩, ?_⟩
  rintro ⟨hmemory, hlog⟩
  refine ⟨fun io s' hbatch => ?_, fun io s' ok _ => hmemory.allOrNone s'.live,
    fun io s' ok kept hbatch => hlog.recovered hrests hclean hreadable hbatch kept⟩
  obtain ⟨rest, acked, hsplit, -, hok, -, -⟩ := batch_cases hrests hbatch
  obtain ⟨rfl, rfl⟩ := hok rfl
  rw [List.append_nil] at hsplit
  subst hsplit
  have hgone : ∀ {live : Live}, live.pendingIds.Nodup → ∀ id ∈ ids,
      id.toInt ∉ (ids.foldl (fun live id => removePending live id.toInt) live).pendingIds :=
    fun hnodup id hid hmem => ((mem_pendingIds_removeAll hnodup ids _).mp hmem).2 (List.mem_map_of_mem hid)
  refine ⟨?_, _, _, recover_ackedAll hclean hreadable ids, hgone hlogged⟩
  rw [State.live_ackedAll]
  exact hgone hids

/-- One pending entry, listed twice beside an id that is not pending. -/
theorem one_transaction_example : OneTransaction (.opened [.batch firstBatch]) [5, 1, 1] := by
  have hreadable : ∀ r ∈ (State.opened [.batch firstBatch]).history.log, r.Readable := by decide
  have hids : (State.opened [.batch firstBatch]).live.pendingIds.Nodup := by decide +kernel
  have hmemory : AtMostOne [5, 1, 1] (State.opened [.batch firstBatch]).live := by decide +kernel
  have hlogged : AtMostOne [5, 1, 1] (Live.init.replayAll (State.opened [.batch firstBatch]).history.log) := by
    decide +kernel
  exact (one_transaction_iff (.opened [.batch firstBatch]) [5, 1, 1] ⟨rfl, rfl⟩ rfl hreadable hids).mpr
    ⟨hmemory, hlogged⟩

/-- The second record of a batch is not written: one entry is gone and the other is still pending, in memory and in
the recovered state. -/
theorem batch_torn :
    let s := State.opened [.batch (firstBatch ++ secondBatch)]
    acknowledgeDirtyBatch (failsAt 1) s [1, 2] = some (s.ackedAll [1], false) ∧ s.live.pendingIds = [1, 2] ∧
      (s.ackedAll [1]).live.pendingIds = [2] ∧
      (recover Live.init (s.ackedAll [1]).file).toOption.map (fun recovered => recovered.1.pendingIds) = some [2] ∧
      ¬ OneTransaction s [1, 2] := by
  intro s
  have hbatch : acknowledgeDirtyBatch (failsAt 1) s [1, 2] = some (s.ackedAll [1], false) :=
    batch_failsAt ⟨rfl, rfl⟩ [1] 2 []
  have hbefore : s.live.pendingIds = [1, 2] := by decide +kernel
  have hafter : (s.ackedAll [1]).live.pendingIds = [2] := by decide +kernel
  refine ⟨hbatch, hbefore, hafter, by decide +kernel, fun h => ?_⟩
  have hall := h.memory _ _ _ hbatch
  rw [AllOrNone, hbefore, hafter] at hall
  rcases hall with hgone | hstays
  · exact hgone 2 (by decide) (by decide) (by decide)
  · exact absurd (hstays 1 (by decide) (by decide)) (by decide)

end Slung.Wal
