import Slung.Wal.Machine

/-!
# Slung.Wal.Simulation — live state against replayed state

A strict cascade leaves its acknowledged entry in the pending list until its caller takes it out, while
replaying its record takes it out at once.  `Sim owed live replayed` says that this is the only difference:
the replayed pending list is the live one without the owed ids.  Every publication and every removal keeps
it, because a new id is never an owed one.
-/

namespace Slung.Wal

open Slung.Lib

/-! ## Facts and counter -/

/-- Two states agree on the facts and on the counter. -/
structure Agree (live replayed : Live) : Prop where
  facts : replayed.facts = live.facts
  nextId : replayed.nextId = live.nextId

namespace Agree

variable {live replayed : Live}

theorem accepts_eq (h : Agree live replayed) (m : FactMutation) :
    replayed.accepts m = live.accepts m := by
  unfold Live.accepts
  rw [h.facts]

theorem putFact (h : Agree live replayed) (m : FactMutation) :
    Agree (live.putFact m) (replayed.putFact m) :=
  ⟨by simp only [Live.putFact, h.facts], h.nextId⟩

theorem putDirty (h : Agree live replayed) (m : FactMutation) :
    Agree (live.putDirty m) (replayed.putDirty m) := by
  unfold Live.putDirty
  rw [h.accepts_eq m]
  exact ⟨by simp only [h.facts], by simp only [h.nextId]⟩

theorem putAll (h : Agree live replayed) (kms : List (UInt8 × FactMutation)) :
    Agree (live.putAll kms) (replayed.putAll kms) := by
  induction kms generalizing live replayed with
  | nil => exact h
  | cons km kms ih =>
    have hput : Agree (live.put km.1 km.2) (replayed.put km.1 km.2) := by
      unfold Live.put
      split_ifs
      · exact h.putFact km.2
      · exact h.putDirty km.2
    exact ih hput

/-- Replaying a record does to facts and counter what publishing its request does. -/
theorem replay_record (h : Agree live replayed) (r : Request) :
    Agree (live.publish r) (replayed.replay r.record) := by
  have hp : Agree (live.publish r) (replayed.publish r) := h.putAll _
  rw [Live.replay_record]
  unfold Request.acks
  split_ifs
  · exact ⟨hp.facts, hp.nextId⟩
  · exact hp

theorem replayAll (h : Agree live replayed) (rs : List Request) :
    Agree (rs.foldl Live.publish live) (replayed.replayAll (rs.map Request.record)) := by
  induction rs generalizing live replayed with
  | nil => exact h
  | cons r rs ih => exact ih (h.replay_record r)

end Agree

/-! ## The pending list -/

/-- `replayed` is `live` without the owed ids. -/
structure Sim (owed : List ℤ) (live replayed : Live) : Prop extends Agree live replayed where
  pending : replayed.pending = live.pending.filter (fun item => item.id ∉ owed)
  ok : live.PendingOk
  below : ∀ a ∈ owed, a < live.nextId

namespace Sim

variable {owed owed' : List ℤ} {live replayed : Live}

theorem refl (h : live.PendingOk) : Sim [] live live :=
  ⟨⟨rfl, rfl⟩, by simp, h, by simp⟩

/-- Once nothing is owed the two states are equal. -/
theorem eq_of_nil (h : Sim [] live replayed) : replayed = live := by
  have hp := h.pending
  simp only [List.not_mem_nil, not_false_eq_true, decide_true, List.filter_true] at hp
  cases live
  cases replayed
  simp only [Live.mk.injEq]
  exact ⟨h.facts, hp, h.nextId⟩

theorem congr (h : Sim owed live replayed) (hmem : ∀ a, a ∈ owed' ↔ a ∈ owed) :
    Sim owed' live replayed := by
  refine ⟨h.toAgree, ?_, h.ok, fun a ha => h.below a ((hmem a).mp ha)⟩
  rw [h.pending]
  exact List.filter_congr fun item _ => by simp [hmem]

theorem putFact (h : Sim owed live replayed) (m : FactMutation) :
    Sim owed (live.putFact m) (replayed.putFact m) :=
  ⟨h.toAgree.putFact m, h.pending, h.ok.putFact m, h.below⟩

/-- A new pending entry gets an id that is not owed. -/
theorem putDirty (h : Sim owed live replayed) (m : FactMutation) :
    Sim owed (live.putDirty m) (replayed.putDirty m) := by
  have hok := h.ok.putDirty m
  have hagree := h.toAgree.putDirty m
  cases hacc : live.accepts m with
  | false =>
    rw [Live.putDirty_of_rejects hacc, Live.putDirty_of_rejects ((h.accepts_eq m).trans hacc)]
    exact h
  | true =>
    rw [Live.putDirty_of_accepts hacc] at hok hagree ⊢
    rw [Live.putDirty_of_accepts ((h.accepts_eq m).trans hacc)] at hagree ⊢
    have hnew : live.nextId ∉ owed := fun hmem => lt_irrefl _ (h.below _ hmem)
    refine ⟨hagree, ?_, hok, ?_⟩
    · simp only [List.filter_append, h.pending, h.nextId, List.append_cancel_left_eq]
      refine (List.filter_eq_self.mpr fun item hi => ?_).symm
      obtain rfl := List.mem_singleton.mp hi
      exact decide_eq_true hnew
    · intro a ha
      have := h.below a ha
      simp only
      omega

theorem foldl_putFact (h : Sim owed live replayed) (ms : List FactMutation) :
    Sim owed (ms.foldl Live.putFact live) (ms.foldl Live.putFact replayed) := by
  induction ms generalizing live replayed with
  | nil => exact h
  | cons m ms ih => exact ih (h.putFact m)

theorem foldl_putDirty (h : Sim owed live replayed) (ms : List FactMutation) :
    Sim owed (ms.foldl Live.putDirty live) (ms.foldl Live.putDirty replayed) := by
  induction ms generalizing live replayed with
  | nil => exact h
  | cons m ms ih => exact ih (h.putDirty m)

/-- Publication of one request on both sides. -/
theorem publish (h : Sim owed live replayed) (r : Request) :
    Sim owed (live.publish r) (replayed.publish r) := by
  unfold Live.publish
  by_cases hk : r.recordKind = recordCascade
  · rw [hk, Live.putAll_noDirty, Live.putAll_noDirty]
    exact h.foldl_putFact _
  · rw [Live.putAll_dirty _ hk, Live.putAll_dirty _ hk]
    exact h.foldl_putDirty _

/-- Both sides take an id out. -/
theorem removePending (h : Sim owed live replayed) (id : ℤ) :
    Sim owed (Wal.removePending live id) (Wal.removePending replayed id) := by
  have hnodup : (replayed.pending.map PendingDirty.id).Nodup := by
    rw [h.pending]
    exact h.ok.nodup.sublist (List.filter_sublist.map _)
  refine ⟨⟨h.facts, h.nextId⟩, ?_, h.ok.removePending id, h.below⟩
  change replayed.pending.eraseP (fun item => item.id == id) =
    (live.pending.eraseP fun item => item.id == id).filter _
  rw [Live.eraseP_eq_filter hnodup, Live.eraseP_eq_filter h.ok.nodup, h.pending, List.filter_filter,
    List.filter_filter]
  exact List.filter_congr fun item _ => Bool.and_comm _ _

/-- The replay takes an id out, the live state will do so later. -/
theorem owe (h : Sim owed live replayed) {id : ℤ} (hid : id < live.nextId) :
    Sim (id :: owed) live (Wal.removePending replayed id) := by
  have hnodup : (replayed.pending.map PendingDirty.id).Nodup := by
    rw [h.pending]
    exact h.ok.nodup.sublist (List.filter_sublist.map _)
  refine ⟨⟨h.facts, h.nextId⟩, ?_, h.ok, ?_⟩
  · change replayed.pending.eraseP (fun item => item.id == id) = _
    rw [Live.eraseP_eq_filter hnodup, h.pending, List.filter_filter]
    exact List.filter_congr fun item _ => Bool.eq_iff_iff.mpr (by simp [not_or])
  · intro a ha
    rcases List.mem_cons.mp ha with rfl | ha
    · exact hid
    · exact h.below a ha

/-- The live state takes out an id that it owed. -/
theorem settle {id : ℤ} (h : Sim owed live replayed) (hid : id ∈ owed)
    (hless : ∀ a ∈ owed', a ∈ owed) (hmore : ∀ a ∈ owed, a = id ∨ a ∈ owed') :
    Sim owed' (Wal.removePending live id) replayed := by
  refine ⟨⟨h.facts, h.nextId⟩, ?_, h.ok.removePending id, fun a ha => h.below a (hless a ha)⟩
  change replayed.pending = (live.pending.eraseP fun item => item.id == id).filter _
  rw [Live.eraseP_eq_filter h.ok.nodup, h.pending, List.filter_filter]
  refine List.filter_congr fun item _ => ?_
  have hiff : item.id ∈ owed ↔ item.id = id ∨ item.id ∈ owed' :=
    ⟨hmore _, fun hor => hor.elim (fun he => he ▸ hid) (hless _)⟩
  exact Bool.eq_iff_iff.mpr (by simp [hiff, not_or, and_comm])

/-- A strict request: its entry is owed from now on. -/
theorem replay_strict (h : Sim owed live replayed) {r : Request} (hr : ∀ a ∈ r.acks, a < live.nextId) :
    Sim (r.acks ++ owed) (live.publish r) (replayed.replay r.record) := by
  have hp := h.publish r
  rw [Live.replay_record]
  unfold Request.acks at hr ⊢
  by_cases hk : r.recordKind = recordCascade
  · rw [if_pos hk] at hr ⊢
    have hid : r.ackId.toInt < (live.publish r).nextId := by
      have hnext : (live.publish r).nextId = live.nextId := by
        rw [Live.publish, hk, Live.putAll_noDirty, Live.foldl_putFact_nextId]
      rw [hnext]
      exact hr _ (by simp)
    exact hp.owe hid
  · rw [if_neg hk]
    exact hp

/-- An eventual request: both sides take its entry out at once. -/
theorem replay_eventual (h : Sim owed live replayed) (r : Request) :
    Sim owed (r.acks.foldl Wal.removePending (live.publish r)) (replayed.replay r.record) := by
  have hp := h.publish r
  rw [Live.replay_record]
  unfold Request.acks
  split_ifs
  · exact hp.removePending _
  · exact hp

theorem nextId_le_publish (live : Live) (r : Request) : live.nextId ≤ (live.publish r).nextId :=
  live.nextId_le_putAll _

theorem nextId_le_foldl_publish (live : Live) (rs : List Request) :
    live.nextId ≤ (rs.foldl Live.publish live).nextId := by
  induction rs generalizing live with
  | nil => exact le_rfl
  | cons r rs ih => exact (nextId_le_publish live r).trans (ih _)

end Sim

/-- The strict requests of a group, published one after the other. -/
theorem putAll_strictMutations : ∀ {rs : List Request} (self : Live),
    (∀ r ∈ rs, r.applyAfterWrite = true) →
      self.putAll (strictMutations rs) = rs.foldl Live.publish self
  | [], _, _ => rfl
  | r :: rs, self, h => by
    have hsplit : strictMutations (r :: rs) = r.mutations.map (r.recordKind, ·) ++ strictMutations rs := by
      simp [strictMutations, h r (by simp)]
    rw [hsplit, Live.putAll_append, putAll_strictMutations _ fun r' hr' => h r' (by simp [hr'])]
    rfl

theorem strictMutations_eventual {rs : List Request} (h : ∀ r ∈ rs, r.applyAfterWrite = false) :
    strictMutations rs = [] := by
  unfold strictMutations
  rw [List.flatMap_eq_nil_iff]
  intro r hr
  rw [if_neg (by simp [h r hr])]

/-- A whole group of strict requests. -/
theorem Sim.replayAll_strict {owed : List ℤ} : ∀ {rs : List Request} {live replayed : Live},
    Sim owed live replayed → (∀ r ∈ rs, ∀ a ∈ r.acks, a < live.nextId) →
      Sim (rs.flatMap Request.acks ++ owed) (rs.foldl Live.publish live)
        (replayed.replayAll (rs.map Request.record))
  | [], _, _, h, _ => h
  | r :: rs, live, replayed, h, hacks => by
    have hr := h.replay_strict (hacks r (by simp))
    have hlive : ∀ r' ∈ rs, ∀ a ∈ r'.acks, a < (live.publish r).nextId := fun r' hr' a ha =>
      (hacks r' (by simp [hr']) a ha).trans_le (Sim.nextId_le_publish live r)
    have hrest := Sim.replayAll_strict hr hlive
    rw [List.foldl_cons, List.map_cons, Live.replayAll_cons]
    refine hrest.congr fun a => ?_
    simp only [List.flatMap_cons, List.mem_append]
    tauto

end Slung.Wal
