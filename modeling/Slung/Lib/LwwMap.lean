import Mathlib.Data.Finmap
import Mathlib.Order.Lattice.Nat

/-!
# Slung.Lib.LwwMap — last-writer-wins maps with an undo log

A finite map whose values carry a stamp from a linear order.  `write` accepts a value iff its key is
absent or its stamp is strictly greater than the stored one, so the map only ever grows in stamps.

A writer that may have to take its writes back keeps an undo log: `Undo` remembers the key, the value
stored before the write (`none` if absent) and the stamp of the write, accepted or not.  `rollback`
walks the log from its end; `restore` acts on a record only if the stored stamp is the record's, and
moves the remembered value out of the record.

* `rollback_record`: one rollback of what `recordAll` wrote gives the map before it.
* `lookup_rollback_twice`: a second rollback over the same (consumed) log keeps a key iff no write of the
  log carried the stamp that the key had at the start, and removes it otherwise.
-/

namespace Slung.Lib

variable {κ ν τ : Type} [DecidableEq κ]

/-- Finite maps with a plain value type. -/
abbrev FMap (κ ν : Type) := Finmap fun _ : κ => ν

namespace FMap

theorem lookup_insert_eq (m : FMap κ ν) (k k' : κ) (v : ν) :
    (m.insert k v).lookup k' = if k' = k then some v else m.lookup k' := by
  by_cases h : k' = k
  · subst h; simp
  · rw [if_neg h, Finmap.lookup_insert_of_ne m h]

theorem lookup_erase_eq (m : FMap κ ν) (k k' : κ) :
    (m.erase k).lookup k' = if k' = k then none else m.lookup k' := by
  by_cases h : k' = k
  · subst h; simp
  · rw [if_neg h, Finmap.lookup_erase_ne h]

/-- A number that no key has. -/
def fresh (m : FMap κ ℕ) : ℕ := (m.keys.sup fun k => (m.lookup k).getD 0) + 1

theorem lookup_ne_fresh (m : FMap κ ℕ) (k : κ) : m.lookup k ≠ some m.fresh := by
  intro h
  have hmem : k ∈ m.keys := Finmap.mem_keys.mpr (Finmap.mem_iff.mpr ⟨_, h⟩)
  have hle := Finset.le_sup hmem (f := fun k => (m.lookup k).getD 0)
  simp only [h, Option.getD_some, fresh] at hle
  omega

theorem insert_lookup_self {m : FMap κ ν} {k : κ} {v : ν} (h : m.lookup k = some v) :
    m.insert k v = m := by
  refine Finmap.ext_lookup fun x => ?_
  rw [lookup_insert_eq]
  split_ifs with hx
  · rw [hx, h]
  · rfl

theorem erase_insert_self {m : FMap κ ν} {k : κ} {v : ν} (h : m.lookup k = none) :
    (m.insert k v).erase k = m := by
  refine Finmap.ext_lookup fun x => ?_
  rw [lookup_erase_eq, lookup_insert_eq]
  split_ifs with hx
  · rw [hx, h]
  · rfl

theorem insert_insert_comm {m : FMap κ ν} {k k' : κ} {v v' : ν} (h : k ≠ k') :
    (m.insert k v).insert k' v' = (m.insert k' v').insert k v :=
  Finmap.insert_insert_of_ne m h

theorem erase_insert_comm {m : FMap κ ν} {k k' : κ} {v : ν} (h : k ≠ k') :
    (m.insert k v).erase k' = (m.erase k').insert k v := by
  refine Finmap.ext_lookup fun x => ?_
  simp only [lookup_erase_eq, lookup_insert_eq]
  split_ifs with h1 h2 h2
  · exact absurd (h2.symm.trans h1) h
  · rfl
  · rfl
  · rfl

/-- Entries with distinct keys can be inserted in any order. -/
theorem lookup_foldl_insert {α : Type} (key : α → κ) (val : α → ν) {l : List α} (h : (l.map key).Nodup)
    (m : FMap κ ν) (k : κ) : (l.foldl (fun m a => m.insert (key a) (val a)) m).lookup k =
      ((l.find? fun a => key a == k).map val).or (m.lookup k) := by
  induction l generalizing m with
  | nil => rfl
  | cons a l ih =>
    rw [List.map_cons, List.nodup_cons] at h
    rw [List.foldl_cons, ih h.2, lookup_insert_eq]
    by_cases hk : key a = k
    · have hnone : l.find? (fun b => key b == k) = none := by
        rw [List.find?_eq_none]
        intro b hb heq
        exact h.1 (hk.trans (beq_iff_eq.mp heq).symm ▸ List.mem_map_of_mem hb)
      rw [List.find?_cons_of_pos (by simpa using hk), hnone, if_pos hk.symm]
      rfl
    · rw [List.find?_cons_of_neg (by simpa using hk), if_neg (Ne.symm hk)]

end FMap

section Lww

variable [LinearOrder τ] (stamp : ν → τ)

/-- Does the map accept `v` under `k`? -/
def accepts (m : FMap κ ν) (k : κ) (v : ν) : Bool :=
  match m.lookup k with
  | some cur => decide (stamp cur < stamp v)
  | none => true

/-- Write `v` under `k` if it is newer than what is stored. -/
def write (m : FMap κ ν) (k : κ) (v : ν) : FMap κ ν :=
  if accepts stamp m k v then m.insert k v else m

variable {stamp}

theorem accepts_of_lookup {m : FMap κ ν} {k : κ} {v c : ν} (h : m.lookup k = some c) :
    accepts stamp m k v = decide (stamp c < stamp v) := by
  unfold accepts; rw [h]

theorem accepts_of_absent {m : FMap κ ν} {k : κ} {v : ν} (h : m.lookup k = none) :
    accepts stamp m k v = true := by
  unfold accepts; rw [h]

theorem write_of_accepts {m : FMap κ ν} {k : κ} {v : ν} (h : accepts stamp m k v = true) :
    write stamp m k v = m.insert k v := if_pos h

theorem write_of_rejects {m : FMap κ ν} {k : κ} {v : ν} (h : accepts stamp m k v = false) :
    write stamp m k v = m := if_neg (by simp [h])

theorem write_of_ge {m : FMap κ ν} {k : κ} {v c : ν} (h : m.lookup k = some c)
    (hle : stamp v ≤ stamp c) : write stamp m k v = m :=
  write_of_rejects (by rw [accepts_of_lookup h]; simpa using hle)

theorem exists_ge_of_rejects {m : FMap κ ν} {k : κ} {v : ν} (h : accepts stamp m k v = false) :
    ∃ c, m.lookup k = some c ∧ stamp v ≤ stamp c := by
  cases hc : m.lookup k with
  | none =>
    rw [accepts_of_absent hc] at h
    cases h
  | some c =>
    rw [accepts_of_lookup hc] at h
    exact ⟨c, rfl, not_lt.mp (of_decide_eq_false h)⟩

theorem lookup_write_ne {m : FMap κ ν} {k k' : κ} {v : ν} (h : k' ≠ k) :
    (write stamp m k v).lookup k' = m.lookup k' := by
  unfold write
  split_ifs
  · rw [Finmap.lookup_insert_of_ne m h]
  · rfl

variable (stamp) in
/-- After a write the key holds the written value, or an older one at least as new. -/
theorem lookup_write_self (m : FMap κ ν) (k : κ) (v : ν) :
    (write stamp m k v).lookup k = some v ∨
      ∃ c, m.lookup k = some c ∧ stamp v ≤ stamp c ∧ (write stamp m k v).lookup k = some c := by
  cases hc : m.lookup k with
  | none =>
    left
    rw [write_of_accepts (accepts_of_absent hc)]
    simp
  | some c =>
    rcases lt_or_ge (stamp c) (stamp v) with hlt | hge
    · left
      rw [write_of_accepts (by rw [accepts_of_lookup hc]; simpa using hlt)]
      simp
    · right
      exact ⟨c, rfl, hge, by rw [write_of_ge hc hge, hc]⟩

/-- Writes in the order of their stamps, each newer than what its key held at first: the last one stays. -/
theorem lookup_foldl_write {α : Type} (key : α → κ) (val : α → ν) {m : FMap κ ν} {ws : List α}
    (hordered : (ws.map fun w => stamp (val w)).Pairwise (· < ·))
    (hnew : ∀ w ∈ ws, ∀ c, m.lookup (key w) = some c → stamp c < stamp (val w)) (k : κ) :
    (ws.foldl (fun m w => write stamp m (key w) (val w)) m).lookup k =
      ((ws.filter fun w => key w = k).getLast?.map val).or (m.lookup k) := by
  induction ws using List.reverseRecOn with
  | nil => rfl
  | append_singleton ws w ih =>
    rw [List.map_append, List.pairwise_append] at hordered
    obtain ⟨hordered, -, hlast⟩ := hordered
    have ih := ih hordered fun w' hw' => hnew w' (List.mem_append_left _ hw')
    rw [List.foldl_append, List.foldl_cons, List.foldl_nil, List.filter_append]
    by_cases hk : key w = k
    · have hacc : accepts stamp (ws.foldl (fun m w => write stamp m (key w) (val w)) m) (key w) (val w) =
          true := by
        subst hk
        cases hl : (ws.foldl (fun m w => write stamp m (key w) (val w)) m).lookup (key w) with
        | none => exact accepts_of_absent hl
        | some c =>
          rw [accepts_of_lookup hl, decide_eq_true_iff]
          rw [hl] at ih
          cases hfilter : (ws.filter fun w' => key w' = key w).getLast? with
          | none =>
            rw [hfilter] at ih
            exact hnew w (by simp) c ih.symm
          | some w' =>
            rw [hfilter] at ih
            obtain rfl := Option.some.inj ih
            have hw' := (List.mem_filter.mp (List.mem_of_getLast? hfilter)).1
            exact hlast _ (List.mem_map_of_mem hw') _ (by simp)
      rw [write_of_accepts hacc, FMap.lookup_insert_eq, if_pos hk.symm,
        List.filter_cons_of_pos (by simpa using hk), List.filter_nil, List.getLast?_concat]
      rfl
    · rw [lookup_write_ne (Ne.symm hk), ih, List.filter_cons_of_neg (by simpa using hk), List.filter_nil,
        List.append_nil]

/-- `k` holds a value at least as new as `t`. -/
def HoldsSince (stamp : ν → τ) (m : FMap κ ν) (k : κ) (t : τ) : Prop :=
  ∃ c, m.lookup k = some c ∧ t ≤ stamp c

theorem holdsSince_write_self (m : FMap κ ν) (k : κ) (v : ν) :
    HoldsSince stamp (write stamp m k v) k (stamp v) := by
  rcases lookup_write_self stamp m k v with h | ⟨c, -, hle, h⟩
  · exact ⟨v, h, le_rfl⟩
  · exact ⟨c, h, hle⟩

/-- No write takes a key back in time. -/
theorem HoldsSince.write {m : FMap κ ν} {k k' : κ} {v : ν} {t : τ} (h : HoldsSince stamp m k t) :
    HoldsSince stamp (write stamp m k' v) k t := by
  obtain ⟨c, hc, ht⟩ := h
  by_cases hk : k = k'
  · subst hk
    rcases lt_or_ge (stamp c) (stamp v) with hlt | hge
    · refine ⟨v, ?_, ht.trans hlt.le⟩
      rw [write_of_accepts (by rw [accepts_of_lookup hc]; simpa using hlt)]
      simp
    · exact ⟨c, by rw [write_of_ge hc hge, hc], ht⟩
  · exact ⟨c, by rw [lookup_write_ne hk, hc], ht⟩

end Lww

/-! ## Undo logs -/

/-- What is remembered about one write: its key, the value it found and its stamp. -/
structure Undo (κ ν τ : Type) where
  key : κ
  previous : Option ν
  stamp : τ
deriving DecidableEq

section Rollback

variable [LinearOrder τ] (stamp : ν → τ)

/-- Undo one record: only if the stored value is the one the record was taken for.  The remembered
value moves into the map, so a restored record remembers nothing. -/
def restore (m : FMap κ ν) (u : Undo κ ν τ) : FMap κ ν × Undo κ ν τ :=
  match m.lookup u.key with
  | none => (m, u)
  | some cur =>
    if stamp cur ≠ u.stamp then (m, u)
    else match u.previous with
      | some old => (m.insert u.key old, { u with previous := none })
      | none => (m.erase u.key, u)

/-- Undo the records of a log from its last to its first. -/
def rollback (m : FMap κ ν) : List (Undo κ ν τ) → FMap κ ν × List (Undo κ ν τ)
  | [] => (m, [])
  | u :: us =>
    let (m', us') := rollback m us
    let (m'', u') := restore stamp m' u
    (m'', u' :: us')

/-- The undo record taken before writing `v` under `k`. -/
def undoOf (m : FMap κ ν) (k : κ) (v : ν) : Undo κ ν τ := ⟨k, m.lookup k, stamp v⟩

/-- Write a list of pairs, keeping the undo log. -/
def recordAll (m : FMap κ ν) : List (κ × ν) → FMap κ ν × List (Undo κ ν τ)
  | [] => (m, [])
  | (k, v) :: ws =>
    let (m', us) := recordAll (write stamp m k v) ws
    (m', undoOf stamp m k v :: us)

variable {stamp}

@[simp] theorem rollback_nil (m : FMap κ ν) : rollback stamp m [] = (m, []) := rfl

theorem rollback_cons (m : FMap κ ν) (u : Undo κ ν τ) (us : List (Undo κ ν τ)) :
    rollback stamp m (u :: us) =
      ((restore stamp (rollback stamp m us).1 u).1,
        (restore stamp (rollback stamp m us).1 u).2 :: (rollback stamp m us).2) := rfl

@[simp] theorem recordAll_nil (m : FMap κ ν) : recordAll stamp m [] = (m, []) := rfl

theorem recordAll_cons (m : FMap κ ν) (k : κ) (v : ν) (ws : List (κ × ν)) :
    recordAll stamp m ((k, v) :: ws) =
      ((recordAll stamp (write stamp m k v) ws).1,
        undoOf stamp m k v :: (recordAll stamp (write stamp m k v) ws).2) := rfl

theorem restore_of_absent {m : FMap κ ν} {u : Undo κ ν τ} (h : m.lookup u.key = none) :
    restore stamp m u = (m, u) := by
  unfold restore; rw [h]

theorem restore_of_ne {m : FMap κ ν} {u : Undo κ ν τ} {c : ν} (h : m.lookup u.key = some c)
    (hne : stamp c ≠ u.stamp) : restore stamp m u = (m, u) := by
  unfold restore
  rw [h]
  exact if_pos hne

theorem restore_of_eq {m : FMap κ ν} {u : Undo κ ν τ} {c : ν} (h : m.lookup u.key = some c)
    (heq : stamp c = u.stamp) : restore stamp m u =
      match u.previous with
      | some old => (m.insert u.key old, { u with previous := none })
      | none => (m.erase u.key, u) := by
  unfold restore
  rw [h]
  exact if_neg (not_not.mpr heq)

theorem lookup_restore_ne {m : FMap κ ν} {u : Undo κ ν τ} {k : κ} (h : k ≠ u.key) :
    (restore stamp m u).1.lookup k = m.lookup k := by
  unfold restore
  split
  · rfl
  · split_ifs
    · rfl
    · split
      · exact Finmap.lookup_insert_of_ne m h
      · exact Finmap.lookup_erase_ne h

/-- Restoring the record of a write on the map right after it takes the write back; the record is spent
unless the write had lost to a strictly newer value. -/
theorem restore_write (m : FMap κ ν) (k : κ) (v : ν) :
    restore stamp (write stamp m k v) (undoOf stamp m k v) =
      (m, ⟨k, (m.lookup k).filter (fun c => decide (stamp v < stamp c)), stamp v⟩) := by
  cases hc : m.lookup k with
  | none =>
    have hl : (write stamp m k v).lookup k = some v := by
      rw [write_of_accepts (accepts_of_absent hc)]; simp
    rw [restore_of_eq (u := undoOf stamp m k v) hl rfl]
    simp only [undoOf, hc, Option.filter_none]
    rw [write_of_accepts (accepts_of_absent hc), FMap.erase_insert_self hc]
  | some c =>
    rcases lt_trichotomy (stamp c) (stamp v) with hlt | heq | hgt
    · have hacc : accepts stamp m k v = true := by rw [accepts_of_lookup hc]; simpa using hlt
      have hl : (write stamp m k v).lookup k = some v := by rw [write_of_accepts hacc]; simp
      rw [restore_of_eq (u := undoOf stamp m k v) hl rfl]
      simp only [undoOf, hc, Option.filter_some, not_lt.mpr hlt.le, decide_false]
      rw [write_of_accepts hacc, Finmap.insert_insert, FMap.insert_lookup_self hc]
      simp
    · have hw : write stamp m k v = m := write_of_ge hc heq.ge
      rw [hw, restore_of_eq (u := undoOf stamp m k v) hc heq]
      simp only [undoOf, hc, Option.filter_some, heq, lt_irrefl, decide_false]
      rw [FMap.insert_lookup_self hc]
      simp
    · have hw : write stamp m k v = m := write_of_ge hc hgt.le
      rw [hw, restore_of_ne (u := undoOf stamp m k v) hc hgt.ne']
      simp [undoOf, hc, Option.filter_some, hgt]

/-- **One rollback is exact.** -/
theorem rollback_record (m : FMap κ ν) (ws : List (κ × ν)) :
    (rollback stamp (recordAll stamp m ws).1 (recordAll stamp m ws).2).1 = m := by
  induction ws generalizing m with
  | nil => rfl
  | cons w ws ih =>
    obtain ⟨k, v⟩ := w
    rw [recordAll_cons, rollback_cons]
    simp only
    rw [ih (write stamp m k v), restore_write]

/-- The log a rollback leaves behind. -/
theorem rollback_record_log (m : FMap κ ν) (k : κ) (v : ν) (ws : List (κ × ν)) :
    (rollback stamp (recordAll stamp m ((k, v) :: ws)).1 (recordAll stamp m ((k, v) :: ws)).2).2 =
      ⟨k, (m.lookup k).filter (fun c => decide (stamp v < stamp c)), stamp v⟩ ::
        (rollback stamp (recordAll stamp (write stamp m k v) ws).1
          (recordAll stamp (write stamp m k v) ws).2).2 := by
  rw [recordAll_cons, rollback_cons]
  simp only
  rw [rollback_record (write stamp m k v) ws, restore_write]

/-- The keys and stamps of a consumed log are those of the writes. -/
theorem rollback_record_keys (m : FMap κ ν) (ws : List (κ × ν)) :
    (rollback stamp (recordAll stamp m ws).1 (recordAll stamp m ws).2).2.map
      (fun u => (u.key, u.stamp)) = ws.map (fun w => (w.1, stamp w.2)) := by
  induction ws generalizing m with
  | nil => rfl
  | cons w ws ih =>
    obtain ⟨k, v⟩ := w
    rw [rollback_record_log]
    simp [ih (write stamp m k v)]

variable (stamp) in
/-- Where a second rollback leaves a key that held `p` at the start: it is gone, or untouched because no
write met `p`'s stamp, or it holds the newer value it had when the (still unprocessed) log began. -/
theorem rollback_again_lookup {b : FMap κ ν} {k : κ} {p : ν} (hb : b.lookup k = some p) :
    ∀ (ws : List (κ × ν)) (m : FMap κ ν) (c : ν), m.lookup k = some c → stamp p ≤ stamp c →
      let r := (rollback stamp b
        (rollback stamp (recordAll stamp m ws).1 (recordAll stamp m ws).2).2).1.lookup k
      r = none ∨ (r = some p ∧ ∀ w ∈ ws, w.1 = k → stamp p ≠ stamp w.2) ∨
        (r = some c ∧ stamp p < stamp c)
  | [], m, c, _, _ => Or.inr (Or.inl ⟨hb, by simp⟩)
  | (k', v) :: ws, m, c, hc, hpc => by
    intro r
    have hr : r = (restore stamp (rollback stamp b (rollback stamp
        (recordAll stamp (write stamp m k' v) ws).1 (recordAll stamp (write stamp m k' v) ws).2).2).1
        ⟨k', (m.lookup k').filter (fun c => decide (stamp v < stamp c)), stamp v⟩).1.lookup k := by
      simp only [r, rollback_record_log, rollback_cons]
    have hcons (htie : k' = k → stamp p ≠ stamp v) (hno : ∀ w ∈ ws, w.1 = k → stamp p ≠ stamp w.2) :
        ∀ w ∈ (k', v) :: ws, w.1 = k → stamp p ≠ stamp w.2 := List.forall_mem_cons.mpr ⟨htie, hno⟩
    by_cases hk : k = k'
    · subst hk
      rw [hc] at hr
      rcases lookup_write_self stamp m k v with hv | ⟨c', hc', hle, hv⟩
      · -- the write was accepted, or rewrote an equal stamp: either way the record is spent
        have hspent : ¬ stamp v < stamp c := by
          intro hlt
          rw [write_of_ge hc hlt.le, hc, Option.some.injEq] at hv
          rw [hv] at hlt
          exact lt_irrefl _ hlt
        rw [Option.filter_some, decide_eq_false hspent] at hr
        have hpv : stamp p ≤ stamp v := hpc.trans (not_lt.mp hspent)
        rcases rollback_again_lookup hb ws _ v hv hpv with h | ⟨h, hno⟩ | ⟨h, hlt⟩
        · rw [restore_of_absent h, h] at hr
          exact Or.inl hr
        · by_cases htie : stamp p = stamp v
          · rw [restore_of_eq h htie] at hr
            simp at hr
            exact Or.inl hr
          · rw [restore_of_ne h htie, h] at hr
            exact Or.inr (Or.inl ⟨hr, hcons (fun _ => htie) hno⟩)
        · rw [restore_of_eq h rfl] at hr
          simp at hr
          exact Or.inl hr
      · rw [hc, Option.some.injEq] at hc'
        subst hc'
        rcases rollback_again_lookup hb ws _ c hv hpc with h | ⟨h, hno⟩ | ⟨h, hlt⟩
        · rw [restore_of_absent h, h] at hr
          exact Or.inl hr
        · by_cases htie : stamp p = stamp v
          · rcases hle.lt_or_eq with hlt | heq
            · -- a rejected write with `p`'s stamp brings back the newer value it lost to
              rw [Option.filter_some, decide_eq_true hlt, restore_of_eq h htie] at hr
              simp at hr
              exact Or.inr (Or.inr ⟨hr, htie ▸ hlt⟩)
            · rw [Option.filter_some, heq, decide_eq_false (lt_irrefl _),
                restore_of_eq h (htie.trans heq)] at hr
              simp at hr
              exact Or.inl hr
          · rw [restore_of_ne h htie, h] at hr
            exact Or.inr (Or.inl ⟨hr, hcons (fun _ => htie) hno⟩)
        · by_cases htie : stamp c = stamp v
          · rw [Option.filter_some, htie, decide_eq_false (lt_irrefl _), restore_of_eq h htie] at hr
            simp at hr
            exact Or.inl hr
          · rw [restore_of_ne h htie, h] at hr
            exact Or.inr (Or.inr ⟨hr, hlt⟩)
    · rw [lookup_restore_ne hk] at hr
      have hcw : (write stamp m k' v).lookup k = some c := by rw [lookup_write_ne hk, hc]
      rcases rollback_again_lookup hb ws _ c hcw hpc with h | ⟨h, hno⟩ | ⟨h, hlt⟩
      · exact Or.inl (hr.trans h)
      · exact Or.inr (Or.inl ⟨hr.trans h, hcons (fun heq => absurd heq.symm hk) hno⟩)
      · exact Or.inr (Or.inr ⟨hr.trans h, hlt⟩)

/-- A rollback brings no key in that is not there. -/
theorem lookup_rollback_of_absent {m : FMap κ ν} {k : κ} (h : m.lookup k = none) :
    ∀ us : List (Undo κ ν τ), (rollback stamp m us).1.lookup k = none
  | [] => h
  | u :: us => by
    have ih := lookup_rollback_of_absent h us
    rw [rollback_cons]
    simp only
    by_cases hk : k = u.key
    · subst hk
      rw [restore_of_absent ih, ih]
    · rw [lookup_restore_ne hk, ih]

/-- A key that no record of its own meets stays. -/
theorem lookup_rollback_of_no_tie {m : FMap κ ν} {k : κ} {c : ν} (h : m.lookup k = some c) :
    ∀ us : List (Undo κ ν τ), (∀ u ∈ us, u.key = k → stamp c ≠ u.stamp) →
      (rollback stamp m us).1.lookup k = some c
  | [], _ => h
  | u :: us, hno => by
    have ih := lookup_rollback_of_no_tie h us fun u' hu' => hno u' (List.mem_cons_of_mem _ hu')
    rw [rollback_cons]
    simp only
    by_cases hk : u.key = k
    · subst hk
      rw [restore_of_ne ih (hno u List.mem_cons_self rfl), ih]
    · rw [lookup_restore_ne (Ne.symm hk), ih]

variable (stamp) in
/-- Some write of the list has the stamp that its key `k` holds. -/
def Tied (m : FMap κ ν) (ws : List (κ × ν)) (k : κ) : Prop :=
  ∃ w ∈ ws, w.1 = k ∧ ∃ c, m.lookup k = some c ∧ stamp c = stamp w.2

variable (stamp) in
/-- **What a second rollback over the consumed log does**: the tied keys are gone, the others are as they were. -/
theorem lookup_rollback_twice (m : FMap κ ν) (ws : List (κ × ν)) (k : κ) :
    (Tied stamp m ws k → (rollback stamp m
      (rollback stamp (recordAll stamp m ws).1 (recordAll stamp m ws).2).2).1.lookup k = none) ∧
    (¬ Tied stamp m ws k → (rollback stamp m
      (rollback stamp (recordAll stamp m ws).1 (recordAll stamp m ws).2).2).1.lookup k = m.lookup k) := by
  constructor
  · rintro ⟨w, hw, rfl, c, hc, heq⟩
    rcases rollback_again_lookup stamp hc ws m c hc le_rfl with hr | ⟨-, hno⟩ | ⟨-, hlt⟩
    · exact hr
    · exact absurd heq (hno w hw rfl)
    · exact (lt_irrefl _ hlt).elim
  · intro hno
    cases hc : m.lookup k with
    | none => exact lookup_rollback_of_absent hc _
    | some c =>
      refine lookup_rollback_of_no_tie hc _ fun u hu hk htie => hno ?_
      have hmem : (u.key, u.stamp) ∈ ws.map (fun w => (w.1, stamp w.2)) := by
        rw [← rollback_record_keys m ws]
        exact List.mem_map_of_mem hu
      obtain ⟨w, hw, he⟩ := List.mem_map.mp hmem
      obtain ⟨hkey, hstamp⟩ := Prod.mk.inj he
      exact ⟨w, hw, hkey.trans hk, c, hc, htie.trans hstamp.symm⟩

omit [LinearOrder τ] in
variable (stamp) in
theorem forall_not_tied_iff (m : FMap κ ν) (ws : List (κ × ν)) : (∀ k, ¬ Tied stamp m ws k) ↔
    ∀ w ∈ ws, ∀ c, m.lookup w.1 = some c → stamp c ≠ stamp w.2 := by
  constructor
  · exact fun h w hw c hc heq => h w.1 ⟨w, hw, rfl, c, hc, heq⟩
  · rintro h k ⟨w, hw, rfl, c, hc, heq⟩
    exact h w hw c hc heq

/-! ### A log that ends in a write that did not happen -/

theorem recordAll_append (m : FMap κ ν) (ws ws' : List (κ × ν)) : recordAll stamp m (ws ++ ws') =
    ((recordAll stamp (recordAll stamp m ws).1 ws').1,
      (recordAll stamp m ws).2 ++ (recordAll stamp (recordAll stamp m ws).1 ws').2) := by
  induction ws generalizing m with
  | nil => rfl
  | cons w ws ih =>
    obtain ⟨k, v⟩ := w
    rw [List.cons_append, recordAll_cons, ih, recordAll_cons]
    rfl

variable (stamp) in
theorem recordAll_concat (m : FMap κ ν) (ws : List (κ × ν)) (k : κ) (v : ν) :
    recordAll stamp m (ws ++ [(k, v)]) = (write stamp (recordAll stamp m ws).1 k v,
      (recordAll stamp m ws).2 ++ [undoOf stamp (recordAll stamp m ws).1 k v]) := by
  rw [recordAll_append]
  rfl

theorem rollback_concat (m : FMap κ ν) (us : List (Undo κ ν τ)) (u : Undo κ ν τ) :
    rollback stamp m (us ++ [u]) =
      ((rollback stamp (restore stamp m u).1 us).1,
        (rollback stamp (restore stamp m u).1 us).2 ++ [(restore stamp m u).2]) := by
  induction us with
  | nil => rfl
  | cons u' us ih =>
    rw [List.cons_append, rollback_cons, ih, rollback_cons]
    rfl

/-- Stamps never fall. -/
theorem HoldsSince.recordAll {m : FMap κ ν} {k : κ} {t : τ} (h : HoldsSince stamp m k t)
    (ws : List (κ × ν)) : HoldsSince stamp (recordAll stamp m ws).1 k t := by
  induction ws generalizing m with
  | nil => exact h
  | cons w ws ih => exact ih h.write

/-- Undoing this record leaves `k` with a value at least as new as `t`, if it finds one: the value that it undoes is
older, or what it remembers is not. -/
def Undo.Spares (stamp : ν → τ) (u : Undo κ ν τ) (k : κ) (t : τ) : Prop :=
  u.key = k → t ≤ u.stamp → ∃ c, u.previous = some c ∧ t ≤ stamp c

/-- A key that holds a value is found with it, or with a newer one, by every write. -/
theorem HoldsSince.spared {m : FMap κ ν} {k : κ} {t : τ} (h : HoldsSince stamp m k t) (ws : List (κ × ν)) :
    ∀ u ∈ (Lib.recordAll stamp m ws).2, u.Spares stamp k t := by
  induction ws generalizing m with
  | nil => exact fun u hu => absurd hu List.not_mem_nil
  | cons w ws ih =>
    intro u hu
    rcases List.mem_cons.mp hu with rfl | hu
    · rintro rfl -
      exact h
    · exact ih h.write u hu

/-- What the records of a publication stand for is in the map, or newer values are. -/
theorem holdsSince_of_mem_recordAll (m : FMap κ ν) (ws : List (κ × ν)) :
    ∀ u ∈ (recordAll stamp m ws).2, HoldsSince stamp (recordAll stamp m ws).1 u.key u.stamp := by
  induction ws generalizing m with
  | nil => exact fun u hu => absurd hu List.not_mem_nil
  | cons w ws ih =>
    intro u hu
    rcases List.mem_cons.mp hu with rfl | hu
    · exact (holdsSince_write_self m w.1 w.2).recordAll ws
    · exact ih _ u hu

theorem HoldsSince.restore {m : FMap κ ν} {u : Undo κ ν τ} {k : κ} {t : τ} (h : HoldsSince stamp m k t)
    (hu : u.Spares stamp k t) : HoldsSince stamp (Lib.restore stamp m u).1 k t := by
  obtain ⟨c, hc, ht⟩ := h
  by_cases hk : k = u.key
  · subst hk
    by_cases heq : stamp c = u.stamp
    · obtain ⟨old, hold, hle⟩ := hu rfl (heq ▸ ht)
      rw [restore_of_eq hc heq, hold]
      exact ⟨old, FMap.lookup_insert_eq m u.key u.key old ▸ if_pos rfl, hle⟩
    · rw [restore_of_ne hc heq]
      exact ⟨c, hc, ht⟩
  · exact ⟨c, (lookup_restore_ne hk).trans hc, ht⟩

/-- **A rollback of records that spare a key leaves it new enough**, whatever was written after the records. -/
theorem HoldsSince.rollback {m : FMap κ ν} {us : List (Undo κ ν τ)} {k : κ} {t : τ} (h : HoldsSince stamp m k t)
    (hus : ∀ u ∈ us, u.Spares stamp k t) : HoldsSince stamp (Lib.rollback stamp m us).1 k t := by
  induction us with
  | nil => exact h
  | cons u us ih =>
    have hrest : HoldsSince stamp (Lib.rollback stamp m us).1 k t :=
      ih fun u' hu' => hus u' (List.mem_cons_of_mem u hu')
    exact hrest.restore (hus u List.mem_cons_self)

/-- A write that would have been accepted meets no equal stamp at the start. -/
theorem stamp_ne_of_accepts {m : FMap κ ν} {ws : List (κ × ν)} {k : κ} {v c : ν}
    (h : accepts stamp (recordAll stamp m ws).1 k v = true) (hc : m.lookup k = some c) :
    stamp c ≠ stamp v := by
  have hold : HoldsSince stamp m k (stamp c) := ⟨c, hc, le_rfl⟩
  obtain ⟨d, hd, hle⟩ := hold.recordAll ws
  rw [accepts_of_lookup hd, decide_eq_true_iff] at h
  exact (hle.trans_lt h).ne

/-- Restoring the record of a write that did not happen changes nothing. -/
theorem restore_unwritten (m : FMap κ ν) (k : κ) (v : ν) :
    (restore stamp m (undoOf stamp m k v)).1 = m := by
  cases hc : m.lookup k with
  | none => rw [restore_of_absent (u := undoOf stamp m k v) hc]
  | some c =>
    by_cases heq : stamp c = stamp v
    · rw [restore_of_eq (u := undoOf stamp m k v) hc heq]
      simp only [undoOf, hc]
      exact FMap.insert_lookup_self hc
    · rw [restore_of_ne (u := undoOf stamp m k v) hc heq]

/-- One rollback is exact also when the last record's write did not happen. -/
theorem rollback_record_unwritten (m : FMap κ ν) (ws : List (κ × ν)) (k : κ) (v : ν) :
    (rollback stamp (recordAll stamp m ws).1
      ((recordAll stamp m ws).2 ++ [undoOf stamp (recordAll stamp m ws).1 k v])).1 = m := by
  rw [rollback_concat]
  simp only
  rw [restore_unwritten, rollback_record]

variable (stamp) in
/-- A second rollback whose last record's write did not happen is that of a log whose writes all did, unless the
write would have been accepted; then it is the one without it. -/
theorem rollback_twice_unwritten (m : FMap κ ν) (ws : List (κ × ν)) (k : κ) (v : ν) :
    ∃ ws', (rollback stamp m (rollback stamp (recordAll stamp m ws).1
        ((recordAll stamp m ws).2 ++ [undoOf stamp (recordAll stamp m ws).1 k v])).2).1 =
      (rollback stamp m (rollback stamp (recordAll stamp m ws').1 (recordAll stamp m ws').2).2).1 ∧
      ∀ k', Tied stamp m ws' k' ↔ Tied stamp m (ws ++ [(k, v)]) k' := by
  cases hacc : accepts stamp (recordAll stamp m ws).1 k v with
  | false =>
    -- a rejected write leaves the map alone, so it may as well have happened
    refine ⟨ws ++ [(k, v)], ?_, fun _ => Iff.rfl⟩
    rw [recordAll_concat, write_of_rejects hacc]
  | true =>
    have hne : ∀ c, (recordAll stamp m ws).1.lookup k = some c → stamp c ≠ stamp v := by
      intro c hc
      rw [accepts_of_lookup hc, decide_eq_true_iff] at hacc
      exact hacc.ne
    have hskip : restore stamp (recordAll stamp m ws).1 (undoOf stamp (recordAll stamp m ws).1 k v) =
        ((recordAll stamp m ws).1, undoOf stamp (recordAll stamp m ws).1 k v) := by
      cases hc : (recordAll stamp m ws).1.lookup k with
      | none => exact restore_of_absent hc
      | some c => exact restore_of_ne hc (hne c hc)
    have hskip' : (restore stamp m (undoOf stamp (recordAll stamp m ws).1 k v)).1 = m := by
      cases hc : m.lookup k with
      | none => rw [restore_of_absent hc]
      | some c => rw [restore_of_ne hc (stamp_ne_of_accepts hacc hc)]
    refine ⟨ws, ?_, fun k' => ⟨?_, ?_⟩⟩
    · rw [rollback_concat, hskip]
      simp only
      rw [rollback_concat, hskip']
    · rintro ⟨w, hw, htie⟩
      exact ⟨w, List.mem_append_left _ hw, htie⟩
    · rintro ⟨w, hw, hk, c, hc, heq⟩
      rcases List.mem_append.mp hw with hw | hw
      · exact ⟨w, hw, hk, c, hc, heq⟩
      · obtain rfl := List.mem_singleton.mp hw
        obtain rfl : k = k' := hk
        exact absurd heq (stamp_ne_of_accepts hacc hc)

end Rollback

end Slung.Lib
