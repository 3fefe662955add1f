import Mathlib.Algebra.Order.Ring.Nat
import Mathlib.Data.List.Nodup
import Mathlib.Logic.Function.Basic
import Mathlib.Tactic.SplitIfs
import Slung.Lib.Machine
import Slung.Lib.Object
import Slung.Types

/-!
# Slung.ModuleStore — `get`, `set` and `delete` of `storage.zig`, from any number of threads

All calls share one connection of SQLite, and a statement of one thread may run between two of another.  SQLite is
a parameter: what it does to the rows of `module_kv` that are committed and to those of an open transaction.  A
label is one statement of one call, with what the machine cannot know: how SQLite fares, and whether the allocations
and the preparation around it succeed.
-/

namespace Slung

open Slung.Lib

/-! ## What the store is for -/

/-- The primary key of `module_kv`. -/
structure StoreKey where
  namespaceId : Bytes
  module : Bytes
  key : Bytes
deriving DecidableEq, Repr

abbrev StoreTable := StoreKey → Option Bytes

inductive StoreOp where
  | get (k : StoreKey)
  | set (k : StoreKey) (value : Bytes)
  | delete (k : StoreKey)
deriving DecidableEq, Repr

inductive StoreReply where
  | value (v : Option Bytes)
  | stored
  | deleted (existed : Bool)
deriving DecidableEq, Repr

/-- The table behind a call that succeeds. -/
def StoreOp.effect : StoreOp → StoreTable → StoreTable
  | .get _, t => t
  | .set k v, t => Function.update t k (some v)
  | .delete k, t => Function.update t k none

def StoreOp.reply : StoreOp → StoreTable → StoreReply
  | .get k, t => .value (t k)
  | .set _ _, _ => .stored
  | .delete k, t => .deleted (t k).isSome

/-- A map from keys to values. -/
def moduleKv : Object StoreTable StoreOp StoreReply where
  call t op := (op.effect t, op.reply t)

/-! ## SQLite -/

/-- What a connection shows: the committed rows, and those of the open transaction. -/
structure StoreView where
  committed : StoreTable
  working : Option StoreTable

/-- The statements that the store runs on a connection `δ`, with an outcome `φ` that only SQLite knows; `true` is
`SQLITE_OK` or `SQLITE_DONE`. -/
structure Sqlite (δ φ : Type) where
  view : δ → StoreView
  /-- `BEGIN IMMEDIATE;` -/
  begin : δ → φ → δ × Bool
  /-- the step of the `INSERT` or of the `DELETE` -/
  write : δ → φ → StoreOp → δ × Bool
  /-- `sqlite3_changes` -/
  changes : δ → ℕ
  /-- `COMMIT;` -/
  commit : δ → φ → δ × Bool
  /-- `ROLLBACK;` -/
  rollback : δ → φ → δ × Bool
  /-- the step of the `SELECT`; `none` is an error -/
  select : δ → φ → StoreKey → Option (Option Bytes)

/-- What the code relies on. -/
structure Sqlite.Lawful {δ φ : Type} (db : Sqlite δ φ) : Prop where
  /-- a transaction begins only where none is open -/
  begin_ok : ∀ {d f d'}, db.begin d f = (d', true) → (db.view d).working = none ∧
    db.view d' = ⟨(db.view d).committed, some (db.view d).committed⟩
  begin_failed : ∀ {d f d'}, db.begin d f = (d', false) → db.view d' = db.view d ∧ db.changes d' = db.changes d
  write_ok : ∀ {d f op d' t}, (db.view d).working = some t → db.write d f op = (d', true) →
    db.view d' = ⟨(db.view d).committed, some (op.effect t)⟩
  /-- a deletion counts the row that it found -/
  changes_delete : ∀ {d f k d' t}, (db.view d).working = some t → db.write d f (.delete k) = (d', true) →
    db.changes d' = if (t k).isSome then 1 else 0
  /-- a statement that fails is undone, and some errors end the transaction -/
  write_failed : ∀ {d f op d' t}, (db.view d).working = some t → db.write d f op = (d', false) →
    db.view d' = db.view d ∨ db.view d' = ⟨(db.view d).committed, none⟩
  commit_ok : ∀ {d f d'}, db.commit d f = (d', true) →
    ∃ t, (db.view d).working = some t ∧ db.view d' = ⟨t, none⟩
  commit_failed : ∀ {d f d'}, db.commit d f = (d', false) →
    db.view d' = db.view d ∨ db.view d' = ⟨(db.view d).committed, none⟩
  rollback_ok : ∀ {d f d'}, db.rollback d f = (d', true) → db.view d' = ⟨(db.view d).committed, none⟩
  rollback_failed : ∀ {d f d'}, db.rollback d f = (d', false) → db.view d' = db.view d
  /-- one connection sees its own open transaction -/
  select_ok : ∀ {d f k r}, db.select d f k = some r → r = ((db.view d).working.getD (db.view d).committed) k

namespace Sqlite

/-- `sqlite3_column_bytes` is an `int`. -/
def Limited {δ φ : Type} (db : Sqlite δ φ) : Prop :=
  ∀ {d f k v}, db.select d f k = some (some v) → v.length < 2 ^ 31

/-- How a statement fares; some errors end the transaction. -/
inductive Outcome where
  | ok
  | failed
  | rolledBack
deriving DecidableEq, Repr

/-- `sqlite3_changes` behind a statement. -/
def countOf (n : ℕ) (t : StoreTable) : StoreOp → ℕ
  | .get _ => n
  | .set _ _ => 1
  | .delete k => if (t k).isSome then 1 else 0

/-- A connection that is its view and its count; a statement outside a transaction commits by itself, and a row that is
too long is an error. -/
def reference : Sqlite (StoreView × ℕ) Outcome where
  view := Prod.fst
  begin c outcome :=
    match outcome, c.1.working with
    | .ok, none => (({ c.1 with working := some c.1.committed }, c.2), true)
    | _, _ => (c, false)
  write c outcome op :=
    match outcome, c.1.working with
    | .ok, some t => (({ c.1 with working := some (op.effect t) }, countOf c.2 t op), true)
    | .ok, none => ((⟨op.effect c.1.committed, none⟩, countOf c.2 c.1.committed op), true)
    | .failed, _ => (c, false)
    | .rolledBack, _ => (({ c.1 with working := none }, c.2), false)
  changes := Prod.snd
  commit c outcome :=
    match outcome, c.1.working with
    | .ok, some t => ((⟨t, none⟩, c.2), true)
    | .rolledBack, _ => (({ c.1 with working := none }, c.2), false)
    | _, _ => (c, false)
  rollback c outcome :=
    match outcome, c.1.working with
    | .ok, some _ => (({ c.1 with working := none }, c.2), true)
    | _, _ => (c, false)
  select c outcome k :=
    let row := (c.1.working.getD c.1.committed) k
    if outcome = .ok ∧ row.all (fun v => decide (v.length < 2 ^ 31)) = true then some row else none

theorem reference_lawful : reference.Lawful where
  begin_ok := by
    rintro ⟨⟨c, _ | t⟩, n⟩ (_ | _ | _) d' h <;> cases h
    exact ⟨rfl, rfl⟩
  begin_failed := by
    rintro ⟨⟨c, _ | t⟩, n⟩ (_ | _ | _) d' h <;> cases h <;> exact ⟨rfl, rfl⟩
  write_ok := by
    rintro ⟨⟨c, _ | t⟩, n⟩ (_ | _ | _) op d' t' ht h <;> cases ht <;> cases h
    rfl
  changes_delete := by
    rintro ⟨⟨c, _ | t⟩, n⟩ (_ | _ | _) k d' t' ht h <;> cases ht <;> cases h
    rfl
  write_failed := by
    rintro ⟨⟨c, _ | t⟩, n⟩ (_ | _ | _) op d' t' ht h <;> cases ht <;> cases h
    · exact Or.inl rfl
    · exact Or.inr rfl
  commit_ok := by
    rintro ⟨⟨c, _ | t⟩, n⟩ (_ | _ | _) d' h <;> cases h
    exact ⟨t, rfl, rfl⟩
  commit_failed := by
    rintro ⟨⟨c, _ | t⟩, n⟩ (_ | _ | _) d' h <;> cases h <;> first | exact Or.inl rfl | exact Or.inr rfl
  rollback_ok := by
    rintro ⟨⟨c, _ | t⟩, n⟩ (_ | _ | _) d' h <;> cases h
    rfl
  rollback_failed := by
    rintro ⟨⟨c, _ | t⟩, n⟩ (_ | _ | _) d' h <;> cases h <;> rfl
  select_ok := by
    intro d f k r h
    obtain ⟨-, hrow⟩ := Option.ite_none_right_eq_some.mp h
    exact (Option.some.inj hrow).symm

theorem reference_limited : reference.Limited := by
  intro d f k v h
  obtain ⟨⟨-, hall⟩, hrow⟩ := Option.ite_none_right_eq_some.mp h
  rw [Option.some.inj hrow] at hall
  exact of_decide_eq_true hall

end Sqlite

/-! ## Calls -/

/-- The next statement of a call. -/
inductive StorePc where
  | select
  | begin
  | prepare
  | step
  | changes
  | commit (deleted : Bool)
  | rollback
deriving DecidableEq, Repr

/-- A read of rows that were not committed, and the call whose transaction was open. -/
structure DirtyRead where
  id : ℕ
  key : StoreKey
  value : Option Bytes
  writerId : ℕ
  writer : StoreOp
deriving DecidableEq, Repr

structure ModuleStore (δ : Type) where
  db : δ
  /-- the calls in flight, by number -/
  calls : ℕ → Option (StoreOp × StorePc)
  next : ℕ
  /-- whose transaction is open -/
  owner : Option ℕ
  /-- the calls that took effect, in that order -/
  log : List (ℕ × StoreOp × StoreReply)
  /-- reads that saw rows which were not committed -/
  dirty : List DirtyRead
  /-- `none` is an error -/
  returned : List (ℕ × StoreOp × Option StoreReply)

namespace ModuleStore

variable {δ φ : Type} (db : Sqlite δ φ)

def opened (d : δ) : ModuleStore δ := ⟨d, fun _ => none, 0, none, [], [], []⟩

inductive Label (φ : Type) where
  | call (op : StoreOp)
  /-- the next statement of a call; `ok` says that its allocations and its preparation succeed -/
  | advance (id : ℕ) (outcome : φ) (ok : Bool)

/-- The first statement of each function. -/
def firstPc : StoreOp → StorePc
  | .get _ => .select
  | .set _ _ | .delete _ => .begin

def call (s : ModuleStore δ) (op : StoreOp) : ModuleStore δ :=
  { s with calls := Function.update s.calls s.next (some (op, firstPc op)), next := s.next + 1 }

/-- Go on to another statement. -/
def goto (s : ModuleStore δ) (id : ℕ) (op : StoreOp) (pc : StorePc) : ModuleStore δ :=
  { s with calls := Function.update s.calls id (some (op, pc)) }

/-- Return to the caller. -/
def leave (s : ModuleStore δ) (id : ℕ) (op : StoreOp) (reply : Option StoreReply) : ModuleStore δ :=
  { s with calls := Function.update s.calls id none, returned := s.returned ++ [(id, op, reply)] }

/-- The connection behind a statement; nobody owns a transaction that is gone. -/
def withDb (s : ModuleStore δ) (d : δ) : ModuleStore δ :=
  { s with db := d, owner := if (db.view d).working.isNone then none else s.owner }

/-- `get` -/
def select (s : ModuleStore δ) (id : ℕ) (op : StoreOp) (k : StoreKey) (outcome : φ) : ModuleStore δ :=
  match db.select s.db outcome k with
  | none => s.leave id op none
  | some r =>
    let reply := StoreReply.value r
    if r = (db.view s.db).committed k then
      { (s.leave id op (some reply)) with log := s.log ++ [(id, op, reply)] }
    else
      let seen := s.owner.bind fun j => (s.calls j).map fun c => ⟨id, k, r, j, c.1⟩
      { (s.leave id op (some reply)) with dirty := s.dirty ++ seen.toList }

/-- The next statement of `set` and `delete`: an error behind `BEGIN` leads to the `errdefer`. -/
def advance (s : ModuleStore δ) (id : ℕ) (op : StoreOp) (outcome : φ) (ok : Bool) : StorePc → ModuleStore δ
  | .select =>
    match op with
    | .get k => if ok then select db s id op k outcome else s.leave id op none
    | .set _ _ | .delete _ => s
  | .begin =>
    if ok then
      let (d, rc) := db.begin s.db outcome
      if rc then { (s.goto id op .prepare) with db := d, owner := some id } else { (s.leave id op none) with db := d }
    else s.leave id op none
  | .prepare => s.goto id op (if ok then .step else .rollback)
  | .step =>
    let (d, rc) := db.write s.db outcome op
    if rc then
      match op with
      | .delete _ => (s.withDb db d).goto id op .changes
      | .get _ | .set _ _ => (s.withDb db d).goto id op (.commit false)
    else (s.withDb db d).goto id op .rollback
  | .changes => s.goto id op (.commit (db.changes s.db ≠ 0))
  | .commit deleted =>
    if ok then
      let (d, rc) := db.commit s.db outcome
      let reply := match op with
        | .delete _ => StoreReply.deleted deleted
        | .get _ | .set _ _ => .stored
      if rc then { ((s.withDb db d).leave id op (some reply)) with log := s.log ++ [(id, op, reply)] }
      else (s.withDb db d).goto id op .rollback
    else s.goto id op .rollback
  | .rollback =>
    -- the `catch {}` drops the error of the `ROLLBACK`, and of the allocation before it
    if ok then (s.withDb db (db.rollback s.db outcome).1).leave id op none else s.leave id op none

end ModuleStore

/-- The module store as a machine. -/
def moduleStore {δ φ : Type} (db : Sqlite δ φ) : Machine (ModuleStore δ) (ModuleStore.Label φ) where
  step s
    | .call op => some (s.call op)
    | .advance id outcome ok => (s.calls id).map fun c => s.advance db id c.1 outcome ok c.2

/-- The texts and the blobs that a call binds. -/
def StoreOp.bound : StoreOp → List Bytes
  | .get k | .delete k => [k.namespaceId, k.module, k.key]
  | .set k value => [k.namespaceId, k.module, k.key, value]

/-- `bindText` and `bindBlob`: their lengths are cast to `c_int`, and the cast of a longer one stops the process. -/
def StoreOp.binds (op : StoreOp) : Bool := op.bound.all fun bytes => decide (bytes.length < 2 ^ 31)

/-- The statement of a call that binds what does not fit. -/
def ModuleStore.panics {δ : Type} (s : ModuleStore δ) (id : ℕ) (ok : Bool) : Bool :=
  match s.calls id with
  | some (op, .select) | some (op, .prepare) => ok && !op.binds
  | _ => false

namespace ModuleStore

variable {δ φ : Type} {db : Sqlite δ φ} {s : ModuleStore δ}

/-! ## What is booked about the calls -/

/-- A call is in flight, or it returned: with an error and no effect, or with the answer that is logged, or with
a read that is not. -/
structure Booked (s : ModuleStore δ) : Prop where
  kind : ∀ id op pc, s.calls id = some (op, pc) → (pc = .select ↔ ∃ k, op = .get k)
  inFlight : ∀ id c, s.calls id = some c →
    id < s.next ∧ id ∉ s.log.map Prod.fst ∧ id ∉ s.returned.map Prod.fst
  old : ∀ id, id ∈ s.log.map Prod.fst ∨ id ∈ s.returned.map Prod.fst → id < s.next
  once : (s.log.map Prod.fst).Nodup
  failed : ∀ id op, (id, op, none) ∈ s.returned → id ∉ s.log.map Prod.fst
  answered : ∀ id op reply, (id, op, some reply) ∈ s.returned → (id, op, reply) ∈ s.log ∨
    ∃ e ∈ s.dirty, e.id = id ∧ op = .get e.key ∧ reply = .value e.value

namespace Booked

variable {id : ℕ} {op : StoreOp} {pc pc' : StorePc}

theorem opened (d : δ) : Booked (opened d) where
  kind := by simp [ModuleStore.opened]
  inFlight := by simp [ModuleStore.opened]
  old := by simp [ModuleStore.opened]
  once := List.nodup_nil
  failed := by simp [ModuleStore.opened]
  answered := by simp [ModuleStore.opened]

theorem call (h : Booked s) (op : StoreOp) : Booked (s.call op) where
  kind := by
    intro id op' pc hc
    simp only [ModuleStore.call, Function.update_apply] at hc
    split_ifs at hc with hid
    · cases hc
      cases op <;> simp [firstPc]
    · exact h.kind id op' pc hc
  inFlight := by
    intro id c hc
    simp only [ModuleStore.call, Function.update_apply] at hc ⊢
    split_ifs at hc with hid
    · subst hid
      have hnew : ∀ j, j ∈ s.log.map Prod.fst ∨ j ∈ s.returned.map Prod.fst → j ≠ s.next :=
        fun j hj => Nat.ne_of_lt (h.old j hj)
      exact ⟨Nat.lt_succ_self _, fun hj => hnew _ (Or.inl hj) rfl, fun hj => hnew _ (Or.inr hj) rfl⟩
    · obtain ⟨hlt, hrest⟩ := h.inFlight id c hc
      exact ⟨Nat.lt_succ_of_lt hlt, hrest⟩
  old := fun id hid => Nat.lt_succ_of_lt (h.old id hid)
  once := h.once
  failed := h.failed
  answered := h.answered

/-- A call goes on to a statement of its own function. -/
theorem goto (h : Booked s) (hc : s.calls id = some (op, pc)) (hpc : pc ≠ .select) (hpc' : pc' ≠ .select) {d : δ}
    {owner : Option ℕ} : Booked { (s.goto id op pc') with db := d, owner := owner } where
  kind := by
    intro j op' pc'' hj
    simp only [ModuleStore.goto, Function.update_apply] at hj
    split_ifs at hj with hid
    · cases hj
      have hkind := h.kind id op pc hc
      exact iff_of_false hpc' fun hget => hpc (hkind.mpr hget)
    · exact h.kind j op' pc'' hj
  inFlight := by
    intro j c hj
    simp only [ModuleStore.goto, Function.update_apply] at hj
    split_ifs at hj with hid
    · exact hid ▸ h.inFlight id _ hc
    · exact h.inFlight j c hj
  old := h.old
  once := h.once
  failed := h.failed
  answered := h.answered

theorem inFlight_leave (h : Booked s) (id : ℕ) (op : StoreOp) (reply : Option StoreReply) {j : ℕ}
    {c : StoreOp × StorePc} (hj : (s.leave id op reply).calls j = some c) : j ≠ id ∧ s.calls j = some c ∧ j < s.next ∧
      j ∉ s.log.map Prod.fst ∧ j ∉ (s.leave id op reply).returned.map Prod.fst := by
  simp only [ModuleStore.leave, Function.update_apply] at hj ⊢
  split_ifs at hj with hid
  obtain ⟨hlt, hlog, hreturned⟩ := h.inFlight j c hj
  exact ⟨hid, hj, hlt, hlog, by simpa [hid] using hreturned⟩

/-- A call returns an error. -/
theorem leave_failed (h : Booked s) (hc : s.calls id = some (op, pc)) {d : δ} {owner : Option ℕ} :
    Booked { (s.leave id op none) with db := d, owner := owner } where
  kind := fun j op' pc' hj => h.kind j op' pc' (h.inFlight_leave id op none hj).2.1
  inFlight := fun j c hj => (h.inFlight_leave id op none hj).2.2
  old := by
    intro j hj
    simp only [ModuleStore.leave, List.map_append, List.mem_append, List.map_singleton, List.mem_singleton] at hj ⊢
    rcases hj with hj | hj | rfl
    · exact h.old j (Or.inl hj)
    · exact h.old j (Or.inr hj)
    · exact (h.inFlight j _ hc).1
  once := h.once
  failed := by
    intro j op' hj
    simp only [ModuleStore.leave, List.mem_append, List.mem_singleton, Prod.mk.injEq] at hj
    rcases hj with hj | ⟨rfl, -, -⟩
    · exact h.failed j op' hj
    · exact (h.inFlight j _ hc).2.1
  answered := by
    intro j op' reply hj
    simp only [ModuleStore.leave, List.mem_append, List.mem_singleton, Prod.mk.injEq, reduceCtorEq, and_false,
      or_false] at hj
    exact h.answered j op' reply hj

/-- A call returns an answer, and its effect is logged. -/
theorem leave_logged (h : Booked s) (hc : s.calls id = some (op, pc)) (reply : StoreReply) {d : δ}
    {owner : Option ℕ} : Booked { (s.leave id op (some reply)) with
      db := d, owner := owner, log := s.log ++ [(id, op, reply)] } where
  kind := fun j op' pc' hj => h.kind j op' pc' (h.inFlight_leave id op (some reply) hj).2.1
  inFlight := by
    intro j c hj
    obtain ⟨hne, -, hlt, hlog, hreturned⟩ := h.inFlight_leave id op (some reply) hj
    exact ⟨hlt, by simpa [hne] using hlog, hreturned⟩
  old := by
    intro j hj
    simp only [ModuleStore.leave, List.map_append, List.mem_append, List.map_singleton, List.mem_singleton] at hj ⊢
    rcases hj with (hj | rfl) | hj | rfl
    · exact h.old j (Or.inl hj)
    · exact (h.inFlight j _ hc).1
    · exact h.old j (Or.inr hj)
    · exact (h.inFlight j _ hc).1
  once := by
    simp only [List.map_append, List.map_singleton]
    exact h.once.append (List.nodup_singleton _) fun j hj hid =>
      (h.inFlight id _ hc).2.1 (List.mem_singleton.mp hid ▸ hj)
  failed := by
    intro j op' hj
    simp only [ModuleStore.leave, List.mem_append, List.mem_singleton, Prod.mk.injEq, reduceCtorEq, and_false,
      or_false] at hj
    have hne : j ≠ id := by
      rintro rfl
      exact (h.inFlight j _ hc).2.2 (List.mem_map_of_mem hj)
    simpa [hne] using h.failed j op' hj
  answered := by
    intro j op' reply' hj
    simp only [ModuleStore.leave, List.mem_append, List.mem_singleton, Prod.mk.injEq, Option.some.injEq] at hj ⊢
    rcases hj with hj | hj
    · rcases h.answered j op' reply' hj with hlog | hdirty
      · exact Or.inl (Or.inl hlog)
      · exact Or.inr hdirty
    · exact Or.inl (Or.inr hj)

/-- A read returns what is not committed. -/
theorem leave_dirty (h : Booked s) {k : StoreKey} (hc : s.calls id = some (.get k, pc)) (r : Option Bytes)
    (writerId : ℕ) (writer : StoreOp) : Booked { (s.leave id (.get k) (some (.value r))) with
      dirty := s.dirty ++ [⟨id, k, r, writerId, writer⟩] } where
  kind := fun j op' pc' hj => h.kind j op' pc' (h.inFlight_leave id (.get k) (some (.value r)) hj).2.1
  inFlight := fun j c hj => (h.inFlight_leave id (.get k) (some (.value r)) hj).2.2
  old := by
    intro j hj
    simp only [ModuleStore.leave, List.map_append, List.mem_append, List.map_singleton, List.mem_singleton] at hj ⊢
    rcases hj with hj | hj | rfl
    · exact h.old j (Or.inl hj)
    · exact h.old j (Or.inr hj)
    · exact (h.inFlight j _ hc).1
  once := h.once
  failed := by
    intro j op' hj
    simp only [ModuleStore.leave, List.mem_append, List.mem_singleton, Prod.mk.injEq, reduceCtorEq, and_false,
      or_false] at hj
    exact h.failed j op' hj
  answered := by
    intro j op' reply hj
    simp only [ModuleStore.leave, List.mem_append, List.mem_singleton, Prod.mk.injEq, Option.some.injEq] at hj ⊢
    rcases hj with hj | ⟨rfl, rfl, rfl⟩
    · rcases h.answered j op' reply hj with hlog | ⟨e, hmem, he⟩
      · exact Or.inl hlog
      · exact Or.inr ⟨e, Or.inl hmem, he⟩
    · exact Or.inr ⟨_, Or.inr rfl, rfl, rfl, rfl⟩

end Booked

/-! ## One transaction at a time -/

/-- What an open transaction holds, by the next statement of the call that began it: `c` is committed, `t` is what
the transaction shows, and `n` rows were changed. -/
def Holds (op : StoreOp) (c t : StoreTable) (n : ℕ) : StorePc → Prop
  | .prepare | .step => t = c
  | .changes => t = op.effect c ∧ ∀ k, op = .delete k → n = if (c k).isSome then 1 else 0
  | .commit deleted => t = op.effect c ∧ ∀ k, op = .delete k → deleted = (c k).isSome
  | .rollback => t = c ∨ t = op.effect c
  | .select | .begin => False

/-- The statements that a call runs only inside its transaction. -/
def Inside : StorePc → Prop
  | .prepare | .step | .changes | .commit _ => True
  | .select | .begin | .rollback => False

/-- What a read that was not committed saw: what the open transaction was about to store or delete. -/
def Foreseen (k : StoreKey) (v : Option Bytes) (writer : StoreOp) : Prop :=
  (∃ x, writer = .set k x ∧ v = some x) ∨ (writer = .delete k ∧ v = none)

/-- The log explains what is committed, and an open transaction belongs to one call. -/
structure Serial (db : Sqlite δ φ) (t₀ : StoreTable) (s : ModuleStore δ) : Prop where
  explained : moduleKv.Explains t₀ (s.log.map Prod.snd) (db.view s.db).committed
  rest : s.owner = none → (db.view s.db).working = none
  holder : ∀ id, s.owner = some id → ∃ op pc t, s.calls id = some (op, pc) ∧ (db.view s.db).working = some t ∧
    Holds op (db.view s.db).committed t (db.changes s.db) pc
  inside : ∀ id op pc, s.calls id = some (op, pc) → Inside pc → s.owner = some id

/-- The state in which the read was made: the other call is inside its transaction, which shows what it stores or
deletes, and the read finds that. -/
structure SeenIn (db : Sqlite δ φ) (s : ModuleStore δ) (e : DirtyRead) : Prop where
  reading : s.calls e.id = some (.get e.key, .select)
  writing : (s.calls e.writerId).map Prod.fst = some e.writer
  other : e.writerId ≠ e.id
  owner : s.owner = some e.writerId
  working : (db.view s.db).working = some (e.writer.effect (db.view s.db).committed)
  value : e.value = e.writer.effect (db.view s.db).committed e.key
  uncommitted : e.value ≠ (db.view s.db).committed e.key
  foreseen : Foreseen e.key e.value e.writer

/-- The calls of a run: whoever rolls back has lost its transaction and nobody has begun another one, or its own
transaction ends. -/
def Owned (db : Sqlite δ φ) (s : ModuleStore δ) : Label φ → Prop
  | .advance id outcome ok => (s.calls id).map Prod.snd = some .rollback → s.owner = none ∨
    (s.owner = some id ∧ ok = true ∧ (db.view (db.rollback s.db outcome).1).working.isNone)
  | .call _ => True

namespace Serial

variable {t₀ : StoreTable} {id : ℕ} {op : StoreOp} {pc : StorePc} {outcome : φ} {ok : Bool}

theorem opened {d : δ} (h : (db.view d).working = none) : Serial db (db.view d).committed (opened d) where
  explained := rfl
  rest := fun _ => h
  holder := by simp [ModuleStore.opened]
  inside := by simp [ModuleStore.opened]

/-- A call inside its transaction knows what it holds. -/
theorem held (h : Serial db t₀ s) (hc : s.calls id = some (op, pc)) (hin : Inside pc) : s.owner = some id ∧
    ∃ t, (db.view s.db).working = some t ∧ Holds op (db.view s.db).committed t (db.changes s.db) pc := by
  have howner := h.inside id op pc hc hin
  obtain ⟨op', pc', t, hc', hworking, hholds⟩ := h.holder id howner
  obtain ⟨rfl, rfl⟩ := Prod.mk.inj (Option.some.inj (hc'.symm.trans hc))
  exact ⟨howner, t, hworking, hholds⟩

/-- A call that has not begun a transaction owns none. -/
theorem not_owner (h : Serial db t₀ s) (hc : s.calls id = some (op, pc)) (hpc : pc = .select ∨ pc = .begin) :
    s.owner ≠ some id := by
  intro howner
  obtain ⟨op', pc', t, hc', -, hholds⟩ := h.holder id howner
  obtain ⟨rfl, rfl⟩ := Prod.mk.inj (Option.some.inj (hc'.symm.trans hc))
  rcases hpc with rfl | rfl <;> exact hholds

/-- While a transaction is open, only its owner is inside one. -/
theorem inside_other (h : Serial db t₀ s) {id' j : ℕ} (howner : s.owner = some id') {op' : StoreOp} {pc' : StorePc}
    (hj : s.calls j = some (op', pc')) (hin : Inside pc') : j = id' :=
  (Option.some.inj (howner.symm.trans (h.inside j op' pc' hj hin))).symm

theorem call (h : Serial db t₀ s) (hb : Booked s) (op : StoreOp) : Serial db t₀ (s.call op) where
  explained := h.explained
  rest := h.rest
  holder := by
    intro id howner
    obtain ⟨op', pc, t, hc, hrest⟩ := h.holder id howner
    have hne : id ≠ s.next := Nat.ne_of_lt (hb.inFlight id _ hc).1
    exact ⟨op', pc, t, (Function.update_of_ne hne _ _).trans hc, hrest⟩
  inside := by
    intro id op' pc hc hin
    simp only [ModuleStore.call, Function.update_apply] at hc
    split_ifs at hc with hid
    · cases hc
      cases op <;> exact absurd hin (by simp [firstPc, Inside])
    · exact h.inside id op' pc hc hin

/-- A call that holds no transaction returns. -/
theorem leave (h : Serial db t₀ s) (hc : s.calls id = some (op, pc)) (hnot : s.owner ≠ some id) {d : δ}
    (hview : db.view d = db.view s.db) (hchanges : s.owner ≠ none → db.changes d = db.changes s.db)
    (reply : Option StoreReply) : Serial db t₀ { (s.leave id op reply) with db := d, owner := s.owner } where
  explained := by
    simp only [hview]
    exact h.explained
  rest := by
    simp only [hview]
    exact h.rest
  holder := by
    intro j howner
    obtain ⟨op', pc', t, hj, hworking, hholds⟩ := h.holder j howner
    have hne : j ≠ id := by
      rintro rfl
      exact hnot howner
    have hsame := hchanges fun hnone => Option.some_ne_none j (howner.symm.trans hnone)
    simp only [hview, hsame]
    exact ⟨op', pc', t, (Function.update_of_ne hne _ _).trans hj, hworking, hholds⟩
  inside := by
    intro j op' pc' hj hin
    simp only [ModuleStore.leave, Function.update_apply] at hj
    split_ifs at hj
    exact h.inside j op' pc' hj hin

/-- The owner goes on inside its transaction. -/
theorem goto (h : Serial db t₀ s) (howner : s.owner = some id) {d : δ} {pc' : StorePc} {t : StoreTable}
    (hview : db.view d = ⟨(db.view s.db).committed, some t⟩)
    (hholds : Holds op (db.view s.db).committed t (db.changes d) pc') :
    Serial db t₀ { (s.goto id op pc') with db := d, owner := s.owner } where
  explained := by
    simp only [hview]
    exact h.explained
  rest := fun hnone => absurd (howner.symm.trans hnone) (Option.some_ne_none id)
  holder := by
    intro j hj
    obtain rfl : id = j := Option.some.inj (howner.symm.trans hj)
    simp only [hview]
    exact ⟨op, pc', t, Function.update_self .., rfl, hholds⟩
  inside := by
    intro j op' pc'' hj hin
    simp only [ModuleStore.goto, Function.update_apply] at hj
    split_ifs at hj with hid
    · exact hid ▸ howner
    · exact h.inside j op' pc'' hj hin

/-- The transaction is gone before its owner rolls it back. -/
theorem lost (h : Serial db t₀ s) (howner : s.owner = some id) {d : δ}
    (hview : db.view d = ⟨(db.view s.db).committed, none⟩) :
    Serial db t₀ { (s.goto id op .rollback) with db := d, owner := none } where
  explained := by
    simp only [hview]
    exact h.explained
  rest := fun _ => by simp only [hview]
  holder := nofun
  inside := by
    intro j op' pc' hj hin
    simp only [ModuleStore.goto, Function.update_apply] at hj
    split_ifs at hj with hid
    · cases hj
      exact hin.elim
    · exact absurd (h.inside_other howner hj hin) hid

/-- The owner returns, and its transaction is gone. -/
theorem leave_owner (h : Serial db t₀ s) (howner : s.owner = none ∨ s.owner = some id) {d : δ}
    (hworking : (db.view d).working = none) {log : List (ℕ × StoreOp × StoreReply)} (reply : Option StoreReply)
    (hlog : moduleKv.Explains t₀ (log.map Prod.snd) (db.view d).committed) :
    Serial db t₀ { (s.leave id op reply) with db := d, owner := none, log := log } where
  explained := hlog
  rest := fun _ => hworking
  holder := nofun
  inside := by
    intro j op' pc' hj hin
    simp only [ModuleStore.leave, Function.update_apply] at hj
    split_ifs at hj with hid
    rcases howner with howner | howner
    · exact absurd (howner.symm.trans (h.inside j op' pc' hj hin)) (by simp)
    · exact absurd (h.inside_other howner hj hin) hid

/-- A failed statement leaves the transaction as it was, or ends it. -/
theorem step_failed (h : Serial db t₀ s) (howner : s.owner = some id) {t : StoreTable} {d : δ}
    (hworking : (db.view s.db).working = some t) (ht : t = (db.view s.db).committed ∨
      t = op.effect (db.view s.db).committed)
    (hview : db.view d = db.view s.db ∨ db.view d = ⟨(db.view s.db).committed, none⟩) :
    Serial db t₀ ((s.withDb db d).goto id op .rollback) := by
  rcases hview with hview | hview
  · have howner' : (if (db.view d).working.isNone then none else s.owner) = s.owner := by
      rw [hview, hworking]
      rfl
    have hsame : db.view d = ⟨(db.view s.db).committed, some t⟩ := by
      rw [hview, ← hworking]
    have hstep : Serial db t₀ { (s.goto id op .rollback) with db := d, owner := s.owner } := h.goto howner hsame ht
    rw [← howner'] at hstep
    exact hstep
  · have howner' : (if (db.view d).working.isNone then none else s.owner) = none := by
      rw [hview]
      rfl
    have hstep : Serial db t₀ { (s.goto id op .rollback) with db := d, owner := none } := h.lost howner hview
    rw [← howner'] at hstep
    exact hstep

/-! ### One lemma for each statement -/

/-- An answer that is not committed comes from the open transaction of another call. -/
theorem uncommitted (h : Serial db t₀ s) (hdb : db.Lawful) {k : StoreKey} {r : Option Bytes}
    (hc : s.calls id = some (.get k, .select)) (hselect : db.select s.db outcome k = some r)
    (hdirty : r ≠ (db.view s.db).committed k) : ∃ j op, s.owner = some j ∧ (∃ pc, s.calls j = some (op, pc)) ∧
      SeenIn db s ⟨id, k, r, j, op⟩ := by
  have hr := hdb.select_ok hselect
  cases howner : s.owner with
  | none =>
    rw [h.rest howner] at hr
    exact absurd hr hdirty
  | some j =>
    obtain ⟨op, pc, t, hj, hworking, hholds⟩ := h.holder j howner
    rw [hworking, Option.getD_some] at hr
    have ht : t = op.effect (db.view s.db).committed := by
      have hcases : t = (db.view s.db).committed ∨ t = op.effect (db.view s.db).committed := by
        cases pc with
        | select => exact hholds.elim
        | begin => exact hholds.elim
        | prepare => exact Or.inl hholds
        | step => exact Or.inl hholds
        | changes => exact Or.inr hholds.1
        | commit deleted => exact Or.inr hholds.1
        | rollback => exact hholds
      exact hcases.resolve_left fun hsame => hdirty (by rw [hr, hsame])
    rw [ht] at hr hworking
    have hforeseen : Foreseen k r op := by
      cases op with
      | get k' => exact absurd hr hdirty
      | set k' x =>
        by_cases hk : k = k'
        · subst hk
          exact Or.inl ⟨x, rfl, hr.trans (Function.update_self ..)⟩
        · exact absurd (hr.trans (Function.update_of_ne hk ..)) hdirty
      | delete k' =>
        by_cases hk : k = k'
        · subst hk
          exact Or.inr ⟨rfl, hr.trans (Function.update_self ..)⟩
        · exact absurd (hr.trans (Function.update_of_ne hk ..)) hdirty
    have hne : j ≠ id := by
      rintro rfl
      exact h.not_owner hc (Or.inl rfl) howner
    exact ⟨j, op, rfl, ⟨pc, hj⟩, hc, by rw [hj]; rfl, hne, howner, hworking, hr, hdirty, hforeseen⟩

theorem step_select (h : Serial db t₀ s) (hdb : db.Lawful) (hb : Booked s) {k : StoreKey}
    (hc : s.calls id = some (.get k, .select)) :
    Serial db t₀ (select db s id (.get k) k outcome) ∧ Booked (select db s id (.get k) k outcome) := by
  have hnot := h.not_owner hc (Or.inl rfl)
  have hleave := fun reply => h.leave hc hnot (d := s.db) rfl (fun _ => rfl) reply
  unfold select
  cases hselect : db.select s.db outcome k with
  | none => exact ⟨hleave none, hb.leave_failed hc⟩
  | some r =>
    have hr := hdb.select_ok hselect
    by_cases hclean : r = (db.view s.db).committed k
    · simp only [if_pos hclean]
      refine ⟨{ hleave (some (.value r)) with explained := ?_ }, hb.leave_logged hc (.value r)⟩
      simp only [List.map_append, List.map_singleton]
      refine h.explained.concat ?_
      rw [hclean]
      rfl
    · simp only [if_neg hclean]
      obtain ⟨j, op, howner, ⟨pc, hj⟩, -⟩ := h.uncommitted hdb hc hselect hclean
      have hseen : s.owner.bind (fun j' => (s.calls j').map fun c => DirtyRead.mk id k r j' c.1) =
          some ⟨id, k, r, j, op⟩ := by
        rw [howner, Option.bind_some, hj]
        rfl
      obtain ⟨hexplained, hrest, hholder, hinside⟩ := hleave (some (.value r))
      rw [hseen]
      exact ⟨⟨hexplained, hrest, hholder, hinside⟩, hb.leave_dirty hc r j op⟩

theorem step_begin (h : Serial db t₀ s) (hdb : db.Lawful) (hb : Booked s) (hc : s.calls id = some (op, .begin)) :
    Serial db t₀ (s.advance db id op outcome ok .begin) ∧ Booked (s.advance db id op outcome ok .begin) := by
  have hnot := h.not_owner hc (Or.inr rfl)
  cases ok with
  | false => exact ⟨h.leave hc hnot rfl (fun _ => rfl) none, hb.leave_failed hc⟩
  | true =>
    obtain ⟨⟨d, rc⟩, hbegin⟩ : ∃ p, db.begin s.db outcome = p := ⟨_, rfl⟩
    simp only [advance, hbegin, if_true]
    cases rc with
    | false =>
      obtain ⟨hview, hchanges⟩ := hdb.begin_failed hbegin
      exact ⟨h.leave hc hnot hview (fun _ => hchanges) none, hb.leave_failed hc⟩
    | true =>
      obtain ⟨hworking, hview⟩ := hdb.begin_ok hbegin
      have hnone : s.owner = none := by
        cases howner : s.owner with
        | none => rfl
        | some j =>
          obtain ⟨op', pc', t, -, hopen, -⟩ := h.holder j howner
          exact absurd (hworking.symm.trans hopen) (by simp)
      refine ⟨⟨?_, nofun, ?_, ?_⟩, hb.goto hc (by simp) (by simp)⟩
      · simp only [if_true, hview]
        exact h.explained
      · intro j hj
        obtain rfl : id = j := Option.some.inj hj
        simp only [if_true, hview]
        exact ⟨op, .prepare, _, Function.update_self .., rfl, rfl⟩
      · intro j op' pc' hj hin
        simp only [if_true, ModuleStore.goto, Function.update_apply] at hj
        split_ifs at hj with hid
        · exact congrArg some hid.symm
        · exact absurd (hnone.symm.trans (h.inside j op' pc' hj hin)) (by simp)

theorem step_prepare (h : Serial db t₀ s) (hb : Booked s) (hc : s.calls id = some (op, .prepare)) :
    Serial db t₀ (s.advance db id op outcome ok .prepare) ∧ Booked (s.advance db id op outcome ok .prepare) := by
  obtain ⟨howner, t, hworking, hholds⟩ := h.held hc trivial
  have hview : db.view s.db = ⟨(db.view s.db).committed, some t⟩ := by rw [← hworking]
  cases ok with
  | false => exact ⟨h.goto howner hview (Or.inl hholds), hb.goto hc (by simp) (by simp)⟩
  | true => exact ⟨h.goto howner hview hholds, hb.goto hc (by simp) (by simp)⟩

theorem step_step (h : Serial db t₀ s) (hdb : db.Lawful) (hb : Booked s) (hc : s.calls id = some (op, .step)) :
    Serial db t₀ (s.advance db id op outcome ok .step) ∧ Booked (s.advance db id op outcome ok .step) := by
  obtain ⟨howner, t, hworking, ht⟩ := h.held hc trivial
  obtain ⟨⟨d, rc⟩, hwrite⟩ : ∃ p, db.write s.db outcome op = p := ⟨_, rfl⟩
  cases rc with
  | false =>
    have hadvance : s.advance db id op outcome ok .step = (s.withDb db d).goto id op .rollback := by
      simp only [advance, hwrite, Bool.false_eq_true, if_false]
    rw [hadvance]
    exact ⟨h.step_failed howner hworking (Or.inl ht) (hdb.write_failed hworking hwrite),
      hb.goto hc (by simp) (by simp)⟩
  | true =>
    have hview := hdb.write_ok hworking hwrite
    have howner' : (if (db.view d).working.isNone then none else s.owner) = s.owner := by
      rw [hview]
      rfl
    have hgoto : ∀ pc', Holds op (db.view s.db).committed (op.effect t) (db.changes d) pc' →
        Serial db t₀ ((s.withDb db d).goto id op pc') := by
      intro pc' hholds
      have hstep := h.goto howner hview hholds
      rw [← howner'] at hstep
      exact hstep
    have heffect : op.effect t = op.effect (db.view s.db).committed := congrArg _ ht
    cases op with
    | get k =>
      refine ⟨?_, ?_⟩ <;> simp only [advance, hwrite, if_true]
      · exact hgoto (.commit false) ⟨heffect, nofun⟩
      · exact hb.goto hc (by simp) (by simp)
    | set k v =>
      refine ⟨?_, ?_⟩ <;> simp only [advance, hwrite, if_true]
      · exact hgoto (.commit false) ⟨heffect, nofun⟩
      · exact hb.goto hc (by simp) (by simp)
    | delete k =>
      refine ⟨?_, ?_⟩ <;> simp only [advance, hwrite, if_true]
      · refine hgoto .changes ⟨heffect, fun k' hk => ?_⟩
        obtain rfl := StoreOp.delete.inj hk
        have hchanges := hdb.changes_delete hworking hwrite
        rw [hchanges, show t = (db.view s.db).committed from ht]
      · exact hb.goto hc (by simp) (by simp)

theorem step_changes (h : Serial db t₀ s) (hb : Booked s) (hc : s.calls id = some (op, .changes)) :
    Serial db t₀ (s.advance db id op outcome ok .changes) ∧ Booked (s.advance db id op outcome ok .changes) := by
  obtain ⟨howner, t, hworking, heffect, hcount⟩ := h.held hc trivial
  have hview : db.view s.db = ⟨(db.view s.db).committed, some t⟩ := by rw [← hworking]
  refine ⟨h.goto howner hview ⟨heffect, fun k hk => ?_⟩, hb.goto hc (by simp) (by simp)⟩
  rw [hcount k hk]
  cases (db.view s.db).committed k <;> rfl

theorem step_commit (h : Serial db t₀ s) (hdb : db.Lawful) (hb : Booked s) {deleted : Bool}
    (hc : s.calls id = some (op, .commit deleted)) : Serial db t₀ (s.advance db id op outcome ok (.commit deleted)) ∧
      Booked (s.advance db id op outcome ok (.commit deleted)) := by
  obtain ⟨howner, t, hworking, heffect, hdeleted⟩ := h.held hc trivial
  cases ok with
  | false =>
    have hview : db.view s.db = ⟨(db.view s.db).committed, some t⟩ := by rw [← hworking]
    exact ⟨h.goto howner hview (Or.inr heffect), hb.goto hc (by simp) (by simp)⟩
  | true =>
    obtain ⟨⟨d, rc⟩, hcommit⟩ : ∃ p, db.commit s.db outcome = p := ⟨_, rfl⟩
    cases rc with
    | false =>
      have hadvance : s.advance db id op outcome true (.commit deleted) = (s.withDb db d).goto id op .rollback := by
        simp only [advance, hcommit, Bool.false_eq_true, if_false, if_true]
      rw [hadvance]
      exact ⟨h.step_failed howner hworking (Or.inr heffect) (hdb.commit_failed hcommit),
        hb.goto hc (by simp) (by simp)⟩
    | true =>
      obtain ⟨t', hworking', hview⟩ := hdb.commit_ok hcommit
      obtain rfl : t = t' := Option.some.inj (hworking.symm.trans hworking')
      have hreply : ∃ reply, reply = op.reply (db.view s.db).committed ∧
          s.advance db id op outcome true (.commit deleted) = { (s.leave id op (some reply)) with
            db := d, owner := none, log := s.log ++ [(id, op, reply)] } := by
        have hgone : (if (db.view d).working.isNone then none else s.owner) = none := by
          rw [hview]
          rfl
        cases op with
        | get k =>
          have hkind := (hb.kind id _ _ hc).mpr ⟨k, rfl⟩
          cases hkind
        | set k v =>
          refine ⟨.stored, rfl, ?_⟩
          simp only [advance, hcommit, if_true, withDb, hgone]
          rfl
        | delete k =>
          refine ⟨.deleted deleted, congrArg _ (hdeleted k rfl), ?_⟩
          simp only [advance, hcommit, if_true, withDb, hgone]
          rfl
      obtain ⟨reply, hreply, hadvance⟩ := hreply
      rw [hadvance]
      refine ⟨h.leave_owner (Or.inr howner) (by rw [hview]) (some reply) ?_, hb.leave_logged hc reply⟩
      rw [List.map_append, List.map_singleton]
      refine h.explained.concat ?_
      rw [hview, hreply, heffect]
      rfl

theorem step_rollback (h : Serial db t₀ s) (hdb : db.Lawful) (hb : Booked s)
    (hc : s.calls id = some (op, .rollback)) (hown : s.owner = none ∨
      (s.owner = some id ∧ ok = true ∧ (db.view (db.rollback s.db outcome).1).working.isNone)) :
    Serial db t₀ (s.advance db id op outcome ok .rollback) ∧ Booked (s.advance db id op outcome ok .rollback) := by
  cases ok with
  | false =>
    have hnone : s.owner = none := hown.resolve_right (by simp)
    exact ⟨h.leave hc (by simp [hnone]) rfl (fun _ => rfl) none, hb.leave_failed hc⟩
  | true =>
    obtain ⟨⟨d, rc⟩, hrollback⟩ : ∃ p, db.rollback s.db outcome = p := ⟨_, rfl⟩
    have hview : (db.view d).committed = (db.view s.db).committed ∧ (db.view d).working = none := by
      cases rc with
      | true =>
        rw [hdb.rollback_ok hrollback]
        exact ⟨rfl, rfl⟩
      | false =>
        have hsame := hdb.rollback_failed hrollback
        rcases hown with hnone | ⟨-, -, hgone⟩
        · rw [hsame]
          exact ⟨rfl, h.rest hnone⟩
        · rw [hrollback] at hgone
          exact ⟨by rw [hsame], by simpa using hgone⟩
    have hadvance : s.advance db id op outcome true .rollback =
        { (s.leave id op none) with db := d, owner := none } := by
      have hgone : (if (db.view d).working.isNone then none else s.owner) = none := by
        rw [hview.2]
        rfl
      simp only [advance, hrollback, if_true, withDb, hgone]
      rfl
    rw [hadvance]
    refine ⟨h.leave_owner (hown.imp_right And.left) hview.2 none ?_, hb.leave_failed hc⟩
    rw [hview.1]
    exact h.explained

/-- **Every statement keeps the log an explanation**, whatever SQLite answers. -/
theorem step (h : Serial db t₀ s) (hdb : db.Lawful) (hb : Booked s) {l : Label φ} {s' : ModuleStore δ}
    (hown : Owned db s l) (hs : (moduleStore db).step s l = some s') : Serial db t₀ s' ∧ Booked s' := by
  cases l with
  | call op =>
    obtain rfl := Option.some.inj hs
    exact ⟨h.call hb op, hb.call op⟩
  | advance id outcome ok =>
    obtain ⟨⟨op, pc⟩, hc, rfl⟩ := Option.map_eq_some_iff.mp hs
    cases pc with
    | select =>
      obtain ⟨k, rfl⟩ := (hb.kind id op _ hc).mp rfl
      cases ok with
      | true => exact h.step_select hdb hb hc
      | false =>
        have hnot := h.not_owner hc (Or.inl rfl)
        exact ⟨h.leave hc hnot rfl (fun _ => rfl) none, hb.leave_failed hc⟩
    | begin => exact h.step_begin hdb hb hc
    | prepare => exact h.step_prepare hb hc
    | step => exact h.step_step hdb hb hc
    | changes => exact h.step_changes hb hc
    | commit deleted => exact h.step_commit hdb hb hc
    | rollback => exact h.step_rollback hdb hb hc (hown (by rw [hc]; rfl))

theorem reaches (hdb : db.Lawful) {d : δ} (hd : (db.view d).working = none)
    (h : (moduleStore db).Reaches (Owned db) (ModuleStore.opened d) s) :
    Serial db (db.view d).committed s ∧ Booked s :=
  h.invariant (I := fun s => Serial db (db.view d).committed s ∧ Booked s) ⟨opened hd, Booked.opened d⟩
    fun _ _ _ hI hown hs => hI.1.step hdb hI.2 hown hs

end Serial

/-- Statements take no number. -/
theorem advance_next (db : Sqlite δ φ) (s : ModuleStore δ) (id : ℕ) (op : StoreOp) (outcome : φ) (ok : Bool)
    (pc : StorePc) : (s.advance db id op outcome ok pc).next = s.next := by
  cases pc with
  | select =>
    cases op with
    | get k =>
      simp only [advance, select]
      cases db.select s.db outcome k with
      | none => split_ifs <;> rfl
      | some r =>
        simp only
        split_ifs <;> rfl
    | set k v => rfl
    | delete k => rfl
  | begin =>
    simp only [advance]
    split_ifs <;> rfl
  | prepare => rfl
  | step =>
    simp only [advance]
    split_ifs
    · cases op <;> rfl
    · rfl
  | changes => rfl
  | commit deleted =>
    simp only [advance]
    split_ifs <;> rfl
  | rollback =>
    simp only [advance]
    split_ifs <;> rfl

/-- What a call of this kind can return. -/
def Gives (db : Sqlite δ φ) : StoreOp → StoreReply → Prop
  | .get k, .value r => ∃ d f, db.select d f k = some r
  | .set _ _, .stored | .delete _, .deleted _ => True
  | _, _ => False

/-- A statement of a call leads to its next one, or the call returns. -/
theorem advance_cases (hb : Booked s) {id : ℕ} {op : StoreOp} {pc : StorePc} (hc : s.calls id = some (op, pc))
    (outcome : φ) (ok : Bool) :
    (∃ pc', (s.advance db id op outcome ok pc).calls = Function.update s.calls id (some (op, pc')) ∧
      (s.advance db id op outcome ok pc).returned = s.returned) ∨
    ∃ reply, (s.advance db id op outcome ok pc).calls = Function.update s.calls id none ∧
      (s.advance db id op outcome ok pc).returned = s.returned ++ [(id, op, reply)] ∧
      ∀ r, reply = some r → Gives db op r := by
  have hkind := hb.kind id op pc hc
  cases pc with
  | select =>
    obtain ⟨k, rfl⟩ := hkind.mp rfl
    cases ok with
    | false => exact Or.inr ⟨none, rfl, rfl, nofun⟩
    | true =>
      simp only [advance, if_true, select]
      cases hselect : db.select s.db outcome k with
      | none => exact Or.inr ⟨none, rfl, rfl, nofun⟩
      | some r =>
        refine Or.inr ⟨some (.value r), ?_, ?_, fun r' hr => ?_⟩
        · simp only
          split_ifs <;> rfl
        · simp only
          split_ifs <;> rfl
        · obtain rfl := Option.some.inj hr
          exact ⟨s.db, outcome, hselect⟩
  | begin =>
    simp only [advance]
    split_ifs
    · exact Or.inl ⟨.prepare, rfl, rfl⟩
    · exact Or.inr ⟨none, rfl, rfl, nofun⟩
    · exact Or.inr ⟨none, rfl, rfl, nofun⟩
  | prepare => exact Or.inl ⟨_, rfl, rfl⟩
  | step =>
    simp only [advance]
    split_ifs
    · cases op with
      | get k => exact Or.inl ⟨.commit false, rfl, rfl⟩
      | set k v => exact Or.inl ⟨.commit false, rfl, rfl⟩
      | delete k => exact Or.inl ⟨.changes, rfl, rfl⟩
    · exact Or.inl ⟨.rollback, rfl, rfl⟩
  | changes => exact Or.inl ⟨_, rfl, rfl⟩
  | commit deleted =>
    simp only [advance]
    split_ifs
    · cases op with
      | get k => cases hkind.mpr ⟨k, rfl⟩
      | set k v => exact Or.inr ⟨some .stored, rfl, rfl, fun r hr => Option.some.inj hr ▸ trivial⟩
      | delete k => exact Or.inr ⟨some (.deleted deleted), rfl, rfl, fun r hr => Option.some.inj hr ▸ trivial⟩
    · exact Or.inl ⟨.rollback, rfl, rfl⟩
    · exact Or.inl ⟨.rollback, rfl, rfl⟩
  | rollback =>
    simp only [advance]
    split_ifs <;> exact Or.inr ⟨none, rfl, rfl, nofun⟩

/-- Only a `SELECT` books a read. -/
theorem advance_dirty (s : ModuleStore δ) (id : ℕ) (op : StoreOp) (outcome : φ) (ok : Bool) {pc : StorePc}
    (hpc : pc ≠ .select) : (s.advance db id op outcome ok pc).dirty = s.dirty := by
  cases pc with
  | select => exact absurd rfl hpc
  | begin =>
    simp only [advance]
    split_ifs <;> rfl
  | prepare => rfl
  | step =>
    simp only [advance]
    split_ifs
    · cases op <;> rfl
    · rfl
  | changes => rfl
  | commit deleted =>
    simp only [advance]
    split_ifs <;> rfl
  | rollback =>
    simp only [advance]
    split_ifs <;> rfl

/-- A read that is booked saw the open transaction of another call. -/
theorem Serial.seenIn {t₀ : StoreTable} (h : Serial db t₀ s) (hdb : db.Lawful) (hb : Booked s) {l : Label φ}
    {s' : ModuleStore δ} (hs : (moduleStore db).step s l = some s') {e : DirtyRead} (hno : e ∉ s.dirty)
    (he : e ∈ s'.dirty) : SeenIn db s e ∧ ∃ outcome, l = .advance e.id outcome true := by
  cases l with
  | call op =>
    obtain rfl := Option.some.inj hs
    exact absurd he hno
  | advance id outcome ok =>
    obtain ⟨⟨op, pc⟩, hc, rfl⟩ := Option.map_eq_some_iff.mp hs
    by_cases hpc : pc = .select
    · subst hpc
      obtain ⟨k, rfl⟩ := (hb.kind id op _ hc).mp rfl
      cases ok with
      | false => exact absurd he hno
      | true =>
        simp only [advance, if_true, select] at he
        cases hselect : db.select s.db outcome k with
        | none =>
          rw [hselect] at he
          exact absurd he hno
        | some r =>
          simp only [hselect] at he
          by_cases hclean : r = (db.view s.db).committed k
          · rw [if_pos hclean] at he
            exact absurd he hno
          · rw [if_neg hclean] at he
            obtain ⟨j, op, howner, ⟨pc, hj⟩, hseen⟩ := h.uncommitted hdb hc hselect hclean
            simp only [howner, Option.bind_some, hj, Option.map_some, Option.toList_some, List.mem_append,
              List.mem_singleton, hno, false_or] at he
            subst he
            exact ⟨hseen, outcome, rfl⟩
    · rw [advance_dirty s id op outcome ok hpc] at he
      exact absurd he hno

/-- A run from `d` to `s` has a step in which the read `e` saw the transaction of another call. -/
def SeenBefore (db : Sqlite δ φ) (d : δ) (s : ModuleStore δ) (e : DirtyRead) : Prop :=
  ∃ s₁ outcome s₂, (moduleStore db).Reaches (Owned db) (ModuleStore.opened d) s₁ ∧ SeenIn db s₁ e ∧
    (moduleStore db).step s₁ (.advance e.id outcome true) = some s₂ ∧ e ∈ s₂.dirty ∧
    (moduleStore db).Reaches (Owned db) s₂ s

theorem seen_of_reaches (hdb : db.Lawful) {d : δ} (hd : (db.view d).working = none)
    (h : (moduleStore db).Reaches (Owned db) (ModuleStore.opened d) s) {e : DirtyRead} (he : e ∈ s.dirty) :
    SeenBefore db d s e := by
  obtain ⟨s₁, l, s₂, hpre, hno, -, hs, he₂, hpost⟩ := h.born (B := fun s => e ∈ s.dirty) List.not_mem_nil he
  obtain ⟨hserial, hbooked⟩ := Serial.reaches hdb hd hpre
  obtain ⟨hseen, outcome, rfl⟩ := hserial.seenIn hdb hbooked hs hno he₂
  exact ⟨s₁, outcome, s₂, hpre, hseen, hs, he₂, hpost⟩

instance (db : Sqlite δ φ) (s : ModuleStore δ) : ∀ l, Decidable (Owned db s l)
  | .advance id _ _ => inferInstanceAs (Decidable ((s.calls id).map Prod.snd = some .rollback → _))
  | .call _ => inferInstanceAs (Decidable True)

/-! ## A transaction that nobody owns -/

/-- While a transaction is open that nobody will end, calls do not get past their first statement. -/
structure Blocked (db : Sqlite δ φ) (v : StoreView) (before : List (ℕ × StoreOp × Option StoreReply)) (t : StoreTable)
    (s : ModuleStore δ) : Prop where
  view : db.view s.db = v
  first : ∀ id op pc, s.calls id = some (op, pc) → pc = firstPc op
  returned : ∃ later, s.returned = before ++ later ∧
    ∀ e ∈ later, e.2.2 = none ∨ ∃ k, e.2.1 = .get k ∧ e.2.2 = some (.value (t k))

namespace Blocked

variable {v : StoreView} {before : List (ℕ × StoreOp × Option StoreReply)} {t : StoreTable} {id : ℕ} {op : StoreOp}

theorem leave (h : Blocked db v before t s) {reply : Option StoreReply} {d : δ} (hview : db.view d = db.view s.db)
    (hreply : reply = none ∨ ∃ k, op = .get k ∧ reply = some (.value (t k))) {owner : Option ℕ}
    {log : List (ℕ × StoreOp × StoreReply)} {dirty : List DirtyRead} :
    Blocked db v before t { (s.leave id op reply) with db := d, owner := owner, log := log, dirty := dirty } where
  view := hview.trans h.view
  first := by
    intro j op' pc hj
    simp only [ModuleStore.leave, Function.update_apply] at hj
    split_ifs at hj
    exact h.first j op' pc hj
  returned := by
    obtain ⟨later, hlater, hall⟩ := h.returned
    refine ⟨later ++ [(id, op, reply)], ?_, fun e he => ?_⟩
    · simp only [ModuleStore.leave, hlater, List.append_assoc]
    · rcases List.mem_append.mp he with he | he
      · exact hall e he
      · rw [List.mem_singleton.mp he]
        exact hreply

theorem step (h : Blocked db v before t s) (hdb : db.Lawful) (hopen : v.working = some t) {l : Label φ}
    {s' : ModuleStore δ} (hs : (moduleStore db).step s l = some s') : Blocked db v before t s' := by
  cases l with
  | call op =>
    obtain rfl := Option.some.inj hs
    refine ⟨h.view, fun j op' pc hj => ?_, h.returned⟩
    simp only [ModuleStore.call, Function.update_apply] at hj
    split_ifs at hj
    · cases hj
      rfl
    · exact h.first j op' pc hj
  | advance id outcome ok =>
    obtain ⟨⟨op, pc⟩, hc, rfl⟩ := Option.map_eq_some_iff.mp hs
    obtain rfl := h.first id op pc hc
    have hworking : (db.view s.db).working = some t := by rw [h.view, hopen]
    have hbegin : Blocked db v before t (s.advance db id op outcome ok .begin) := by
      cases ok with
      | false => exact h.leave rfl (Or.inl rfl)
      | true =>
        obtain ⟨⟨d, rc⟩, hrc⟩ : ∃ p, db.begin s.db outcome = p := ⟨_, rfl⟩
        simp only [advance, hrc, if_true]
        cases rc with
        | true => exact absurd (hworking.symm.trans (hdb.begin_ok hrc).1) (by simp)
        | false => exact h.leave (hdb.begin_failed hrc).1 (Or.inl rfl)
    cases op with
    | get k =>
      simp only [firstPc, advance]
      cases ok with
      | false => exact h.leave rfl (Or.inl rfl)
      | true =>
        simp only [if_true, select]
        cases hselect : db.select s.db outcome k with
        | none => exact h.leave rfl (Or.inl rfl)
        | some r =>
          have hr := hdb.select_ok hselect
          rw [hworking, Option.getD_some] at hr
          have hreply : some (StoreReply.value r) = none ∨
              ∃ k', StoreOp.get k = .get k' ∧ some (StoreReply.value r) = some (.value (t k')) :=
            Or.inr ⟨k, rfl, by rw [hr]⟩
          simp only
          split_ifs <;> exact h.leave rfl hreply
    | set k x => exact hbegin
    | delete k => exact hbegin

end Blocked

end ModuleStore

/-! ## Theorems -/

section Theorems

variable {δ φ : Type} {db : Sqlite δ φ}

/-- **Calls on the shared connection are serial**: in every run of any number of calls in which nobody rolls back a
transaction of another call or fails to end its own, the calls that took effect, made one after another on the table
that was opened, give the committed table and the answers that were returned; each took effect once, a call that
returned an error took none, and an answer that is not explained is that of a read which, at its step of the run, saw
what another call had stored or deleted in its open transaction.  When no call is in flight no transaction is open. -/
theorem module_store_serial (hdb : db.Lawful) (d : δ) (hd : (db.view d).working = none) (s : ModuleStore δ)
    (h : (moduleStore db).Reaches (ModuleStore.Owned db) (ModuleStore.opened d) s) :
    moduleKv.Explains (db.view d).committed (s.log.map Prod.snd) (db.view s.db).committed ∧
      (s.log.map Prod.fst).Nodup ∧ (∀ id op, (id, op, none) ∈ s.returned → id ∉ s.log.map Prod.fst) ∧
      (∀ id op reply, (id, op, some reply) ∈ s.returned → (id, op, reply) ∈ s.log ∨
        ∃ e ∈ s.dirty, e.id = id ∧ op = .get e.key ∧ reply = .value e.value ∧ ModuleStore.SeenBefore db d s e) ∧
      ((∀ id, s.calls id = none) → (db.view s.db).working = none) := by
  obtain ⟨hserial, hbooked⟩ := ModuleStore.Serial.reaches hdb hd h
  refine ⟨hserial.explained, hbooked.once, hbooked.failed, fun id op reply hmem => ?_, fun hidle => ?_⟩
  · rcases hbooked.answered id op reply hmem with hlog | ⟨e, hdirty, hid, hop, hreply⟩
    · exact Or.inl hlog
    · exact Or.inr ⟨e, hdirty, hid, hop, hreply, ModuleStore.seen_of_reaches hdb hd h hdirty⟩
  · refine hserial.rest ?_
    cases howner : s.owner with
    | none => rfl
    | some id =>
      obtain ⟨op, pc, t, hc, -⟩ := hserial.holder id howner
      exact absurd ((hidle id).symm.trans hc) (by simp)

/-- A connection to an empty table. -/
def emptyConnection : StoreView × ℕ := (⟨fun _ => none, none⟩, 0)

/-- A read inside the transaction of a `set`, a `delete` that cannot begin, and one that comes later. -/
theorem module_store_serial_interleaved :
    let k : StoreKey := ⟨[110], [109], [107]⟩
    let run : List (ModuleStore.Label Sqlite.Outcome) := [.call (.set k [1]), .call (.get k), .call (.delete k),
      .advance 0 .ok true, .advance 0 .ok true, .advance 0 .ok true, .advance 1 .ok true, .advance 2 .ok true,
      .advance 0 .ok true, .call (.delete k), .advance 3 .ok true, .advance 3 .ok true, .advance 3 .ok true,
      .advance 3 .ok true, .advance 3 .ok true]
    ∃ s, (moduleStore Sqlite.reference).runAllowed (ModuleStore.Owned Sqlite.reference)
        (ModuleStore.opened emptyConnection) run = some s ∧
      s.returned = [(1, .get k, some (.value (some [1]))), (2, .delete k, none), (0, .set k [1], some .stored),
        (3, .delete k, some (.deleted true))] ∧ (s.log.map Prod.fst).Nodup := by
  intro k run
  have hrun : ((moduleStore Sqlite.reference).runAllowed (ModuleStore.Owned Sqlite.reference)
      (ModuleStore.opened emptyConnection) run).map ModuleStore.returned = some
        [(1, .get k, some (.value (some [1]))), (2, .delete k, none), (0, .set k [1], some .stored),
          (3, .delete k, some (.deleted true))] := by decide
  obtain ⟨s, hs, hreturned⟩ := Option.map_eq_some_iff.mp hrun
  have hserial := module_store_serial Sqlite.reference_lawful emptyConnection rfl s (Machine.reaches_of_runAllowed hs)
  exact ⟨s, hs, hreturned, hserial.2.1⟩

/-- Outside these runs: an error ends the transaction of a `set`, another call begins its own, and the first rolls that
one back; what the second stores then is committed, and it returns an error. -/
theorem foreign_rollback :
    let k : StoreKey := ⟨[110], [109], [107]⟩
    let run : List (ModuleStore.Label Sqlite.Outcome) := [.call (.set k [1]), .call (.set k [2]), .advance 0 .ok true,
      .advance 0 .ok true, .advance 0 .rolledBack true, .advance 1 .ok true, .advance 1 .ok true,
      .advance 0 .ok true, .advance 1 .ok true, .advance 1 .ok true, .advance 1 .ok true]
    (run.foldlM (moduleStore Sqlite.reference).step (ModuleStore.opened emptyConnection)).map
        (fun s => (s.returned, s.db.1.committed k)) =
      some ([(0, .set k [1], none), (1, .set k [2], none)], some [2]) := by
  decide

/-- **A transaction that is left open blocks the store**: if no call is in flight and a transaction is open, then in
every run from there nothing is committed, every `set` and `delete` fails, and every read that succeeds returns the
rows of that transaction, which the file does not have. -/
theorem abandoned_transaction_blocks (hdb : db.Lawful) (s₀ s : ModuleStore δ) (t : StoreTable)
    (hopen : (db.view s₀.db).working = some t) (hidle : ∀ id, s₀.calls id = none)
    (h : (moduleStore db).Reaches (fun _ _ => True) s₀ s) :
    db.view s.db = db.view s₀.db ∧ ∃ later, s.returned = s₀.returned ++ later ∧
      ∀ e ∈ later, e.2.2 = none ∨ ∃ k, e.2.1 = .get k ∧ e.2.2 = some (.value (t k)) := by
  have hstart : ModuleStore.Blocked db (db.view s₀.db) s₀.returned t s₀ :=
    ⟨rfl, fun id op pc hc => absurd ((hidle id).symm.trans hc) (by simp), [], by simp, by simp⟩
  have hblocked : ModuleStore.Blocked db (db.view s₀.db) s₀.returned t s :=
    h.invariant hstart fun _ _ _ hI _ hs => hI.step hdb hopen hs
  exact ⟨hblocked.view, hblocked.returned⟩

/-- Such a state: the `COMMIT` of a `set` fails, and the memory for its `ROLLBACK` is refused. -/
theorem abandoned_transaction_blocks_example :
    let k : StoreKey := ⟨[110], [109], [107]⟩
    let run : List (ModuleStore.Label Sqlite.Outcome) := [.call (.set k [1]), .advance 0 .ok true, .advance 0 .ok true,
      .advance 0 .ok true, .advance 0 .failed true, .advance 0 .ok false]
    let later : List (ModuleStore.Label Sqlite.Outcome) := [.call (.delete k), .advance 1 .ok true, .call (.get k),
      .advance 2 .ok true]
    ∃ s₀ s, run.foldlM (moduleStore Sqlite.reference).step (ModuleStore.opened emptyConnection) = some s₀ ∧
      later.foldlM (moduleStore Sqlite.reference).step s₀ = some s ∧
      Sqlite.reference.view s.db = Sqlite.reference.view s₀.db ∧ s₀.db.1.committed k = none ∧
      s.returned = s₀.returned ++ [(1, .delete k, none), (2, .get k, some (.value (some [1])))] := by
  intro k run later
  have hrun : ∃ s₀, run.foldlM (moduleStore Sqlite.reference).step (ModuleStore.opened emptyConnection) = some s₀ ∧
      s₀.db = (⟨fun _ => none, some (Function.update (fun _ => none) k (some [1]))⟩, 1) ∧
      (∀ id, s₀.calls id = none) ∧ (later.foldlM (moduleStore Sqlite.reference).step s₀).map ModuleStore.returned =
        some (s₀.returned ++ [(1, .delete k, none), (2, .get k, some (.value (some [1])))]) := by
    refine ⟨_, rfl, rfl, fun id => ?_, rfl⟩
    cases id with
    | zero => rfl
    | succ n => rfl
  obtain ⟨s₀, hs₀, hdb, hidle, hlater⟩ := hrun
  obtain ⟨s, hs, hreturned⟩ := Option.map_eq_some_iff.mp hlater
  have hopen : (Sqlite.reference.view s₀.db).working = some (Function.update (fun _ => none) k (some [1])) := by
    rw [hdb]
    rfl
  have hblocked := abandoned_transaction_blocks Sqlite.reference_lawful s₀ s _ hopen hidle
    (Machine.reaches_of_foldlM (fun _ _ _ => trivial) hs)
  exact ⟨s₀, s, hs₀, hs, hblocked.1, by rw [hdb], hreturned⟩

end Theorems

end Slung
