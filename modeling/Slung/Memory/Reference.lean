import Slung.Memory.Merge
import Slung.Primitives.Bloom

/-!
# Slung.Memory.Reference — the store is a plain map (`memory/lww.zig`)

The reference is a finite map without a filter.  Any sequence of calls on the store, whatever the hash function
and whichever allocations fail, gives the results that the reference gives (`LwwRegistry.run_reference`), so the
filter never hides a key.
-/

namespace Slung

open Slung.Lib

namespace LwwRegistry

variable {hash : Bytes → ℕ}

/-- Number of keys currently held. -/
def count (self : LwwRegistry hash) : ℕ := self.entries.keys.card

/-- `merge` puts the remote entries into the store itself: what it put before a failure stays. -/
def mergeInto (fault : Bytes → Option PutAlloc) (self : LwwRegistry hash) :
    List (Bytes × Entry) → LwwRegistry hash × Except Err Unit
  | [] => (self, .ok ())
  | (key, remoteEntry) :: items =>
    match self.put (fault key) key remoteEntry.hlc remoteEntry.value remoteEntry.cause with
    | .error e => (self, .error e)
    | .ok (self, _) => self.mergeInto fault items

theorem mergeItems_eq (fault : Bytes → Option PutAlloc) (self : LwwRegistry hash) (items : List (Bytes × Entry)) :
    self.mergeItems fault items = (self.mergeInto fault items).2.map fun _ => (self.mergeInto fault items).1 := by
  induction items generalizing self with
  | nil => rfl
  | cons item items ih =>
    obtain ⟨key, entry⟩ := item
    cases hput : self.put (fault key) key entry.hlc entry.value entry.cause with
    | error e =>
      simp only [mergeItems, mergeInto, hput]
      rfl
    | ok stored =>
      simp only [mergeItems, mergeInto, hput]
      exact ih stored.1

/-! ## The calls -/

variable (hash) in
inductive Call where
  | put (fault : Option PutAlloc) (key : Bytes) (hlc : Timestamp) (value : Value) (cause : CausalTag)
  | get (key : Bytes)
  | remove (key : Bytes)
  | rollbackPut (key : Bytes) (timestamp : Timestamp) (previous : Option Entry)
  | count
  /-- the entries of `other`, in the order of the iteration -/
  | merge (fault : Bytes → Option PutAlloc) (other : LwwRegistry hash) (it : Iteration other.entries)

inductive Result where
  | put (accepted : Except Err Bool)
  | get (entry : Option Entry)
  | remove (existed : Bool)
  | rollbackPut (result : Except Err Unit)
  | count (n : ℕ)
  | merge (result : Except Err Unit)

/-- One call; a call that fails leaves the store as it was, a merge with the keys before the failure. -/
def call (self : LwwRegistry hash) : Call hash → LwwRegistry hash × Result
  | .put fault key hlc value cause =>
    match self.put fault key hlc value cause with
    | .error e => (self, .put (.error e))
    | .ok (self, accepted) => (self, .put (.ok accepted))
  | .get key => (self, .get (self.get key))
  | .remove key => ((self.remove key).1, .remove (self.remove key).2)
  | .rollbackPut key timestamp previous =>
    match self.rollbackPut key timestamp previous with
    | .error e => (self, .rollbackPut (.error e))
    | .ok self => (self, .rollbackPut (.ok ()))
  | .count => (self, .count self.count)
  | .merge fault _ it => ((self.mergeInto fault it.items).1, .merge (self.mergeInto fault it.items).2)

def run (self : LwwRegistry hash) : List (Call hash) → LwwRegistry hash × List Result
  | [] => (self, [])
  | c :: calls =>
    let (self, result) := self.call c
    let (self, results) := self.run calls
    (self, result :: results)

/-! ## The reference -/

namespace Reference

/-- Does the write need the memory that is not there? -/
def lacksMemory (fault : Option PutAlloc) (m : FMap Bytes Entry) (key : Bytes) (value : Value) : Bool :=
  (fault == some .value && allocates value) ||
    ((m.lookup key).isNone && (fault == some .key || fault == some .entry))

/-- Accepts iff the key is absent or the timestamp is strictly greater. -/
def put (fault : Option PutAlloc) (m : FMap Bytes Entry) (key : Bytes) (entry : Entry) :
    FMap Bytes Entry × Except Err Bool :=
  if lacksMemory fault m key entry.value then (m, .error .outOfMemory)
  else (write Entry.hlc m key entry, .ok (accepts Entry.hlc m key entry))

/-- Restores the snapshot or removes the key iff the current timestamp is the given one. -/
def rollbackPut (m : FMap Bytes Entry) (key : Bytes) (timestamp : Timestamp) (previous : Option Entry) :
    FMap Bytes Entry × Except Err Unit :=
  match m.lookup key with
  | none => (m, .error .rollbackTargetMissing)
  | some current =>
    if current.hlc = timestamp then
      match previous with
      | some old => (m.insert key old, .ok ())
      | none => (m.erase key, .ok ())
    else (m, .error .rollbackTargetChanged)

def merge (fault : Bytes → Option PutAlloc) (m : FMap Bytes Entry) :
    List (Bytes × Entry) → FMap Bytes Entry × Except Err Unit
  | [] => (m, .ok ())
  | (key, entry) :: items =>
    match put (fault key) m key entry with
    | (m, .error e) => (m, .error e)
    | (m, .ok _) => merge fault m items

def call (m : FMap Bytes Entry) : Call hash → FMap Bytes Entry × Result
  | .put fault key hlc value cause =>
    ((put fault m key ⟨hlc, value, cause⟩).1, .put (put fault m key ⟨hlc, value, cause⟩).2)
  | .get key => (m, .get (m.lookup key))
  | .remove key => (m.erase key, .remove (m.lookup key).isSome)
  | .rollbackPut key timestamp previous =>
    ((rollbackPut m key timestamp previous).1, .rollbackPut (rollbackPut m key timestamp previous).2)
  | .count => (m, .count m.keys.card)
  | .merge fault _ it => ((merge fault m it.items).1, .merge (merge fault m it.items).2)

def run (m : FMap Bytes Entry) : List (Call hash) → FMap Bytes Entry × List Result
  | [] => (m, [])
  | c :: calls =>
    let (m, result) := call m c
    let (m, results) := run m calls
    (m, result :: results)

end Reference

/-! ## Every call does what the reference does -/

/-- The filter of a later store has seen more keys. -/
def Indexes (self later : LwwRegistry hash) : Prop :=
  ∃ keys : List Bytes, later.bloom = keys.foldl (Bloom.insert hash) self.bloom

theorem Indexes.refl (self : LwwRegistry hash) : self.Indexes self := ⟨[], rfl⟩

theorem Indexes.of_eq {self later : LwwRegistry hash} (h : later.bloom = self.bloom) : self.Indexes later := ⟨[], h⟩

theorem Indexes.trans {self later latest : LwwRegistry hash} (h : self.Indexes later) (h' : later.Indexes latest) :
    self.Indexes latest := by
  obtain ⟨keys, hkeys⟩ := h
  obtain ⟨keys', hkeys'⟩ := h'
  exact ⟨keys ++ keys', by rw [hkeys', hkeys, List.foldl_append]⟩

/-- A put is a put of the reference. -/
theorem put_reference (fault : Option PutAlloc) (self : LwwRegistry hash) (key : Bytes) (hlc : Timestamp)
    (value : Value) (cause : CausalTag) :
    (∃ e, self.put fault key hlc value cause = .error e ∧
        Reference.put fault self.entries key ⟨hlc, value, cause⟩ = (self.entries, .error e)) ∨
      ∃ store accepted, self.put fault key hlc value cause = .ok (store, accepted) ∧
        Reference.put fault self.entries key ⟨hlc, value, cause⟩ = (store.entries, .ok accepted) ∧
        self.Indexes store := by
  unfold put Reference.put Reference.lacksMemory
  by_cases hvalue : fault = some .value ∧ allocates value = true
  · left
    refine ⟨.outOfMemory, if_pos hvalue, if_pos ?_⟩
    rw [hvalue.1]
    simp [hvalue.2]
  have hnoValue : (fault == some .value && allocates value) = false := by
    rw [Bool.and_eq_false_iff, beq_eq_false_iff_ne]
    by_cases hfault : fault = some .value
    · exact Or.inr (Bool.eq_false_iff.mpr fun h => hvalue ⟨hfault, h⟩)
    · exact Or.inl hfault
  rw [if_neg hvalue, hnoValue, Bool.false_or]
  split
  · rename_i existing hlookup
    have hpresent : ((self.entries.lookup key).isNone && (fault == some .key || fault == some .entry)) = false := by
      rw [hlookup, Option.isNone_some, Bool.false_and]
    rw [hpresent, if_neg Bool.false_ne_true]
    right
    by_cases hc : hlc.compare existing.hlc ≠ .gt
    · rw [if_pos hc]
      rw [Ne, Timestamp.compare_eq_gt, not_lt] at hc
      refine ⟨self, false, rfl, ?_, .refl self⟩
      rw [write_of_ge hlookup hc, accepts_of_lookup hlookup, decide_eq_false (not_lt.mpr hc)]
    · rw [if_neg hc]
      have hnew : existing.hlc < hlc := Timestamp.compare_eq_gt.mp (not_not.mp hc)
      have haccepts : accepts Entry.hlc self.entries key ⟨hlc, value, cause⟩ = true := by
        rw [accepts_of_lookup hlookup, decide_eq_true hnew]
      refine ⟨_, true, rfl, ?_, .of_eq rfl⟩
      rw [write_of_accepts haccepts, haccepts, entries_update]
  · rename_i hlookup
    have habsent : ((self.entries.lookup key).isNone && (fault == some .key || fault == some .entry)) =
        (fault == some .key || fault == some .entry) := by
      rw [hlookup, Option.isNone_none, Bool.true_and]
    rw [habsent]
    by_cases hk : fault = some .key ∨ fault = some .entry
    · left
      refine ⟨.outOfMemory, if_pos hk, if_pos ?_⟩
      rcases hk with rfl | rfl <;> rfl
    · right
      have hneither : (fault == some .key || fault == some .entry) = false := by
        rw [Bool.or_eq_false_iff, beq_eq_false_iff_ne, beq_eq_false_iff_ne]
        exact not_or.mp hk
      have haccepts : accepts Entry.hlc self.entries key ⟨hlc, value, cause⟩ = true := accepts_of_absent hlookup
      rw [if_neg hk, hneither, if_neg Bool.false_ne_true]
      refine ⟨_, true, rfl, ?_, [key], rfl⟩
      rw [write_of_accepts haccepts, haccepts, entries_add]

/-- A merge stops where the reference stops. -/
theorem mergeInto_reference (fault : Bytes → Option PutAlloc) (self : LwwRegistry hash)
    (items : List (Bytes × Entry)) :
    ((self.mergeInto fault items).1.entries, (self.mergeInto fault items).2) =
      Reference.merge fault self.entries items ∧ self.Indexes (self.mergeInto fault items).1 := by
  induction items generalizing self with
  | nil => exact ⟨rfl, .refl self⟩
  | cons item items ih =>
    obtain ⟨key, entry⟩ := item
    rcases self.put_reference (fault key) key entry.hlc entry.value entry.cause with
      ⟨e, hput, href⟩ | ⟨store, accepted, hput, href, hindexes⟩
    · simp only [mergeInto, Reference.merge, hput, href]
      exact ⟨trivial, .refl self⟩
    · simp only [mergeInto, Reference.merge, hput, href]
      exact ⟨(ih store).1, hindexes.trans (ih store).2⟩

/-- A rollback restores what the reference restores. -/
theorem rollbackPut_reference (self : LwwRegistry hash) (key : Bytes) (timestamp : Timestamp)
    (previous : Option Entry) :
    (∃ e, self.rollbackPut key timestamp previous = .error e ∧
        Reference.rollbackPut self.entries key timestamp previous = (self.entries, .error e)) ∨
      ∃ store, self.rollbackPut key timestamp previous = .ok store ∧
        Reference.rollbackPut self.entries key timestamp previous = (store.entries, .ok ()) ∧
        self.Indexes store := by
  unfold rollbackPut Reference.rollbackPut
  split
  · rename_i hlookup
    rw [hlookup]
    exact Or.inl ⟨_, rfl, rfl⟩
  · rename_i current hlookup
    simp only [hlookup, ne_eq, Timestamp.compare_eq_eq]
    by_cases hc : current.hlc = timestamp
    · right
      rw [if_neg (not_not.mpr hc), if_pos hc]
      cases previous with
      | some old => exact ⟨_, rfl, rfl, .of_eq rfl⟩
      | none => exact ⟨_, rfl, by rw [entries_remove], .of_eq (self.bloom_remove key)⟩
    · rw [if_pos hc, if_neg hc]
      exact Or.inl ⟨_, rfl, rfl⟩

/-- **One call does what the reference does.** -/
theorem call_reference (self : LwwRegistry hash) (c : Call hash) :
    ((self.call c).1.entries, (self.call c).2) = Reference.call self.entries c ∧ self.Indexes (self.call c).1 := by
  cases c with
  | put fault key hlc value cause =>
    rcases self.put_reference fault key hlc value cause with
      ⟨e, hput, href⟩ | ⟨store, accepted, hput, href, hindexes⟩
    · simp only [call, Reference.call, hput, href]
      exact ⟨trivial, .refl self⟩
    · simp only [call, Reference.call, hput, href]
      exact ⟨trivial, hindexes⟩
  | get key =>
    simp only [call, Reference.call, get_eq]
    exact ⟨trivial, .refl self⟩
  | remove key =>
    simp only [call, Reference.call, entries_remove, remove_eq]
    exact ⟨trivial, .of_eq (self.bloom_remove key)⟩
  | rollbackPut key timestamp previous =>
    rcases self.rollbackPut_reference key timestamp previous with
      ⟨e, hput, href⟩ | ⟨store, hput, href, hindexes⟩
    · simp only [call, Reference.call, hput, href]
      exact ⟨trivial, .refl self⟩
    · simp only [call, Reference.call, hput, href]
      exact ⟨trivial, hindexes⟩
  | count => exact ⟨rfl, .refl self⟩
  | merge fault other it =>
    obtain ⟨hmerge, hindexes⟩ := self.mergeInto_reference fault it.items
    simp only [call, Reference.call, ← hmerge]
    exact ⟨trivial, hindexes⟩

/-- So does a sequence of calls. -/
theorem run_reference (self : LwwRegistry hash) (calls : List (Call hash)) :
    ((self.run calls).1.entries, (self.run calls).2) = Reference.run self.entries calls ∧
      self.Indexes (self.run calls).1 := by
  induction calls generalizing self with
  | nil => exact ⟨rfl, .refl self⟩
  | cons c calls ih =>
    obtain ⟨hcall, hindexes⟩ := self.call_reference c
    obtain ⟨hrest, hindexes'⟩ := ih (self.call c).1
    refine ⟨?_, hindexes.trans hindexes'⟩
    simp only [run, Reference.run, ← hcall, ← hrest]

/-- **The store with its filter is a plain map**: any calls on an empty store give the results of the reference,
and leave its entries; the bytes of a filter that was given the keys of the store answer as its filter does. -/
theorem plain_map (hash : Bytes → ℕ) (calls : List (Call hash)) :
    ((init : LwwRegistry hash).run calls).2 = (Reference.run ∅ calls).2 ∧
      (∀ key, ((init : LwwRegistry hash).run calls).1.get key = (Reference.run ∅ calls).1.lookup key) ∧
      ((init : LwwRegistry hash).run calls).1.count = (Reference.run ∅ calls).1.keys.card ∧
      ∃ keys : List Bytes, ∀ key,
        (keys.foldl (BloomImpl.insert hash) (BloomImpl.init : BloomImpl 4096)).contains hash key =
          ((init : LwwRegistry hash).run calls).1.bloom.contains hash key := by
  obtain ⟨hrun, keys, hkeys⟩ := (init : LwwRegistry hash).run_reference calls
  obtain ⟨hentries, hresults⟩ := Prod.mk.inj hrun
  refine ⟨hresults, fun key => ?_, congrArg (fun m => m.keys.card) hentries, keys, fun key => ?_⟩
  · rw [get_eq, hentries]
    rfl
  · rw [BloomImpl.contains_abstract, BloomImpl.abstract_foldl_insert hash (by decide), BloomImpl.abstract_init, hkeys]
    rfl

end LwwRegistry

end Slung
