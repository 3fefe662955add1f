import Slung.Lib.Bloom
import Slung.Lib.UndoLog
import Slung.Primitives.Hlc

/-!
# Slung.Memory.Lww — the in-memory last-writer-wins store (`memory/lww.zig`)

The cache that rules read and write.  A Bloom filter in front of the map answers definite misses; the registry
carries the fact that it knows every key of the map, so `get` is a lookup (`get_eq`).  As in
`Slung.Wal.State`, a function that allocates takes the allocation that fails.
-/

namespace Slung

open Slung.Lib

namespace LwwRegistry

structure Entry where
  hlc : Timestamp
  value : Value
  cause : CausalTag
deriving DecidableEq, Repr

inductive Err where
  | outOfMemory
  | rollbackTargetMissing
  | rollbackTargetChanged
deriving DecidableEq, Repr

/-- The allocations of `put`. -/
inductive PutAlloc where
  | value | key | entry
deriving DecidableEq, Repr

end LwwRegistry

/-- The entries, with a filter that knows all their keys. -/
structure LwwRegistry (hash : Bytes → ℕ) where
  entries : FMap Bytes LwwRegistry.Entry
  bloom : Bloom 4096
  indexed : ∀ key, (entries.lookup key).isSome → bloom.contains hash key = true

namespace LwwRegistry

variable {hash : Bytes → ℕ}

def init : LwwRegistry hash := ⟨∅, Bloom.init, by simp⟩

/-- An update of a key that is there. -/
def update (self : LwwRegistry hash) (key : Bytes) (entry : Entry) (h : (self.entries.lookup key).isSome) :
    LwwRegistry hash where
  entries := self.entries.insert key entry
  bloom := self.bloom
  indexed := by
    intro key' h'
    rw [FMap.lookup_insert_eq] at h'
    by_cases heq : key' = key
    · exact heq ▸ self.indexed key h
    · rw [if_neg heq] at h'
      exact self.indexed key' h'

/-- A key that is not there yet. -/
def add (self : LwwRegistry hash) (key : Bytes) (entry : Entry) : LwwRegistry hash where
  entries := self.entries.insert key entry
  bloom := self.bloom.insert hash key
  indexed := by
    intro key' h'
    rw [FMap.lookup_insert_eq] at h'
    by_cases heq : key' = key
    · exact heq ▸ Bloom.contains_insert_self hash self.bloom key
    · rw [if_neg heq] at h'
      exact Bloom.contains_insert hash (self.indexed key' h') key

/-- Does duplicating the value allocate? -/
def allocates : Value → Bool
  | .bytes _ => true
  | _ => false

/-- Insert or update a key if its timestamp is after the stored one; `false` if it is not. -/
def put (fault : Option PutAlloc) (self : LwwRegistry hash) (key : Bytes) (hlc : Timestamp) (value : Value)
    (cause : CausalTag) : Except Err (LwwRegistry hash × Bool) :=
  if fault = some .value ∧ allocates value then .error .outOfMemory
  else match h : self.entries.lookup key with
    | some existing =>
      if hlc.compare existing.hlc ≠ .gt then .ok (self, false)
      else .ok (self.update key ⟨hlc, value, cause⟩ (by rw [h]; rfl), true)
    | none =>
      if fault = some .key ∨ fault = some .entry then .error .outOfMemory
      else .ok (self.add key ⟨hlc, value, cause⟩, true)

/-- Get the latest entry for a key. -/
def get (self : LwwRegistry hash) (key : Bytes) : Option Entry :=
  if self.bloom.contains hash key then self.entries.lookup key else none

/-- Remove a key; `false` if it was not there. -/
def remove (self : LwwRegistry hash) (key : Bytes) : LwwRegistry hash × Bool :=
  if self.bloom.contains hash key then
    ({ self with
        entries := self.entries.erase key
        indexed := by
          intro key' h'
          rw [FMap.lookup_erase_eq] at h'
          by_cases heq : key' = key
          · rw [if_pos heq] at h'
            cases h'
          · rw [if_neg heq] at h'
            exact self.indexed key' h' },
      (self.entries.lookup key).isSome)
  else (self, false)

/-- Restore a snapshot that preceded a write. -/
def rollbackPut (self : LwwRegistry hash) (key : Bytes) (timestamp : Timestamp) (previous : Option Entry) :
    Except Err (LwwRegistry hash) :=
  match h : self.entries.lookup key with
  | none => .error .rollbackTargetMissing
  | some current =>
    if current.hlc.compare timestamp ≠ .eq then .error .rollbackTargetChanged
    else match previous with
      | some old => .ok (self.update key old (by rw [h]; rfl))
      | none => .ok (self.remove key).1

/-! ## The store as a map -/

@[simp] theorem entries_update (self : LwwRegistry hash) (key : Bytes) (entry : Entry)
    (h : (self.entries.lookup key).isSome) :
    (self.update key entry h).entries = self.entries.insert key entry := rfl

@[simp] theorem entries_add (self : LwwRegistry hash) (key : Bytes) (entry : Entry) :
    (self.add key entry).entries = self.entries.insert key entry := rfl

/-- The filter never hides an entry. -/
theorem get_eq (self : LwwRegistry hash) (key : Bytes) : self.get key = self.entries.lookup key := by
  unfold get
  by_cases hb : self.bloom.contains hash key = true
  · rw [if_pos hb]
  · rw [if_neg hb]
    cases h : self.entries.lookup key with
    | none => rfl
    | some e => exact absurd (self.indexed key (by rw [h]; rfl)) hb

theorem entries_remove (self : LwwRegistry hash) (key : Bytes) :
    (self.remove key).1.entries = self.entries.erase key := by
  unfold remove
  by_cases hb : self.bloom.contains hash key = true
  · rw [if_pos hb]
  · rw [if_neg hb]
    refine Finmap.ext_lookup fun key' => ?_
    rw [FMap.lookup_erase_eq]
    by_cases heq : key' = key
    · rw [if_pos heq, heq, ← self.get_eq, get, if_neg hb]
    · rw [if_neg heq]

/-- `remove` reports whether the key was there. -/
theorem remove_eq (self : LwwRegistry hash) (key : Bytes) :
    (self.remove key).2 = (self.entries.lookup key).isSome := by
  unfold remove
  by_cases hb : self.bloom.contains hash key = true
  · rw [if_pos hb]
  · rw [if_neg hb, ← self.get_eq, get, if_neg hb]
    rfl

/-- The filter forgets nothing. -/
theorem bloom_remove (self : LwwRegistry hash) (key : Bytes) : (self.remove key).1.bloom = self.bloom := by
  unfold remove
  split_ifs <;> rfl

/-- What an accepted or rejected write leaves. -/
theorem put_ok {fault : Option PutAlloc} {self store : LwwRegistry hash} {key : Bytes} {hlc : Timestamp}
    {value : Value} {cause : CausalTag} {accepted : Bool}
    (h : self.put fault key hlc value cause = .ok (store, accepted)) :
    (accepted = true ∧ (∀ existing, self.entries.lookup key = some existing → existing.hlc < hlc) ∧
        store.entries = self.entries.insert key ⟨hlc, value, cause⟩) ∨
      (accepted = false ∧ store = self ∧ ∃ existing, self.entries.lookup key = some existing ∧
        hlc ≤ existing.hlc) := by
  unfold put at h
  by_cases hf : fault = some .value ∧ allocates value = true
  · rw [if_pos hf] at h
    cases h
  rw [if_neg hf] at h
  split at h
  · rename_i existing hlookup
    by_cases hc : hlc.compare existing.hlc ≠ .gt
    · rw [if_pos hc] at h
      obtain ⟨rfl, rfl⟩ := Prod.mk.inj (Except.ok.inj h)
      refine Or.inr ⟨rfl, rfl, existing, hlookup, ?_⟩
      rw [Ne, Timestamp.compare_eq_gt] at hc
      exact le_of_not_gt hc
    · rw [if_neg hc] at h
      obtain ⟨rfl, rfl⟩ := Prod.mk.inj (Except.ok.inj h)
      refine Or.inl ⟨rfl, fun existing' hlookup' => ?_, rfl⟩
      obtain rfl := Option.some.inj (hlookup.symm.trans hlookup')
      exact Timestamp.compare_eq_gt.mp (not_not.mp hc)
  · rename_i hlookup
    by_cases hk : fault = some .key ∨ fault = some .entry
    · rw [if_pos hk] at h
      cases h
    · rw [if_neg hk] at h
      obtain ⟨rfl, rfl⟩ := Prod.mk.inj (Except.ok.inj h)
      exact Or.inl ⟨rfl, fun existing hexisting => by simp [hlookup] at hexisting, rfl⟩

/-- A put that succeeds is a last-writer-wins write. -/
theorem put_write {fault : Option PutAlloc} {self store : LwwRegistry hash} {key : Bytes} {hlc : Timestamp}
    {value : Value} {cause : CausalTag} {accepted : Bool}
    (h : self.put fault key hlc value cause = .ok (store, accepted)) :
    store.entries = write Entry.hlc self.entries key ⟨hlc, value, cause⟩ := by
  rcases put_ok h with ⟨-, hnew, hentries⟩ | ⟨-, rfl, existing, hlookup, hle⟩
  · rw [hentries, write_of_accepts]
    cases hlookup : self.entries.lookup key with
    | none => exact accepts_of_absent hlookup
    | some existing =>
      rw [accepts_of_lookup hlookup, decide_eq_true_iff]
      exact hnew existing hlookup
  · exact (write_of_ge hlookup hle).symm

/-- A write that is newer than what is stored is accepted. -/
theorem put_newer {fault : Option PutAlloc} {self store : LwwRegistry hash} {key : Bytes} {hlc : Timestamp}
    {value : Value} {cause : CausalTag} {accepted : Bool}
    (h : self.put fault key hlc value cause = .ok (store, accepted))
    (hnew : ∀ existing, self.entries.lookup key = some existing → existing.hlc < hlc) :
    accepted = true ∧ store.entries = self.entries.insert key ⟨hlc, value, cause⟩ := by
  rcases put_ok h with ⟨haccepted, -, hentries⟩ | ⟨-, -, existing, hlookup, hle⟩
  · exact ⟨haccepted, hentries⟩
  · exact absurd (hnew existing hlookup) (not_lt_of_ge hle)

/-- Without a failing allocation a write does not fail. -/
theorem put_ne_error (self : LwwRegistry hash) (key : Bytes) (hlc : Timestamp) (value : Value)
    (cause : CausalTag) (e : Err) : self.put none key hlc value cause ≠ .error e := by
  unfold put
  rw [if_neg (by simp)]
  split
  · split_ifs <;> exact nofun
  · simp

/-- A value with bytes is not stored without the memory for them. -/
theorem put_without_memory (self : LwwRegistry hash) (key : Bytes) (hlc : Timestamp) (bytes : Bytes)
    (cause : CausalTag) : self.put (some .value) key hlc (.bytes bytes) cause = .error .outOfMemory :=
  if_pos ⟨rfl, rfl⟩

/-- A write fails for its value, or for a key that was not there. -/
theorem put_error {fault : Option PutAlloc} {self : LwwRegistry hash} {key : Bytes} {hlc : Timestamp} {value : Value}
    {cause : CausalTag} {e : Err} (h : self.put fault key hlc value cause = .error e) :
    fault = some .value ∨ self.entries.lookup key = none := by
  unfold put at h
  by_cases hf : fault = some .value ∧ allocates value = true
  · exact Or.inl hf.1
  rw [if_neg hf] at h
  split at h
  · split_ifs at h
  · rename_i hlookup
    exact Or.inr hlookup

/-- A snapshot of the store in the undo log of a cascade. -/
abbrev Undo := Snapshot Bytes Entry Timestamp

/-- Rolling one write back is taking it back from the map. -/
theorem rollbackPut_entries (self : LwwRegistry hash) (u : Undo) :
    (self.rollbackPut u.key u.stamp u.previous).toOption.map LwwRegistry.entries =
      takeBack Entry.hlc self.entries u := by
  unfold rollbackPut takeBack
  split
  · rename_i hlookup
    rw [hlookup]
    rfl
  · rename_i current hlookup
    simp only [hlookup, ne_eq, Timestamp.compare_eq_eq]
    by_cases hc : current.hlc = u.stamp
    · rw [if_neg (not_not.mpr hc), if_pos hc]
      cases u.previous with
      | some old => rfl
      | none => exact congrArg some (self.entries_remove u.key)
    · rw [if_pos hc, if_neg hc]
      rfl

end LwwRegistry

end Slung
