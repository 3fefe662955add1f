import Mathlib.Data.Finset.Basic
import Mathlib.Data.Finset.Lattice.Lemmas
import Mathlib.Data.Finset.Dedup

/-!
# Slung.Lib.Cleanup — fallible computations over a ledger of buffers

An allocator hands out buffers under numbers that it never uses again, and may refuse any request.  Nothing is
allocated for an empty slice, and freeing one does nothing.  A computation `Settles` if on success what it
returns owns the buffers that were granted to it, and on an error they have all been freed, each once, and no
other has.  The rules say what one exit of a computation with deferred cleanup does to the ledger.
-/

namespace Slung.Lib

/-- The live buffers, and what was granted and freed, in order.  A buffer has the number of its request. -/
structure Ledger where
  requests : ℕ
  live : Finset ℕ
  granted : List ℕ
  freed : List ℕ
  live_lt : ∀ b ∈ live, b < requests

/-- A slice with the buffer that it lies in; an empty one has none. -/
structure Slice where
  buffer : Option ℕ
  bytes : List UInt8
deriving DecidableEq, Repr

namespace Ledger

def empty : Ledger := ⟨0, ∅, [], [], fun b hb => absurd hb (Finset.notMem_empty b)⟩

def grant (l : Ledger) : Ledger where
  requests := l.requests + 1
  live := insert l.requests l.live
  granted := l.granted ++ [l.requests]
  freed := l.freed
  live_lt b hb := by
    rcases Finset.mem_insert.mp hb with rfl | hb
    · exact Nat.lt_succ_self _
    · exact (l.live_lt b hb).trans (Nat.lt_succ_self _)

def refuse (l : Ledger) : Ledger :=
  { l with requests := l.requests + 1, live_lt := fun b hb => (l.live_lt b hb).trans (Nat.lt_succ_self _) }

/-- Free the buffer of a slice. -/
def free (l : Ledger) (s : Slice) : Ledger :=
  match s.buffer with
  | none => l
  | some b => { l with
      live := l.live.erase b
      freed := l.freed ++ [b]
      live_lt := fun c hc => l.live_lt c (Finset.mem_of_mem_erase hc) }

/-- The slice of a copy that is not refused, -/
def sliceOf (l : Ledger) (bytes : List UInt8) : Slice := ⟨if bytes = [] then none else some l.requests, bytes⟩

/-- and the ledger behind it. -/
def acquire (l : Ledger) (bytes : List UInt8) : Ledger := if bytes = [] then l else l.grant

end Ledger

/-- The buffer of a slice, if it has one. -/
def Slice.ids (s : Slice) : List ℕ := s.buffer.toList

/-- What becomes of the buffers of a computation from `l` to `l'`: on success the result owns those that were
granted, on an error each has been freed once, and nothing else was freed. -/
def Ledger.Settles {ε α : Type} (owned : α → List ℕ) (l : Ledger) : Except ε α × Ledger → Prop
  | (.ok a, l') => (owned a).Nodup ∧ l'.granted = l.granted ++ owned a ∧ l'.freed = l.freed ∧
      l'.live = l.live ∪ (owned a).toFinset
  | (.error _, l') => ∃ new back, new.Nodup ∧ l'.granted = l.granted ++ new ∧ l'.freed = l.freed ++ back ∧
      back.Perm new ∧ l'.live = l.live

/-! ## The ledger step by step -/

namespace Ledger

variable {ε α : Type} {owned : α → List ℕ} {l l' : Ledger} {e : ε} (bytes : List UInt8)

theorem requests_notMem (l : Ledger) : l.requests ∉ l.live := fun h => Nat.lt_irrefl _ (l.live_lt _ h)

@[simp] theorem granted_acquire : (l.acquire bytes).granted = l.granted ++ (l.sliceOf bytes).ids := by
  unfold acquire sliceOf Slice.ids
  split_ifs
  · exact (List.append_nil _).symm
  · rfl

@[simp] theorem freed_acquire : (l.acquire bytes).freed = l.freed := by
  unfold acquire
  split_ifs <;> rfl

@[simp] theorem live_acquire : (l.acquire bytes).live = l.live ∪ (l.sliceOf bytes).ids.toFinset := by
  unfold acquire sliceOf Slice.ids
  split_ifs
  · exact (Finset.union_empty _).symm
  · exact Finset.insert_eq _ _ |>.trans (Finset.union_comm _ _)

@[simp] theorem granted_free (s : Slice) : (l.free s).granted = l.granted := by
  unfold free
  cases s.buffer <;> rfl

@[simp] theorem freed_free (s : Slice) : (l.free s).freed = l.freed ++ s.ids := by
  unfold free Slice.ids
  cases s.buffer with
  | none => exact (List.append_nil _).symm
  | some b => rfl

@[simp] theorem live_free (s : Slice) : (l.free s).live = l.live \ s.ids.toFinset := by
  unfold free Slice.ids
  cases s.buffer with
  | none => exact (Finset.sdiff_empty).symm
  | some b => exact Finset.erase_eq _ _

theorem sliceOf_ids_nil : (l.sliceOf bytes).ids = [] ↔ bytes = [] := by
  unfold sliceOf Slice.ids
  split_ifs with h
  · exact iff_of_true rfl h
  · exact iff_of_false (List.cons_ne_nil _ _) h

theorem nodup_ids (s : Slice) : s.ids.Nodup := by
  unfold Slice.ids
  cases s.buffer with
  | none => exact List.nodup_nil
  | some b => exact List.nodup_singleton b

/-- A new buffer is none of the live ones. -/
theorem disjoint_sliceOf (l : Ledger) : Disjoint l.live (l.sliceOf bytes).ids.toFinset := by
  unfold sliceOf Slice.ids
  split_ifs
  · exact Finset.disjoint_empty_right _
  · exact Finset.disjoint_singleton_right.mpr l.requests_notMem

/-- A copy is live. -/
theorem sliceOf_ids_subset (h : (l.acquire bytes).live ⊆ l'.live) : ∀ b ∈ (l.sliceOf bytes).ids, b ∈ l'.live := by
  intro b hb
  refine h ?_
  rw [live_acquire]
  exact Finset.mem_union_right _ (List.mem_toFinset.mpr hb)

/-- What was live before a copy is live behind its free. -/
theorem live_free_sliceOf (h : l'.live = (l.acquire bytes).live) : (l'.free (l.sliceOf bytes)).live = l.live := by
  rw [live_free, h, live_acquire, Finset.union_sdiff_right]
  exact Finset.sdiff_eq_self_of_disjoint (l.disjoint_sliceOf bytes)

theorem live_subset_acquire : l.live ⊆ (l.acquire bytes).live := by
  rw [live_acquire]
  exact Finset.subset_union_left

/-- Whatever else is live then. -/
theorem live_subset_free_sliceOf (h : (l.acquire bytes).live ⊆ l'.live) :
    l.live ⊆ (l'.free (l.sliceOf bytes)).live := by
  rw [live_free, Finset.subset_sdiff]
  exact ⟨(l.live_subset_acquire bytes).trans h, l.disjoint_sliceOf bytes⟩

/-- Behind its free a copy is gone, if it has a buffer. -/
theorem live_freed_iff (h : l'.live = (l.acquire bytes).live) :
    (∀ b ∈ (l.sliceOf bytes).ids, b ∈ (l'.free (l.sliceOf bytes)).live) ↔ bytes = [] := by
  rw [live_free_sliceOf bytes h, ← sliceOf_ids_nil (l := l), List.eq_nil_iff_forall_not_mem]
  refine forall_congr' fun b => ⟨fun hlive hb => ?_, fun hno hb => absurd hb hno⟩
  exact Finset.disjoint_left.mp (l.disjoint_sliceOf bytes) (hlive hb) (List.mem_toFinset.mpr hb)

/-- The number of the request behind that for a copy. -/
def requestAfter (request : ℕ) (bytes : List UInt8) : ℕ := if bytes = [] then request else request + 1

theorem requests_acquire : (l.acquire bytes).requests = requestAfter l.requests bytes := by
  unfold acquire requestAfter
  split_ifs <;> rfl

theorem mem_sliceOf_ids {b : ℕ} (h : b ∈ (l.sliceOf bytes).ids) :
    l.requests ≤ b ∧ b < (l.acquire bytes).requests := by
  unfold sliceOf Slice.ids at h
  unfold acquire
  split_ifs at h ⊢ with hempty
  · cases h
  · obtain rfl := List.mem_singleton.mp h
    exact ⟨Nat.le_refl _, Nat.lt_succ_self _⟩

theorem requests_le_acquire : l.requests ≤ (l.acquire bytes).requests := by
  unfold acquire
  split_ifs
  · exact Nat.le_refl _
  · exact Nat.le_succ _

/-- What was granted and what was freed are determined by the ledgers. -/
theorem settles_error_iff (new back : List ℕ) (hgranted : l'.granted = l.granted ++ new)
    (hfreed : l'.freed = l.freed ++ back) :
    l.Settles owned (.error e, l') ↔ new.Nodup ∧ back.Perm new ∧ l'.live = l.live := by
  constructor
  · rintro ⟨new', back', hnodup, hg, hf, hperm, hlive⟩
    rw [List.append_cancel_left (hgranted.symm.trans hg), List.append_cancel_left (hfreed.symm.trans hf)]
    exact ⟨hnodup, hperm, hlive⟩
  · rintro ⟨hnodup, hperm, hlive⟩
    exact ⟨new, back, hnodup, hgranted, hfreed, hperm, hlive⟩

/-- The buffers are as before. -/
structure Keeps (l l' : Ledger) : Prop where
  granted : l'.granted = l.granted
  freed : l'.freed = l.freed
  live : l'.live = l.live

theorem Keeps.refl (l : Ledger) : l.Keeps l := ⟨rfl, rfl, rfl⟩

theorem keeps_refuse (l : Ledger) : l.Keeps l.refuse := ⟨rfl, rfl, rfl⟩

/-- An error that leaves the buffers as they were. -/
theorem Keeps.settles (h : l.Keeps l') : l.Settles owned (.error e, l') := by
  rw [settles_error_iff [] [] (h.granted.trans (List.append_nil _).symm)
    (h.freed.trans (List.append_nil _).symm)]
  exact ⟨List.nodup_nil, List.Perm.refl _, h.live⟩

/-- An error behind one slice that is freed once. -/
theorem settles_free (h : (l.acquire bytes).Keeps l') :
    l.Settles owned (.error e, l'.free (l.sliceOf bytes)) := by
  rw [settles_error_iff (l.sliceOf bytes).ids (l.sliceOf bytes).ids
    (by rw [granted_free, h.granted, granted_acquire]) (by rw [freed_free, h.freed, freed_acquire])]
  exact ⟨nodup_ids _, List.Perm.refl _, live_free_sliceOf bytes h.live⟩

/-- An error behind one slice that is freed twice: only an empty one bears it. -/
theorem settles_free_free (h : (l.acquire bytes).Keeps l') :
    l.Settles owned (.error e, (l'.free (l.sliceOf bytes)).free (l.sliceOf bytes)) ↔ bytes = [] := by
  rw [settles_error_iff (l.sliceOf bytes).ids ((l.sliceOf bytes).ids ++ (l.sliceOf bytes).ids)
    (by rw [granted_free, granted_free, h.granted, granted_acquire])
    (by rw [freed_free, freed_free, h.freed, freed_acquire, List.append_assoc])]
  constructor
  · rintro ⟨-, hperm, -⟩
    have hlength := hperm.length_eq
    rw [List.length_append] at hlength
    rw [← sliceOf_ids_nil (l := l)]
    exact List.eq_nil_of_length_eq_zero (by omega)
  · intro hempty
    have hnil : (l.sliceOf bytes).ids = [] := (sliceOf_ids_nil bytes).mpr hempty
    rw [hnil]
    refine ⟨List.nodup_nil, List.Perm.refl _, ?_⟩
    rw [live_free, live_free, h.live, live_acquire, hnil]
    simp

/-- An error behind two slices, of which the first is freed: only an empty second one is not lost. -/
theorem settles_free_first (second : List UInt8) (h : ((l.acquire bytes).acquire second).Keeps l') :
    l.Settles owned (.error e, l'.free (l.sliceOf bytes)) ↔ second = [] := by
  rw [settles_error_iff ((l.sliceOf bytes).ids ++ ((l.acquire bytes).sliceOf second).ids) (l.sliceOf bytes).ids
    (by rw [granted_free, h.granted, granted_acquire, granted_acquire, List.append_assoc])
    (by rw [freed_free, h.freed, freed_acquire, freed_acquire])]
  constructor
  · rintro ⟨-, hperm, -⟩
    have hlength := hperm.length_eq
    rw [List.length_append] at hlength
    rw [← sliceOf_ids_nil (l := l.acquire bytes)]
    exact List.eq_nil_of_length_eq_zero (by omega)
  · intro hempty
    have hnil : ((l.acquire bytes).sliceOf second).ids = [] := (sliceOf_ids_nil second).mpr hempty
    rw [hnil, List.append_nil]
    refine ⟨nodup_ids _, List.Perm.refl _, ?_⟩
    rw [live_free, h.live, live_acquire, live_acquire, hnil, List.toFinset_nil, Finset.union_empty,
      Finset.union_sdiff_right]
    exact Finset.sdiff_eq_self_of_disjoint (l.disjoint_sliceOf bytes)

/-- A result that owns the three slices that were granted. -/
theorem settles_three {a : α} (second third : List UInt8) (h : owned a = (l.sliceOf bytes).ids ++
      (((l.acquire bytes).sliceOf second).ids ++ (((l.acquire bytes).acquire second).sliceOf third).ids)) :
    l.Settles owned ((.ok a, ((l.acquire bytes).acquire second).acquire third) : Except ε α × Ledger) := by
  refine ⟨?_, ?_, ?_, ?_⟩
  · -- later buffers have later numbers
    rw [h]
    have hmid := (l.acquire bytes).requests_le_acquire second
    refine (nodup_ids _).append ((nodup_ids _).append (nodup_ids _) ?_) ?_
    · intro b hb hb'
      have h1 := mem_sliceOf_ids _ hb
      have h2 := mem_sliceOf_ids _ hb'
      omega
    · intro b hb hb'
      have h1 := mem_sliceOf_ids _ hb
      rcases List.mem_append.mp hb' with hb' | hb'
      · have h2 := mem_sliceOf_ids _ hb'
        omega
      · have h2 := mem_sliceOf_ids _ hb'
        omega
  · rw [h, granted_acquire, granted_acquire, granted_acquire, List.append_assoc, List.append_assoc]
  · rw [freed_acquire, freed_acquire, freed_acquire]
  · rw [h, live_acquire, live_acquire, live_acquire, List.toFinset_append, List.toFinset_append,
      Finset.union_assoc, Finset.union_assoc]

end Ledger

/-- Computations that allocate and may fail. -/
abbrev Allocating (ε α : Type) := ExceptT ε (StateM Ledger) α

namespace Allocating

variable {ε α : Type}

/-- The outcome from a ledger, and the ledger behind it. -/
def outcome (c : Allocating ε α) (l : Ledger) : Except ε α × Ledger := (ExceptT.run c).run l

/-- A copy in a buffer of its own; `refuses` says which requests the allocator refuses. -/
def dupe (refuses : ℕ → Bool) (outOfMemory : ε) (bytes : List UInt8) : Allocating ε Slice :=
  if bytes = [] then pure ⟨none, []⟩
  else do
    let l ← get
    if refuses l.requests then
      set l.refuse
      throw outOfMemory
    else
      set l.grant
      pure ⟨some l.requests, bytes⟩

def free (s : Slice) : Allocating ε Unit := modify (·.free s)

/-- Run the cleanup if the scope is left with an error. -/
def errdefer (cleanup : Allocating ε Unit) (scope : Allocating ε α) : Allocating ε α :=
  tryCatch scope fun err => do
    cleanup
    throw err

variable {c : Allocating ε α} {s : Slice} {l l' : Ledger}

theorem outcome_bind_ok {β : Type} {f : α → Allocating ε β} {a : α} (h : c.outcome l = (.ok a, l')) :
    outcome (c >>= f) l = outcome (f a) l' := by
  unfold outcome at h ⊢
  simp only [bind, ExceptT.bind, ExceptT.run, ExceptT.mk, StateT.run, StateT.bind] at h ⊢
  rw [h]
  rfl

theorem outcome_bind_error {β : Type} {f : α → Allocating ε β} {e : ε} (h : c.outcome l = (.error e, l')) :
    outcome (c >>= f) l = (.error e, l') := by
  unfold outcome at h ⊢
  simp only [bind, ExceptT.bind, ExceptT.run, ExceptT.mk, StateT.run, StateT.bind] at h ⊢
  rw [h]
  rfl

theorem liftM_bind {β : Type} (r : Except ε α) (f : α → Except ε β) :
    (liftM (r >>= f) : Allocating ε β) = liftM r >>= fun a => liftM (f a) := by
  cases r <;> rfl

/-- A reader that does not allocate. -/
theorem outcome_liftM (r : Except ε α) (l : Ledger) : outcome (liftM r) l = (r, l) := by
  cases r <;> rfl

theorem outcome_errdefer_ok {a : α} (h : c.outcome l = (.ok a, l')) :
    (errdefer (free s) c).outcome l = (.ok a, l') := by
  unfold outcome at h ⊢
  unfold errdefer
  simp only [tryCatch, tryCatchThe, MonadExceptOf.tryCatch, ExceptT.tryCatch, ExceptT.run, ExceptT.mk, StateT.run, bind,
    StateT.bind] at h ⊢
  rw [h]
  rfl

theorem outcome_errdefer_error {e : ε} (h : c.outcome l = (.error e, l')) :
    (errdefer (free s) c).outcome l = (.error e, l'.free s) := by
  unfold outcome at h ⊢
  unfold errdefer
  simp only [tryCatch, tryCatchThe, MonadExceptOf.tryCatch, ExceptT.tryCatch, ExceptT.run, ExceptT.mk, StateT.run, bind,
    StateT.bind] at h ⊢
  rw [h]
  rfl

variable {refuses : ℕ → Bool} {outOfMemory : ε} {bytes : List UInt8}

/-- The allocator grants a copy; it is not asked for an empty one. -/
def Granted (refuses : ℕ → Bool) (request : ℕ) (bytes : List UInt8) : Prop := bytes ≠ [] → refuses request = false

instance (request : ℕ) : Decidable (Granted refuses request bytes) := inferInstanceAs (Decidable (_ → _))

theorem outcome_dupe_ok (h : Granted refuses l.requests bytes) :
    (dupe refuses outOfMemory bytes).outcome l = (.ok (l.sliceOf bytes), l.acquire bytes) := by
  unfold dupe Ledger.sliceOf Ledger.acquire
  split_ifs with hempty
  · rw [hempty]
    rfl
  · have hgranted := h hempty
    show outcome (if refuses l.requests = true then _ else _) l = _
    rw [if_neg (by rw [hgranted]; exact Bool.false_ne_true)]
    rfl

theorem outcome_dupe_error (h : ¬ Granted refuses l.requests bytes) :
    (dupe refuses outOfMemory bytes).outcome l = (.error outOfMemory, l.refuse) := by
  obtain ⟨hne, hrefused⟩ := Classical.not_imp.mp h
  unfold dupe
  rw [if_neg hne]
  show outcome (if refuses l.requests = true then _ else _) l = _
  rw [if_pos (by simpa using hrefused)]
  rfl

end Allocating

end Slung.Lib
