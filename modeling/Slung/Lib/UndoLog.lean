import Slung.Lib.LwwMap

/-!
# Slung.Lib.UndoLog — exact undo logs

A writer takes a snapshot of a key before each write that is accepted, and takes its writes back from the last
to the first.  Unlike the log of `Slung.Lib.LwwMap`, taking a write back fails if the map does not hold it.

`unwind_write` says that a write is taken back exactly, whatever the log before it is, and `unwind_insert` that
a value stored under a key the log does not know stays.  Together they carry an invariant of the form "the
log unwinds to the map at the start, up to such values".
-/

namespace Slung.Lib

variable {κ ν τ : Type} [DecidableEq κ] [DecidableEq τ]

/-- What is needed to take one write back. -/
structure Snapshot (κ ν τ : Type) where
  key : κ
  /-- the stamp of the write -/
  stamp : τ
  /-- what the key held before the write -/
  previous : Option ν

variable (stamp : ν → τ)

/-- Take one write back; the map must hold it. -/
def takeBack (m : FMap κ ν) (u : Snapshot κ ν τ) : Option (FMap κ ν) :=
  match m.lookup u.key with
  | none => none
  | some current =>
    if stamp current = u.stamp then
      match u.previous with
      | some old => some (m.insert u.key old)
      | none => some (m.erase u.key)
    else none

/-- Take the writes of a log back, the last one first. -/
def unwind (m : FMap κ ν) (log : List (Snapshot κ ν τ)) : Option (FMap κ ν) :=
  log.foldr (fun u acc => acc.bind (takeBack stamp · u)) (some m)

variable {stamp} {m b : FMap κ ν} {log : List (Snapshot κ ν τ)} {k : κ}

@[simp] theorem unwind_nil (m : FMap κ ν) : unwind stamp m ([] : List (Snapshot κ ν τ)) = some m := rfl

theorem unwind_cons (m : FMap κ ν) (u : Snapshot κ ν τ) (log : List (Snapshot κ ν τ)) :
    unwind stamp m (u :: log) = (unwind stamp m log).bind (takeBack stamp · u) := rfl

theorem foldr_takeBack_none (log : List (Snapshot κ ν τ)) :
    log.foldr (fun u acc => acc.bind (takeBack stamp · u)) none = none := by
  induction log with
  | nil => rfl
  | cons u log ih => rw [List.foldr_cons, ih, Option.bind_none]

theorem unwind_concat (m : FMap κ ν) (log : List (Snapshot κ ν τ)) (u : Snapshot κ ν τ) :
    unwind stamp m (log ++ [u]) = (takeBack stamp m u).bind (unwind stamp · log) := by
  unfold unwind
  rw [List.foldr_append, List.foldr_cons, List.foldr_nil, Option.bind_some]
  cases takeBack stamp m u with
  | none => exact foldr_takeBack_none log
  | some m' => rfl

/-- A write is taken back by the snapshot taken before it. -/
theorem takeBack_insert (m : FMap κ ν) (k : κ) (v : ν) :
    takeBack stamp (m.insert k v) ⟨k, stamp v, m.lookup k⟩ = some m := by
  unfold takeBack
  rw [FMap.lookup_insert_eq, if_pos rfl]
  simp only [if_true]
  cases h : m.lookup k with
  | some old =>
    simp only [Option.some.injEq]
    rw [Finmap.insert_insert, FMap.insert_lookup_self h]
  | none =>
    simp only [Option.some.injEq]
    exact FMap.erase_insert_self h

/-- **A logged write leaves no trace** once the log is unwound. -/
theorem unwind_write (m : FMap κ ν) (log : List (Snapshot κ ν τ)) (k : κ) (v : ν) :
    unwind stamp (m.insert k v) (log ++ [⟨k, stamp v, m.lookup k⟩]) = unwind stamp m log := by
  rw [unwind_concat, takeBack_insert, Option.bind_some]

theorem takeBack_insert_of_ne {u : Snapshot κ ν τ} (h : u.key ≠ k) (m : FMap κ ν) (v : ν) :
    takeBack stamp (m.insert k v) u = (takeBack stamp m u).map (·.insert k v) := by
  unfold takeBack
  rw [FMap.lookup_insert_eq, if_neg h]
  cases m.lookup u.key with
  | none => rfl
  | some current =>
    simp only
    by_cases hs : stamp current = u.stamp
    · rw [if_pos hs, if_pos hs]
      cases u.previous with
      | some old => exact congrArg some (FMap.insert_insert_comm h.symm)
      | none => exact congrArg some (FMap.erase_insert_comm h.symm)
    · rw [if_neg hs, if_neg hs]
      rfl

/-- **A value under a key that the log does not know stays.** -/
theorem unwind_insert (h : ∀ u ∈ log, u.key ≠ k) (m : FMap κ ν) (v : ν) :
    unwind stamp (m.insert k v) log = (unwind stamp m log).map (·.insert k v) := by
  induction log with
  | nil => rfl
  | cons u log ih =>
    have hu : u.key ≠ k := h u (by simp)
    rw [unwind_cons, unwind_cons, ih fun u' hu' => h u' (by simp [hu'])]
    cases unwind stamp m log with
    | none => rfl
    | some b => exact takeBack_insert_of_ne hu b v

theorem lookup_takeBack_of_ne {u : Snapshot κ ν τ} (h : u.key ≠ k) (hb : takeBack stamp m u = some b) :
    b.lookup k = m.lookup k := by
  unfold takeBack at hb
  cases hc : m.lookup u.key with
  | none => rw [hc] at hb; cases hb
  | some current =>
    rw [hc] at hb
    simp only at hb
    by_cases hs : stamp current = u.stamp
    · rw [if_pos hs] at hb
      cases hp : u.previous with
      | some old =>
        rw [hp] at hb
        rw [← Option.some.inj hb, FMap.lookup_insert_eq, if_neg h.symm]
      | none =>
        rw [hp] at hb
        rw [← Option.some.inj hb, FMap.lookup_erase_eq, if_neg h.symm]
    · rw [if_neg hs] at hb
      cases hb

/-- Unwinding does not touch keys that the log does not know. -/
theorem lookup_unwind (h : ∀ u ∈ log, u.key ≠ k) (hb : unwind stamp m log = some b) :
    b.lookup k = m.lookup k := by
  induction log generalizing b with
  | nil => rw [Option.some.inj hb]
  | cons u log ih =>
    rw [unwind_cons] at hb
    obtain ⟨b', hb', htake⟩ := Option.bind_eq_some_iff.mp hb
    rw [lookup_takeBack_of_ne (h u (by simp)) htake]
    exact ih (fun u' hu' => h u' (by simp [hu'])) hb'

theorem lookup_of_takeBack {u : Snapshot κ ν τ} (hb : takeBack stamp m u = some b) :
    ∃ c, m.lookup u.key = some c ∧ stamp c = u.stamp := by
  unfold takeBack at hb
  cases hc : m.lookup u.key with
  | none => rw [hc] at hb; cases hb
  | some current =>
    rw [hc] at hb
    simp only at hb
    by_cases hs : stamp current = u.stamp
    · exact ⟨current, rfl, hs⟩
    · rw [if_neg hs] at hb
      cases hb

/-- **A key that the log knows holds its last write.** -/
theorem stamp_of_unwind {u : Snapshot κ ν τ} (hb : unwind stamp m log = some b)
    (hlast : (log.filter fun u => u.key = k).getLast? = some u) :
    ∃ c, m.lookup k = some c ∧ stamp c = u.stamp := by
  induction log using List.reverseRecOn generalizing m with
  | nil => cases hlast
  | append_singleton log u' ih =>
    rw [unwind_concat] at hb
    obtain ⟨m', htake, hrest⟩ := Option.bind_eq_some_iff.mp hb
    rw [List.filter_append] at hlast
    by_cases hk : u'.key = k
    · rw [List.filter_cons_of_pos (by simpa using hk), List.filter_nil, List.getLast?_concat] at hlast
      obtain rfl := Option.some.inj hlast
      exact hk ▸ lookup_of_takeBack htake
    · rw [List.filter_cons_of_neg (by simpa using hk), List.filter_nil, List.append_nil] at hlast
      rw [← lookup_takeBack_of_ne hk htake]
      exact ih hrest hlast

end Slung.Lib
