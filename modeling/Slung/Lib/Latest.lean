import Mathlib.Order.Bounds.Basic
import Slung.Lib.LwwMap

/-!
# Slung.Lib.Latest — the latest stamp of a last-writer-wins map

`latest` goes over the keys with a property in any order and keeps the greatest stamp.  A write moves it up to
the stamp of the write, accepted or not (`latest_write`), so a list of writes leaves it where it is iff none of
them is newer (`latest_foldl_write_eq_iff`).
-/

namespace Slung.Lib

variable {κ ν τ : Type} [LinearOrder τ]

/-- The greater of what was found so far and one more stamp. -/
def later (found : Option τ) (t : τ) : Option τ :=
  match found with
  | some u => if u < t then some t else found
  | none => some t

/-- The greatest element, if there is any element. -/
def IsLatest (found : Option τ) (stamps : Set τ) : Prop :=
  match found with
  | some t => IsGreatest stamps t
  | none => stamps = ∅

theorem IsLatest.later {found : Option τ} {stamps : Set τ} (h : IsLatest found stamps) (t : τ) :
    IsLatest (later found t) (insert t stamps) := by
  cases found with
  | none =>
    obtain rfl : stamps = ∅ := h
    exact ⟨Set.mem_insert t ∅, fun u hu => le_of_eq (hu.resolve_right (Set.notMem_empty u))⟩
  | some u =>
    show IsLatest (if u < t then some t else some u) _
    by_cases hlt : u < t
    · rw [if_pos hlt]
      refine ⟨Set.mem_insert t stamps, fun v hv => ?_⟩
      rcases hv with rfl | hv
      · exact le_rfl
      · exact (h.2 hv).trans hlt.le
    · rw [if_neg hlt]
      refine ⟨Set.mem_insert_of_mem t h.1, fun v hv => ?_⟩
      rcases hv with rfl | hv
      · exact le_of_not_gt hlt
      · exact h.2 hv

theorem IsLatest.unique {found found' : Option τ} {stamps : Set τ} (h : IsLatest found stamps)
    (h' : IsLatest found' stamps) : found = found' := by
  cases found with
  | none =>
    obtain rfl : stamps = ∅ := h
    cases found' with
    | none => rfl
    | some t => exact absurd h'.1 (Set.notMem_empty t)
  | some t =>
    cases found' with
    | none =>
      obtain rfl : stamps = ∅ := h'
      exact absurd h.1 (Set.notMem_empty t)
    | some u => exact congrArg some (IsGreatest.unique h h')

/-- What is at or below another element may be left out. -/
theorem IsLatest.of_dominated {found : Option τ} {stamps stamps' : Set τ} (h : IsLatest found stamps)
    (hsub : stamps' ⊆ stamps) (hdom : ∀ t ∈ stamps, ∃ u ∈ stamps', t ≤ u) : IsLatest found stamps' := by
  cases found with
  | none =>
    obtain rfl : stamps = ∅ := h
    exact Set.subset_empty_iff.mp hsub
  | some t =>
    obtain ⟨u, hu, hle⟩ := hdom t h.1
    obtain rfl : t = u := le_antisymm hle (h.2 (hsub hu))
    exact ⟨hu, fun v hv => h.2 (hsub hv)⟩

theorem later_eq_self_iff {found : Option τ} {t : τ} : later found t = found ↔ ∃ u, found = some u ∧ t ≤ u := by
  cases found with
  | none => exact ⟨nofun, nofun⟩
  | some u =>
    show (if u < t then some t else some u) = some u ↔ _
    by_cases hlt : u < t
    · rw [if_pos hlt]
      refine ⟨fun heq => absurd (Option.some.inj heq) hlt.ne', fun ⟨u', hu', hle⟩ => ?_⟩
      obtain rfl := Option.some.inj hu'
      exact absurd hlt (not_lt_of_ge hle)
    · rw [if_neg hlt]
      exact ⟨fun _ => ⟨u, rfl, le_of_not_gt hlt⟩, fun _ => rfl⟩

/-- Two stamps in either order. -/
theorem later_comm (found : Option τ) (t t' : τ) : later (later found t) t' = later (later found t') t := by
  have hlatest : IsLatest found {u | ∃ v, found = some v ∧ u ≤ v} := by
    cases found with
    | none => simp [IsLatest]
    | some v => exact ⟨⟨v, rfl, le_rfl⟩, fun u ⟨v', hv', hle⟩ => by rwa [Option.some.inj hv']⟩
  have h := (hlatest.later t).later t'
  rw [Set.insert_comm] at h
  exact h.unique ((hlatest.later t').later t)

/-- A list of stamps moves the greatest iff one of them is greater. -/
theorem foldl_later_eq_self_iff {found : Option τ} {ts : List τ} :
    ts.foldl later found = found ↔ ∀ t ∈ ts, ∃ u, found = some u ∧ t ≤ u := by
  have hup : ∀ (ts : List τ) (found : Option τ) (u : τ), found = some u →
      ∃ v, ts.foldl later found = some v ∧ u ≤ v := by
    intro ts
    induction ts with
    | nil => exact fun found u hu => ⟨u, hu, le_rfl⟩
    | cons t ts ih =>
      rintro _ u rfl
      by_cases hlt : u < t
      · obtain ⟨v, hv, hle⟩ := ih (later (some u) t) t (if_pos hlt)
        exact ⟨v, hv, hlt.le.trans hle⟩
      · exact ih (later (some u) t) u (if_neg hlt)
  induction ts generalizing found with
  | nil => simp
  | cons t ts ih =>
    rw [List.foldl_cons, List.forall_mem_cons, ← later_eq_self_iff]
    constructor
    · intro h
      have hsame : later found t = found := by
        cases found with
        | none =>
          obtain ⟨v, hv, -⟩ := hup ts (later none t) t rfl
          rw [hv] at h
          cases h
        | some u =>
          by_cases hlt : u < t
          · obtain ⟨v, hv, hle⟩ := hup ts (later (some u) t) t (if_pos hlt)
            rw [hv] at h
            exact absurd (hlt.trans_le hle) (by rw [Option.some.inj h]; exact lt_irrefl u)
          · exact if_neg hlt
      rw [hsame] at h
      exact ⟨hsame, ih.mp h⟩
    · rintro ⟨hsame, hrest⟩
      rw [hsame]
      exact ih.mpr hrest

/-! ## Maps -/

section Map

variable (p : κ → Prop) [DecidablePred p] (stamp : ν → τ)

def latestStep (found : Option τ) (k : κ) (v : ν) : Option τ := if p k then later found (stamp v) else found

theorem latestStep_comm (found : Option τ) (k : κ) (v : ν) (k' : κ) (v' : ν) :
    latestStep p stamp (latestStep p stamp found k v) k' v' =
      latestStep p stamp (latestStep p stamp found k' v') k v := by
  unfold latestStep
  split_ifs
  · exact later_comm found _ _
  all_goals rfl

variable [DecidableEq κ]

/-- The latest stamp of the keys with a property. -/
def latest (m : FMap κ ν) : Option τ := m.foldl (latestStep p stamp) (latestStep_comm p stamp) none

/-- The stamps of the keys with a property. -/
def stamps (m : FMap κ ν) : Set τ := {t | ∃ k v, m.lookup k = some v ∧ p k ∧ stamp v = t}

theorem isLatest_latest (m : FMap κ ν) : IsLatest (latest p stamp m) (stamps p stamp m) := by
  have hlist : ∀ (l : List (Σ _ : κ, ν)) (found : Option τ) (old : Set τ), IsLatest found old →
      IsLatest (l.foldl (fun d s => latestStep p stamp d s.1 s.2) found)
        (old ∪ {t | ∃ s ∈ l, p s.1 ∧ stamp s.2 = t}) := by
    intro l
    induction l with
    | nil => exact fun found old h => by simpa using h
    | cons s l ih =>
      intro found old h
      by_cases hp : p s.1
      · have hstep : latestStep p stamp found s.1 s.2 = later found (stamp s.2) := if_pos hp
        rw [List.foldl_cons, hstep]
        convert ih _ _ (h.later (stamp s.2)) using 1
        ext t
        simp only [Set.mem_union, Set.mem_insert_iff, Set.mem_ofPred_eq, List.mem_cons, exists_eq_or_imp, hp,
          true_and, eq_comm (a := stamp s.2)]
        tauto
      · have hstep : latestStep p stamp found s.1 s.2 = found := if_neg hp
        rw [List.foldl_cons, hstep]
        convert ih _ _ h using 1
        ext t
        simp only [Set.mem_union, Set.mem_ofPred_eq, List.mem_cons, exists_eq_or_imp, hp, false_and, false_or]
  induction m using Finmap.induction_on with
  | H m =>
    have h := hlist m.entries none ∅ rfl
    rw [Set.empty_union] at h
    have hstamps : stamps p stamp m.toFinmap = {t | ∃ s ∈ m.entries, p s.1 ∧ stamp s.2 = t} := by
      ext t
      constructor
      · rintro ⟨k, v, hk, hp, rfl⟩
        exact ⟨⟨k, v⟩, by simpa using Finmap.lookup_eq_some_iff.mp hk, hp, rfl⟩
      · rintro ⟨⟨k, v⟩, hmem, hp, rfl⟩
        exact ⟨k, v, Finmap.lookup_eq_some_iff.mpr (by simpa using hmem), hp, rfl⟩
    rw [hstamps]
    exact h

variable {p stamp} {m : FMap κ ν} {k : κ} {v : ν} {t : τ}

theorem latest_eq_some_iff : latest p stamp m = some t ↔
    (∃ k v, m.lookup k = some v ∧ p k ∧ stamp v = t) ∧ ∀ k v, m.lookup k = some v → p k → stamp v ≤ t := by
  have hlatest := isLatest_latest p stamp m
  constructor
  · intro h
    rw [h] at hlatest
    exact ⟨hlatest.1, fun k v hk hp => hlatest.2 ⟨k, v, hk, hp, rfl⟩⟩
  · rintro ⟨hmem, hle⟩
    have hmax : IsLatest (some t) (stamps p stamp m) := by
      refine ⟨hmem, ?_⟩
      rintro _ ⟨k, v, hk, hp, rfl⟩
      exact hle k v hk hp
    exact hlatest.unique hmax

theorem latest_eq_none_iff : latest p stamp m = none ↔ ∀ k v, m.lookup k = some v → ¬ p k := by
  have hlatest := isLatest_latest p stamp m
  constructor
  · intro h k v hk hp
    rw [h] at hlatest
    exact Set.notMem_empty (stamp v) (hlatest ▸ ⟨k, v, hk, hp, rfl⟩)
  · intro h
    have hempty : IsLatest none (stamps p stamp m) := by
      refine Set.eq_empty_iff_forall_notMem.mpr ?_
      rintro _ ⟨k, v, hk, hp, -⟩
      exact h k v hk hp
    exact hlatest.unique hempty

/-- No key with the property is later than the latest. -/
theorem le_latest (h : latest p stamp m = some t) (hk : m.lookup k = some v) (hp : p k) : stamp v ≤ t :=
  (latest_eq_some_iff.mp h).2 k v hk hp

/-- Only the keys with the property matter. -/
theorem latest_congr {m' : FMap κ ν} (h : ∀ k, p k → m'.lookup k = m.lookup k) :
    latest p stamp m' = latest p stamp m := by
  have hstamps : stamps p stamp m' = stamps p stamp m := by
    ext t
    constructor
    · rintro ⟨k, v, hk, hp, rfl⟩
      exact ⟨k, v, by rw [← h k hp, hk], hp, rfl⟩
    · rintro ⟨k, v, hk, hp, rfl⟩
      exact ⟨k, v, by rw [h k hp, hk], hp, rfl⟩
  have hlatest := isLatest_latest p stamp m'
  rw [hstamps] at hlatest
  exact hlatest.unique (isLatest_latest p stamp m)

/-- When some keys are gone, the latest stamp stays iff a key that holds it does. -/
theorem latest_eq_of_gone_iff {m' : FMap κ ν} (h : ∀ k, m'.lookup k = none ∨ m'.lookup k = m.lookup k) :
    latest p stamp m' = latest p stamp m ↔ ∀ t, latest p stamp m = some t →
      ∃ k v, m'.lookup k = some v ∧ p k ∧ stamp v = t := by
  have hsub : ∀ k v, m'.lookup k = some v → m.lookup k = some v := by
    intro k v hk
    rcases h k with hnone | hsame
    · rw [hnone] at hk
      cases hk
    · rw [← hsame, hk]
  constructor
  · intro heq t ht
    rw [ht] at heq
    exact (latest_eq_some_iff.mp heq).1
  · intro hkept
    cases ht : latest p stamp m with
    | none => exact latest_eq_none_iff.mpr fun k v hk => latest_eq_none_iff.mp ht k v (hsub k v hk)
    | some t =>
      exact latest_eq_some_iff.mpr ⟨hkept t ht, fun k v hk hp => le_latest ht (hsub k v hk) hp⟩

/-- **A write, accepted or not, moves the latest stamp up to its own.** -/
theorem latest_write (m : FMap κ ν) (k : κ) (v : ν) :
    latest p stamp (write stamp m k v) = latestStep p stamp (latest p stamp m) k v := by
  by_cases hp : p k
  · rw [latestStep, if_pos hp]
    refine (isLatest_latest p stamp _).unique (IsLatest.of_dominated ((isLatest_latest p stamp m).later (stamp v))
      ?_ ?_)
    · rintro _ ⟨k', v', hk', hp', rfl⟩
      by_cases heq : k' = k
      · subst heq
        rcases lookup_write_self stamp m k' v with h | ⟨c, hc, -, h⟩
        · rw [h] at hk'
          exact Or.inl (by rw [Option.some.inj hk'])
        · rw [h] at hk'
          exact Or.inr ⟨k', v', hc.trans hk', hp', rfl⟩
      · rw [lookup_write_ne heq] at hk'
        exact Or.inr ⟨k', v', hk', hp', rfl⟩
    · rintro u (rfl | ⟨k', v', hk', hp', rfl⟩)
      · obtain ⟨c, hc, hle⟩ : HoldsSince stamp (write stamp m k v) k (stamp v) := holdsSince_write_self m k v
        exact ⟨stamp c, ⟨k, c, hc, hp, rfl⟩, hle⟩
      · have hheld : HoldsSince stamp m k' (stamp v') := ⟨v', hk', le_rfl⟩
        obtain ⟨c, hc, hle⟩ : HoldsSince stamp (write stamp m k v) k' (stamp v') := hheld.write
        exact ⟨stamp c, ⟨k', c, hc, hp', rfl⟩, hle⟩
  · rw [latestStep, if_neg hp]
    refine latest_congr fun k' hk' => ?_
    have hne : k' ≠ k := fun heq => hp (heq ▸ hk')
    exact lookup_write_ne hne

/-- **Writes leave the latest stamp where it is iff none of them is newer.** -/
theorem latest_foldl_write_eq_iff {α : Type} (key : α → κ) (val : α → ν) (ws : List α) (m : FMap κ ν) :
    latest p stamp (ws.foldl (fun m w => write stamp m (key w) (val w)) m) = latest p stamp m ↔
      ∀ w ∈ ws, p (key w) → ∃ u, latest p stamp m = some u ∧ stamp (val w) ≤ u := by
  have hfold : ∀ (ws : List α) (m : FMap κ ν),
      latest p stamp (ws.foldl (fun m w => write stamp m (key w) (val w)) m) =
        ((ws.filter fun w => p (key w)).map fun w => stamp (val w)).foldl later (latest p stamp m) := by
    intro ws
    induction ws with
    | nil => exact fun _ => rfl
    | cons w ws ih =>
      intro m
      rw [List.foldl_cons, ih, latest_write, latestStep]
      by_cases hp : p (key w)
      · rw [if_pos hp, List.filter_cons_of_pos (by simpa using hp)]
        rfl
      · rw [if_neg hp, List.filter_cons_of_neg (by simpa using hp)]
  rw [hfold ws m, foldl_later_eq_self_iff]
  simp only [List.mem_map, List.mem_filter, decide_eq_true_eq, forall_exists_index, and_imp]
  exact ⟨fun h w hw hp => h _ w hw hp rfl, fun h t w hw hp ht => ht ▸ h w hw hp⟩

end Map

end Slung.Lib
