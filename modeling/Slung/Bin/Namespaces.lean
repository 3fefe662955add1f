import Mathlib.Data.List.Induction
import Slung.Bin.Deployment

/-!
# Slung.Bin.Namespaces — one deployment for each namespace (`bin/deployment.zig`)

A sequence of `Server.put` calls, any of which may fail, and what the record holds after it.  The record is keyed by
`namespace/module`, so a call for one namespace may take out the deployment of another (`put_another_namespace`);
`one_each_iff` says which sequences keep the last deployment of every namespace.
-/

namespace Slung.Deployments

open Slung.Lib

/-- A call of `Server.put`. -/
structure PutCall where
  deployment : Deployment
  fault : Option StoreFault
deriving DecidableEq, Repr

/-- The call returns, and was for this namespace. -/
def PutCall.puts (call : PutCall) (namespaceId : NamespaceId) : Bool :=
  call.fault = none ∧ namespaceId = call.deployment.namespaceId

/-- The record after a sequence of calls. -/
def puts (calls : List PutCall) : Deployments :=
  calls.foldl (fun self call => (self.put call.fault call.deployment).1) empty

/-- Look a deployment up under `namespace/module`; `fails` when there is no lock or no memory for a copy. -/
def get (fails : Bool) (self : Deployments) (path : Bytes) : Option Deployment :=
  if fails then none else (self.entries.find? fun e => e.1 == path).map Prod.snd

/-- The last deployment that was put for a namespace by a call that returned. -/
def lastPut (calls : List PutCall) (namespaceId : NamespaceId) : Option Deployment :=
  (calls.filter (·.puts namespaceId)).getLast?.map PutCall.deployment

/-- Exactly one entry for each namespace, its last deployment, which is found under its own path. -/
structure OneEach (calls : List PutCall) : Prop where
  entries : ∀ namespaceId, ((puts calls).entries.filter fun e => e.2.namespaceId == namespaceId).map Prod.snd =
    (lastPut calls namespaceId).toList
  found : ∀ namespaceId d, lastPut calls namespaceId = some d → (puts calls).get false d.key = some d

/-- The call says whether it is the first one of its namespace, and frees only what it has set. -/
structure ReportsFirst (before : List PutCall) (call : PutCall) : Prop where
  first : call.fault = none → ((puts before).put none call.deployment).2 =
    .ok (lastPut before call.deployment.namespaceId).isNone
  frees : ((puts before).put call.fault call.deployment).2 ≠ .error .invalidFree

/-- A call that comes to the removal of the old entries finds none of another namespace under its path, and if it
fails after that, none of its own; and its module's parts are copied. -/
structure Apart (before : List PutCall) (call : PutCall) : Prop where
  copied : call.fault ≠ some .copy
  others : call.fault = none ∨ call.fault = some .store → ∀ namespaceId d, lastPut before namespaceId = some d →
    namespaceId ≠ call.deployment.namespaceId → d.key ≠ call.deployment.key
  own : call.fault = some .store → lastPut before call.deployment.namespaceId = none

section

variable {before calls : List PutCall} {call : PutCall} {namespaceId : NamespaceId} {d : Deployment}

theorem puts_concat (before : List PutCall) (call : PutCall) :
    puts (before ++ [call]) = ((puts before).put call.fault call.deployment).1 := by
  rw [puts, List.foldl_append]
  rfl

theorem lastPut_concat (before : List PutCall) (call : PutCall) (namespaceId : NamespaceId) :
    lastPut (before ++ [call]) namespaceId =
      if call.fault = none ∧ namespaceId = call.deployment.namespaceId then some call.deployment
      else lastPut before namespaceId := by
  unfold lastPut
  rw [List.filter_append]
  by_cases h : call.fault = none ∧ namespaceId = call.deployment.namespaceId
  · have hputs : call.puts namespaceId = true := decide_eq_true h
    rw [if_pos h, List.filter_cons_of_pos (p := fun call : PutCall => call.puts namespaceId) hputs, List.filter_nil,
      List.getLast?_concat]
    rfl
  · have hputs : ¬ call.puts namespaceId = true := fun hputs => h (of_decide_eq_true hputs)
    rw [if_neg h, List.filter_cons_of_neg (p := fun call : PutCall => call.puts namespaceId) hputs, List.filter_nil,
      List.append_nil]

theorem get_of_stored {self : Deployments} (h : self.stored namespaceId = some d) : self.get false d.key = some d := by
  obtain ⟨hmem, -⟩ := stored_eq_some_iff.mp h
  rw [get, if_neg Bool.false_ne_true, (find?_eq_some_iff_mem self.keys).mpr ⟨hmem, rfl⟩]
  rfl

/-- What the entries of a namespace are says what is stored for it. -/
theorem oneEach_iff : OneEach calls ↔ ∀ namespaceId, (puts calls).stored namespaceId = lastPut calls namespaceId := by
  have hentries : ∀ namespaceId, ((puts calls).entries.filter fun e => e.2.namespaceId == namespaceId).map Prod.snd =
      ((puts calls).stored namespaceId).toList := by
    intro namespaceId
    rw [filter_eq_toList_find? (puts calls).namespaces, stored]
    cases (puts calls).entries.find? fun e => e.2.namespaceId == namespaceId <;> rfl
  constructor
  · intro h namespaceId
    have hlists := (hentries namespaceId).symm.trans (h.entries namespaceId)
    ext d
    have hmem : d ∈ ((puts calls).stored namespaceId).toList ↔ d ∈ (lastPut calls namespaceId).toList := by
      rw [hlists]
    rwa [Option.mem_toList, Option.mem_toList] at hmem
  · intro h
    exact ⟨fun namespaceId => by rw [hentries, h], fun namespaceId d hd => get_of_stored ((h namespaceId).trans hd)⟩

/-- **One call keeps the last deployment of every namespace iff it finds nothing in its way.** -/
theorem stored_concat_iff (h : ∀ namespaceId, (puts before).stored namespaceId = lastPut before namespaceId)
    (hcopied : call.fault ≠ some .copy) :
    (∀ namespaceId, (puts (before ++ [call])).stored namespaceId = lastPut (before ++ [call]) namespaceId) ↔
      Apart before call := by
  have hothers : (∀ namespaceId, namespaceId ≠ call.deployment.namespaceId →
      ((lastPut before namespaceId).filter fun d => d.key != call.deployment.key) = lastPut before namespaceId) ↔
      ∀ namespaceId d, lastPut before namespaceId = some d → namespaceId ≠ call.deployment.namespaceId →
        d.key ≠ call.deployment.key := by
    refine forall_congr' fun namespaceId => ?_
    cases lastPut before namespaceId with
    | none => simp
    | some d =>
      rw [Option.filter_eq_some_iff]
      simp
  obtain ⟨deployment, fault⟩ := call
  simp only [puts_concat, lastPut_concat]
  rcases fault with _ | fault
  · refine Iff.trans ?_
      ⟨fun hall => ⟨hcopied, fun _ => hothers.mp hall, fun h => (by cases h)⟩,
        fun hapart => hothers.mpr (hapart.others (.inl rfl))⟩
    simp only [put, stored_replace, h, true_and]
    refine forall_congr' fun namespaceId => ?_
    by_cases hns : namespaceId = deployment.namespaceId
    · simp [hns]
    · simp [hns]
  cases fault with
  | store =>
    have hapart : Apart before ⟨deployment, some .store⟩ ↔ _ ∧ lastPut before deployment.namespaceId = none :=
      ⟨fun hapart => ⟨hapart.others (.inr rfl), hapart.own rfl⟩,
        fun hall => ⟨hcopied, fun _ => hall.1, fun _ => hall.2⟩⟩
    rw [hapart, ← hothers]
    simp only [put, stored_without, h, reduceCtorEq, false_and, if_false]
    constructor
    · intro hall
      refine ⟨fun namespaceId hns => ?_, ?_⟩
      · have hother := hall namespaceId
        rwa [if_neg hns] at hother
      · have hown := hall deployment.namespaceId
        rw [if_pos rfl] at hown
        exact hown.symm
    · rintro ⟨hall, hown⟩ namespaceId
      split_ifs with hns
      · rw [hns, hown]
      · exact hall namespaceId hns
  | allocPrint =>
    refine iff_of_true (fun namespaceId => ?_) ⟨hcopied, by simp, fun h => (by cases h)⟩
    simpa [put] using h namespaceId
  | lock =>
    refine iff_of_true (fun namespaceId => ?_) ⟨hcopied, by simp, fun h => (by cases h)⟩
    simpa [put] using h namespaceId
  | copy => exact absurd rfl hcopied

end

/-- **When a sequence of calls keeps one deployment for each namespace.** -/
theorem one_each_iff (calls : List PutCall) :
    (∀ before, before <+: calls → OneEach before) ∧
        (∀ before call, before ++ [call] <+: calls → ReportsFirst before call) ↔
      ∀ before call, before ++ [call] <+: calls → Apart before call := by
  constructor
  · rintro ⟨hentries, hreports⟩ before call hstart
    have hbefore := hentries before ((List.prefix_append before [call]).trans hstart)
    have hcopied := put_ne_invalidFree_iff.mp (hreports before call hstart).frees
    exact (stored_concat_iff (oneEach_iff.mp hbefore) hcopied).mp (oneEach_iff.mp (hentries _ hstart))
  · intro hapart
    have hentries : ∀ before, before <+: calls → OneEach before := by
      intro before hstart
      rw [oneEach_iff]
      induction before using List.reverseRecOn with
      | nil => exact fun _ => rfl
      | append_singleton before call ih =>
        have hbefore := ih ((List.prefix_append before [call]).trans hstart)
        have hcall := hapart before call hstart
        exact (stored_concat_iff hbefore hcall.copied).mpr hcall
    refine ⟨hentries, fun before call hstart =>
      ⟨fun _ => ?_, put_ne_invalidFree_iff.mpr (hapart before call hstart).copied⟩⟩
    have hbefore := oneEach_iff.mp (hentries before ((List.prefix_append before [call]).trans hstart))
    refine congrArg Except.ok (Bool.eq_iff_iff.mpr ?_)
    rw [← hbefore, stored, Option.isNone_map, Option.isNone_iff_eq_none, List.find?_eq_none, List.all_eq_true]
    simp

/-- A deployment for the namespace `a/b` takes the place of one for `a`. -/
theorem put_another_namespace :
    let first : Deployment := ⟨[97], [98, 47, 99], [], [0]⟩
    let second : Deployment := ⟨[97, 47, 98], [99], [], [1]⟩
    let calls : List PutCall := [⟨first, none⟩, ⟨second, none⟩]
    Deployment.parseEnvelope false (first.header ++ first.payload) = some first ∧
      Deployment.parseEnvelope false (second.header ++ second.payload) = some second ∧
      lastPut calls [97] = some first ∧ (puts calls).stored [97] = none ∧
      (puts calls).get false first.key = some second ∧ ((puts calls).put none first).2 = .ok true := by
  decide

end Slung.Deployments
