import Slung.Lib.Join
import Slung.Wal.State

/-!
# Slung.Wal.Convergence — the order of the mutations does not matter (`wal.zig`)

`applyMutation` and `applyMutationNoDirty` are written separately and may be mixed in any way.  What a sequence
of their calls leaves in the fact map depends only on the mutations that went through: of every key the newest
one, if it exceeds what the map held before (`order_independent`).
-/

namespace Slung.Wal

open Slung.Lib

/-- A call of `applyMutation` (`dirty`) or of `applyMutationNoDirty`, with the allocation that fails in it. -/
structure Update where
  mutation : FactMutation
  dirty : Bool
  fault : Option AllocPoint

/-- What a call returns: only `applyMutation` reports whether the mutation was accepted. -/
abbrev Update.Result := Except Err (Option Bool)

/-- One call; a failed one leaves the state as it was. -/
def Update.apply (self : Live) (u : Update) : Live × Update.Result :=
  if u.dirty then
    match applyMutation u.fault self u.mutation with
    | .ok (self, accepted) => (self, .ok (some accepted))
    | .error err => (self, .error err)
  else
    match applyMutationNoDirty u.fault self u.mutation with
    | .ok self => (self, .ok none)
    | .error err => (self, .error err)

/-- A sequence of calls, each with its result. -/
def applyAll (self : Live) : List Update → Live × List (Update × Update.Result)
  | [] => (self, [])
  | u :: us =>
    let (self, result) := u.apply self
    let (self, results) := applyAll self us
    (self, (u, result) :: results)

/-- The mutations of the calls that did not fail, in the order of the calls. -/
def applied (calls : List (Update × Update.Result)) : List FactMutation :=
  calls.filterMap fun (u, result) => result.toOption.map fun _ => u.mutation

/-- The mutation exceeds everything applied to its key before: the facts `self` began with and `ms`. -/
structure Exceeds (self : Live) (ms : List FactMutation) (m : FactMutation) : Prop where
  stored : ∀ c, self.facts.lookup m.key = some c → c.timestamp < m.timestamp
  mutations : ∀ m' ∈ ms, m'.key = m.key → m'.timestamp < m.timestamp

/-- The newest fact of a key: the stored one, until a mutation exceeds it. -/
inductive Newest (self : Live) (ms : List FactMutation) (key : Bytes) : Fact → Prop where
  | stored (f : Fact) (hf : self.facts.lookup key = some f)
    (hnewest : ∀ m ∈ ms, m.key = key → m.timestamp ≤ f.timestamp) : Newest self ms key f
  | mutation (m : FactMutation) (hm : m ∈ ms) (hkey : m.key = key)
    (hexceeds : ∀ c, self.facts.lookup key = some c → c.timestamp < m.timestamp)
    (hnewest : ∀ m' ∈ ms, m'.key = key → m'.timestamp ≤ m.timestamp) : Newest self ms key m.fact

/-- No two mutations of a key have the same timestamp. -/
def DistinctPerKey (ms : List FactMutation) : Prop :=
  ms.Pairwise fun m m' => m.key = m'.key → m.timestamp ≠ m'.timestamp

/-! ## Both functions write -/

/-- The two functions are the same write of the fact map; they differ in the pending entry and the report. -/
theorem Update.apply_eq (self : Live) (u : Update) :
    (∃ err, u.apply self = (self, .error err)) ∨
      u.apply self = if u.dirty then (self.putDirty u.mutation, .ok (some (self.accepts u.mutation)))
        else (self.putFact u.mutation, .ok none) := by
  unfold Update.apply
  cases u.dirty with
  | true =>
    rcases applyMutation_fault u.fault self u.mutation with h | h
    · exact Or.inl ⟨.outOfMemory, by rw [h]; rfl⟩
    · exact Or.inr (by rw [h]; rfl)
  | false =>
    rcases applyMutationNoDirty_fault u.fault self u.mutation with h | h
    · exact Or.inl ⟨.outOfMemory, by rw [h]; rfl⟩
    · exact Or.inr (by rw [h]; rfl)

/-- A call either fails without a change or writes its mutation. -/
theorem Update.apply_cases (self : Live) (u : Update) :
    (∃ err, u.apply self = (self, .error err)) ∨
      ∃ report, (u.apply self).2 = .ok report ∧
        (u.apply self).1.facts = write Fact.timestamp self.facts u.mutation.key u.mutation.fact ∧
        report = if u.dirty then some (self.accepts u.mutation) else none := by
  refine (u.apply_eq self).imp_right fun h => ?_
  rw [h]
  cases u.dirty with
  | true => exact ⟨_, rfl, rfl, rfl⟩
  | false => exact ⟨_, rfl, rfl, rfl⟩

theorem applyAll_cons (self : Live) (u : Update) (us : List Update) :
    applyAll self (u :: us) =
      ((applyAll (u.apply self).1 us).1, (u, (u.apply self).2) :: (applyAll (u.apply self).1 us).2) := rfl

/-- The entry that a mutation writes. -/
def FactMutation.stored (m : FactMutation) : Bytes × Fact := (m.key, m.fact)

/-- **A sequence of calls writes the mutations that went through, one by one.** -/
theorem facts_applyAll (self : Live) (us : List Update) :
    (applyAll self us).1.facts = ((applied (applyAll self us).2).map FactMutation.stored).foldl
      (fun facts e => write Fact.timestamp facts e.1 e.2) self.facts := by
  induction us generalizing self with
  | nil => rfl
  | cons u us ih =>
    rw [applyAll_cons, ih]
    rcases u.apply_cases self with ⟨err, h⟩ | ⟨report, hok, hfacts, -⟩
    · rw [h]
      rfl
    · simp only [applied, List.filterMap_cons, hok, Except.toOption, Option.map_some, List.map_cons,
        List.foldl_cons, hfacts, FactMutation.stored]

/-- Calls whose allocations all succeed go through. -/
theorem applied_of_faultless (self : Live) {us : List Update} (h : ∀ u ∈ us, u.fault = none) :
    applied (applyAll self us).2 = us.map Update.mutation := by
  induction us generalizing self with
  | nil => rfl
  | cons u us ih =>
    have hok : ∃ report, (u.apply self).2 = .ok report := by
      unfold Update.apply
      rw [h u List.mem_cons_self, applyMutation_none, applyMutationNoDirty_none]
      cases u.dirty with
      | true => exact ⟨_, rfl⟩
      | false => exact ⟨_, rfl⟩
    obtain ⟨report, hok⟩ := hok
    rw [applyAll_cons]
    simp only [applied, List.filterMap_cons, hok, Except.toOption, Option.map_some, List.map_cons]
    exact congrArg _ (ih _ fun v hv => h v (List.mem_cons_of_mem u hv))

/-- The calls before a call are a run of their own. -/
theorem applyAll_split {self : Live} {us : List Update} {before after : List (Update × Update.Result)} {u : Update}
    {result : Update.Result} (h : (applyAll self us).2 = before ++ (u, result) :: after) :
    ∃ us', (applyAll self us').2 = before ∧ (u.apply (applyAll self us').1).2 = result := by
  induction us generalizing self before with
  | nil => cases before <;> cases h
  | cons v us ih =>
    rw [applyAll_cons] at h
    cases before with
    | nil =>
      obtain ⟨hhead, -⟩ := List.cons.inj h
      obtain ⟨rfl, hresult⟩ := Prod.mk.inj hhead
      exact ⟨[], rfl, hresult⟩
    | cons c before =>
      obtain ⟨hhead, htail⟩ := List.cons.inj h
      obtain ⟨us', hbefore, hresult⟩ := ih htail
      refine ⟨v :: us', ?_, hresult⟩
      rw [applyAll_cons, hbefore, hhead]

/-! ## The facts of a sequence of mutations -/

section

variable {self : Live} {ms : List FactMutation}

/-- What the mutations leave: the stored facts and the mutations that exceed them, joined. -/
theorem isJoin_mutations (self : Live) (ms : List FactMutation) :
    IsJoin Fact.timestamp
      (contents self.facts ∪
        {e | e ∈ ms.map FactMutation.stored ∧ accepts Fact.timestamp self.facts e.1 e.2 = true})
      ((ms.map FactMutation.stored).foldl (fun facts e => write Fact.timestamp facts e.1 e.2) self.facts) :=
  isJoin_foldl_write_exceeding self.facts _

theorem accepts_iff_stored {m : FactMutation} : accepts Fact.timestamp self.facts m.key m.fact = true ↔
    ∀ c, self.facts.lookup m.key = some c → c.timestamp < m.timestamp := by
  constructor
  · intro h c hc
    rw [accepts_of_lookup hc] at h
    exact of_decide_eq_true h
  · intro h
    cases hc : self.facts.lookup m.key with
    | none => exact accepts_of_absent hc
    | some c =>
      rw [accepts_of_lookup hc]
      exact decide_eq_true (h c hc)

/-- A mutation that exceeds the stored fact of its key does not tie with it. -/
theorem noTies_mutations (hdistinct : DistinctPerKey ms) : NoTies Fact.timestamp
    (contents self.facts ∪
      {e | e ∈ ms.map FactMutation.stored ∧ accepts Fact.timestamp self.facts e.1 e.2 = true}) := by
  have hmutations : ∀ m ∈ ms, ∀ m' ∈ ms, m.key = m'.key → m.timestamp = m'.timestamp → m = m' := by
    intro m hm m' hm' hkey htime
    have hsymm : Std.Symm fun m m' : FactMutation => m.key = m'.key → m.timestamp ≠ m'.timestamp :=
      ⟨fun _ _ h hk ht => h hk.symm ht.symm⟩
    by_contra hne
    exact hdistinct.forall hm hm' hne hkey htime
  rintro k f f' (hf | ⟨hf, hexceeds⟩) (hf' | ⟨hf', hexceeds'⟩) htime
  · exact Option.some.inj (hf.symm.trans hf')
  · obtain ⟨m, -, hm⟩ := List.mem_map.mp hf'
    obtain ⟨rfl, rfl⟩ := Prod.mk.inj hm
    exact absurd htime (ne_of_lt (accepts_iff_stored.mp hexceeds' f hf))
  · obtain ⟨m, -, hm⟩ := List.mem_map.mp hf
    obtain ⟨rfl, rfl⟩ := Prod.mk.inj hm
    exact absurd htime.symm (ne_of_lt (accepts_iff_stored.mp hexceeds f' hf'))
  · obtain ⟨m, hm, hstored⟩ := List.mem_map.mp hf
    obtain ⟨rfl, rfl⟩ := Prod.mk.inj hstored
    obtain ⟨m', hm', hstored'⟩ := List.mem_map.mp hf'
    obtain ⟨hkey, rfl⟩ := Prod.mk.inj hstored'
    rw [hmutations m hm m' hm' hkey.symm htime]

/-- Every key ends with its newest fact. -/
theorem lookup_mutations_iff (hdistinct : DistinctPerKey ms) (key : Bytes) (f : Fact) :
    ((ms.map FactMutation.stored).foldl (fun facts e => write Fact.timestamp facts e.1 e.2) self.facts).lookup key =
      some f ↔ Newest self ms key f := by
  have hjoin := isJoin_mutations self ms
  constructor
  · intro h
    -- a mutation that does not exceed the stored fact is no newer than what the key ends with
    have hnewest : ∀ m ∈ ms, m.key = key → m.timestamp ≤ f.timestamp := by
      rintro m hm rfl
      have hbound : ∃ w, ((ms.map FactMutation.stored).foldl
          (fun facts e => write Fact.timestamp facts e.1 e.2) self.facts).lookup m.key = some w ∧
            m.timestamp ≤ w.timestamp := by
        cases hacc : accepts Fact.timestamp self.facts m.key m.fact with
        | true => exact hjoin.newest m.key m.fact (Or.inr ⟨List.mem_map_of_mem hm, hacc⟩)
        | false =>
          obtain ⟨c, hc, hle⟩ := exists_ge_of_rejects hacc
          obtain ⟨w, hw, hcw⟩ := hjoin.newest m.key c (Or.inl hc)
          exact ⟨w, hw, hle.trans hcw⟩
      obtain ⟨w, hw, hle⟩ := hbound
      rwa [Option.some.inj (hw.symm.trans h)] at hle
    rcases hjoin.mem key f h with hstored | ⟨hmem, hexceeds⟩
    · exact .stored f hstored hnewest
    · obtain ⟨m, hm, hstored⟩ := List.mem_map.mp hmem
      obtain ⟨rfl, rfl⟩ := Prod.mk.inj hstored
      exact .mutation m hm rfl (accepts_iff_stored.mp hexceeds) hnewest
  · intro h
    have hmem : (key, f) ∈ contents self.facts ∪
        {e | e ∈ ms.map FactMutation.stored ∧ accepts Fact.timestamp self.facts e.1 e.2 = true} := by
      cases h with
      | stored _ hf => exact Or.inl hf
      | mutation m hm hkey hexceeds =>
        subst hkey
        exact Or.inr ⟨List.mem_map_of_mem hm, accepts_iff_stored.mpr hexceeds⟩
    obtain ⟨w, hw, hle⟩ := hjoin.newest key f hmem
    -- what the key ends with was stored before or comes from a mutation
    have hbounded (hold : ∀ c, self.facts.lookup key = some c → c.timestamp ≤ f.timestamp)
        (hnewest : ∀ m ∈ ms, m.key = key → m.timestamp ≤ f.timestamp) : w.timestamp ≤ f.timestamp := by
      rcases hjoin.mem key w hw with hstored | ⟨hmutation, -⟩
      · exact hold w hstored
      · obtain ⟨m, hm, hstored⟩ := List.mem_map.mp hmutation
        obtain ⟨hkey, rfl⟩ := Prod.mk.inj hstored
        exact hnewest m hm hkey
    have hge : w.timestamp ≤ f.timestamp := by
      cases h with
      | stored _ hf hnewest =>
        refine hbounded (fun c hc => ?_) hnewest
        exact le_of_eq (congrArg Fact.timestamp (Option.some.inj (hc.symm.trans hf)))
      | mutation m hm hkey hexceeds hnewest => exact hbounded (fun c hc => (hexceeds c hc).le) hnewest
    rw [noTies_mutations hdistinct key f w hmem (hjoin.mem key w hw) (le_antisymm hle hge)]
    exact hw

/-- Permuted mutations leave the same facts. -/
theorem foldl_write_perm {ms' : List FactMutation} (hperm : ms.Perm ms') (hdistinct : DistinctPerKey ms) :
    (ms.map FactMutation.stored).foldl (fun facts e => write Fact.timestamp facts e.1 e.2) self.facts =
      (ms'.map FactMutation.stored).foldl (fun facts e => write Fact.timestamp facts e.1 e.2) self.facts := by
  refine (isJoin_mutations self ms).unique ?_ (noTies_mutations hdistinct)
  have hsets : {e | e ∈ ms.map FactMutation.stored ∧ accepts Fact.timestamp self.facts e.1 e.2 = true} =
      {e | e ∈ ms'.map FactMutation.stored ∧ accepts Fact.timestamp self.facts e.1 e.2 = true} := by
    ext e
    simp only [Set.mem_ofPred_eq, (hperm.map FactMutation.stored).mem_iff]
  rw [hsets]
  exact isJoin_mutations self ms'

end

/-- `applyMutation` accepts what exceeds everything applied to the key before. -/
theorem accepts_applyAll (self : Live) (us : List Update) (m : FactMutation) :
    (applyAll self us).1.accepts m = true ↔ Exceeds self (applied (applyAll self us).2) m := by
  rw [show (applyAll self us).1.accepts m = accepts Fact.timestamp (applyAll self us).1.facts m.key m.fact from rfl,
    accepts_iff_stored, facts_applyAll]
  have hjoin := (isJoin_contents Fact.timestamp self.facts).foldl_write
    ((applied (applyAll self us).2).map FactMutation.stored)
  constructor
  · intro h
    refine ⟨fun c hc => ?_, fun m' hm' hkey => ?_⟩
    · obtain ⟨w, hw, hle⟩ := hjoin.newest m.key c (Or.inl hc)
      exact hle.trans_lt (h w hw)
    · have hmem : (m.key, m'.fact) ∈ (applied (applyAll self us).2).map FactMutation.stored := by
        rw [← hkey]
        exact List.mem_map_of_mem hm'
      obtain ⟨w, hw, hle⟩ := hjoin.newest m.key m'.fact (Or.inr hmem)
      exact lt_of_le_of_lt hle (h w hw)
  · rintro ⟨hstored, hmutations⟩ w hw
    rcases hjoin.mem m.key w hw with hw | hw
    · exact hstored w hw
    · obtain ⟨m', hm', hstored'⟩ := List.mem_map.mp hw
      obtain ⟨hkey, rfl⟩ := Prod.mk.inj hstored'
      exact hmutations m' hm' hkey

/-- **The facts do not depend on the order of the mutations or on the function that applies them**: two runs over
the same mutations, distinct per key, leave the same facts, of every key the newest one, and `applyMutation`
reports acceptance exactly for what exceeded everything applied to its key before. -/
theorem order_independent (self : Live) (us us' : List Update)
    (hperm : (applied (applyAll self us).2).Perm (applied (applyAll self us').2))
    (hdistinct : DistinctPerKey (applied (applyAll self us).2)) :
    (applyAll self us).1.facts = (applyAll self us').1.facts ∧
      (∀ key f, (applyAll self us).1.facts.lookup key = some f ↔
        Newest self (applied (applyAll self us).2) key f) ∧
      ∀ before u report after, (applyAll self us).2 = before ++ (u, .ok report) :: after → u.dirty = true →
        ∃ accepted, report = some accepted ∧ (accepted = true ↔ Exceeds self (applied before) u.mutation) := by
  refine ⟨?_, ?_, ?_⟩
  · rw [facts_applyAll, facts_applyAll]
    exact foldl_write_perm hperm hdistinct
  · intro key f
    rw [facts_applyAll]
    exact lookup_mutations_iff hdistinct key f
  · intro before u report after hsplit hdirty
    obtain ⟨us'', rfl, hresult⟩ := applyAll_split hsplit
    rcases u.apply_cases (applyAll self us'').1 with ⟨err, herr⟩ | ⟨report', hok, -, hreport⟩
    · rw [herr] at hresult
      cases hresult
    · obtain rfl := Except.ok.inj (hok.symm.trans hresult)
      rw [hreport, if_pos hdirty]
      exact ⟨_, rfl, accepts_applyAll self us'' u.mutation⟩

/-- A newer and an older mutation of one key, in both orders and through both functions. -/
theorem order_independent_example :
    let newer : FactMutation := ⟨[116], 1, 2, [110], ⟨200, 0, 1⟩, ⟨2, 1, [1]⟩⟩
    let older : FactMutation := ⟨[116], 1, 2, [111], ⟨100, 0, 1⟩, ⟨2, 1, [1]⟩⟩
    (applyAll .init [⟨newer, true, none⟩, ⟨older, true, none⟩]).1.facts =
      (applyAll .init [⟨older, true, none⟩, ⟨newer, false, none⟩]).1.facts := by
  intro newer older
  have hfaultless : ∀ dirty dirty' (m m' : FactMutation), ∀ u ∈ [Update.mk m dirty none, ⟨m', dirty', none⟩],
      u.fault = none := by
    intro dirty dirty' m m' u hu
    rcases List.mem_cons.mp hu with rfl | hu
    · rfl
    · rw [List.mem_singleton.mp hu]
  refine (order_independent .init [⟨newer, true, none⟩, ⟨older, true, none⟩]
    [⟨older, true, none⟩, ⟨newer, false, none⟩] ?_ ?_).1
  · rw [applied_of_faultless _ (hfaultless true true newer older),
      applied_of_faultless _ (hfaultless true false older newer)]
    exact .swap older newer []
  · rw [applied_of_faultless _ (hfaultless true true newer older)]
    unfold DistinctPerKey
    decide

end Slung.Wal
