import Slung.Engine.Coherence

/-!
# Slung.Engine.Restart — a session writes after everything that it recovered

The clock of a session starts at the latest timestamp of its namespace and every event is after what the clock
shows, whatever the wall does.  So nothing that the session writes loses a comparison of timestamps, neither in
the log nor in the store (`Accepting`).
-/

namespace Slung

open Slung.Lib

variable {std : StdLib}

/-- No write of the session is turned away because something is newer. -/
structure Accepting (ctx : Context std.wyhash) : Prop where
  /-- source data, in the log -/
  persist : ∀ key mapped wallNow ts clock fails ctx' accepted,
    ctx.clock.sendWithWall wallNow = some (ts, clock) →
    ({ ctx with clock := clock } : Context std.wyhash).persistMutation fails (ctx.sourceMutation key mapped ts) =
      some (ctx', accepted) → accepted = true
  /-- source data and the writes of rules, in the store -/
  put : ∀ key value cause wallNow ts clock fault store accepted,
    ctx.clock.sendWithWall wallNow = some (ts, clock) →
    ctx.lwwStore.put fault key ts value cause = .ok (store, accepted) → accepted = true
  /-- a write that a rule is told is done -/
  set : ∀ call ctx', slungSet ctx call = (ctx', .status 0) →
    ctx'.cascadeOutputs.map Write.of = ctx.cascadeOutputs.map Write.of ++ [call.write ctx'.clock.now] ∧
      (ctx'.lwwStore.get (formatKey ctx.namespaceId call.entity call.component)).map LwwRegistry.Entry.hlc =
        some ctx'.clock.now
  /-- the writes of rules, in the log, one after the other -/
  checkpoint : ∀ live before m after, ctx.storage = some live → ctx.cascadeOutputs = before ++ m :: after →
    (before.foldl Wal.Live.putFact live).accepts m = true

section

variable {memory : Prop} {namespaceId : NamespaceId} {live : Wal.Live} {ctx ctx₀ ctx' : Context std.wyhash}
  {claims : ClaimRegister} {t ts : Timestamp}

/-- The log accepts each output after those before it. -/
theorem InCascade.accepts_output (h : InCascade ctx₀ live claims t ctx) {before after : List Wal.FactMutation}
    {m : Wal.FactMutation} (hsplit : ctx.cascadeOutputs = before ++ m :: after) :
    (before.foldl Wal.Live.putFact live).accepts m = true := by
  have hordered := h.ordered
  rw [hsplit, List.map_append, List.pairwise_append] at hordered
  obtain ⟨hbefore, -, hless⟩ := hordered
  have hmem : ∀ m' ∈ before ++ [m], m' ∈ ctx.cascadeOutputs := by
    rw [hsplit]
    intro m' hm'
    simp only [List.mem_append, List.mem_cons, List.not_mem_nil, or_false] at hm' ⊢
    tauto
  have hold : ∀ m' ∈ before ++ [m], ∀ fact, live.facts.lookup m'.key = some fact →
      fact.timestamp < m'.timestamp := by
    intro m' hm' fact hfact
    rw [Wal.FactMutation.key, h.own m' (hmem m' hm')] at hfact
    exact (h.facts _ _ fact hfact).trans_lt (h.recent m' (hmem m' hm')).1
  refine Wal.Live.accepts_of_newer fun fact hfact => ?_
  rw [Wal.Live.lookup_foldl_putFact live hbefore fun m' hm' => hold m' (by simp [hm']),
    Option.or_eq_some_iff] at hfact
  rcases hfact with hfact | ⟨-, hfact⟩
  · obtain ⟨m', hm', rfl⟩ := Option.map_eq_some_iff.mp hfact
    have hm' := (List.mem_filter.mp (List.mem_of_getLast? hm')).1
    exact hless _ (List.mem_map_of_mem hm') _ (by simp)
  · exact hold m (by simp) fact hfact

/-- The store holds the last output. -/
theorem InCascade.lookup_last (h : InCascade ctx₀ live claims t ctx) {outputs : List Wal.FactMutation}
    {m : Wal.FactMutation} (hlast : ctx.cascadeOutputs = outputs ++ [m]) :
    (ctx.lwwStore.get (formatKey ctx.namespaceId m.entity m.component)).map LwwRegistry.Entry.hlc =
      some m.timestamp := by
  have hmem : m ∈ ctx.cascadeOutputs := by simp [hlast]
  have hkey : formatKey m.namespaceId m.entity m.component = formatKey ctx.namespaceId m.entity m.component := by
    rw [h.own m hmem, h.namespaceId]
  have hpair : (formatKey ctx.namespaceId m.entity m.component, m.timestamp) ∈
      ctx.cascadeUndo.map fun u => (u.key, u.stamp) := by
    rw [h.paired, ← hkey]
    exact List.mem_map_of_mem hmem
  obtain ⟨u, hu, heq⟩ := List.mem_map.mp hpair
  obtain ⟨m', entry, hm', hentry, htimestamp⟩ := h.lookup_of_logged ⟨u, hu, (Prod.mk.inj heq).1⟩
  rw [hlast, List.filter_append, List.filter_cons_of_pos (by simpa using hkey), List.filter_nil,
    List.getLast?_concat] at hm'
  obtain rfl := Option.some.inj hm'
  rw [LwwRegistry.get_eq, hentry, Option.map_some, htimestamp]

/-- **A sound session has its writes accepted.** -/
theorem Sound.accepting (h : Sound memory namespaceId ctx) : Accepting ctx := by
  obtain ⟨ctx₀, live, claims, -, -, -, hcascade⟩ := h
  constructor
  · intro key mapped wallNow ts clock fails ctx' accepted hsend hpersist
    obtain ⟨-, hlt⟩ := Hlc.sendWithWall_some hsend
    rcases Context.persistMutation_cases fails { ctx with clock := clock } (ctx.sourceMutation key mapped ts) with
      hnone | ⟨storage, hstorage, hsome⟩
    · rw [hnone] at hpersist
      cases hpersist
    · rw [hsome] at hpersist
      obtain rfl := Option.some.inj (hcascade.storage.symm.trans hstorage)
      rw [← (Prod.mk.inj (Option.some.inj hpersist)).2]
      exact hcascade.upToDate.accepts hlt
  · intro key value cause wallNow ts clock fault store accepted hsend hput
    obtain ⟨-, hlt⟩ := Hlc.sendWithWall_some hsend
    exact (LwwRegistry.put_newer hput fun existing hl => (hcascade.stored key existing hl).trans_lt hlt).1
  · intro call ctx' hset
    obtain ⟨hcascade', hreported⟩ := hcascade.slungSet_spec hset
    have hdone := hreported.done rfl
    refine ⟨hdone, ?_⟩
    obtain ⟨outputs, rest, hlast, -, hrest⟩ := List.map_eq_append_iff.mp hdone
    obtain ⟨m, hm, hwrite⟩ := List.map_eq_singleton_iff.mp hrest
    have hstored := hcascade'.lookup_last (hm ▸ hlast)
    have hns : ctx.namespaceId = ctx'.namespaceId := hcascade.namespaceId.trans hcascade'.namespaceId.symm
    rw [hns]
    simp only [Write.of, SetCall.write, Write.mk.injEq] at hwrite
    obtain ⟨hentity, hcomponent, -, htimestamp⟩ := hwrite
    rw [← hentity, ← hcomponent, ← htimestamp]
    exact hstored
  · intro live' before m after hstorage hsplit
    obtain rfl := Option.some.inj (hcascade.storage.symm.trans hstorage)
    exact hcascade.accepts_output hsplit

/-- **A restarted session always writes in the future**, of what it recovered and of what it wrote. -/
theorem ModuleSession.writes_in_future (config : ModuleConfig) (storage : Wal.Live) :
    (∀ walls : List ℕ,
      let stamps := (sessionClock (Wal.latestTimestamp storage config.namespaceId)).exact.sends walls
      stamps.Pairwise (fun earlier later => later.compare earlier = .gt) ∧
        ∀ ts ∈ stamps, ∀ entity component fact,
          Wal.getFact storage config.namespaceId entity component = some fact →
            ts.compare fact.timestamp.exact = .gt) ∧
    ∀ ctx : Context std.wyhash, Leads False (ModuleSession.init std config storage) ctx → Accepting ctx := by
  refine ⟨fun walls => ⟨?_, ?_⟩, fun ctx hleads => ?_⟩
  · simp only [Exact.Timestamp.compare_eq_gt]
    exact Exact.Hlc.pairwise_sends _ walls
  · intro ts hts entity component fact hfact
    rw [Exact.Timestamp.compare_eq_gt]
    refine lt_of_le_of_lt ?_ (Exact.Hlc.now_lt_of_mem_sends hts)
    exact not_lt.mp fun hlt => not_lt.mpr (le_sessionClock hfact) (Timestamp.exact_lt_exact.mp hlt)
  · exact ((Settled.init std config storage).sound.reaches hleads).accepting

/-- A wall that is behind the log and runs back. -/
theorem ModuleSession.writes_in_future_example :
    let clock := (sessionClock (Wal.latestTimestamp exampleLive [110])).exact
    (clock.sends [3, 0, 9, 2]).map (fun ts => (ts.wall, ts.logical)) = [(5, 1), (5, 2), (9, 0), (9, 1)] ∧
      (∀ ts ∈ clock.sends [3, 0, 9, 2], ts.compare ⟨5, 0, 1⟩ = .gt) ∧
      Accepting (ModuleSession.init StdLib.fragment exampleConfig exampleLive) := by
  obtain ⟨hstamps, haccepting⟩ := @ModuleSession.writes_in_future StdLib.fragment exampleConfig exampleLive
  refine ⟨by decide +kernel, fun ts hts => ?_, haccepting _ .refl⟩
  have hfact : Wal.getFact exampleLive [110] 1 2 = some ⟨[49], ⟨5, 0, 1⟩, ⟨0, 0, []⟩⟩ := by decide +kernel
  exact (hstamps [3, 0, 9, 2]).2 ts hts 1 2 _ hfact

end

end Slung
