import Slung.Engine.AllOrNothing
import Slung.Engine.Steps

/-!
# Slung.Engine.Coherence — the store of a session agrees with the log

Source data goes to the log first and to the store after it, the writes of rules to the store first and to the
log at the checkpoint, and keys that only the log has are brought into the store.  `Sound` holds after every one
of these steps: the session is in a cascade that started from a store that agrees with the log.  Between two
cascades (`Settled`) that is the store itself.
-/

namespace Slung

open Slung.Lib

variable {std : StdLib}

/-- Every key is that of a component of the namespace whose fact has the timestamp of the entry. -/
def Backed (namespaceId : NamespaceId) (live : Wal.Live) (entries : FMap Bytes LwwRegistry.Entry) : Prop :=
  ∀ key entry, entries.lookup key = some entry → ∃ entity component fact,
    key = formatKey namespaceId entity component ∧
      Wal.getFact live namespaceId entity component = some fact ∧ fact.timestamp = entry.hlc

/-- No entry is after `t`. -/
def UpTo (t : Timestamp) (entries : FMap Bytes LwwRegistry.Entry) : Prop :=
  ∀ key entry, entries.lookup key = some entry → entry.hlc ≤ t

/-- A session between two cascades; the store agrees with the log if there was always `memory` for it. -/
structure Settled (memory : Prop) (namespaceId : NamespaceId) (live : Wal.Live) (ctx : Context std.wyhash) :
    Prop where
  storage : ctx.storage = some live
  within : ctx.namespaceId = namespaceId
  quiet : ctx.Quiet
  backed : memory → Backed namespaceId live ctx.lwwStore.entries
  stored : UpTo ctx.clock.now ctx.lwwStore.entries
  facts : ∀ entity component fact,
    Wal.getFact live namespaceId entity component = some fact → fact.timestamp ≤ ctx.clock.now

/-- A session in a cascade that started in `ctx₀`. -/
structure Course (memory : Prop) (namespaceId : NamespaceId) (ctx₀ : Context std.wyhash) (live : Wal.Live)
    (claims : ClaimRegister) (ctx : Context std.wyhash) : Prop where
  within : ctx₀.namespaceId = namespaceId
  backed : memory → Backed ctx₀.namespaceId live ctx₀.lwwStore.entries
  stored : UpTo ctx₀.clock.now ctx₀.lwwStore.entries
  cascade : InCascade ctx₀ live claims ctx.clock.now ctx

/-- A session at any time. -/
def Sound (memory : Prop) (namespaceId : NamespaceId) (ctx : Context std.wyhash) : Prop :=
  ∃ ctx₀ live claims, Course memory namespaceId ctx₀ live claims ctx

section

variable {memory : Prop} {namespaceId : NamespaceId} {live : Wal.Live} {ctx ctx₀ : Context std.wyhash}
  {claims : ClaimRegister}

/-- What is brought in from the log agrees with it. -/
theorem Backed.hydrated {base : FMap Bytes LwwRegistry.Entry}
    (h : Backed ctx₀.namespaceId live ctx₀.lwwStore.entries) (hh : Hydrated ctx₀ live base) :
    Backed ctx₀.namespaceId live base := by
  intro key entry hl
  rcases hh key with heq | ⟨-, entity, component, fact, entry', hkey, hfact, hentry, -, htimestamp⟩
  · exact h key entry (heq ▸ hl)
  · obtain rfl := Option.some.inj (hentry.symm.trans hl)
    exact ⟨entity, component, fact, hkey, hfact, htimestamp.symm⟩

theorem UpTo.hydrated {base : FMap Bytes LwwRegistry.Entry} (h : UpTo ctx₀.clock.now ctx₀.lwwStore.entries)
    (hfacts : ∀ entity component fact,
      Wal.getFact live ctx₀.namespaceId entity component = some fact → fact.timestamp ≤ ctx₀.clock.now)
    (hh : Hydrated ctx₀ live base) : UpTo ctx₀.clock.now base := by
  intro key entry hl
  rcases hh key with heq | ⟨-, entity, component, fact, entry', -, hfact, hentry, -, htimestamp⟩
  · exact h key entry (heq ▸ hl)
  · obtain rfl := Option.some.inj (hentry.symm.trans hl)
    exact htimestamp ▸ hfacts entity component fact hfact

/-- Between two cascades a new one may start. -/
theorem Settled.course (h : Settled memory namespaceId live ctx) :
    Course memory namespaceId ctx live ctx.claimRegister ctx where
  within := h.within
  backed := h.within ▸ h.backed
  stored := h.stored
  cascade := {
    storage := h.storage
    namespaceId := rfl
    claims := rfl
    unwinds := ⟨ctx.lwwStore.entries, by rw [h.quiet.2.2]; rfl, fun key => Or.inl rfl⟩
    logged := by simp [h.quiet.2.2]
    paired := by simp [h.quiet.2.1, h.quiet.2.2]
    signals := by simp [h.quiet.1]
    started := le_rfl
    stored := h.stored
    facts := h.within ▸ h.facts
    own := by simp [h.quiet.2.1]
    recent := by simp [h.quiet.2.1]
    ordered := by simp [h.quiet.2.1]
    cached := by simp [h.quiet.2.1, lastWrite] }

theorem Settled.sound (h : Settled memory namespaceId live ctx) : Sound memory namespaceId ctx :=
  ⟨_, _, _, h.course⟩

/-- Where no cascade is in progress the store itself agrees with the log. -/
theorem Sound.settled (h : Sound memory namespaceId ctx) (hquiet : ctx.Quiet) :
    ∃ live, Settled memory namespaceId live ctx := by
  obtain ⟨ctx₀, live, claims, rfl, hbacked, hstored, hcascade⟩ := h
  obtain ⟨base, hbase, hhydrated⟩ := hcascade.unwinds
  rw [hquiet.2.2] at hbase
  obtain rfl := Option.some.inj hbase
  exact ⟨live, hcascade.storage, hcascade.namespaceId, hquiet, fun hm => (hbacked hm).hydrated hhydrated,
    hcascade.stored, fun entity component fact hfact => (hcascade.facts _ _ _ hfact).trans hcascade.started⟩

/-! ## The ends of a cascade -/

theorem Course.settled_discard (h : Course memory namespaceId ctx₀ live claims ctx) :
    Settled memory namespaceId live ctx.discardCascade := by
  obtain ⟨rfl, hbacked, hstored, hcascade⟩ := h
  obtain ⟨hhydrated, hqueue, houtputs, hundo, -, hstorage, hns⟩ := hcascade.discarded
  refine ⟨hstorage, hns, ⟨hqueue, houtputs, hundo⟩, fun hm => (hbacked hm).hydrated hhydrated, ?_,
    fun entity component fact hfact => (hcascade.facts _ _ _ hfact).trans hcascade.started⟩
  exact fun key entry hl => (hstored.hydrated hcascade.facts hhydrated key entry hl).trans hcascade.started

section Checkpoint

variable {t : Timestamp}

/-- Outputs under the key of the store are outputs under the key of the log. -/
theorem InCascade.filter_formatKey (h : InCascade ctx₀ live claims t ctx) (entity : EntityId)
    (component : ComponentId) :
    (ctx.cascadeOutputs.filter fun m =>
        formatKey m.namespaceId m.entity m.component = formatKey ctx₀.namespaceId entity component) =
      ctx.cascadeOutputs.filter fun m => m.key = Wal.makeKey ctx₀.namespaceId entity component := by
  refine List.filter_congr fun m hm => ?_
  rw [Wal.FactMutation.key, h.own m hm]
  refine decide_eq_decide.mpr ⟨fun heq => ?_, fun heq => ?_⟩
  · obtain ⟨rfl, rfl⟩ := formatKey_inj heq
    rfl
  · obtain ⟨-, rfl, rfl⟩ := Wal.makeKey_inj heq
    rfl

/-- A key of the undo log holds the timestamp of its last output. -/
theorem InCascade.lookup_of_logged (h : InCascade ctx₀ live claims t ctx) {key : Bytes}
    (hlogged : ∃ u ∈ ctx.cascadeUndo, u.key = key) : ∃ m entry,
      (ctx.cascadeOutputs.filter fun m => formatKey m.namespaceId m.entity m.component = key).getLast? = some m ∧
        ctx.lwwStore.entries.lookup key = some entry ∧ entry.hlc = m.timestamp := by
  obtain ⟨base, hbase, -⟩ := h.unwinds
  have hpairs : ((ctx.cascadeUndo.filter fun u => u.key = key).getLast?).map (fun u => (u.key, u.stamp)) =
      ((ctx.cascadeOutputs.filter fun m =>
        formatKey m.namespaceId m.entity m.component = key).getLast?).map fun m =>
          (formatKey m.namespaceId m.entity m.component, m.timestamp) := by
    rw [← List.getLast?_map, ← List.getLast?_map]
    have hfilter := congrArg (List.filter fun p : Bytes × Timestamp => p.1 = key) h.paired
    rw [List.filter_map, List.filter_map] at hfilter
    exact congrArg List.getLast? hfilter
  obtain ⟨u, hu, hkey⟩ := hlogged
  have hne : (ctx.cascadeUndo.filter fun u => u.key = key) ≠ [] :=
    List.ne_nil_of_mem (List.mem_filter.mpr ⟨hu, decide_eq_true hkey⟩)
  obtain ⟨last, hlast⟩ := Option.isSome_iff_exists.mp (List.getLast?_isSome.mpr hne)
  obtain ⟨entry, hentry, hstamp⟩ := stamp_of_unwind hbase hlast
  rw [hlast] at hpairs
  obtain ⟨m, hm, hpair⟩ := Option.map_eq_some_iff.mp hpairs.symm
  exact ⟨m, entry, hm, hentry, hstamp.trans (Prod.mk.inj hpair).2.symm⟩

/-- **After a checkpoint the store agrees with the log**: the last write of a key is its fact, and nothing else
changes. -/
theorem InCascade.backed_checkpoint (h : InCascade ctx₀ live claims t ctx)
    (hbacked : Backed ctx₀.namespaceId live ctx₀.lwwStore.entries) :
    Backed ctx₀.namespaceId (ctx.cascadeOutputs.foldl Wal.Live.putFact live) ctx.lwwStore.entries := by
  intro key entry hl
  by_cases hlogged : ∃ u ∈ ctx.cascadeUndo, u.key = key
  · obtain ⟨m, entry', hm, hentry', htimestamp⟩ := h.lookup_of_logged hlogged
    obtain rfl := Option.some.inj (hentry'.symm.trans hl)
    have hmem := List.mem_filter.mp (List.mem_of_getLast? hm)
    have hkey : formatKey ctx₀.namespaceId m.entity m.component = key := by
      rw [← h.own m hmem.1]
      exact of_decide_eq_true hmem.2
    rw [← hkey, h.filter_formatKey] at hm
    refine ⟨m.entity, m.component, m.fact, hkey.symm, ?_, htimestamp.symm⟩
    rw [Wal.getFact, h.lookup_checkpoint, hm]
    rfl
  · obtain ⟨base, hbase, hhydrated⟩ := h.unwinds
    have hunlogged : ∀ u ∈ ctx.cascadeUndo, u.key ≠ key := fun u hu heq => hlogged ⟨u, hu, heq⟩
    rw [← lookup_unwind hunlogged hbase] at hl
    obtain ⟨entity, component, fact, hkey, hfact, htimestamp⟩ := hbacked.hydrated hhydrated key entry hl
    refine ⟨entity, component, fact, hkey, ?_, htimestamp⟩
    have hnone : (ctx.cascadeOutputs.filter fun m =>
        m.key = Wal.makeKey ctx₀.namespaceId entity component) = [] := by
      rw [← h.filter_formatKey]
      refine List.filter_eq_nil_iff.mpr fun m hm heq => ?_
      have hpair : (key, m.timestamp) ∈ ctx.cascadeUndo.map fun u => (u.key, u.stamp) := by
        rw [h.paired, hkey, ← of_decide_eq_true heq]
        exact List.mem_map_of_mem hm
      obtain ⟨u, hu, heq⟩ := List.mem_map.mp hpair
      exact hunlogged u hu (Prod.mk.inj heq).1
    rw [Wal.getFact, h.lookup_checkpoint, hnone]
    exact hfact

theorem InCascade.facts_checkpoint (h : InCascade ctx₀ live claims t ctx) {entity : EntityId}
    {component : ComponentId} {fact : Wal.Fact}
    (hfact : Wal.getFact (ctx.cascadeOutputs.foldl Wal.Live.putFact live) ctx₀.namespaceId entity component =
      some fact) : fact.timestamp ≤ t := by
  rw [Wal.getFact, h.lookup_checkpoint, Option.or_eq_some_iff] at hfact
  rcases hfact with hfact | ⟨-, hfact⟩
  · obtain ⟨m, hm, rfl⟩ := Option.map_eq_some_iff.mp hfact
    exact (h.recent m (List.mem_filter.mp (List.mem_of_getLast? hm)).1).2
  · exact (h.facts entity component fact hfact).trans h.started

theorem Course.settled_checkpoint (h : Course memory namespaceId ctx₀ live claims ctx)
    (hqueue : ctx.dirtyQueue.entries = []) {ctx' : Context std.wyhash} {ackId : ℤ}
    (hflush : ctx.flushCascade none ackId = .ok ctx') : ∃ live', Settled memory namespaceId live' ctx' := by
  obtain ⟨rfl, hbacked, hstored, hcascade⟩ := h
  simp only [Context.flushCascade, hcascade.storage, Storage.flushCascade] at hflush
  obtain rfl := Except.ok.inj hflush
  exact ⟨_, rfl, hcascade.namespaceId, ⟨hqueue, rfl, rfl⟩, fun hm => hcascade.backed_checkpoint (hbacked hm),
    hcascade.stored, fun entity component fact => hcascade.facts_checkpoint⟩

end Checkpoint

/-! ## Ingestion -/

theorem Wal.Live.accepts_of_newer {m : Wal.FactMutation}
    (hnew : ∀ fact, live.facts.lookup m.key = some fact → fact.timestamp < m.timestamp) :
    live.accepts m = true := by
  unfold Wal.Live.accepts
  cases hl : live.facts.lookup m.key with
  | none => exact accepts_of_absent hl
  | some fact =>
    rw [accepts_of_lookup hl, decide_eq_true_iff]
    exact hnew fact hl

/-- The facts after an accepted mutation. -/
theorem getFact_putDirty {m : Wal.FactMutation} (hm : m.namespaceId = namespaceId) (haccepts : live.accepts m = true)
    (entity : EntityId) (component : ComponentId) :
    Wal.getFact (live.putDirty m) namespaceId entity component =
      if entity = m.entity ∧ component = m.component then some m.fact
      else Wal.getFact live namespaceId entity component := by
  rw [Wal.Live.putDirty_of_accepts haccepts, Wal.getFact, FMap.lookup_insert_eq]
  refine if_congr ⟨fun heq => (Wal.makeKey_inj heq).2, ?_⟩ rfl rfl
  rintro ⟨rfl, rfl⟩
  rw [Wal.FactMutation.key, hm]

/-- The log accepts what a session ingests. -/
theorem Context.UpToDate.accepts (h : ctx.UpToDate live) {key : ForwardKey} {mapped : Bytes} {ts : Timestamp}
    (hts : ctx.clock.now < ts) : live.accepts (ctx.sourceMutation key mapped ts) = true :=
  Wal.Live.accepts_of_newer fun fact hfact => (h.facts key.entity key.component fact hfact).trans_lt hts

theorem Context.UpToDate.getFact_ingested (h : ctx.UpToDate live) {key : ForwardKey} {mapped : Bytes}
    {ts : Timestamp} (hts : ctx.clock.now < ts) (entity : EntityId) (component : ComponentId) :
    Wal.getFact (live.putDirty (ctx.sourceMutation key mapped ts)) ctx.namespaceId entity component =
      if entity = key.entity ∧ component = key.component then some (ctx.sourceMutation key mapped ts).fact
      else Wal.getFact live ctx.namespaceId entity component :=
  getFact_putDirty rfl (h.accepts hts) entity component

/-- The facts after a source mutation are not after the clock. -/
theorem Context.UpToDate.le_putDirty (h : ctx.UpToDate live) {key : ForwardKey} {mapped : Bytes} {ts : Timestamp}
    (hts : ctx.clock.now < ts) {entity : EntityId} {component : ComponentId} {fact : Wal.Fact}
    (hfact : Wal.getFact (live.putDirty (ctx.sourceMutation key mapped ts)) ctx.namespaceId entity component =
      some fact) : fact.timestamp ≤ ts := by
  rw [h.getFact_ingested hts] at hfact
  split_ifs at hfact
  · obtain rfl := Option.some.inj hfact
    exact le_rfl
  · exact (h.facts entity component fact hfact).trans hts.le

theorem Settled.upToDate (h : Settled memory namespaceId live ctx) : ctx.UpToDate live where
  store key entry hget := h.stored key entry (by rw [← LwwRegistry.get_eq]; exact hget)
  facts entity component fact hfact := h.facts entity component fact (h.within ▸ hfact)

theorem Settled.le_putDirty (h : Settled memory namespaceId live ctx) {key : ForwardKey} {mapped : Bytes}
    {ts : Timestamp} (hts : ctx.clock.now < ts) {entity : EntityId} {component : ComponentId} {fact : Wal.Fact}
    (hfact : Wal.getFact (live.putDirty (ctx.sourceMutation key mapped ts)) namespaceId entity component =
      some fact) : fact.timestamp ≤ ts :=
  h.upToDate.le_putDirty hts (h.within ▸ hfact)

/-- The store agrees with the log when it has taken what the log took. -/
theorem Settled.backed_insert (h : Settled memory namespaceId live ctx) (hm : memory) {key : ForwardKey}
    {mapped : Bytes} {ts : Timestamp} (hts : ctx.clock.now < ts) {value : Value} {cause : CausalTag} :
    Backed namespaceId (live.putDirty (ctx.sourceMutation key mapped ts))
      (ctx.lwwStore.entries.insert (formatKey namespaceId key.entity key.component) ⟨ts, value, cause⟩) := by
  intro key' entry hl
  rw [FMap.lookup_insert_eq] at hl
  by_cases heq : key' = formatKey namespaceId key.entity key.component
  · rw [if_pos heq] at hl
    obtain rfl := Option.some.inj hl
    refine ⟨key.entity, key.component, (ctx.sourceMutation key mapped ts).fact, heq, ?_, rfl⟩
    rw [getFact_putDirty h.within (h.upToDate.accepts hts)]
    exact if_pos ⟨rfl, rfl⟩
  · rw [if_neg heq] at hl
    obtain ⟨entity, component, fact, hkey, hfact, htimestamp⟩ := h.backed hm key' entry hl
    refine ⟨entity, component, fact, hkey, ?_, htimestamp⟩
    rw [getFact_putDirty h.within (h.upToDate.accepts hts), if_neg, hfact]
    rintro ⟨rfl, rfl⟩
    exact heq hkey

/-- **Ingestion keeps the store and the log in agreement.** -/
theorem Settled.ingested (h : Settled memory namespaceId live ctx) {key : ForwardKey} {call : MapperCall}
    {ctx' : Context std.wyhash} (hput : memory → call.put = none) (hi : Ingested ctx key call ctx') :
    ∃ live', Settled memory namespaceId live' ctx' := by
  have hstored {ts : Timestamp} (hlt : ctx.clock.now < ts) : UpTo ts ctx.lwwStore.entries :=
    fun key entry hl => (h.stored key entry hl).trans hlt.le
  cases hi with
  | nothing => exact ⟨live, h⟩
  | unlogged hsend =>
    obtain ⟨rfl, hlt⟩ := Hlc.sendWithWall_some hsend
    exact ⟨live, h.storage, h.within, h.quiet, h.backed, hstored hlt,
      fun entity component fact hfact => (h.facts _ _ _ hfact).trans hlt.le⟩
  | rejected hsend hstorage hrejects =>
    obtain ⟨rfl, hlt⟩ := Hlc.sendWithWall_some hsend
    obtain rfl := Option.some.inj (h.storage.symm.trans hstorage)
    rw [h.upToDate.accepts hlt] at hrejects
    cases hrejects
  | uncached hsend hstorage haccepts hfails =>
    obtain ⟨rfl, hlt⟩ := Hlc.sendWithWall_some hsend
    obtain rfl := Option.some.inj (h.storage.symm.trans hstorage)
    refine ⟨_, rfl, h.within, h.quiet, fun hm => ?_, hstored hlt, fun _ _ _ => h.le_putDirty hlt⟩
    rw [hput hm] at hfails
    exact absurd hfails (LwwRegistry.put_ne_error _ _ _ _ _ _)
  | cached hsend hstorage hkey haccepts hcached =>
    obtain ⟨rfl, hlt⟩ := Hlc.sendWithWall_some hsend
    obtain rfl := Option.some.inj (h.storage.symm.trans hstorage)
    obtain ⟨-, hentries⟩ := LwwRegistry.put_newer hcached fun existing hl => (h.stored _ _ hl).trans_lt hlt
    rw [hkey, h.within] at hentries
    refine ⟨_, rfl, h.within, h.quiet, fun hm => ?_, ?_, fun _ _ _ => h.le_putDirty hlt⟩
    · rw [hentries]
      exact h.backed_insert hm hlt
    · intro key' entry hl
      rw [hentries, FMap.lookup_insert_eq] at hl
      split_ifs at hl
      · obtain rfl := Option.some.inj hl
        exact le_rfl
      · exact hstored hlt key' entry hl

/-! ## Every step -/

/-- What other sessions do to the log. -/
theorem Sound.others (h : Sound memory namespaceId ctx) {storage : Wal.Live}
    (hsame : ∀ entity component,
      Wal.getFact storage ctx.namespaceId entity component = ctx.loadFact entity component) :
    Sound memory namespaceId { ctx with storage := some storage } := by
  obtain ⟨ctx₀, live, claims, rfl, hbacked, hstored, hcascade⟩ := h
  have hfacts : ∀ entity component, Wal.getFact storage ctx₀.namespaceId entity component =
      Wal.getFact live ctx₀.namespaceId entity component := by
    intro entity component
    have := hsame entity component
    rwa [Context.loadFact, hcascade.storage, hcascade.namespaceId] at this
  refine ⟨ctx₀, storage, claims, rfl, ?_, hstored, { hcascade with storage := rfl, unwinds := ?_, facts := ?_ }⟩
  · simpa only [Backed, hfacts] using hbacked
  · simpa only [Hydrated, hfacts] using hcascade.unwinds
  · simpa only [hfacts] using hcascade.facts

/-- Records about other namespaces are such. -/
theorem allowed_others (hstorage : ctx.storage = some live) {r : Wal.Record}
    (hr : ∀ m ∈ r.mutations, m.namespaceId ≠ ctx.namespaceId) :
    Allowed memory ctx (.others (live.replay r)) := by
  intro entity component
  rw [Context.loadFact, hstorage, Option.bind_some]
  have hkeys : ∀ m ∈ r.mutations, Wal.makeKey ctx.namespaceId entity component ≠ m.key :=
    fun m hm heq => hr m hm (Wal.makeKey_inj heq).1.symm
  have hsame : ∀ (put : Wal.Live → Wal.FactMutation → Wal.Live) (ms : List Wal.FactMutation) (self : Wal.Live),
      (∀ self m, (put self m).facts = write Wal.Fact.timestamp self.facts m.key m.fact) →
      (∀ m ∈ ms, Wal.makeKey ctx.namespaceId entity component ≠ m.key) →
      Wal.getFact (ms.foldl put self) ctx.namespaceId entity component =
        Wal.getFact self ctx.namespaceId entity component := by
    intro put ms self hput hms
    induction ms generalizing self with
    | nil => rfl
    | cons m ms ih =>
      rw [List.foldl_cons, ih (put self m) fun m' hm' => hms m' (by simp [hm']), Wal.getFact, hput,
        lookup_write_ne (hms m (by simp))]
      rfl
  cases r with
  | batch ms => exact hsame Wal.Live.putDirty ms live (fun _ _ => rfl) hkeys
  | ack id => rfl
  | cascade id ms => exact hsame Wal.Live.putFact ms live (fun _ _ => rfl) hkeys

/-- **A cascade that ends leaves a store that agrees with the log.** -/
theorem Sound.ends (h : Sound memory namespaceId ctx) {l : SessionLabel} (hl : l.Ends) {ctx' : Context std.wyhash}
    (hs : session.step ctx l = some ctx') : ∃ live, Settled memory namespaceId live ctx' := by
  obtain ⟨ctx₀, live, claims, hcourse⟩ := h
  cases l with
  | checkpoint ackId =>
    by_cases hqueue : ctx.dirtyQueue.entries = []
    swap
    · simp only [session, if_neg hqueue] at hs
      cases hs
    simp only [session, if_pos hqueue] at hs
    cases hflush : ctx.flushCascade none ackId with
    | error e =>
      rw [hflush] at hs
      cases hs
    | ok context =>
      rw [hflush] at hs
      obtain rfl := Option.some.inj hs
      exact hcourse.settled_checkpoint hqueue hflush
  | discard =>
    obtain rfl := Option.some.inj hs
    exact ⟨live, hcourse.settled_discard⟩
  | _ => exact hl.elim

/-- **Every step of a session keeps it sound.** -/
theorem Sound.step (h : Sound memory namespaceId ctx) {l : SessionLabel} {ctx' : Context std.wyhash}
    (hl : Allowed memory ctx l) (hs : session.step ctx l = some ctx') : Sound memory namespaceId ctx' := by
  cases l with
  | set call =>
    obtain ⟨ctx₀, live, claims, hns, hbacked, hstored, hcascade⟩ := h
    cases hset : slungSet ctx call with
    | mk ctx₁ result =>
      have hctx : ctx₁ = ctx' := by
        simp only [session, hset] at hs
        cases result <;> first | exact Option.some.inj hs | cases hs
      rw [← hctx]
      exact ⟨ctx₀, live, claims, hns, hbacked, hstored, (hcascade.slungSet_spec hset).1⟩
  | now wallNow =>
    obtain ⟨ctx₀, live, claims, hns, hbacked, hstored, hcascade⟩ := h
    obtain ⟨⟨ts, clock⟩, hsend, rfl⟩ := Option.map_eq_some_iff.mp hs
    obtain ⟨rfl, hlt⟩ := Hlc.sendWithWall_some hsend
    have hmono := hcascade.mono hlt.le
    exact ⟨ctx₀, live, claims, hns, hbacked, hstored, { hmono with }⟩
  | pop =>
    obtain ⟨ctx₀, live, claims, hns, hbacked, hstored, hcascade⟩ := h
    obtain ⟨popped, hpop, rfl⟩ := Option.map_eq_some_iff.mp hs
    have hrun : InRun ctx₀ live claims (⟨ctx, 0, []⟩ : Run std) := hcascade
    exact ⟨ctx₀, live, claims, hns, hbacked, hstored, InRun.pop hrun hpop⟩
  | turn claims' entity rule =>
    obtain ⟨ctx₀, live, claims, hns, hbacked, hstored, hcascade⟩ := h
    obtain rfl := Option.some.inj hs
    exact ⟨ctx₀, live, claims', hns, hbacked, hstored, { hcascade with claims := rfl }⟩
  | begin =>
    obtain ⟨ctx₀, live, claims, hns, hbacked, hstored, hcascade⟩ := h
    obtain rfl := Option.some.inj hs
    exact ⟨ctx₀, live, claims, hns, hbacked, hstored, { hcascade with }⟩
  | checkpoint ackId =>
    obtain ⟨live, hsettled⟩ := h.ends (l := .checkpoint ackId) trivial hs
    exact hsettled.sound
  | discard =>
    obtain ⟨live, hsettled⟩ := h.ends (l := .discard) trivial hs
    exact hsettled.sound
  | ingest key call =>
    by_cases hquiet : ctx.Quiet
    swap
    · simp only [session, if_neg hquiet] at hs
      cases hs
    obtain ⟨live, hsettled⟩ := h.settled hquiet
    cases hone : ingestOne ctx key call with
    | mk ctx₁ stop =>
      have hctx : ctx₁ = ctx' := by
        simp only [session, if_pos hquiet, hone] at hs
        rcases stop with _ | ⟨e⟩ | _ <;> first | exact Option.some.inj hs | cases hs
      obtain ⟨live', hsettled'⟩ := hsettled.ingested hl (ingestOne_spec hone)
      rw [← hctx]
      exact hsettled'.sound
  | others storage =>
    obtain rfl := Option.some.inj hs
    exact h.others hl

/-- The clock of a new session is not before any fact of its namespace. -/
theorem le_sessionClock {storage : Wal.Live} {entity : EntityId} {component : ComponentId} {fact : Wal.Fact}
    (hfact : Wal.getFact storage namespaceId entity component = some fact) :
    fact.timestamp ≤ (sessionClock (Wal.latestTimestamp storage namespaceId)).now := by
  cases hlatest : Wal.latestTimestamp storage namespaceId with
  | none =>
    rw [Wal.getFact_of_latestTimestamp_none hlatest] at hfact
    cases hfact
  | some t => exact Wal.le_latestTimestamp hlatest hfact

/-- A new session has an empty store. -/
theorem Settled.init (std : StdLib) (config : ModuleConfig) (storage : Wal.Live) :
    Settled memory config.namespaceId storage (ModuleSession.init std config storage) where
  storage := rfl
  within := rfl
  quiet := ⟨rfl, rfl, rfl⟩
  backed _ key entry hl := by simp [ModuleSession.init, LwwRegistry.init] at hl
  stored key entry hl := by simp [ModuleSession.init, LwwRegistry.init] at hl
  facts entity component fact hfact := le_sessionClock hfact

theorem Sound.reaches (h : Sound memory namespaceId ctx) {ctx' : Context std.wyhash} (hr : Leads memory ctx ctx') :
    Sound memory namespaceId ctx' :=
  hr.invariant h fun _ _ _ hi hl hs => hi.step hl hs

/-- What a session does between two boundaries leaves the store in agreement with the log. -/
theorem Settled.steps (h : Settled True namespaceId live ctx) {l : SessionStep} {ctx' : Context std.wyhash}
    (hl : ModuleSession.Allowed ctx l) (hs : ModuleSession.steps.step ctx l = some ctx') :
    ∃ live', Settled True namespaceId live' ctx' := by
  cases l with
  | ingest sourceName calls =>
    cases hingest : ingestSourceData sourceName ctx calls with
    | mk ctx₁ stop =>
      simp only [ModuleSession.steps, hingest] at hs
      have hend : ctx₁ = ctx' ∧ stop ≠ some .panic := by
        rcases stop with _ | ⟨e⟩ | _
        · exact ⟨Option.some.inj hs, nofun⟩
        · exact ⟨Option.some.inj hs, nofun⟩
        · cases hs
      obtain ⟨rfl, hstop⟩ := hend
      obtain ⟨hleads, hquiet⟩ := ingest_leads h.quiet (fun _ => hl) hingest hstop
      exact (h.sound.reaches hleads).settled hquiet
  | run env maxDepth =>
    cases hrun : runTimed env maxDepth ctx with
    | mk run result =>
      simp only [ModuleSession.steps, hrun] at hs
      have hend : run.context = ctx' ∧ result ≠ .error .panic := by
        rcases result with ⟨e | _⟩ | n
        · exact ⟨Option.some.inj hs, nofun⟩
        · cases hs
        · exact ⟨Option.some.inj hs, nofun⟩
      obtain ⟨rfl, hresult⟩ := hend
      obtain ⟨ctx₁, l, hleads, hends, hlast⟩ := runTimed_leads hrun hresult
      exact (h.sound.reaches hleads).ends hends hlast
  | others storage =>
    obtain rfl := Option.some.inj hs
    exact (h.sound.others hl).settled h.quiet

/-- **The store and the log of a session agree at every boundary.** -/
theorem ModuleSession.coherent (config : ModuleConfig) (storage : Wal.Live) {ctx : Context std.wyhash}
    (h : ModuleSession.steps.Reaches ModuleSession.Allowed (ModuleSession.init std config storage) ctx) :
    ∃ live, ctx.storage = some live ∧ Backed config.namespaceId live ctx.lwwStore.entries := by
  have hsettled : ∃ live, Settled True config.namespaceId live ctx := by
    refine h.invariant (I := fun ctx => ∃ live, Settled True config.namespaceId live ctx)
      ⟨storage, Settled.init std config storage⟩ ?_
    rintro _ _ _ ⟨live, hi⟩ hl hs
    exact hi.steps hl hs
  obtain ⟨live, hsettled⟩ := hsettled
  exact ⟨live, hsettled.storage, hsettled.backed trivial⟩

/-- Source data, a run that commits and a run whose checkpoint fails. -/
def exampleSteps : List SessionStep :=
  [.ingest [] [(⟨1, 2⟩, ⟨false, .mapped [50] false, 7, none, none⟩)], .run exampleEnv 4,
    .run { exampleEnv with flushFails := some .io } 4]

def exampleConfig : ModuleConfig := ⟨[110], [97], exampleBuilder.build CapabilityGraph.empty⟩

theorem ModuleSession.coherent_example :
    ∃ ctx, exampleSteps.foldlM ModuleSession.steps.step
        (ModuleSession.init StdLib.fragment exampleConfig exampleLive) = some ctx ∧
      (ctx.lwwStore.get (formatKey [110] 1 3)).map LwwRegistry.Entry.hlc = some ⟨9, 1, 1⟩ ∧
      ∃ live, ctx.storage = some live ∧ Backed [110] live ctx.lwwStore.entries := by
  have hcached : ((exampleSteps.foldlM ModuleSession.steps.step
      (ModuleSession.init StdLib.fragment exampleConfig exampleLive)).bind fun ctx =>
        (ctx.lwwStore.get (formatKey [110] 1 3)).map LwwRegistry.Entry.hlc) = some ⟨9, 1, 1⟩ := by
    decide +kernel
  obtain ⟨ctx, hsteps, hentry⟩ := Option.bind_eq_some_iff.mp hcached
  refine ⟨ctx, hsteps, hentry, ModuleSession.coherent exampleConfig exampleLive ?_⟩
  refine Machine.reaches_of_foldlM (fun l hl s => ?_) hsteps
  simp only [exampleSteps, List.mem_cons, List.not_mem_nil, or_false] at hl
  rcases hl with rfl | rfl | rfl
  · simp [Allowed]
  · trivial
  · trivial

end

end Slung
