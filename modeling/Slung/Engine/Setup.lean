import Slung.Lib.Stopping
import Slung.Engine.Coherence
import Slung.Engine.Connectors

/-!
# Slung.Engine.Setup — the start of a session (`engine/events.zig`, `engine/connectors.zig`)

`setupConnectors` opens a connector for every configured source, records it, and registers the WebSocket and HTTP
sources at the gateways.  When one source fails, its own connector is removed and its own route is closed, and the
sources before it stay registered (`failed_start_leaves_route`).  `setup_undone_iff` says when a failed start leaves
nothing behind.

Connectors and sources are known by numbers; a new one has a number that nothing in its table has.
-/

namespace Slung

open Slung.Lib

/-! ## Connectors -/

structure SourceConfig where
  connectorType : Bytes
  routePath : Option Bytes
  remoteUrl : Option Bytes
deriving DecidableEq, Repr

inductive SetupErr where
  | outOfMemory
  | canceled
  | unknownConnectorType
  | natsRequiresRemoteUrl
  | tcpRequiresRemoteUrl
  | redisRequiresRemoteUrl
  | sourceForwardMappingNotFound
deriving DecidableEq, Repr

def SetupErr.ofRoute : RouteErr → SetupErr
  | .outOfMemory => .outOfMemory
  | .canceled => .canceled

/-- `ws` -/
def wsType : Bytes := [119, 115]

/-- `http` -/
def httpType : Bytes := [104, 116, 116, 112]

/-- `nats` -/
def natsType : Bytes := [110, 97, 116, 115]

/-- `tcp` -/
def tcpType : Bytes := [116, 99, 112]

/-- `redis` -/
def redisType : Bytes := [114, 101, 100, 105, 115]

/-- The `open` of one kind of connector; some need a remote URL. -/
def openKind (requires : Option SetupErr) (fails : Bool) (config : SourceConfig) : Option SetupErr :=
  if config.remoteUrl = none ∧ requires.isSome then requires
  else if fails then some .outOfMemory
  else none

/-- The error, if the connector cannot be opened. -/
def openConnector (fails : Bool) (config : SourceConfig) : Option SetupErr :=
  if config.connectorType = wsType then openKind none fails config
  else if config.connectorType = httpType then openKind none fails config
  else if config.connectorType = natsType then openKind (some .natsRequiresRemoteUrl) fails config
  else if config.connectorType = tcpType then openKind (some .tcpRequiresRemoteUrl) fails config
  else if config.connectorType = redisType then openKind (some .redisRequiresRemoteUrl) fails config
  else some .unknownConnectorType

/-- The gateway that a source is registered at. -/
def SourceConfig.gateway (self : SourceConfig) : Option GatewayKind :=
  if self.connectorType = wsType ∧ self.remoteUrl = none then some .ws
  else if self.connectorType = httpType then some .http
  else none

/-! ## State -/

/-- An entry of `ws_sources` or `http_sources`. -/
structure RouteSource where
  routePath : Bytes
  sourceName : Bytes
  source : ℕ
deriving DecidableEq, Repr

/-- The sources of one kind that the session has, and the routes of the server. -/
structure SourceTables where
  sources : List RouteSource
  routes : Routes ℕ
deriving DecidableEq

structure Startup where
  connectors : FMap Bytes ℕ
  ws : SourceTables
  http : SourceTables
deriving DecidableEq

/-- What a session is started with. -/
structure SessionStart where
  namespaceId : NamespaceId
  graph : CapabilityGraph
  connected : GatewayKind → Bool

inductive SetupFault where
  | openConnector | put | arc
  | listen (fault : ListenFault)
  | dupe | append
deriving DecidableEq, Repr

/-- A configured source, with where its setup fails, and where closing its route fails then. -/
structure SetupItem where
  sourceName : Bytes
  config : SourceConfig
  fault : Option SetupFault
  closeFault : Option CloseFault
deriving DecidableEq, Repr

/-- The map of the configurations, in the order it is iterated. -/
structure SourceConfigs where
  items : List SetupItem
  distinct : (items.map SetupItem.sourceName).Nodup

namespace Startup

def empty : Startup := ⟨∅, ⟨[], ∅⟩, ⟨[], ∅⟩⟩

def tables (self : Startup) : GatewayKind → SourceTables
  | .ws => self.ws
  | .http => self.http

def setTables (self : Startup) (tables : SourceTables) : GatewayKind → Startup
  | .ws => { self with ws := tables }
  | .http => { self with http := tables }

def putConnector (self : Startup) (sourceName : Bytes) : Startup :=
  { self with connectors := self.connectors.insert sourceName self.connectors.fresh }

def removeConnector (self : Startup) (sourceName : Bytes) : Startup :=
  { self with connectors := self.connectors.erase sourceName }

end Startup

/-! ## Setup -/

/-- Does an entry of the forward index belong to the source? -/
def findAnyForwardKeyForSource (graph : CapabilityGraph) (sourceName : Bytes) : Bool :=
  graph.forward.any fun _ entry => entry.source == sourceName

namespace SetupItem

def routePath (self : SetupItem) : Bytes := self.config.routePath.getD self.sourceName

def listenFault (self : SetupItem) : Option ListenFault :=
  match self.fault with
  | some (.listen fault) => some fault
  | _ => none

/-- Recording the source fails.  Only the name of an HTTP source is copied. -/
def AppendFails (self : SetupItem) (kind : GatewayKind) : Prop :=
  self.fault = some .append ∨ self.fault = some .dupe ∧ kind = .http

instance (self : SetupItem) (kind : GatewayKind) : Decidable (self.AppendFails kind) :=
  inferInstanceAs (Decidable (_ ∨ _))

/-- Close the route again, whether or not that fails. -/
def closeRoute (session : SessionStart) (self : SetupItem) (kind : GatewayKind) (routes : Routes ℕ) : Routes ℕ :=
  match kind.close self.closeFault session.namespaceId self.routePath routes with
  | .error _ => routes
  | .ok routes => routes

/-- Listen at a gateway and record the source; on an error after listening, the route is closed. -/
def registerSource (session : SessionStart) (self : SetupItem) (kind : GatewayKind) (s : Startup) :
    Startup × Option SetupErr :=
  if findAnyForwardKeyForSource session.graph self.sourceName = false then (s, some .sourceForwardMappingNotFound)
  else if self.fault = some .arc then (s, some .outOfMemory)
  else if session.connected kind = false then (s, none)
  else
    let before := s.tables kind
    let source := before.routes.fresh
    match kind.listen self.listenFault session.namespaceId self.routePath source before.routes with
    | .error e => (s, some (.ofRoute e))
    | .ok routes =>
      if self.AppendFails kind then
        (s.setTables ⟨before.sources, self.closeRoute session kind routes⟩ kind, some .outOfMemory)
      else
        (s.setTables ⟨before.sources ++ [⟨self.routePath, self.sourceName, source⟩], routes⟩ kind, none)

end SetupItem

/-- One source.  Once its connector is in the map, an error takes it out again. -/
def setupConnector (session : SessionStart) (s : Startup) (item : SetupItem) : Startup × Option SetupErr :=
  match openConnector (item.fault = some .openConnector) item.config with
  | some e => (s, some e)
  | none =>
    if item.fault = some .put then (s, some .outOfMemory)
    else match item.config.gateway with
      | none => (s.putConnector item.sourceName, none)
      | some kind =>
        match item.registerSource session kind (s.putConnector item.sourceName) with
        | (s, none) => (s, none)
        | (s, some e) => (s.removeConnector item.sourceName, some e)

def setupConnectors (session : SessionStart) (s : Startup) (configs : SourceConfigs) : Startup × Option SetupErr :=
  runUntil (setupConnector session) s configs.items

/-! ## Where a source fails -/

/-- How far a source has come when it fails. -/
inductive FailedAt where
  | unrecorded
  | recorded
  | listened
deriving DecidableEq, Repr

namespace SetupItem

def registerFailure (session : SessionStart) (self : SetupItem) (kind : GatewayKind) : Option FailedAt :=
  if findAnyForwardKeyForSource session.graph self.sourceName = false ∨ self.fault = some .arc then some .recorded
  else if session.connected kind = false then none
  else if self.listenFault.isSome then some .recorded
  else if self.AppendFails kind then some .listened
  else none

/-- What the configuration, the forward index and the faults say about the setup of a source. -/
def failure (session : SessionStart) (self : SetupItem) : Option FailedAt :=
  if (openConnector (self.fault = some .openConnector) self.config).isSome ∨ self.fault = some .put then
    some .unrecorded
  else self.config.gateway.bind (self.registerFailure session)

/-- A source that fails leaves nothing behind: a recorded connector was the first one under its name, and a route that
it listened at was free and could be closed. -/
structure Undone (session : SessionStart) (s : Startup) (item : SetupItem) : Prop where
  recorded : item.failure session ≠ some .unrecorded → s.connectors.lookup item.sourceName = none
  listened : item.failure session = some .listened → ∀ kind, item.config.gateway = some kind →
    (s.tables kind).routes.lookup (routeKey session.namespaceId item.routePath) = none ∧ item.closeFault = none

end SetupItem

section

variable {session : SessionStart} {s : Startup} {item : SetupItem} {kind : GatewayKind} {name : Bytes}

@[simp] theorem Startup.connectors_setTables (tables : SourceTables) :
    (s.setTables tables kind).connectors = s.connectors := by
  cases kind <;> rfl

@[simp] theorem Startup.tables_putConnector : (s.putConnector name).tables kind = s.tables kind := by
  cases kind <;> rfl

theorem Startup.setTables_eq_iff {routes : Routes ℕ} :
    s.setTables ⟨(s.tables kind).sources, routes⟩ kind = s ↔ routes = (s.tables kind).routes := by
  obtain ⟨connectors, ⟨wsSources, wsRoutes⟩, ⟨httpSources, httpRoutes⟩⟩ := s
  cases kind <;> simp [setTables, tables]

theorem Startup.removeConnector_setTables (tables : SourceTables) :
    (s.setTables tables kind).removeConnector name = (s.removeConnector name).setTables tables kind := by
  cases kind <;> rfl

/-- A connector that is put and removed leaves the map as it was iff it was the first one under its name. -/
theorem Startup.removeConnector_putConnector_iff :
    (s.putConnector name).removeConnector name = s ↔ s.connectors.lookup name = none := by
  constructor
  · intro h
    rw [← h]
    exact Finmap.lookup_erase name _
  · intro h
    rw [removeConnector, putConnector, FMap.erase_insert_self h]

theorem Startup.removeConnector_setTables_iff {tables : SourceTables} :
    ((s.putConnector name).setTables tables kind).removeConnector name = s ↔
      s.connectors.lookup name = none ∧ s.setTables tables kind = s := by
  rw [removeConnector_setTables]
  constructor
  · intro h
    have hconnectors := congrArg (fun s : Startup => s.connectors.lookup name) h
    have hfree : s.connectors.lookup name = none := by
      rw [← hconnectors, connectors_setTables]
      exact Finmap.lookup_erase name _
    rw [removeConnector_putConnector_iff.mpr hfree] at h
    exact ⟨hfree, h⟩
  · rintro ⟨hfree, h⟩
    rw [removeConnector_putConnector_iff.mpr hfree, h]

theorem SetupItem.registerSource_connectors (session : SessionStart) (item : SetupItem) (kind : GatewayKind)
    (s : Startup) : (item.registerSource session kind s).1.connectors = s.connectors := by
  unfold registerSource
  split
  · rfl
  split
  · rfl
  split
  · rfl
  simp only
  split
  · rfl
  split
  · exact Startup.connectors_setTables _
  · exact Startup.connectors_setTables _

theorem SetupItem.closeRoute_insert_iff (routes : Routes ℕ) :
    item.closeRoute session kind (routes.insert (routeKey session.namespaceId item.routePath) routes.fresh) = routes ↔
      routes.lookup (routeKey session.namespaceId item.routePath) = none ∧ item.closeFault = none := by
  set key := routeKey session.namespaceId item.routePath
  have hinserted : routes.insert key routes.fresh ≠ routes := by
    intro h
    refine FMap.lookup_ne_fresh routes key ?_
    rw [← h, FMap.lookup_insert_eq, if_pos rfl, h]
  unfold closeRoute
  cases hfault : item.closeFault with
  | none =>
    have hclose : kind.close none session.namespaceId item.routePath (routes.insert key routes.fresh) =
        .ok ((routes.insert key routes.fresh).erase key) := by
      cases kind <;> rfl
    rw [hclose, and_iff_left rfl]
    constructor
    · intro h
      rw [← h]
      exact Finmap.lookup_erase key _
    · exact FMap.erase_insert_self
  | some fault =>
    refine iff_of_false (fun h => hinserted ?_) nofun
    cases kind <;> cases fault <;> exact h

/-- **What the registration of a source does**, by where it fails. -/
theorem SetupItem.registerSource_spec (session : SessionStart) (item : SetupItem) (kind : GatewayKind) (s : Startup) :
    match item.registerFailure session kind with
    | none => (item.registerSource session kind s).2 = none
    | some .listened => ∃ e, item.registerSource session kind s =
        (s.setTables ⟨(s.tables kind).sources, item.closeRoute session kind ((s.tables kind).routes.insert
          (routeKey session.namespaceId item.routePath) (s.tables kind).routes.fresh)⟩ kind, some e)
    | some _ => ∃ e, item.registerSource session kind s = (s, some e) := by
  unfold registerSource registerFailure
  by_cases hkey : findAnyForwardKeyForSource session.graph item.sourceName = false
  · simp only [hkey, true_or, if_true]
    exact ⟨_, rfl⟩
  by_cases harc : item.fault = some .arc
  · simp only [if_neg hkey, harc, or_true, if_true]
    exact ⟨_, rfl⟩
  rw [if_neg (not_or.mpr ⟨hkey, harc⟩), if_neg hkey, if_neg harc]
  by_cases hconnected : session.connected kind = false
  · simp only [if_pos hconnected]
  rw [if_neg hconnected, if_neg hconnected]
  cases hlisten : item.listenFault with
  | some fault =>
    have herror : ∃ e, kind.listen (some fault) session.namespaceId item.routePath (s.tables kind).routes.fresh
        (s.tables kind).routes = .error e := by
      cases kind <;> cases fault <;> exact ⟨_, rfl⟩
    obtain ⟨e, herror⟩ := herror
    simp only [Option.isSome_some, if_true, herror]
    exact ⟨_, rfl⟩
  | none =>
    have hok : kind.listen none session.namespaceId item.routePath (s.tables kind).routes.fresh
        (s.tables kind).routes = .ok ((s.tables kind).routes.insert (routeKey session.namespaceId item.routePath)
          (s.tables kind).routes.fresh) := by
      cases kind <;> rfl
    simp only [Option.isSome_none, Bool.false_eq_true, if_false, hok]
    by_cases happend : item.AppendFails kind
    · simp only [if_pos happend]
      exact ⟨_, rfl⟩
    · simp only [if_neg happend]

/-- A source that does not fail has its connector in the map. -/
theorem setupConnector_of_none (h : item.failure session = none) :
    (setupConnector session s item).2 = none ∧
      (setupConnector session s item).1.connectors = (s.putConnector item.sourceName).connectors := by
  unfold SetupItem.failure at h
  by_cases hearly : (openConnector (item.fault = some .openConnector) item.config).isSome ∨ item.fault = some .put
  · rw [if_pos hearly] at h
    cases h
  rw [if_neg hearly] at h
  obtain ⟨hopen, hput⟩ := not_or.mp hearly
  rw [Option.not_isSome_iff_eq_none] at hopen
  unfold setupConnector
  simp only [hopen, if_neg hput]
  cases hgateway : item.config.gateway with
  | none => exact ⟨rfl, rfl⟩
  | some kind =>
    rw [hgateway, Option.bind_some] at h
    have hspec := SetupItem.registerSource_spec session item kind (s.putConnector item.sourceName)
    rw [h] at hspec
    have hconnectors := SetupItem.registerSource_connectors session item kind (s.putConnector item.sourceName)
    simp only
    generalize item.registerSource session kind (s.putConnector item.sourceName) = ended at hspec hconnectors
    obtain ⟨s', stop⟩ := ended
    obtain rfl : stop = none := hspec
    exact ⟨rfl, hconnectors⟩

theorem SetupItem.registerFailure_ne_unrecorded :
    item.registerFailure session kind ≠ some .unrecorded := by
  unfold registerFailure
  split_ifs <;> nofun

theorem SetupItem.undone_of_unrecorded (h : item.failure session = some .unrecorded) : item.Undone session s := by
  refine ⟨fun hne => absurd h hne, fun hlistened => ?_⟩
  rw [h] at hlistened
  cases hlistened

/-- **A source that fails leaves nothing behind iff it is undone.** -/
theorem setupConnector_of_some {failedAt : FailedAt} (h : item.failure session = some failedAt) :
    (∃ e, (setupConnector session s item).2 = some e) ∧
      ((setupConnector session s item).1 = s ↔ item.Undone session s) := by
  have hfailure := h
  unfold SetupItem.failure at h
  unfold setupConnector
  by_cases hearly : (openConnector (item.fault = some .openConnector) item.config).isSome ∨ item.fault = some .put
  · rw [if_pos hearly] at h
    obtain rfl := Option.some.inj h
    have hundone := SetupItem.undone_of_unrecorded (s := s) hfailure
    cases hopen : openConnector (item.fault = some .openConnector) item.config with
    | some e => exact ⟨⟨e, rfl⟩, iff_of_true rfl hundone⟩
    | none =>
      have hput : item.fault = some .put := hearly.resolve_left (by simp [hopen])
      simp only [if_pos hput]
      exact ⟨⟨_, rfl⟩, iff_of_true trivial hundone⟩
  rw [if_neg hearly] at h
  obtain ⟨hopen, hput⟩ := not_or.mp hearly
  rw [Option.not_isSome_iff_eq_none] at hopen
  obtain ⟨kind, hgateway, hregister⟩ := Option.bind_eq_some_iff.mp h
  have hspec := SetupItem.registerSource_spec session item kind (s.putConnector item.sourceName)
  rw [hregister] at hspec
  simp only [hopen, if_neg hput, hgateway]
  cases failedAt with
  | unrecorded => exact absurd hregister SetupItem.registerFailure_ne_unrecorded
  | recorded =>
    obtain ⟨e, hregistered⟩ := hspec
    rw [hregistered]
    refine ⟨⟨e, rfl⟩, Startup.removeConnector_putConnector_iff.trans ⟨fun hfree => ?_, fun hundone => ?_⟩⟩
    · refine ⟨fun _ => hfree, fun hlistened => ?_⟩
      rw [hfailure] at hlistened
      cases hlistened
    · exact hundone.recorded (by rw [hfailure]; nofun)
  | listened =>
    obtain ⟨e, hregistered⟩ := hspec
    rw [hregistered]
    simp only [Startup.tables_putConnector]
    refine ⟨⟨e, rfl⟩, Startup.removeConnector_setTables_iff.trans ?_⟩
    rw [Startup.setTables_eq_iff, SetupItem.closeRoute_insert_iff]
    constructor
    · rintro ⟨hfree, hroute⟩
      refine ⟨fun _ => hfree, fun _ kind' hkind' => ?_⟩
      obtain rfl := Option.some.inj (hgateway.symm.trans hkind')
      exact hroute
    · intro hundone
      exact ⟨hundone.recorded (by rw [hfailure]; nofun), hundone.listened hfailure kind hgateway⟩

theorem setupConnector_none_iff : (setupConnector session s item).2 = none ↔ item.failure session = none := by
  cases h : item.failure session with
  | none => exact iff_of_true (setupConnector_of_none h).1 rfl
  | some failedAt =>
    obtain ⟨⟨e, he⟩, -⟩ := setupConnector_of_some (s := s) h
    exact iff_of_false (by rw [he]; nofun) nofun

/-- A source touches no connector of another name. -/
theorem lookup_setupConnector (hne : name ≠ item.sourceName) :
    (setupConnector session s item).1.connectors.lookup name = s.connectors.lookup name := by
  have hput : (s.putConnector item.sourceName).connectors.lookup name = s.connectors.lookup name := by
    rw [Startup.putConnector, FMap.lookup_insert_eq, if_neg hne]
  unfold setupConnector
  split
  · rfl
  split
  · rfl
  split
  · exact hput
  · rename_i kind _
    have hconnectors := SetupItem.registerSource_connectors session item kind (s.putConnector item.sourceName)
    generalize item.registerSource session kind (s.putConnector item.sourceName) = ended at hconnectors
    obtain ⟨s', stop⟩ := ended
    rw [← hconnectors] at hput
    cases stop with
    | none => exact hput
    | some e => exact (Finmap.lookup_erase_ne hne).trans hput

/-! ## A failed start -/

theorem setupConnectors_none_iff {items : List SetupItem} :
    (runUntil (setupConnector session) s items).2 = none ↔ ∀ item ∈ items, item.failure session = none := by
  induction items generalizing s with
  | nil => exact iff_of_true rfl (List.forall_mem_nil _)
  | cons item items ih =>
    rw [List.forall_mem_cons]
    cases h : (setupConnector session s item).2 with
    | none => rw [runUntil_cons_none h, ih, and_iff_right (setupConnector_none_iff.mp h)]
    | some e =>
      rw [runUntil_cons_some h]
      refine iff_of_false nofun fun hall => ?_
      rw [setupConnector_none_iff.mpr hall.1] at h
      cases h

/-- The connector of the first source stays, however the start ends. -/
theorem setupConnectors_ne {items : List SetupItem} (hfirst : item.failure session = none)
    (hname : item.sourceName ∉ items.map SetupItem.sourceName) :
    (runUntil (setupConnector session) s (item :: items)).1 ≠ s := by
  intro h
  obtain ⟨hnone, hconnectors⟩ := setupConnector_of_none (s := s) hfirst
  have hothers : ∀ other ∈ items, ∀ s, (setupConnector session s other).1.connectors.lookup item.sourceName =
      s.connectors.lookup item.sourceName := fun other hother s =>
    lookup_setupConnector fun heq => hname (List.mem_map.mpr ⟨other, hother, heq.symm⟩)
  have hrest := runUntil_frame (fun s : Startup => s.connectors.lookup item.sourceName) hothers
    (setupConnector session s item).1
  rw [runUntil_cons_none hnone] at h
  rw [h, hconnectors, Startup.putConnector, FMap.lookup_insert_eq, if_pos rfl] at hrest
  exact FMap.lookup_ne_fresh _ _ hrest

/-- **When a failed start leaves everything as it was.** -/
theorem setup_undone_iff (session : SessionStart) (s : Startup) (configs : SourceConfigs) :
    (∀ s' e, setupConnectors session s configs = (s', some e) → s' = s) ↔
      ∀ before item after, configs.items = before ++ item :: after →
        (∀ i ∈ before, i.failure session = none) → item.failure session ≠ none →
        before = [] ∧ item.Undone session s := by
  constructor
  · intro h before item after hitems hbefore hfails
    obtain ⟨failedAt, hfailedAt⟩ := Option.ne_none_iff_exists'.mp hfails
    have herror : (setupConnectors session s configs).2 ≠ none := by
      rw [setupConnectors, Ne, setupConnectors_none_iff, hitems]
      exact fun hall => hfails (hall item (List.mem_append_right _ List.mem_cons_self))
    obtain ⟨e, he⟩ := Option.ne_none_iff_exists'.mp herror
    have hsame := h _ e (Prod.ext rfl he)
    rw [setupConnectors, hitems] at hsame
    cases before with
    | nil =>
      obtain ⟨⟨e', he'⟩, hundone⟩ := setupConnector_of_some (s := s) hfailedAt
      rw [List.nil_append, runUntil_cons_some he'] at hsame
      exact ⟨rfl, hundone.mp hsame⟩
    | cons first before =>
      have hdistinct := configs.distinct
      rw [hitems, List.cons_append, List.map_cons, List.nodup_cons] at hdistinct
      exact absurd hsame (setupConnectors_ne (hbefore first List.mem_cons_self) hdistinct.1)
  · intro h s' e herror
    obtain ⟨before, item, after, s₁, hitems, hbefore, hlast⟩ := runUntil_some herror
    have hfails : item.failure session ≠ none := by
      rw [Ne, ← setupConnector_none_iff (s := s₁), hlast]
      nofun
    obtain ⟨rfl, hundone⟩ := h before item after hitems
      (setupConnectors_none_iff.mp (congrArg Prod.snd hbefore)) hfails
    obtain ⟨rfl, -⟩ := Prod.mk.inj hbefore
    obtain ⟨failedAt, hfailedAt⟩ := Option.ne_none_iff_exists'.mp hfails
    have hsame := (setupConnector_of_some hfailedAt).2.mpr hundone
    rwa [hlast] at hsame

end

/-- One source that has a component. -/
def exampleSourceGraph : CapabilityGraph where
  forward := Finmap.singleton ⟨1, 2⟩ ⟨[], [97], [], [], false⟩
  reverse := ∅
  registered key entry h r hr := by
    have hkey := (Finmap.mem_singleton _ _ _).mp (Finmap.mem_of_lookup_eq_some h)
    rw [hkey, Finmap.lookup_singleton_eq] at h
    obtain rfl := Option.some.inj h
    cases hr

/-- The second of two sources has no component: the first one stays registered, and its route is served. -/
theorem failed_start_leaves_route :
    let session : SessionStart := ⟨[110], exampleSourceGraph, fun _ => true⟩
    let configs : SourceConfigs :=
      ⟨[⟨[97], ⟨httpType, some [104], none⟩, none, none⟩, ⟨[98], ⟨httpType, none, none⟩, none, none⟩], by decide⟩
    let ended := setupConnectors session .empty configs
    ended.2 = some .sourceForwardMappingNotFound ∧ ended.1 ≠ .empty ∧
      ended.1.connectors.lookup [97] = some 1 ∧ ended.1.http.sources = [⟨[104], [97], 1⟩] ∧
      serverDynamicDispatch ended.1.http.routes [47, 110, 47, 104] = some 1 := by
  decide +kernel

end Slung
