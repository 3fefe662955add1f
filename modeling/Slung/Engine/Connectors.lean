import Slung.Lib.JoinedKey
import Slung.Lib.LwwMap
import Slung.Lib.Machine
import Slung.Types

/-!
# Slung.Engine.Connectors — the routes of the gateways (`engine/connectors/http.zig`, `engine/connectors/ws.zig`)

The connections of all sessions register their sources in one map of a server, under `namespace/source_key`.
`Gateway` keeps beside it what each connection has listened for and not closed.  A namespace may have a `/` in
it, and then a call of one connection may meet the route of another (`Gateway.isolated_iff`).
-/

namespace Slung

open Slung.Lib

variable {α : Type}

/-- The sources under their routes. -/
abbrev Routes (α : Type) := FMap Bytes α

inductive ListenFault where
  | allocPrint | lock | put
deriving DecidableEq, Repr

inductive CloseFault where
  | allocPrint | lock
deriving DecidableEq, Repr

inductive RouteErr where
  | outOfMemory | canceled
deriving DecidableEq, Repr

/-- `namespace/source_key` -/
def routeKey (namespaceId : NamespaceId) (sourceKey : Bytes) : Bytes := joinKey 47 namespaceId sourceKey

def listenRoute (fault : Option ListenFault) (namespaceId : NamespaceId) (sourceKey : Bytes) (source : α)
    (routes : Routes α) : Except RouteErr (Routes α) :=
  match fault with
  | some .allocPrint => .error .outOfMemory
  | some .lock => .error .canceled
  | some .put => .error .outOfMemory
  | none => .ok (routes.insert (routeKey namespaceId sourceKey) source)

def closeRoute (fault : Option CloseFault) (namespaceId : NamespaceId) (sourceKey : Bytes)
    (routes : Routes α) : Except RouteErr (Routes α) :=
  match fault with
  | some .allocPrint => .error .outOfMemory
  | some .lock => .error .canceled
  | none => .ok (routes.erase (routeKey namespaceId sourceKey))

namespace HTTPServerConnection

def listen (fault : Option ListenFault) (namespaceId : NamespaceId) (sourceKey : Bytes) (source : α) :
    Routes α → Except RouteErr (Routes α) :=
  listenRoute fault namespaceId sourceKey source

def close (fault : Option CloseFault) (namespaceId : NamespaceId) (sourceKey : Bytes) :
    Routes α → Except RouteErr (Routes α) :=
  closeRoute fault namespaceId sourceKey

end HTTPServerConnection

namespace WebSocketServerConnection

def listen (fault : Option ListenFault) (namespaceId : NamespaceId) (sourceKey : Bytes) (source : α) :
    Routes α → Except RouteErr (Routes α) :=
  listenRoute fault namespaceId sourceKey source

/-- Without memory for the key, nothing is closed and nothing is said. -/
def close (fault : Option CloseFault) (namespaceId : NamespaceId) (sourceKey : Bytes) (routes : Routes α) :
    Except RouteErr (Routes α) :=
  if fault = some .allocPrint then .ok routes else closeRoute fault namespaceId sourceKey routes

end WebSocketServerConnection

/-- The source that a request is for. -/
def serverDynamicDispatch (routes : Routes α) (url : Bytes) : Option α :=
  routes.lookup (if url.head? = some 47 then url.tail else url)

/-! ## Calls of many connections -/

/-- The two servers. -/
inductive GatewayKind where
  | http | ws
deriving DecidableEq, Repr

def GatewayKind.listen (fault : Option ListenFault) (namespaceId : NamespaceId) (sourceKey : Bytes) (source : α) :
    GatewayKind → Routes α → Except RouteErr (Routes α)
  | .http => HTTPServerConnection.listen fault namespaceId sourceKey source
  | .ws => WebSocketServerConnection.listen fault namespaceId sourceKey source

def GatewayKind.close (fault : Option CloseFault) (namespaceId : NamespaceId) (sourceKey : Bytes) :
    GatewayKind → Routes α → Except RouteErr (Routes α)
  | .http => HTTPServerConnection.close fault namespaceId sourceKey
  | .ws => WebSocketServerConnection.close fault namespaceId sourceKey

/-- The routes of a server, and what has been listened for and not closed. -/
structure Gateway (α : Type) where
  routes : Routes α
  active : FMap (NamespaceId × Bytes) α

namespace Gateway

inductive Call (α : Type) where
  | listen (namespaceId : NamespaceId) (sourceKey : Bytes) (source : α) (fault : Option ListenFault)
  | close (namespaceId : NamespaceId) (sourceKey : Bytes) (fault : Option CloseFault)

def init : Gateway α := ⟨∅, ∅⟩

variable (α) in
/-- The calls of all connections, in any order; one that fails changes nothing. -/
def calls (kind : GatewayKind) : Machine (Gateway α) (Call α) where
  step s
    | .listen namespaceId sourceKey source fault =>
      match kind.listen fault namespaceId sourceKey source s.routes with
      | .error _ => some s
      | .ok routes => some ⟨routes, s.active.insert (namespaceId, sourceKey) source⟩
    | .close namespaceId sourceKey fault =>
      match kind.close fault namespaceId sourceKey s.routes with
      | .error _ => some s
      | .ok routes => some ⟨routes, s.active.erase (namespaceId, sourceKey)⟩

/-- Everything that is active gets the requests for its own route. -/
def Isolated (s : Gateway α) : Prop :=
  ∀ namespaceId sourceKey source, s.active.lookup (namespaceId, sourceKey) = some source →
    serverDynamicDispatch s.routes (47 :: routeKey namespaceId sourceKey) = some source

/-- What another namespace has under the route of the call. -/
def Elsewhere (s : Gateway α) (namespaceId : NamespaceId) (sourceKey : Bytes) (source : α) : Prop :=
  ∃ namespaceId' sourceKey', namespaceId' ≠ namespaceId ∧
    routeKey namespaceId' sourceKey' = routeKey namespaceId sourceKey ∧
    s.active.lookup (namespaceId', sourceKey') = some source

/-- The route of the call is not that of something else of another namespace. -/
def Undisturbing (s : Gateway α) : Call α → Prop
  | .listen namespaceId sourceKey source none => ∀ other, s.Elsewhere namespaceId sourceKey other → other = source
  | .close namespaceId sourceKey none => ∀ other, ¬ s.Elsewhere namespaceId sourceKey other
  | _ => True

section

variable {s s' : Gateway α} {kind : GatewayKind} {namespaceId : NamespaceId} {sourceKey : Bytes} {source : α}

theorem isolated_iff_lookup : s.Isolated ↔ ∀ namespaceId sourceKey source,
    s.active.lookup (namespaceId, sourceKey) = some source →
      s.routes.lookup (routeKey namespaceId sourceKey) = some source := Iff.rfl

theorem isolated_init : (init : Gateway α).Isolated :=
  fun namespaceId sourceKey source hactive => by simp [init] at hactive

/-- Another pair with the same route is of another namespace. -/
theorem elsewhere_of_ne {namespaceId' : NamespaceId} {sourceKey' : Bytes}
    (hne : (namespaceId', sourceKey') ≠ (namespaceId, sourceKey))
    (hroute : routeKey namespaceId' sourceKey' = routeKey namespaceId sourceKey)
    (hactive : s.active.lookup (namespaceId', sourceKey') = some source) :
    s.Elsewhere namespaceId sourceKey source := by
  refine ⟨namespaceId', sourceKey', ?_, hroute, hactive⟩
  rintro rfl
  exact hne (by rw [joinKey_left_inj.mp hroute])

/-- A registration leaves the others their routes exactly if it disturbs nothing. -/
theorem isolated_listen_iff (h : s.Isolated) :
    Isolated ⟨s.routes.insert (routeKey namespaceId sourceKey) source,
        s.active.insert (namespaceId, sourceKey) source⟩ ↔
      s.Undisturbing (.listen namespaceId sourceKey source none) := by
  rw [isolated_iff_lookup] at h ⊢
  constructor
  · rintro hall other ⟨namespaceId', sourceKey', hns, hroute, hactive⟩
    have hother := hall namespaceId' sourceKey' other (by
      rw [FMap.lookup_insert_eq, if_neg fun heq => hns (Prod.mk.inj heq).1]
      exact hactive)
    rw [FMap.lookup_insert_eq, if_pos hroute] at hother
    exact (Option.some.inj hother).symm
  · intro hundisturbing namespaceId' sourceKey' source' hactive
    rw [FMap.lookup_insert_eq] at hactive ⊢
    by_cases hsame : (namespaceId', sourceKey') = (namespaceId, sourceKey)
    · rw [if_pos hsame] at hactive
      obtain ⟨rfl, rfl⟩ := Prod.mk.inj hsame
      rw [if_pos rfl]
      exact hactive
    · rw [if_neg hsame] at hactive
      by_cases hroute : routeKey namespaceId' sourceKey' = routeKey namespaceId sourceKey
      · rw [if_pos hroute, hundisturbing source' (elsewhere_of_ne hsame hroute hactive)]
      · rw [if_neg hroute]
        exact h namespaceId' sourceKey' source' hactive

/-- The same for a registration that is taken back. -/
theorem isolated_close_iff (h : s.Isolated) :
    Isolated ⟨s.routes.erase (routeKey namespaceId sourceKey), s.active.erase (namespaceId, sourceKey)⟩ ↔
      s.Undisturbing (.close namespaceId sourceKey none) := by
  rw [isolated_iff_lookup] at h ⊢
  constructor
  · rintro hall other ⟨namespaceId', sourceKey', hns, hroute, hactive⟩
    have hother := hall namespaceId' sourceKey' other (by
      rw [FMap.lookup_erase_eq, if_neg fun heq => hns (Prod.mk.inj heq).1]
      exact hactive)
    rw [FMap.lookup_erase_eq, if_pos hroute] at hother
    cases hother
  · intro hundisturbing namespaceId' sourceKey' source' hactive
    rw [FMap.lookup_erase_eq] at hactive ⊢
    by_cases hsame : (namespaceId', sourceKey') = (namespaceId, sourceKey)
    · rw [if_pos hsame] at hactive
      cases hactive
    · rw [if_neg hsame] at hactive
      have hroute : routeKey namespaceId' sourceKey' ≠ routeKey namespaceId sourceKey :=
        fun hroute => hundisturbing source' (elsewhere_of_ne hsame hroute hactive)
      rw [if_neg hroute]
      exact h namespaceId' sourceKey' source' hactive

/-- Closing without touching the routes leaves the rest as it was. -/
theorem isolated_forget (h : s.Isolated) : Isolated ⟨s.routes, s.active.erase (namespaceId, sourceKey)⟩ := by
  intro namespaceId' sourceKey' source' hactive
  rw [FMap.lookup_erase_eq] at hactive
  split_ifs at hactive
  exact h namespaceId' sourceKey' source' hactive

/-- **What one call does to the routes of the others.** -/
theorem isolated_step_iff (h : s.Isolated) {l : Call α} (hs : (calls α kind).step s l = some s') :
    s'.Isolated ↔ s.Undisturbing l := by
  cases l with
  | listen namespaceId sourceKey source fault =>
    rcases fault with _ | fault
    · have hs' : (⟨s.routes.insert (routeKey namespaceId sourceKey) source,
          s.active.insert (namespaceId, sourceKey) source⟩ : Gateway α) = s' := by
        cases kind <;> exact Option.some.inj hs
      rw [← hs']
      exact isolated_listen_iff h
    · obtain rfl : s = s' := by
        cases kind <;> cases fault <;> exact Option.some.inj hs
      exact iff_of_true h trivial
  | close namespaceId sourceKey fault =>
    rcases fault with _ | fault
    · have hs' : (⟨s.routes.erase (routeKey namespaceId sourceKey),
          s.active.erase (namespaceId, sourceKey)⟩ : Gateway α) = s' := by
        cases kind <;> exact Option.some.inj hs
      rw [← hs']
      exact isolated_close_iff h
    · refine iff_of_true ?_ trivial
      cases kind with
      | http =>
        obtain rfl : s = s' := by cases fault <;> exact Option.some.inj hs
        exact h
      | ws =>
        cases fault with
        | allocPrint =>
          obtain rfl := Option.some.inj hs
          exact isolated_forget h
        | lock =>
          obtain rfl : s = s' := Option.some.inj hs
          exact h

end

/-- **When routes are isolated**: in every run of calls that disturb nothing, and in no run with one that does. -/
theorem isolated_iff (kind : GatewayKind) :
    (∀ s : Gateway α, (calls α kind).Reaches Undisturbing init s → s.Isolated) ∧
      ∀ (s s' : Gateway α) (l : Call α), s.Isolated → (calls α kind).step s l = some s' → s'.Isolated →
        s.Undisturbing l := by
  refine ⟨fun s h => ?_, fun s s' l h hs => (isolated_step_iff h hs).mp⟩
  exact h.invariant isolated_init fun s s' l hi hl hs => (isolated_step_iff hi hs).mpr hl

/-- Two tenants with the same source key. -/
theorem isolated_iff_two_tenants :
    ∃ s : Gateway ℕ, (calls ℕ .http).Reaches Undisturbing init s ∧ s.Isolated ∧
      serverDynamicDispatch s.routes [47, 97, 47, 99] = some 1 ∧
      serverDynamicDispatch s.routes [47, 98, 47, 99] = some 2 := by
  let first : Gateway ℕ := ⟨Finmap.insert [97, 47, 99] 1 ∅, Finmap.insert ([97], [99]) 1 ∅⟩
  let second : Gateway ℕ := ⟨first.routes.insert [98, 47, 99] 2, first.active.insert ([98], [99]) 2⟩
  have hfirst : init.Undisturbing (.listen [97] [99] 1 none : Call ℕ) := by
    rintro other ⟨namespaceId, sourceKey, -, -, hactive⟩
    simp [init] at hactive
  have hsecond : first.Undisturbing (.listen [98] [99] 2 none) := by
    rintro other ⟨namespaceId, sourceKey, -, hroute, hactive⟩
    rw [FMap.lookup_insert_eq] at hactive
    split_ifs at hactive with heq
    · obtain ⟨rfl, rfl⟩ := Prod.mk.inj heq
      exact absurd hroute (by decide)
    · simp at hactive
  have hreaches : (calls ℕ .http).Reaches Undisturbing init first := .step .refl hfirst rfl
  have hreaches : (calls ℕ .http).Reaches Undisturbing init second := .step hreaches hsecond rfl
  exact ⟨second, hreaches, (isolated_iff .http).1 second hreaches, by decide +kernel, by decide +kernel⟩

/-- The registration of one tenant is redirected, and another is taken down. -/
theorem route_of_another :
    let listens : List (Call ℕ) :=
      [.listen [97] [98, 47, 99] 1 none, .listen [97, 47, 98] [99] 2 none]
    let redirected := listens.foldlM (calls ℕ .http).step init
    let closed := (listens ++ [Call.close [97, 47, 98] [99] none]).foldlM (calls ℕ .ws).step init
    (redirected.bind fun s => s.active.lookup ([97], [98, 47, 99])) = some 1 ∧
      (redirected.bind fun s => serverDynamicDispatch s.routes [47, 97, 47, 98, 47, 99]) = some 2 ∧
      (closed.bind fun s => s.active.lookup ([97], [98, 47, 99])) = some 1 ∧
      (closed.bind fun s => serverDynamicDispatch s.routes [47, 97, 47, 98, 47, 99]) = none := by
  decide +kernel

def Call.namespaceId : Call α → NamespaceId
  | .listen namespaceId _ _ _ => namespaceId
  | .close namespaceId _ _ => namespaceId

/-- What is active was active before the call, or is of its namespace. -/
theorem active_step {kind : GatewayKind} {s s' : Gateway α} {l : Call α} (hs : (calls α kind).step s l = some s')
    {namespaceId : NamespaceId} {sourceKey : Bytes} {source : α}
    (hactive : s'.active.lookup (namespaceId, sourceKey) = some source) :
    s.active.lookup (namespaceId, sourceKey) = some source ∨ namespaceId = l.namespaceId := by
  cases l with
  | listen namespaceId' sourceKey' source' fault =>
    simp only [calls] at hs
    cases hlisten : kind.listen fault namespaceId' sourceKey' source' s.routes with
    | error e =>
      rw [hlisten] at hs
      obtain rfl := Option.some.inj hs
      exact Or.inl hactive
    | ok routes =>
      rw [hlisten] at hs
      obtain rfl := Option.some.inj hs
      rw [FMap.lookup_insert_eq] at hactive
      split_ifs at hactive with heq
      · exact Or.inr (Prod.mk.inj heq).1
      · exact Or.inl hactive
  | close namespaceId' sourceKey' fault =>
    simp only [calls] at hs
    cases hclose : kind.close fault namespaceId' sourceKey' s.routes with
    | error e =>
      rw [hclose] at hs
      obtain rfl := Option.some.inj hs
      exact Or.inl hactive
    | ok routes =>
      rw [hclose] at hs
      obtain rfl := Option.some.inj hs
      rw [FMap.lookup_erase_eq] at hactive
      split_ifs at hactive
      exact Or.inl hactive

/-- **Namespaces without a `/` do not meet.** -/
theorem isolated_of_no_slash {kind : GatewayKind} {s : Gateway α}
    (h : (calls α kind).Reaches (fun _ l => 47 ∉ l.namespaceId) init s) : s.Isolated := by
  have hactive : ∀ s : Gateway α, (calls α kind).Reaches (fun _ l => 47 ∉ l.namespaceId) init s →
      ∀ namespaceId sourceKey source, s.active.lookup (namespaceId, sourceKey) = some source →
        47 ∉ namespaceId := by
    intro s h
    refine h.invariant (I := fun s => ∀ namespaceId sourceKey source,
      s.active.lookup (namespaceId, sourceKey) = some source → 47 ∉ namespaceId) (by simp [init]) ?_
    intro s s' l hi hl hs namespaceId sourceKey source hactive
    rcases active_step hs hactive with hbefore | rfl
    · exact hi namespaceId sourceKey source hbefore
    · exact hl
  induction h with
  | refl => exact isolated_init
  | @step s s' l hreaches hl hs ih =>
    refine (isolated_step_iff ih hs).mpr ?_
    have hnone : ∀ sourceKey other, ¬ s.Elsewhere l.namespaceId sourceKey other := by
      rintro sourceKey other ⟨namespaceId', sourceKey', hne, hroute, hother⟩
      exact hne (joinKey_inj (hactive s hreaches _ _ _ hother) hl hroute).1
    cases l with
    | listen namespaceId sourceKey source fault =>
      cases fault with
      | none => exact fun other hother => absurd hother (hnone sourceKey other)
      | some fault => trivial
    | close namespaceId sourceKey fault =>
      cases fault with
      | none => exact hnone sourceKey
      | some fault => trivial

end Gateway

end Slung
