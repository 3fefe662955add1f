import Slung.Engine.Lifecycle

/-!
# Slung.Bin.Redeployment — sessions that are stopped and replaced (`bin/supervisor.zig`)

The fibers of a deployment host: one for each request, in `onDeploy`, and one for each session, in `runForever`.
They meet in the map of the sessions, in the two flags of a session, and in the routes of the gateways.  A label is
the next step of one fiber, with what may fail there.
-/

namespace Slung

open Slung.Lib

namespace Lifecycle

/-! ## The host -/

/-- Where a request is in `onDeploy`, with the session that it stops or starts. -/
inductive DeployPc where
  /-- `stop`: about to set `stop_requested` -/
  | stop (old : ℕ)
  /-- `stop`: about to look at `run_forever_active` -/
  | wait (old : ℕ)
  | close (old : ℕ) (closing : Closing)
  | retire
  | load
  | put (new : ℕ)
  | spawn (new : ℕ)
deriving DecidableEq, Repr

/-- The session of a request. -/
def DeployPc.session : DeployPc → Option ℕ
  | .stop n | .wait n | .close n _ | .put n | .spawn n => some n
  | .retire | .load => none

structure Request where
  namespaceId : NamespaceId
  configs : List (Bytes × SourceConfig)
  pc : DeployPc

structure Host where
  /-- all sessions that were ever loaded, by number -/
  loaded : ℕ → Option Session
  nextSession : ℕ
  /-- the map of the sessions -/
  sessions : NamespaceId → Option ℕ
  requests : ℕ → Option Request
  nextRequest : ℕ
  routes : GatewayKind → Routes ℕ

namespace Host

def start : Host := ⟨fun _ => none, 0, fun _ => none, fun _ => none, 0, fun _ => ∅⟩

inductive Label where
  | deploy (namespaceId : NamespaceId) (configs : List (Bytes × SourceConfig))
  /-- the next step of a request -/
  | advance (d : ℕ) (outcome : Outcome)
  /-- the next step of a session -/
  | run (n : ℕ) (outcome : Outcome)
deriving DecidableEq, Repr

def setSession (s : Host) (n : ℕ) (session : Session) : Host :=
  { s with loaded := Function.update s.loaded n (some session) }

/-- What session `n` does to the routes. -/
def call (s : Host) (n : ℕ) (namespaceId : NamespaceId) : RouteCall → Host
  | .none => s
  | .listen kind routePath =>
    match kind.listen none namespaceId routePath n (s.routes kind) with
    | .ok routes => { s with routes := Function.update s.routes kind routes }
    | .error _ => s
  | .close kind routePath =>
    match kind.close none namespaceId routePath (s.routes kind) with
    | .ok routes => { s with routes := Function.update s.routes kind routes }
    | .error _ => s

/-- A request begins with the old session taken out of the map. -/
def deploy (s : Host) (namespaceId : NamespaceId) (configs : List (Bytes × SourceConfig)) : Host :=
  let pc := match s.sessions namespaceId with
    | some old => .stop old
    | none => .load
  { s with
    sessions := Function.update s.sessions namespaceId none
    requests := Function.update s.requests s.nextRequest (some ⟨namespaceId, configs, pc⟩)
    nextRequest := s.nextRequest + 1 }

def goto (s : Host) (d : ℕ) (request : Request) (pc : DeployPc) : Host :=
  { s with requests := Function.update s.requests d (some { request with pc := pc }) }

/-- The request returns. -/
def finish (s : Host) (d : ℕ) : Host := { s with requests := Function.update s.requests d none }

/-- The session of the request is deinitialized; it was never spawned. -/
def discard (s : Host) (n : ℕ) (session : Session) : Host := s.setSession n (session.goto .returned)

/-- The next step of `onDeploy`. -/
def advance (s : Host) (d : ℕ) (request : Request) (outcome : Outcome) : Option Host :=
  match request.pc with
  | .stop old => (s.loaded old).map fun session =>
      (s.setSession old { session with stopRequested := true }).goto d request (.wait old)
  | .wait old => (s.loaded old).map fun session =>
      if session.runForeverActive then s else s.goto d request (.close old session.closing)
  | .close old closing => (s.loaded old).map fun session =>
      match session.closeStep outcome closing with
      | (session, some closing, call) =>
        ((s.setSession old session).call old session.namespaceId call).goto d request (.close old closing)
      | (session, none, call) => ((s.setSession old session).call old session.namespaceId call).goto d request .retire
  | .retire => some (if outcome = .ok then s.goto d request .load else s.finish d)
  | .load =>
    some (if outcome = .ok then
      ({ (s.setSession s.nextSession (Session.init request.namespaceId request.configs)) with
          nextSession := s.nextSession + 1 } : Host).goto d request (.put s.nextSession)
    else s.finish d)
  | .put new => (s.loaded new).map fun session =>
      if outcome = .ok then
        ({ s with sessions := Function.update s.sessions request.namespaceId (some new) } : Host).goto d request
          (.spawn new)
      else (s.discard new session).finish d
  | .spawn new => (s.loaded new).map fun session =>
      if outcome = .ok then (s.setSession new (session.goto .spawned)).finish d
      else ({ (s.discard new session) with
        sessions := Function.update s.sessions request.namespaceId none } : Host).finish d

end Host

/-- The fibers of a host. -/
def host : Machine Host Host.Label where
  step s
    | .deploy namespaceId configs => some (s.deploy namespaceId configs)
    | .advance d outcome => (s.requests d).bind fun request => s.advance d request outcome
    | .run n outcome => (s.loaded n).bind fun session => (session.step outcome).map fun next =>
        (s.setSession n next.1).call n session.namespaceId next.2

/-! ## Which steps are orderly -/

/-- What is asked of the next step of a request. -/
def DeployPc.Orderly (loaded : ℕ → Option Session) (outcome : Outcome) : DeployPc → Prop
  | .stop old => ∀ session ∈ loaded old, session.pc.entered
  | .close _ _ => outcome = .ok
  | .wait _ | .retire | .load | .put _ | .spawn _ => True

instance (loaded : ℕ → Option Session) (outcome : Outcome) : (pc : DeployPc) → Decidable (pc.Orderly loaded outcome)
  | .stop old => inferInstanceAs (Decidable (∀ session ∈ loaded old, session.pc.entered))
  | .close _ _ => inferInstanceAs (Decidable (outcome = .ok))
  | .wait _ | .retire | .load | .put _ | .spawn _ => inferInstanceAs (Decidable True)

namespace Host

/-- One request at a time for a namespace; `stop` finds `runForever` entered; closing a route does not fail. -/
def Orderly (s : Host) : Label → Prop
  | .deploy namespaceId _ => 47 ∉ namespaceId ∧ ∀ d < s.nextRequest, ∀ r ∈ s.requests d, r.namespaceId ≠ namespaceId
  | .advance d outcome => ∀ r ∈ s.requests d, r.pc.Orderly s.loaded outcome
  | .run n outcome => ∀ session ∈ s.loaded n, session.pc.closes → outcome = .ok

instance (s : Host) : (l : Label) → Decidable (s.Orderly l)
  | .deploy _ _ => inferInstanceAs (Decidable (_ ∧ _))
  | .advance d outcome => inferInstanceAs (Decidable (∀ r ∈ s.requests d, r.pc.Orderly s.loaded outcome))
  | .run n outcome => inferInstanceAs (Decidable (∀ session ∈ s.loaded n, session.pc.closes → outcome = .ok))

end Host

/-! ## What a step leaves to the other namespaces -/

namespace Host

variable {s s' s'' : Host} {n d : ℕ} {session next : Session} {r : Request} {c : RouteCall} {kind : GatewayKind}
  {routePath key : Bytes} {namespaceId other : NamespaceId}

@[simp] theorem setSession_loaded : (s.setSession n session).loaded = Function.update s.loaded n (some session) := rfl
@[simp] theorem setSession_sessions : (s.setSession n session).sessions = s.sessions := rfl
@[simp] theorem setSession_requests : (s.setSession n session).requests = s.requests := rfl
@[simp] theorem setSession_routes : (s.setSession n session).routes = s.routes := rfl
@[simp] theorem goto_loaded (pc : DeployPc) : (s.goto d r pc).loaded = s.loaded := rfl
@[simp] theorem goto_sessions (pc : DeployPc) : (s.goto d r pc).sessions = s.sessions := rfl
@[simp] theorem goto_routes (pc : DeployPc) : (s.goto d r pc).routes = s.routes := rfl
@[simp] theorem finish_loaded : (s.finish d).loaded = s.loaded := rfl
@[simp] theorem finish_sessions : (s.finish d).sessions = s.sessions := rfl
@[simp] theorem finish_routes : (s.finish d).routes = s.routes := rfl

theorem call_listen : s.call n namespaceId (.listen kind routePath) =
    { s with routes := Function.update s.routes kind ((s.routes kind).insert (routeKey namespaceId routePath) n) } := by
  cases kind <;> rfl

theorem call_close : s.call n namespaceId (.close kind routePath) =
    { s with routes := Function.update s.routes kind ((s.routes kind).erase (routeKey namespaceId routePath)) } := by
  cases kind <;> rfl

/-- A call is about the routes only. -/
theorem call_fields (s : Host) (n : ℕ) (namespaceId : NamespaceId) (c : RouteCall) :
    (s.call n namespaceId c).loaded = s.loaded ∧ (s.call n namespaceId c).sessions = s.sessions ∧
      (s.call n namespaceId c).requests = s.requests ∧ (s.call n namespaceId c).nextSession = s.nextSession ∧
      (s.call n namespaceId c).nextRequest = s.nextRequest := by
  cases c with
  | none => exact ⟨rfl, rfl, rfl, rfl, rfl⟩
  | listen kind routePath => rw [call_listen]; exact ⟨rfl, rfl, rfl, rfl, rfl⟩
  | close kind routePath => rw [call_close]; exact ⟨rfl, rfl, rfl, rfl, rfl⟩

@[simp] theorem call_loaded : (s.call n namespaceId c).loaded = s.loaded := (call_fields s n namespaceId c).1
@[simp] theorem call_sessions : (s.call n namespaceId c).sessions = s.sessions := (call_fields s n namespaceId c).2.1
@[simp] theorem call_requests : (s.call n namespaceId c).requests = s.requests := (call_fields s n namespaceId c).2.2.1

/-- A route behind a call. -/
theorem lookup_call (s : Host) (n : ℕ) (namespaceId : NamespaceId) (c : RouteCall) (kind : GatewayKind)
    (routePath : Bytes) : ((s.call n namespaceId c).routes kind).lookup (routeKey namespaceId routePath) =
      if c = .listen kind routePath then some n
      else if c = .close kind routePath then none
      else (s.routes kind).lookup (routeKey namespaceId routePath) := by
  cases c with
  | none => rfl
  | listen k p =>
    rw [call_listen]
    by_cases hkind : k = kind
    · subst hkind
      simp only [Function.update_self, FMap.lookup_insert_eq, routeKey, joinKey_left_inj, RouteCall.listen.injEq,
        true_and, reduceCtorEq, if_false, eq_comm (a := p)]
    · simp [Function.update_of_ne (Ne.symm hkind), hkind]
  | close k p =>
    rw [call_close]
    by_cases hkind : k = kind
    · subst hkind
      simp only [Function.update_self, FMap.lookup_erase_eq, routeKey, joinKey_left_inj, RouteCall.close.injEq,
        true_and, reduceCtorEq, if_false, eq_comm (a := p)]
    · simp [Function.update_of_ne (Ne.symm hkind), hkind]

/-- The same to a namespace: its sessions, its requests and its routes. -/
structure Same (namespaceId : NamespaceId) (s s' : Host) : Prop where
  loaded : ∀ n session, session.namespaceId = namespaceId → (s'.loaded n = some session ↔ s.loaded n = some session)
  sessions : s'.sessions namespaceId = s.sessions namespaceId
  requests : ∀ d r, r.namespaceId = namespaceId → (s'.requests d = some r ↔ s.requests d = some r)
  routes : ∀ kind routePath, (s'.routes kind).lookup (routeKey namespaceId routePath) =
    (s.routes kind).lookup (routeKey namespaceId routePath)

namespace Same

theorem refl (namespaceId : NamespaceId) (s : Host) : Same namespaceId s s :=
  ⟨fun _ _ _ => Iff.rfl, rfl, fun _ _ _ => Iff.rfl, fun _ _ => rfl⟩

theorem trans (h : Same namespaceId s s') (h' : Same namespaceId s' s'') : Same namespaceId s s'' where
  loaded n session hns := (h'.loaded n session hns).trans (h.loaded n session hns)
  sessions := h'.sessions.trans h.sessions
  requests d r hns := (h'.requests d r hns).trans (h.requests d r hns)
  routes kind routePath := (h'.routes kind routePath).trans (h.routes kind routePath)

/-- A new state of a session of another namespace. -/
theorem setSession (hold : ∀ session, s.loaded n = some session → session.namespaceId ≠ other)
    (hnew : next.namespaceId ≠ other) : Same other s (s.setSession n next) where
  loaded m session hns := by
    rw [setSession_loaded, Function.update_apply]
    split_ifs with hm
    · subst hm
      refine iff_of_false ?_ fun heq => hold session heq hns
      rintro ⟨⟩
      exact hnew hns
    · exact Iff.rfl
  sessions := rfl
  requests _ _ _ := Iff.rfl
  routes _ _ := rfl

/-- A call of another namespace, where neither has a `/`. -/
theorem call (hne : namespaceId ≠ other) (hslash : 47 ∉ namespaceId) (hother : 47 ∉ other) :
    Same other s (s.call n namespaceId c) where
  loaded _ _ _ := by rw [call_loaded]
  sessions := by rw [call_sessions]
  requests _ _ _ := by rw [call_requests]
  routes kind routePath := by
    have hkey : ∀ p, routeKey other routePath ≠ routeKey namespaceId p :=
      fun p heq => hne (joinKey_inj hother hslash heq).1.symm
    cases c with
    | none => rfl
    | listen k p =>
      rw [call_listen]
      simp only [Function.update_apply]
      split_ifs with hkind
      · rw [FMap.lookup_insert_eq, if_neg (hkey p), hkind]
      · rfl
    | close k p =>
      rw [call_close]
      simp only [Function.update_apply]
      split_ifs with hkind
      · rw [FMap.lookup_erase_eq, if_neg (hkey p), hkind]
      · rfl

/-- A request of another namespace begins, goes on or returns. -/
theorem request {r' : Option Request} (hrequests : s'.requests = Function.update s.requests d r')
    (hold : ∀ r, s.requests d = some r → r.namespaceId ≠ other) (hnew : ∀ r, r' = some r → r.namespaceId ≠ other)
    (hloaded : s'.loaded = s.loaded) (hsessions : s'.sessions other = s.sessions other)
    (hroutes : s'.routes = s.routes) : Same other s s' where
  loaded _ _ _ := by rw [hloaded]
  sessions := hsessions
  requests d' r hns := by
    rw [hrequests, Function.update_apply]
    split_ifs with hd
    · subst hd
      exact iff_of_false (fun heq => hnew r heq hns) fun heq => hold r heq hns
    · exact Iff.rfl
  routes _ _ := by rw [hroutes]

end Same
end Host

end Lifecycle

end Slung
