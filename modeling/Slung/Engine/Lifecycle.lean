import Mathlib.Logic.Function.Basic
import Slung.Engine.Setup

/-!
# Slung.Engine.Lifecycle — the fiber of a session, and `closeConnectors` (`engine/events.zig`)

`runForever` one step at a time, as other fibers see it: the two flags, and the calls of the gateways.  `stop` sets a
flag that `runForever` resets when it begins, so what a session does next depends on which of them came first.
-/

namespace Slung

open Slung.Lib

namespace Lifecycle

/-! ## One session -/

/-- `closeConnectors`: a gateway, and the routes that are still to be closed there. -/
structure Closing where
  kind : GatewayKind
  todo : List Bytes
deriving DecidableEq, Repr

/-- Where the fiber of a session is in `runForever`. -/
inductive SessionPc where
  /-- not spawned -/
  | loaded
  | spawned
  /-- `stop_requested` is reset -/
  | reset
  /-- `run_forever_active` is set; the sources that are to be set up -/
  | setup (todo : List (Bytes × SourceConfig))
  /-- a source listens and could not be recorded -/
  | undo (kind : GatewayKind) (routePath : Bytes)
  /-- about to look at `stop_requested` -/
  | check
  /-- in `step` -/
  | step
  | close (closing : Closing)
  /-- about to clear `run_forever_active` -/
  | leave
  | returned
deriving DecidableEq, Repr

/-- A session, with what `setupConnectors` has recorded of its sources. -/
structure Session where
  namespaceId : NamespaceId
  configs : List (Bytes × SourceConfig)
  stopRequested : Bool
  runForeverActive : Bool
  sources : GatewayKind → List Bytes
  pc : SessionPc

/-- How a step fares; `late` is an error behind `listen`. -/
inductive Outcome where
  | ok
  | failed
  | late
deriving DecidableEq, Repr

/-- What a step does to the routes of a gateway. -/
inductive RouteCall where
  | none
  | listen (kind : GatewayKind) (routePath : Bytes)
  | close (kind : GatewayKind) (routePath : Bytes)
deriving DecidableEq, Repr

/-- The route of a source is its path, or else its name. -/
def routePathOf (source : Bytes × SourceConfig) : Bytes := source.2.routePath.getD source.1

namespace Session

def init (namespaceId : NamespaceId) (configs : List (Bytes × SourceConfig)) : Session :=
  ⟨namespaceId, configs, false, false, fun _ => [], .loaded⟩

def goto (self : Session) (pc : SessionPc) : Session := { self with pc := pc }

/-- `clearRetainingCapacity` -/
def clear (self : Session) (kind : GatewayKind) : Session :=
  { self with sources := Function.update self.sources kind [] }

def closing (self : Session) : Closing := ⟨.ws, self.sources .ws⟩

/-- One step of `closeConnectors`, and what is left of it.  A route that cannot be closed stays. -/
def closeStep (self : Session) (outcome : Outcome) (closing : Closing) : Session × Option Closing × RouteCall :=
  match closing.todo, closing.kind with
  | routePath :: todo, kind =>
    (self, some ⟨kind, todo⟩, if outcome = .ok then .close kind routePath else .none)
  | [], .ws => (self.clear .ws, some ⟨.http, self.sources .http⟩, .none)
  | [], .http => (self.clear .http, none, .none)

/-- One source of `setupConnectors`. -/
def setupStep (self : Session) (outcome : Outcome) (source : Bytes × SourceConfig)
    (todo : List (Bytes × SourceConfig)) : Session × RouteCall :=
  match outcome, source.2.gateway with
  | .ok, none => (self.goto (.setup todo), .none)
  | .ok, some kind =>
    (({ self with sources := Function.update self.sources kind (self.sources kind ++ [routePathOf source]) }
      : Session).goto (.setup todo), .listen kind (routePathOf source))
  | .late, some kind => (self.goto (.undo kind (routePathOf source)), .listen kind (routePathOf source))
  | .late, none | .failed, _ => (self.goto .leave, .none)

/-- The next step of `runForever`.  The `defer` that closes the connectors stands behind the setup, so an error of
the setup does not come by it. -/
def step (self : Session) (outcome : Outcome) : Option (Session × RouteCall) :=
  match self.pc with
  | .loaded | .returned => none
  | .spawned => some ({ self with stopRequested := false, pc := .reset }, .none)
  | .reset => some ({ self with runForeverActive := true, pc := .setup self.configs }, .none)
  | .setup [] => some (self.goto .check, .none)
  | .setup (source :: todo) => some (self.setupStep outcome source todo)
  | .undo kind routePath => some (self.goto .leave, if outcome = .ok then .close kind routePath else .none)
  | .check => some (self.goto (if self.stopRequested then .close self.closing else .step), .none)
  | .step => some (self.goto (if outcome = .ok then .check else .close self.closing), .none)
  | .close closing =>
    match self.closeStep outcome closing with
    | (self, some closing, call) => some (self.goto (.close closing), call)
    | (self, none, call) => some (self.goto .leave, call)
  | .leave => some ({ self with runForeverActive := false, pc := .returned }, .none)

end Session

/-! ## Where a session is -/

namespace SessionPc

/-- `run_forever_active` is set. -/
def active : SessionPc → Bool
  | .loaded | .spawned | .reset | .returned => false
  | .setup _ | .undo _ _ | .check | .step | .close _ | .leave => true

/-- `runForever` has set the flag. -/
def entered (pc : SessionPc) : Bool := pc.active || pc = .returned

/-- The next step closes a route. -/
def closes : SessionPc → Bool
  | .undo _ _ | .close _ => true
  | _ => false

/-- Everything that is recorded is served. -/
def serving : SessionPc → Bool
  | .undo _ _ | .close _ | .leave | .returned => false
  | _ => true

/-- In the loop, or on the way there. -/
def looping : SessionPc → Bool
  | .spawned | .reset | .setup _ | .check | .step => true
  | _ => false

def closing : SessionPc → Option Closing
  | .close closing => some closing
  | _ => none

end SessionPc

/-! ## What a step of a session does -/

namespace Session

variable {session next : Session} {outcome : Outcome} {c : RouteCall} {kind : GatewayKind} {routePath : Bytes}

/-- The routes that are recorded, less those that `closeConnectors` has closed. -/
def Recorded (self : Session) (kind : GatewayKind) (routePath : Bytes) : Option Closing → Prop
  | none => routePath ∈ self.sources kind
  | some closing => if closing.kind = kind then routePath ∈ closing.todo else routePath ∈ self.sources kind

/-- The session has listened at the route and not closed it. -/
def Keeps (self : Session) (kind : GatewayKind) (routePath : Bytes) : Prop :=
  self.pc = .undo kind routePath ∨ self.Recorded kind routePath self.pc.closing

/-- What is still to be closed is recorded, and the gateways come in their order. -/
def Closes (self : Session) (closing : Closing) : Prop :=
  (∀ routePath ∈ closing.todo, routePath ∈ self.sources closing.kind) ∧ (closing.kind = .http → self.sources .ws = [])

/-- The steps of a session, by where it is. -/
inductive Moves (session : Session) (outcome : Outcome) : Session → RouteCall → Prop where
  | reset (h : session.pc = .spawned) :
      Moves session outcome { session with stopRequested := false, pc := .reset } .none
  | activate (h : session.pc = .reset) :
      Moves session outcome { session with runForeverActive := true, pc := .setup session.configs } .none
  | ready (h : session.pc = .setup []) : Moves session outcome (session.goto .check) .none
  | setup {source : Bytes × SourceConfig} {todo : List (Bytes × SourceConfig)} {next : Session} {c : RouteCall}
      (h : session.pc = .setup (source :: todo)) (hs : session.setupStep outcome source todo = (next, c)) :
      Moves session outcome next c
  | undo {kind : GatewayKind} {routePath : Bytes} (h : session.pc = .undo kind routePath) :
      Moves session outcome (session.goto .leave) (if outcome = .ok then .close kind routePath else .none)
  | stop (h : session.pc = .check) (hs : session.stopRequested = true) :
      Moves session outcome (session.goto (.close session.closing)) .none
  | step (h : session.pc = .check) (hs : session.stopRequested = false) :
      Moves session outcome (session.goto .step) .none
  | again (h : session.pc = .step) (hs : outcome = .ok) : Moves session outcome (session.goto .check) .none
  | fail (h : session.pc = .step) (hs : outcome ≠ .ok) :
      Moves session outcome (session.goto (.close session.closing)) .none
  | close {closing rest : Closing} {next : Session} {c : RouteCall} (h : session.pc = .close closing)
      (hs : session.closeStep outcome closing = (next, some rest, c)) :
      Moves session outcome (next.goto (.close rest)) c
  | closed {closing : Closing} {next : Session} {c : RouteCall} (h : session.pc = .close closing)
      (hs : session.closeStep outcome closing = (next, none, c)) : Moves session outcome (next.goto .leave) c
  | leave (h : session.pc = .leave) :
      Moves session outcome { session with runForeverActive := false, pc := .returned } .none

theorem moves_of_step (h : session.step outcome = some (next, c)) : session.Moves outcome next c := by
  unfold step at h
  split at h <;> rename_i hpc
  · cases h
  · cases h
  · cases h
    exact .reset hpc
  · cases h
    exact .activate hpc
  · cases h
    exact .ready hpc
  · exact .setup hpc (Option.some.inj h)
  · cases h
    exact .undo hpc
  · cases h
    cases hs : session.stopRequested with
    | true => exact .stop hpc hs
    | false => exact .step hpc hs
  · cases h
    by_cases hs : outcome = .ok
    · rw [if_pos hs]
      exact .again hpc hs
    · rw [if_neg hs]
      exact .fail hpc hs
  · split at h <;> rename_i hs <;> cases h
    · exact .close hpc hs
    · exact .closed hpc hs
  · cases h
    exact .leave hpc

/-- A step of `closeConnectors` only shortens the lists. -/
theorem closeStep_spec {closing : Closing} {rest : Option Closing}
    (h : session.closeStep outcome closing = (next, rest, c)) :
    (next.namespaceId = session.namespaceId ∧ next.pc = session.pc ∧
      next.runForeverActive = session.runForeverActive ∧ next.stopRequested = session.stopRequested) ∧
    ∀ kind routePath, c ≠ .listen kind routePath ∧
      (routePath ∈ next.sources kind → routePath ∈ session.sources kind) := by
  unfold closeStep at h
  split at h <;> cases h
  · refine ⟨⟨rfl, rfl, rfl, rfl⟩, fun kind routePath => ⟨?_, id⟩⟩
    split_ifs <;> simp
  all_goals
    refine ⟨⟨rfl, rfl, rfl, rfl⟩, fun kind routePath => ⟨by simp, fun hmem => ?_⟩⟩
    simp only [clear, Function.update_apply] at hmem
    split_ifs at hmem
    · exact absurd hmem List.not_mem_nil
    · exact hmem

/-- What was recorded is closed, or still recorded. -/
theorem closeStep_recorded {closing : Closing} {rest : Option Closing}
    (h : session.closeStep .ok closing = (next, rest, c)) (hrecorded : session.Recorded kind routePath (some closing)) :
    c = .close kind routePath ∨ next.Recorded kind routePath rest := by
  obtain ⟨k, todo⟩ := closing
  simp only [Recorded] at hrecorded
  cases todo with
  | cons path todo =>
    cases h
    by_cases hk : k = kind
    · rw [if_pos hk] at hrecorded
      subst hk
      rcases List.mem_cons.mp hrecorded with rfl | hmem
      · exact Or.inl rfl
      · exact Or.inr (by simpa only [Recorded, if_true] using hmem)
    · exact Or.inr (by simpa only [Recorded, if_neg hk] using hrecorded)
  | nil =>
    cases k with
    | ws =>
      cases h
      cases kind with
      | ws => simp at hrecorded
      | http => exact Or.inr (by simpa [Recorded] using hrecorded)
    | http =>
      cases h
      cases kind with
      | http => simp at hrecorded
      | ws => exact Or.inr (by simpa [Recorded, clear] using hrecorded)

/-- `closeConnectors` goes on, or nothing is recorded any more. -/
theorem closeStep_closes {closing : Closing} {rest : Option Closing}
    (h : session.closeStep outcome closing = (next, rest, c)) (hcloses : session.Closes closing) :
    match rest with
    | some rest => next.Closes rest
    | none => ∀ kind, next.sources kind = [] := by
  obtain ⟨k, todo⟩ := closing
  obtain ⟨htodo, hws⟩ := hcloses
  cases todo with
  | cons path todo =>
    cases h
    exact ⟨fun p hp => htodo p (List.mem_cons_of_mem _ hp), hws⟩
  | nil =>
    cases k with
    | ws =>
      cases h
      exact ⟨fun p hp => hp, fun _ => rfl⟩
    | http =>
      cases h
      intro kind
      cases kind with
      | ws => exact hws rfl
      | http => rfl

theorem setupStep_spec {source : Bytes × SourceConfig} {todo : List (Bytes × SourceConfig)}
    (h : session.setupStep outcome source todo = (next, c)) :
    next.namespaceId = session.namespaceId ∧ next.runForeverActive = session.runForeverActive ∧
      next.stopRequested = session.stopRequested ∧
      (next.pc = .setup todo ∧ (∀ kind routePath, routePath ∈ next.sources kind ↔
          routePath ∈ session.sources kind ∨ c = .listen kind routePath) ∨
        next.sources = session.sources ∧
          ((∃ kind routePath, next.pc = .undo kind routePath ∧ c = .listen kind routePath) ∨
            next.pc = .leave ∧ c = .none)) ∧
      ∀ kind routePath, c ≠ .close kind routePath := by
  unfold setupStep at h
  split at h <;> cases h
  · exact ⟨rfl, rfl, rfl, Or.inl ⟨rfl, by simp [goto]⟩, by simp⟩
  · refine ⟨rfl, rfl, rfl, Or.inl ⟨rfl, fun kind routePath => ?_⟩, by simp⟩
    simp only [goto, Function.update_apply]
    split_ifs with hkind
    · subst hkind
      simp [eq_comm]
    · simp [Ne.symm hkind]
  · exact ⟨rfl, rfl, rfl, Or.inr ⟨rfl, Or.inl ⟨_, _, rfl, rfl⟩⟩, by simp⟩
  · exact ⟨rfl, rfl, rfl, Or.inr ⟨rfl, Or.inr ⟨rfl, rfl⟩⟩, by simp⟩
  · exact ⟨rfl, rfl, rfl, Or.inr ⟨rfl, Or.inr ⟨rfl, rfl⟩⟩, by simp⟩

namespace Moves

theorem namespaceId_eq (h : session.Moves outcome next c) : next.namespaceId = session.namespaceId := by
  cases h with
  | setup hpc hs => exact (setupStep_spec hs).1
  | close hpc hs => exact (closeStep_spec hs).1.1
  | closed hpc hs => exact (closeStep_spec hs).1.1
  | _ => rfl

/-- A session that has returned takes no step, and none that was not spawned. -/
theorem live (h : session.Moves outcome next c) : session.pc ≠ .returned ∧ session.pc ≠ .loaded := by
  cases h <;> simp [*]

theorem active_eq (h : session.Moves outcome next c) (hflag : session.runForeverActive = session.pc.active) :
    next.runForeverActive = next.pc.active := by
  cases h with
  | setup hpc hs =>
    obtain ⟨-, hactive, -, hnext, -⟩ := setupStep_spec hs
    rw [hactive, hflag, hpc]
    rcases hnext with ⟨hpc', -⟩ | ⟨-, ⟨k, p, hpc', -⟩ | ⟨hpc', -⟩⟩ <;> rw [hpc'] <;> rfl
  | close hpc hs => exact (closeStep_spec hs).1.2.2.1.trans (by rw [hflag, hpc]; rfl)
  | closed hpc hs => exact (closeStep_spec hs).1.2.2.1.trans (by rw [hflag, hpc]; rfl)
  | reset hpc => exact hflag.trans (by rw [hpc]; rfl)
  | activate hpc => rfl
  | leave hpc => rfl
  | ready hpc => exact hflag.trans (by rw [hpc]; rfl)
  | undo hpc => exact hflag.trans (by rw [hpc]; rfl)
  | stop hpc hs => exact hflag.trans (by rw [hpc]; rfl)
  | step hpc hs => exact hflag.trans (by rw [hpc]; rfl)
  | again hpc hs => exact hflag.trans (by rw [hpc]; rfl)
  | fail hpc hs => exact hflag.trans (by rw [hpc]; rfl)

theorem entered_of (h : session.Moves outcome next c) (hentered : session.pc.entered) : next.pc.entered := by
  cases h with
  | setup hpc hs =>
    obtain ⟨-, -, -, hnext, -⟩ := setupStep_spec hs
    rcases hnext with ⟨hpc', -⟩ | ⟨-, ⟨k, p, hpc', -⟩ | ⟨hpc', -⟩⟩ <;> rw [hpc'] <;> rfl
  | reset hpc =>
    rw [hpc] at hentered
    exact absurd hentered (by decide)
  | activate hpc =>
    rw [hpc] at hentered
    exact absurd hentered (by decide)
  | _ => rfl

/-- **A route that a session listens at stays one of its routes until it is closed.** -/
theorem keeps_of (h : session.Moves outcome next c) (hcloses : session.pc.closes → outcome = .ok)
    (hkeeps : c = .listen kind routePath ∨ session.Keeps kind routePath) :
    c = .close kind routePath ∨ next.Keeps kind routePath := by
  unfold Keeps at hkeeps
  cases h with
  | setup hpc hs =>
    obtain ⟨-, -, -, hnext, -⟩ := setupStep_spec hs
    simp only [hpc, reduceCtorEq, false_or, SessionPc.closing, Recorded] at hkeeps
    rcases hnext with ⟨hpc', hsources⟩ | ⟨hsources, ⟨k, p, hpc', hc⟩ | ⟨hpc', hc⟩⟩
    · exact Or.inr (Or.inr (by simpa only [hpc', SessionPc.closing, Recorded, hsources] using hkeeps.symm))
    · rw [hc] at hkeeps
      rcases hkeeps with hlisten | hmem
      · cases hlisten
        exact Or.inr (Or.inl hpc')
      · exact Or.inr (Or.inr (by simpa only [hpc', SessionPc.closing, Recorded, hsources] using hmem))
    · rw [hc] at hkeeps
      exact Or.inr (Or.inr (by simpa [hpc', SessionPc.closing, Recorded, hsources] using hkeeps))
  | undo hpc =>
    rw [hcloses (by rw [hpc]; rfl), if_pos rfl] at hkeeps ⊢
    simp only [hpc, reduceCtorEq, false_or, SessionPc.closing, Recorded, SessionPc.undo.injEq] at hkeeps
    rcases hkeeps with ⟨rfl, rfl⟩ | hmem
    · exact Or.inl rfl
    · exact Or.inr (Or.inr hmem)
  | close hpc hs =>
    rw [hcloses (by rw [hpc]; rfl)] at hs
    have hlisten := ((closeStep_spec hs).2 kind routePath).1
    simp only [hpc, reduceCtorEq, false_or, SessionPc.closing, hlisten] at hkeeps
    exact (closeStep_recorded hs hkeeps).imp_right Or.inr
  | closed hpc hs =>
    rw [hcloses (by rw [hpc]; rfl)] at hs
    have hlisten := ((closeStep_spec hs).2 kind routePath).1
    simp only [hpc, reduceCtorEq, false_or, SessionPc.closing, hlisten] at hkeeps
    exact (closeStep_recorded hs hkeeps).imp_right Or.inr
  | stop hpc hs =>
    simp only [hpc, reduceCtorEq, false_or, SessionPc.closing, Recorded] at hkeeps
    refine Or.inr (Or.inr ?_)
    cases kind <;> simpa [goto, SessionPc.closing, Recorded, closing] using hkeeps
  | fail hpc hs =>
    simp only [hpc, reduceCtorEq, false_or, SessionPc.closing, Recorded] at hkeeps
    refine Or.inr (Or.inr ?_)
    cases kind <;> simpa [goto, SessionPc.closing, Recorded, closing] using hkeeps
  | reset hpc | activate hpc | ready hpc | step hpc hs | again hpc hs | leave hpc =>
    simp only [hpc, reduceCtorEq, false_or, SessionPc.closing, Recorded] at hkeeps
    exact Or.inr (Or.inr hkeeps)

/-- While everything that is recorded is served, nothing is closed, and what is recorded anew listens. -/
theorem serving_of (h : session.Moves outcome next c) (hserving : next.pc.serving) :
    session.pc.serving ∧ ∀ kind routePath, c ≠ .close kind routePath ∧
      (routePath ∈ next.sources kind → routePath ∈ session.sources kind ∨ c = .listen kind routePath) := by
  cases h with
  | setup hpc hs =>
    obtain ⟨-, -, -, hnext, hclose⟩ := setupStep_spec hs
    rcases hnext with ⟨hpc', hsources⟩ | ⟨hsources, ⟨k, p, hpc', hc⟩ | ⟨hpc', hc⟩⟩
    · exact ⟨by rw [hpc]; rfl, fun kind routePath => ⟨hclose kind routePath, (hsources kind routePath).mp⟩⟩
    all_goals
      rw [hpc'] at hserving
      exact absurd hserving Bool.false_ne_true
  | undo hpc | stop hpc hs | fail hpc hs | close hpc hs | closed hpc hs | leave hpc =>
    exact absurd hserving Bool.false_ne_true
  | reset hpc | activate hpc | ready hpc | step hpc hs | again hpc hs =>
    exact ⟨by rw [hpc]; rfl, fun kind routePath => ⟨by simp, Or.inl⟩⟩

end Moves

/-- The steps that `closeConnectors` has left. -/
def closeLeft (self : Session) (closing : Closing) : ℕ :=
  closing.todo.length + match closing.kind with
    | .ws => (self.sources .http).length + 2
    | .http => 1

/-- The steps that a session has left at most, once its loop sees that it is to stop. -/
def remaining (self : Session) : ℕ :=
  let check := self.closeLeft self.closing + 2
  match self.pc with
  | .setup todo => 2 * todo.length + check + 1
  | .check => check
  | .step => check + 1
  | .close closing => self.closeLeft closing + 1
  | .undo _ _ => 2
  | .leave => 1
  | .loaded | .spawned | .reset | .returned => 0

theorem closeLeft_goto (pc : SessionPc) (closing : Closing) :
    (session.goto pc).closeLeft closing = session.closeLeft closing := rfl

theorem closeStep_left {closing : Closing} {rest : Option Closing}
    (h : session.closeStep outcome closing = (next, rest, c)) :
    match rest with
    | some rest => next.closeLeft rest + 1 = session.closeLeft closing
    | none => session.closeLeft closing = 1 := by
  obtain ⟨k, todo⟩ := closing
  cases todo with
  | cons path todo =>
    cases h
    simp only [closeLeft, List.length_cons]
    omega
  | nil =>
    cases k with
    | ws =>
      cases h
      simp only [closeLeft, List.length_nil]
      omega
    | http =>
      cases h
      rfl

theorem closing_left (self : Session) :
    self.closeLeft self.closing = (self.sources .ws).length + ((self.sources .http).length + 2) := rfl

/-- Setting up a source records at most one. -/
theorem setupStep_left {source : Bytes × SourceConfig} {todo : List (Bytes × SourceConfig)}
    (h : session.setupStep outcome source todo = (next, c)) :
    next.closeLeft next.closing ≤ session.closeLeft session.closing + 1 := by
  simp only [closing_left]
  unfold setupStep at h
  split at h <;> cases h
  · exact Nat.le_succ _
  · rename_i kind _
    cases kind <;> simp [goto, Function.update] <;> omega
  all_goals exact Nat.le_succ _

/-- **A session that is to stop comes closer to its end with each of its steps**, and begins no further `step`. -/
theorem Moves.remaining_lt (h : session.Moves outcome next c) (hstop : session.stopRequested = true)
    (hentered : session.pc.entered) :
    next.stopRequested = true ∧ next.pc ≠ .step ∧ next.remaining < session.remaining := by
  cases h with
  | reset hpc | activate hpc =>
    rw [hpc] at hentered
    exact absurd hentered (by decide)
  | ready hpc =>
    refine ⟨hstop, by simp [goto], ?_⟩
    simp only [remaining, hpc, goto, List.length_nil]
    exact Nat.lt_succ_of_le (by rw [Nat.mul_zero, Nat.zero_add]; exact le_rfl)
  | setup hpc hs =>
    obtain ⟨-, -, hflag, hnext, -⟩ := setupStep_spec hs
    have hleft := setupStep_left hs
    rcases hnext with ⟨hpc', -⟩ | ⟨-, ⟨k, p, hpc', -⟩ | ⟨hpc', -⟩⟩
    · refine ⟨hflag.trans hstop, by simp [hpc'], ?_⟩
      simp only [remaining, hpc, hpc', List.length_cons]
      omega
    · refine ⟨hflag.trans hstop, by simp [hpc'], ?_⟩
      simp only [remaining, hpc, hpc', List.length_cons]
      omega
    · refine ⟨hflag.trans hstop, by simp [hpc'], ?_⟩
      simp only [remaining, hpc, hpc', List.length_cons]
      omega
  | undo hpc =>
    refine ⟨hstop, by simp [goto], ?_⟩
    simp only [remaining, hpc, goto]
    omega
  | stop hpc hs =>
    refine ⟨hstop, by simp [goto], ?_⟩
    simp only [remaining, hpc, goto]
    exact Nat.lt_succ_self _
  | step hpc hs =>
    rw [hstop] at hs
    cases hs
  | again hpc hs =>
    refine ⟨hstop, by simp [goto], ?_⟩
    simp only [remaining, hpc, goto]
    exact Nat.lt_succ_self _
  | fail hpc hs =>
    refine ⟨hstop, by simp [goto], ?_⟩
    simp only [remaining, hpc, goto]
    exact Nat.lt_succ_of_lt (Nat.lt_succ_self _)
  | close hpc hs =>
    have hleft := closeStep_left hs
    refine ⟨(closeStep_spec hs).1.2.2.2.trans hstop, by simp [goto], ?_⟩
    simp only [remaining, hpc, closeLeft_goto, ← hleft]
    exact Nat.lt_succ_self _
  | closed hpc hs =>
    have hleft := closeStep_left hs
    refine ⟨(closeStep_spec hs).1.2.2.2.trans hstop, by simp [goto], ?_⟩
    simp only [remaining, hpc, goto] at hleft ⊢
    omega
  | leave hpc =>
    refine ⟨hstop, by simp, ?_⟩
    simp only [remaining, hpc]
    omega

/-- The session is on its way into its loop, or goes round in it, and nothing tells it to stop. -/
structure Loops (s : Session) : Prop where
  inLoop : s.pc.looping
  unstopped : s.pc = .spawned ∨ s.stopRequested = false

theorem Loops.step (h : session.Loops) (outcome : Outcome) : (session.step outcome).isSome := by
  have hpc := h.inLoop
  unfold Session.step
  split <;> rename_i hat <;> rw [hat] at hpc <;> first | rfl | exact absurd hpc Bool.false_ne_true

/-- A session that loops goes on doing so, unless a step of its own fails. -/
theorem Moves.loops (h : session.Moves .ok next c) (hloops : session.Loops) : next.Loops := by
  obtain ⟨hin, hunstopped⟩ := hloops
  have hflag : session.pc ≠ .spawned → session.stopRequested = false := hunstopped.resolve_left
  cases h with
  | reset hpc => exact ⟨rfl, Or.inr rfl⟩
  | activate hpc => exact ⟨rfl, Or.inr (hflag (by simp [hpc]))⟩
  | ready hpc => exact ⟨rfl, Or.inr (hflag (by simp [hpc]))⟩
  | @setup source todo next c hpc hs =>
    have hkeep := hflag (by simp [hpc])
    unfold setupStep at hs
    cases hgateway : source.2.gateway <;> rw [hgateway] at hs <;> cases hs <;> exact ⟨rfl, Or.inr hkeep⟩
  | stop hpc hs =>
    rw [hflag (by simp [hpc])] at hs
    cases hs
  | step hpc hs => exact ⟨rfl, Or.inr hs⟩
  | again hpc hs => exact ⟨rfl, Or.inr (hflag (by simp [hpc]))⟩
  | fail hpc hs => exact absurd rfl hs
  | undo hpc | close hpc hs | closed hpc hs | leave hpc =>
    rw [hpc] at hin
    exact absurd hin Bool.false_ne_true

end Session

end Lifecycle

end Slung
