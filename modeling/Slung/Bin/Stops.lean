import Slung.Bin.Handover

/-!
# Slung.Bin.Stops — what `stop` achieves (`bin/supervisor.zig`, `engine/events.zig`)

A `stop` that finds `runForever` entered returns in a bounded number of steps of the session.  One that comes before
`runForever` has begun is lost, for `runForever` resets the flag, and nobody sets it again.
-/

namespace Slung

open Slung.Lib

namespace Lifecycle

namespace Host

variable {s s' s'' : Host} {n d : ℕ} {session next : Session} {r : Request} {c : RouteCall} {kind : GatewayKind}
  {routePath key : Bytes} {namespaceId other : NamespaceId}

/-! ## A session that is to stop -/

/-- The label is a step of session `n`. -/
def Label.runs (n : ℕ) : Label → Bool
  | .run m _ => m == n
  | .deploy _ _ | .advance _ _ => false

/-- A request leaves a session that runs, or is to stop, where it is. -/
theorem advance_loaded (h : s.Inv) (hd : s.requests d = some r) {outcome : Outcome}
    (hs : s.advance d r outcome = some s') (hn : s.loaded n = some session) (hentered : session.pc.entered) :
    ∃ next, s'.loaded n = some next ∧ (session.stopRequested = true → next.stopRequested = true) ∧
      next.pc = session.pc ∧ next.remaining = session.remaining := by
  have hfits := (h.phased _ (h.slashRequest d r hd)).busy d r hd rfl
  have hsame : s'.loaded n = s.loaded n → ∃ next, s'.loaded n = some next ∧
      (session.stopRequested = true → next.stopRequested = true) ∧ next.pc = session.pc ∧
      next.remaining = session.remaining := fun heq => ⟨session, heq.trans hn, id, rfl, rfl⟩
  have hnew : ∀ new, s.loaded new = some (Session.init r.namespaceId r.configs) → n ≠ new := by
    rintro new hnew rfl
    obtain rfl := Option.some.inj (hn.symm.trans hnew)
    exact absurd hentered Bool.false_ne_true
  unfold Host.advance at hs
  cases hpc : r.pc with
  | stop old =>
    rw [hpc] at hs
    obtain ⟨session', hold, rfl⟩ := Option.map_eq_some_iff.mp hs
    by_cases heq : n = old
    · subst heq
      obtain rfl := Option.some.inj (hn.symm.trans hold)
      exact ⟨_, Function.update_self .., fun _ => rfl, rfl, rfl⟩
    · exact hsame (Function.update_of_ne heq _ _)
  | wait old =>
    rw [hpc] at hs
    obtain ⟨session', hold, rfl⟩ := Option.map_eq_some_iff.mp hs
    by_cases hactive : session'.runForeverActive = true
    · exact hsame (by rw [if_pos hactive])
    · exact hsame (by rw [if_neg hactive]; rfl)
  | close old closing =>
    rw [hpc] at hs hfits
    obtain ⟨session', hold, rfl⟩ := Option.map_eq_some_iff.mp hs
    obtain ⟨-, -, session'', hold', -, hreturned, -⟩ := hfits
    obtain rfl := Option.some.inj (hold.symm.trans hold')
    clear hsame hs
    rcases hstep : session'.closeStep outcome closing with ⟨next, rest, c⟩
    obtain ⟨⟨-, hnextPc, -, hflag⟩, -⟩ := Session.closeStep_spec hstep
    have hloaded : ∀ pc, (((s.setSession old next).call old next.namespaceId c).goto d r pc).loaded n =
        Function.update s.loaded old (some next) n := by
      intro pc
      rw [goto_loaded, call_loaded, setSession_loaded]
    by_cases heq : n = old
    · subst heq
      obtain rfl := Option.some.inj (hn.symm.trans hold)
      have hleft : next.remaining = session.remaining := by
        simp only [Session.remaining, hnextPc, hreturned]
      cases rest <;>
        exact ⟨next, (hloaded _).trans (Function.update_self ..), fun hstop => hflag.trans hstop, hnextPc, hleft⟩
    · cases rest <;>
        exact ⟨session, (hloaded _).trans ((Function.update_of_ne heq _ _).trans hn), id, rfl, rfl⟩
  | retire =>
    rw [hpc] at hs
    obtain rfl := Option.some.inj hs
    by_cases hok : outcome = .ok
    · exact hsame (by rw [if_pos hok]; rfl)
    · exact hsame (by rw [if_neg hok]; rfl)
  | load =>
    rw [hpc] at hs
    obtain rfl := Option.some.inj hs
    have hne : n ≠ s.nextSession := by
      rintro rfl
      rw [h.fresh _ le_rfl] at hn
      cases hn
    by_cases hok : outcome = .ok
    · exact hsame (by rw [if_pos hok]; exact Function.update_of_ne hne _ _)
    · exact hsame (by rw [if_neg hok]; rfl)
  | put new =>
    rw [hpc] at hs hfits
    obtain ⟨session', -, rfl⟩ := Option.map_eq_some_iff.mp hs
    by_cases hok : outcome = .ok
    · exact hsame (by rw [if_pos hok]; rfl)
    · exact hsame (by rw [if_neg hok]; exact Function.update_of_ne (hnew new hfits.2.2) _ _)
  | spawn new =>
    rw [hpc] at hs hfits
    obtain ⟨session', -, rfl⟩ := Option.map_eq_some_iff.mp hs
    by_cases hok : outcome = .ok
    · exact hsame (by rw [if_pos hok]; exact Function.update_of_ne (hnew new hfits.2.2) _ _)
    · exact hsame (by rw [if_neg hok]; exact Function.update_of_ne (hnew new hfits.2.2) _ _)

/-- What a step leaves of a session that is to stop. -/
theorem stopping_step (h : s.Inv) (hn : s.loaded n = some session) (hstop : session.stopRequested = true)
    (hentered : session.pc.entered) {l : Label} (hs : host.step s l = some s') :
    ∃ next, s'.loaded n = some next ∧ next.stopRequested = true ∧ next.pc.entered ∧
      next.remaining + (if l.runs n then 1 else 0) ≤ session.remaining ∧
      (next.pc = .step → session.pc = .step ∧ l.runs n = false) := by
  cases l with
  | deploy namespaceId configs =>
    obtain rfl := Option.some.inj hs
    exact ⟨session, hn, hstop, hentered, le_rfl, fun hpc => ⟨hpc, rfl⟩⟩
  | advance d outcome =>
    obtain ⟨r, hd, hs⟩ := Option.bind_eq_some_iff.mp hs
    obtain ⟨next, hnext, hstops, hpc, hleft⟩ := advance_loaded h hd hs hn hentered
    exact ⟨next, hnext, hstops hstop, hpc ▸ hentered, hleft.le, fun hstep => ⟨hpc ▸ hstep, rfl⟩⟩
  | run m outcome =>
    obtain ⟨other, hm, hs⟩ := Option.bind_eq_some_iff.mp hs
    obtain ⟨⟨next, c⟩, hstep, rfl⟩ := Option.map_eq_some_iff.mp hs
    rw [call_loaded, setSession_loaded, Label.runs]
    by_cases heq : m = n
    · subst heq
      obtain rfl := Option.some.inj (hn.symm.trans hm)
      have hmoves := Session.moves_of_step hstep
      obtain ⟨hflag, hpc, hlt⟩ := hmoves.remaining_lt hstop hentered
      refine ⟨next, Function.update_self .., hflag, hmoves.entered_of hentered, ?_, fun hstep => absurd hstep hpc⟩
      rw [beq_self_eq_true, if_pos rfl]
      exact hlt
    · rw [Function.update_of_ne (Ne.symm heq), beq_false_of_ne heq]
      exact ⟨session, hn, hstop, hentered, le_rfl, fun hpc => ⟨hpc, rfl⟩⟩

theorem stopping_run {ls : List Label} (h : s.Inv) (hn : s.loaded n = some session)
    (hstop : session.stopRequested = true) (hentered : session.pc.entered)
    (hrun : host.runAllowed Orderly s ls = some s') :
    s'.Inv ∧ ∃ next, s'.loaded n = some next ∧ next.pc.entered ∧
      next.remaining + ls.countP (Label.runs n) ≤ session.remaining ∧
      (next.pc = .step → session.pc = .step ∧ ls.countP (Label.runs n) = 0) := by
  induction ls generalizing s session with
  | nil =>
    obtain rfl := Option.some.inj hrun
    exact ⟨h, session, hn, hentered, le_rfl, fun hpc => ⟨hpc, rfl⟩⟩
  | cons l ls ih =>
    rw [Machine.runAllowed] at hrun
    by_cases hl : s.Orderly l
    · rw [if_pos hl] at hrun
      cases hs : host.step s l with
      | none =>
        rw [hs] at hrun
        cases hrun
      | some s₁ =>
        rw [hs] at hrun
        obtain ⟨first, hfirst, hflag, hin, hleft, hpc⟩ := stopping_step h hn hstop hentered hs
        obtain ⟨hinv, next, hnext, hnextIn, hrest, hstep⟩ := ih (h.step hl hs) hfirst hflag hin hrun
        refine ⟨hinv, next, hnext, hnextIn, ?_, fun hat => ?_⟩
        · rw [List.countP_cons]
          omega
        · obtain ⟨hfirstPc, hcount⟩ := hstep hat
          obtain ⟨hsessionPc, hruns⟩ := hpc hfirstPc
          exact ⟨hsessionPc, by rw [List.countP_cons, hcount, hruns]; rfl⟩
    · rw [if_neg hl] at hrun
      cases hrun

theorem step_of_active (outcome : Outcome) (h : session.pc.active) : (session.step outcome).isSome := by
  unfold Session.step
  split <;> rename_i hpc <;> try rfl
  · rw [hpc] at h
    exact absurd h Bool.false_ne_true
  · rw [hpc] at h
    exact absurd h Bool.false_ne_true
  · split <;> rfl

/-- **`stop` returns**: a session that was told to stop inside `runForever` begins no further `step` and takes no more
steps than it has left, whatever the other fibers do meanwhile; it is never held up; and when it has returned, so
can the `stop` that waits for it. -/
theorem stop_is_bounded (h : host.Reaches Orderly Host.start s) (hn : s.loaded n = some session)
    (hstop : session.stopRequested = true) (hentered : session.pc.entered) {ls : List Label}
    (hrun : host.runAllowed Orderly s ls = some s') :
    ls.countP (Label.runs n) ≤ session.remaining ∧ ∃ next, s'.loaded n = some next ∧
      (next.pc = .step → ls.countP (Label.runs n) = 0) ∧
      (next.pc ≠ .returned → ∀ outcome, (host.step s' (.run n outcome)).isSome) ∧
      (next.pc = .returned → ∀ d r, s'.requests d = some r → r.pc = .wait n →
        ((host.step s' (.advance d .ok)).bind (·.requests d)).map Request.pc = some (.close n next.closing)) := by
  obtain ⟨hinv, next, hnext, hin, hleft, hpc⟩ := stopping_run (inv_of_reaches h) hn hstop hentered hrun
  have hflag : next.runForeverActive = next.pc.active :=
    (hinv.routed _ (hinv.slashSession n next hnext)).flag n next hnext rfl
  refine ⟨by omega, next, hnext, fun hstep => (hpc hstep).2, fun hlive outcome => ?_, fun hreturned d r hd hr => ?_⟩
  · have hactive : next.pc.active := by simpa [SessionPc.entered, hlive] using hin
    obtain ⟨⟨after, c⟩, hafter⟩ := Option.isSome_iff_exists.mp (step_of_active outcome hactive)
    simp only [host, hnext, Option.bind_some, hafter, Option.map_some, Option.isSome_some]
  · rw [hreturned] at hflag
    have hadvance : s'.advance d r .ok = some (s'.goto d r (.close n next.closing)) := by
      unfold Host.advance
      rw [hr]
      simp only [hnext, Option.map_some, hflag, SessionPc.active, Bool.false_eq_true, if_false]
    simp only [host, hd, Option.bind_some, hadvance, Host.goto, Function.update_self, Option.map_some]

/-- The first session of the example, told to stop in its loop, has no more than six steps left. -/
theorem stop_is_bounded_handover :
    ∃ s session, host.runAllowed Orderly Host.start (exampleFirst ++ exampleSecond.take 2) = some s ∧
      s.loaded 0 = some session ∧ session.remaining = 6 ∧
      ∀ ls s', host.runAllowed Orderly s ls = some s' → ls.countP (Label.runs 0) ≤ session.remaining := by
  have hsome : (host.runAllowed Orderly Host.start (exampleFirst ++ exampleSecond.take 2)).isSome := by decide +kernel
  obtain ⟨s, hs⟩ := Option.isSome_iff_exists.mp hsome
  have hfields : ((host.runAllowed Orderly Host.start (exampleFirst ++ exampleSecond.take 2)).bind (·.loaded 0)).map
      (fun session => (session.stopRequested, session.pc, session.remaining)) = some (true, .step, 6) := by
    decide +kernel
  rw [hs, Option.bind_some] at hfields
  obtain ⟨session, hn, hsession⟩ := Option.map_eq_some_iff.mp hfields
  obtain ⟨hstop, hrest⟩ := Prod.mk.inj hsession
  obtain ⟨hpc, hleft⟩ := Prod.mk.inj hrest
  exact ⟨s, session, hs, hn, hleft, fun ls s' hrun =>
    (stop_is_bounded (Machine.reaches_of_runAllowed hs) hn hstop (by rw [hpc]; rfl) hrun).1⟩

/-! ## A stop that comes too early -/

/-- No request knows the session any more, and neither does the map. -/
structure Retired (s : Host) (n : ℕ) : Prop where
  old : n < s.nextSession
  sessions : ∀ namespaceId, s.sessions namespaceId ≠ some n
  requests : ∀ d r, s.requests d = some r → r.pc.session ≠ some n

theorem Retired.of_request (h : s.Retired n) {r' : Option Request} (hold : s.nextSession ≤ s'.nextSession)
    (hsessions : ∀ namespaceId, s'.sessions namespaceId = s.sessions namespaceId ∨ s'.sessions namespaceId ≠ some n)
    (hrequests : s'.requests = Function.update s.requests d r')
    (hnew : ∀ r, r' = some r → r.pc.session ≠ some n) : s'.Retired n where
  old := h.old.trans_le hold
  sessions namespaceId := by
    rcases hsessions namespaceId with heq | hne
    · rw [heq]
      exact h.sessions namespaceId
    · exact hne
  requests d' r hd' := by
    rw [hrequests, Function.update_apply] at hd'
    split_ifs at hd'
    · exact hnew r hd'
    · exact h.requests d' r hd'

/-- A request whose session is another one leaves this one alone. -/
theorem Retired.advance (h : s.Retired n) (hd : s.requests d = some r) {outcome : Outcome}
    (hs : s.advance d r outcome = some s') : s'.Retired n ∧ s'.loaded n = s.loaded n := by
  have hother := h.requests d r hd
  have hgoto : ∀ {pc : DeployPc}, pc.session ≠ some n → ∀ r', some { r with pc := pc } = some r' →
      r'.pc.session ≠ some n := by
    intro pc hpc r' heq
    obtain rfl := Option.some.inj heq
    exact hpc
  have hfinish : ∀ r', (none : Option Request) = some r' → r'.pc.session ≠ some n := by simp
  have hmap : ∀ {namespaceId : NamespaceId} {o : Option ℕ}, o ≠ some n → ∀ other,
      Function.update s.sessions namespaceId o other = s.sessions other ∨
        Function.update s.sessions namespaceId o other ≠ some n := by
    intro namespaceId o ho other
    rw [Function.update_apply]
    split_ifs
    · exact Or.inr ho
    · exact Or.inl rfl
  unfold Host.advance at hs
  cases hpc : r.pc with
  | stop old =>
    rw [hpc] at hs hother
    obtain ⟨session, -, rfl⟩ := Option.map_eq_some_iff.mp hs
    exact ⟨h.of_request le_rfl (fun _ => Or.inl rfl) rfl (hgoto hother),
      Function.update_of_ne (fun heq => hother (congrArg some heq.symm)) _ _⟩
  | wait old =>
    rw [hpc] at hs hother
    obtain ⟨session, -, rfl⟩ := Option.map_eq_some_iff.mp hs
    by_cases hactive : session.runForeverActive = true
    · rw [if_pos hactive]
      exact ⟨h, rfl⟩
    · rw [if_neg hactive]
      exact ⟨h.of_request le_rfl (fun _ => Or.inl rfl) rfl (hgoto hother), rfl⟩
  | close old closing =>
    rw [hpc] at hs hother
    obtain ⟨session, -, rfl⟩ := Option.map_eq_some_iff.mp hs
    rcases session.closeStep outcome closing with ⟨next, rest, c⟩
    obtain ⟨-, -, hrequests, hnextSession, -⟩ := call_fields (s.setSession old next) old next.namespaceId c
    have hcall : ∀ {pc : DeployPc}, pc.session ≠ some n →
        (((s.setSession old next).call old next.namespaceId c).goto d r pc).Retired n ∧
          (((s.setSession old next).call old next.namespaceId c).goto d r pc).loaded n = s.loaded n := by
      intro pc hnew
      refine ⟨h.of_request hnextSession.ge (fun other => Or.inl (congrFun call_sessions other))
        (congrArg (Function.update · d _) hrequests) (hgoto hnew), ?_⟩
      rw [goto_loaded, call_loaded]
      exact Function.update_of_ne (fun heq => hother (congrArg some heq.symm)) _ _
    cases rest with
    | none => exact hcall (by simp [DeployPc.session])
    | some rest => exact hcall hother
  | retire =>
    rw [hpc] at hs
    obtain rfl := Option.some.inj hs
    by_cases hok : outcome = .ok
    · rw [if_pos hok]
      exact ⟨h.of_request le_rfl (fun _ => Or.inl rfl) rfl (hgoto (by simp [DeployPc.session])), rfl⟩
    · rw [if_neg hok]
      exact ⟨h.of_request le_rfl (fun _ => Or.inl rfl) rfl hfinish, rfl⟩
  | load =>
    rw [hpc] at hs
    obtain rfl := Option.some.inj hs
    by_cases hok : outcome = .ok
    · rw [if_pos hok]
      have hne : s.nextSession ≠ n := Nat.ne_of_gt h.old
      exact ⟨h.of_request (Nat.le_succ _) (fun _ => Or.inl rfl) rfl (hgoto (by simpa [DeployPc.session] using hne)),
        Function.update_of_ne (Ne.symm hne) _ _⟩
    · rw [if_neg hok]
      exact ⟨h.of_request le_rfl (fun _ => Or.inl rfl) rfl hfinish, rfl⟩
  | put new =>
    rw [hpc] at hs hother
    obtain ⟨session, -, rfl⟩ := Option.map_eq_some_iff.mp hs
    by_cases hok : outcome = .ok
    · rw [if_pos hok]
      exact ⟨h.of_request le_rfl (hmap hother) rfl (hgoto hother), rfl⟩
    · rw [if_neg hok]
      exact ⟨h.of_request le_rfl (fun _ => Or.inl rfl) rfl hfinish,
        Function.update_of_ne (fun heq => hother (congrArg some heq.symm)) _ _⟩
  | spawn new =>
    rw [hpc] at hs hother
    obtain ⟨session, -, rfl⟩ := Option.map_eq_some_iff.mp hs
    by_cases hok : outcome = .ok
    · rw [if_pos hok]
      exact ⟨h.of_request le_rfl (fun _ => Or.inl rfl) rfl hfinish,
        Function.update_of_ne (fun heq => hother (congrArg some heq.symm)) _ _⟩
    · rw [if_neg hok]
      exact ⟨h.of_request le_rfl (hmap (by simp)) rfl hfinish,
        Function.update_of_ne (fun heq => hother (congrArg some heq.symm)) _ _⟩

/-- A step leaves a retired session that goes round its loop there. -/
theorem Retired.step (h : s.Retired n) (hn : s.loaded n = some session) (hloops : session.Loops) {l : Label}
    (hok : ∀ outcome, l = .run n outcome → outcome = .ok) (hs : host.step s l = some s') :
    s'.Retired n ∧ ∃ next, s'.loaded n = some next ∧ next.Loops := by
  cases l with
  | deploy namespaceId configs =>
    obtain rfl := Option.some.inj hs
    refine ⟨h.of_request le_rfl (fun other => ?_) rfl (fun r hr => ?_), session, hn, hloops⟩
    · simp only [Host.deploy, Function.update_apply]
      split_ifs
      · exact Or.inr (by simp)
      · exact Or.inl rfl
    · obtain rfl := Option.some.inj hr
      cases hold : s.sessions namespaceId with
      | none => simp [DeployPc.session]
      | some old => exact fun heq => h.sessions namespaceId (hold.trans heq)
  | advance d outcome =>
    obtain ⟨r, hd, hs⟩ := Option.bind_eq_some_iff.mp hs
    obtain ⟨hretired, hloaded⟩ := h.advance hd hs
    exact ⟨hretired, session, hloaded.trans hn, hloops⟩
  | run m outcome =>
    obtain ⟨other, hm, hs⟩ := Option.bind_eq_some_iff.mp hs
    obtain ⟨⟨next, c⟩, hstep, rfl⟩ := Option.map_eq_some_iff.mp hs
    obtain ⟨-, hmap, hrequests, hnextSession, -⟩ := call_fields (s.setSession m next) m other.namespaceId c
    refine ⟨⟨hnextSession ▸ h.old, hmap ▸ h.sessions, hrequests ▸ h.requests⟩, ?_⟩
    rw [call_loaded, setSession_loaded]
    by_cases heq : m = n
    · subst heq
      obtain rfl := Option.some.inj (hn.symm.trans hm)
      obtain rfl := hok outcome rfl
      exact ⟨next, Function.update_self .., (Session.moves_of_step hstep).loops hloops⟩
    · exact ⟨session, (Function.update_of_ne (Ne.symm heq) _ _).trans hn, hloops⟩

/-- **A stop that comes before `runForever` is lost**: once the host has retired a session that was spawned and had not
begun, the session enters its loop all the same and stays in it for as long as its own steps go well, whatever the
host does. -/
theorem early_stop_is_lost (h : s.Retired n) (hn : s.loaded n = some session) (hpc : session.pc = .spawned)
    {ls : List Label} (hok : ∀ outcome, Label.run n outcome ∈ ls → outcome = .ok)
    (hrun : ls.foldlM host.step s = some s') :
    s'.Retired n ∧ ∃ next, s'.loaded n = some next ∧ next.Loops ∧
      ∀ outcome, (host.step s' (.run n outcome)).isSome := by
  have hend : s'.Retired n ∧ ∃ next, s'.loaded n = some next ∧ next.Loops := by
    have hloops : session.Loops := ⟨by rw [hpc]; rfl, Or.inl hpc⟩
    clear hpc
    induction ls generalizing s session with
    | nil =>
      obtain rfl := Option.some.inj hrun
      exact ⟨h, session, hn, hloops⟩
    | cons l ls ih =>
      rw [List.foldlM_cons] at hrun
      obtain ⟨s₁, hs, hrest⟩ := Option.bind_eq_some_iff.mp hrun
      obtain ⟨hretired, next, hnext, hnextLoops⟩ :=
        h.step hn hloops (fun outcome heq => hok outcome (heq ▸ List.mem_cons_self)) hs
      exact ih hretired hnext (fun outcome hmem => hok outcome (List.mem_cons_of_mem _ hmem)) hrest hnextLoops
  obtain ⟨hretired, next, hnext, hloops⟩ := hend
  refine ⟨hretired, next, hnext, hloops, fun outcome => ?_⟩
  obtain ⟨after, hafter⟩ := Option.isSome_iff_exists.mp (hloops.step outcome)
  simp only [host, hnext, Option.bind_some, hafter, Option.map_some, Option.isSome_some]

/-- The second deployment stops the first session before it has begun, and starts its own. -/
def exampleOvertaken : List Label :=
  [.deploy [110] exampleConfigs, .advance 0 .ok, .advance 0 .ok, .advance 0 .ok, .deploy [110] exampleConfigs,
    .advance 1 .ok, .advance 1 .ok, .advance 1 .ok, .advance 1 .ok, .advance 1 .ok, .advance 1 .ok, .advance 1 .ok,
    .advance 1 .ok]

/-- Two sessions of one namespace are in their loops. -/
def exampleBoth : List Label :=
  [.run 0 .ok, .run 0 .ok, .run 0 .ok, .run 0 .ok, .run 0 .ok, .run 1 .ok, .run 1 .ok, .run 1 .ok, .run 1 .ok,
    .run 1 .ok]

theorem early_stop_is_lost_overtaken :
    ∃ s s', exampleOvertaken.foldlM host.step Host.start = some s ∧ exampleBoth.foldlM host.step s = some s' ∧
      s.Retired 0 ∧ (∃ next, s'.loaded 0 = some next ∧ next.Loops) ∧
      (s'.loaded 0).map (fun session => (session.namespaceId, session.pc)) = some ([110], .step) ∧
      (s'.loaded 1).map (fun session => (session.namespaceId, session.pc)) = some ([110], .step) := by
  have hsome : ((exampleOvertaken.foldlM host.step Host.start).bind (exampleBoth.foldlM host.step ·)).isSome := by
    decide +kernel
  obtain ⟨s', hboth⟩ := Option.isSome_iff_exists.mp hsome
  have hfields : (((exampleOvertaken.foldlM host.step Host.start).bind (exampleBoth.foldlM host.step ·)).map fun s =>
      ((s.loaded 0).map (fun session => (session.namespaceId, session.pc)),
        (s.loaded 1).map (fun session => (session.namespaceId, session.pc)))) =
      some (some ([110], .step), some ([110], .step)) := by
    decide +kernel
  rw [hboth] at hfields
  obtain ⟨h0, h1⟩ := Prod.mk.inj (Option.some.inj hfields)
  obtain ⟨s, hs, hrun⟩ := Option.bind_eq_some_iff.mp hboth
  have hmap : (exampleOvertaken.foldlM host.step Host.start).map (fun s => (s.sessions, s.nextSession)) =
      some (Function.update (Function.update (Function.update (Function.update (fun _ => none) [110] none) [110]
        (some 0)) [110] none) [110] (some 1), 2) := rfl
  have hrequests : ∀ d, (exampleOvertaken.foldlM host.step Host.start).bind (·.requests d) = none := by
    intro d
    match d with
    | 0 => rfl
    | 1 => rfl
    | d + 2 => rfl
  have hspawned : ((exampleOvertaken.foldlM host.step Host.start).bind (·.loaded 0)).map Session.pc =
      some .spawned := by
    decide +kernel
  rw [hs] at hmap hspawned
  obtain ⟨hsessions, hnext⟩ := Prod.mk.inj (Option.some.inj hmap)
  have hretired : s.Retired 0 := by
    refine ⟨by rw [hnext]; decide, fun namespaceId => ?_, fun d r hd => ?_⟩
    · rw [hsessions]
      simp only [Function.update_apply]
      split_ifs <;> simp
    · have hnone := hrequests d
      rw [hs, Option.bind_some, hd] at hnone
      cases hnone
  obtain ⟨session, hn, hpc⟩ := Option.map_eq_some_iff.mp hspawned
  obtain ⟨-, next, hnextLoaded, hloops, -⟩ := early_stop_is_lost hretired hn hpc (fun outcome hmem => by
    simpa [exampleBoth] using hmem) hrun
  exact ⟨s, s', hs, hrun, hretired, ⟨next, hnextLoaded, hloops⟩, h0, h1⟩

end Host

end Lifecycle

end Slung
