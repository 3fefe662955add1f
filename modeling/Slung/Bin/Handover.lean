import Slung.Bin.Redeployment

/-!
# Slung.Bin.Handover — one session of a namespace at a time (`bin/supervisor.zig`)

In an orderly run, either no request for a namespace is under way and the map says which session is left, or the one
request that is under way says it (`Holder`).  The routes of the namespace lead to that session and to no other.
-/

namespace Slung

open Slung.Lib

namespace Lifecycle

namespace Host

variable {s s' s'' : Host} {n d : ℕ} {session next : Session} {r : Request} {c : RouteCall} {kind : GatewayKind}
  {routePath key : Bytes} {namespaceId other : NamespaceId}

/-! ## What holds of one namespace -/

/-- Only session `o` of the namespace may have anything left to do, or a route. -/
structure Holder (s : Host) (namespaceId : NamespaceId) (o : Option ℕ) : Prop where
  live : ∀ n session, s.loaded n = some session → session.namespaceId = namespaceId → session.pc ≠ .returned →
    o = some n
  held : ∀ n, o = some n → ∃ session, s.loaded n = some session ∧ session.namespaceId = namespaceId
  route : ∀ kind routePath n, (s.routes kind).lookup (routeKey namespaceId routePath) = some n → o = some n

/-- What a request for a namespace finds there. -/
def Fits (s : Host) (namespaceId : NamespaceId) (configs : List (Bytes × SourceConfig)) : DeployPc → Prop
  | .stop old => s.Holder namespaceId (some old) ∧ s.sessions namespaceId = none
  | .wait old => s.Holder namespaceId (some old) ∧ s.sessions namespaceId = none ∧
    ∃ session, s.loaded old = some session ∧ session.namespaceId = namespaceId ∧ session.pc.entered
  | .close old closing => s.Holder namespaceId (some old) ∧ s.sessions namespaceId = none ∧
    ∃ session, s.loaded old = some session ∧ session.namespaceId = namespaceId ∧ session.pc = .returned ∧
      session.Closes closing ∧ ∀ kind routePath, (s.routes kind).lookup (routeKey namespaceId routePath) = some old →
        session.Recorded kind routePath (some closing)
  | .retire | .load => s.Holder namespaceId none ∧ s.sessions namespaceId = none
  | .put new => s.Holder namespaceId (some new) ∧ s.sessions namespaceId = none ∧
    s.loaded new = some (Session.init namespaceId configs)
  | .spawn new => s.Holder namespaceId (some new) ∧ s.sessions namespaceId = some new ∧
    s.loaded new = some (Session.init namespaceId configs)

/-- The flags, what is recorded and the routes of a namespace agree. -/
structure Routed (s : Host) (namespaceId : NamespaceId) : Prop where
  flag : ∀ n session, s.loaded n = some session → session.namespaceId = namespaceId →
    session.runForeverActive = session.pc.active
  served : ∀ n session, s.loaded n = some session → session.namespaceId = namespaceId → session.pc.serving →
    ∀ kind routePath, routePath ∈ session.sources kind →
      (s.routes kind).lookup (routeKey namespaceId routePath) = some n
  kept : ∀ kind routePath n, (s.routes kind).lookup (routeKey namespaceId routePath) = some n →
    ∃ session, s.loaded n = some session ∧ session.namespaceId = namespaceId ∧ session.Keeps kind routePath

/-- There is at most one request, and it or the map of the sessions says who is left. -/
structure Phased (s : Host) (namespaceId : NamespaceId) : Prop where
  one : ∀ d d' r r', s.requests d = some r → s.requests d' = some r' → r.namespaceId = namespaceId →
    r'.namespaceId = namespaceId → d = d'
  resting : (∀ d r, s.requests d = some r → r.namespaceId ≠ namespaceId) → s.Holder namespaceId (s.sessions namespaceId)
  busy : ∀ d r, s.requests d = some r → r.namespaceId = namespaceId → s.Fits namespaceId r.configs r.pc

/-- Everything is well; namespaces that are in use have no `/`. -/
structure Inv (s : Host) : Prop where
  fresh : ∀ n, s.nextSession ≤ n → s.loaded n = none
  freshRequest : ∀ d, s.nextRequest ≤ d → s.requests d = none
  slashSession : ∀ n session, s.loaded n = some session → 47 ∉ session.namespaceId
  slashRequest : ∀ d r, s.requests d = some r → 47 ∉ r.namespaceId
  routed : ∀ namespaceId, 47 ∉ namespaceId → s.Routed namespaceId
  phased : ∀ namespaceId, 47 ∉ namespaceId → s.Phased namespaceId

theorem Holder.same {o : Option ℕ} (h : s.Holder namespaceId o) (hsame : Same namespaceId s s') :
    s'.Holder namespaceId o where
  live n session hn hns := h.live n session ((hsame.loaded n session hns).mp hn) hns
  held n hn := by
    obtain ⟨session, hsession, hns⟩ := h.held n hn
    exact ⟨session, (hsame.loaded n session hns).mpr hsession, hns⟩
  route kind routePath n hlookup := h.route kind routePath n ((hsame.routes kind routePath).symm.trans hlookup)

theorem Fits.same {configs : List (Bytes × SourceConfig)} {pc : DeployPc} (h : s.Fits namespaceId configs pc)
    (hsame : Same namespaceId s s') : s'.Fits namespaceId configs pc := by
  have hmap := hsame.sessions
  cases pc with
  | stop old => exact ⟨h.1.same hsame, hmap.trans h.2⟩
  | wait old =>
    obtain ⟨hholder, hnone, session, hsession, hns, hentered⟩ := h
    exact ⟨hholder.same hsame, hmap.trans hnone, session, (hsame.loaded old session hns).mpr hsession, hns, hentered⟩
  | close old closing =>
    obtain ⟨hholder, hnone, session, hsession, hns, hpc, hcloses, hrecorded⟩ := h
    exact ⟨hholder.same hsame, hmap.trans hnone, session, (hsame.loaded old session hns).mpr hsession, hns, hpc,
      hcloses,
      fun kind routePath hlookup => hrecorded kind routePath ((hsame.routes kind routePath).symm.trans hlookup)⟩
  | retire | load => exact ⟨h.1.same hsame, hmap.trans h.2⟩
  | put new | spawn new =>
    exact ⟨h.1.same hsame, hmap.trans h.2.1, (hsame.loaded new _ rfl).mpr h.2.2⟩

theorem Routed.same (h : s.Routed namespaceId) (hsame : Same namespaceId s s') : s'.Routed namespaceId where
  flag n session hn hns := h.flag n session ((hsame.loaded n session hns).mp hn) hns
  served n session hn hns hserving kind routePath hmem :=
    (hsame.routes kind routePath).trans
      (h.served n session ((hsame.loaded n session hns).mp hn) hns hserving kind routePath hmem)
  kept kind routePath n hlookup := by
    obtain ⟨session, hsession, hns, hkeeps⟩ :=
      h.kept kind routePath n ((hsame.routes kind routePath).symm.trans hlookup)
    exact ⟨session, (hsame.loaded n session hns).mpr hsession, hns, hkeeps⟩

theorem Phased.same (h : s.Phased namespaceId) (hsame : Same namespaceId s s') : s'.Phased namespaceId where
  one d d' r r' hd hd' hns hns' :=
    h.one d d' r r' ((hsame.requests d r hns).mp hd) ((hsame.requests d' r' hns').mp hd') hns hns'
  resting hnone := by
    have hbefore := h.resting fun d r hd hns => hnone d r ((hsame.requests d r hns).mpr hd) hns
    rw [← hsame.sessions] at hbefore
    exact hbefore.same hsame
  busy d r hd hns := (h.busy d r ((hsame.requests d r hns).mp hd) hns).same hsame

/-- The request of a namespace goes on. -/
theorem Phased.goto (h : s.Phased namespaceId) (hd : s.requests d = some r) (hns : r.namespaceId = namespaceId)
    {pc : DeployPc} (hrequests : s'.requests = Function.update s.requests d (some { r with pc := pc }))
    (hfits : s'.Fits namespaceId r.configs pc) : s'.Phased namespaceId := by
  have honly : ∀ d' r', s'.requests d' = some r' → r'.namespaceId = namespaceId → d' = d := by
    intro d' r' hd' hns'
    by_contra hne
    rw [hrequests, Function.update_of_ne hne] at hd'
    exact hne (h.one d' d r' r hd' hd hns' hns)
  have hself : s'.requests d = some { r with pc := pc } := by rw [hrequests, Function.update_self]
  refine ⟨fun d₁ d₂ r₁ r₂ h₁ h₂ hns₁ hns₂ => (honly d₁ r₁ h₁ hns₁).trans (honly d₂ r₂ h₂ hns₂).symm, ?_, ?_⟩
  · exact fun hnone => absurd hns (hnone d { r with pc := pc } hself)
  · intro d' r' hd' hns'
    obtain rfl := honly d' r' hd' hns'
    obtain rfl := Option.some.inj (hself.symm.trans hd')
    exact hfits

/-- The request of a namespace returns. -/
theorem Phased.finish (h : s.Phased namespaceId) (hd : s.requests d = some r) (hns : r.namespaceId = namespaceId)
    (hrequests : s'.requests = Function.update s.requests d none) {o : Option ℕ} (hmap : s'.sessions namespaceId = o)
    (hholder : s'.Holder namespaceId o) : s'.Phased namespaceId := by
  have hnone : ∀ d' r', s'.requests d' = some r' → r'.namespaceId ≠ namespaceId := by
    intro d' r' hd' hns'
    rw [hrequests, Function.update_apply] at hd'
    split_ifs at hd' with hne
    exact hne (h.one d' d r' r hd' hd hns' hns)
  exact ⟨fun d₁ d₂ r₁ r₂ h₁ _ hns₁ _ => absurd hns₁ (hnone d₁ r₁ h₁), fun _ => hmap ▸ hholder,
    fun d' r' hd' hns' => absurd hns' (hnone d' r' hd')⟩

theorem Fits.holder {configs : List (Bytes × SourceConfig)} {pc : DeployPc} (h : s.Fits namespaceId configs pc) :
    ∃ o, s.Holder namespaceId o := by
  cases pc <;> exact ⟨_, h.1⟩

theorem Phased.holder (h : s.Phased namespaceId) : ∃ o, s.Holder namespaceId o := by
  by_cases hbusy : ∃ d r, s.requests d = some r ∧ r.namespaceId = namespaceId
  · obtain ⟨d, r, hd, hns⟩ := hbusy
    exact (h.busy d r hd hns).holder
  · exact ⟨_, h.resting fun d r hd hns => hbusy ⟨d, r, hd, hns⟩⟩

/-- Whoever has not returned is the only one. -/
theorem Holder.sole {o : Option ℕ} (h : s.Holder namespaceId o) (ho : o = some n) {m : ℕ} {session : Session}
    (hm : s.loaded m = some session) (hns : session.namespaceId = namespaceId) (hpc : session.pc ≠ .returned) : m = n :=
  (Option.some.inj (ho.symm.trans (h.live m session hm hns hpc))).symm

/-! ### A session takes a step -/

theorem Holder.act {o : Option ℕ} (h : s.Holder namespaceId o) (hnext : next.namespaceId = namespaceId)
    (ho : o = some n) :
    ((s.setSession n next).call n namespaceId c).Holder namespaceId o where
  live m session hm hns hpc := by
    rw [call_loaded, setSession_loaded, Function.update_apply] at hm
    split_ifs at hm with heq
    · rw [heq, ho]
    · exact h.live m session hm hns hpc
  held m hm := by
    rw [call_loaded, setSession_loaded]
    obtain rfl : n = m := Option.some.inj (ho.symm.trans hm)
    exact ⟨next, Function.update_self .., hnext⟩
  route kind routePath m hlookup := by
    rw [lookup_call] at hlookup
    split_ifs at hlookup
    · rw [ho, hlookup]
    · exact h.route kind routePath m hlookup

section

variable (hn : s.loaded n = some session) (hns : session.namespaceId = namespaceId)
  (hnext : next.namespaceId = namespaceId)
include hn hns hnext

theorem Routed.act (h : s.Routed namespaceId)
    (hflag : session.runForeverActive = session.pc.active → next.runForeverActive = next.pc.active)
    (hserving : next.pc.serving → session.pc.serving ∧ ∀ kind routePath, c ≠ .close kind routePath ∧
      (routePath ∈ next.sources kind → routePath ∈ session.sources kind ∨ c = .listen kind routePath))
    (hkeeps : ∀ kind routePath, c = .listen kind routePath ∨
        (s.routes kind).lookup (routeKey namespaceId routePath) = some n ∧ session.Keeps kind routePath →
      c = .close kind routePath ∨ next.Keeps kind routePath)
    (hsole : ∀ m other, s.loaded m = some other → other.namespaceId = namespaceId → other.pc ≠ .returned → m = n) :
    ((s.setSession n next).call n namespaceId c).Routed namespaceId where
  flag m other hm hother := by
    rw [call_loaded, setSession_loaded, Function.update_apply] at hm
    split_ifs at hm with heq
    · obtain rfl := Option.some.inj hm
      exact hflag (h.flag n session hn hns)
    · exact h.flag m other hm hother
  served m other hm hother hserves kind routePath hmem := by
    rw [call_loaded, setSession_loaded, Function.update_apply] at hm
    split_ifs at hm with heq
    · obtain rfl := Option.some.inj hm
      subst heq
      obtain ⟨hbefore, hcall⟩ := hserving hserves
      obtain ⟨hclose, hrecorded⟩ := hcall kind routePath
      rw [lookup_call, if_neg hclose]
      rcases hrecorded hmem with hold | hlisten
      · rw [setSession_routes, h.served m session hn hns hbefore kind routePath hold]
        split_ifs <;> rfl
      · rw [if_pos hlisten]
    · have hlive : other.pc ≠ .returned := by
        intro hpc
        rw [hpc] at hserves
        exact absurd hserves Bool.false_ne_true
      exact absurd (hsole m other hm hother hlive) heq
  kept kind routePath m hlookup := by
    rw [lookup_call] at hlookup
    rw [call_loaded, setSession_loaded]
    have hself : (c = .listen kind routePath ∨ (s.routes kind).lookup (routeKey namespaceId routePath) = some n ∧
        session.Keeps kind routePath) → c ≠ .close kind routePath →
        ∃ after, Function.update s.loaded n (some next) n = some after ∧ after.namespaceId = namespaceId ∧
          after.Keeps kind routePath :=
      fun hany hclose => ⟨next, Function.update_self .., hnext, (hkeeps kind routePath hany).resolve_left hclose⟩
    split_ifs at hlookup with hlisten hclose
    · obtain rfl := Option.some.inj hlookup
      exact hself (Or.inl hlisten) (by rw [hlisten]; simp)
    · obtain ⟨other, hm, hother, hold⟩ := h.kept kind routePath m hlookup
      by_cases heq : m = n
      · subst heq
        obtain rfl := Option.some.inj (hn.symm.trans hm)
        exact hself (Or.inr ⟨hlookup, hold⟩) hclose
      · exact ⟨other, (Function.update_of_ne heq _ _).trans hm, hother, hold⟩

/-- A session that runs is the one that is left, whatever the request for its namespace is doing. -/
theorem Phased.act (h : s.Phased namespaceId) (hlive : session.pc ≠ .returned ∧ session.pc ≠ .loaded)
    (hentered : session.pc.entered → next.pc.entered) :
    ((s.setSession n next).call n namespaceId c).Phased namespaceId where
  one d d' r r' hd hd' := by
    rw [call_requests] at hd hd'
    exact h.one d d' r r' hd hd'
  resting hnone := by
    rw [call_requests] at hnone
    rw [call_sessions]
    have hholder := h.resting hnone
    exact hholder.act hnext (hholder.live n session hn hns hlive.1)
  busy d r hd hr := by
    rw [call_requests] at hd
    have hfits := h.busy d r hd hr
    have holder : ∀ {o : Option ℕ}, s.Holder namespaceId o →
        o = some n ∧ ((s.setSession n next).call n namespaceId c).Holder namespaceId o := fun hholder =>
      have ho := hholder.live n session hn hns hlive.1
      ⟨ho, hholder.act hnext ho⟩
    cases hpc : r.pc with
    | stop old =>
      rw [hpc] at hfits
      exact ⟨(holder hfits.1).2, call_sessions.symm ▸ hfits.2⟩
    | wait old =>
      rw [hpc] at hfits
      obtain ⟨hholder, hmap, old, hold, -, holdEntered⟩ := hfits
      obtain ⟨ho, hact⟩ := holder hholder
      obtain rfl := Option.some.inj ho
      obtain rfl := Option.some.inj (hn.symm.trans hold)
      refine ⟨hact, call_sessions.symm ▸ hmap, next, ?_, hnext, hentered holdEntered⟩
      rw [call_loaded]
      exact Function.update_self ..
    | close old closing =>
      rw [hpc] at hfits
      obtain ⟨hholder, -, old, hold, -, hreturned, -⟩ := hfits
      obtain rfl := Option.some.inj (holder hholder).1
      obtain rfl := Option.some.inj (hn.symm.trans hold)
      exact absurd hreturned hlive.1
    | retire | load =>
      rw [hpc] at hfits
      exact absurd (holder hfits.1).1.symm (Option.some_ne_none n)
    | put new | spawn new =>
      rw [hpc] at hfits
      obtain ⟨hholder, -, hnew⟩ := hfits
      obtain rfl := Option.some.inj (holder hholder).1
      obtain rfl := Option.some.inj (hn.symm.trans hnew)
      exact absurd rfl hlive.2

end

/-! ### The steps of a host -/

theorem Routed.congr (h : s.Routed namespaceId) (hloaded : s'.loaded = s.loaded) (hroutes : s'.routes = s.routes) :
    s'.Routed namespaceId where
  flag := by rw [hloaded]; exact h.flag
  served := by rw [hloaded, hroutes]; exact h.served
  kept := by rw [hloaded, hroutes]; exact h.kept

theorem Holder.congr {o : Option ℕ} (h : s.Holder namespaceId o) (hloaded : s'.loaded = s.loaded)
    (hroutes : s'.routes = s.routes) : s'.Holder namespaceId o where
  live := by rw [hloaded]; exact h.live
  held := by rw [hloaded]; exact h.held
  route := by rw [hroutes]; exact h.route

/-- A session that has returned and has nothing recorded is not there any more. -/
theorem Holder.vacate (h : s.Holder namespaceId (some n)) (hrouted : s.Routed namespaceId)
    (hn : s.loaded n = some session) (hpc : session.pc = .returned) (hsources : ∀ kind, session.sources kind = []) :
    s.Holder namespaceId none where
  live m other hm hother hlive := by
    obtain rfl := h.sole rfl hm hother hlive
    obtain rfl := Option.some.inj (hn.symm.trans hm)
    exact absurd hpc hlive
  held := by simp
  route kind routePath m hlookup := by
    obtain ⟨other, hm, -, hkeeps⟩ := hrouted.kept kind routePath m hlookup
    obtain rfl := Option.some.inj (h.route kind routePath m hlookup)
    obtain rfl := Option.some.inj (hn.symm.trans hm)
    simp [Session.Keeps, Session.Recorded, SessionPc.closing, hpc, hsources] at hkeeps

namespace Inv

theorem start : Inv start where
  fresh _ _ := rfl
  freshRequest _ _ := rfl
  slashSession := by simp [Host.start]
  slashRequest := by simp [Host.start]
  routed _ _ := ⟨by simp [Host.start], by simp [Host.start], by simp [Host.start]⟩
  phased _ _ := ⟨by simp [Host.start], fun _ => ⟨by simp [Host.start], by simp [Host.start], by simp [Host.start]⟩,
    by simp [Host.start]⟩

/-- A step that is about one namespace. -/
theorem of_local (h : s.Inv) (hslash : 47 ∉ namespaceId)
    (hsame : ∀ other, namespaceId ≠ other → 47 ∉ other → Same other s s')
    (hloaded : ∀ n session, s'.loaded n = some session → session.namespaceId = namespaceId ∨ s.loaded n = some session)
    (hrequests : ∀ d r, s'.requests d = some r → r.namespaceId = namespaceId ∨ s.requests d = some r)
    (hfresh : ∀ n, s'.nextSession ≤ n → s'.loaded n = none)
    (hfreshRequest : ∀ d, s'.nextRequest ≤ d → s'.requests d = none)
    (hrouted : s'.Routed namespaceId) (hphased : s'.Phased namespaceId) : s'.Inv where
  fresh := hfresh
  freshRequest := hfreshRequest
  slashSession n session hn := by
    rcases hloaded n session hn with rfl | hold
    · exact hslash
    · exact h.slashSession n session hold
  slashRequest d r hd := by
    rcases hrequests d r hd with rfl | hold
    · exact hslash
    · exact h.slashRequest d r hold
  routed other hother := by
    by_cases hns : namespaceId = other
    · exact hns ▸ hrouted
    · exact (h.routed other hother).same (hsame other hns hother)
  phased other hother := by
    by_cases hns : namespaceId = other
    · exact hns ▸ hphased
    · exact (h.phased other hother).same (hsame other hns hother)

/-- A request begins, when there is no other one for its namespace. -/
theorem deploy (h : s.Inv) {configs : List (Bytes × SourceConfig)} (hslash : 47 ∉ namespaceId)
    (hnone : ∀ d r, s.requests d = some r → r.namespaceId ≠ namespaceId) : (s.deploy namespaceId configs).Inv := by
  have hholder := (h.phased namespaceId hslash).resting hnone
  have hnew : ∀ d r, (s.deploy namespaceId configs).requests d = some r →
      (d = s.nextRequest ∧ r.namespaceId = namespaceId ∧ (∀ old, s.sessions namespaceId = some old → r.pc = .stop old) ∧
        (s.sessions namespaceId = none → r.pc = .load)) ∨ s.requests d = some r := by
    intro d r hd
    simp only [Host.deploy, Function.update_apply] at hd
    split_ifs at hd with hd'
    · obtain rfl := Option.some.inj hd
      exact Or.inl ⟨hd', rfl, fun old hold => by simp only [hold], fun hold => by simp only [hold]⟩
    · exact Or.inr hd
  refine h.of_local hslash (fun other hne hother => ?_) (fun n session hn => Or.inr hn)
    (fun d r hd => (hnew d r hd).imp_left fun hd => hd.2.1) h.fresh (fun d hd => ?_)
    ((h.routed namespaceId hslash).congr rfl rfl) ⟨?_, ?_, ?_⟩
  · refine Same.request rfl (fun r hr => ?_) (fun r hr => ?_) rfl (Function.update_of_ne (Ne.symm hne) _ _) rfl
    · rw [h.freshRequest _ le_rfl] at hr
      cases hr
    · obtain rfl := Option.some.inj hr
      exact hne
  · have hlt : s.nextRequest < d := hd
    exact (Function.update_of_ne (Nat.ne_of_gt hlt) _ _).trans (h.freshRequest d (Nat.le_of_lt hlt))
  · intro d d' r r' hd hd' hns hns'
    rcases hnew d r hd with ⟨rfl, -⟩ | hold
    · rcases hnew d' r' hd' with ⟨rfl, -⟩ | hold'
      · rfl
      · exact absurd hns' (hnone d' r' hold')
    · exact absurd hns (hnone d r hold)
  · intro hall
    exact absurd rfl (hall s.nextRequest _ (Function.update_self ..))
  · intro d r hd hns
    rcases hnew d r hd with ⟨rfl, -, hstop, hload⟩ | hold
    · have hmap : (s.deploy namespaceId configs).sessions namespaceId = none := Function.update_self ..
      cases hold : s.sessions namespaceId with
      | some old =>
        rw [hold] at hholder
        rw [hstop old hold]
        exact ⟨hholder.congr rfl rfl, hmap⟩
      | none =>
        rw [hold] at hholder
        rw [hload hold]
        exact ⟨hholder.congr rfl rfl, hmap⟩
    · exact absurd hns (hnone d r hold)

/-- A session takes a step. -/
theorem run (h : s.Inv) (hn : s.loaded n = some session) {outcome : Outcome} (hm : session.Moves outcome next c)
    (hcloses : session.pc.closes → outcome = .ok) : ((s.setSession n next).call n session.namespaceId c).Inv := by
  have hslash := h.slashSession n session hn
  have hphased := h.phased _ hslash
  have hnext := hm.namespaceId_eq
  have hloaded : ((s.setSession n next).call n session.namespaceId c).loaded = Function.update s.loaded n (some next) :=
    call_loaded
  obtain ⟨-, -, -, hnextSession, hnextRequest⟩ := call_fields (s.setSession n next) n session.namespaceId c
  have hold : ∀ m, s.nextSession ≤ m → m ≠ n := by
    rintro m hm rfl
    rw [h.fresh m hm] at hn
    cases hn
  refine h.of_local hslash (fun other hne hother => ?_) (fun m other hm => ?_) (fun d r hd => ?_) (fun m hm => ?_)
    (fun d hd => ?_) ?_ ?_
  · refine Same.trans (Same.setSession (fun old hold => ?_) (hnext ▸ hne)) (Same.call hne hslash hother)
    obtain rfl := Option.some.inj (hn.symm.trans hold)
    exact hne
  · rw [hloaded, Function.update_apply] at hm
    split_ifs at hm
    · obtain rfl := Option.some.inj hm
      exact Or.inl hnext
    · exact Or.inr hm
  · rw [call_requests] at hd
    exact Or.inr hd
  · rw [hnextSession] at hm
    rw [hloaded, Function.update_of_ne (hold m hm)]
    exact h.fresh m hm
  · rw [hnextRequest] at hd
    rw [call_requests]
    exact h.freshRequest d hd
  · obtain ⟨o, hholder⟩ := hphased.holder
    have ho := hholder.live n session hn rfl hm.live.1
    exact (h.routed _ hslash).act hn rfl hnext hm.active_eq hm.serving_of
      (fun kind routePath hany => hm.keeps_of hcloses (hany.imp_right And.right))
      fun m other hm hother hlive => hholder.sole ho hm hother hlive
  · exact hphased.act hn rfl hnext hm.live hm.entered_of

/-- A request goes on to `s'` behind `s₁`, where a session of its namespace may have changed. -/
theorem of_request (h : s.Inv) (s₁ : Host) {r' : Option Request} (hd : s.requests d = some r)
    (hmid : ∀ other, r.namespaceId ≠ other → 47 ∉ other → Same other s s₁)
    (hmidLoaded : ∀ n session, s₁.loaded n = some session → session.namespaceId = r.namespaceId ∨
      s.loaded n = some session)
    (hmidRequests : s₁.requests = s.requests) (hrouted : s₁.Routed r.namespaceId)
    (hfresh : ∀ n, s'.nextSession ≤ n → s₁.loaded n = none) (hnextRequest : s'.nextRequest = s.nextRequest)
    (hloaded : s'.loaded = s₁.loaded) (hroutes : s'.routes = s₁.routes)
    (hsessions : ∀ other, r.namespaceId ≠ other → s'.sessions other = s₁.sessions other)
    (hrequests : s'.requests = Function.update s.requests d r')
    (hnew : ∀ after, r' = some after → after.namespaceId = r.namespaceId) (hphased : s'.Phased r.namespaceId) :
    s'.Inv := by
  have hrequest : ∀ d' after, s'.requests d' = some after → after.namespaceId = r.namespaceId ∨
      s.requests d' = some after := by
    intro d' after hd'
    rw [hrequests, Function.update_apply] at hd'
    split_ifs at hd'
    · exact Or.inl (hnew after hd')
    · exact Or.inr hd'
  refine h.of_local (h.slashRequest d r hd) (fun other hne hother => (hmid other hne hother).trans ?_)
    (fun n session hn => hmidLoaded n session (hloaded ▸ hn)) hrequest (fun n hn => ?_) (fun d' hd' => ?_)
    (hrouted.congr hloaded hroutes) hphased
  · refine Same.request (hmidRequests ▸ hrequests) (fun before hb => ?_) (fun after ha => ?_) hloaded
      (hsessions other hne) hroutes
    · obtain rfl := Option.some.inj (hd.symm.trans (hmidRequests ▸ hb))
      exact hne
    · rw [hnew after ha]
      exact hne
  · rw [hloaded]
    exact hfresh n hn
  · have hold := h.freshRequest d' (hnextRequest ▸ hd')
    have hne : d' ≠ d := by
      rintro rfl
      rw [hd] at hold
      cases hold
    rw [hrequests, Function.update_of_ne hne]
    exact hold

/-- A request goes on, or returns, and changes no session. -/
theorem of_quiet (h : s.Inv) {r' : Option Request} (hd : s.requests d = some r) (hloaded : s'.loaded = s.loaded)
    (hroutes : s'.routes = s.routes) (hnextSession : s'.nextSession = s.nextSession)
    (hnextRequest : s'.nextRequest = s.nextRequest)
    (hsessions : ∀ other, r.namespaceId ≠ other → s'.sessions other = s.sessions other)
    (hrequests : s'.requests = Function.update s.requests d r')
    (hnew : ∀ after, r' = some after → after.namespaceId = r.namespaceId) (hphased : s'.Phased r.namespaceId) :
    s'.Inv :=
  h.of_request s hd (fun other _ _ => Same.refl other s) (fun _ _ hn => Or.inr hn) rfl
    (h.routed _ (h.slashRequest d r hd)) (fun n hn => h.fresh n (hnextSession ▸ hn)) hnextRequest hloaded hroutes
    hsessions hrequests hnew hphased

/-- A request changes the session that it holds, and goes on or returns. -/
theorem of_act (h : s.Inv) {r' : Option Request} (hd : s.requests d = some r) (hn : s.loaded n = some session)
    (hns : session.namespaceId = r.namespaceId) (hnext : next.namespaceId = r.namespaceId)
    (hrouted : ((s.setSession n next).call n r.namespaceId c).Routed r.namespaceId)
    (hloaded : s'.loaded = Function.update s.loaded n (some next))
    (hroutes : s'.routes = ((s.setSession n next).call n r.namespaceId c).routes)
    (hnextSession : s'.nextSession = s.nextSession) (hnextRequest : s'.nextRequest = s.nextRequest)
    (hsessions : ∀ other, r.namespaceId ≠ other → s'.sessions other = s.sessions other)
    (hrequests : s'.requests = Function.update s.requests d r')
    (hnew : ∀ after, r' = some after → after.namespaceId = r.namespaceId) (hphased : s'.Phased r.namespaceId) :
    s'.Inv := by
  have hslash := h.slashRequest d r hd
  have hmid : ((s.setSession n next).call n r.namespaceId c).loaded = Function.update s.loaded n (some next) :=
    call_loaded
  refine h.of_request ((s.setSession n next).call n r.namespaceId c) hd (fun other hne hother => ?_)
    (fun m other hm => ?_) call_requests hrouted (fun m hm => ?_) hnextRequest (hloaded.trans hmid.symm) hroutes
    (fun other hne => (hsessions other hne).trans ?_) hrequests hnew hphased
  · refine Same.trans (Same.setSession (fun old hold => ?_) (hnext ▸ hne)) (Same.call hne hslash hother)
    obtain rfl := Option.some.inj (hn.symm.trans hold)
    exact hns ▸ hne
  · rw [hmid, Function.update_apply] at hm
    split_ifs at hm
    · obtain rfl := Option.some.inj hm
      exact Or.inl hnext
    · exact Or.inr hm
  · have hold := h.fresh m (hnextSession ▸ hm)
    have hne : m ≠ n := by
      rintro rfl
      rw [hn] at hold
      cases hold
    rw [hmid, Function.update_of_ne hne]
    exact hold
  · rw [call_sessions]
    rfl


/-- `stop` sets the flag of a session that has entered `runForever`. -/
theorem stop (h : s.Inv) {old : ℕ} (hd : s.requests d = some r) (hpc : r.pc = .stop old)
    (hn : s.loaded old = some session) (hentered : session.pc.entered) :
    ((s.setSession old { session with stopRequested := true }).goto d r (.wait old)).Inv := by
  have hslash := h.slashRequest d r hd
  have hphased := h.phased _ hslash
  obtain ⟨hholder, hmap⟩ : s.Holder r.namespaceId (some old) ∧ s.sessions r.namespaceId = none := by
    have hfits := hphased.busy d r hd rfl
    rw [hpc] at hfits
    exact hfits
  obtain ⟨session', hn', hns⟩ := hholder.held old rfl
  obtain rfl := Option.some.inj (hn.symm.trans hn')
  set next : Session := { session with stopRequested := true }
  have hnext : next.namespaceId = r.namespaceId := hns
  have hrouted : ((s.setSession old next).call old r.namespaceId .none).Routed r.namespaceId :=
    (h.routed _ hslash).act hn hns hnext id (fun hserving => ⟨hserving, fun kind routePath => ⟨by simp, Or.inl⟩⟩)
      (fun kind routePath hany => Or.inr (hany.resolve_left (by simp)).2)
      fun m other hm hother hlive => hholder.sole rfl hm hother hlive
  refine h.of_act hd hn hns hnext hrouted rfl rfl rfl rfl (fun _ _ => rfl) rfl (fun after ha => ?_)
    (hphased.goto hd rfl rfl ⟨?_, hmap, next, Function.update_self .., hnext, hentered⟩)
  · obtain rfl := Option.some.inj ha
    rfl
  · exact (hholder.act (c := .none) hnext rfl).congr rfl rfl

/-- `stop` finds that `runForever` has returned. -/
theorem wait (h : s.Inv) {old : ℕ} (hd : s.requests d = some r) (hpc : r.pc = .wait old)
    (hn : s.loaded old = some session) (hactive : session.runForeverActive = false) :
    (s.goto d r (.close old session.closing)).Inv := by
  have hslash := h.slashRequest d r hd
  have hphased := h.phased _ hslash
  have hrouted := h.routed _ hslash
  have hfits := hphased.busy d r hd rfl
  rw [hpc] at hfits
  obtain ⟨hholder, hmap, session', hn', hns, hentered⟩ := hfits
  obtain rfl := Option.some.inj (hn.symm.trans hn')
  have hreturned : session.pc = .returned := by
    have hflag := hrouted.flag old session hn hns
    rw [hactive] at hflag
    simpa [SessionPc.entered, ← hflag] using hentered
  refine h.of_quiet hd rfl rfl rfl rfl (fun _ _ => rfl) rfl (fun after ha => ?_)
    (hphased.goto hd rfl rfl ⟨hholder.congr rfl rfl, hmap, session, hn, hns, hreturned, ⟨fun p hp => hp, ?_⟩, ?_⟩)
  · obtain rfl := Option.some.inj ha
    rfl
  · exact fun hhttp => absurd hhttp (by simp [Session.closing])
  · intro kind routePath hlookup
    obtain ⟨other, hother, -, hkeeps⟩ := hrouted.kept kind routePath old hlookup
    obtain rfl := Option.some.inj (hn.symm.trans hother)
    simp only [Session.Keeps, Session.Recorded, SessionPc.closing, hreturned, reduceCtorEq, false_or] at hkeeps
    cases kind <;> simpa [Session.Recorded, Session.closing] using hkeeps

/-- `stop` closes a route, or has closed them all. -/
theorem close (h : s.Inv) {old : ℕ} {closing : Closing} (hd : s.requests d = some r) (hpc : r.pc = .close old closing)
    (hn : s.loaded old = some session) {rest : Option Closing}
    (hs : session.closeStep .ok closing = (next, rest, c)) :
    (((s.setSession old next).call old session.namespaceId c).goto d r
      (match rest with | some rest => .close old rest | none => .retire)).Inv := by
  have hslash := h.slashRequest d r hd
  have hphased := h.phased _ hslash
  have hfits := hphased.busy d r hd rfl
  rw [hpc] at hfits
  obtain ⟨hholder, hmap, session', hn', hns, hreturned, hcloses, hrecorded⟩ := hfits
  obtain rfl := Option.some.inj (hn.symm.trans hn')
  obtain ⟨⟨hnext, hnextPc, hflag, -⟩, hlisten⟩ := Session.closeStep_spec hs
  have hnextReturned : next.pc = .returned := hnextPc.trans hreturned
  have hafter := Session.closeStep_closes hs hcloses
  have hnext' : next.namespaceId = r.namespaceId := hnext.trans hns
  have hstays : ∀ kind routePath, (s.routes kind).lookup (routeKey r.namespaceId routePath) = some old →
      c = .close kind routePath ∨ next.Recorded kind routePath rest := fun kind routePath hlookup =>
    Session.closeStep_recorded hs (hrecorded kind routePath hlookup)
  have hrouted : ((s.setSession old next).call old r.namespaceId c).Routed r.namespaceId := by
    refine (h.routed _ hslash).act hn hns hnext' (fun hactive => ?_) (fun hserving => ?_)
      (fun kind routePath hany => ?_) fun m other hm hother hlive => hholder.sole rfl hm hother hlive
    · rw [hflag, hactive, hnextPc]
    · rw [hnextReturned] at hserving
      exact absurd hserving Bool.false_ne_true
    · obtain ⟨hlookup, -⟩ := hany.resolve_left (hlisten kind routePath).1
      refine (hstays kind routePath hlookup).imp_right fun hmem => Or.inr ?_
      rw [hnextReturned]
      cases rest with
      | none => exact hmem
      | some rest =>
        simp only [Session.Recorded] at hmem
        split_ifs at hmem with hkind
        · exact hkind ▸ hafter.1 routePath hmem
        · exact hmem
  have hholder' := hholder.act (c := c) hnext' rfl
  have hself : ((s.setSession old next).call old r.namespaceId c).loaded old = some next := by
    rw [call_loaded]
    exact Function.update_self ..
  have hmap' : ((s.setSession old next).call old r.namespaceId c).sessions r.namespaceId = none := by
    rw [call_sessions]
    exact hmap
  have hrequests : ((s.setSession old next).call old r.namespaceId c).requests = s.requests := call_requests
  obtain ⟨-, -, -, hnextSession, hnextRequest⟩ := call_fields (s.setSession old next) old r.namespaceId c
  rw [hns]
  refine h.of_act hd hn hns hnext' hrouted call_loaded rfl hnextSession hnextRequest (fun other _ => ?_)
    (congrArg (Function.update · d _) hrequests) (fun after ha => ?_)
    (hphased.goto hd rfl (congrArg (Function.update · d _) hrequests) ?_)
  · exact congrFun call_sessions other
  · obtain rfl := Option.some.inj ha
    rfl
  · cases rest with
    | none => exact ⟨(hholder'.vacate hrouted hself hnextReturned hafter).congr rfl rfl, hmap'⟩
    | some rest =>
      refine ⟨hholder'.congr rfl rfl, hmap', next, hself, hnext', hnextReturned, hafter,
        fun kind routePath hlookup => ?_⟩
      rw [goto_routes, lookup_call, if_neg (hlisten kind routePath).1] at hlookup
      split_ifs at hlookup with hclose
      exact (hstays kind routePath hlookup).resolve_left hclose

/-- A new session is loaded. -/
theorem load (h : s.Inv) (hd : s.requests d = some r) (hpc : r.pc = .load) :
    (({ (s.setSession s.nextSession (Session.init r.namespaceId r.configs)) with nextSession := s.nextSession + 1 }
      : Host).goto d r (.put s.nextSession)).Inv := by
  have hslash := h.slashRequest d r hd
  have hphased := h.phased _ hslash
  have hrouted := h.routed _ hslash
  have hfits := hphased.busy d r hd rfl
  rw [hpc] at hfits
  obtain ⟨hholder, hmap⟩ := hfits
  have hfree := h.fresh s.nextSession le_rfl
  set new : Session := Session.init r.namespaceId r.configs
  have hloaded : ∀ {m : ℕ} {other : Session}, (s.setSession s.nextSession new).loaded m = some other →
      m = s.nextSession ∧ other = new ∨ m ≠ s.nextSession ∧ s.loaded m = some other := by
    intro m other hm
    rw [setSession_loaded, Function.update_apply] at hm
    split_ifs at hm with heq
    · exact Or.inl ⟨heq, (Option.some.inj hm).symm⟩
    · exact Or.inr ⟨heq, hm⟩
  have hnone : ∀ kind routePath m, (s.routes kind).lookup (routeKey r.namespaceId routePath) ≠ some m :=
    fun kind routePath m hlookup => Option.some_ne_none m (hholder.route kind routePath m hlookup).symm
  have hgone : ∀ m other, s.loaded m = some other → other.namespaceId = r.namespaceId → other.pc = .returned :=
    fun m other hm hother => by_contra fun hlive => Option.some_ne_none m (hholder.live m other hm hother hlive).symm
  have hholder' : (s.setSession s.nextSession new).Holder r.namespaceId (some s.nextSession) := by
    refine ⟨fun m other hm hother hlive => ?_, fun m hm => ?_, fun kind routePath m hlookup =>
      absurd hlookup (hnone kind routePath m)⟩
    · rcases hloaded hm with ⟨rfl, -⟩ | ⟨-, hold⟩
      · rfl
      · exact absurd (hgone m other hold hother) hlive
    · obtain rfl := Option.some.inj hm
      exact ⟨new, Function.update_self .., rfl⟩
  refine h.of_request (s.setSession s.nextSession new) hd (fun other hne hother => ?_) (fun m other hm => ?_) rfl
    ⟨fun m other hm hother => ?_, fun m other hm hother hserving kind routePath hmem => ?_,
      fun kind routePath m hlookup => absurd hlookup (hnone kind routePath m)⟩ (fun m hm => ?_) rfl rfl rfl
    (fun _ _ => rfl) rfl (fun after ha => ?_)
    (hphased.goto hd rfl rfl ⟨hholder'.congr rfl rfl, hmap, Function.update_self ..⟩)
  · refine Same.setSession (fun old hold => ?_) hne
    rw [hfree] at hold
    cases hold
  · rcases hloaded hm with ⟨-, rfl⟩ | ⟨-, hold⟩
    · exact Or.inl rfl
    · exact Or.inr hold
  · rcases hloaded hm with ⟨-, rfl⟩ | ⟨-, hold⟩
    · rfl
    · exact hrouted.flag m other hold hother
  · rcases hloaded hm with ⟨-, rfl⟩ | ⟨-, hold⟩
    · exact absurd hmem List.not_mem_nil
    · rw [hgone m other hold hother] at hserving
      exact absurd hserving Bool.false_ne_true
  · have hlt : s.nextSession < m := hm
    exact (Function.update_of_ne (Nat.ne_of_gt hlt) _ _).trans (h.fresh m (Nat.le_of_lt hlt))
  · obtain rfl := Option.some.inj ha
    rfl

section

variable {new : ℕ} (hd : s.requests d = some r) (hholder : s.Holder r.namespaceId (some new))
  (hn : s.loaded new = some (Session.init r.namespaceId r.configs))
include hd hholder hn

/-- The session that a request has loaded is deinitialized or spawned. -/
theorem routed_new (h : s.Inv) (pc : SessionPc) (hactive : pc.active = false) :
    ((s.setSession new ((Session.init r.namespaceId r.configs).goto pc)).call new r.namespaceId .none).Routed
      r.namespaceId := by
  refine (h.routed _ (h.slashRequest d r hd)).act hn rfl rfl (fun _ => hactive.symm)
    (fun _ => ⟨rfl, fun kind routePath => ⟨by simp, Or.inl⟩⟩) (fun kind routePath hany => ?_)
    fun m other hm hother hlive => hholder.sole rfl hm hother hlive
  obtain ⟨-, hkeeps⟩ := hany.resolve_left (by simp)
  simp [Session.Keeps, Session.Recorded, Session.init, SessionPc.closing] at hkeeps

/-- Loading went well, and what follows did not; the new session is in the map no more. -/
theorem discard (h : s.Inv) {sessions : NamespaceId → Option ℕ} (hnone : sessions r.namespaceId = none)
    (hsessions : ∀ other, r.namespaceId ≠ other → sessions other = s.sessions other) :
    (({ (s.discard new (Session.init r.namespaceId r.configs)) with sessions := sessions } : Host).finish d).Inv := by
  have hphased := h.phased _ (h.slashRequest d r hd)
  have hrouted := h.routed_new hd hholder hn .returned rfl
  refine h.of_act hd hn rfl rfl hrouted rfl rfl rfl rfl hsessions rfl (fun after ha => by cases ha)
    (hphased.finish hd rfl rfl hnone ?_)
  have hvacant := (hholder.act (c := .none) rfl rfl).vacate hrouted (Function.update_self ..) rfl fun _ => rfl
  exact hvacant.congr rfl rfl

/-- The new session is spawned, and the request returns. -/
theorem spawn (h : s.Inv) (hmap : s.sessions r.namespaceId = some new) :
    ((s.setSession new ((Session.init r.namespaceId r.configs).goto .spawned)).finish d).Inv := by
  have hphased := h.phased _ (h.slashRequest d r hd)
  have hrouted := h.routed_new hd hholder hn .spawned rfl
  refine h.of_act hd hn rfl rfl hrouted rfl rfl rfl rfl (fun other hne => rfl) rfl (fun after ha => by cases ha)
    (hphased.finish hd rfl rfl hmap ((hholder.act (c := .none) rfl rfl).congr rfl rfl))

end

/-- Each step of a request, in order. -/
theorem advance (h : s.Inv) (hd : s.requests d = some r) {outcome : Outcome} (hl : r.pc.Orderly s.loaded outcome)
    (hs : s.advance d r outcome = some s') : s'.Inv := by
  have hphased := h.phased _ (h.slashRequest d r hd)
  have hfits := hphased.busy d r hd rfl
  unfold Host.advance at hs
  cases hpc : r.pc with
  | stop old =>
    rw [hpc] at hs hl
    obtain ⟨session, hn, rfl⟩ := Option.map_eq_some_iff.mp hs
    exact h.stop hd hpc hn (hl session hn)
  | wait old =>
    rw [hpc] at hs
    obtain ⟨session, hn, rfl⟩ := Option.map_eq_some_iff.mp hs
    cases hactive : session.runForeverActive with
    | true => exact h
    | false => exact h.wait hd hpc hn hactive
  | close old closing =>
    rw [hpc] at hs hl
    obtain rfl : outcome = .ok := hl
    obtain ⟨session, hn, rfl⟩ := Option.map_eq_some_iff.mp hs
    rcases hstep : session.closeStep .ok closing with ⟨next, rest, c⟩
    have hafter := h.close hd hpc hn hstep
    rw [← (Session.closeStep_spec hstep).1.1] at hafter
    cases rest with
    | none => exact hafter
    | some rest => exact hafter
  | retire =>
    rw [hpc] at hs hfits
    obtain rfl := Option.some.inj hs
    by_cases hok : outcome = .ok
    · rw [if_pos hok]
      refine h.of_quiet hd rfl rfl rfl rfl (fun _ _ => rfl) rfl (fun after ha => ?_)
        (hphased.goto hd rfl rfl ⟨hfits.1.congr rfl rfl, hfits.2⟩)
      obtain rfl := Option.some.inj ha
      rfl
    · rw [if_neg hok]
      exact h.of_quiet hd rfl rfl rfl rfl (fun _ _ => rfl) rfl (fun after ha => by cases ha)
        (hphased.finish hd rfl rfl hfits.2 (hfits.1.congr rfl rfl))
  | load =>
    rw [hpc] at hs hfits
    obtain rfl := Option.some.inj hs
    by_cases hok : outcome = .ok
    · rw [if_pos hok]
      exact h.load hd hpc
    · rw [if_neg hok]
      exact h.of_quiet hd rfl rfl rfl rfl (fun _ _ => rfl) rfl (fun after ha => by cases ha)
        (hphased.finish hd rfl rfl hfits.2 (hfits.1.congr rfl rfl))
  | put new =>
    rw [hpc] at hs hfits
    obtain ⟨hholder, hmap, hnew⟩ := hfits
    obtain ⟨session, hn, rfl⟩ := Option.map_eq_some_iff.mp hs
    obtain rfl := Option.some.inj (hnew.symm.trans hn)
    by_cases hok : outcome = .ok
    · rw [if_pos hok]
      refine h.of_quiet hd rfl rfl rfl rfl (fun other hne => Function.update_of_ne (Ne.symm hne) _ _) rfl
        (fun after ha => ?_) (hphased.goto hd rfl rfl ⟨hholder.congr rfl rfl, Function.update_self .., hnew⟩)
      obtain rfl := Option.some.inj ha
      rfl
    · rw [if_neg hok]
      exact h.discard hd hholder hnew hmap fun _ _ => rfl
  | spawn new =>
    rw [hpc] at hs hfits
    obtain ⟨hholder, hmap, hnew⟩ := hfits
    obtain ⟨session, hn, rfl⟩ := Option.map_eq_some_iff.mp hs
    obtain rfl := Option.some.inj (hnew.symm.trans hn)
    by_cases hok : outcome = .ok
    · rw [if_pos hok]
      exact h.spawn hd hholder hnew hmap
    · rw [if_neg hok]
      exact h.discard hd hholder hnew (Function.update_self ..) fun other hne => Function.update_of_ne (Ne.symm hne) _ _

/-- **Every orderly step keeps everything well.** -/
theorem step (h : s.Inv) {l : Label} (hl : s.Orderly l) (hs : host.step s l = some s') : s'.Inv := by
  cases l with
  | deploy namespaceId configs =>
    obtain rfl := Option.some.inj hs
    refine h.deploy hl.1 fun d r hd => ?_
    have hlt : d < s.nextRequest := by
      by_contra hge
      rw [h.freshRequest d (Nat.le_of_not_lt hge)] at hd
      cases hd
    exact hl.2 d hlt r hd
  | advance d outcome =>
    obtain ⟨r, hd, hs⟩ := Option.bind_eq_some_iff.mp hs
    exact h.advance hd (hl r hd) hs
  | run n outcome =>
    obtain ⟨session, hn, hs⟩ := Option.bind_eq_some_iff.mp hs
    obtain ⟨⟨next, c⟩, hstep, rfl⟩ := Option.map_eq_some_iff.mp hs
    exact h.run hn (Session.moves_of_step hstep) (hl session hn)

end Inv

theorem inv_of_reaches (h : host.Reaches Orderly Host.start s) : s.Inv :=
  h.invariant Inv.start fun _ _ _ hi hl hs => hi.step hl hs

/-! ## One session at a time -/

/-- Session `n` of the namespace is loaded, and its fiber has not returned. -/
def Alive (s : Host) (namespaceId : NamespaceId) (n : ℕ) : Prop :=
  ∃ session, s.loaded n = some session ∧ session.namespaceId = namespaceId ∧ session.pc ≠ .returned

/-- **Redeployments replace sessions one by one**: a namespace never has two sessions that have not returned, its
routes never lead to another session than that one, and they lead there from the moment that it records them until
it leaves its loop. -/
theorem one_session_at_a_time (h : host.Reaches Orderly Host.start s) (namespaceId : NamespaceId) :
    (∀ n m, s.Alive namespaceId n → s.Alive namespaceId m → n = m) ∧
      (∀ kind routePath n m, serverDynamicDispatch (s.routes kind) (47 :: routeKey namespaceId routePath) = some n →
        s.Alive namespaceId m → n = m) ∧
      ∀ n session, s.loaded n = some session → session.namespaceId = namespaceId → session.pc.serving →
        ∀ kind, ∀ routePath ∈ session.sources kind,
          serverDynamicDispatch (s.routes kind) (47 :: routeKey namespaceId routePath) = some n := by
  have hinv := inv_of_reaches h
  have holder : ∀ m, s.Alive namespaceId m → ∃ o, s.Holder namespaceId o ∧ o = some m := by
    rintro m ⟨session, hm, rfl, hlive⟩
    obtain ⟨o, ho⟩ := (hinv.phased _ (hinv.slashSession m session hm)).holder
    exact ⟨o, ho, ho.live m session hm rfl hlive⟩
  refine ⟨fun n m ⟨session, hn, hns, hlive⟩ hm => ?_, fun kind routePath n m hlookup hm => ?_,
    fun n session hn hns hserving kind routePath hmem => ?_⟩
  · obtain ⟨o, hholder, ho⟩ := holder m hm
    exact hholder.sole ho hn hns hlive
  · obtain ⟨o, hholder, ho⟩ := holder m hm
    exact Option.some.inj ((hholder.route kind routePath n hlookup).symm.trans ho)
  · have hslash : 47 ∉ namespaceId := hns ▸ hinv.slashSession n session hn
    exact (hinv.routed namespaceId hslash).served n session hn hns hserving kind routePath hmem

/-- A source of a module with one HTTP route. -/
def exampleConfigs : List (Bytes × SourceConfig) := [([97], ⟨httpType, some [104], none⟩)]

/-- A first deployment, up to the loop of its session. -/
def exampleFirst : List Label :=
  [.deploy [110] exampleConfigs, .advance 0 .ok, .advance 0 .ok, .advance 0 .ok, .run 0 .ok, .run 0 .ok, .run 0 .ok,
    .run 0 .ok, .run 0 .ok]

/-- A second one takes over: the first session leaves its loop while the request waits. -/
def exampleSecond : List Label :=
  [.deploy [110] exampleConfigs, .advance 1 .ok, .advance 1 .ok, .run 0 .ok, .run 0 .ok, .run 0 .ok, .run 0 .ok,
    .run 0 .ok, .run 0 .ok, .advance 1 .ok, .advance 1 .ok, .advance 1 .ok, .advance 1 .ok, .advance 1 .ok,
    .advance 1 .ok, .advance 1 .ok, .run 1 .ok, .run 1 .ok, .run 1 .ok, .run 1 .ok]

theorem one_session_at_a_time_handover :
    ∃ s, host.runAllowed Orderly Host.start (exampleFirst ++ exampleSecond) = some s ∧
      (s.loaded 0).map Session.pc = some .returned ∧ (s.loaded 1).map Session.pc = some .check ∧
      serverDynamicDispatch (s.routes .http) [47, 110, 47, 104] = some 1 ∧
      ∀ n m, s.Alive [110] n → s.Alive [110] m → n = m := by
  have hsome : (host.runAllowed Orderly Host.start (exampleFirst ++ exampleSecond)).isSome := by decide +kernel
  obtain ⟨s, hs⟩ := Option.isSome_iff_exists.mp hsome
  refine ⟨s, hs, ?_, ?_, ?_, (one_session_at_a_time (Machine.reaches_of_runAllowed hs) [110]).1⟩
  · have hpc : ((host.runAllowed Orderly Host.start (exampleFirst ++ exampleSecond)).bind fun s =>
        (s.loaded 0).map Session.pc) = some .returned := by decide +kernel
    rwa [hs] at hpc
  · have hpc : ((host.runAllowed Orderly Host.start (exampleFirst ++ exampleSecond)).bind fun s =>
        (s.loaded 1).map Session.pc) = some .check := by decide +kernel
    rwa [hs] at hpc
  · have hroute : ((host.runAllowed Orderly Host.start (exampleFirst ++ exampleSecond)).bind fun s =>
        serverDynamicDispatch (s.routes .http) [47, 110, 47, 104]) = some 1 := by decide +kernel
    rwa [hs] at hroute

end Host

end Lifecycle

end Slung
