import Slung.Bin.Deployment
import Slung.Lib.LwwMap
import Slung.Lib.Machine

/-!
# Slung.Bin.Supervisor — the deployment host (`bin/supervisor.zig`)

The host keeps a session for each namespace and starts a new one for each deployment that its server has taken
in.  A session is represented by the deployment that it was loaded from.  By the time the new module is loaded,
the old record and the old session are gone, so a module that does not load leaves a namespace with a record
and no session (`DeploymentHost.agree_iff`).
-/

namespace Slung

open Slung.Lib

/-- The deployments that the sessions of the namespaces were loaded from. -/
abbrev Sessions := FMap NamespaceId Deployment

/-- Where an activation may fail. -/
inductive ActivateFault where
  /-- the old session is kept until the host stops -/
  | retire
  | load | dupe | put | spawn
deriving DecidableEq, Repr

structure DeploymentHost where
  deployments : Deployments
  sessions : Sessions

namespace DeploymentHost

def start : DeploymentHost := ⟨.empty, ∅⟩

def onDeploy (fault : Option ActivateFault) (deployment : Deployment) (sessions : Sessions) :
    Sessions × Except DeployErr Unit :=
  let old := sessions.lookup deployment.namespaceId
  let sessions := sessions.erase deployment.namespaceId
  if old.isSome ∧ fault = some .retire then (sessions, .error .outOfMemory)
  else
    match fault with
    | some .load => (sessions, .error .activation)
    | some .dupe => (sessions, .error .outOfMemory)
    | some .put => (sessions, .error .outOfMemory)
    | some .spawn =>
      ((sessions.insert deployment.namespaceId deployment).erase deployment.namespaceId, .error .activation)
    | _ => (sessions.insert deployment.namespaceId deployment, .ok ())

/-- A request to a host, and where the activation fails. -/
structure Request extends DeployRequest where
  activateFault : Option ActivateFault

/-- One request, and its response. -/
def handle (self : DeploymentHost) (req : Request) : DeploymentHost × Except DeployErr Response :=
  let handled := handleDeploy (some (onDeploy req.activateFault)) self.deployments (some self.sessions)
    req.toDeployRequest
  (⟨handled.1.1, handled.1.2.getD self.sessions⟩, handled.2)

def requests : Machine DeploymentHost Request := ⟨fun self req => some (self.handle req).1⟩

/-- The record and the session of every namespace are from the same envelope. -/
def Agree (self : DeploymentHost) : Prop :=
  ∀ namespaceId, self.deployments.stored namespaceId = self.sessions.lookup namespaceId

/-- Only what was set is freed; after the request, records and sessions agree, and if it failed they are what they
were. -/
def Settles (self : DeploymentHost) (req : Request) : Prop :=
  (∀ d, req.deployment = some d → (self.deployments.put req.putFault d).2 ≠ .error .invalidFree) ∧
    (self.handle req).1.Agree ∧
    ∀ e, req.headerFails = false → (self.handle req).2 = .error e → ∀ namespaceId,
      (self.handle req).1.deployments.stored namespaceId = self.deployments.stored namespaceId ∧
      (self.handle req).1.sessions.lookup namespaceId = self.sessions.lookup namespaceId

/-- Nothing of another namespace is stored under the key of a deployment. -/
def KeyFree (self : DeploymentHost) (d : Deployment) : Prop :=
  ∀ namespaceId d', namespaceId ≠ d.namespaceId → self.deployments.stored namespaceId = some d' →
    d'.key ≠ d.key

/-- Nothing fails in the activation. -/
def Activates (self : DeploymentHost) (d : Deployment) (fault : Option ActivateFault) : Prop :=
  fault = none ∨ fault = some .retire ∧ self.sessions.lookup d.namespaceId = none

/-- The activation of what is stored does not fail, and what cannot be stored had no record to lose; the parts of the
module are copied. -/
def Clean (self : DeploymentHost) (req : Request) : Prop :=
  ∀ d, req.deployment = some d →
    match req.putFault with
    | some .allocPrint => True
    | some .lock => True
    | some .store => self.deployments.stored d.namespaceId = none ∧ self.KeyFree d
    | some .copy => False
    | none => self.Activates d req.activateFault ∧ self.KeyFree d

section

variable {self : DeploymentHost} {req : Request} {d : Deployment} {fault : Option ActivateFault}

/-- An activation that goes through replaces the session, and one that fails takes it away. -/
theorem onDeploy_cases (self : DeploymentHost) (d : Deployment) (fault : Option ActivateFault) :
    self.Activates d fault ∧ onDeploy fault d self.sessions =
        ((self.sessions.erase d.namespaceId).insert d.namespaceId d, .ok ()) ∨
      ¬ self.Activates d fault ∧ ∃ sessions e, onDeploy fault d self.sessions = (sessions, .error e) ∧
        ∀ namespaceId, sessions.lookup namespaceId =
          if namespaceId = d.namespaceId then none else self.sessions.lookup namespaceId := by
  have herase : ∀ namespaceId, (self.sessions.erase d.namespaceId).lookup namespaceId =
      if namespaceId = d.namespaceId then none else self.sessions.lookup namespaceId :=
    self.sessions.lookup_erase_eq d.namespaceId
  rcases fault with _ | fault
  · exact Or.inl ⟨Or.inl rfl, by simp [onDeploy]⟩
  cases fault with
  | retire =>
    by_cases hold : self.sessions.lookup d.namespaceId = none
    · exact Or.inl ⟨Or.inr ⟨rfl, hold⟩, by simp [onDeploy, hold]⟩
    · have hsome : (self.sessions.lookup d.namespaceId).isSome := Option.isSome_iff_ne_none.mpr hold
      exact Or.inr ⟨by simp [Activates, hold], _, .outOfMemory, by simp [onDeploy, hsome], herase⟩
  | load => exact Or.inr ⟨by simp [Activates], _, .activation, by simp [onDeploy], herase⟩
  | dupe => exact Or.inr ⟨by simp [Activates], _, .outOfMemory, by simp [onDeploy], herase⟩
  | put => exact Or.inr ⟨by simp [Activates], _, .outOfMemory, by simp [onDeploy], herase⟩
  | spawn =>
    have hremoved : onDeploy (some .spawn) d self.sessions =
        (((self.sessions.erase d.namespaceId).insert d.namespaceId d).erase d.namespaceId,
          .error .activation) := by
      simp [onDeploy]
    refine Or.inr ⟨by simp [Activates], _, _, hremoved, fun namespaceId => ?_⟩
    rw [FMap.lookup_erase_eq, FMap.lookup_insert_eq, herase]
    split_ifs <;> rfl

/-- A request without a deployment changes nothing. -/
theorem handle_of_none (h : req.deployment = none) : (self.handle req).1 = self := by
  unfold handle handleDeploy
  unfold DeployRequest.deployment at h
  rcases hbody : req.body with e | _ | body
  · rfl
  · rfl
  · rw [hbody] at h
    simp only at h
    simp only [h, Option.getD_some]

/-- A request with one stores it and, if it could, activates it. -/
theorem handle_of_some (h : req.deployment = some d) : self.handle req =
    match self.deployments.put req.putFault d with
    | (deployments, .error e) => (⟨deployments, self.sessions⟩, .error e)
    | (deployments, .ok firstDeployment) =>
      match onDeploy req.activateFault d self.sessions with
      | (sessions, .error e) => (⟨deployments, sessions⟩, .error e)
      | (sessions, .ok ()) => (⟨deployments, sessions⟩, req.respond .ok
          (if firstDeployment then "\x7b\n \"status\": \"first deployment\"\n\x7d"
            else "\x7b\n \"status\": \"redeployment\"\n\x7d")) := by
  unfold handle handleDeploy
  unfold DeployRequest.deployment at h
  rcases hbody : req.body with e | _ | body
  · rw [hbody] at h
    cases h
  · rw [hbody] at h
    cases h
  · rw [hbody] at h
    simp only at h
    simp only [h]
    rcases self.deployments.put req.putFault d with ⟨deployments, e | first⟩
    · rfl
    · rcases onDeploy req.activateFault d self.sessions with ⟨sessions, e | _⟩ <;> rfl

theorem clean_iff_of_some (h : req.deployment = some d) : self.Clean req ↔
    match req.putFault with
    | some .allocPrint => True
    | some .lock => True
    | some .store => self.deployments.stored d.namespaceId = none ∧ self.KeyFree d
    | some .copy => False
    | none => self.Activates d req.activateFault ∧ self.KeyFree d := by
  refine ⟨fun hall => hall d h, fun hd d' hd' => ?_⟩
  obtain rfl := Option.some.inj (h.symm.trans hd')
  exact hd

/-- What a step does to the record and the session of its namespace must be the same, and no other record may
go. -/
theorem agree_update_iff (h : self.Agree) {deployments : Deployments} {sessions : Sessions}
    {record session : Option Deployment}
    (hdeployments : ∀ namespaceId, deployments.stored namespaceId = if namespaceId = d.namespaceId then record
      else (self.deployments.stored namespaceId).filter fun d' => d'.key != d.key)
    (hsessions : ∀ namespaceId, sessions.lookup namespaceId = if namespaceId = d.namespaceId then session
      else self.sessions.lookup namespaceId) :
    Agree ⟨deployments, sessions⟩ ↔ record = session ∧ self.KeyFree d := by
  unfold Agree
  simp only [hdeployments, hsessions]
  constructor
  · intro hagree
    refine ⟨by simpa using hagree d.namespaceId, ?_⟩
    intro namespaceId d' hne hstored hkey
    have hother := hagree namespaceId
    rw [if_neg hne, if_neg hne, ← h namespaceId, hstored] at hother
    simp [hkey] at hother
  · rintro ⟨rfl, hfree⟩ namespaceId
    split_ifs with hns
    · rfl
    · rw [← h namespaceId]
      cases hstored : self.deployments.stored namespaceId with
      | none => rfl
      | some d' =>
        have hkey : d'.key ≠ d.key := hfree namespaceId d' hns hstored
        simp [hkey]

/-- A record that cannot be stored is lost if there was an old one. -/
theorem agree_without_iff (h : self.Agree) :
    Agree ⟨self.deployments.without d.namespaceId d.key, self.sessions⟩ ↔
      self.deployments.stored d.namespaceId = none ∧ self.KeyFree d := by
  have hsessions : ∀ namespaceId, self.sessions.lookup namespaceId =
      if namespaceId = d.namespaceId then self.sessions.lookup d.namespaceId
      else self.sessions.lookup namespaceId := by
    intro namespaceId
    split_ifs with hns
    · rw [hns]
    · rfl
  rw [agree_update_iff h (self.deployments.stored_without d.namespaceId · d.key) hsessions,
    ← h d.namespaceId, eq_comm]

/-- A record whose session has started may only take the key of another namespace's. -/
theorem agree_activated_iff (h : self.Agree) :
    Agree ⟨self.deployments.replace d, (self.sessions.erase d.namespaceId).insert d.namespaceId d⟩ ↔
      self.KeyFree d := by
  have hsessions : ∀ namespaceId,
      ((self.sessions.erase d.namespaceId).insert d.namespaceId d).lookup namespaceId =
        if namespaceId = d.namespaceId then some d else self.sessions.lookup namespaceId := by
    intro namespaceId
    rw [FMap.lookup_insert_eq, FMap.lookup_erase_eq]
    split_ifs <;> rfl
  rw [agree_update_iff h (self.deployments.stored_replace d) hsessions, and_iff_right rfl]

/-- A record whose session has not started has none. -/
theorem not_agree_failed {sessions : Sessions} (hsessions : sessions.lookup d.namespaceId = none) :
    ¬ Agree ⟨self.deployments.replace d, sessions⟩ := by
  intro hagree
  have hstored := hagree d.namespaceId
  rw [self.deployments.stored_replace, if_pos rfl, hsessions] at hstored
  cases hstored

theorem respond_ne_error {req : DeployRequest} {status : Status} {body : String} {e : DeployErr}
    (h : req.headerFails = false) : req.respond status body ≠ .error e := by
  simp [DeployRequest.respond, h]

/-- **What one request does to the agreement**, and to what was there when it fails. -/
theorem settles_iff (h : self.Agree) : self.Settles req ↔ self.Clean req := by
  unfold Settles
  cases hdeployment : req.deployment with
  | none =>
    rw [handle_of_none hdeployment]
    refine iff_of_true ⟨fun d hd => (by cases hd), h, fun e _ _ namespaceId => ⟨rfl, rfl⟩⟩ fun d hd => ?_
    cases hdeployment.symm.trans hd
  | some d =>
    have hfrees : (∀ d', some d = some d' → (self.deployments.put req.putFault d').2 ≠ .error .invalidFree) ↔
        req.putFault ≠ some .copy := by
      simp only [Option.some.injEq, forall_eq', Deployments.put_ne_invalidFree_iff]
    rw [clean_iff_of_some hdeployment, handle_of_some hdeployment, hfrees]
    rcases req.putFault with _ | fault
    · rcases self.onDeploy_cases d req.activateFault with
        ⟨hact, hok⟩ | ⟨hact, sessions, e, herror, hgone⟩
      · simp only [Deployments.put, hok, agree_activated_iff h, hact, true_and, ne_eq, reduceCtorEq, not_false_eq_true]
        exact and_iff_left fun e hheader herror => absurd herror (respond_ne_error hheader)
      · simp only [Deployments.put, herror, hact, false_and, iff_false]
        rintro ⟨-, hagree, -⟩
        exact not_agree_failed ((hgone d.namespaceId).trans (if_pos rfl)) hagree
    · cases fault with
      | allocPrint => exact iff_of_true ⟨fun h => (by cases h), h, fun e _ _ namespaceId => ⟨rfl, rfl⟩⟩ trivial
      | lock => exact iff_of_true ⟨fun h => (by cases h), h, fun e _ _ namespaceId => ⟨rfl, rfl⟩⟩ trivial
      | copy => exact iff_of_false (fun hsettles => hsettles.1 rfl) id
      | store =>
        show _ ∧ Agree ⟨self.deployments.without d.namespaceId d.key, self.sessions⟩ ∧ _ ↔ _
        rw [and_iff_right (fun h => (by cases h)), agree_without_iff h]
        refine and_iff_left_of_imp ?_
        rintro ⟨hnone, hfree⟩ e - - namespaceId
        have hagree : Agree ⟨self.deployments.without d.namespaceId d.key, self.sessions⟩ :=
          (agree_without_iff h).mpr ⟨hnone, hfree⟩
        exact ⟨(hagree namespaceId).trans (h namespaceId).symm, rfl⟩

theorem agree_start : start.Agree := fun _ => rfl

end

/-- **When records and sessions agree**: in every run of clean requests; and the next request keeps the
agreement, and leaves everything as it is when it fails, exactly if it is clean too. -/
theorem agree_iff {self : DeploymentHost} (h : requests.Reaches Clean start self) :
    self.Agree ∧ ∀ req, self.Settles req ↔ self.Clean req := by
  have hagree : self.Agree := by
    refine h.invariant agree_start fun self self' req hi hclean hs => ?_
    obtain rfl := Option.some.inj hs
    exact ((settles_iff hi).mpr hclean).2.1
  exact ⟨hagree, fun req => settles_iff hagree⟩

/-- The first deployment of a namespace. -/
theorem agree_iff_deployed :
    let req : Request := ⟨⟨.ok (Deployment.writeEnvelope ⟨[110], [109], [], [1]⟩), false, none, false⟩, none⟩
    (start.handle req).1.Agree ∧ ∀ req', (start.handle req).1.Settles req' ↔ (start.handle req).1.Clean req' := by
  intro req
  have hclean : start.Clean req := by
    refine fun d _ => ⟨Or.inl rfl, fun namespaceId d' _ hstored => ?_⟩
    simp [start, Deployments.stored, Deployments.empty] at hstored
  exact agree_iff (.step .refl hclean rfl)

/-- A module that does not load takes the place of the record of the running one, and stops it. -/
theorem failed_redeployment :
    let old : Deployment := ⟨[110], [109], [], [1]⟩
    let new : Deployment := ⟨[110], [109], [], [2]⟩
    let deployed := (start.handle ⟨⟨.ok old.writeEnvelope, false, none, false⟩, none⟩).1
    let failed := deployed.handle ⟨⟨.ok new.writeEnvelope, false, none, false⟩, some .load⟩
    (deployed.deployments.stored [110] = some old ∧ deployed.sessions.lookup [110] = some old) ∧
      failed.2 = .error .activation ∧
      failed.1.deployments.stored [110] = some new ∧ failed.1.sessions.lookup [110] = none := by
  decide +kernel

end DeploymentHost

end Slung
