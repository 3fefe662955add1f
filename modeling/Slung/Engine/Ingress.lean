import Slung.Lib.Mailbox
import Slung.Engine.Connectors
import Slung.Engine.Session

/-!
# Slung.Engine.Ingress — webhook bodies on their way into a session (`engine/connectors/http.zig`, `engine/events.zig`)

A route of the gateway has one slot.  The handler of a POST frees what is in it and writes the new body; the session
polls its sources one after the other, ingests what it finds and empties the slot.  Handlers of any number of requests
and the session take turns at the mutex of a source, so a run is a sequence of handler runs and of visits to a slot.

A handler whose response cannot be finished frees its body, behind the unlock, although the slot points to it
(`dangling`).  Whoever uses that slot next frees or reads freed memory, or has it freed twice: no run goes on from
there.

`received_accounted`: whatever fails, a body that was answered with `received` is ingested once, unless a later body
was written into the slot before; `received_replaced` is the run of two requests and one poll.
-/

namespace Slung

open Slung.Lib

variable {std : StdLib}

/-! ## State -/

/-- The body of a request, known by its number. -/
structure RequestBody where
  number : ℕ
  data : Bytes
deriving DecidableEq, Repr

structure Ingress (std : StdLib) where
  /-- the gateway's map from routes to sources -/
  routes : Routes ℕ
  sources : ℕ → Mailbox RequestBody
  /-- does the slot point to a body that was freed? -/
  dangling : ℕ → Bool
  /-- the session's sources with their names, in the order it polls them -/
  httpSources : List (Bytes × ℕ)
  context : Context std.wyhash
  /-- the sources that the current call of `pollSources` has still to visit -/
  polling : Option (List (Bytes × ℕ))
  posted : ℕ
  /-- the bodies that were answered with `received`, with their sources -/
  received : List (ℕ × RequestBody)

namespace Ingress

def opened (routes : Routes ℕ) (httpSources : List (Bytes × ℕ)) (context : Context std.wyhash) : Ingress std :=
  ⟨routes, fun _ => .empty, fun _ => false, httpSources, context, none, 0, []⟩

def setSource (s : Ingress std) (source : ℕ) (mailbox : Mailbox RequestBody) : Ingress std :=
  { s with sources := Function.update s.sources source mailbox }

/-! ## The handler -/

inductive PostFault where
  | lock | body | alloc | header
deriving DecidableEq, Repr

inductive Response where
  | received | emptyBody | notFound | failed
deriving DecidableEq, Repr

/-- Free what is in the slot and write the new body. -/
def deposit (s : Ingress std) (source : ℕ) (data : Bytes) : Ingress std :=
  { s.setSource source ((s.sources source).write ⟨s.posted, data⟩) with posted := s.posted + 1 }

/-- The `errdefer` frees the body that is in the slot. -/
def freed (s : Ingress std) (source : ℕ) : Ingress std :=
  { s with dangling := Function.update s.dangling source true }

/-- A run of `serverDynamicDispatch`; `none` where it frees a body that was freed. -/
def dispatch (s : Ingress std) (url : Bytes) (body : Option Bytes) (fault : Option PostFault) :
    Option (Response × Ingress std) :=
  if fault = some .lock then some (.failed, s)
  else match serverDynamicDispatch s.routes url with
    | none => some (if fault = some .header then .failed else .notFound, s)
    | some source =>
      if fault = some .body then some (.failed, s)
      else match body with
        | none => some (if fault = some .header then .failed else .emptyBody, s)
        | some data =>
          if fault = some .alloc then some (.failed, s)
          else if s.dangling source then none
          else if fault = some .header then some (.failed, (s.deposit source data).freed source)
          else some (.received, { s.deposit source data with
            received := s.received ++ [(source, ⟨s.posted, data⟩)] })

/-! ## The session -/

/-- The WebSocket sources come first; an error there is one of the whole call. -/
def pollSources (s : Ingress std) (webSocketsFail : Bool) : Option (Ingress std) :=
  if s.polling.isSome then none
  else if webSocketsFail then some s
  else some { s with polling := some s.httpSources }

/-- The visit to the next source.  An error of the ingestion leaves the slot as it is and ends the call; a body that
was freed cannot be ingested. -/
def pollNext (s : Ingress std) (calls : List (ForwardKey × MapperCall)) : Option (Ingress std) :=
  match s.polling with
  | none | some [] => none
  | some ((sourceName, source) :: rest) =>
    match (s.sources source).slot with
    | none => some { s with polling := some rest }
    | some _ =>
      if s.dangling source then none
      else
        match ingestSourceData sourceName s.context calls with
        | (context, none) => some { s.setSource source (s.sources source).take with
            context := context, polling := some rest }
        | (context, some _) => some { s with context := context, polling := none }

/-- Whatever the session does when it is not at its HTTP sources. -/
def otherWork (s : Ingress std) (context : Context std.wyhash) : Option (Ingress std) :=
  match s.polling with
  | none | some [] => some { s with context := context, polling := none }
  | some (_ :: _) => none

inductive Label (std : StdLib) where
  | post (url : Bytes) (body : Option Bytes) (fault : Option PostFault)
  | pollSources (webSocketsFail : Bool)
  | pollNext (calls : List (ForwardKey × MapperCall))
  | otherWork (context : Context std.wyhash)

end Ingress

variable (std) in
/-- Requests and one session. -/
def ingress : Machine (Ingress std) (Ingress.Label std) where
  step s
    | .post url body fault => (s.dispatch url body fault).map Prod.snd
    | .pollSources webSocketsFail => s.pollSources webSocketsFail
    | .pollNext calls => s.pollNext calls
    | .otherWork context => s.otherWork context

namespace Ingress

/-! ## What the steps do -/

theorem dispatch_cases {s s' : Ingress std} {url : Bytes} {body : Option Bytes} {fault : Option PostFault}
    (h : (s.dispatch url body fault).map Prod.snd = some s') :
    s' = s ∨ ∃ source data, serverDynamicDispatch s.routes url = some source ∧ s.dangling source = false ∧
      (s' = (s.deposit source data).freed source ∨
        s' = { s.deposit source data with received := s.received ++ [(source, ⟨s.posted, data⟩)] }) := by
  unfold dispatch at h
  by_cases hlock : fault = some .lock
  · rw [if_pos hlock] at h
    exact Or.inl (Option.some.inj h).symm
  rw [if_neg hlock] at h
  cases hroute : serverDynamicDispatch s.routes url with
  | none =>
    rw [hroute] at h
    exact Or.inl (Option.some.inj h).symm
  | some source =>
    simp only [hroute] at h
    by_cases hbody : fault = some .body
    · rw [if_pos hbody] at h
      exact Or.inl (Option.some.inj h).symm
    rw [if_neg hbody] at h
    cases body with
    | none => exact Or.inl (Option.some.inj h).symm
    | some data =>
      simp only at h
      by_cases halloc : fault = some .alloc
      · rw [if_pos halloc] at h
        exact Or.inl (Option.some.inj h).symm
      rw [if_neg halloc] at h
      by_cases hdangling : s.dangling source = true
      · rw [if_pos hdangling] at h
        cases h
      rw [if_neg hdangling] at h
      refine Or.inr ⟨source, data, rfl, Bool.eq_false_iff.mpr hdangling, ?_⟩
      by_cases hheader : fault = some .header
      · rw [if_pos hheader] at h
        exact Or.inl (Option.some.inj h).symm
      · rw [if_neg hheader] at h
        exact Or.inr (Option.some.inj h).symm

theorem pollSources_cases {s s' : Ingress std} {webSocketsFail : Bool}
    (h : s.pollSources webSocketsFail = some s') : ∃ polling, s' = { s with polling := polling } := by
  unfold pollSources at h
  split_ifs at h <;> obtain rfl := Option.some.inj h
  · exact ⟨s.polling, rfl⟩
  · exact ⟨some s.httpSources, rfl⟩

theorem pollNext_cases {s s' : Ingress std} {calls : List (ForwardKey × MapperCall)}
    (h : s.pollNext calls = some s') : (∃ context polling, s' = { s with context := context, polling := polling }) ∨
      ∃ source context polling, s.dangling source = false ∧ s' = { s.setSource source (s.sources source).take with
        context := context, polling := polling } := by
  unfold pollNext at h
  split at h
  · cases h
  · cases h
  rename_i sourceName source rest _
  split at h
  · exact Or.inl ⟨s.context, some rest, (Option.some.inj h).symm⟩
  by_cases hdangling : s.dangling source = true
  · rw [if_pos hdangling] at h
    cases h
  rw [if_neg hdangling] at h
  split at h
  · exact Or.inr ⟨source, _, some rest, Bool.eq_false_iff.mpr hdangling, (Option.some.inj h).symm⟩
  · exact Or.inl ⟨_, none, (Option.some.inj h).symm⟩

theorem otherWork_cases {s s' : Ingress std} {context : Context std.wyhash} (h : s.otherWork context = some s') :
    s' = { s with context := context, polling := none } := by
  unfold otherWork at h
  split at h <;> cases h <;> rfl

/-! ## The invariant -/

/-- The numbers of the bodies are new, the slots account for them, what was answered was written, and what was freed in
its slot was not answered. -/
structure Sound (s : Ingress std) : Prop where
  accounted : ∀ source, (s.sources source).Accounted
  numbered : ∀ source, ((s.sources source).written.map RequestBody.number).Pairwise (· < ·)
  below : ∀ source, ∀ body ∈ (s.sources source).written, body.number < s.posted
  received : ∀ p ∈ s.received, p.2 ∈ (s.sources p.1).written
  freed : ∀ source, s.dangling source = true → ∀ body ∈ (s.sources source).slot, (source, body) ∉ s.received

namespace Sound

variable {s s' : Ingress std}

theorem opened (routes : Routes ℕ) (httpSources : List (Bytes × ℕ)) (context : Context std.wyhash) :
    Sound (opened routes httpSources context) :=
  ⟨fun _ => .empty, fun _ => List.Pairwise.nil, fun _ => nofun, nofun, fun _ _ _ _ => nofun⟩

theorem nodup (h : Sound s) (source : ℕ) : (s.sources source).written.Nodup :=
  .of_map RequestBody.number ((h.numbered source).imp fun hlt => hlt.ne)

/-- A step that touches no slot. -/
theorem frame (h : Sound s) (context : Context std.wyhash) (polling : Option (List (Bytes × ℕ))) :
    Sound { s with context := context, polling := polling } :=
  ⟨h.accounted, h.numbered, h.below, h.received, h.freed⟩

theorem deposit (h : Sound s) {source : ℕ} (hdangling : s.dangling source = false) (data : Bytes) :
    Sound (s.deposit source data) := by
  have hsource : ∀ k, (s.deposit source data).sources k =
      if k = source then (s.sources source).write ⟨s.posted, data⟩ else s.sources k := fun k =>
    Function.update_apply s.sources source _ k
  have hposted : (s.deposit source data).posted = s.posted + 1 := rfl
  refine ⟨fun k => ?_, fun k => ?_, fun k body hbody => ?_, fun p hp => ?_, fun k hk body hbody => ?_⟩
  · rw [hsource]
    split_ifs
    · exact (h.accounted source).write _
    · exact h.accounted k
  · rw [hsource]
    split_ifs
    · rw [Mailbox.write, List.map_append, List.pairwise_append]
      refine ⟨h.numbered source, List.pairwise_singleton _ _, fun n hn m hm => ?_⟩
      obtain ⟨body, hbody, rfl⟩ := List.mem_map.mp hn
      obtain rfl := List.mem_singleton.mp hm
      exact h.below source body hbody
    · exact h.numbered k
  · rw [hsource] at hbody
    rw [hposted]
    split_ifs at hbody
    · rcases List.mem_append.mp hbody with hbody | hbody
      · exact Nat.lt_succ_of_lt (h.below source body hbody)
      · rw [List.mem_singleton.mp hbody]
        exact Nat.lt_succ_self _
    · exact Nat.lt_succ_of_lt (h.below k body hbody)
  · have hwritten := h.received p hp
    rw [hsource]
    split_ifs with hk
    · exact List.mem_append_left _ (hk ▸ hwritten)
    · exact hwritten
  · have hne : k ≠ source := by
      rintro rfl
      exact absurd (hk.symm.trans hdangling) (by simp)
    rw [hsource, if_neg hne] at hbody
    exact h.freed k hk body hbody

/-- The body that was deposited is answered. -/
theorem answer (h : Sound s) {source : ℕ} (hdangling : s.dangling source = false) (data : Bytes) :
    Sound { s.deposit source data with received := s.received ++ [(source, ⟨s.posted, data⟩)] } := by
  have hdeposit := h.deposit hdangling data
  refine { hdeposit with received := fun p hp => ?_, freed := fun k hk body hbody hin => ?_ }
  · rcases List.mem_append.mp hp with hp | hp
    · exact hdeposit.received p hp
    · obtain rfl := List.mem_singleton.mp hp
      change _ ∈ (Function.update s.sources source _ source).written
      rw [Function.update_self]
      exact List.mem_append_right _ (List.mem_singleton.mpr rfl)
  · rcases List.mem_append.mp hin with hin | hin
    · exact hdeposit.freed k hk body hbody hin
    · obtain ⟨rfl, -⟩ := Prod.mk.inj (List.mem_singleton.mp hin)
      exact absurd (hk.symm.trans hdangling) (by simp)

/-- The body that was deposited is freed; it was not answered, for it is new. -/
theorem free (h : Sound s) {source : ℕ} (hdangling : s.dangling source = false) (data : Bytes) :
    Sound ((s.deposit source data).freed source) := by
  have hdeposit := h.deposit hdangling data
  refine { hdeposit with freed := fun k hk body hbody hin => ?_ }
  by_cases hne : k = source
  · subst hne
    have hslot : ((s.deposit k data).sources k).slot = some ⟨s.posted, data⟩ := by
      change (Function.update s.sources k _ k).slot = _
      rw [Function.update_self]
      rfl
    obtain rfl : (⟨s.posted, data⟩ : RequestBody) = body := Option.some.inj (hslot.symm.trans hbody)
    exact Nat.lt_irrefl _ (h.below k _ (h.received _ hin))
  · have hsame : ((s.deposit source data).freed source).dangling k = s.dangling k := Function.update_of_ne hne _ _
    exact hdeposit.freed k (hsame.symm.trans hk) body hbody hin

/-- A slot is emptied. -/
theorem take (h : Sound s) {source : ℕ} (hdangling : s.dangling source = false) :
    Sound (s.setSource source (s.sources source).take) := by
  have hsource : ∀ k, (s.setSource source (s.sources source).take).sources k =
      if k = source then (s.sources source).take else s.sources k := fun k =>
    Function.update_apply s.sources source _ k
  have hwritten : ∀ k, ((s.setSource source (s.sources source).take).sources k).written = (s.sources k).written := by
    intro k
    rw [hsource]
    split_ifs with hk
    · rw [hk]; rfl
    · rfl
  refine ⟨fun k => ?_, fun k => hwritten k ▸ h.numbered k, fun k => hwritten k ▸ h.below k,
    fun p hp => hwritten p.1 ▸ h.received p hp, fun k hk body hbody => ?_⟩
  · rw [hsource]
    split_ifs
    · exact (h.accounted source).take
    · exact h.accounted k
  · have hne : k ≠ source := by
      rintro rfl
      exact absurd (hk.symm.trans hdangling) (by simp)
    rw [hsource, if_neg hne] at hbody
    exact h.freed k hk body hbody

theorem step (h : Sound s) {l : Label std} (hs : (ingress std).step s l = some s') : Sound s' := by
  cases l with
  | post url body fault =>
    rcases dispatch_cases hs with rfl | ⟨source, data, -, hdangling, rfl | rfl⟩
    · exact h
    · exact h.free hdangling data
    · exact h.answer hdangling data
  | pollSources webSocketsFail =>
    obtain ⟨polling, rfl⟩ := pollSources_cases hs
    exact h.frame s.context polling
  | pollNext calls =>
    rcases pollNext_cases hs with ⟨context, polling, rfl⟩ | ⟨source, context, polling, hdangling, rfl⟩
    · exact h.frame context polling
    · exact (h.take hdangling).frame context polling
  | otherWork context =>
    obtain rfl := otherWork_cases hs
    exact h.frame context none

end Sound

theorem Sound.reaches {s : Ingress std} {P : Ingress std → Label std → Prop} {routes : Routes ℕ}
    {httpSources : List (Bytes × ℕ)} {context : Context std.wyhash}
    (h : (ingress std).Reaches P (Ingress.opened routes httpSources context) s) : Sound s :=
  h.invariant (opened routes httpSources context) fun _ _ _ hs _ hstep => hs.step hstep

/-- A body is replaced by a later one. -/
theorem Sound.replaced_earlier {s : Ingress std} (h : Sound s) {source : ℕ} {body : RequestBody}
    (hbody : body ∈ (s.sources source).replaced) :
    ∃ later ∈ (s.sources source).written, body.number < later.number := by
  have hearlier := (h.accounted source).newer body hbody
  have hne : (s.sources source).written ≠ [] := by
    rintro hnil
    rw [hnil] at hearlier
    cases hearlier
  have hnumbered := h.numbered source
  rw [← List.dropLast_append_getLast hne, List.map_append, List.pairwise_append] at hnumbered
  exact ⟨_, List.getLast_mem hne,
    hnumbered.2.2 _ (List.mem_map_of_mem hearlier) _ (by simp)⟩

/-- Every request comes to an empty slot. -/
def Spaced (s : Ingress std) : Label std → Prop
  | .post url _ _ => ∀ source ∈ serverDynamicDispatch s.routes url, (s.sources source).slot = none
  | _ => True

instance (s : Ingress std) : ∀ l, Decidable (s.Spaced l)
  | .post .. => inferInstanceAs (Decidable (∀ source ∈ _, _ = _))
  | .pollSources _ | .pollNext _ | .otherWork _ => inferInstanceAs (Decidable True)

theorem replaced_step {s s' : Ingress std} {l : Label std} (hspaced : s.Spaced l)
    (hs : (ingress std).step s l = some s') (source : ℕ) :
    (s'.sources source).replaced = (s.sources source).replaced := by
  have hupdate : ∀ target mailbox, mailbox.replaced = (s.sources target).replaced →
      (Function.update s.sources target mailbox source).replaced = (s.sources source).replaced := by
    intro target mailbox hsame
    rw [Function.update_apply]
    split_ifs with htarget
    · rw [hsame, htarget]
    · rfl
  cases l with
  | post url body fault =>
    rcases dispatch_cases hs with rfl | ⟨target, data, hroute, -, hends⟩
    · rfl
    have hwrite : ((s.sources target).write ⟨s.posted, data⟩).replaced = (s.sources target).replaced := by
      rw [Mailbox.write, hspaced target hroute]
      exact List.append_nil _
    rcases hends with rfl | rfl <;> exact hupdate target _ hwrite
  | pollSources webSocketsFail =>
    obtain ⟨polling, rfl⟩ := pollSources_cases hs
    rfl
  | pollNext calls =>
    rcases pollNext_cases hs with ⟨context, polling, rfl⟩ | ⟨target, context, polling, -, rfl⟩
    · rfl
    · exact hupdate target _ rfl
  | otherWork context =>
    obtain rfl := otherWork_cases hs
    rfl

theorem replaced_nil {s : Ingress std} {routes : Routes ℕ} {httpSources : List (Bytes × ℕ)}
    {context : Context std.wyhash} (h : (ingress std).Reaches Spaced (opened routes httpSources context) s)
    (source : ℕ) : (s.sources source).replaced = [] :=
  h.invariant (I := fun s => (s.sources source).replaced = []) rfl fun _ _ _ hnil hspaced hs =>
    (replaced_step hspaced hs source).trans hnil

end Ingress

/-! ## Theorems -/

/-- **What becomes of a body that was answered with `received`**, whatever fails: it was ingested once, it was
replaced by a later body of its route, or it waits in the slot and has not been freed; and what is ingested on a route
is ingested in the order in which it came.  Where every request comes to an empty slot, nothing is replaced. -/
theorem received_accounted (routes : Routes ℕ) (httpSources : List (Bytes × ℕ)) (context : Context std.wyhash)
    (s : Ingress std) (h : (ingress std).Reaches (fun _ _ => True) (Ingress.opened routes httpSources context) s) :
    (∀ source, let m := s.sources source
      (∀ body, (source, body) ∈ s.received →
        m.taken.count body + m.replaced.count body + m.slot.toList.count body = 1) ∧
      (s.dangling source = true → ∀ body ∈ m.slot, (source, body) ∉ s.received) ∧
      (m.taken ++ m.slot.toList).Sublist m.written ∧
      (m.written.map RequestBody.number).Pairwise (· < ·) ∧
      (∀ body ∈ m.replaced, ∃ later ∈ m.written, body.number < later.number)) ∧
    ((ingress std).Reaches Ingress.Spaced (Ingress.opened routes httpSources context) s →
      ∀ source, (s.sources source).taken ++ (s.sources source).slot.toList = (s.sources source).written) := by
  have hsound := Ingress.Sound.reaches h
  refine ⟨fun source => ⟨fun body hbody => ?_, hsound.freed source, (hsound.accounted source).inOrder,
    hsound.numbered source, fun body hbody => hsound.replaced_earlier hbody⟩, fun hspaced source => ?_⟩
  · exact (hsound.accounted source).once (hsound.nodup source) (hsound.received (source, body) hbody)
  · exact (hsound.accounted source).taken_of_replaced_nil (Ingress.replaced_nil hspaced source)

/-- Two requests with a poll after each. -/
theorem received_accounted_example :
    let context := ModuleSession.init StdLib.fragment ⟨[110], [97], CapabilityGraph.empty⟩ Wal.Live.init
    let start : Ingress StdLib.fragment := Ingress.opened (Finmap.singleton [110, 47, 97] 0) [([97], 0)] context
    let run : List (Ingress.Label StdLib.fragment) := [.post [47, 110, 47, 97] (some [49]) none, .pollSources false,
      .pollNext [], .otherWork context, .post [47, 110, 47, 97] (some [50]) none, .pollSources false, .pollNext []]
    ∃ s, (ingress StdLib.fragment).runAllowed Ingress.Spaced start run = some s ∧
      s.received = [(0, ⟨0, [49]⟩), (0, ⟨1, [50]⟩)] ∧ (s.sources 0).slot = none ∧
      (s.sources 0).taken.count ⟨0, [49]⟩ + (s.sources 0).replaced.count ⟨0, [49]⟩ = 1 ∧
      (s.sources 0).taken = (s.sources 0).written := by
  intro context start run
  have hrun : ((ingress StdLib.fragment).runAllowed Ingress.Spaced start run).map
      (fun s => (s.received, (s.sources 0).slot)) = some ([(0, ⟨0, [49]⟩), (0, ⟨1, [50]⟩)], none) := by
    decide +kernel
  obtain ⟨s, hs, hfinal⟩ := Option.map_eq_some_iff.mp hrun
  obtain ⟨hreceived, hslot⟩ := Prod.mk.inj hfinal
  have hspaced := Machine.reaches_of_runAllowed hs
  obtain ⟨haccounted, hinOrder⟩ := received_accounted (Finmap.singleton [110, 47, 97] 0) [([97], 0)] context s
    (hspaced.mono fun _ _ _ => trivial)
  have honce := (haccounted 0).1 ⟨0, [49]⟩ (by rw [hreceived]; exact List.mem_cons_self)
  have hall := hinOrder hspaced 0
  rw [hslot] at honce hall
  exact ⟨s, hs, hreceived, hslot, honce, (List.append_nil _).symm.trans hall⟩

/-- Two requests and one poll: the first body is never ingested. -/
theorem received_replaced :
    let context := ModuleSession.init StdLib.fragment ⟨[110], [97], CapabilityGraph.empty⟩ Wal.Live.init
    let start : Ingress StdLib.fragment := Ingress.opened (Finmap.singleton [110, 47, 97] 0) [([97], 0)] context
    let run : List (Ingress.Label StdLib.fragment) := [.post [47, 110, 47, 97] (some [49]) none,
      .post [47, 110, 47, 97] (some [50]) none, .pollSources false, .pollNext []]
    (run.foldlM (ingress StdLib.fragment).step start).map
        (fun s => (s.received, (s.sources 0).taken, (s.sources 0).slot)) =
      some ([(0, ⟨0, [49]⟩), (0, ⟨1, [50]⟩)], [⟨1, [50]⟩], none) := by
  decide +kernel

end Slung
