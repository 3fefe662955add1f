import Slung.Lib.Stopping
import Slung.Engine.Ingestion

/-!
# Slung.Engine.Polling — what a payload can do to a session (`engine/events.zig`)

A poll gives what waits on the WebSocket and HTTP sources to ingestion, one payload after the other.  A mapper that
traps or declines is passed over, but a payload or a reported output that does not lie in the memory of the guest is an
error, and nothing between ingestion and `runForever` catches it: it ends the session
(`payload_ends_session`, `payloads_absorbed_iff`).
-/

namespace Slung

open Slung.Lib

variable {std : StdLib}

/-! ## A round of ingestion -/

/-- The memory of the session, and the session beside it. -/
structure SessionState (std : StdLib) where
  memory : GuestMemory
  context : Context std.wyhash

/-- One entry of the forward index. -/
def ingestRound (sourceName rawData : Bytes) (self : SessionState std) (round : ForwardKey × GuestCall) :
    SessionState std × Option Stop :=
  if (self.context.graph.forward.lookup round.1).all fun entry => entry.source ≠ sourceName then (self, none)
  else match round.2.invoke self.memory rawData with
    | (memory, call) =>
      match ingestOne self.context round.1 call with
      | (context, stop) => (⟨memory, context⟩, stop)

def SessionState.ingestSourceData (sourceName rawData : Bytes) (self : SessionState std)
    (rounds : List (ForwardKey × GuestCall)) : SessionState std × Option Stop :=
  runUntil (ingestRound sourceName rawData) self rounds

/-- It is ingestion through the memory, with what it leaves there. -/
theorem SessionState.ingestSourceData_eq (sourceName rawData : Bytes) (self : SessionState std)
    (rounds : List (ForwardKey × GuestCall)) :
    ((self.ingestSourceData sourceName rawData rounds).1.context, (self.ingestSourceData sourceName rawData rounds).2) =
      ingestInto sourceName rawData self.memory self.context rounds := by
  unfold ingestSourceData
  induction rounds generalizing self with
  | nil => rfl
  | cons round rest ih =>
    obtain ⟨key, call⟩ := round
    rw [ingestInto, runUntil, ingestRound]
    by_cases hskip :
        ((self.context.graph.forward.lookup key).all fun entry => decide (entry.source ≠ sourceName)) = true
    · rw [if_pos hskip, if_pos hskip]
      exact ih self
    · rw [if_neg hskip, if_neg hskip]
      generalize call.invoke self.memory rawData = invoked
      obtain ⟨memory, call⟩ := invoked
      cases hone : ingestOne self.context key call with
      | mk context stop =>
        cases stop with
        | none => simpa only [hone] using ih ⟨memory, context⟩
        | some reason => simp only [hone]

namespace GuestCall

variable {self : GuestCall} {mem left : GuestMemory} {rawData : Bytes} {outputLen : ℕ}

/-- The mapper accepts the raw data, and leaves this memory with this length of its output. -/
def Reports (self : GuestCall) (mem : GuestMemory) (rawData : Bytes) (left : GuestMemory) (outputLen : ℕ) : Prop :=
  ∃ found lenBytes, (mem.write inputOffset rawData).bind (·.write outputLenOffset (leBytes 4 0)) = some found ∧
    self.mapper.call found inputOffset rawData.length outputOffset outputLenOffset = (left, some 0) ∧
    left.read outputLenOffset 4 = some lenBytes ∧ leNat lenBytes = outputLen

theorem invoke_writeFails (self : GuestCall) (mem : GuestMemory) (rawData : Bytes) :
    (self.invoke mem rawData).2.writeFails = false ↔
      inputOffset + rawData.length ≤ mem.size ∧ outputLenOffset + 4 ≤ mem.size := by
  unfold invoke
  cases hinput : mem.write inputOffset rawData with
  | none => exact iff_of_false nofun fun hfits => LinearMemory.not_fits_of_write hinput hfits.1
  | some mem₁ =>
    have hsize := LinearMemory.size_write hinput
    rw [and_iff_right (LinearMemory.write_some hinput).1]
    simp only
    cases hlen : mem₁.write outputLenOffset (leBytes 4 0) with
    | none =>
      have hshort := LinearMemory.not_fits_of_write hlen
      rw [length_leBytes, hsize] at hshort
      exact iff_of_false nofun hshort
    | some mem₂ =>
      have hfits := (LinearMemory.write_some hlen).1
      rw [length_leBytes, hsize] at hfits
      refine iff_of_true ?_ hfits
      simp only
      split
      · rfl
      · split
        · rfl
        · split <;> rfl

/-- A round that cannot end the session: what the host writes and reads lies in the memory, and what it reads it can
copy and stamp. -/
structure Fits (call : GuestCall) (ctx : Context std.wyhash) (key : ForwardKey) (mem : GuestMemory) (rawData : Bytes) :
    Prop where
  input : inputOffset + rawData.length ≤ mem.size
  length : outputLenOffset + 4 ≤ mem.size
  output : ∀ left outputLen, call.Reports mem rawData left outputLen → outputOffset + outputLen ≤ left.size
  copied : ∀ left outputLen, call.Reports mem rawData left outputLen → call.readFails = false
  stamped : ∀ left outputLen, call.Reports mem rawData left outputLen →
    (bufPrintStoreKey ctx.namespaceId key.entity key.component).isSome → (ctx.clock.sendWithWall call.wallNow).isSome

variable {ctx : Context std.wyhash} {key : ForwardKey}

theorem ingestMapped_none_iff (call : MapperCall) (mapped : Bytes) : (ingestMapped ctx key call mapped).2 = none ↔
    ((bufPrintStoreKey ctx.namespaceId key.entity key.component).isSome →
      (ctx.clock.sendWithWall call.wallNow).isSome) := by
  unfold ingestMapped
  cases hkey : bufPrintStoreKey ctx.namespaceId key.entity key.component with
  | none => exact iff_of_true rfl nofun
  | some storeKey =>
    cases hsend : ctx.clock.sendWithWall call.wallNow with
    | none => exact iff_of_false nofun fun h => nomatch h rfl
    | some event =>
      obtain ⟨ts, clock⟩ := event
      refine iff_of_true ?_ fun _ => rfl
      simp only
      split
      · rfl
      · rfl
      · split <;> rfl

/-- There is at most one report. -/
theorem Reports.unique {left' : GuestMemory} {outputLen' : ℕ} (h : self.Reports mem rawData left outputLen)
    (h' : self.Reports mem rawData left' outputLen') : left' = left ∧ outputLen' = outputLen := by
  obtain ⟨found, lenBytes, hfound, hcall, hread, rfl⟩ := h
  obtain ⟨found', lenBytes', hfound', hcall', hread', rfl⟩ := h'
  obtain rfl := Option.some.inj (hfound.symm.trans hfound')
  obtain ⟨rfl, -⟩ := Prod.mk.inj (hcall.symm.trans hcall')
  exact ⟨rfl, by rw [Option.some.inj (hread.symm.trans hread')]⟩

/-- Without a report there is nothing more to read. -/
theorem fits_of_silent (hinput : inputOffset + rawData.length ≤ mem.size) (hlength : outputLenOffset + 4 ≤ mem.size)
    (h : ∀ left outputLen, ¬ self.Reports mem rawData left outputLen) : self.Fits ctx key mem rawData :=
  ⟨hinput, hlength, fun left n hn => absurd hn (h left n), fun left n hn => absurd hn (h left n),
    fun left n hn => absurd hn (h left n)⟩

theorem fits_iff_of_reports (hinput : inputOffset + rawData.length ≤ mem.size)
    (hlength : outputLenOffset + 4 ≤ mem.size) (h : self.Reports mem rawData left outputLen) :
    self.Fits ctx key mem rawData ↔ outputOffset + outputLen ≤ left.size ∧ self.readFails = false ∧
      ((bufPrintStoreKey ctx.namespaceId key.entity key.component).isSome →
        (ctx.clock.sendWithWall self.wallNow).isSome) := by
  constructor
  · intro hfits
    exact ⟨hfits.output left _ h, hfits.copied left _ h, hfits.stamped left _ h⟩
  · rintro ⟨hroom, hcopied, hstamped⟩
    refine ⟨hinput, hlength, fun left' n hn => ?_, fun _ _ _ => hcopied, fun _ _ _ => hstamped⟩
    obtain ⟨rfl, rfl⟩ := h.unique hn
    exact hroom

/-- The mapper has accepted the raw data. -/
theorem ingestOne_accepted_none_iff {found : GuestMemory} {lenBytes : Bytes}
    (hfound : (mem.write inputOffset rawData).bind (·.write outputLenOffset (leBytes 4 0)) = some found)
    (hcall : self.mapper.call found inputOffset rawData.length outputOffset outputLenOffset = (left, some 0))
    (hread : left.read outputLenOffset 4 = some lenBytes) :
    (ingestOne ctx key (self.invoke mem rawData).2).2 = none ↔
      outputOffset + leNat lenBytes ≤ left.size ∧ self.readFails = false ∧
        ((bufPrintStoreKey ctx.namespaceId key.entity key.component).isSome →
          (ctx.clock.sendWithWall self.wallNow).isSome) := by
  obtain ⟨mem₁, hinput, hlen⟩ := Option.bind_eq_some_iff.mp hfound
  simp only [invoke, hinput, hlen, hcall, if_neg (not_not_intro (rfl : (0 : UInt32) = 0)), readOutput, hread,
    Option.bind_some]
  by_cases hroom : outputOffset + leNat lenBytes ≤ left.size
  · rw [LinearMemory.read_of_le hroom, and_iff_right hroom]
    by_cases hcopied : self.readFails = true
    · refine iff_of_false (fun hnone => ?_) fun h => ?_
      · simp only [ends, ingestOne, hcopied, if_true] at hnone
        cases hnone
      · rw [h.1] at hcopied
        cases hcopied
    · have hcopied : self.readFails = false := Bool.eq_false_iff.mpr hcopied
      simp only [ends, ingestOne, hcopied]
      exact (ingestMapped_none_iff _ _).trans (and_iff_right trivial).symm
  · rw [LinearMemory.read, if_neg hroom]
    exact iff_of_false (Option.some_ne_none (Stop.error .guest)) fun h => hroom h.1

/-- **When a round ends the session.**  Everything else that goes wrong in it is passed over. -/
theorem ingestOne_invoke_none_iff (self : GuestCall) (mem : GuestMemory) (rawData : Bytes) :
    (ingestOne ctx key (self.invoke mem rawData).2).2 = none ↔ self.Fits ctx key mem rawData := by
  by_cases hfits : inputOffset + rawData.length ≤ mem.size ∧ outputLenOffset + 4 ≤ mem.size
  · obtain ⟨hinput, hlength⟩ := hfits
    obtain ⟨mem₁, hmem₁⟩ := LinearMemory.write_isSome hinput
    have hsize₁ := LinearMemory.size_write hmem₁
    obtain ⟨found, hmem₂⟩ : ∃ found, mem₁.write outputLenOffset (leBytes 4 0) = some found :=
      LinearMemory.write_isSome (by rw [length_leBytes, hsize₁]; exact hlength)
    have hsize := (LinearMemory.size_write hmem₂).trans hsize₁
    have hfound : (mem.write inputOffset rawData).bind (·.write outputLenOffset (leBytes 4 0)) = some found := by
      rw [hmem₁, Option.bind_some, hmem₂]
    have hgrows := self.mapper.grows found inputOffset rawData.length outputOffset outputLenOffset
    cases hcall : self.mapper.call found inputOffset rawData.length outputOffset outputLenOffset with
    | mk left status =>
      have hstatus {left' : GuestMemory} {outputLen : ℕ} (h : self.Reports mem rawData left' outputLen) :
          some 0 = status := by
        obtain ⟨found', lenBytes, hwritten, hreturns, -⟩ := h
        obtain rfl := Option.some.inj (hfound.symm.trans hwritten)
        exact (Prod.mk.inj (hreturns.symm.trans hcall)).2
      rw [hcall] at hgrows
      cases status with
      | none =>
        simp only [invoke, hmem₁, hmem₂, hcall]
        exact iff_of_true rfl (fits_of_silent hinput hlength fun _ _ h => Option.some_ne_none 0 (hstatus h))
      | some status =>
        by_cases hzero : status = 0
        · subst hzero
          have hread := LinearMemory.read_of_le (hlength.trans (hsize ▸ hgrows))
          rw [ingestOne_accepted_none_iff hfound hcall hread,
            fits_iff_of_reports hinput hlength ⟨found, _, hfound, hcall, hread, rfl⟩]
        · simp only [invoke, hmem₁, hmem₂, hcall, if_pos hzero]
          exact iff_of_true rfl
            (fits_of_silent hinput hlength fun _ _ h => hzero (Option.some.inj (hstatus h)).symm)
  · refine iff_of_false (fun hnone => hfits ?_) fun h : self.Fits ctx key mem rawData => hfits ⟨h.input, h.length⟩
    rw [← invoke_writeFails self]
    unfold ingestOne at hnone
    by_cases hwrite : (self.invoke mem rawData).2.writeFails = true
    · rw [if_pos hwrite] at hnone
      cases hnone
    · exact Bool.eq_false_iff.mpr hwrite

end GuestCall

/-! ## A poll -/

/-- A WebSocket or HTTP source when the poll comes to it: its name, what waits in its slot, and the rounds that it would
take. -/
structure PolledSource where
  sourceName : Bytes
  data : Option Bytes
  rounds : List (ForwardKey × GuestCall)

/-- A poll in progress. -/
structure Poll (std : StdLib) where
  session : SessionState std
  workDone : Bool
  /-- what has been given to `ingestSourceData`, with the names of the sources; not in the source -/
  ingested : List (Bytes × Bytes)

namespace PolledSource

def cleared (self : PolledSource) : PolledSource := { self with data := none }

/-- What waits, with the name of the source. -/
def waiting (self : PolledSource) : Option (Bytes × Bytes) := self.data.map fun rawData => (self.sourceName, rawData)

end PolledSource

/-- The turn of one source.  When ingestion fails, the payload stays in its slot. -/
def pollSource (poll : Poll std) (source : PolledSource) : Poll std × PolledSource × Option Stop :=
  match source.data with
  | none => (poll, source, none)
  | some rawData =>
    match poll.session.ingestSourceData source.sourceName rawData source.rounds with
    | (session, some stop) => (⟨session, true, poll.ingested ++ [(source.sourceName, rawData)]⟩, source, some stop)
    | (session, none) => (⟨session, true, poll.ingested ++ [(source.sourceName, rawData)]⟩, source.cleared, none)

/-- The sources of one kind, one after the other. -/
def pollEach (poll : Poll std) : List PolledSource → Poll std × List PolledSource × Option Stop
  | [] => (poll, [], none)
  | source :: rest =>
    match pollSource poll source with
    | (poll, source, some stop) => (poll, source :: rest, some stop)
    | (poll, source, none) =>
      match pollEach poll rest with
      | (poll, rest, stop) => (poll, source :: rest, stop)

/-- How a poll ends. -/
structure Polled (std : StdLib) where
  poll : Poll std
  wsSources : List PolledSource
  httpSources : List PolledSource
  stop : Option Stop

/-- The WebSocket sources, then the HTTP sources. -/
def pollSources (session : SessionState std) (wsSources httpSources : List PolledSource) : Polled std :=
  match pollEach ⟨session, false, []⟩ wsSources with
  | (poll, wsSources, some stop) => ⟨poll, wsSources, httpSources, some stop⟩
  | (poll, wsSources, none) =>
    match pollEach poll httpSources with
    | (poll, httpSources, stop) => ⟨poll, wsSources, httpSources, stop⟩

/-- A round, with what it starts from. -/
structure Visit (std : StdLib) where
  session : SessionState std
  sourceName : Bytes
  rawData : Bytes
  key : ForwardKey
  call : GuestCall

/-- The session behind a source, whatever becomes of its rounds. -/
def SessionState.after (self : SessionState std) (source : PolledSource) : SessionState std :=
  source.data.elim self fun rawData => (self.ingestSourceData source.sourceName rawData source.rounds).1

def SessionState.visitsOf (self : SessionState std) (source : PolledSource) : List (Visit std) :=
  source.data.elim [] fun rawData => (met (ingestRound source.sourceName rawData) self source.rounds).map
    fun p => ⟨p.1, source.sourceName, rawData, p.2.1, p.2.2⟩

/-- The rounds of all payloads that wait. -/
def SessionState.visits (self : SessionState std) : List PolledSource → List (Visit std)
  | [] => []
  | source :: rest => self.visitsOf source ++ (self.after source).visits rest

/-- If the round is one of the source, it cannot end the session. -/
def Visit.Absorbed (self : Visit std) : Prop :=
  (∃ forward, self.session.context.graph.forward.lookup self.key = some forward ∧
    forward.source = self.sourceName) →
  self.call.Fits self.session.context self.key self.session.memory self.rawData

theorem ingestRound_none_iff (sourceName rawData : Bytes) (self : SessionState std) (round : ForwardKey × GuestCall) :
    (ingestRound sourceName rawData self round).2 = none ↔
      (⟨self, sourceName, rawData, round.1, round.2⟩ : Visit std).Absorbed := by
  obtain ⟨key, call⟩ := round
  have hsource :
      ((self.context.graph.forward.lookup key).all fun entry => decide (entry.source ≠ sourceName)) = true ↔
        ¬ ∃ forward, self.context.graph.forward.lookup key = some forward ∧ forward.source = sourceName := by
    cases self.context.graph.forward.lookup key <;> simp
  unfold ingestRound Visit.Absorbed
  by_cases hskip :
      ((self.context.graph.forward.lookup key).all fun entry => decide (entry.source ≠ sourceName)) = true
  · rw [if_pos hskip]
    exact iff_of_true rfl fun hmapped => absurd hmapped (hsource.mp hskip)
  · rw [if_neg hskip, imp_iff_right (not_not.mp fun hnot => hskip (hsource.mpr hnot)),
      ← GuestCall.ingestOne_invoke_none_iff]

theorem SessionState.visits_append (self : SessionState std) (sources rest : List PolledSource) :
    self.visits (sources ++ rest) = self.visits sources ++ (sources.foldl SessionState.after self).visits rest := by
  induction sources generalizing self with
  | nil => rfl
  | cons source sources ih => rw [List.cons_append, visits, visits, ih, List.append_assoc, List.foldl_cons]

/-- What a poll has done when it has come to the end of some sources. -/
def Poll.done (self : Poll std) (sources : List PolledSource) : Poll std where
  session := sources.foldl SessionState.after self.session
  workDone := self.workDone || sources.any (·.data.isSome)
  ingested := self.ingested ++ sources.filterMap PolledSource.waiting

theorem Poll.done_done (self : Poll std) (sources rest : List PolledSource) :
    (self.done sources).done rest = self.done (sources ++ rest) := by
  simp [done, Bool.or_assoc]

theorem pollSource_none_iff (poll : Poll std) (source : PolledSource) :
    (pollSource poll source).2.2 = none ↔ ∀ v ∈ poll.session.visitsOf source, v.Absorbed := by
  obtain ⟨sourceName, data, rounds⟩ := source
  cases data with
  | none => exact iff_of_true rfl (List.forall_mem_nil _)
  | some rawData =>
    have hrounds : (poll.session.ingestSourceData sourceName rawData rounds).2 = none ↔
        ∀ v ∈ poll.session.visitsOf ⟨sourceName, some rawData, rounds⟩, v.Absorbed := by
      rw [SessionState.ingestSourceData, runUntil_none_iff, SessionState.visitsOf, Option.elim_some,
        List.forall_mem_map]
      exact forall₂_congr fun p _ => ingestRound_none_iff sourceName rawData p.1 p.2
    rw [← hrounds]
    simp only [pollSource]
    cases poll.session.ingestSourceData sourceName rawData rounds with
    | mk session stop => cases stop <;> rfl

theorem pollSource_session (poll : Poll std) (source : PolledSource) :
    (pollSource poll source).1.session = poll.session.after source := by
  obtain ⟨sourceName, data, rounds⟩ := source
  cases data with
  | none => rfl
  | some rawData =>
    simp only [pollSource, SessionState.after, Option.elim_some]
    cases poll.session.ingestSourceData sourceName rawData rounds with
    | mk session stop => cases stop <;> rfl

theorem pollSource_of_none {poll : Poll std} {source : PolledSource} (h : (pollSource poll source).2.2 = none) :
    pollSource poll source = (poll.done [source], source.cleared, none) := by
  have hsession := pollSource_session poll source
  obtain ⟨sourceName, data, rounds⟩ := source
  cases data with
  | none =>
    have hnothing : poll.done [⟨sourceName, none, rounds⟩] = poll := by
      rw [Poll.done, List.filterMap_cons_none rfl, List.filterMap_nil, List.append_nil, List.any_cons, List.any_nil]
      simp [SessionState.after]
    rw [hnothing]
    rfl
  | some rawData =>
    simp only [pollSource] at h hsession ⊢
    cases hended : poll.session.ingestSourceData sourceName rawData rounds with
    | mk session stop =>
      rw [hended] at h hsession
      cases stop with
      | some reason => cases h
      | none => simp [Poll.done, PolledSource.waiting, ← hsession]

/-- An error at one source is the error of the poll. -/
theorem pollEach_cons_some {poll : Poll std} {source : PolledSource} {reason : Stop}
    (h : (pollSource poll source).2.2 = some reason) (rest : List PolledSource) :
    (pollEach poll (source :: rest)).2.2 = some reason := by
  rw [pollEach]
  generalize pollSource poll source = ended at h
  obtain ⟨poll, source, stop⟩ := ended
  obtain rfl : stop = some reason := h
  rfl

theorem pollEach_cons_none {poll : Poll std} {source : PolledSource} (h : (pollSource poll source).2.2 = none)
    (rest : List PolledSource) : pollEach poll (source :: rest) =
      ((pollEach (poll.done [source]) rest).1, source.cleared :: (pollEach (poll.done [source]) rest).2.1,
        (pollEach (poll.done [source]) rest).2.2) := by
  rw [pollEach, pollSource_of_none h]

/-- **The sources of one kind are all served iff no round ends the session.** -/
theorem pollEach_none_iff (poll : Poll std) (sources : List PolledSource) :
    (pollEach poll sources).2.2 = none ↔ ∀ v ∈ poll.session.visits sources, v.Absorbed := by
  induction sources generalizing poll with
  | nil => exact iff_of_true rfl (List.forall_mem_nil _)
  | cons source rest ih =>
    rw [SessionState.visits, List.forall_mem_append, ← pollSource_none_iff]
    cases hstop : (pollSource poll source).2.2 with
    | none =>
      rw [pollEach_cons_none hstop, and_iff_right rfl]
      exact ih (poll.done [source])
    | some reason =>
      rw [pollEach_cons_some hstop]
      exact iff_of_false (Option.some_ne_none _) fun h => Option.some_ne_none _ h.1

/-- A poll that is not ended has emptied every slot and given everything that waited to ingestion. -/
theorem pollEach_of_none {poll : Poll std} {sources : List PolledSource} (h : (pollEach poll sources).2.2 = none) :
    pollEach poll sources = (poll.done sources, sources.map PolledSource.cleared, none) := by
  induction sources generalizing poll with
  | nil => simp [pollEach, Poll.done]
  | cons source rest ih =>
    cases hstop : (pollSource poll source).2.2 with
    | none =>
      rw [pollEach_cons_none hstop] at h ⊢
      rw [ih h, Poll.done_done]
      rfl
    | some reason =>
      rw [pollEach_cons_some hstop] at h
      cases h

theorem pollSources_some {session : SessionState std} {wsSources : List PolledSource} {reason : Stop}
    (h : (pollEach ⟨session, false, []⟩ wsSources).2.2 = some reason) (httpSources : List PolledSource) :
    (pollSources session wsSources httpSources).stop = some reason := by
  rw [pollSources]
  generalize pollEach ⟨session, false, []⟩ wsSources = ended at h
  obtain ⟨poll, slots, stop⟩ := ended
  obtain rfl : stop = some reason := h
  rfl

/-- **A poll returns without an error iff no round of it ends the session.** -/
theorem pollSources_stop_none_iff (session : SessionState std) (wsSources httpSources : List PolledSource) :
    (pollSources session wsSources httpSources).stop = none ↔
      ∀ v ∈ session.visits (wsSources ++ httpSources), v.Absorbed := by
  rw [SessionState.visits_append, List.forall_mem_append]
  have hws := pollEach_none_iff ⟨session, false, []⟩ wsSources
  cases hstop : (pollEach ⟨session, false, []⟩ wsSources).2.2 with
  | none =>
    rw [pollSources, pollEach_of_none hstop, ← hws, and_iff_right hstop]
    exact pollEach_none_iff (Poll.done ⟨session, false, []⟩ wsSources) httpSources
  | some reason =>
    rw [hstop] at hws
    rw [pollSources_some hstop]
    exact iff_of_false (Option.some_ne_none _) fun h => Option.some_ne_none _ (hws.mpr h.1)

theorem pollSources_of_none {session : SessionState std} {wsSources httpSources : List PolledSource}
    (h : (pollSources session wsSources httpSources).stop = none) :
    pollSources session wsSources httpSources = ⟨Poll.done ⟨session, false, []⟩ (wsSources ++ httpSources),
      wsSources.map PolledSource.cleared, httpSources.map PolledSource.cleared, none⟩ := by
  cases hstop : (pollEach ⟨session, false, []⟩ wsSources).2.2 with
  | some reason =>
    rw [pollSources_some hstop] at h
    cases h
  | none =>
    rw [pollSources, pollEach_of_none hstop] at h ⊢
    simp only at h ⊢
    rw [pollEach_of_none h, Poll.done_done]

/-! ## The loop of a session -/

/-- What one turn of `runForever` does not decide. -/
structure Turn where
  /-- what other sessions have made of the log since the last turn -/
  others : Wal.Live → Wal.Live
  wsSources : List PolledSource
  httpSources : List PolledSource
  env : Environment
  /-- what the rules leave in the memory -/
  rules : GuestMemory → GuestMemory
  /-- how an idle turn ends -/
  yields : Option Stop

/-- How a turn ends, by what `step` returns. -/
def Turn.outcome (self : Turn) : Except Stop Bool → Option Stop
  | .error stop => some stop
  | .ok true => none
  | .ok false => self.yields

/-- The pending entries of the namespace. -/
def Context.pendingDirtyCount {hash : Bytes → ℕ} (self : Context hash) : ℕ :=
  self.storage.elim 0 fun storage => Wal.pendingCountFor storage (some self.namespaceId)

namespace SessionState

/-- What follows the poll: an inference run if there is dirty work. -/
def infer (self : SessionState std) (turn : Turn) : SessionState std × Except Stop Bool :=
  if self.context.pendingDirtyCount = 0 then (self, .ok false)
  else match runTimed turn.env 10 self.context with
    | (run, result) => (⟨turn.rules self.memory, run.context⟩, result.map fun _ => true)

def step (self : SessionState std) (turn : Turn) : SessionState std × Except Stop Bool :=
  match pollSources self turn.wsSources turn.httpSources with
  | ⟨poll, _, _, some stop⟩ => (poll.session, .error stop)
  | ⟨poll, _, _, none⟩ => poll.session.infer turn

/-- The session when a turn begins. -/
def found (self : SessionState std) (turn : Turn) : SessionState std :=
  { self with context := { self.context with storage := self.context.storage.map turn.others } }

def takeTurn (self : SessionState std) (turn : Turn) : SessionState std × Option Stop :=
  match (self.found turn).step turn with
  | (self, result) => (self, turn.outcome result)

/-- Turn after turn, until the session is asked to stop behind the last one. -/
def runForever (self : SessionState std) (turns : List Turn) : SessionState std × Option Stop :=
  runUntil takeTurn self turns

end SessionState

/-- A poll that has returned without an error, with every slot empty and everything that waited given to ingestion; the
turn goes on. -/
structure Served (session : SessionState std) (turn : Turn) : Prop where
  stop : (pollSources session turn.wsSources turn.httpSources).stop = none
  wsSources : (pollSources session turn.wsSources turn.httpSources).wsSources =
    turn.wsSources.map PolledSource.cleared
  httpSources : (pollSources session turn.wsSources turn.httpSources).httpSources =
    turn.httpSources.map PolledSource.cleared
  ingested : (pollSources session turn.wsSources turn.httpSources).poll.ingested =
    (turn.wsSources ++ turn.httpSources).filterMap PolledSource.waiting
  continues : session.step turn =
    (pollSources session turn.wsSources turn.httpSources).poll.session.infer turn

/-- **When a poll serves every source.** -/
theorem served_iff (session : SessionState std) (turn : Turn) :
    Served session turn ↔ ∀ v ∈ session.visits (turn.wsSources ++ turn.httpSources), v.Absorbed := by
  rw [← pollSources_stop_none_iff]
  refine ⟨Served.stop, fun hstop => ?_⟩
  have hpoll := pollSources_of_none hstop
  refine ⟨hstop, by rw [hpoll], by rw [hpoll], by rw [hpoll]; rfl, ?_⟩
  rw [SessionState.step, hpoll]

/-- **An error of a poll ends the session.** -/
theorem runForever_of_poll {self session : SessionState std} {before : List Turn} {reason : Stop}
    (hbefore : self.runForever before = (session, none)) (turn : Turn)
    (hpoll : (pollSources (session.found turn) turn.wsSources turn.httpSources).stop = some reason)
    (rest : List Turn) : (self.runForever (before ++ turn :: rest)).2 = some reason := by
  have hturn : (session.takeTurn turn).2 = some reason := by
    unfold SessionState.takeTurn SessionState.step
    generalize pollSources (session.found turn) turn.wsSources turn.httpSources = polled at hpoll
    obtain ⟨poll, wsSources, httpSources, stop⟩ := polled
    obtain rfl : stop = some reason := hpoll
    rfl
  rw [SessionState.runForever, runUntil_append_none hbefore, runUntil_cons_some hturn]

/-- **When payloads do not stop a session**, in runs of any turns: every poll serves every source, and the turn ends as
the inference behind the poll does. -/
theorem payloads_absorbed_iff (self : SessionState std) (turns : List Turn) :
    (∀ before turn session, before ++ [turn] <+: turns → self.runForever before = (session, none) →
      Served (session.found turn) turn ∧ (self.runForever (before ++ [turn])).2 = turn.outcome
        ((pollSources (session.found turn) turn.wsSources turn.httpSources).poll.session.infer turn).2) ↔
    ∀ before turn session, before ++ [turn] <+: turns → self.runForever before = (session, none) →
      ∀ v ∈ (session.found turn).visits (turn.wsSources ++ turn.httpSources), v.Absorbed := by
  constructor
  · intro h before turn session hturns hbefore
    exact (served_iff _ turn).mp (h before turn session hturns hbefore).1
  · intro h before turn session hturns hbefore
    have hserved := (served_iff _ turn).mpr (h before turn session hturns hbefore)
    have hrun : self.runForever (before ++ [turn]) = session.takeTurn turn :=
      (runUntil_append_none hbefore [turn]).trans (runUntil_singleton _ session turn)
    refine ⟨hserved, ?_⟩
    rw [hrun, SessionState.takeTurn, hserved.continues]

/-- A payload that does not fit the one page of a memory: what waits behind it is left, and the session ends. -/
theorem long_payload_ends_session (rawData : Bytes) (hlong : 55536 < rawData.length) :
    let session : SessionState StdLib.fragment :=
      ⟨exampleMemory, ModuleSession.init StdLib.fragment exampleConfig exampleLive⟩
    let wsSources : List PolledSource := [⟨[], some rawData, [(⟨1, 2⟩, exampleGuestCall)]⟩]
    let httpSources : List PolledSource := [⟨[97], some [49], []⟩]
    pollSources session wsSources httpSources =
        ⟨⟨session, true, [([], rawData)]⟩, wsSources, httpSources, some (.error .guest)⟩ ∧
      ∀ env rest, (session.runForever (⟨id, wsSources, httpSources, env, id, none⟩ :: rest)).2 =
        some (.error .guest) := by
  intro session wsSources httpSources
  have hwrite : exampleMemory.write inputOffset rawData = none := by
    refine dif_neg fun hfits => ?_
    have hsize : exampleMemory.cells.length = 65536 := List.length_replicate
    rw [hsize, inputOffset] at hfits
    omega
  have hinvoke : exampleGuestCall.invoke exampleMemory rawData = (exampleMemory, exampleGuestCall.ends true .trap) := by
    rw [GuestCall.invoke, hwrite]
  obtain ⟨forward, hforward, hsource⟩ : ∃ forward,
      session.context.graph.forward.lookup ⟨1, 2⟩ = some forward ∧ forward.source = [] := ⟨_, rfl, rfl⟩
  have hround : ingestRound [] rawData session (⟨1, 2⟩, exampleGuestCall) = (session, some (.error .guest)) := by
    rw [ingestRound, hforward, if_neg (by simp [hsource]), hinvoke]
    rfl
  have hingest : session.ingestSourceData [] rawData [(⟨1, 2⟩, exampleGuestCall)] =
      (session, some (.error .guest)) := by
    rw [SessionState.ingestSourceData, runUntil, hround]
  have hpoll : pollSources session wsSources httpSources =
      ⟨⟨session, true, [([], rawData)]⟩, wsSources, httpSources, some (.error .guest)⟩ := by
    simp only [pollSources, wsSources, pollEach, pollSource, hingest, List.nil_append]
  refine ⟨hpoll, fun env rest => ?_⟩
  have hbefore : session.runForever [] = (session, none) := rfl
  have hfound : session.found ⟨id, wsSources, httpSources, env, id, none⟩ = session := rfl
  have hstop := congrArg Polled.stop hpoll
  rw [← hfound] at hstop
  exact runForever_of_poll hbefore ⟨id, wsSources, httpSources, env, id, none⟩ hstop rest

/-- A payload of 55537 bytes. -/
theorem payload_ends_session :
    let session : SessionState StdLib.fragment :=
      ⟨exampleMemory, ModuleSession.init StdLib.fragment exampleConfig exampleLive⟩
    let rawData := List.replicate 55537 49
    let wsSources : List PolledSource := [⟨[], some rawData, [(⟨1, 2⟩, exampleGuestCall)]⟩]
    let httpSources : List PolledSource := [⟨[97], some [49], []⟩]
    pollSources session wsSources httpSources =
        ⟨⟨session, true, [([], rawData)]⟩, wsSources, httpSources, some (.error .guest)⟩ ∧
      ∀ env rest, (session.runForever (⟨id, wsSources, httpSources, env, id, none⟩ :: rest)).2 =
        some (.error .guest) :=
  long_payload_ends_session _ (by rw [List.length_replicate]; decide)

end Slung
