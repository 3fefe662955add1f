import Slung.Engine.AllOrNothing

/-!
# Slung.Wasm.HostAbi.ReadBack — reading back what was set

A write keeps its value twice: parsed, in the store, and as the text that the guest gave, in the cascade and so
in the log.  A read serves either.  The text of a string is its content with quotes; the store keeps the content
and `renderValue` does not put the quotes back.
-/

namespace Slung

open Slung.Lib

variable {std : StdLib}

/-- A read gives the guest a text of the value. -/
def ReadsBack (ctx : Context std.wyhash) (entity : EntityId) (component : ComponentId) (value : JsonValue) :
    Prop :=
  ∃ bytes, slungGet std ctx entity component [] = (.status 0, some bytes) ∧
    std.parseFromSlice bytes = some value

/-- The two paths of a read. -/
theorem slungGet_of_cached {ctx : Context std.wyhash} {entity : EntityId} {component : ComponentId}
    {key : Bytes} {entry : LwwRegistry.Entry} (hkey : bufPrintKey ctx.namespaceId entity component = some key)
    (hentry : ctx.lwwStore.get key = some entry) :
    slungGet std ctx entity component [] = (.status 0, some (renderValue std entry.value)) := by
  rw [slungGet_observed, Context.observed, hkey]
  simp only [Option.bind_some, hentry]

theorem slungGet_of_persisted {ctx : Context std.wyhash} {entity : EntityId} {component : ComponentId}
    {key : Bytes} {fact : Wal.Fact} (hkey : bufPrintKey ctx.namespaceId entity component = some key)
    (habsent : ctx.lwwStore.get key = none) (hfact : ctx.loadFact entity component = some fact) :
    slungGet std ctx entity component [] = (.status 0, some fact.value) := by
  rw [slungGet_observed, Context.observed, hkey]
  simp only [Option.bind_some, habsent, hfact, Option.map_some, renderValue]

/-- What the guest gets from the store for a text is a text of the same value, unless it is a string. -/
theorem parse_renderValue_iff (hstd : std.Lawful) {t : Bytes} {value : JsonValue}
    (ht : std.parseFromSlice t = some value) :
    std.parseFromSlice (renderValue std (cachedValue value t)) = some value ↔ ∀ s, value ≠ .string s := by
  cases value with
  | string s =>
    refine ⟨fun h => ?_, fun h => absurd rfl (h s)⟩
    -- the content would be a text of itself
    have hlong := hstd.quoted s s h
    omega
  | bool b => exact ⟨fun _ => nofun, fun _ => hstd.inverse t _ ht⟩
  | integer i => exact ⟨fun _ => nofun, fun _ => hstd.inverse t _ ht⟩
  | float f => exact ⟨fun _ => nofun, fun _ => hstd.inverse t _ ht⟩
  | null => exact ⟨fun _ => nofun, fun _ => ht⟩
  | numberString s => exact ⟨fun _ => nofun, fun _ => ht⟩
  | array items => exact ⟨fun _ => nofun, fun _ => ht⟩
  | object fields => exact ⟨fun _ => nofun, fun _ => ht⟩

section

variable {ctx₀ flushed restarted : Context std.wyhash} {live : Wal.Live} {claims : ClaimRegister} {run : Run std}
  {ackId : ℤ} {entity : EntityId} {component : ComponentId} {w : Write}

theorem lastWrite_component {writes : List Write} (h : lastWrite writes entity component = some w) :
    w.entity = entity ∧ w.component = component :=
  of_decide_eq_true (List.mem_filter.mp (List.mem_of_getLast? h)).2

/-- The log has the text of the last write. -/
theorem loadFact_flushed (h : InRun ctx₀ live claims run) (hw : Written run)
    (hlast : lastWrite run.writes entity component = some w)
    (hflush : run.context.flushCascade none ackId = .ok flushed)
    (hstorage : restarted.storage = flushed.storage)
    (hns : restarted.namespaceId = run.context.namespaceId) :
    ∃ fact, restarted.loadFact entity component = some fact ∧ fact.value = w.value := by
  rw [← hw] at hlast
  obtain ⟨fact, hfact, hvalue, -⟩ := h.getFact_checkpoint hlast
  refine ⟨fact, ?_, hvalue⟩
  simp only [Context.flushCascade, h.storage] at hflush
  rw [Context.loadFact, hstorage, hns, h.namespaceId, ← Except.ok.inj hflush]
  exact hfact

/-- **A component reads back as it was set iff it was not set to a string.**  At any point of a run the store
serves the last write of a component; once the cascade is flushed, the log serves it to a session that does not
have the key. -/
theorem set_reads_back_iff (hstd : std.Lawful) (h : InRun ctx₀ live claims run) (hw : Written run)
    (hlast : lastWrite run.writes entity component = some w)
    (hflush : run.context.flushCascade none ackId = .ok flushed)
    (hstorage : restarted.storage = flushed.storage)
    (hns : restarted.namespaceId = run.context.namespaceId)
    (habsent : restarted.lwwStore.get (formatKey restarted.namespaceId entity component) = none) :
    (∃ value, std.parseFromSlice w.value = some value ∧ ReadsBack run.context entity component value ∧
      ReadsBack restarted entity component value) ↔
        ∀ s, std.parseFromSlice w.value ≠ some (.string s) := by
  obtain ⟨rfl, rfl⟩ := lastWrite_component hlast
  obtain ⟨key, entry, hkey, hentry, hcached⟩ := h.cached w.entity w.component w (by rw [hw]; exact hlast)
  obtain ⟨value, hparse, hvalue⟩ := Option.map_eq_some_iff.mp hcached
  have hget := slungGet_of_cached hkey hentry
  rw [← hvalue] at hget
  have hiff := parse_renderValue_iff hstd hparse
  simp only [hparse, Option.some.injEq, exists_eq_left', ne_eq]
  constructor
  · rintro ⟨⟨bytes, hbytes, hback⟩, -⟩
    rw [hget] at hbytes
    obtain rfl := Option.some.inj (Prod.mk.inj hbytes).2
    exact hiff.mp hback
  · intro hstring
    refine ⟨⟨_, hget, hiff.mpr hstring⟩, ?_⟩
    obtain ⟨fact, hfact, htext⟩ := loadFact_flushed h hw hlast hflush hstorage hns
    rw [← hns] at hkey
    rw [← bufPrint_eq hkey] at habsent
    exact ⟨fact.value, slungGet_of_persisted hkey habsent hfact, by rw [htext]; exact hparse⟩

end

/-- A session sets one component to a text. -/
def exampleSet (text : Bytes) : Run StdLib.fragment × Option Stop :=
  hostCalls ⟨(exampleContext ⟨1, 5, 0⟩).beginCascade, 0, []⟩
    [.set ⟨1, 3, 8, UInt32.ofNat text.length, text, 9, []⟩]

theorem set_reads_back_number :
    ∃ flushed restarted : Context StdLib.fragment.wyhash,
      (exampleSet [49]).1.context.flushCascade none 1 = .ok flushed ∧ restarted.storage = flushed.storage ∧
        ReadsBack (exampleSet [49]).1.context 1 3 (.integer 1) ∧ ReadsBack restarted 1 3 (.integer 1) := by
  have hstop : (exampleSet [49]).2 = none := by decide +kernel
  have hwrites : (exampleSet [49]).1.writes = [⟨1, 3, [49], ⟨9, 0, 1⟩⟩] := by decide +kernel
  have hlast : lastWrite (exampleSet [49]).1.writes 1 3 = some ⟨1, 3, [49], ⟨9, 0, 1⟩⟩ := by
    rw [hwrites]
    decide
  have hstart : InRun (exampleContext ⟨1, 5, 0⟩) exampleLive ∅
      (⟨(exampleContext ⟨1, 5, 0⟩).beginCascade, 0, []⟩ : Run StdLib.fragment) :=
    InCascade.start rfl ⟨rfl, rfl, rfl, rfl⟩ (exampleContext_upToDate (by decide))
  have hcalled := hostCalls_spec hstart rfl
    (show exampleSet [49] = ((exampleSet [49]).1, none) by rw [← hstop])
  have hrun := hcalled.cascade
  obtain ⟨flushed, hflush⟩ : ∃ flushed, (exampleSet [49]).1.context.flushCascade none 1 = .ok flushed := by
    simp [Context.flushCascade, hrun.storage, Storage.flushCascade]
  let restarted : Context StdLib.fragment.wyhash :=
    { (exampleSet [49]).1.context with storage := flushed.storage, lwwStore := LwwRegistry.init }
  have hstorage : restarted.storage = flushed.storage := rfl
  have habsent : restarted.lwwStore.get (formatKey restarted.namespaceId 1 3) = none := by
    rw [LwwRegistry.get_eq]
    simp [restarted, LwwRegistry.init]
  obtain ⟨value, hvalue, hcached, hpersisted⟩ := (set_reads_back_iff StdLib.fragment_lawful hrun
    (hcalled.written rfl) hlast hflush hstorage rfl habsent).mpr fun s hs => by
      cases (show some (JsonValue.integer 1) = some (.string s) from hs)
  obtain rfl : JsonValue.integer 1 = value := Option.some.inj hvalue
  exact ⟨flushed, restarted, hflush, hstorage, hcached, hpersisted⟩

/-- A string comes back without its quotes, which is no JSON. -/
theorem set_reads_back_string :
    StdLib.fragment.Lawful ∧ (exampleSet [34, 97, 34]).2 = none ∧
      (exampleSet [34, 97, 34]).1.writes = [⟨1, 3, [34, 97, 34], ⟨9, 0, 1⟩⟩] ∧
      slungGet _ (exampleSet [34, 97, 34]).1.context 1 3 [] = (.status 0, some [97]) ∧
      ¬ ∃ value, StdLib.fragment.parseFromSlice [34, 97, 34] = some value ∧
        ReadsBack (exampleSet [34, 97, 34]).1.context 1 3 value := by
  have hread : slungGet _ (exampleSet [34, 97, 34]).1.context 1 3 [] = (.status 0, some [97]) := by
    decide +kernel
  refine ⟨StdLib.fragment_lawful, by decide +kernel, by decide +kernel, hread, ?_⟩
  rintro ⟨value, -, bytes, hbytes, hparse⟩
  rw [hread] at hbytes
  obtain rfl := Option.some.inj (Prod.mk.inj hbytes).2
  cases hparse

end Slung
