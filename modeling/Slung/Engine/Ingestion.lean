import Slung.Engine.Restart
import Slung.Sdks.Mapper
import Slung.Wasm.HostAbi.ReadBack

/-!
# Slung.Engine.Ingestion — source data through the memory of the guest (`engine/events.zig`)

The host writes the raw data to one address of the guest's memory and a length of 0 to another one, invokes the
mapper and reads the length and the output back.  `ingestInto` is `ingestSourceData` with this memory
(`ingestInto_ingestSourceData`).  The areas are 10000 bytes apart and nothing checks a length: `received` is what
a mapper finds of the raw data and `returned` what the host finds of an output.
-/

namespace Slung

open Slung.Lib

variable {std : StdLib}

/-! ## The memory -/

def inputOffset : ℕ := 10000

def outputOffset : ℕ := 20000

def outputLenOffset : ℕ := 30000

/-- What one round of `ingestSourceData` does not decide: the mapper, and where it may fail. -/
structure GuestCall where
  mapper : MapperExport
  /-- no memory for what is read -/
  readFails : Bool
  wallNow : UInt64
  persistFails : Option Wal.Err
  put : Option LwwRegistry.PutAlloc

/-- The output, by the length that the guest has left. -/
def readOutput (mem : GuestMemory) : Option Bytes :=
  (mem.read outputLenOffset 4).bind fun outputLenBytes => mem.read outputOffset (leNat outputLenBytes)

namespace GuestCall

def ends (self : GuestCall) (writeFails : Bool) (result : MapperResult) : MapperCall :=
  ⟨writeFails, result, self.wallNow, self.persistFails, self.put⟩

/-- Invoke the mapper on raw data. -/
def invoke (self : GuestCall) (mem : GuestMemory) (rawData : Bytes) : GuestMemory × MapperCall :=
  match mem.write inputOffset rawData with
  | none => (mem, self.ends true .trap)
  | some mem =>
    match mem.write outputLenOffset (leBytes 4 0) with
    | none => (mem, self.ends true .trap)
    | some mem =>
      match self.mapper.call mem inputOffset rawData.length outputOffset outputLenOffset with
      | (mem, none) => (mem, self.ends false .trap)
      | (mem, some status) =>
        if status ≠ 0 then (mem, self.ends false .declined)
        else match readOutput mem with
          | none => (mem, self.ends false (.mapped [] true))
          | some mapped => (mem, self.ends false (.mapped mapped self.readFails))

end GuestCall

/-- Every mapper of the source, in the order of the forward index, on one memory. -/
def ingestInto (sourceName rawData : Bytes) (mem : GuestMemory) (ctx : Context std.wyhash) :
    List (ForwardKey × GuestCall) → Context std.wyhash × Option Stop
  | [] => (ctx, none)
  | (key, call) :: rest =>
    if (ctx.graph.forward.lookup key).all fun entry => entry.source ≠ sourceName then
      ingestInto sourceName rawData mem ctx rest
    else match call.invoke mem rawData with
      | (mem, call) =>
        match ingestOne ctx key call with
        | (ctx, none) => ingestInto sourceName rawData mem ctx rest
        | (ctx, some stop) => (ctx, some stop)

/-- **Ingestion through the memory is ingestion of what the mappers returned.** -/
theorem ingestInto_ingestSourceData (sourceName rawData : Bytes) (mem : GuestMemory) (ctx : Context std.wyhash)
    (calls : List (ForwardKey × GuestCall)) : ∃ mapped, mapped.map Prod.fst = calls.map Prod.fst ∧
      ingestInto sourceName rawData mem ctx calls = ingestSourceData sourceName ctx mapped := by
  induction calls generalizing mem ctx with
  | nil => exact ⟨[], rfl, rfl⟩
  | cons head rest ih =>
    obtain ⟨key, call⟩ := head
    rw [ingestInto]
    by_cases hskip : ((ctx.graph.forward.lookup key).all fun entry => decide (entry.source ≠ sourceName)) = true
    · obtain ⟨mapped, hkeys, heq⟩ := ih mem ctx
      refine ⟨(key, (call.invoke mem rawData).2) :: mapped, ?_, ?_⟩
      · rw [List.map_cons, List.map_cons, hkeys]
      · rw [ingestSourceData, if_pos hskip, if_pos hskip]
        exact heq
    · rw [if_neg hskip]
      generalize call.invoke mem rawData = invoked
      obtain ⟨mem, call⟩ := invoked
      cases hone : ingestOne ctx key call with
      | mk ctx₁ stop =>
        cases stop with
        | none =>
          obtain ⟨mapped, hkeys, heq⟩ := ih mem ctx₁
          refine ⟨(key, call) :: mapped, ?_, ?_⟩
          · rw [List.map_cons, List.map_cons, hkeys]
          · simp only [ingestSourceData, if_neg hskip, hone]
            exact heq
        | some reason =>
          -- nothing is invoked any more
          refine ⟨(key, call) :: rest.map fun p => (p.1, call), ?_, ?_⟩
          · rw [List.map_cons, List.map_cons, List.map_map]
            rfl
          · simp only [ingestSourceData, if_neg hskip, hone]

/-! ## What the mapper finds and what the host finds -/

/-- The raw data as a mapper finds them: the length of 0 is written after them. -/
def received (rawData : Bytes) : Bytes := overlay rawData (outputLenOffset - inputOffset) (leBytes 4 0)

/-- An output as the host finds it: its length is written after it. -/
def returned (out : Bytes) : Bytes := overlay out (outputLenOffset - outputOffset) (leBytes 4 out.length)

theorem received_of_short {rawData : Bytes} (h : rawData.length ≤ 20000) : received rawData = rawData :=
  overlay_of_length_le h _

theorem returned_of_short {out : Bytes} (h : out.length ≤ 10000) : returned out = out :=
  overlay_of_length_le h _

/-- An output without the bytes that its length may replace. -/
def blanked (out : Bytes) : Bytes := overlay out (outputLenOffset - outputOffset) (leBytes 4 0)

/-- An output comes back as another one iff they differ at most where the length goes, and there the other one has its
own length. -/
theorem returned_eq_iff {found out : Bytes} :
    returned found = out ↔ blanked found = blanked out ∧ returned out = out := by
  have hlen : (leBytes 4 0).length = (leBytes 4 out.length).length := by rw [length_leBytes, length_leBytes]
  constructor
  · rintro rfl
    have hsize : (returned found).length = found.length := length_overlay _ _ _
    constructor
    · exact (overlay_overlay found _ (by rw [length_leBytes, length_leBytes])).symm
    · rw [returned, hsize]
      exact overlay_overlay found _ rfl
  · rintro ⟨hblanked, hout⟩
    have hsize : found.length = out.length := by
      have := congrArg List.length hblanked
      rwa [blanked, blanked, length_overlay, length_overlay] at this
    calc returned found = overlay found (outputLenOffset - outputOffset) (leBytes 4 out.length) := by
          rw [returned, hsize]
      _ = overlay (blanked found) (outputLenOffset - outputOffset) (leBytes 4 out.length) :=
          (overlay_overlay found _ hlen).symm
      _ = overlay (blanked out) (outputLenOffset - outputOffset) (leBytes 4 out.length) := by rw [hblanked]
      _ = returned out := overlay_overlay out _ hlen
      _ = out := hout

/-- What a mapper of an SDK makes of raw data. -/
def SdkMapper.result {T : Type} (self : SdkMapper T) (readFails : Bool) (rawData : Bytes) : MapperResult :=
  match self.encode (received rawData) with
  | none => .declined
  | some out => .mapped (returned out) readFails

namespace GuestCall

theorem size_le_invoke (self : GuestCall) (mem : GuestMemory) (rawData : Bytes) :
    mem.size ≤ (self.invoke mem rawData).1.size := by
  unfold invoke
  cases hinput : mem.write inputOffset rawData with
  | none => exact le_rfl
  | some mem₁ =>
    have hsize₁ := LinearMemory.size_write hinput
    simp only
    cases hlen : mem₁.write outputLenOffset (leBytes 4 0) with
    | none => exact hsize₁.ge
    | some mem₂ =>
      have hsize : mem.size = mem₂.size := by rw [LinearMemory.size_write hlen, hsize₁]
      have hgrows := self.mapper.grows mem₂ inputOffset rawData.length outputOffset outputLenOffset
      simp only
      cases hcall : self.mapper.call mem₂ inputOffset rawData.length outputOffset outputLenOffset with
      | mk mem₃ status =>
        rw [hcall] at hgrows
        rw [hsize]
        cases status with
        | none => exact hgrows
        | some status =>
          simp only
          split
          · exact hgrows
          · split <;> exact hgrows

/-- **An SDK mapper is invoked on what is left of the raw data, and its output is what is left of it.** -/
theorem invoke_sdk {T : Type} {self : GuestCall} {mapper : SdkMapper T} (hmapper : self.mapper = mapper.mapperExport)
    {mem : GuestMemory} {rawData : Bytes} (hroom : mapper.HasRoom outputOffset mem.size (received rawData)) :
    (self.invoke mem rawData).2 =
      if inputOffset + rawData.length ≤ mem.size ∧ outputLenOffset + 4 ≤ mem.size then
        self.ends false (mapper.result self.readFails rawData)
      else self.ends true .trap := by
  unfold invoke
  cases hinput : mem.write inputOffset rawData with
  | none => rw [if_neg fun hfits => LinearMemory.not_fits_of_write hinput hfits.1]
  | some mem₁ =>
    have hsize₁ := LinearMemory.size_write hinput
    simp only
    cases hlen : mem₁.write outputLenOffset (leBytes 4 0) with
    | none =>
      have hshort := LinearMemory.not_fits_of_write hlen
      rw [length_leBytes, hsize₁] at hshort
      rw [if_neg fun hfits => hshort hfits.2]
    | some mem₂ =>
      have hsize₂ := (LinearMemory.size_write hlen).trans hsize₁
      have hslot : outputLenOffset + 4 ≤ mem.size := by
        have hfits := (LinearMemory.write_some hlen).1
        rwa [length_leBytes, hsize₁] at hfits
      rw [if_pos ⟨(LinearMemory.write_some hinput).1, hslot⟩]
      have hread : mem₂.read inputOffset rawData.length = some (received rawData) := by
        rw [LinearMemory.read_write hlen (by decide), LinearMemory.read_write_self hinput, Option.map_some]
        rfl
      simp only [hmapper, SdkMapper.mapperExport]
      cases hout : mapper.encode (received rawData) with
      | none =>
        obtain ⟨mem₃, status, hcall, hne⟩ := SdkMapper.call_declined hread hout outputOffset outputLenOffset
        rw [hcall]
        simp only [SdkMapper.result, hout, if_pos hne]
      | some out =>
        have hfits := hroom mem₂ hsize₂.ge out hout
        obtain ⟨mem₃, hcall, hfound, hcopied⟩ :=
          SdkMapper.call_mapped hfits hread hout (hsize₂ ▸ hslot) (by decide)
        have hlt : out.length < 256 ^ 4 := by
          have hbound := (mapper.work mem₂).size_le
          unfold outputOffset at hfits
          omega
        have houtput : readOutput mem₃ = some (returned out) := by
          rw [readOutput, hfound, Option.bind_some, leNat_leBytes_of_lt hlt, hcopied]
          rfl
        rw [hcall]
        simp only [ne_eq, not_true_eq_false, if_false, houtput, SdkMapper.result, hout]

end GuestCall

/-! ## What one round stores -/

/-- A fact with this value came after `t`, and a read gives the guest this value. -/
structure Stored (t : Timestamp) (ctx : Context std.wyhash) (key : ForwardKey) (out : Bytes) : Prop where
  persisted : ∃ fact, ctx.loadFact key.entity key.component = some fact ∧ fact.value = out ∧ t < fact.timestamp
  read : slungGet std ctx key.entity key.component [] = (.status 0, some out)

/-- The store can keep the value, or it has nothing else to serve for the key. -/
def CacheServes (ctx : Context std.wyhash) (key : ForwardKey) (put : Option LwwRegistry.PutAlloc) (out : Bytes) :
    Prop :=
  put = some .value → ∀ entry, ctx.lwwStore.get (formatKey ctx.namespaceId key.entity key.component) = some entry →
    renderValue std entry.value = out

variable {ctx ctx' : Context std.wyhash} {live : Wal.Live} {key : ForwardKey} {t : Timestamp} {mapped out : Bytes}

theorem not_stored (hold : ∀ fact, ctx.loadFact key.entity key.component = some fact → fact.timestamp ≤ t) :
    ¬ Stored t ctx key out := by
  rintro ⟨⟨fact, hfact, -, hlt⟩, -⟩
  exact absurd hlt (not_lt_of_ge (hold fact hfact))

theorem stored_iff_of_fact {fact : Wal.Fact} (hfact : ctx.loadFact key.entity key.component = some fact)
    (hlt : t < fact.timestamp) : Stored t ctx key out ↔
      fact.value = out ∧ slungGet std ctx key.entity key.component [] = (.status 0, some out) := by
  constructor
  · rintro ⟨⟨fact', hfact', hvalue, -⟩, hread⟩
    obtain rfl := Option.some.inj (hfact.symm.trans hfact')
    exact ⟨hvalue, hread⟩
  · exact fun h => ⟨⟨fact, hfact, h.1, hlt⟩, h.2⟩

/-- The log has the value; what is read is what the store keeps of it. -/
theorem stored_iff_of_put (ctx : Context std.wyhash) (put : Option LwwRegistry.PutAlloc) (cause : CausalTag)
    {storeKey : Bytes} {fact : Wal.Fact} {ts : Timestamp}
    (hkey : bufPrintKey ctx.namespaceId key.entity key.component = some storeKey)
    (hfact : ctx.loadFact key.entity key.component = some fact) (hlt : t < fact.timestamp)
    (hnewer : ∀ entry, ctx.lwwStore.entries.lookup storeKey = some entry → entry.hlc < ts)
    (h : (∃ e, ctx.lwwStore.put put storeKey ts (.bytes fact.value) cause = .error e ∧ ctx' = ctx) ∨
      ∃ store accepted, ctx.lwwStore.put put storeKey ts (.bytes fact.value) cause = .ok (store, accepted) ∧
        ctx' = { ctx with lwwStore := store }) :
    Stored t ctx' key out ↔ fact.value = out ∧ CacheServes ctx key put out := by
  unfold CacheServes
  rw [← bufPrint_eq hkey]
  rcases h with ⟨e, hput, hctx⟩ | ⟨store, accepted, hput, rfl⟩
  · rw [hctx, stored_iff_of_fact hfact hlt]
    cases hget : ctx.lwwStore.get storeKey with
    | none =>
      rw [slungGet_of_persisted hkey hget hfact]
      exact ⟨fun hall => ⟨hall.1, fun _ entry hentry => by cases hentry⟩, fun hall => ⟨hall.1, by rw [hall.1]⟩⟩
    | some entry =>
      have hvalue : put = some .value := by
        refine (LwwRegistry.put_error hput).resolve_right fun habsent => ?_
        rw [← LwwRegistry.get_eq, hget] at habsent
        cases habsent
      rw [slungGet_of_cached hkey hget]
      refine and_congr_right fun _ => ⟨fun hread _ entry' hentry' => ?_, fun hserves => ?_⟩
      · obtain rfl := Option.some.inj hentry'
        exact Option.some.inj (Prod.mk.inj hread).2
      · rw [hserves hvalue entry rfl]
  · obtain ⟨-, hentries⟩ := LwwRegistry.put_newer hput hnewer
    have hmemory : put ≠ some .value := by
      rintro rfl
      rw [LwwRegistry.put_without_memory] at hput
      cases hput
    have hentry : store.get storeKey = some ⟨ts, .bytes fact.value, cause⟩ := by
      rw [LwwRegistry.get_eq, hentries, FMap.lookup_insert_eq, if_pos rfl]
    have hfact' : ({ ctx with lwwStore := store } : Context std.wyhash).loadFact key.entity key.component =
        some fact := hfact
    have hget : slungGet std { ctx with lwwStore := store } key.entity key.component [] =
        (.status 0, some fact.value) := by
      rw [slungGet_observed, Context.observed, hkey, Option.bind_some]
      simp only [hentry, renderValue]
    rw [stored_iff_of_fact hfact' hlt, hget]
    exact ⟨fun hall => ⟨hall.1, fun hnone => absurd hnone hmemory⟩, fun hall => ⟨hall.1, by rw [hall.1]⟩⟩

/-- **What a mapped value leaves is the value iff the key fits its buffer, the log takes the write and the store
serves it.** -/
theorem ingestMapped_stored_iff (hstorage : ctx.storage = some live) (hclock : ctx.UpToDate live)
    (ht : t ≤ ctx.clock.now)
    (hold : ∀ fact, ctx.loadFact key.entity key.component = some fact → fact.timestamp ≤ t) {call : MapperCall}
    (h : ingestMapped ctx key call mapped = (ctx', none)) :
    Stored t ctx' key out ↔ (formatKey ctx.namespaceId key.entity key.component).length ≤ 128 ∧
      call.persistFails = none ∧ mapped = out ∧ CacheServes ctx key call.put out := by
  unfold ingestMapped bufPrintStoreKey bufPrint at h
  by_cases hkey : (formatKey ctx.namespaceId key.entity key.component).length ≤ 128
  swap
  · simp only [if_neg hkey] at h
    obtain ⟨rfl, -⟩ := Prod.mk.inj h
    exact iff_of_false (not_stored hold) fun hall => hkey hall.1
  simp only [if_pos hkey] at h
  cases hsend : ctx.clock.sendWithWall call.wallNow with
  | none =>
    rw [hsend] at h
    cases (Prod.mk.inj h).2
  | some event =>
    obtain ⟨ts, clock⟩ := event
    obtain ⟨rfl, hlt⟩ := Hlc.sendWithWall_some hsend
    simp only [hsend] at h
    cases hfails : call.persistFails with
    | some e =>
      rw [hfails, Context.persistMutation_error] at h
      obtain ⟨rfl, -⟩ := Prod.mk.inj h
      exact iff_of_false (not_stored hold) fun hall => nomatch hall.2.1
    | none =>
      have haccepts : live.accepts (ctx.sourceMutation key mapped clock.now) = true := hclock.accepts hlt
      have hpersist : ({ ctx with clock := clock } : Context std.wyhash).persistMutation none
          (ctx.sourceMutation key mapped clock.now) = some ({ ctx with
            clock := clock, storage := some (live.putDirty (ctx.sourceMutation key mapped clock.now)) }, true) := by
        rw [Context.persistMutation_some { ctx with clock := clock } hstorage, haccepts]
      have hfact : Wal.getFact (live.putDirty (ctx.sourceMutation key mapped clock.now)) ctx.namespaceId key.entity
          key.component = some (ctx.sourceMutation key mapped clock.now).fact :=
        (getFact_putDirty rfl haccepts _ _).trans (if_pos ⟨rfl, rfl⟩)
      have hmutation : ({ ctx with clock := clock } : Context std.wyhash).sourceMutation key mapped clock.now =
          ctx.sourceMutation key mapped clock.now := rfl
      rw [hmutation, hfails, hpersist] at h
      have hbuf : bufPrintKey ctx.namespaceId key.entity key.component =
          some (formatKey ctx.namespaceId key.entity key.component) := if_pos (hkey.trans (by decide))
      refine (stored_iff_of_put { ctx with
        clock := clock, storage := some (live.putDirty (ctx.sourceMutation key mapped clock.now)) }
        call.put (ctx.sourceCause key) hbuf hfact (ht.trans_lt hlt) (hclock.newer hlt) ?_).trans ?_
      · simp only at h
        split at h <;> rename_i hput
        · exact Or.inl ⟨_, hput, (Prod.mk.inj h).1.symm⟩
        · exact Or.inr ⟨_, _, hput, (Prod.mk.inj h).1.symm⟩
      exact ⟨fun hall => ⟨hkey, rfl, hall⟩, fun hall => hall.2.2⟩

/-- When ingestion stores what an SDK mapper makes of raw data. -/
structure Delivers {T : Type} (ctx : Context std.wyhash) (key : ForwardKey) (call : GuestCall) (mapper : SdkMapper T)
    (rawData : Bytes) : Prop where
  fits : (formatKey ctx.namespaceId key.entity key.component).length ≤ 128
  persist : call.persistFails = none
  /-- the bytes that the first length replaces make no difference to the output, but for those that the second one
  replaces -/
  input : (mapper.encode (received rawData)).map blanked = (mapper.encode rawData).map blanked
  /-- the second length replaces no bytes, or itself -/
  output : (mapper.encode rawData).map returned = mapper.encode rawData
  cache : ∀ out, mapper.encode rawData = some out → CacheServes ctx key call.put out

variable {T : Type} {mapper : SdkMapper T} {call : GuestCall} {mem : GuestMemory} {sourceName rawData : Bytes}

/-- Short raw data and a short output are delivered, for a short key, where neither the log nor the store fails. -/
theorem delivers_of_short (hfits : (formatKey ctx.namespaceId key.entity key.component).length ≤ 128)
    (hraw : rawData.length ≤ 20000) (hout : ∀ out, mapper.encode rawData = some out → out.length ≤ 10000)
    (hpersist : call.persistFails = none) (hput : call.put = none) : Delivers ctx key call mapper rawData where
  fits := hfits
  persist := hpersist
  input := by rw [received_of_short hraw]
  output := by
    cases hencode : mapper.encode rawData with
    | none => rfl
    | some out => exact congrArg some (returned_of_short (hout out hencode))
  cache _ _ hvalue := by
    rw [hput] at hvalue
    cases hvalue

theorem ingestOne_stored_iff (hstorage : ctx.storage = some live) (hclock : ctx.UpToDate live)
    (ht : t ≤ ctx.clock.now)
    (hold : ∀ fact, ctx.loadFact key.entity key.component = some fact → fact.timestamp ≤ t)
    (hmapper : call.mapper = mapper.mapperExport)
    (hroom : mapper.HasRoom outputOffset mem.size (received rawData)) (hout : mapper.encode rawData = some out)
    (h : ingestOne ctx key (call.invoke mem rawData).2 = (ctx', none)) :
    Stored t ctx' key out ↔ Delivers ctx key call mapper rawData := by
  rw [GuestCall.invoke_sdk hmapper hroom] at h
  split at h
  swap
  · cases (Prod.mk.inj h).2
  cases hfound : mapper.encode (received rawData) with
  | none =>
    simp only [GuestCall.ends, SdkMapper.result, hfound, ingestOne] at h
    obtain ⟨rfl, -⟩ := Prod.mk.inj h
    refine iff_of_false (not_stored hold) fun hall => ?_
    have hinput := hall.input
    rw [hfound, hout] at hinput
    cases hinput
  | some found =>
    simp only [GuestCall.ends, SdkMapper.result, hfound, ingestOne, Bool.false_eq_true, if_false] at h
    by_cases hfails : call.readFails = true
    · rw [if_pos hfails] at h
      cases (Prod.mk.inj h).2
    rw [if_neg hfails] at h
    rw [ingestMapped_stored_iff hstorage hclock ht hold h, returned_eq_iff]
    constructor
    · rintro ⟨hkey, hpersist, ⟨hblanked, hreturned⟩, hcache⟩
      refine ⟨hkey, hpersist, ?_, ?_, fun out' hout' => ?_⟩
      · rw [hfound, hout, Option.map_some, Option.map_some, hblanked]
      · rw [hout, Option.map_some, hreturned]
      · obtain rfl := Option.some.inj (hout.symm.trans hout')
        exact hcache
    · rintro ⟨hkey, hpersist, hinput, houtput, hcache⟩
      rw [hfound, hout] at hinput
      rw [hout] at houtput
      exact ⟨hkey, hpersist, ⟨Option.some.inj hinput, Option.some.inj houtput⟩, hcache out hout⟩

/-! ## The other rounds -/

/-- A key that is as it was. -/
structure SameAt (key : ForwardKey) (ctx ctx' : Context std.wyhash) : Prop where
  namespaceId : ctx'.namespaceId = ctx.namespaceId
  loadFact : ctx'.loadFact key.entity key.component = ctx.loadFact key.entity key.component
  cached : ctx'.lwwStore.get (formatKey ctx.namespaceId key.entity key.component) =
    ctx.lwwStore.get (formatKey ctx.namespaceId key.entity key.component)

theorem SameAt.refl (key : ForwardKey) (ctx : Context std.wyhash) : SameAt key ctx ctx := ⟨rfl, rfl, rfl⟩

theorem SameAt.trans {ctx'' : Context std.wyhash} (h : SameAt key ctx ctx') (h' : SameAt key ctx' ctx'') :
    SameAt key ctx ctx'' :=
  ⟨h'.namespaceId.trans h.namespaceId, h'.loadFact.trans h.loadFact,
    (h.namespaceId ▸ h'.cached).trans h.cached⟩

theorem SameAt.stored_iff (h : SameAt key ctx ctx') : Stored t ctx' key out ↔ Stored t ctx key out := by
  have hobserved : ctx'.observed key.entity key.component = ctx.observed key.entity key.component := by
    unfold Context.observed
    rw [h.namespaceId]
    cases hkey : bufPrintKey ctx.namespaceId key.entity key.component with
    | none => rfl
    | some storeKey =>
      simp only [Option.bind_some]
      rw [bufPrint_eq hkey, h.cached, h.loadFact]
  have hread : slungGet std ctx' key.entity key.component [] = slungGet std ctx key.entity key.component [] := by
    rw [slungGet_observed, slungGet_observed, hobserved]
  constructor
  · rintro ⟨hpersisted, hget⟩
    exact ⟨h.loadFact ▸ hpersisted, hread ▸ hget⟩
  · rintro ⟨hpersisted, hget⟩
    exact ⟨h.loadFact ▸ hpersisted, hread ▸ hget⟩

theorem SameAt.delivers (h : SameAt key ctx ctx') (hd : Delivers ctx' key call mapper rawData) :
    Delivers ctx key call mapper rawData where
  fits := h.namespaceId ▸ hd.fits
  persist := hd.persist
  input := hd.input
  output := hd.output
  cache out hout := by
    have hcache := hd.cache out hout
    unfold CacheServes at hcache ⊢
    rwa [h.namespaceId, h.cached] at hcache

theorem SameAt.delivers_iff (h : SameAt key ctx ctx') :
    Delivers ctx' key call mapper rawData ↔ Delivers ctx key call mapper rawData :=
  ⟨h.delivers, (SameAt.mk h.namespaceId.symm h.loadFact.symm (by rw [h.namespaceId, h.cached])).delivers⟩

/-- What a round leaves of the session: it may go on. -/
structure Continues (ctx ctx' : Context std.wyhash) : Prop where
  clock : ctx.clock.now ≤ ctx'.clock.now
  graph : ctx'.graph = ctx.graph
  upToDate : ∃ live', ctx'.storage = some live' ∧ ctx'.UpToDate live'

variable {key' : ForwardKey} {mapperCall : MapperCall}

theorem Ingested.continues (hstorage : ctx.storage = some live) (hclock : ctx.UpToDate live)
    (h : Ingested ctx key mapperCall ctx') : Continues ctx ctx' := by
  cases h with
  | nothing => exact ⟨le_rfl, rfl, live, hstorage, hclock⟩
  | unlogged hsend =>
    obtain ⟨rfl, hlt⟩ := Hlc.sendWithWall_some hsend
    exact ⟨hlt.le, rfl, live, hstorage, fun _ _ hget => (hclock.store _ _ hget).trans hlt.le,
      fun _ _ _ hfact => (hclock.facts _ _ _ hfact).trans hlt.le⟩
  | rejected hsend hstorage' hrejects =>
    obtain ⟨rfl, hlt⟩ := Hlc.sendWithWall_some hsend
    obtain rfl := Option.some.inj (hstorage.symm.trans hstorage')
    rw [hclock.accepts hlt] at hrejects
    cases hrejects
  | uncached hsend hstorage' =>
    obtain ⟨rfl, hlt⟩ := Hlc.sendWithWall_some hsend
    obtain rfl := Option.some.inj (hstorage.symm.trans hstorage')
    exact ⟨hlt.le, rfl, _, rfl, fun _ _ hget => (hclock.store _ _ hget).trans hlt.le,
      fun _ _ _ hfact => hclock.le_putDirty hlt hfact⟩
  | cached hsend hstorage' hkey haccepts hput =>
    obtain ⟨rfl, hlt⟩ := Hlc.sendWithWall_some hsend
    obtain rfl := Option.some.inj (hstorage.symm.trans hstorage')
    obtain ⟨-, hentries⟩ := LwwRegistry.put_newer hput (hclock.newer hlt)
    refine ⟨hlt.le, rfl, _, rfl, fun storeKey entry hget => ?_, fun _ _ _ hfact => hclock.le_putDirty hlt hfact⟩
    rw [LwwRegistry.get_eq, hentries, FMap.lookup_insert_eq] at hget
    split_ifs at hget
    · obtain rfl := Option.some.inj hget
      exact le_rfl
    · exact (hclock.newer hlt entry hget).le

theorem Ingested.sameAt (hstorage : ctx.storage = some live) (hclock : ctx.UpToDate live)
    (h : Ingested ctx key' mapperCall ctx') (hne : key ≠ key') : SameAt key ctx ctx' := by
  have hother : ¬ (key.entity = key'.entity ∧ key.component = key'.component) := by
    obtain ⟨entity, component⟩ := key
    rintro ⟨rfl, rfl⟩
    exact hne rfl
  have hfact : ∀ {ts : Timestamp} {mapped : Bytes}, ctx.clock.now < ts →
      Wal.getFact (live.putDirty (ctx.sourceMutation key' mapped ts)) ctx.namespaceId key.entity key.component =
        ctx.loadFact key.entity key.component := by
    intro ts mapped hlt
    rw [hclock.getFact_ingested hlt, if_neg hother, Context.loadFact, hstorage]
    rfl
  cases h with
  | nothing => exact SameAt.refl key ctx
  | unlogged hsend => exact ⟨rfl, rfl, rfl⟩
  | rejected hsend hstorage' hrejects =>
    obtain ⟨rfl, hlt⟩ := Hlc.sendWithWall_some hsend
    obtain rfl := Option.some.inj (hstorage.symm.trans hstorage')
    exact ⟨rfl, hfact hlt, rfl⟩
  | uncached hsend hstorage' =>
    obtain ⟨rfl, hlt⟩ := Hlc.sendWithWall_some hsend
    obtain rfl := Option.some.inj (hstorage.symm.trans hstorage')
    exact ⟨rfl, hfact hlt, rfl⟩
  | cached hsend hstorage' hkey haccepts hput =>
    obtain ⟨rfl, hlt⟩ := Hlc.sendWithWall_some hsend
    obtain rfl := Option.some.inj (hstorage.symm.trans hstorage')
    obtain ⟨-, hentries⟩ := LwwRegistry.put_newer hput (hclock.newer hlt)
    refine ⟨rfl, hfact hlt, ?_⟩
    have hkeys : formatKey ctx.namespaceId key.entity key.component ≠
        formatKey ctx.namespaceId key'.entity key'.component := fun heq => hother (formatKey_inj heq)
    rw [LwwRegistry.get_eq, LwwRegistry.get_eq, hentries, FMap.lookup_insert_eq, hkey, if_neg hkeys]

/-! ## The run -/

/-- The mappers of other components leave a key as it was. -/
theorem ingestInto_sameAt {calls : List (ForwardKey × GuestCall)} {stop : Option Stop}
    (hstorage : ctx.storage = some live) (hclock : ctx.UpToDate live) (hkey : key ∉ calls.map Prod.fst)
    (h : ingestInto sourceName rawData mem ctx calls = (ctx', stop)) : SameAt key ctx ctx' := by
  induction calls generalizing mem ctx live with
  | nil =>
    obtain ⟨rfl, -⟩ := Prod.mk.inj h
    exact SameAt.refl key _
  | cons head rest ih =>
    obtain ⟨key', call'⟩ := head
    rw [List.map_cons, List.mem_cons, not_or] at hkey
    obtain ⟨hne, hrest⟩ := hkey
    rw [ingestInto] at h
    split at h
    · exact ih hstorage hclock hrest h
    · generalize call'.invoke mem rawData = invoked at h
      obtain ⟨mem₁, mapperCall⟩ := invoked
      cases hone : ingestOne ctx key' mapperCall with
      | mk ctx₁ stop₁ =>
        have hsame := (ingestOne_spec hone).sameAt hstorage hclock hne
        obtain ⟨-, -, live₁, hstorage₁, hclock₁⟩ := (ingestOne_spec hone).continues hstorage hclock
        simp only [hone] at h
        cases stop₁ with
        | none => exact hsame.trans (ih hstorage₁ hclock₁ hrest h)
        | some reason =>
          obtain ⟨rfl, -⟩ := Prod.mk.inj h
          exact hsame

theorem ingestInto_stored_iff {calls : List (ForwardKey × GuestCall)} (hstorage : ctx.storage = some live)
    (hclock : ctx.UpToDate live) (ht : t ≤ ctx.clock.now)
    (hold : ∀ fact, ctx.loadFact key.entity key.component = some fact → fact.timestamp ≤ t)
    (hkeys : (calls.map Prod.fst).Nodup) (hmem : (key, call) ∈ calls)
    (hsource : ∃ forward, ctx.graph.forward.lookup key = some forward ∧ forward.source = sourceName)
    (hmapper : call.mapper = mapper.mapperExport)
    (hroom : mapper.HasRoom outputOffset mem.size (received rawData)) (hout : mapper.encode rawData = some out)
    (h : ingestInto sourceName rawData mem ctx calls = (ctx', none)) :
    Stored t ctx' key out ↔ Delivers ctx key call mapper rawData := by
  induction calls generalizing mem ctx live with
  | nil => cases hmem
  | cons head rest ih =>
    obtain ⟨key', call'⟩ := head
    rw [List.map_cons, List.nodup_cons] at hkeys
    obtain ⟨hfirst, hrest⟩ := hkeys
    rcases List.mem_cons.mp hmem with heq | hlater
    · -- its own round, and the rounds after it
      obtain ⟨rfl, rfl⟩ := Prod.mk.inj heq
      obtain ⟨forward, hforward, rfl⟩ := hsource
      rw [ingestInto, hforward, if_neg (by simp)] at h
      cases hinvoke : call.invoke mem rawData with
      | mk mem₁ mapperCall =>
        cases hone : ingestOne ctx key mapperCall with
        | mk ctx₁ stop =>
          obtain ⟨-, -, live₁, hstorage₁, hclock₁⟩ := (ingestOne_spec hone).continues hstorage hclock
          simp only [hinvoke, hone] at h
          cases stop with
          | some reason => cases (Prod.mk.inj h).2
          | none =>
            rw [(ingestInto_sameAt hstorage₁ hclock₁ hfirst h).stored_iff]
            exact ingestOne_stored_iff hstorage hclock ht hold hmapper hroom hout (by rw [hinvoke]; exact hone)
    · have hne : key ≠ key' := by
        rintro rfl
        exact hfirst (List.mem_map.mpr ⟨_, hlater, rfl⟩)
      rw [ingestInto] at h
      split at h
      · exact ih hstorage hclock ht hold hrest hlater hsource hroom h
      · have hsize := call'.size_le_invoke mem rawData
        generalize call'.invoke mem rawData = invoked at h hsize
        obtain ⟨mem₁, mapperCall⟩ := invoked
        cases hone : ingestOne ctx key' mapperCall with
        | mk ctx₁ stop =>
          have hsame := (ingestOne_spec hone).sameAt hstorage hclock hne
          obtain ⟨hle, hgraph, live₁, hstorage₁, hclock₁⟩ := (ingestOne_spec hone).continues hstorage hclock
          simp only [hone] at h
          cases stop with
          | some reason => cases (Prod.mk.inj h).2
          | none =>
            rw [← hsame.delivers_iff]
            refine ih hstorage₁ hclock₁ (ht.trans hle) (fun fact hfact => ?_) hrest hlater (hgraph ▸ hsource)
              (fun mem₂ hle₂ => hroom mem₂ (hsize.trans hle₂)) h
            exact hold fact (hsame.loadFact ▸ hfact)

/-- **When ingestion stores exactly what the mapper makes of exactly what arrived**, in every session and whatever
the other mappers do. -/
theorem source_data_stored_iff (config : ModuleConfig) (storage : Wal.Live)
    (hreach : Leads False (ModuleSession.init std config storage) ctx) {calls : List (ForwardKey × GuestCall)}
    (hkeys : (calls.map Prod.fst).Nodup) (hmem : (key, call) ∈ calls)
    (hsource : ∃ forward, ctx.graph.forward.lookup key = some forward ∧ forward.source = sourceName)
    (hmapper : call.mapper = mapper.mapperExport)
    (hroom : mapper.HasRoom outputOffset mem.size (received rawData)) (hout : mapper.encode rawData = some out)
    (h : ingestInto sourceName rawData mem ctx calls = (ctx', none)) :
    Stored ctx.clock.now ctx' key out ↔ Delivers ctx key call mapper rawData := by
  obtain ⟨ctx₀, live, claims, -, -, -, hcascade⟩ := (Settled.init std config storage).sound.reaches hreach
  have hclock := hcascade.upToDate
  refine ingestInto_stored_iff hcascade.storage hclock le_rfl (fun fact hfact => ?_) hkeys hmem hsource hmapper
    hroom hout h
  rw [Context.loadFact, hcascade.storage] at hfact
  exact hclock.facts _ _ fact hfact

/-! A mapper that reports whether the raw data have a byte 0. -/

def exampleMapper : SdkMapper Bool where
  parse raw := some (decide (0 ∈ raw))
  marshal zero := some (if zero then [116, 114, 117, 101] else [102, 97, 108, 115, 101])
  work mem := mem
  grows _ := le_rfl

def exampleMemory : GuestMemory := ⟨List.replicate 65536 0, by rw [List.length_replicate]; decide⟩

def exampleGuestCall : GuestCall := ⟨exampleMapper.mapperExport, false, 7, none, none⟩

theorem exampleMapper_hasRoom (raw : Bytes) : exampleMapper.HasRoom outputOffset exampleMemory.size raw := by
  intro mem hsize out hout
  obtain rfl := Option.some.inj hout
  have hmem : 65536 ≤ mem.size := by
    rwa [exampleMemory, LinearMemory.size, List.length_replicate] at hsize
  refine le_trans ?_ hmem
  split <;> decide

/-- The mapper alone, on raw data that fit the memory. -/
theorem ingestInto_example (rawData : Bytes) (hfits : rawData.length ≤ 55536)
    {ctx : Context StdLib.fragment.wyhash} {forward : Forward}
    (hforward : ctx.graph.forward.lookup key = some forward) :
    ingestInto forward.source rawData exampleMemory ctx [(key, exampleGuestCall)] =
      ingestOne ctx key (exampleGuestCall.ends false (exampleMapper.result false rawData)) := by
  have hsize : exampleMemory.size = 65536 := List.length_replicate
  have hcall : (exampleGuestCall.invoke exampleMemory rawData).2 =
      exampleGuestCall.ends false (exampleMapper.result false rawData) := by
    rw [GuestCall.invoke_sdk rfl (exampleMapper_hasRoom _), hsize]
    refine if_pos ⟨?_, by decide⟩
    unfold inputOffset
    omega
  rw [ingestInto, hforward, if_neg (by simp)]
  cases hinvoke : exampleGuestCall.invoke exampleMemory rawData with
  | mk mem mapperCall =>
    rw [hinvoke] at hcall
    rw [← hcall]
    simp only [ingestInto]
    generalize ingestOne ctx key mapperCall = ended
    obtain ⟨ctx₁, stop⟩ := ended
    cases stop <;> rfl

/-- A payload of one byte. -/
theorem source_data_stored_iff_example :
    let ctx := ModuleSession.init StdLib.fragment exampleConfig exampleLive
    ∃ ctx', ingestInto [] [49] exampleMemory ctx [(⟨1, 2⟩, exampleGuestCall)] = (ctx', none) ∧
      Stored ctx.clock.now ctx' ⟨1, 2⟩ [102, 97, 108, 115, 101] := by
  intro ctx
  obtain ⟨forward, hforward, hsource⟩ : ∃ forward, ctx.graph.forward.lookup ⟨1, 2⟩ = some forward ∧
      forward.source = [] := ⟨_, rfl, rfl⟩
  have hrun := ingestInto_example [49] (by decide) hforward
  have hresult : exampleMapper.result false [49] = .mapped [102, 97, 108, 115, 101] false := by decide +kernel
  have hends : (ingestOne ctx ⟨1, 2⟩ (exampleGuestCall.ends false (exampleMapper.result false [49]))).2 = none := by
    rw [hresult]
    decide +kernel
  rw [hsource] at hrun
  have hkeys : ([((⟨1, 2⟩ : ForwardKey), exampleGuestCall)].map Prod.fst).Nodup := List.nodup_singleton _
  refine ⟨_, hrun.trans (Prod.ext rfl hends), ?_⟩
  refine (source_data_stored_iff exampleConfig exampleLive .refl hkeys (List.mem_singleton.mpr rfl)
    ⟨forward, hforward, hsource⟩ rfl (exampleMapper_hasRoom _) rfl (hrun.trans (Prod.ext rfl hends))).mpr ?_
  refine delivers_of_short (by decide +kernel) (by decide) (fun out hout => ?_) rfl rfl
  obtain rfl := Option.some.inj hout
  decide

/-- Of a payload of 20001 bytes without a byte 0 the last one is gone when the mapper looks, and what is stored says
so. -/
theorem source_data_replaced :
    let ctx := ModuleSession.init StdLib.fragment exampleConfig exampleLive
    let rawData := List.replicate 20001 49
    exampleMapper.encode rawData = some [102, 97, 108, 115, 101] ∧
      ∃ ctx', ingestInto [] rawData exampleMemory ctx [(⟨1, 2⟩, exampleGuestCall)] = (ctx', none) ∧
        (ctx'.loadFact 1 2).map Wal.Fact.value = some [116, 114, 117, 101] ∧
        slungGet StdLib.fragment ctx' 1 2 [] = (.status 0, some [116, 114, 117, 101]) ∧
        ¬ Stored ctx.clock.now ctx' ⟨1, 2⟩ [102, 97, 108, 115, 101] := by
  intro ctx rawData
  obtain ⟨forward, hforward, hsource⟩ : ∃ forward, ctx.graph.forward.lookup ⟨1, 2⟩ = some forward ∧
      forward.source = [] := ⟨_, rfl, rfl⟩
  have hrun := ingestInto_example rawData (by rw [List.length_replicate]; decide) hforward
  have hwhole : 0 ∉ rawData := fun hzero => absurd (List.eq_of_mem_replicate hzero) (by decide)
  have hzero : 0 ∈ received rawData := by
    refine List.mem_iff_getElem?.mpr ⟨20000, ?_⟩
    rw [received, getElem?_overlay, List.length_replicate, length_leBytes, if_pos (by decide)]
    rfl
  have hresult : exampleMapper.result false rawData = .mapped [116, 114, 117, 101] false := by
    have hencode : exampleMapper.encode (received rawData) = some [116, 114, 117, 101] := by
      simp [SdkMapper.encode, exampleMapper, hzero]
    rw [SdkMapper.result, hencode]
    decide +kernel
  rw [hsource, hresult] at hrun
  have hends : (ingestOne ctx ⟨1, 2⟩ (exampleGuestCall.ends false (.mapped [116, 114, 117, 101] false))).2 = none := by
    decide +kernel
  have hreplaced : ((ingestOne ctx ⟨1, 2⟩ (exampleGuestCall.ends false (.mapped [116, 114, 117, 101] false))).1.loadFact
      1 2).map Wal.Fact.value = some [116, 114, 117, 101] := by decide +kernel
  refine ⟨by simp [SdkMapper.encode, exampleMapper, hwhole], _, hrun.trans (Prod.ext rfl hends), hreplaced,
    by decide +kernel, ?_⟩
  rintro ⟨⟨fact, hfact, hvalue, -⟩, -⟩
  rw [hfact, Option.map_some, hvalue] at hreplaced
  exact absurd hreplaced (by decide)

end Slung
