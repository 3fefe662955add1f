import Slung.Lib.KeyedList
import Slung.Lib.Minting
import Slung.Wasm.Index

/-!
# Slung.Wasm.Module — building the graph from descriptors (`wasm/module.zig`)

`GraphBuilder.registerSource` mints an entity for a source and ids for its components, and
`GraphBuilder.build` turns the registered sources, components and rules into the two indices.  The hash maps
of the builder are lists here, in the order in which they are iterated; registration appends what is new.
-/

namespace Slung

open Slung.Lib

structure ComponentField where
  name : Bytes
  typeName : Bytes
  mapper : Bytes
  dynamic : Bool
deriving DecidableEq, Repr

/-- Source descriptor from module export. -/
structure SourceDescriptor where
  name : Bytes
  components : List ComponentField
deriving DecidableEq, Repr

/-- Rule descriptor from module export. -/
structure RuleDescriptor where
  name : Bytes
  /-- `<Source>::<component>` -/
  watch : List Bytes
  priority : UInt8
deriving DecidableEq, Repr

/-- Component descriptor from module export; its other fields are stored and never read. -/
structure ComponentDescriptor where
  name : Bytes
deriving DecidableEq, Repr

structure SourceRegistry where
  name : Bytes
  entityId : EntityId
  /-- the ids under the names of the components -/
  components : List (Bytes × ComponentId)
deriving DecidableEq, Repr

structure ComponentRegistry where
  entityId : EntityId
  typeName : Bytes
  mapper : Bytes
  dynamic : Bool
deriving DecidableEq, Repr

structure RuleRegistry where
  name : Bytes
  priority : UInt8
  watchList : List ForwardKey
deriving DecidableEq, Repr

structure GraphBuilder where
  namespaceId : NamespaceId
  moduleRef : Bytes
  sources : List SourceRegistry
  components : List (ForwardKey × ComponentRegistry)
  rules : List (RuleId × RuleRegistry)
  nextEntityId : EntityId := 0
  nextComponentId : ComponentId := 0
  nextRuleId : RuleId := 0

namespace GraphBuilder

/-! ## Registration -/

def init (namespaceId : NamespaceId) (moduleRef : Bytes) : GraphBuilder where
  namespaceId := namespaceId
  moduleRef := moduleRef
  sources := []
  components := []
  rules := []

/-- What is registered for a component of a source, under its minted key. -/
def componentEntry (entityId : EntityId) (minted : ComponentField × ComponentId) :
    ForwardKey × ComponentRegistry :=
  (⟨entityId, minted.2⟩, ⟨entityId, minted.1.typeName, minted.1.mapper, minted.1.dynamic⟩)

/-- Mint an id for a component of a source; the second part is the component map of the source. -/
def registerComponent (entityId : EntityId) (acc : GraphBuilder × List (Bytes × ComponentId))
    (comp : ComponentField) : Option (GraphBuilder × List (Bytes × ComponentId)) :=
  (mint acc.1.nextComponentId).map fun minted =>
    ({ acc.1 with
        nextComponentId := minted.2
        components := putKey Prod.fst (componentEntry entityId (comp, minted.1)) acc.1.components },
      putKey Prod.fst (comp.name, minted.1) acc.2)

/-- Mint an entity for a source and ids for its components; `none` when a counter overflows. -/
def registerSource (self : GraphBuilder) (sourceDesc : SourceDescriptor) : Option (GraphBuilder × EntityId) :=
  (mint self.nextEntityId).bind fun minted =>
    (sourceDesc.components.foldlM (registerComponent minted.1)
      ({ self with nextEntityId := minted.2 }, [])).map fun registered =>
        ({ registered.1 with
            sources := putKey SourceRegistry.name ⟨sourceDesc.name, minted.1, registered.2⟩ self.sources },
          minted.1)

/-- Register the sources of a module in the order of its exports. -/
def registerSources (self : GraphBuilder) (sourceDescs : List SourceDescriptor) : Option GraphBuilder :=
  sourceDescs.foldlM (fun self sourceDesc => (self.registerSource sourceDesc).map Prod.fst) self

/-- Attach the type of a component descriptor to a component, if there is one with these ids. -/
def registerComponentType (self : GraphBuilder) (compDesc : ComponentDescriptor) (entityId : EntityId)
    (componentId : ComponentId) : GraphBuilder :=
  { self with
      components := self.components.map fun entry =>
        if entry.1 = ⟨entityId, componentId⟩ then (entry.1, { entry.2 with typeName := compDesc.name }) else entry }

/-- What is before the first `::`, and what is after it. -/
def splitSequence : Bytes → Bytes × Option Bytes
  | [] => ([], none)
  | 58 :: 58 :: rest => ([], some rest)
  | b :: rest => (b :: (splitSequence rest).1, (splitSequence rest).2)

/-- The component that a watch entry names: its first two parts are the source and the component. -/
def resolveWatch (self : GraphBuilder) (watchEntry : Bytes) : Option ForwardKey :=
  let (sourceName, rest) := splitSequence watchEntry
  rest.bind fun rest =>
    let componentName := (splitSequence rest).1
    (self.sources.find? fun source => source.name == sourceName).bind fun source =>
      (source.components.find? fun component => component.1 == componentName).map fun component =>
        ⟨source.entityId, component.2⟩

/-- Mint an id for a rule and resolve its watch list; entries that name nothing are left out. -/
def registerRule (self : GraphBuilder) (ruleDesc : RuleDescriptor) : Option (GraphBuilder × RuleId) :=
  (mint self.nextRuleId).map fun minted =>
    ({ self with
        nextRuleId := minted.2
        rules := putKey Prod.fst
          (minted.1, ⟨ruleDesc.name, ruleDesc.priority, ruleDesc.watch.filterMap self.resolveWatch⟩) self.rules },
      minted.1)

/-- No component has an id that is still to be minted. -/
def Fresh (self : GraphBuilder) : Prop :=
  ∀ entry ∈ self.components, entry.1.component.toNat < self.nextComponentId.toNat

/-- What a list of sources is registered as, from these values of the counters on. -/
def registeredFrom (entity component : ℕ) : List SourceDescriptor → List (ForwardKey × ComponentRegistry)
  | [] => []
  | sourceDesc :: sourceDescs =>
    (numbered component sourceDesc.components).map (componentEntry (UInt32.ofNat entity)) ++
      registeredFrom (entity + 1) (component + sourceDesc.components.length) sourceDescs

section

variable {self builder : GraphBuilder} {entityId : EntityId} {names names' : List (Bytes × ComponentId)}

theorem fresh_init (namespaceId : NamespaceId) (moduleRef : Bytes) : (init namespaceId moduleRef).Fresh := by
  simp [Fresh, init]

/-- The components of a source get the next ids, under new keys. -/
theorem foldlM_registerComponent {comps : List ComponentField} (h : self.Fresh)
    (hrun : comps.foldlM (registerComponent entityId) (self, names) = some (builder, names')) :
    builder.Fresh ∧ builder.nextEntityId = self.nextEntityId ∧
      builder.nextComponentId.toNat = self.nextComponentId.toNat + comps.length ∧
      builder.components = self.components ++
        (numbered self.nextComponentId.toNat comps).map (componentEntry entityId) := by
  induction comps generalizing self names with
  | nil =>
    obtain ⟨rfl, -⟩ := Prod.mk.inj (Option.some.inj hrun)
    exact ⟨h, rfl, by simp, by simp⟩
  | cons comp comps ih =>
    rw [List.foldlM_cons] at hrun
    obtain ⟨⟨self', names₁⟩, hcomp, hrest⟩ := Option.bind_eq_some_iff.mp hrun
    obtain ⟨⟨id, next⟩, hmint, hself'⟩ := Option.map_eq_some_iff.mp hcomp
    obtain ⟨rfl, hid⟩ := mint_eq_some hmint
    have hnext : next.toNat = self.nextComponentId.toNat + 1 := hid
    obtain ⟨rfl, -⟩ := Prod.mk.inj hself'
    have hnew : putKey Prod.fst (componentEntry entityId (comp, self.nextComponentId)) self.components =
        self.components ++ [componentEntry entityId (comp, self.nextComponentId)] := by
      refine putKey_of_new fun entry hentry heq => ?_
      have hlt := h entry hentry
      rw [heq] at hlt
      exact Nat.lt_irrefl _ hlt
    have hfresh : GraphBuilder.Fresh { self with
        nextComponentId := next
        components := putKey Prod.fst (componentEntry entityId (comp, self.nextComponentId))
          self.components } := by
      intro entry hentry
      show _ < next.toNat
      rw [hnew, List.mem_append, List.mem_singleton] at hentry
      rcases hentry with hold | rfl
      · have hlt := h entry hold
        omega
      · show self.nextComponentId.toNat < _
        omega
    obtain ⟨hf, hentity, hcount, hcomponents⟩ := ih hfresh hrest
    refine ⟨hf, hentity, ?_, ?_⟩
    · have hrest : builder.nextComponentId.toNat = next.toNat + comps.length := hcount
      rw [hrest, hnext, List.length_cons]
      omega
    · rw [hcomponents, hnew, hnext, numbered, UInt32.ofNat_toNat, List.map_cons, List.append_assoc]
      rfl

/-- A source gets the next entity, and its components the next ids. -/
theorem registerSource_some {sourceDesc : SourceDescriptor} (h : self.Fresh)
    (hrun : self.registerSource sourceDesc = some (builder, entityId)) :
    builder.Fresh ∧ entityId = self.nextEntityId ∧
      builder.nextEntityId.toNat = self.nextEntityId.toNat + 1 ∧
      builder.nextComponentId.toNat = self.nextComponentId.toNat + sourceDesc.components.length ∧
      builder.components = self.components ++
        (numbered self.nextComponentId.toNat sourceDesc.components).map (componentEntry entityId) := by
  obtain ⟨⟨id, next⟩, hmint, hsource⟩ := Option.bind_eq_some_iff.mp hrun
  obtain ⟨rfl, hnext⟩ := mint_eq_some hmint
  obtain ⟨⟨registered, names⟩, hcomps, hbuilder⟩ := Option.map_eq_some_iff.mp hsource
  obtain ⟨rfl, rfl⟩ := Prod.mk.inj hbuilder
  have hfresh : GraphBuilder.Fresh { self with nextEntityId := next } := h
  obtain ⟨hf, hentity, hcount, hcomponents⟩ := foldlM_registerComponent hfresh hcomps
  have hentities : registered.nextEntityId.toNat = self.nextEntityId.toNat + 1 := by
    rw [hentity]
    exact hnext
  exact ⟨hf, rfl, hentities, hcount, hcomponents⟩

/-- **What a module's sources are registered as**: consecutive entities, and consecutive ids through all of
them. -/
theorem registerSources_some {sourceDescs : List SourceDescriptor} (h : self.Fresh)
    (hrun : self.registerSources sourceDescs = some builder) :
    builder.nextEntityId.toNat = self.nextEntityId.toNat + sourceDescs.length ∧
      builder.components = self.components ++
        registeredFrom self.nextEntityId.toNat self.nextComponentId.toNat sourceDescs := by
  unfold registerSources at hrun
  induction sourceDescs generalizing self with
  | nil =>
    obtain rfl := Option.some.inj hrun
    exact ⟨by simp, by simp [registeredFrom]⟩
  | cons sourceDesc sourceDescs ih =>
    rw [List.foldlM_cons] at hrun
    obtain ⟨self', hsource, hrest⟩ := Option.bind_eq_some_iff.mp hrun
    obtain ⟨⟨_, entityId⟩, hregister, rfl⟩ := Option.map_eq_some_iff.mp hsource
    obtain ⟨hf, rfl, hentity, hcount, hcomponents⟩ := registerSource_some h hregister
    obtain ⟨hentities, hall⟩ := ih hf hrest
    refine ⟨?_, ?_⟩
    · rw [hentities, hentity, List.length_cons]
      omega
    · rw [hall, hcomponents, hentity, hcount, registeredFrom, UInt32.ofNat_toNat, List.append_assoc]

/-- Every key has the entity of its source. -/
theorem mem_registeredFrom {entity component : ℕ} {sourceDescs : List SourceDescriptor}
    {entry : ForwardKey × ComponentRegistry} (h : entry ∈ registeredFrom entity component sourceDescs) :
    ∃ i, entity ≤ i ∧ i < entity + sourceDescs.length ∧ entry.1.entity = UInt32.ofNat i := by
  induction sourceDescs generalizing entity component with
  | nil => cases h
  | cons sourceDesc sourceDescs ih =>
    rw [registeredFrom, List.mem_append] at h
    rcases h with hfirst | hrest
    · obtain ⟨minted, -, rfl⟩ := List.mem_map.mp hfirst
      exact ⟨entity, Nat.le_refl _, by simp, rfl⟩
    · obtain ⟨i, hle, hlt, hi⟩ := ih hrest
      exact ⟨i, by omega, by rw [List.length_cons]; omega, hi⟩

/-- Nothing is registered exactly if no source has a component. -/
theorem registeredFrom_eq_nil_iff {entity component : ℕ} {sourceDescs : List SourceDescriptor} :
    registeredFrom entity component sourceDescs = [] ↔
      ∀ sourceDesc ∈ sourceDescs, sourceDesc.components = [] := by
  induction sourceDescs generalizing entity component with
  | nil => simp [registeredFrom]
  | cons sourceDesc sourceDescs ih =>
    have hnil : numbered component sourceDesc.components = [] ↔ sourceDesc.components = [] := by
      rw [← List.length_eq_zero_iff, ← List.length_eq_zero_iff, length_numbered]
    rw [registeredFrom, List.append_eq_nil_iff, List.map_eq_nil_iff, hnil, ih, List.forall_mem_cons]

end

/-! ## Building -/

def entrypointPrefix : Bytes := "__slung_rule_".toUTF8.toList

/-- The reverse index with the rules of the builder. -/
def addRules (self : GraphBuilder) (reverse : ReverseIndex) : ReverseIndex :=
  self.rules.foldl (fun reverse rule => reverse.insert rule.1 {
    watch := rule.2.watchList
    priority := rule.2.priority
    entrypoint := entrypointPrefix ++ rule.2.name
    moduleRef := self.moduleRef
    namespaceId := self.namespaceId }) reverse

/-- The name of the source that has this entity. -/
def sourceName (self : GraphBuilder) (entityId : EntityId) : Bytes :=
  match self.sources.find? (fun source => source.entityId = entityId) with
  | some source => source.name
  | none => []

/-- The forward index with the components of the builder, without watchers. -/
def addComponents (self : GraphBuilder) (forward : ForwardIndex) : ForwardIndex :=
  self.components.foldl (fun forward component => forward.insert component.1 {
    watchers := []
    source := self.sourceName component.2.entityId
    componentType := component.2.typeName
    mapper := component.2.mapper
    dynamic := component.2.dynamic }) forward

/-- Append a rule to the watchers of a component, if the component is known. -/
def addWatcher (rule : RuleId) (forward : ForwardIndex) (key : ForwardKey) : ForwardIndex :=
  match forward.lookup key with
  | some entry => forward.insert key { entry with watchers := entry.watchers ++ [rule] }
  | none => forward

def addWatchers (self : GraphBuilder) (forward : ForwardIndex) : ForwardIndex :=
  self.rules.foldl (fun forward rule => rule.2.watchList.foldl (addWatcher rule.1) forward) forward

section

variable {forward : ForwardIndex} {reverse : ReverseIndex}

theorem registered_mono {reverse' : ReverseIndex} (h : Registered forward reverse)
    (hle : ∀ r, (reverse.lookup r).isSome → (reverse'.lookup r).isSome) : Registered forward reverse' :=
  fun key entry hf r hr => hle r (h key entry hf r hr)

theorem isSome_lookup_insert {reverse : ReverseIndex} {r r' : RuleId} {entry : Reverse}
    (h : r' = r ∨ (reverse.lookup r').isSome) : ((reverse.insert r entry).lookup r').isSome := by
  rw [FMap.lookup_insert_eq]
  by_cases heq : r' = r
  · rw [if_pos heq]
    rfl
  · rw [if_neg heq]
    exact h.resolve_left heq

/-- The rules of the builder are registered, and those that were stay so. -/
theorem isSome_lookup_addRules (self : GraphBuilder) (reverse : ReverseIndex) (r : RuleId)
    (h : r ∈ self.rules.map Prod.fst ∨ (reverse.lookup r).isSome) :
    ((self.addRules reverse).lookup r).isSome := by
  unfold addRules
  generalize self.rules = rules at h
  induction rules generalizing reverse with
  | nil => exact h.resolve_left (by simp)
  | cons rule rules ih =>
    refine ih _ ?_
    rw [List.map_cons, List.mem_cons] at h
    rcases h with (rfl | h) | h
    · exact Or.inr (isSome_lookup_insert (Or.inl rfl))
    · exact Or.inl h
    · exact Or.inr (isSome_lookup_insert (Or.inr h))

theorem registered_addComponents (self : GraphBuilder) (h : Registered forward reverse) :
    Registered (self.addComponents forward) reverse := by
  unfold addComponents
  generalize self.components = components
  induction components generalizing forward with
  | nil => exact h
  | cons component components ih =>
    refine ih fun key entry hf r hr => ?_
    rw [FMap.lookup_insert_eq] at hf
    by_cases heq : key = component.1
    · rw [if_pos heq] at hf
      rw [← Option.some.inj hf] at hr
      cases hr
    · rw [if_neg heq] at hf
      exact h key entry hf r hr

theorem registered_addWatcher {rule : RuleId} (h : Registered forward reverse)
    (hrule : (reverse.lookup rule).isSome) (key : ForwardKey) :
    Registered (addWatcher rule forward key) reverse := by
  unfold addWatcher
  cases hk : forward.lookup key with
  | none => exact h
  | some entry =>
    intro key' entry' hf r hr
    rw [FMap.lookup_insert_eq] at hf
    by_cases heq : key' = key
    · rw [if_pos heq] at hf
      obtain rfl := Option.some.inj hf
      rcases List.mem_append.mp hr with hr | hr
      · exact h key entry hk r hr
      · exact List.mem_singleton.mp hr ▸ hrule
    · rw [if_neg heq] at hf
      exact h key' entry' hf r hr

theorem registered_addWatchers (self : GraphBuilder) (h : Registered forward reverse)
    (hrules : ∀ r ∈ self.rules.map Prod.fst, (reverse.lookup r).isSome) :
    Registered (self.addWatchers forward) reverse := by
  have hlist : ∀ (keys : List ForwardKey) (rule : RuleId) (forward : ForwardIndex),
      Registered forward reverse → (reverse.lookup rule).isSome →
        Registered (keys.foldl (addWatcher rule) forward) reverse := by
    intro keys rule
    induction keys with
    | nil => exact fun _ h _ => h
    | cons key keys ih => exact fun forward h hrule => ih _ (registered_addWatcher h hrule key) hrule
  unfold addWatchers
  generalize self.rules = rules at hrules
  induction rules generalizing forward with
  | nil => exact h
  | cons rule rules ih =>
    exact ih (hlist _ rule.1 forward h (hrules _ (by simp))) fun r hr => hrules r (by simp [hr])

end

/-- Build the Forward and Reverse indices from all registered descriptors. -/
def build (self : GraphBuilder) (graph : CapabilityGraph) : CapabilityGraph where
  forward := self.addWatchers (self.addComponents graph.forward)
  reverse := self.addRules graph.reverse
  registered := by
    refine self.registered_addWatchers (self.registered_addComponents ?_) fun r hr =>
      self.isSome_lookup_addRules _ r (Or.inl hr)
    exact registered_mono graph.registered fun r hr => self.isSome_lookup_addRules _ r (Or.inr hr)

end GraphBuilder

end Slung
