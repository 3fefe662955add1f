import Slung.Wasm.Module

/-!
# Slung.Wasm.Inverse — the two indices of a graph (`wasm/module.zig`)

What any sequence of registrations leaves in a builder (`GraphBuilder.Consistent`), and what `build` makes of it
in whatever order the hash maps are iterated: a rule is as often among the watchers of a component as the
component is in its watch list (`GraphBuilder.count_watchers`).
-/

namespace Slung

open Slung.Lib

/-- The watchers of a component; none if it is not known. -/
def ForwardIndex.watchers (forward : ForwardIndex) (key : ForwardKey) : List RuleId :=
  ((forward.lookup key).map Forward.watchers).getD []

/-- The components that a rule watches; none if it is not known. -/
def ReverseIndex.watch (reverse : ReverseIndex) (ruleId : RuleId) : List ForwardKey :=
  ((reverse.lookup ruleId).map Reverse.watch).getD []

/-- The entry of a component before rules watch it. -/
def Forward.unwatched (entry : Forward) : Forward := { entry with watchers := [] }

namespace GraphBuilder

/-! ## Sequences of registrations -/

inductive Registration where
  | source (sourceDesc : SourceDescriptor)
  | componentType (compDesc : ComponentDescriptor) (entityId : EntityId) (componentId : ComponentId)
  | rule (ruleDesc : RuleDescriptor)

/-- The fields that a registration registers. -/
def Registration.fields : Registration → List ComponentField
  | source sourceDesc => sourceDesc.components
  | componentType _ _ _ => []
  | rule _ => []

/-- `none` when a counter of ids overflows. -/
def register (self : GraphBuilder) : Registration → Option GraphBuilder
  | .source sourceDesc => (self.registerSource sourceDesc).map Prod.fst
  | .componentType compDesc entityId componentId => some (self.registerComponentType compDesc entityId componentId)
  | .rule ruleDesc => (self.registerRule ruleDesc).map Prod.fst

def registerAll (self : GraphBuilder) (calls : List Registration) : Option GraphBuilder := calls.foldlM register self

/-- The same maps, iterated in another order. -/
structure Reordered (builder other : GraphBuilder) : Prop where
  namespaceId : other.namespaceId = builder.namespaceId
  moduleRef : other.moduleRef = builder.moduleRef
  sources : builder.sources.Perm other.sources
  components : builder.components.Perm other.components
  rules : builder.rules.Perm other.rules
  nextEntityId : other.nextEntityId = builder.nextEntityId
  nextComponentId : other.nextComponentId = builder.nextComponentId
  nextRuleId : other.nextRuleId = builder.nextRuleId

/-- The keys that have been minted. -/
def keys (self : GraphBuilder) : List ForwardKey := self.components.map Prod.fst

/-- What is registered has distinct keys, and what sources and rules refer to is registered. -/
structure Consistent (builder : GraphBuilder) : Prop where
  nodup : builder.keys.Nodup
  fresh : builder.Fresh
  named : ∀ source ∈ builder.sources, ∀ component ∈ source.components,
    ⟨source.entityId, component.2⟩ ∈ builder.keys
  watched : ∀ rule ∈ builder.rules, ∀ key ∈ rule.2.watchList, key ∈ builder.keys
  ids : (builder.rules.map Prod.fst).Nodup
  minted : ∀ rule ∈ builder.rules, rule.1.toNat < builder.nextRuleId.toNat

theorem consistent_init (namespaceId : NamespaceId) (moduleRef : Bytes) : (init namespaceId moduleRef).Consistent where
  nodup := List.nodup_nil
  fresh := fresh_init namespaceId moduleRef
  named := nofun
  watched := nofun
  ids := List.nodup_nil
  minted := nofun

section

variable {self builder : GraphBuilder} {entityId : EntityId} {names names' : List (Bytes × ComponentId)}

/-- Registering components leaves sources and rules alone, and names the keys that it mints. -/
theorem foldlM_registerComponent_frame {comps : List ComponentField}
    (hrun : comps.foldlM (registerComponent entityId) (self, names) = some (builder, names')) :
    builder.sources = self.sources ∧ builder.rules = self.rules ∧ builder.nextRuleId = self.nextRuleId ∧
      ∀ c ∈ names', c ∈ names ∨ c.2 ∈ (numbered self.nextComponentId.toNat comps).map Prod.snd := by
  induction comps generalizing self names with
  | nil =>
    obtain ⟨rfl, rfl⟩ := Prod.mk.inj (Option.some.inj hrun)
    exact ⟨rfl, rfl, rfl, fun c hc => Or.inl hc⟩
  | cons comp comps ih =>
    rw [List.foldlM_cons] at hrun
    obtain ⟨⟨self', names₁⟩, hcomp, hrest⟩ := Option.bind_eq_some_iff.mp hrun
    obtain ⟨⟨id, next⟩, hmint, hself'⟩ := Option.map_eq_some_iff.mp hcomp
    obtain ⟨rfl, hnext⟩ := mint_eq_some hmint
    obtain ⟨rfl, rfl⟩ := Prod.mk.inj hself'
    obtain ⟨hsources, hrules, hruleId, hnames⟩ := ih hrest
    refine ⟨hsources, hrules, hruleId, fun c hc => ?_⟩
    rw [numbered, List.map_cons, List.mem_cons, UInt32.ofNat_toNat]
    rcases hnames c hc with hc | hc
    · rcases mem_of_mem_putKey hc with rfl | hc
      · exact Or.inr (Or.inl rfl)
      · exact Or.inl hc
    · rw [hnext] at hc
      exact Or.inr (Or.inr hc)

theorem keys_componentEntry (entityId : EntityId) (l : List (ComponentField × ComponentId)) :
    (l.map (componentEntry entityId)).map Prod.fst = (l.map Prod.snd).map (ForwardKey.mk entityId) := by
  rw [List.map_map, List.map_map]
  rfl

/-- A source mints distinct keys of its own, and its names stand for them. -/
theorem registerSource_frame {sourceDesc : SourceDescriptor}
    (h : self.Consistent) (hrun : self.registerSource sourceDesc = some (builder, entityId)) :
    builder.Consistent ∧ builder.components = self.components ++
      (numbered self.nextComponentId.toNat sourceDesc.components).map (componentEntry entityId) := by
  obtain ⟨hfresh, hentity, -, hcount, hcomponents⟩ := registerSource_some h.fresh hrun
  obtain ⟨⟨id, next⟩, hmint, hsource⟩ := Option.bind_eq_some_iff.mp hrun
  obtain ⟨rfl, -⟩ := mint_eq_some hmint
  obtain ⟨⟨registered, names⟩, hcomps, hbuilder⟩ := Option.map_eq_some_iff.mp hsource
  obtain ⟨rfl, rfl⟩ := Prod.mk.inj hbuilder
  obtain ⟨hsources, hrules, hruleId, hnames⟩ := foldlM_registerComponent_frame hcomps
  have hkeys : registered.components.map Prod.fst = self.keys ++
      ((numbered self.nextComponentId.toNat sourceDesc.components).map Prod.snd).map
        (ForwardKey.mk self.nextEntityId) := by
    have hmap := congrArg (List.map Prod.fst) hcomponents
    rw [List.map_append, keys_componentEntry] at hmap
    exact hmap
  refine ⟨⟨?_, hfresh, ?_, ?_, ?_, ?_⟩, hcomponents⟩
  · change (registered.components.map Prod.fst).Nodup
    rw [hkeys, List.nodup_append]
    have hbound : self.nextComponentId.toNat + sourceDesc.components.length ≤ 2 ^ 32 := by
      rw [← hcount]
      exact (UInt32.toNat_lt _).le
    refine ⟨h.nodup, (nodup_numbered hbound).map fun _ _ heq => (ForwardKey.mk.inj heq).2, ?_⟩
    -- the ids of the new keys are those still to be minted
    rintro key hold other hnew rfl
    obtain ⟨entry, hentry, rfl⟩ := List.mem_map.mp hold
    obtain ⟨id, hid, hkey⟩ := List.mem_map.mp hnew
    obtain ⟨numberedField, hfield, rfl⟩ := List.mem_map.mp hid
    obtain ⟨i, hle, hlt, hi⟩ := mem_numbered hfield
    have hold' := h.fresh entry hentry
    rw [← hkey, hi, UInt32.toNat_ofNat_of_lt' (by show i < 2 ^ 32; omega)] at hold'
    omega
  · intro source hsource component hcomponent
    change _ ∈ registered.components.map Prod.fst
    rw [hkeys, List.mem_append]
    rcases mem_of_mem_putKey hsource with rfl | hsource
    · right
      rcases hnames component hcomponent with hnone | hid
      · cases hnone
      · exact List.mem_map_of_mem hid
    · exact Or.inl (h.named source hsource component hcomponent)
  · intro rule hrule key hkey
    change key ∈ registered.components.map Prod.fst
    rw [hkeys, List.mem_append]
    exact Or.inl (h.watched rule (hrules ▸ hrule) key hkey)
  · change (registered.rules.map Prod.fst).Nodup
    rw [hrules]
    exact h.ids
  · intro rule hrule
    change rule.1.toNat < registered.nextRuleId.toNat
    rw [hruleId]
    exact h.minted rule (hrules ▸ hrule)

/-- Attaching a type changes no key. -/
theorem keys_registerComponentType (self : GraphBuilder) (compDesc : ComponentDescriptor) (entityId : EntityId)
    (componentId : ComponentId) : (self.registerComponentType compDesc entityId componentId).keys = self.keys := by
  unfold registerComponentType keys
  simp only [List.map_map]
  refine List.map_congr_left fun entry _ => ?_
  simp only [Function.comp_apply]
  split_ifs <;> rfl

theorem Consistent.registerComponentType (h : self.Consistent) (compDesc : ComponentDescriptor) (entityId : EntityId)
    (componentId : ComponentId) : (self.registerComponentType compDesc entityId componentId).Consistent where
  nodup := by
    rw [keys_registerComponentType]
    exact h.nodup
  fresh entry hentry := by
    obtain ⟨entry', hentry', rfl⟩ := List.mem_map.mp hentry
    have hlt := h.fresh entry' hentry'
    split_ifs <;> exact hlt
  named := by
    rw [keys_registerComponentType]
    exact h.named
  watched := by
    rw [keys_registerComponentType]
    exact h.watched
  ids := h.ids
  minted := h.minted

/-- What a watch entry resolves to has been minted. -/
theorem Consistent.resolveWatch (h : self.Consistent) {watchEntry : Bytes} {key : ForwardKey}
    (hkey : self.resolveWatch watchEntry = some key) : key ∈ self.keys := by
  obtain ⟨rest, -, hkey⟩ := Option.bind_eq_some_iff.mp hkey
  obtain ⟨source, hsource, hkey⟩ := Option.bind_eq_some_iff.mp hkey
  obtain ⟨component, hcomponent, rfl⟩ := Option.map_eq_some_iff.mp hkey
  exact h.named source (List.mem_of_find?_eq_some hsource) component (List.mem_of_find?_eq_some hcomponent)

/-- A rule gets the next id, and watches what its entries resolve to. -/
theorem registerRule_frame {ruleDesc : RuleDescriptor} {ruleId : RuleId} (h : self.Consistent)
    (hrun : self.registerRule ruleDesc = some (builder, ruleId)) :
    builder.Consistent ∧ builder.components = self.components := by
  obtain ⟨⟨id, next⟩, hmint, hbuilder⟩ := Option.map_eq_some_iff.mp hrun
  obtain ⟨rfl, hnext⟩ := mint_eq_some hmint
  obtain ⟨rfl, rfl⟩ := Prod.mk.inj hbuilder
  have hnew : ∀ rule ∈ self.rules, rule.1 ≠ self.nextRuleId := by
    intro rule hrule heq
    have hlt := h.minted rule hrule
    rw [heq] at hlt
    exact Nat.lt_irrefl _ hlt
  have hrules := putKey_of_new (x := (self.nextRuleId, (⟨ruleDesc.name, ruleDesc.priority,
    ruleDesc.watch.filterMap self.resolveWatch⟩ : RuleRegistry))) hnew
  refine ⟨⟨h.nodup, h.fresh, h.named, ?_, ?_, ?_⟩, rfl⟩
  · intro rule hrule key hkey
    rcases mem_of_mem_putKey hrule with rfl | hrule
    · obtain ⟨watchEntry, -, hresolve⟩ := List.mem_filterMap.mp hkey
      exact h.resolveWatch hresolve
    · exact h.watched rule hrule key hkey
  · simp only [hrules, List.map_append, List.map_cons, List.map_nil]
    refine List.nodup_append.mpr ⟨h.ids, List.nodup_singleton _, ?_⟩
    rintro id hid other hother rfl
    obtain ⟨rule, hrule, rfl⟩ := List.mem_map.mp hid
    exact hnew rule hrule (List.mem_singleton.mp hother)
  · intro rule hrule
    change rule.1.toNat < next.toNat
    rw [hnext]
    rcases mem_of_mem_putKey hrule with rfl | hrule
    · exact Nat.lt_succ_self _
    · exact (h.minted rule hrule).trans (Nat.lt_succ_self _)

end

/-- What the registered fields have become, without the types that component descriptors attach. -/
def registeredFields (self : GraphBuilder) : List (Bytes × Bool) :=
  self.components.map fun entry => (entry.2.mapper, entry.2.dynamic)

theorem map_componentEntry (entityId : EntityId) (start : ℕ) (comps : List ComponentField) :
    ((numbered start comps).map (componentEntry entityId)).map (fun entry => (entry.2.mapper, entry.2.dynamic)) =
      comps.map fun comp => (comp.mapper, comp.dynamic) := by
  induction comps generalizing start with
  | nil => rfl
  | cons comp comps ih =>
    rw [numbered, List.map_cons, List.map_cons, ih, List.map_cons]
    rfl

/-- One registration keeps the builder consistent, and registers its fields after those before it. -/
theorem Consistent.register {self builder : GraphBuilder} {call : Registration} (h : self.Consistent)
    (hrun : self.register call = some builder) :
    builder.Consistent ∧ builder.registeredFields =
      self.registeredFields ++ call.fields.map fun field => (field.mapper, field.dynamic) := by
  cases call with
  | source sourceDesc =>
    obtain ⟨⟨_, entityId⟩, hsource, rfl⟩ := Option.map_eq_some_iff.mp hrun
    obtain ⟨hconsistent, hcomponents⟩ := registerSource_frame h hsource
    refine ⟨hconsistent, ?_⟩
    rw [registeredFields, hcomponents, List.map_append, map_componentEntry]
    rfl
  | componentType compDesc entityId componentId =>
    obtain rfl := Option.some.inj hrun
    refine ⟨h.registerComponentType compDesc entityId componentId, ?_⟩
    rw [Registration.fields, List.map_nil, List.append_nil]
    simp only [registeredFields, GraphBuilder.registerComponentType, List.map_map]
    refine List.map_congr_left fun entry _ => ?_
    simp only [Function.comp_apply]
    split_ifs <;> rfl
  | rule ruleDesc =>
    obtain ⟨⟨_, ruleId⟩, hrule, rfl⟩ := Option.map_eq_some_iff.mp hrun
    obtain ⟨hconsistent, hcomponents⟩ := registerRule_frame h hrule
    refine ⟨hconsistent, ?_⟩
    rw [registeredFields, hcomponents, Registration.fields, List.map_nil, List.append_nil]
    rfl

/-- **Any sequence of registrations leaves a consistent builder**, with every registered field. -/
theorem Consistent.registerAll {self builder : GraphBuilder} {calls : List Registration} (h : self.Consistent)
    (hrun : self.registerAll calls = some builder) :
    builder.Consistent ∧ builder.registeredFields =
      self.registeredFields ++ (calls.flatMap Registration.fields).map fun field => (field.mapper, field.dynamic) := by
  unfold GraphBuilder.registerAll at hrun
  induction calls generalizing self with
  | nil =>
    obtain rfl := Option.some.inj hrun
    exact ⟨h, by simp⟩
  | cons call calls ih =>
    rw [List.foldlM_cons] at hrun
    obtain ⟨self', hcall, hrest⟩ := Option.bind_eq_some_iff.mp hrun
    obtain ⟨h', hfields⟩ := h.register hcall
    obtain ⟨hbuilder, hall⟩ := ih h' hrest
    refine ⟨hbuilder, ?_⟩
    rw [hall, hfields, List.flatMap_cons, List.map_append, List.append_assoc]

/-! ## Building, in any order -/

section

variable {self : GraphBuilder} {forward : ForwardIndex} {key key' : ForwardKey} {ruleId : RuleId}

theorem watchers_of_lookup {entry : Forward} (h : forward.lookup key = some entry) :
    forward.watchers key = entry.watchers := by
  rw [ForwardIndex.watchers, h]
  rfl

/-- Adding a watcher changes nothing else of an entry. -/
theorem unwatched_addWatcher (ruleId : RuleId) (forward : ForwardIndex) (key key' : ForwardKey) :
    ((addWatcher ruleId forward key).lookup key').map Forward.unwatched =
      (forward.lookup key').map Forward.unwatched := by
  unfold addWatcher
  cases h : forward.lookup key with
  | none => rfl
  | some entry =>
    simp only [FMap.lookup_insert_eq]
    by_cases hk : key' = key
    · rw [if_pos hk, hk, h]
      rfl
    · rw [if_neg hk]

theorem isSome_of_unwatched {forward' : ForwardIndex}
    (h : (forward'.lookup key).map Forward.unwatched = (forward.lookup key).map Forward.unwatched) :
    (forward'.lookup key).isSome = (forward.lookup key).isSome := by
  rw [← Option.isSome_map (f := Forward.unwatched), h, Option.isSome_map]

/-- Adding a watcher appends it to the watchers of a known component. -/
theorem watchers_addWatcher (ruleId : RuleId) (h : (forward.lookup key').isSome) :
    (addWatcher ruleId forward key).watchers key' =
      forward.watchers key' ++ List.replicate ([key].count key') ruleId := by
  unfold addWatcher
  cases hlookup : forward.lookup key with
  | none =>
    have hne : key ≠ key' := by
      rintro rfl
      rw [hlookup] at h
      cases h
    rw [List.count_singleton, beq_eq_false_iff_ne.mpr hne]
    simp
  | some entry =>
    by_cases hk : key' = key
    · subst hk
      rw [ForwardIndex.watchers, FMap.lookup_insert_eq, if_pos rfl, watchers_of_lookup hlookup,
        List.count_singleton_self]
      rfl
    · have hne : key ≠ key' := Ne.symm hk
      rw [ForwardIndex.watchers, FMap.lookup_insert_eq, if_neg hk, List.count_singleton,
        beq_eq_false_iff_ne.mpr hne]
      simp [ForwardIndex.watchers]

theorem foldl_addWatcher (ruleId : RuleId) (watchList : List ForwardKey) (forward : ForwardIndex)
    (key : ForwardKey) :
    ((watchList.foldl (addWatcher ruleId) forward).lookup key).map Forward.unwatched =
        (forward.lookup key).map Forward.unwatched ∧
      ((forward.lookup key).isSome → (watchList.foldl (addWatcher ruleId) forward).watchers key =
        forward.watchers key ++ List.replicate (watchList.count key) ruleId) := by
  induction watchList generalizing forward with
  | nil => exact ⟨rfl, fun _ => by simp⟩
  | cons watched watchList ih =>
    obtain ⟨hentry, hwatchers⟩ := ih (addWatcher ruleId forward watched)
    have hadd := unwatched_addWatcher ruleId forward watched key
    rw [isSome_of_unwatched hadd] at hwatchers
    refine ⟨hentry.trans hadd, fun h => ?_⟩
    have hcount : (watched :: watchList).count key = [watched].count key + watchList.count key := by
      rw [← List.count_append]
      rfl
    rw [List.foldl_cons, hwatchers h, watchers_addWatcher ruleId h, hcount, List.append_assoc,
      ← List.replicate_add]

/-- Which watchers are added to a component: every rule as often as it names the component. -/
theorem addWatchers_spec (self : GraphBuilder) (forward : ForwardIndex) (key : ForwardKey) :
    ((self.addWatchers forward).lookup key).map Forward.unwatched = (forward.lookup key).map Forward.unwatched ∧
      ((forward.lookup key).isSome → (self.addWatchers forward).watchers key = forward.watchers key ++
        self.rules.flatMap fun rule => List.replicate (rule.2.watchList.count key) rule.1) := by
  unfold addWatchers
  generalize self.rules = rules
  induction rules generalizing forward with
  | nil => exact ⟨rfl, fun _ => by simp⟩
  | cons rule rules ih =>
    obtain ⟨hentry, hwatchers⟩ := foldl_addWatcher rule.1 rule.2.watchList forward key
    obtain ⟨hentry', hwatchers'⟩ := ih (rule.2.watchList.foldl (addWatcher rule.1) forward)
    rw [isSome_of_unwatched hentry] at hwatchers'
    refine ⟨hentry'.trans hentry, fun h => ?_⟩
    rw [List.foldl_cons, hwatchers' h, hwatchers h, List.flatMap_cons, List.append_assoc]

/-- What a registered rule is called by is its only rule. -/
theorem count_flatMap_replicate {rules : List (RuleId × RuleRegistry)} (h : (rules.map Prod.fst).Nodup)
    (ruleId : RuleId) (key : ForwardKey) :
    (rules.flatMap fun rule => List.replicate (rule.2.watchList.count key) rule.1).count ruleId =
      ((rules.find? fun rule => rule.1 == ruleId).map fun rule => rule.2.watchList.count key).getD 0 := by
  induction rules with
  | nil => rfl
  | cons rule rules ih =>
    rw [List.map_cons, List.nodup_cons] at h
    rw [List.flatMap_cons, List.count_append, ih h.2, List.count_replicate]
    by_cases hid : rule.1 = ruleId
    · have hnone : rules.find? (fun other => other.1 == ruleId) = none := by
        rw [List.find?_eq_none]
        intro other hother heq
        exact h.1 (hid.trans (beq_iff_eq.mp heq).symm ▸ List.mem_map_of_mem hother)
      rw [List.find?_cons_of_pos (by simpa using hid), hnone, if_pos (by simpa using hid)]
      rfl
    · rw [List.find?_cons_of_neg (by simpa using hid), if_neg (by simpa using hid), Nat.zero_add]

/-- The entry of a component in the forward index, without its watchers. -/
def forwardEntry (self : GraphBuilder) (component : ForwardKey × ComponentRegistry) : Forward where
  watchers := []
  source := self.sourceName component.2.entityId
  componentType := component.2.typeName
  mapper := component.2.mapper
  dynamic := component.2.dynamic

/-- The entry of a rule in the reverse index. -/
def reverseEntry (self : GraphBuilder) (rule : RuleId × RuleRegistry) : Reverse where
  watch := rule.2.watchList
  priority := rule.2.priority
  entrypoint := entrypointPrefix ++ rule.2.name
  moduleRef := self.moduleRef
  namespaceId := self.namespaceId

theorem lookup_addComponents (h : self.Consistent) (key : ForwardKey) :
    (self.addComponents ∅).lookup key =
      (self.components.find? fun component => component.1 == key).map self.forwardEntry := by
  have hfold := FMap.lookup_foldl_insert Prod.fst self.forwardEntry h.nodup ∅ key
  rw [Finmap.lookup_empty, Option.or_none] at hfold
  exact hfold

theorem lookup_addRules (h : self.Consistent) (ruleId : RuleId) :
    (self.addRules ∅).lookup ruleId = (self.rules.find? fun rule => rule.1 == ruleId).map self.reverseEntry := by
  have hfold := FMap.lookup_foldl_insert Prod.fst self.reverseEntry h.ids ∅ ruleId
  rw [Finmap.lookup_empty, Option.or_none] at hfold
  exact hfold

theorem lookup_forward_build (h : self.Consistent) (key : ForwardKey) :
    ((self.build .empty).forward.lookup key).map Forward.unwatched =
      (self.components.find? fun component => component.1 == key).map self.forwardEntry := by
  change ((self.addWatchers (self.addComponents ∅)).lookup key).map Forward.unwatched = _
  rw [(addWatchers_spec self _ key).1, lookup_addComponents h, Option.map_map]
  rfl

/-- The forward index has the registered keys. -/
theorem isSome_lookup_build (h : self.Consistent) (key : ForwardKey) :
    ((self.build .empty).forward.lookup key).isSome ↔ key ∈ self.keys := by
  rw [← Option.isSome_map (f := Forward.unwatched), lookup_forward_build h, Option.isSome_map, List.find?_isSome,
    keys, List.mem_map]
  simp only [beq_iff_eq]

/-- A registered component is found under its key. -/
theorem lookup_component (h : self.Consistent) {component : ForwardKey × ComponentRegistry}
    (hcomponent : component ∈ self.components) : ∃ entry,
      (self.build .empty).forward.lookup component.1 = some entry ∧ entry.mapper = component.2.mapper ∧
        entry.dynamic = component.2.dynamic := by
  have hfind := (find?_eq_some_iff_mem (f := Prod.fst) (b := component.1) h.nodup).mpr ⟨hcomponent, rfl⟩
  have hentry := lookup_forward_build h component.1
  rw [hfind] at hentry
  obtain ⟨entry, hlookup, hunwatched⟩ := Option.map_eq_some_iff.mp hentry
  exact ⟨entry, hlookup, congrArg Forward.mapper hunwatched, congrArg Forward.dynamic hunwatched⟩

theorem lookup_reverse_build (h : self.Consistent) (ruleId : RuleId) :
    (self.build .empty).reverse.lookup ruleId =
      (self.rules.find? fun rule => rule.1 == ruleId).map self.reverseEntry := lookup_addRules h ruleId

/-- Whatever a rule watches is known. -/
theorem isSome_of_mem_watch (h : self.Consistent) (hkey : key ∈ (self.build .empty).reverse.watch ruleId) :
    ((self.build .empty).forward.lookup key).isSome := by
  rw [isSome_lookup_build h]
  rw [ReverseIndex.watch, lookup_reverse_build h] at hkey
  cases hfind : self.rules.find? fun rule => rule.1 == ruleId with
  | none =>
    rw [hfind] at hkey
    cases hkey
  | some rule =>
    rw [hfind] at hkey
    exact h.watched rule (List.mem_of_find?_eq_some hfind) key hkey

/-- **A rule is among the watchers of a component as often as the component is in its watch list.** -/
theorem count_watchers (h : self.Consistent) (ruleId : RuleId) (key : ForwardKey) :
    ((self.build .empty).forward.watchers key).count ruleId =
      ((self.build .empty).reverse.watch ruleId).count key := by
  by_cases hkey : ((self.addComponents ∅).lookup key).isSome = true
  · have hempty : (self.addComponents ∅).watchers key = [] := by
      rw [ForwardIndex.watchers, lookup_addComponents h]
      cases self.components.find? fun component => component.1 == key <;> rfl
    change ((self.addWatchers (self.addComponents ∅)).watchers key).count ruleId = _
    rw [(addWatchers_spec self _ key).2 hkey, hempty, List.nil_append, count_flatMap_replicate h.ids,
      ReverseIndex.watch, lookup_reverse_build h]
    cases self.rules.find? fun rule => rule.1 == ruleId <;> rfl
  · have hunknown : ((self.build .empty).forward.lookup key).isSome = false := by
      change ((self.addWatchers (self.addComponents ∅)).lookup key).isSome = false
      rw [isSome_of_unwatched (addWatchers_spec self _ key).1]
      exact Bool.eq_false_iff.mpr hkey
    have hnotMem : key ∉ (self.build .empty).reverse.watch ruleId := fun hmem => by
      rw [isSome_of_mem_watch h hmem] at hunknown
      cases hunknown
    have hnone := Option.isNone_iff_eq_none.mp (Option.isSome_eq_false_iff.mp hunknown)
    rw [List.count_eq_zero_of_not_mem hnotMem, ForwardIndex.watchers, hnone]
    rfl

/-- The order in which the maps are iterated does not matter. -/
theorem Consistent.reordered {builder other : GraphBuilder} (h : builder.Consistent)
    (hother : builder.Reordered other) : other.Consistent := by
  have hkeys : ∀ key, key ∈ other.keys ↔ key ∈ builder.keys :=
    fun key => (hother.components.map Prod.fst).mem_iff.symm
  constructor
  · exact (hother.components.map Prod.fst).nodup_iff.mp h.nodup
  · intro entry hentry
    rw [hother.nextComponentId]
    exact h.fresh entry (hother.components.mem_iff.mpr hentry)
  · intro source hsource component hcomponent
    exact (hkeys _).mpr (h.named source (hother.sources.mem_iff.mpr hsource) component hcomponent)
  · intro rule hrule key hkey
    exact (hkeys key).mpr (h.watched rule (hother.rules.mem_iff.mpr hrule) key hkey)
  · exact (hother.rules.map Prod.fst).nodup_iff.mp h.ids
  · intro rule hrule
    rw [hother.nextRuleId]
    exact h.minted rule (hother.rules.mem_iff.mpr hrule)

end

end GraphBuilder

end Slung
