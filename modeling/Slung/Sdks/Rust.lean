import Slung.Wasm.Module

/-!
# Slung.Sdks.Rust — component ids in a module (`sdks/rust/macros/src/lib.rs`, `sdks/rust/src/lib.rs`)

The `#[source]` macro numbers the component fields of each struct from 0 on, and a rule runs in the context of
entity 0.  The host mints an entity for each source and numbers the components on through all of them, so the two
agree only about the first source (`SourceExpansion.keys_agree_iff`).
-/

namespace Slung

open Slung.Lib

/-- What the attributes of a field say. -/
structure SourceFieldMeta where
  isConfig : Bool
  configValue : Option Bytes
  mapper : Option Bytes

/-- A field of a source struct, as its attributes and its type are read. -/
structure SourceField where
  ident : Option Bytes
  /-- `none` if they are malformed -/
  attrs : Option SourceFieldMeta
  typeName : Bytes
  /-- the JSON of a config value, if it is one of the type of the field -/
  configJsonValue : Bytes → Option Bytes

/-- The struct under a `#[source]`. -/
structure SourceStruct where
  name : Bytes
  fields : List SourceField

/-- Typed component selector used by descriptor-based rules. -/
structure ComponentKey where
  source : Bytes
  field : Bytes
  componentId : UInt32
deriving DecidableEq, Repr

/-- Rule execution context for typed descriptor-based handlers. -/
structure RuleContext where
  entityId : UInt32
deriving DecidableEq, Repr

namespace RuleContext

/-- The context that `#[rule]` runs a handler in. -/
def default : RuleContext := ⟨0⟩

/-- What `get` and `set` pass to the host. -/
def pair (self : RuleContext) (component : ComponentKey) : ForwardKey := ⟨self.entityId, component.componentId⟩

end RuleContext

/-- `__slung_map_{source}_{field}` -/
def mapperExport (sourceName field : Bytes) : Bytes :=
  "__slung_map_".toUTF8.toList ++ sourceName ++ 95 :: field

/-- What the macro has made of the fields so far. -/
structure SourceExpansion where
  componentDescriptors : List ComponentField
  componentConsts : List ComponentKey
  nextComponentId : UInt32
deriving DecidableEq, Repr

namespace SourceExpansion

def expandField (sourceName : Bytes) (acc : SourceExpansion) (field : SourceField) : Option SourceExpansion :=
  match field.ident with
  | none => some acc
  | some fieldIdent =>
    field.attrs.bind fun attrs =>
      if attrs.isConfig then (attrs.configValue.bind field.configJsonValue).map fun _ => acc
      else
        (mint acc.nextComponentId).map fun minted => {
          componentDescriptors := acc.componentDescriptors ++
            [⟨fieldIdent, field.typeName, mapperExport sourceName fieldIdent, false⟩]
          componentConsts := acc.componentConsts ++ [⟨sourceName, fieldIdent, minted.1⟩]
          nextComponentId := minted.2 }

/-- The macro; `none` if the struct does not compile. -/
def source (input : SourceStruct) : Option SourceExpansion :=
  input.fields.foldlM (expandField input.name) ⟨[], [], 0⟩

/-- The descriptors that a module of these structs exports. -/
def descriptors (inputs : List SourceStruct) (expansions : List SourceExpansion) : List SourceDescriptor :=
  inputs.zipWith (fun input expansion => ⟨input.name, expansion.componentDescriptors⟩) expansions

/-- What rules pass to the host for the constants of a struct, beside the mappers of the fields. -/
def passed (self : SourceExpansion) : List (Bytes × ForwardKey) :=
  self.componentConsts.map fun component =>
    (mapperExport component.source component.field, RuleContext.default.pair component)

end SourceExpansion

/-- A minted key, beside the mapper of its field. -/
def ComponentRegistry.key (entry : ForwardKey × ComponentRegistry) : Bytes × ForwardKey :=
  (entry.2.mapper, entry.1)

/-- The keys that the host has minted. -/
def GraphBuilder.minted (self : GraphBuilder) : List (Bytes × ForwardKey) :=
  self.components.map ComponentRegistry.key

/-- The descriptor of a field with a component. -/
def SourceField.component? (sourceName : Bytes) (field : SourceField) : Option ComponentField :=
  field.ident.bind fun fieldIdent =>
    field.attrs.bind fun attrs =>
      if attrs.isConfig then none
      else some ⟨fieldIdent, field.typeName, mapperExport sourceName fieldIdent, false⟩

namespace SourceStruct

def components (self : SourceStruct) : List ComponentField :=
  self.fields.filterMap (SourceField.component? self.name)

def descriptor (self : SourceStruct) : SourceDescriptor := ⟨self.name, self.components⟩

/-- The components numbered from 0, as those of entity 0. -/
def keys (self : SourceStruct) : List (Bytes × ForwardKey) :=
  (numbered 0 self.components).map fun minted => (minted.1.mapper, ⟨0, minted.2⟩)

end SourceStruct

namespace SourceExpansion

/-- Rules and the host have the same key for every field, and no key for two. -/
def Agree (expansions : List SourceExpansion) (builder : GraphBuilder) : Prop :=
  expansions.flatMap passed = builder.minted ∧ ((expansions.flatMap passed).map Prod.snd).Nodup

section

variable {input : SourceStruct} {inputs : List SourceStruct} {expansion : SourceExpansion}
  {expansions : List SourceExpansion}

/-- One more field: nothing new, or the next id for it. -/
theorem expandField_some {sourceName : Bytes} {acc acc' : SourceExpansion} {field : SourceField}
    (h : expandField sourceName acc field = some acc') :
    field.component? sourceName = none ∧ acc' = acc ∨
      ∃ comp, field.component? sourceName = some comp ∧ comp.mapper = mapperExport sourceName comp.name ∧
        acc'.nextComponentId.toNat = acc.nextComponentId.toNat + 1 ∧
        acc'.componentDescriptors = acc.componentDescriptors ++ [comp] ∧
        acc'.componentConsts = acc.componentConsts ++ [⟨sourceName, comp.name, acc.nextComponentId⟩] := by
  unfold expandField at h
  unfold SourceField.component?
  rcases hident : field.ident with _ | fieldIdent
  · rw [hident] at h
    exact Or.inl ⟨rfl, (Option.some.inj h).symm⟩
  rw [hident] at h
  obtain ⟨attrs, hattrs, hfield⟩ := Option.bind_eq_some_iff.mp h
  rw [hattrs]
  by_cases hconfig : attrs.isConfig
  · rw [if_pos hconfig] at hfield
    obtain ⟨_, -, hacc⟩ := Option.map_eq_some_iff.mp hfield
    exact Or.inl ⟨by simp [hconfig], hacc.symm⟩
  · rw [if_neg hconfig] at hfield
    obtain ⟨⟨id, next⟩, hmint, rfl⟩ := Option.map_eq_some_iff.mp hfield
    obtain ⟨rfl, hnext⟩ := mint_eq_some hmint
    exact Or.inr ⟨⟨fieldIdent, field.typeName, mapperExport sourceName fieldIdent, false⟩, by simp [hconfig],
      rfl, hnext, rfl, rfl⟩

/-- The fields with a component get the ids from the counter on. -/
theorem foldlM_expandField {sourceName : Bytes} {fields : List SourceField} {acc : SourceExpansion}
    (h : fields.foldlM (expandField sourceName) acc = some expansion) :
    expansion.nextComponentId.toNat =
        acc.nextComponentId.toNat + (fields.filterMap (SourceField.component? sourceName)).length ∧
      expansion.componentDescriptors =
        acc.componentDescriptors ++ fields.filterMap (SourceField.component? sourceName) ∧
      expansion.passed = acc.passed ++
        (numbered acc.nextComponentId.toNat (fields.filterMap (SourceField.component? sourceName))).map
          fun minted => (minted.1.mapper, ⟨RuleContext.default.entityId, minted.2⟩) := by
  induction fields generalizing acc with
  | nil =>
    obtain rfl := Option.some.inj h
    exact ⟨by simp, by simp, by simp⟩
  | cons field fields ih =>
    rw [List.foldlM_cons] at h
    obtain ⟨acc', hfield, hrest⟩ := Option.bind_eq_some_iff.mp h
    obtain ⟨hcount, hdescriptors, hpassed⟩ := ih hrest
    rcases expandField_some hfield with ⟨hnone, rfl⟩ | ⟨comp, hcomp, hmapper, hnext, hnew, hconst⟩
    · rw [List.filterMap_cons_none hnone]
      exact ⟨hcount, hdescriptors, hpassed⟩
    · rw [List.filterMap_cons_some hcomp, hcount, hdescriptors, hnew, hpassed, hnext, numbered,
        UInt32.ofNat_toNat, List.length_cons]
      refine ⟨by omega, by simp, ?_⟩
      simp [passed, hconst, hmapper, RuleContext.pair]

/-- A struct is expanded to its components, numbered from 0. -/
theorem source_some (h : source input = some expansion) : input.components.length < 2 ^ 32 ∧
    expansion.componentDescriptors = input.components ∧ expansion.passed = input.keys := by
  obtain ⟨hcount, hdescriptors, hpassed⟩ := foldlM_expandField h
  refine ⟨?_, hdescriptors, hpassed⟩
  have hlength : expansion.nextComponentId.toNat = 0 + input.components.length := hcount
  have hlt := expansion.nextComponentId.toNat_lt
  omega

theorem mapM_source_some (h : inputs.mapM source = some expansions) :
    (∀ input ∈ inputs, input.components.length < 2 ^ 32) ∧
      descriptors inputs expansions = inputs.map SourceStruct.descriptor ∧
      expansions.flatMap passed = inputs.flatMap SourceStruct.keys := by
  induction inputs generalizing expansions with
  | nil =>
    obtain rfl := Option.some.inj h
    exact ⟨by simp, rfl, rfl⟩
  | cons input inputs ih =>
    rw [List.mapM_cons] at h
    obtain ⟨expansion, hsource, hrest⟩ := Option.bind_eq_some_iff.mp h
    obtain ⟨rest, hmap, hcons⟩ := Option.bind_eq_some_iff.mp hrest
    obtain rfl := Option.some.inj hcons
    obtain ⟨hlength, hdescriptors, hpassed⟩ := source_some hsource
    obtain ⟨hlengths, hds, hps⟩ := ih hmap
    refine ⟨List.forall_mem_cons.mpr ⟨hlength, hlengths⟩, ?_, ?_⟩
    · show ⟨input.name, expansion.componentDescriptors⟩ :: descriptors inputs rest = _
      rw [hds, hdescriptors, List.map_cons]
      rfl
    · rw [List.flatMap_cons, hps, hpassed, List.flatMap_cons]

/-- The keys of later sources are of entity 0 for the rules, and of other entities for the host. -/
theorem keys_eq_registeredFrom_iff {entity component : ℕ} (hpos : 0 < entity)
    (hle : entity + inputs.length ≤ 2 ^ 32) :
    inputs.flatMap SourceStruct.keys =
        (GraphBuilder.registeredFrom entity component (inputs.map SourceStruct.descriptor)).map
          ComponentRegistry.key ↔
      ∀ input ∈ inputs, input.components = [] := by
  have hnone : GraphBuilder.registeredFrom entity component (inputs.map SourceStruct.descriptor) = [] ↔
      ∀ input ∈ inputs, input.components = [] := by
    rw [GraphBuilder.registeredFrom_eq_nil_iff, List.forall_mem_map]
    rfl
  constructor
  · intro heq
    rw [← hnone, List.eq_nil_iff_forall_not_mem]
    intro entry hentry
    obtain ⟨i, hi, hlt, hid⟩ := GraphBuilder.mem_registeredFrom hentry
    rw [List.length_map] at hlt
    have hkey : (entry.2.mapper, entry.1) ∈ inputs.flatMap SourceStruct.keys :=
      heq ▸ List.mem_map_of_mem hentry
    obtain ⟨input, -, hinput⟩ := List.mem_flatMap.mp hkey
    obtain ⟨minted, -, hminted⟩ := List.mem_map.mp hinput
    have hzero : entry.1.entity = 0 := (congrArg (fun key => key.2.entity) hminted).symm
    have hnat := congrArg UInt32.toNat (hid.symm.trans hzero)
    rw [UInt32.toNat_ofNat_of_lt' (by show i < 2 ^ 32; omega)] at hnat
    exact absurd hnat (by show i ≠ 0; omega)
  · intro hall
    have hkeys : inputs.flatMap SourceStruct.keys = [] :=
      List.flatMap_eq_nil_iff.mpr fun input hinput => by simp [SourceStruct.keys, hall input hinput]
    rw [hkeys, hnone.mpr hall, List.map_nil]

theorem nodup_keys {input : SourceStruct} (h : input.components.length < 2 ^ 32) :
    (input.keys.map Prod.snd).Nodup := by
  have hkeys : input.keys.map Prod.snd =
      ((numbered 0 input.components).map Prod.snd).map fun id => (⟨0, id⟩ : ForwardKey) := by
    rw [SourceStruct.keys, List.map_map, List.map_map]
    rfl
  rw [hkeys]
  exact (nodup_numbered (by omega)).map fun id id' heq => (ForwardKey.mk.inj heq).2

end

/-- **When the module and the host agree**: exactly if no source but the first has a component. -/
theorem keys_agree_iff {inputs : List SourceStruct} {expansions : List SourceExpansion} {builder : GraphBuilder}
    {namespaceId : NamespaceId} {moduleRef : Bytes} (hexpand : inputs.mapM source = some expansions)
    (hregister : (GraphBuilder.init namespaceId moduleRef).registerSources (descriptors inputs expansions) =
      some builder) :
    Agree expansions builder ↔ ∀ input ∈ inputs.tail, input.components = [] := by
  obtain ⟨hlengths, hdescriptors, hpassed⟩ := mapM_source_some hexpand
  rw [hdescriptors] at hregister
  obtain ⟨hcount, hcomponents⟩ :=
    GraphBuilder.registerSources_some (GraphBuilder.fresh_init namespaceId moduleRef) hregister
  have hentities := builder.nextEntityId.toNat_lt
  rw [Agree, GraphBuilder.minted, hpassed, hcomponents]
  cases inputs with
  | nil => exact iff_of_true ⟨rfl, by simp⟩ (by simp)
  | cons input inputs =>
    have hlength : builder.nextEntityId.toNat = 0 + (inputs.length + 1) := by
      rw [hcount, List.length_map, List.length_cons]
      rfl
    -- the first source has entity 0 on both sides
    have hfirst : (GraphBuilder.registeredFrom 0 0 ((input :: inputs).map SourceStruct.descriptor)).map
          ComponentRegistry.key =
        input.keys ++ (GraphBuilder.registeredFrom 1 (0 + input.components.length)
          (inputs.map SourceStruct.descriptor)).map ComponentRegistry.key := by
      rw [List.map_cons, GraphBuilder.registeredFrom, List.map_append, List.map_map]
      rfl
    show _ = (GraphBuilder.registeredFrom 0 0 ((input :: inputs).map SourceStruct.descriptor)).map
      ComponentRegistry.key ∧ _ ↔ _
    rw [hfirst, List.flatMap_cons, List.append_cancel_left_eq,
      keys_eq_registeredFrom_iff Nat.one_pos (by omega), List.tail_cons]
    refine and_iff_left_of_imp fun hall => ?_
    have hnone : inputs.flatMap SourceStruct.keys = [] :=
      List.flatMap_eq_nil_iff.mpr fun input hinput => by simp [SourceStruct.keys, hall input hinput]
    rw [hnone, List.append_nil]
    exact nodup_keys (hlengths input (by simp))

/-- A source with a config field and two components, and one without components. -/
theorem keys_agree_iff_two_sources :
    let config : SourceField := ⟨some [112], some ⟨true, some [47], none⟩, [83], some⟩
    let component (field : UInt8) : SourceField := ⟨some [field], some ⟨false, none, none⟩, [84], fun _ => none⟩
    let inputs : List SourceStruct := [⟨[65], [config, component 97, component 98]⟩, ⟨[66], [config]⟩]
    ∃ expansions builder, inputs.mapM source = some expansions ∧
      (GraphBuilder.init [] []).registerSources (descriptors inputs expansions) = some builder ∧
      (Agree expansions builder ↔ ∀ input ∈ inputs.tail, input.components = []) := by
  exact ⟨_, _, rfl, rfl, keys_agree_iff rfl rfl⟩

/-- The field of the second source has the key of the first source's for the rules. -/
theorem key_of_another_source :
    let component : SourceField := ⟨some [97], some ⟨false, none, none⟩, [84], fun _ => none⟩
    let inputs : List SourceStruct := [⟨[65], [component]⟩, ⟨[66], [component]⟩]
    ((inputs.mapM source).map fun expansions => (expansions.flatMap passed).map Prod.snd) =
        some [⟨0, 0⟩, ⟨0, 0⟩] ∧
      (((inputs.mapM source).bind fun expansions =>
        (GraphBuilder.init [] []).registerSources (descriptors inputs expansions)).map fun builder =>
          builder.minted.map Prod.snd) = some [⟨0, 0⟩, ⟨1, 1⟩] := by
  decide +kernel

end SourceExpansion

end Slung
