import Slung.Lib.LwwMap
import Slung.Types

/-!
# Slung.Wasm.Index — the capability graph (`wasm/index.zig`)

Which rules watch a component, and what is known of a rule.  A graph carries the fact that every watcher is a
registered rule: the inference loop fills in the priority of each watcher from the reverse index, and leaves
the slot of a watcher without an entry undefined.
-/

namespace Slung

open Slung.Lib

structure ForwardKey where
  entity : EntityId
  component : ComponentId
deriving DecidableEq, Repr

structure Forward where
  watchers : List RuleId
  source : Bytes
  componentType : Bytes
  mapper : Bytes
  dynamic : Bool
deriving DecidableEq, Repr

structure Reverse where
  /-- components this rule watches -/
  watch : List ForwardKey
  priority : UInt8
  entrypoint : Bytes
  moduleRef : Bytes
  namespaceId : NamespaceId
deriving DecidableEq, Repr

abbrev ForwardIndex := FMap ForwardKey Forward

abbrev ReverseIndex := FMap RuleId Reverse

/-- Every watcher of a component has an entry in the reverse index. -/
def Registered (forward : ForwardIndex) (reverse : ReverseIndex) : Prop :=
  ∀ key entry, forward.lookup key = some entry → ∀ r ∈ entry.watchers, (reverse.lookup r).isSome

structure CapabilityGraph where
  forward : ForwardIndex
  reverse : ReverseIndex
  registered : Registered forward reverse

def CapabilityGraph.empty : CapabilityGraph := ⟨∅, ∅, fun _ _ h => by simp at h⟩

end Slung
