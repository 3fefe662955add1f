import Mathlib.Data.Nat.Notation

/-!
# Slung.Types — the ids and tags every component shares (`types.zig`)

Slices of bytes are lists of `UInt8`; ids are the 32-bit integers of the source.
-/

namespace Slung

/-- A slice of bytes. -/
abbrev Bytes := List UInt8

abbrev ComponentId := UInt32
abbrev EntityId := UInt32
abbrev RuleId := UInt32
abbrev NamespaceId := Bytes
abbrev NodeId := Bytes

/-- Identifies the rule or source that triggered a write. -/
structure CausalTag where
  /-- could also be a `RuleId` -/
  cause : ComponentId
  entity : EntityId
  node : NodeId
deriving DecidableEq, Repr

structure DirtyEntry where
  entity : EntityId
  component : ComponentId
deriving DecidableEq, Repr

/-- The value of a cached fact.  An `f64` is carried as its 64 bits: it is stored, copied and printed, never
computed with. -/
inductive Value where
  | bool (b : Bool)
  | int (i : Int64)
  | float (bits : UInt64)
  | bytes (b : Bytes)
deriving DecidableEq, Repr

end Slung
