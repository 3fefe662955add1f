import Slung.Lib.Bytes
import Slung.Lib.LinearMemory
import Slung.Types

/-!
# Slung.Sdks.Mapper — mappers in the guest (`sdks/rust/macros/src/lib.rs`, `sdks/go/sdk/sdk.go`)

The mapper that an SDK exports reads the raw data where the host says that they are, parses and encodes, copies the
encoded value to the output pointer and writes its length to the length pointer, in this order.  None of the
four arguments is checked, so the length goes into the value where the value reaches the length pointer
(`SdkMapper.call_mapped`).
-/

namespace Slung

open Slung.Lib

/-- The memory of a guest has addresses of 32 bits. -/
abbrev GuestMemory := LinearMemory UInt8 (2 ^ 32)

/-- An export that maps source data, with `rawPtr`, `rawLen`, `outPtr` and `outLenPtr`.  It leaves a memory, which
never shrinks, and a status, which is `none` where it traps. -/
structure MapperExport where
  call : GuestMemory → ℕ → ℕ → ℕ → ℕ → GuestMemory × Option UInt32
  grows : ∀ mem rawPtr rawLen outPtr outLenPtr, mem.size ≤ (call mem rawPtr rawLen outPtr outLenPtr).1.size

/-- What the author gives an SDK. -/
structure SdkMapper (T : Type) where
  parse : Bytes → Option T
  marshal : T → Option Bytes
  /-- what this leaves in the memory -/
  work : GuestMemory → GuestMemory
  grows : ∀ mem, mem.size ≤ (work mem).size

namespace SdkMapper

variable {T : Type} {self : SdkMapper T} {mem : GuestMemory} {rawPtr rawLen outPtr outLenPtr size : ℕ} {raw out : Bytes}

/-- The encoded value of raw data. -/
def encode (self : SdkMapper T) (raw : Bytes) : Option Bytes := (self.parse raw).bind self.marshal

/-- What the SDK makes of it. -/
def call (self : SdkMapper T) (mem : GuestMemory) (rawPtr rawLen outPtr outLenPtr : ℕ) :
    GuestMemory × Option UInt32 :=
  match mem.read rawPtr rawLen with
  | none => (mem, none)
  | some raw =>
    let mem := self.work mem
    match self.parse raw with
    | none => (mem, some 1)
    | some value =>
      match self.marshal value with
      | none => (mem, some 2)
      | some encoded =>
        match mem.write outPtr encoded with
        | none => (mem, none)
        | some mem =>
          match mem.write outLenPtr (leBytes 4 encoded.length) with
          | none => (mem, none)
          | some mem => (mem, some 0)

theorem call_grows (self : SdkMapper T) (mem : GuestMemory) (rawPtr rawLen outPtr outLenPtr : ℕ) :
    mem.size ≤ (self.call mem rawPtr rawLen outPtr outLenPtr).1.size := by
  unfold call
  cases mem.read rawPtr rawLen with
  | none => exact le_rfl
  | some raw =>
    simp only
    cases self.parse raw with
    | none => exact self.grows mem
    | some value =>
      simp only
      cases self.marshal value with
      | none => exact self.grows mem
      | some encoded =>
        simp only
        cases hcopy : (self.work mem).write outPtr encoded with
        | none => exact self.grows mem
        | some mem₁ =>
          simp only
          cases hwrite : mem₁.write outLenPtr (leBytes 4 encoded.length) with
          | none => exact (self.grows mem).trans (LinearMemory.size_write hcopy).ge
          | some mem₂ =>
            exact (self.grows mem).trans ((LinearMemory.size_write hwrite).trans (LinearMemory.size_write hcopy)).ge

def mapperExport (self : SdkMapper T) : MapperExport := ⟨self.call, self.call_grows⟩

/-- In a memory of this size there is room for the output from `outPtr` on, so the mapper returns. -/
def HasRoom (self : SdkMapper T) (outPtr size : ℕ) (raw : Bytes) : Prop :=
  ∀ mem : GuestMemory, size ≤ mem.size → ∀ out, self.encode raw = some out →
    outPtr + out.length ≤ (self.work mem).size

/-- Raw data that cannot be parsed, or a value that cannot be encoded, are reported. -/
theorem call_declined (hread : mem.read rawPtr rawLen = some raw) (hnone : self.encode raw = none)
    (outPtr outLenPtr : ℕ) :
    ∃ mem' status, self.call mem rawPtr rawLen outPtr outLenPtr = (mem', some status) ∧ status ≠ 0 := by
  unfold call
  rw [hread]
  unfold encode at hnone
  cases hparse : self.parse raw with
  | none => exact ⟨self.work mem, 1, by simp only [hparse], by decide⟩
  | some value =>
    rw [hparse, Option.bind_some] at hnone
    exact ⟨self.work mem, 2, by simp only [hparse, hnone], by decide⟩

/-- **What the host finds at the two pointers.** -/
theorem call_mapped (hroom : outPtr + out.length ≤ (self.work mem).size)
    (hread : mem.read rawPtr rawLen = some raw) (hout : self.encode raw = some out)
    (hlen : outLenPtr + 4 ≤ mem.size) (hle : outPtr ≤ outLenPtr) :
    ∃ mem', self.call mem rawPtr rawLen outPtr outLenPtr = (mem', some 0) ∧
      mem'.read outLenPtr 4 = some (leBytes 4 out.length) ∧
      mem'.read outPtr out.length = some (overlay out (outLenPtr - outPtr) (leBytes 4 out.length)) := by
  obtain ⟨value, hparse, hmarshal⟩ := Option.bind_eq_some_iff.mp hout
  obtain ⟨mem₁, hcopy⟩ := LinearMemory.write_isSome hroom
  have hsize : outLenPtr + (leBytes 4 out.length).length ≤ mem₁.size := by
    rw [LinearMemory.size_write hcopy, length_leBytes]
    exact hlen.trans (self.grows mem)
  obtain ⟨mem₂, hwrite⟩ := LinearMemory.write_isSome hsize
  refine ⟨mem₂, ?_, ?_, ?_⟩
  · unfold call
    simp only [hread, hparse, hmarshal, hcopy, hwrite]
  · have hback := LinearMemory.read_write_self hwrite
    rwa [length_leBytes] at hback
  · rw [LinearMemory.read_write hwrite hle, LinearMemory.read_write_self hcopy, Option.map_some]

end SdkMapper

end Slung
