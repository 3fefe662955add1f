import Slung.Lib.Heap
import Slung.Sdks.Mapper

/-!
# Slung.Sdks.Allocation — buffers that the host hands to a guest (`sdks/rust/src/lib.rs`, `sdks/go/host/abi.go`)

The host asks the guest for a block, copies a result into it and passes on where it is; the SDK copies the result out
and frees the block.  The allocator that the language gives the guest is a parameter.
-/

namespace Slung

open Slung.Lib

abbrev GuestHeap := Heap UInt8 (2 ^ 32)

abbrev GuestAllocator := Allocator UInt8 (2 ^ 32)

/-- The SDK that a module is built with. -/
inductive Sdk where
  | rust
  | go
deriving DecidableEq, Repr

/-- What a function of an SDK returns to the module. -/
inductive SdkResult (α : Type) where
  | ok (a : α)
  /-- an error with the status of a host call -/
  | failed (operation : String) (status : ℕ)
  | invalid (message : String)
  | trapped
  /-- a checked operation of the host stops the process -/
  | panicked
deriving DecidableEq, Repr

namespace RustSdk

variable (A : GuestAllocator)

/-- `slung_alloc`; 0 is the null pointer. -/
def slungAlloc (h : GuestHeap) (len : ℕ) : GuestHeap × ℕ :=
  if len = 0 then (h, 0)
  -- `Layout::array` fails
  else if len ≥ 2 ^ 31 then (h, 0)
  else ((A.alloc h len).1, (A.alloc h len).2.getD 0)

def slungDealloc (h : GuestHeap) (ptr len : ℕ) : GuestHeap :=
  if ptr = 0 ∨ len = 0 then h
  else if len ≥ 2 ^ 31 then h
  else A.free h ⟨ptr, len⟩

end RustSdk

namespace GoSdk

variable (A : GuestAllocator)

/-- A buffer is kept from the collector; a `make` that fails, or of more than an `int` of 32 bits, stops the module. -/
def allocBuffer (h : GuestHeap) (length : ℕ) : GuestHeap × Option ℕ :=
  if length = 0 then (h, some 0)
  else if length ≥ 2 ^ 31 then (h, none)
  else A.alloc h length

def freeBuffer (h : GuestHeap) (ptr length : ℕ) : GuestHeap :=
  if ptr = 0 ∨ length = 0 then h else A.free h ⟨ptr, length⟩

end GoSdk

namespace Sdk

variable (A : GuestAllocator)

/-- The export `slung_alloc`; `none` is a trap. -/
def slungAlloc : Sdk → GuestHeap → ℕ → GuestHeap × Option ℕ
  | .rust, h, len => ((RustSdk.slungAlloc A h len).1, some (RustSdk.slungAlloc A h len).2)
  | .go, h, len => GoSdk.allocBuffer A h len

/-- The export `slung_dealloc`. -/
def slungDealloc : Sdk → GuestHeap → ℕ → ℕ → GuestHeap
  | .rust => RustSdk.slungDealloc A
  | .go => GoSdk.freeBuffer A

/-- Copy a buffer and free it; a read outside the memory is `none`. -/
def copyAndFree (sdk : Sdk) (h : GuestHeap) (ptr len : ℕ) : GuestHeap × Option Bytes :=
  if ptr = 0 ∨ len = 0 then (h, some [])
  -- `int(length)` is negative
  else if sdk = .go ∧ len ≥ 2 ^ 31 then (h, none)
  else
    match h.get ⟨ptr, len⟩ with
    | none => (h, none)
    | some bytes => (sdk.slungDealloc A h ptr len, some bytes)

end Sdk

/-! ## The host's side -/

namespace HostAbi

variable (A : GuestAllocator) (sdk : Sdk)

/-- Copy data into a new block of the guest, which is asked for 32 bits of the length. -/
def allocate (h : GuestHeap) (data : Bytes) : GuestHeap × Option ℕ :=
  if data.length = 0 then (h, some 0)
  else
    match sdk.slungAlloc A h (data.length % 2 ^ 32) with
    | (h, none) => (h, none)
    | (h, some ptr) =>
      if ptr = 0 then (h, none)
      else
        match h.put ptr data with
        | none => (h, none)
        | some h => (h, some ptr)

/-- The block of a length that does not fit into 32 bits: the data do not fit into it. -/
def lost (h : GuestHeap) (data : Bytes) : List Block :=
  if data.length < 2 ^ 32 then []
  else
    match (sdk.slungAlloc A h (data.length % 2 ^ 32)).2 with
    | some ptr => if ptr = 0 then [] else [⟨ptr, data.length % 2 ^ 32⟩]
    | none => []

/-- What the guest has in a range, as a copy that may not be made. -/
def memoryRead (fails : Bool) (h : GuestHeap) (c : Block) : Option Bytes := if fails then none else h.get c

/-- `memoryWrite` of an integer of 32 bits. -/
def writeU32 (h : GuestHeap) (address value : ℕ) : Option GuestHeap := h.put address (leBytes 4 value)

/-- Where a buffer is and how long it is, for the guest. -/
def writeResult (h : GuestHeap) (ptrAddr lenAddr ptr len : ℕ) : Option GuestHeap :=
  (writeU32 h ptrAddr ptr).bind fun h => writeU32 h lenAddr len

end HostAbi

/-- The variable of 32 bits at an address. -/
def word (address : ℕ) : Block := ⟨address, 4⟩

/-- Read a variable. -/
def readU32 (h : GuestHeap) (address : ℕ) : Option ℕ := (h.get (word address)).map leNat

/-! ## A block goes over -/

variable {A : GuestAllocator} {sdk : Sdk} {h h' h₁ : GuestHeap} {n ptr : ℕ} {data : Bytes}

namespace Sdk

/-- A size that `slung_alloc` can give a block. -/
def Serves (n : ℕ) : Prop := n ≠ 0 ∧ n < 2 ^ 31

theorem slungAlloc_cases (hA : A.Lawful) {r : Option ℕ} (hs : sdk.slungAlloc A h n = (h', r)) :
    h.Keeps [] h' ∧ ((r = none ∨ r = some 0) ∧ h'.live = h.live ∨
      ∃ ptr, r = some ptr ∧ ptr ≠ 0 ∧ Sdk.Serves n ∧ h'.live = ⟨ptr, n⟩ :: h.live) := by
  have hrefl : h.Keeps [] h := Heap.Keeps.refl [] h
  -- a block of the allocator does not begin at 0
  have hblock : ∀ {h' ptr}, A.alloc h n = (h', some ptr) →
      h.Keeps [] h' ∧ h'.live = ⟨ptr, n⟩ :: h.live ∧ ptr ≠ 0 := fun {h' ptr} halloc => by
    obtain ⟨hlive, hkeeps⟩ := hA.alloc_some halloc
    have hpos := (h'.proper ⟨ptr, n⟩ (hlive ▸ List.mem_cons_self)).1
    exact ⟨hkeeps, hlive, Nat.ne_of_gt hpos⟩
  cases sdk with
  | rust =>
    simp only [slungAlloc, RustSdk.slungAlloc] at hs
    by_cases hzero : n = 0
    · rw [if_pos hzero] at hs
      obtain ⟨rfl, rfl⟩ := Prod.mk.inj hs
      exact ⟨hrefl, Or.inl ⟨Or.inr rfl, rfl⟩⟩
    rw [if_neg hzero] at hs
    by_cases hlarge : n ≥ 2 ^ 31
    · rw [if_pos hlarge] at hs
      obtain ⟨rfl, rfl⟩ := Prod.mk.inj hs
      exact ⟨hrefl, Or.inl ⟨Or.inr rfl, rfl⟩⟩
    rw [if_neg hlarge] at hs
    obtain ⟨rfl, rfl⟩ := Prod.mk.inj hs
    cases halloc : (A.alloc h n).2 with
    | none =>
      obtain ⟨hlive, hkeeps⟩ := hA.alloc_none (Prod.ext rfl halloc)
      exact ⟨hkeeps, Or.inl ⟨Or.inr rfl, hlive⟩⟩
    | some ptr =>
      obtain ⟨hkeeps, hlive, hptr⟩ := hblock (Prod.ext rfl halloc)
      exact ⟨hkeeps, Or.inr ⟨ptr, rfl, hptr, ⟨hzero, Nat.lt_of_not_le hlarge⟩, hlive⟩⟩
  | go =>
    simp only [slungAlloc, GoSdk.allocBuffer] at hs
    by_cases hzero : n = 0
    · rw [if_pos hzero] at hs
      obtain ⟨rfl, rfl⟩ := Prod.mk.inj hs
      exact ⟨hrefl, Or.inl ⟨Or.inr rfl, rfl⟩⟩
    rw [if_neg hzero] at hs
    by_cases hlarge : n ≥ 2 ^ 31
    · rw [if_pos hlarge] at hs
      obtain ⟨rfl, rfl⟩ := Prod.mk.inj hs
      exact ⟨hrefl, Or.inl ⟨Or.inl rfl, rfl⟩⟩
    rw [if_neg hlarge] at hs
    cases r with
    | none =>
      obtain ⟨hlive, hkeeps⟩ := hA.alloc_none hs
      exact ⟨hkeeps, Or.inl ⟨Or.inl rfl, hlive⟩⟩
    | some ptr =>
      obtain ⟨hkeeps, hlive, hptr⟩ := hblock hs
      exact ⟨hkeeps, Or.inr ⟨ptr, rfl, hptr, ⟨hzero, Nat.lt_of_not_le hlarge⟩, hlive⟩⟩

theorem slungDealloc_live (hA : A.Lawful) (hserves : Serves n) (hptr : ptr ≠ 0) (hb : ⟨ptr, n⟩ ∈ h.live) :
    (sdk.slungDealloc A h ptr n).live = h.live.erase ⟨ptr, n⟩ ∧ h.Keeps [⟨ptr, n⟩] (sdk.slungDealloc A h ptr n) := by
  have hsome : ¬ (ptr = 0 ∨ n = 0) := not_or.mpr ⟨hptr, hserves.1⟩
  cases sdk with
  | rust =>
    have hsmall : ¬ n ≥ 2 ^ 31 := Nat.not_le_of_lt hserves.2
    simp only [slungDealloc, RustSdk.slungDealloc, if_neg hsome, if_neg hsmall]
    exact hA.free_live hb
  | go =>
    simp only [slungDealloc, GoSdk.freeBuffer, if_neg hsome]
    exact hA.free_live hb

end Sdk

/-- The block of data at `ptr`; no data take none. -/
def buffer (ptr : ℕ) (data : Bytes) : List Block := if data.length = 0 then [] else [⟨ptr, data.length⟩]

/-- The data are in a block of their own that the SDK can free. -/
def Handed (h : GuestHeap) (ptr : ℕ) (data : Bytes) : Prop :=
  if data.length = 0 then ptr = 0
  else ptr ≠ 0 ∧ Sdk.Serves data.length ∧ ⟨ptr, data.length⟩ ∈ h.live ∧ h.get ⟨ptr, data.length⟩ = some data

theorem Handed.keeps (hh : Handed h ptr data) {touched : List Block} (k : h.Keeps touched h')
    (hapart : ∀ b ∈ buffer ptr data, b ∉ touched) : Handed h' ptr data := by
  unfold Handed buffer at *
  by_cases hempty : data.length = 0
  · rw [if_pos hempty] at hh ⊢
    exact hh
  · rw [if_neg hempty] at hh hapart ⊢
    obtain ⟨hptr, hserves, hmem, hget⟩ := hh
    have hn := hapart _ (List.mem_singleton_self _)
    exact ⟨hptr, hserves, k.live _ hmem hn, (k.get (Heap.Valid.of_mem hmem hn)).2.trans hget⟩

/-- Where data are and how many they are fits into 32 bits. -/
theorem Handed.bounds (hh : Handed h ptr data) : ptr < 2 ^ 32 ∧ data.length < 2 ^ 32 := by
  unfold Handed at hh
  by_cases hempty : data.length = 0
  · rw [if_pos hempty] at hh
    rw [hh, hempty]
    exact ⟨Nat.two_pow_pos 32, Nat.two_pow_pos 32⟩
  · rw [if_neg hempty] at hh
    have hinside : ptr + data.length ≤ 2 ^ 32 := (h.inside _ hh.2.2.1).trans h.mem.size_le
    have hptr := hh.1
    omega

/-- **The host's half**: the data are handed over, or nothing is. -/
theorem HostAbi.allocate_cases (hA : A.Lawful) {r : Option ℕ} (hs : HostAbi.allocate A sdk h data = (h', r)) :
    h.Keeps [] h' ∧ (r = none ∧ h'.live = HostAbi.lost A sdk h data ++ h.live ∨
      ∃ ptr, r = some ptr ∧ Handed h' ptr data ∧ h'.live = buffer ptr data ++ h.live) := by
  unfold HostAbi.allocate at hs
  by_cases hempty : data.length = 0
  · rw [if_pos hempty] at hs
    obtain ⟨rfl, rfl⟩ := Prod.mk.inj hs
    refine ⟨Heap.Keeps.refl [] h, Or.inr ⟨0, rfl, if_pos hempty |>.mpr rfl, ?_⟩⟩
    rw [buffer, if_pos hempty, List.nil_append]
  rw [if_neg hempty] at hs
  unfold HostAbi.lost
  rcases hasked : sdk.slungAlloc A h (data.length % 2 ^ 32) with ⟨h₁, asked⟩
  rw [hasked] at hs
  obtain ⟨hkeeps, ⟨hnone, hlive⟩ | ⟨ptr, rfl, hptr, hserves, hlive⟩⟩ := Sdk.slungAlloc_cases hA hasked
  · rcases hnone with rfl | rfl
    · obtain ⟨rfl, rfl⟩ := Prod.mk.inj hs
      exact ⟨hkeeps, Or.inl ⟨rfl, by split_ifs <;> exact hlive⟩⟩
    · obtain ⟨rfl, rfl⟩ := Prod.mk.inj hs
      exact ⟨hkeeps, Or.inl ⟨rfl, by simp only [if_true, ite_self]; exact hlive⟩⟩
  simp only [if_neg hptr] at hs ⊢
  by_cases hsmall : data.length < 2 ^ 32
  · rw [Nat.mod_eq_of_lt hsmall] at hserves hlive
    have hmem : (⟨ptr, data.length⟩ : Block) ∈ h₁.live := hlive ▸ List.mem_cons_self
    have hnew : ∀ b ∈ [(⟨ptr, data.length⟩ : Block)], b ∉ h.live := Heap.fresh_of_live hlive
    obtain ⟨h₂, hput, hlive₂, hget, hkeeps₂⟩ := Heap.put_block hmem (rfl : data.length = _)
    simp only [hput] at hs
    obtain ⟨rfl, rfl⟩ := Prod.mk.inj hs
    have hkept : h.Keeps ([⟨ptr, data.length⟩] ++ []) h₂ := (hkeeps.mono (List.nil_subset _)).trans hkeeps₂
    refine ⟨hkept.of_fresh hnew, Or.inr ⟨ptr, rfl, ?_, ?_⟩⟩
    · exact (if_neg hempty).mpr ⟨hptr, hserves, hlive₂ ▸ hmem, hget⟩
    · rw [hlive₂, hlive, buffer, if_neg hempty]
      rfl
  · -- the memory has no room for so many bytes
    have hsize := h₁.mem.size_le
    have hout : h₁.put ptr data = none := Heap.put_eq_none (by omega)
    simp only [hout] at hs
    obtain ⟨rfl, rfl⟩ := Prod.mk.inj hs
    rw [if_neg hsmall]
    exact ⟨hkeeps, Or.inl ⟨rfl, hlive⟩⟩

theorem HostAbi.lost_of_small (hsmall : data.length < 2 ^ 32) : HostAbi.lost A sdk h data = [] := if_pos hsmall

/-- **The guest's half**: the data come out, and the block is free again. -/
theorem Sdk.copyAndFree_handed (sdk : Sdk) (hA : A.Lawful) (hh : Handed h ptr data) :
    ∃ h', sdk.copyAndFree A h ptr data.length = (h', some data) ∧ h.live.Perm (buffer ptr data ++ h'.live) ∧
      h.Keeps (buffer ptr data) h' := by
  unfold Handed at hh
  unfold Sdk.copyAndFree buffer
  by_cases hempty : data.length = 0
  · rw [if_pos hempty, if_pos (Or.inr hempty), List.length_eq_zero_iff.mp hempty]
    exact ⟨h, rfl, List.Perm.refl _, Heap.Keeps.refl [] h⟩
  · rw [if_neg hempty] at hh
    obtain ⟨hptr, hserves, hmem, hget⟩ := hh
    obtain ⟨hlive, hkeeps⟩ := Sdk.slungDealloc_live hA hserves hptr hmem
    have hint : ¬ (sdk = .go ∧ data.length ≥ 2 ^ 31) := fun h => Nat.not_le_of_lt hserves.2 h.2
    rw [if_neg hempty, if_neg (not_or.mpr ⟨hptr, hempty⟩), if_neg hint, hget]
    refine ⟨_, rfl, ?_, hkeeps⟩
    rw [hlive]
    exact List.perm_cons_erase hmem

/-- Two variables of the guest are set; nothing else changes. -/
theorem HostAbi.writeResult_words {p q ptr len : ℕ} (hp : word p ∈ h.live) (hq : word q ∈ h.live) (hne : p ≠ q)
    (hptr : ptr < 2 ^ 32) (hlen : len < 2 ^ 32) :
    ∃ h', HostAbi.writeResult h p q ptr len = some h' ∧ h'.live = h.live ∧ h.Keeps [word p, word q] h' ∧
      readU32 h' p = some ptr ∧ readU32 h' q = some len := by
  obtain ⟨h₁, hput₁, hlive₁, hget₁, hkeeps₁⟩ := Heap.put_block hp (length_leBytes 4 ptr)
  obtain ⟨h₂, hput₂, hlive₂, hget₂, hkeeps₂⟩ :=
    Heap.put_block (hlive₁ ▸ hq) (length_leBytes 4 len)
  have hwords : word p ≠ word q := fun heq => hne (congrArg Block.addr heq)
  have hkept : h₂.get (word p) = h₁.get (word p) :=
    (hkeeps₂.get (Heap.Valid.of_mem (hlive₁ ▸ hp) (List.mem_singleton.not.mpr hwords))).2
  refine ⟨h₂, ?_, hlive₂.trans hlive₁, ?_, ?_, ?_⟩
  · rw [HostAbi.writeResult, HostAbi.writeU32, ← show (word p).addr = p from rfl, hput₁]
    exact hput₂
  · exact (hkeeps₁.mono (by simp)).trans (hkeeps₂.mono (by simp))
  · rw [readU32, hkept, hget₁, Option.map_some, leNat_leBytes_of_lt hptr]
  · rw [readU32, hget₂, Option.map_some, leNat_leBytes_of_lt hlen]

end Slung
