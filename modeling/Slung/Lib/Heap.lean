import Mathlib.Data.List.Basic
import Mathlib.Data.List.Pairwise
import Mathlib.Order.Nat
import Slung.Lib.LinearMemory

/-!
# Slung.Lib.Heap — the blocks of a linear memory that are in use

A heap is a memory with the blocks that are in use, which lie in it and do not overlap.  Whoever writes into some
blocks only, and an allocator at any time, keeps what is in the other ones (`Heap.Keeps`).
-/

namespace Slung.Lib

/-- Addresses from `addr` on. -/
structure Block where
  addr : ℕ
  size : ℕ
deriving DecidableEq, Repr

namespace Block

def Has (b : Block) (i : ℕ) : Prop := b.addr ≤ i ∧ i < b.addr + b.size

/-- All of `c` is in `b`. -/
def Covers (b c : Block) : Prop := b.addr ≤ c.addr ∧ c.addr + c.size ≤ b.addr + b.size

def Apart (b c : Block) : Prop := b.addr + b.size ≤ c.addr ∨ c.addr + c.size ≤ b.addr

instance : DecidableRel Apart := fun _ _ => inferInstanceAs (Decidable (_ ∨ _))

instance : Std.Symm Apart := ⟨fun _ _ h => Or.symm h⟩

end Block

structure Heap (α : Type*) (limit : ℕ) where
  mem : LinearMemory α limit
  live : List Block
  inside : ∀ b ∈ live, b.addr + b.size ≤ mem.size
  proper : ∀ b ∈ live, 0 < b.addr ∧ 0 < b.size
  apart : live.Pairwise Block.Apart

namespace Heap

variable {α : Type*} {limit : ℕ} {h h₁ h₂ : Heap α limit} {a n : ℕ} {b c : Block} {data : List α}
  {touched : List Block}

def get (h : Heap α limit) (c : Block) : Option (List α) := h.mem.read c.addr c.size

/-- Write, whatever blocks there are. -/
def put (h : Heap α limit) (a : ℕ) (data : List α) : Option (Heap α limit) :=
  match hw : h.mem.write a data with
  | some mem => some ⟨mem, h.live, fun b hb => (h.inside b hb).trans_eq (LinearMemory.size_write hw).symm, h.proper,
      h.apart⟩
  | none => none

theorem put_eq_none (hout : ¬ a + data.length ≤ h.mem.size) : h.put a data = none := by
  unfold put
  split
  · rename_i mem hmem
    exact absurd (LinearMemory.write_some hmem).1 hout
  · rfl

/-- A range that may be read, in a block that is not to be avoided; an empty one may be anywhere. -/
def Valid (h : Heap α limit) (avoid : List Block) (c : Block) : Prop :=
  (c.size = 0 ∧ c.addr ≤ h.mem.size) ∨ ∃ b ∈ h.live, b ∉ avoid ∧ b.Covers c

instance : Decidable (h.Valid touched c) :=
  inferInstanceAs (Decidable (_ ∨ ∃ b ∈ h.live, b ∉ touched ∧ b.addr ≤ c.addr ∧ c.addr + c.size ≤ b.addr + b.size))

/-- Blocks other than the touched ones are still in use and have what they had. -/
structure Keeps (touched : List Block) (h h' : Heap α limit) : Prop where
  live : ∀ b ∈ h.live, b ∉ touched → b ∈ h'.live
  cells : ∀ b ∈ h.live, b ∉ touched → ∀ i, b.Has i → h'.mem.cells[i]? = h.mem.cells[i]?
  grows : h.mem.size ≤ h'.mem.size

/-! ## Blocks -/

theorem not_has (hb : b ∈ h.live) (hc : c ∈ h.live) (hne : b ≠ c) {i : ℕ} (hi : b.Has i) : ¬ c.Has i := by
  have hapart : b.Apart c := h.apart.forall hb hc hne
  unfold Block.Apart at hapart
  unfold Block.Has at *
  omega

theorem nodup (h : Heap α limit) : h.live.Nodup :=
  h.apart.imp_of_mem fun {b c} hb _ hapart heq => by
    have hsize := (h.proper b hb).2
    subst heq
    unfold Block.Apart at hapart
    omega

theorem Valid.fits (hc : h.Valid touched c) : c.addr + c.size ≤ h.mem.size := by
  rcases hc with ⟨hsize, haddr⟩ | ⟨b, hb, -, hcovers⟩
  · omega
  · exact hcovers.2.trans (h.inside b hb)

/-- A range that is valid and not empty does not begin at 0. -/
theorem Valid.addr_ne_zero (hc : h.Valid touched c) (hsize : c.size ≠ 0) : c.addr ≠ 0 := by
  rcases hc with ⟨hzero, -⟩ | ⟨b, hb, -, hcovers⟩
  · exact absurd hzero hsize
  · have hpos := (h.proper b hb).1
    have hle := hcovers.1
    omega

theorem Valid.get (hc : h.Valid touched c) : h.get c = some ((h.mem.cells.drop c.addr).take c.size) :=
  LinearMemory.read_of_le hc.fits

theorem Valid.of_mem (hb : b ∈ h.live) (hn : b ∉ touched) : h.Valid touched b :=
  Or.inr ⟨b, hb, hn, le_rfl, le_rfl⟩

/-! ## What is kept -/

theorem Keeps.refl (touched : List Block) (h : Heap α limit) : Keeps touched h h :=
  ⟨fun _ hb _ => hb, fun _ _ _ _ _ => rfl, le_rfl⟩

theorem Keeps.trans (k : Keeps touched h h₁) (k' : Keeps touched h₁ h₂) : Keeps touched h h₂ :=
  ⟨fun b hb hn => k'.live b (k.live b hb hn) hn,
    fun b hb hn i hi => (k'.cells b (k.live b hb hn) hn i hi).trans (k.cells b hb hn i hi), k.grows.trans k'.grows⟩

theorem Keeps.mono (k : Keeps touched h h₁) {touched' : List Block} (hsub : touched ⊆ touched') : Keeps touched' h h₁ :=
  ⟨fun b hb hn => k.live b hb fun hin => hn (hsub hin), fun b hb hn => k.cells b hb fun hin => hn (hsub hin), k.grows⟩

/-- New blocks are not among those that were there. -/
theorem Keeps.of_fresh {fresh : List Block} (k : Keeps (fresh ++ touched) h h₁) (hfresh : ∀ b ∈ fresh, b ∉ h.live) :
    Keeps touched h h₁ := by
  have hne : ∀ b ∈ h.live, b ∉ touched → b ∉ fresh ++ touched := by
    intro b hb hn hin
    rcases List.mem_append.mp hin with hin | hin
    · exact hfresh b hin hb
    · exact hn hin
  exact ⟨fun b hb hn => k.live b hb (hne b hb hn), fun b hb hn => k.cells b hb (hne b hb hn), k.grows⟩

/-- What is put in front of the blocks is new. -/
theorem fresh_of_live {fresh : List Block} (hlive : h₁.live = fresh ++ h.live) : ∀ b ∈ fresh, b ∉ h.live := by
  have hnodup := h₁.nodup
  rw [hlive] at hnodup
  exact fun b hb hin => (List.nodup_append.mp hnodup).2.2 b hb b hin rfl

/-- Ranges in the other blocks are read as before. -/
theorem Keeps.get (k : Keeps touched h h₁) (hc : h.Valid touched c) :
    h₁.Valid touched c ∧ h₁.get c = h.get c := by
  rcases hc with ⟨hsize, haddr⟩ | ⟨b, hb, hn, hcovers⟩
  · have hold : h.Valid touched c := Or.inl ⟨hsize, haddr⟩
    have hvalid : h₁.Valid touched c := Or.inl ⟨hsize, haddr.trans k.grows⟩
    rw [hvalid.get, hold.get, hsize, List.take_zero, List.take_zero]
    exact ⟨hvalid, rfl⟩
  · have hold : h.Valid touched c := Or.inr ⟨b, hb, hn, hcovers⟩
    have hvalid : h₁.Valid touched c := Or.inr ⟨b, k.live b hb hn, hn, hcovers⟩
    refine ⟨hvalid, ?_⟩
    rw [hvalid.get, hold.get]
    refine congrArg some (List.ext_getElem? fun i => ?_)
    rw [List.getElem?_take, List.getElem?_take, List.getElem?_drop, List.getElem?_drop]
    by_cases hi : i < c.size
    · rw [if_pos hi, if_pos hi]
      have hle := hcovers.1
      have hend := hcovers.2
      exact k.cells b hb hn (c.addr + i) ⟨by omega, by omega⟩
    · rw [if_neg hi, if_neg hi]

/-- Writing all of a block. -/
theorem put_block (hb : b ∈ h.live) (hsize : data.length = b.size) :
    ∃ h₁, h.put b.addr data = some h₁ ∧ h₁.live = h.live ∧ h₁.get b = some data ∧ Keeps [b] h h₁ := by
  have hfits : b.addr + data.length ≤ h.mem.size := hsize ▸ h.inside b hb
  obtain ⟨mem, hmem⟩ := LinearMemory.write_isSome hfits
  have hput : h.put b.addr data = some ⟨mem, h.live,
      fun b hb => (h.inside b hb).trans_eq (LinearMemory.size_write hmem).symm, h.proper, h.apart⟩ := by
    unfold put
    split
    · rename_i mem' hmem'
      obtain rfl := Option.some.inj (hmem.symm.trans hmem')
      rfl
    · rename_i hnone
      rw [hmem] at hnone
      cases hnone
  have hread := LinearMemory.read_write_self hmem
  rw [hsize] at hread
  refine ⟨_, hput, rfl, hread, fun c hc _ => hc, fun c hc hn i hi => ?_, (LinearMemory.size_write hmem).ge⟩
  have hne : c ≠ b := fun heq => hn (heq ▸ List.mem_singleton_self c)
  have hout : ¬ b.Has i := not_has hc hb hne hi
  unfold Block.Has at hout
  exact (LinearMemory.getElem?_write hmem i).trans (if_neg (by omega))

end Heap

/-! ## Allocators -/

structure Allocator (α : Type*) (limit : ℕ) where
  /-- a new block of this size, or none -/
  alloc : Heap α limit → ℕ → Heap α limit × Option ℕ
  free : Heap α limit → Block → Heap α limit

namespace Allocator

variable {α : Type*} {limit : ℕ} {A : Allocator α limit}

structure Lawful (A : Allocator α limit) : Prop where
  alloc_some : ∀ {h h' n a}, A.alloc h n = (h', some a) → h'.live = ⟨a, n⟩ :: h.live ∧ h.Keeps [] h'
  alloc_none : ∀ {h h' n}, A.alloc h n = (h', none) → h'.live = h.live ∧ h.Keeps [] h'
  free_live : ∀ {h b}, b ∈ h.live → (A.free h b).live = h.live.erase b ∧ h.Keeps [b] (A.free h b)

/-- A block of this size may begin here. -/
def Fits (h : Heap α limit) (n a : ℕ) : Prop :=
  0 < a ∧ 0 < n ∧ a + n ≤ h.mem.size ∧ ∀ b ∈ h.live, Block.Apart ⟨a, n⟩ b

instance {h : Heap α limit} {n : ℕ} : DecidablePred (Fits h n) := fun _ => inferInstanceAs (Decidable (_ ∧ _))

/-- The first place, at `base` or behind a block. -/
def place (base : ℕ) (h : Heap α limit) (n : ℕ) : Option ℕ :=
  (base :: h.live.map fun b => b.addr + b.size).find? fun a => decide (Fits h n a)

theorem fits_of_place {base : ℕ} {h : Heap α limit} {n a : ℕ} (hp : place base h n = some a) : Fits h n a :=
  of_decide_eq_true (List.find?_some hp :)

/-- An allocator that writes nothing into the memory. -/
def firstFit (base : ℕ) : Allocator α limit where
  alloc h n :=
    match hp : place base h n with
    | some a =>
      have hfits := fits_of_place hp
      (⟨h.mem, ⟨a, n⟩ :: h.live, List.forall_mem_cons.mpr ⟨hfits.2.2.1, h.inside⟩,
        List.forall_mem_cons.mpr ⟨⟨hfits.1, hfits.2.1⟩, h.proper⟩, List.Pairwise.cons hfits.2.2.2 h.apart⟩, some a)
    | none => (h, none)
  free h b :=
    ⟨h.mem, h.live.erase b, fun c hc => h.inside c (List.mem_of_mem_erase hc),
      fun c hc => h.proper c (List.mem_of_mem_erase hc), h.apart.sublist List.erase_sublist⟩

theorem firstFit_lawful (base : ℕ) : (firstFit base : Allocator α limit).Lawful where
  alloc_some {h h' n a} hs := by
    simp only [firstFit] at hs
    split at hs
    · obtain ⟨rfl, hsome⟩ := Prod.mk.inj hs
      obtain rfl := Option.some.inj hsome
      exact ⟨rfl, fun b hb _ => List.mem_cons_of_mem _ hb, fun _ _ _ _ _ => rfl, le_rfl⟩
    · cases hs
  alloc_none {h h' n} hs := by
    simp only [firstFit] at hs
    split at hs
    · cases hs
    · obtain ⟨rfl, -⟩ := Prod.mk.inj hs
      exact ⟨rfl, Heap.Keeps.refl [] h⟩
  free_live {h b} hb := by
    refine ⟨rfl, fun c hc hn => ?_, fun _ _ _ _ _ => rfl, le_rfl⟩
    have hne : c ≠ b := fun heq => hn (List.mem_singleton.mpr heq)
    exact (List.mem_erase_of_ne hne).mpr hc

end Allocator

end Slung.Lib
