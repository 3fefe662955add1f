import Slung.Types
import Mathlib.Data.Prod.Lex
import Mathlib.Data.Nat.Cast.Order.Basic

/-!
# Slung.Primitives.Hlc — hybrid logical clock timestamps (`primitives/hlc.zig`)

`Timestamp.compare` is the source's three-level comparison.  It is the comparison of a linear order on
timestamps (`compare_eq_gt`, `compare_eq_eq`), which is how the last-writer-wins stores use it.
-/

namespace Slung

/-- A single HLC timestamp. -/
structure Timestamp where
  wall : UInt64
  logical : UInt32
  nodeId : UInt32
deriving DecidableEq, Repr

namespace Timestamp

def compare (self other : Timestamp) : Ordering :=
  if self.wall > other.wall then .gt
  else if self.wall < other.wall then .lt
  else if self.logical > other.logical then .gt
  else if self.logical < other.logical then .lt
  else if self.nodeId > other.nodeId then .gt
  else if self.nodeId < other.nodeId then .lt
  else .eq

def eql (self other : Timestamp) : Bool := self.compare other == .eq

def after (self other : Timestamp) : Bool := self.compare other == .gt

/-- The three levels as naturals, in lexicographic order. -/
def levels (t : Timestamp) : ℕ ×ₗ ℕ ×ₗ ℕ :=
  toLex (t.wall.toNat, toLex (t.logical.toNat, t.nodeId.toNat))

theorem levels_injective : Function.Injective levels := by
  intro a b h
  obtain ⟨h1, h23⟩ := Prod.mk.inj (toLex.injective h)
  obtain ⟨h2, h3⟩ := Prod.mk.inj (toLex.injective h23)
  cases a
  cases b
  simp only [Timestamp.mk.injEq]
  exact ⟨UInt64.toNat_inj.mp h1, UInt32.toNat_inj.mp h2, UInt32.toNat_inj.mp h3⟩

instance : LinearOrder Timestamp := LinearOrder.lift' levels levels_injective

theorem lt_iff {a b : Timestamp} :
    a < b ↔ a.wall < b.wall ∨ a.wall = b.wall ∧
      (a.logical < b.logical ∨ a.logical = b.logical ∧ a.nodeId < b.nodeId) := by
  change a.levels < b.levels ↔ _
  simp only [levels, Prod.Lex.toLex_lt_toLex, UInt64.lt_iff_toNat_lt, UInt32.lt_iff_toNat_lt,
    UInt64.toNat_inj, UInt32.toNat_inj]

/-- **The comparison of the source is that of the order.** -/
theorem compare_eq_gt {a b : Timestamp} : a.compare b = .gt ↔ b < a := by
  rw [lt_iff]
  unfold compare
  simp only [gt_iff_lt, UInt64.lt_iff_toNat_lt, UInt32.lt_iff_toNat_lt, ← UInt64.toNat_inj,
    ← UInt32.toNat_inj]
  split_ifs <;> simp <;> omega

theorem compare_eq_eq {a b : Timestamp} : a.compare b = .eq ↔ a = b := by
  obtain ⟨w, l, n⟩ := a
  obtain ⟨w', l', n'⟩ := b
  unfold compare
  simp only [gt_iff_lt, UInt64.lt_iff_toNat_lt, UInt32.lt_iff_toNat_lt, Timestamp.mk.injEq,
    ← UInt64.toNat_inj, ← UInt32.toNat_inj]
  split_ifs <;> simp <;> omega

theorem eql_iff {a b : Timestamp} : a.eql b = true ↔ a = b := by
  unfold eql
  rw [beq_iff_eq, compare_eq_eq]

theorem after_iff {a b : Timestamp} : a.after b = true ↔ b < a := by
  unfold after
  rw [beq_iff_eq, compare_eq_gt]

end Timestamp

/-! ## The clock -/

/-- Hybrid Logical Clock. One instance per node. -/
structure Hlc where
  nodeId : UInt32
  wall : UInt64
  logical : UInt32
deriving DecidableEq, Repr

namespace Hlc

def init (nodeId : UInt32) : Hlc := ⟨nodeId, 0, 0⟩

def fromTimestamp (timestamp : Timestamp) : Hlc := ⟨timestamp.nodeId, timestamp.wall, timestamp.logical⟩

/-- Current timestamp without advancing the clock. -/
def now (self : Hlc) : Timestamp := ⟨self.wall, self.logical, self.nodeId⟩

/-- The timestamp of the next event, given the wall time; `none` when the checked addition overflows. -/
def sendWithWall (self : Hlc) (wallNow : UInt64) : Option (Timestamp × Hlc) :=
  if wallNow > self.wall then
    let self := { self with wall := wallNow, logical := 0 }
    some (self.now, self)
  else if self.logical = 0xffffffff then none
  else
    let self := { self with logical := self.logical + 1 }
    some (self.now, self)

/-- The next value of a counter; `none` when the checked addition overflows. -/
def next (logical : UInt32) : Option UInt32 := if logical = 0xffffffff then none else some (logical + 1)

/-- Advances the clock past a remote timestamp. -/
def recv (self : Hlc) (remote : Timestamp) (wallNow : UInt64) : Option (Timestamp × Hlc) :=
  let maxWall := max wallNow (max self.wall remote.wall)
  let logical :=
    if maxWall = self.wall ∧ maxWall = remote.wall then next (max self.logical remote.logical)
    else if maxWall = self.wall then next self.logical
    else if maxWall = remote.wall then next remote.logical
    else some 0
  logical.map fun logical =>
    let self := { self with wall := maxWall, logical := logical }
    (self.now, self)

/-- No event can follow without an advance of the wall time. -/
def Exhausted (self : Hlc) : Prop := self.logical = 0xffffffff

/-- **Every event is after what the clock showed before it.** -/
theorem sendWithWall_some {self clock : Hlc} {wallNow : UInt64} {ts : Timestamp}
    (h : self.sendWithWall wallNow = some (ts, clock)) : ts = clock.now ∧ self.now < ts := by
  unfold sendWithWall at h
  by_cases hw : wallNow > self.wall
  · rw [if_pos hw] at h
    obtain ⟨rfl, rfl⟩ := Prod.mk.inj (Option.some.inj h)
    exact ⟨rfl, Timestamp.lt_iff.mpr (Or.inl hw)⟩
  rw [if_neg hw] at h
  by_cases hl : self.logical = 0xffffffff
  · rw [if_pos hl] at h
    cases h
  · rw [if_neg hl] at h
    obtain ⟨rfl, rfl⟩ := Prod.mk.inj (Option.some.inj h)
    refine ⟨rfl, Timestamp.lt_iff.mpr (Or.inr ⟨rfl, Or.inl ?_⟩)⟩
    have hbound := self.logical.toNat_lt
    have hne : self.logical.toNat ≠ 4294967295 := fun heq => hl (UInt32.toNat_inj.mp heq)
    simp only [now, UInt32.lt_iff_toNat_lt, UInt32.toNat_add, UInt32.toNat_one]
    omega

/-- The addition overflows if the counter is used up and the wall time has not advanced. -/
theorem sendWithWall_none {self : Hlc} {wallNow : UInt64} :
    self.sendWithWall wallNow = none ↔ wallNow ≤ self.wall ∧ self.Exhausted := by
  unfold sendWithWall Exhausted
  by_cases hw : wallNow > self.wall
  · rw [if_pos hw]
    simp [UInt64.not_le.mpr hw]
  · rw [if_neg hw]
    simp [UInt64.not_lt.mp hw]

/-- The timestamps of successive events, up to the first that overflows. -/
def sends (self : Hlc) : List UInt64 → List Timestamp
  | [] => []
  | wallNow :: walls =>
    match self.sendWithWall wallNow with
    | none => []
    | some (ts, self) => ts :: self.sends walls

theorem nodeId_of_sendWithWall {self clock : Hlc} {wallNow : UInt64} {ts : Timestamp}
    (h : self.sendWithWall wallNow = some (ts, clock)) : clock.nodeId = self.nodeId := by
  unfold sendWithWall at h
  by_cases hw : wallNow > self.wall
  · rw [if_pos hw] at h
    rw [← (Prod.mk.inj (Option.some.inj h)).2]
  · rw [if_neg hw] at h
    by_cases hl : self.logical = 0xffffffff
    · rw [if_pos hl] at h
      cases h
    · rw [if_neg hl] at h
      rw [← (Prod.mk.inj (Option.some.inj h)).2]

/-- Every timestamp carries the node id of its clock. -/
theorem nodeId_of_mem_sends {self : Hlc} {walls : List UInt64} {ts : Timestamp} (h : ts ∈ self.sends walls) :
    ts.nodeId = self.nodeId := by
  induction walls generalizing self with
  | nil => cases h
  | cons wallNow walls ih =>
    unfold sends at h
    cases hsend : self.sendWithWall wallNow with
    | none => rw [hsend] at h; cases h
    | some event =>
      obtain ⟨ts', clock⟩ := event
      rw [hsend] at h
      have hnode := nodeId_of_sendWithWall hsend
      rcases List.mem_cons.mp h with rfl | h
      · rw [(sendWithWall_some hsend).1, ← hnode]
        rfl
      · rw [ih h, hnode]

/-- The last timestamp of a clock. -/
def last (self : Hlc) : Timestamp := ⟨0xffffffffffffffff, 0xffffffff, self.nodeId⟩

/-- With a wall that stands still, the counter counts to its end. -/
theorem mem_sends_replicate (n : ℕ) {self : Hlc} (h : self.logical.toNat + (n + 1) = 4294967295) :
    (⟨self.wall, 0xffffffff, self.nodeId⟩ : Timestamp) ∈ self.sends (List.replicate (n + 1) 0) := by
  have hsend {self : Hlc} (hl : self.logical.toNat < 4294967295) : self.sendWithWall 0 =
      some (⟨self.wall, self.logical + 1, self.nodeId⟩, { self with logical := self.logical + 1 }) := by
    have hwall : ¬ (0 : UInt64) > self.wall := UInt64.not_lt_zero
    have hne : ¬ self.logical = 0xffffffff := by
      intro heq
      rw [heq] at hl
      exact absurd hl (by decide)
    unfold sendWithWall
    rw [if_neg hwall, if_neg hne]
    rfl
  have hadd {self : Hlc} (hl : self.logical.toNat < 4294967295) :
      (self.logical + 1).toNat = self.logical.toNat + 1 := by
    rw [UInt32.toNat_add, UInt32.toNat_one]
    omega
  induction n generalizing self with
  | zero =>
    have hlast : self.logical + 1 = 0xffffffff := by
      refine UInt32.toNat_inj.mp ?_
      rw [hadd (by omega)]
      exact h
    rw [List.replicate_one, sends, hsend (by omega), hlast]
    exact List.mem_cons_self
  | succ n ih =>
    rw [List.replicate_succ, sends, hsend (by omega)]
    have hnext : ({ self with logical := self.logical + 1 } : Hlc).logical.toNat + (n + 1) = 4294967295 := by
      show (self.logical + 1).toNat + (n + 1) = 4294967295
      rw [hadd (by omega)]
      omega
    exact List.mem_cons_of_mem _ (ih hnext)

/-- A clock comes to its last timestamp unless its next event overflows whatever the wall is. -/
theorem last_mem_sends {self : Hlc} (h : ¬ (self.wall = 0xffffffffffffffff ∧ self.Exhausted)) :
    ∃ walls, self.last ∈ self.sends walls := by
  have hcount {self : Hlc} (hl : ¬ self.Exhausted) :
      ∃ walls, (⟨self.wall, 0xffffffff, self.nodeId⟩ : Timestamp) ∈ self.sends walls := by
    have hbound := self.logical.toNat_lt
    have hne : self.logical.toNat ≠ 4294967295 := fun heq => hl (UInt32.toNat_inj.mp heq)
    obtain ⟨n, hn⟩ : ∃ n, self.logical.toNat + (n + 1) = 4294967295 :=
      ⟨4294967294 - self.logical.toNat, by omega⟩
    exact ⟨_, mem_sends_replicate n hn⟩
  by_cases hwall : self.wall = 0xffffffffffffffff
  · obtain ⟨walls, hmem⟩ := hcount fun hl => h ⟨hwall, hl⟩
    rw [hwall] at hmem
    exact ⟨walls, hmem⟩
  · have hgt : (0xffffffffffffffff : UInt64) > self.wall := by
      refine UInt64.lt_iff_toNat_lt.mpr ?_
      have hbound := self.wall.toNat_lt
      have hne : self.wall.toNat ≠ 18446744073709551615 := fun heq => hwall (UInt64.toNat_inj.mp heq)
      show self.wall.toNat < 18446744073709551615
      omega
    have hfresh : ¬ (⟨self.nodeId, 0xffffffffffffffff, 0⟩ : Hlc).Exhausted := by
      show ¬ (0 : UInt32) = 0xffffffff
      decide
    obtain ⟨walls, hmem⟩ := hcount hfresh
    refine ⟨0xffffffffffffffff :: walls, ?_⟩
    rw [sends, sendWithWall, if_pos hgt]
    exact List.mem_cons_of_mem _ hmem

end Hlc

end Slung
