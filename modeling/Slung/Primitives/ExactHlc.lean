import Slung.Lib.Causality
import Slung.Primitives.Hlc

/-!
# Slung.Primitives.ExactHlc — the clock with exact integers

`Timestamp` and `Hlc` again, with naturals for the machine integers: no counter runs out, so every event has a
timestamp.  As long as the checked additions of the machine clock do not overflow, it is this clock
(`sendWithWall_exact`, `recv_exact`).
-/

namespace Slung

open Slung.Lib

namespace Exact

structure Timestamp where
  wall : ℕ
  logical : ℕ
  nodeId : ℕ
deriving DecidableEq, Repr

namespace Timestamp

def compare (self other : Timestamp) : Ordering :=
  if self.wall > other.wall then .gt
  else if self.wall < other.wall then .lt
  else if self.logical > other.logical then .gt
  else if self.logical < other.logical then .lt
  else if self.nodeId > other.nodeId then .gt
  else if self.nodeId < other.nodeId then .lt
  else .eq

/-- The three levels in lexicographic order. -/
def levels (t : Timestamp) : ℕ ×ₗ ℕ ×ₗ ℕ := toLex (t.wall, toLex (t.logical, t.nodeId))

theorem levels_injective : Function.Injective levels := by
  intro a b h
  obtain ⟨h1, h23⟩ := Prod.mk.inj (toLex.injective h)
  obtain ⟨h2, h3⟩ := Prod.mk.inj (toLex.injective h23)
  cases a
  cases b
  simp only [Timestamp.mk.injEq]
  exact ⟨h1, h2, h3⟩

instance : LinearOrder Timestamp := LinearOrder.lift' levels levels_injective

theorem lt_iff {a b : Timestamp} :
    a < b ↔ a.wall < b.wall ∨ a.wall = b.wall ∧
      (a.logical < b.logical ∨ a.logical = b.logical ∧ a.nodeId < b.nodeId) := by
  show a.levels < b.levels ↔ _
  simp only [levels, Prod.Lex.toLex_lt_toLex]

theorem compare_eq_lt {a b : Timestamp} : a.compare b = .lt ↔ a < b := by
  rw [lt_iff]
  unfold compare
  split_ifs <;> simp <;> omega

theorem compare_eq_gt {a b : Timestamp} : a.compare b = .gt ↔ b < a := by
  rw [lt_iff]
  unfold compare
  split_ifs <;> simp <;> omega

end Timestamp

structure Hlc where
  nodeId : ℕ
  wall : ℕ
  logical : ℕ
deriving DecidableEq, Repr

namespace Hlc

def init (nodeId : ℕ) : Hlc := ⟨nodeId, 0, 0⟩

def fromTimestamp (timestamp : Timestamp) : Hlc := ⟨timestamp.nodeId, timestamp.wall, timestamp.logical⟩

def now (self : Hlc) : Timestamp := ⟨self.wall, self.logical, self.nodeId⟩

def sendWithWall (self : Hlc) (wallNow : ℕ) : Timestamp × Hlc :=
  let self := if wallNow > self.wall then { self with wall := wallNow, logical := 0 }
    else { self with logical := self.logical + 1 }
  (self.now, self)

def recv (self : Hlc) (remote : Timestamp) (wallNow : ℕ) : Timestamp × Hlc :=
  let maxWall := max wallNow (max self.wall remote.wall)
  let logical :=
    if maxWall = self.wall ∧ maxWall = remote.wall then max self.logical remote.logical + 1
    else if maxWall = self.wall then self.logical + 1
    else if maxWall = remote.wall then remote.logical + 1
    else 0
  let self := { self with wall := maxWall, logical := logical }
  (self.now, self)

/-- The clock shows the timestamp of its last event. -/
@[simp] theorem now_sendWithWall (self : Hlc) (wallNow : ℕ) :
    (self.sendWithWall wallNow).2.now = (self.sendWithWall wallNow).1 := rfl

@[simp] theorem now_recv (self : Hlc) (remote : Timestamp) (wallNow : ℕ) :
    (self.recv remote wallNow).2.now = (self.recv remote wallNow).1 := rfl

/-- A sent timestamp is after what the clock showed. -/
theorem now_lt_sendWithWall (self : Hlc) (wallNow : ℕ) : self.now < (self.sendWithWall wallNow).1 := by
  rw [Timestamp.lt_iff]
  by_cases hw : wallNow > self.wall
  · left
    simpa only [sendWithWall, if_pos hw, now] using hw
  · right
    simp only [sendWithWall, if_neg hw, now, true_and]
    omega

/-- A received timestamp is after what the clock showed and after the remote one, in all four cases. -/
theorem lt_recv (self : Hlc) (remote : Timestamp) (wallNow : ℕ) :
    self.now < (self.recv remote wallNow).1 ∧ remote < (self.recv remote wallNow).1 := by
  have hself : self.wall ≤ max wallNow (max self.wall remote.wall) := by omega
  have hremote : remote.wall ≤ max wallNow (max self.wall remote.wall) := by omega
  simp only [Timestamp.lt_iff, recv, now]
  split_ifs with hboth honly hother
  · exact ⟨Or.inr ⟨hboth.1.symm, Or.inl (by omega)⟩, Or.inr ⟨hboth.2.symm, Or.inl (by omega)⟩⟩
  · have hne : max wallNow (max self.wall remote.wall) ≠ remote.wall := fun heq => hboth ⟨honly, heq⟩
    exact ⟨Or.inr ⟨honly.symm, Or.inl (by omega)⟩, Or.inl (by omega)⟩
  · exact ⟨Or.inl (by omega), Or.inr ⟨hother.symm, Or.inl (by omega)⟩⟩
  · exact ⟨Or.inl (by omega), Or.inl (by omega)⟩

/-- The timestamps of successive events. -/
def sends (self : Hlc) : List ℕ → List Timestamp
  | [] => []
  | wallNow :: walls => (self.sendWithWall wallNow).1 :: (self.sendWithWall wallNow).2.sends walls

/-- Everything that is sent is after what the clock showed. -/
theorem now_lt_of_mem_sends {self : Hlc} {walls : List ℕ} {ts : Timestamp} (h : ts ∈ self.sends walls) :
    self.now < ts := by
  induction walls generalizing self with
  | nil => cases h
  | cons wallNow walls ih =>
    have hfirst := self.now_lt_sendWithWall wallNow
    rcases List.mem_cons.mp h with rfl | h
    · exact hfirst
    · exact hfirst.trans (ih h)

/-- **Every timestamp is after all that were sent before it.** -/
theorem pairwise_sends (self : Hlc) (walls : List ℕ) : (self.sends walls).Pairwise (· < ·) := by
  induction walls generalizing self with
  | nil => exact List.Pairwise.nil
  | cons wallNow walls ih =>
    rw [sends, List.pairwise_cons]
    exact ⟨fun ts hts => now_lt_of_mem_sends hts, ih _⟩

/-! ### Nodes that deliver timestamps to each other -/

/-- A node's clock; its events read the wall time. -/
def stampClock : StampClock Hlc ℕ Timestamp where
  now := now
  tick := sendWithWall
  merge self wallNow remote := self.recv remote wallNow

theorem stampClock_advances : stampClock.Advances where
  lt_tick := now_lt_sendWithWall
  tick_le _ _ := le_rfl
  lt_merge self wallNow remote := (self.lt_recv remote wallNow).1
  received_lt_merge self wallNow remote := (self.lt_recv remote wallNow).2
  merge_le _ _ _ := le_rfl

variable {ι : Type} [DecidableEq ι]

/-- **Timestamps respect causality.**  In every run of any number of nodes, for any readings of their walls and
any delivery of timestamps: timestamps grow on each node, those of a receipt and of what follows it on its node
are after the received one, and what happened before compares smaller. -/
theorem timestamps_respect_causality (clocks : ι → Hlc) (s : StampClock.System ι Hlc Timestamp)
    (h : stampClock.system.Reaches (fun _ _ => True) ⟨clocks, []⟩ s) :
    (∀ (i j : ℕ) (e e' : StampClock.Event ι Timestamp), s.events[i]? = some e → s.events[j]? = some e' →
      i < j → e.node = e'.node → e.stamp.compare e'.stamp = .lt) ∧
    (∀ (i j k : ℕ) (e e' e'' : StampClock.Event ι Timestamp), s.events[i]? = some e →
      s.events[j]? = some e' → e'.received = some i →
      s.events[k]? = some e'' → j ≤ k → e''.node = e'.node → e.stamp.compare e''.stamp = .lt) ∧
    ∀ i j : ℕ, StampClock.HappenedBefore s.events i j →
      ∃ e e' : StampClock.Event ι Timestamp,
        s.events[i]? = some e ∧ s.events[j]? = some e' ∧ e.stamp.compare e'.stamp = .lt := by
  have hcausal := StampClock.Causal.reaches stampClock_advances h
  simp only [Timestamp.compare_eq_lt]
  refine ⟨fun i j e e' he he' hlt hnode => hcausal.direct i j e e' he he' (Or.inl ⟨hlt, hnode⟩), ?_,
    fun i j hb => hcausal.lt_of_happenedBefore hb⟩
  intro i j k e e' e'' he he' hreceived he'' hle hnode
  have hreceipt := hcausal.direct i j e e' he he' (Or.inr hreceived)
  rcases Nat.lt_or_eq_of_le hle with hlt | rfl
  · exact lt_trans hreceipt (hcausal.direct j k e' e'' he' he'' (Or.inl ⟨hlt, hnode.symm⟩))
  · rw [he'] at he''
    obtain rfl := Option.some.inj he''
    exact hreceipt

/-- The timestamp of a node whose wall is ahead is delivered twice to one whose wall is stuck and runs back. -/
theorem timestamps_respect_causality_example :
    ∃ s, stampClock.system.runAllowed (fun _ _ => True) ⟨fun i : Bool => init i.toNat, []⟩
        [.send true 9, .send false 3, .receive false 3 0, .receive false 1 0, .send false 2] = some s ∧
      s.events.map (fun e => (e.stamp.wall, e.stamp.logical)) = [(9, 0), (3, 0), (9, 1), (9, 2), (9, 3)] ∧
      ∀ i j : ℕ, StampClock.HappenedBefore s.events i j →
        ∃ e e' : StampClock.Event Bool Timestamp,
          s.events[i]? = some e ∧ s.events[j]? = some e' ∧ e.stamp.compare e'.stamp = .lt := by
  obtain ⟨s, hs, hstamps⟩ : ∃ s, stampClock.system.runAllowed (fun _ _ => True)
      ⟨fun i : Bool => init i.toNat, []⟩
      [.send true 9, .send false 3, .receive false 3 0, .receive false 1 0, .send false 2] = some s ∧
      s.events.map (fun e => (e.stamp.wall, e.stamp.logical)) = [(9, 0), (3, 0), (9, 1), (9, 2), (9, 3)] :=
    ⟨_, rfl, by decide⟩
  exact ⟨s, hs, hstamps, (timestamps_respect_causality _ s (Machine.reaches_of_runAllowed hs)).2.2⟩

end Hlc

end Exact

/-! ## The machine clock -/

def Timestamp.exact (t : Timestamp) : Exact.Timestamp := ⟨t.wall.toNat, t.logical.toNat, t.nodeId.toNat⟩

def Hlc.exact (c : Hlc) : Exact.Hlc := ⟨c.nodeId.toNat, c.wall.toNat, c.logical.toNat⟩

/-- Machine timestamps have the order of the exact ones. -/
theorem Timestamp.exact_lt_exact {a b : Timestamp} : a.exact < b.exact ↔ a < b := by
  simp only [Exact.Timestamp.lt_iff, Timestamp.lt_iff, Timestamp.exact, UInt64.lt_iff_toNat_lt,
    UInt32.lt_iff_toNat_lt, UInt64.toNat_inj, UInt32.toNat_inj]

namespace Hlc

variable {self clock : Hlc} {ts remote : Timestamp} {wallNow : UInt64}

theorem next_some {logical logical' : UInt32} (h : next logical = some logical') :
    logical'.toNat = logical.toNat + 1 := by
  unfold next at h
  by_cases hl : logical = 0xffffffff
  · rw [if_pos hl] at h
    cases h
  · rw [if_neg hl] at h
    obtain rfl := Option.some.inj h
    have hbound := logical.toNat_lt
    have hne : logical.toNat ≠ 4294967295 := fun heq => hl (UInt32.toNat_inj.mp heq)
    rw [UInt32.toNat_add, UInt32.toNat_one]
    omega

/-- **Until a counter overflows, the machine clock is the exact one.** -/
theorem sendWithWall_exact (h : self.sendWithWall wallNow = some (ts, clock)) :
    self.exact.sendWithWall wallNow.toNat = (ts.exact, clock.exact) := by
  unfold sendWithWall at h
  by_cases hw : wallNow > self.wall
  · rw [if_pos hw] at h
    obtain ⟨rfl, rfl⟩ := Prod.mk.inj (Option.some.inj h)
    have hw' : wallNow.toNat > self.exact.wall := UInt64.lt_iff_toNat_lt.mp hw
    simp only [Exact.Hlc.sendWithWall, if_pos hw']
    rfl
  · rw [if_neg hw] at h
    by_cases hl : self.logical = 0xffffffff
    · rw [if_pos hl] at h
      cases h
    · rw [if_neg hl] at h
      obtain ⟨rfl, rfl⟩ := Prod.mk.inj (Option.some.inj h)
      have hw' : ¬ wallNow.toNat > self.exact.wall := fun hgt => hw (UInt64.lt_iff_toNat_lt.mpr hgt)
      have hnext : (self.logical + 1).toNat = self.logical.toNat + 1 := next_some (if_neg hl)
      simp only [Exact.Hlc.sendWithWall, if_neg hw']
      simp only [exact, now, Timestamp.exact, Exact.Hlc.now, hnext]

theorem toNat_max64 (a b : UInt64) : (max a b).toNat = max a.toNat b.toNat := by
  show (if a ≤ b then b else a).toNat = _
  split_ifs with h
  all_goals
    rw [UInt64.le_iff_toNat_le] at h
    omega

theorem toNat_max32 (a b : UInt32) : (max a b).toNat = max a.toNat b.toNat := by
  show (if a ≤ b then b else a).toNat = _
  split_ifs with h
  all_goals
    rw [UInt32.le_iff_toNat_le] at h
    omega

theorem recv_exact (h : self.recv remote wallNow = some (ts, clock)) :
    self.exact.recv remote.exact wallNow.toNat = (ts.exact, clock.exact) := by
  obtain ⟨logical, hlogical, hclock⟩ := Option.map_eq_some_iff.mp h
  obtain ⟨rfl, rfl⟩ := Prod.mk.inj hclock
  have hwall : max wallNow.toNat (max self.exact.wall remote.exact.wall) =
      (max wallNow (max self.wall remote.wall)).toNat := by
    rw [toNat_max64, toNat_max64]
    rfl
  have heq (a b : UInt64) : (a.toNat = b.toNat) = (a = b) := propext UInt64.toNat_inj
  have hself : self.exact.wall = self.wall.toNat := rfl
  have hremote : remote.exact.wall = remote.wall.toNat := rfl
  have hshow {l l' : ℕ} (hl : l = l') (w n : ℕ) :
      ((⟨w, l, n⟩, ⟨n, w, l⟩) : Exact.Timestamp × Exact.Hlc) = (⟨w, l', n⟩, ⟨n, w, l'⟩) := by rw [hl]
  unfold Exact.Hlc.recv
  rw [hwall]
  simp only [hself, hremote, heq]
  -- the four cases of the source
  split_ifs at hlogical ⊢ with hboth honly hother
  · have hnext := next_some hlogical
    rw [toNat_max32] at hnext
    exact hshow hnext.symm _ _
  · exact hshow (next_some hlogical).symm _ _
  · exact hshow (next_some hlogical).symm _ _
  · obtain rfl := Option.some.inj hlogical
    rfl

end Hlc

end Slung
