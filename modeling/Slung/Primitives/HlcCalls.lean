import Slung.Primitives.ExactHlc
import Mathlib.Data.List.Induction

/-!
# Slung.Primitives.HlcCalls — runs of clock calls

A call returns iff the counter that it adds to has room (`call_isSome_iff`), and what it returns is then after the
local and after the remote timestamp (`after_of_call`).  Both come from the exact clock.
-/

namespace Slung

/-- `send_with_wall` and `recv`, with the reading of the wall. -/
inductive Hlc.Call where
  | send (wallNow : UInt64)
  | recv (remote : Timestamp) (wallNow : UInt64)
deriving DecidableEq, Repr

namespace Hlc.Call

/-- The timestamp that is received. -/
def remote? : Call → Option Timestamp
  | .send _ => none
  | .recv remote _ => some remote

end Hlc.Call

namespace Hlc

/-- Where a clock starts from. -/
inductive Start where
  | init (nodeId : UInt32)
  | fromTimestamp (timestamp : Timestamp)
deriving DecidableEq, Repr

def Start.clock : Start → Hlc
  | .init nodeId => Hlc.init nodeId
  | .fromTimestamp timestamp => Hlc.fromTimestamp timestamp

/-- One call; `none` when a checked addition overflows. -/
def call (self : Hlc) : Call → Option (Timestamp × Hlc)
  | .send wallNow => self.sendWithWall wallNow
  | .recv remote wallNow => self.recv remote wallNow

/-- The clock after calls that all return. -/
def callAll (self : Hlc) (calls : List Call) : Option Hlc :=
  calls.foldlM (fun clock c => (clock.call c).map (·.2)) self

/-- The counter that the call adds to is not at its end: no timestamp with the newest wall of those that the call
sees has the last counter. -/
def HasRoom (self : Hlc) : Call → Prop
  | .send wallNow => wallNow ≤ self.wall → self.logical ≠ 0xffffffff
  | .recv remote wallNow =>
    (wallNow ≤ self.wall → remote.wall ≤ self.wall → self.logical ≠ 0xffffffff) ∧
    (wallNow ≤ remote.wall → self.wall ≤ remote.wall → remote.logical ≠ 0xffffffff)

instance (self : Hlc) : (c : Call) → Decidable (self.HasRoom c)
  | .send _ => inferInstanceAs (Decidable (_ → _))
  | .recv _ _ => inferInstanceAs (Decidable (_ ∧ _))

variable {self clock : Hlc} {remote ts : Timestamp} {wallNow : UInt64} {c : Call}

theorem next_isSome {logical : UInt32} : (next logical).isSome ↔ logical ≠ 0xffffffff := by
  unfold next
  split_ifs with h
  · exact iff_of_false Bool.false_ne_true fun hne => hne h
  · exact iff_of_true rfl h

theorem max_ne_last {a b : UInt32} : max a b ≠ 0xffffffff ↔ a ≠ 0xffffffff ∧ b ≠ 0xffffffff := by
  have ha := a.toNat_lt
  have hb := b.toNat_lt
  have hlast : (0xffffffff : UInt32).toNat = 4294967295 := rfl
  simp only [ne_eq, ← UInt32.toNat_inj, toNat_max32, hlast]
  omega

/-- The largest of three walls is the middle one iff the others are not larger. -/
theorem newest_eq_local {a b c : UInt64} : max a (max b c) = b ↔ a ≤ b ∧ c ≤ b := by
  simp only [← UInt64.toNat_inj, toNat_max64, UInt64.le_iff_toNat_le]
  omega

theorem newest_eq_remote {a b c : UInt64} : max a (max b c) = c ↔ a ≤ c ∧ b ≤ c := by
  simp only [← UInt64.toNat_inj, toNat_max64, UInt64.le_iff_toNat_le]
  omega

theorem recv_isSome : (self.recv remote wallNow).isSome ↔ self.HasRoom (.recv remote wallNow) := by
  unfold recv HasRoom
  rw [Option.isSome_map]
  -- the counter of the newest wall, where there is one
  split_ifs with hboth honly hother
  · rw [newest_eq_local, newest_eq_remote] at hboth
    obtain ⟨⟨hw, hr⟩, hw', hs⟩ := hboth
    rw [next_isSome, max_ne_last]
    exact ⟨fun h => ⟨fun _ _ => h.1, fun _ _ => h.2⟩, fun h => ⟨h.1 hw hr, h.2 hw' hs⟩⟩
  · have hne : ¬ (wallNow ≤ remote.wall ∧ self.wall ≤ remote.wall) := by
      rw [← newest_eq_remote]
      exact fun h => hboth ⟨honly, h⟩
    rw [newest_eq_local] at honly
    rw [next_isSome]
    exact ⟨fun h => ⟨fun _ _ => h, fun hw hs => absurd ⟨hw, hs⟩ hne⟩, fun h => h.1 honly.1 honly.2⟩
  · rw [newest_eq_local] at honly
    rw [newest_eq_remote] at hother
    rw [next_isSome]
    exact ⟨fun h => ⟨fun hw hr => absurd ⟨hw, hr⟩ honly, fun _ _ => h⟩, fun h => h.2 hother.1 hother.2⟩
  · rw [newest_eq_local] at honly
    rw [newest_eq_remote] at hother
    exact iff_of_true rfl ⟨fun hw hr => absurd ⟨hw, hr⟩ honly, fun hw hs => absurd ⟨hw, hs⟩ hother⟩

/-- **A call returns iff its counter has room.** -/
theorem call_isSome_iff : (self.call c).isSome ↔ self.HasRoom c := by
  cases c with
  | send wallNow =>
    show (self.sendWithWall wallNow).isSome ↔ (wallNow ≤ self.wall → self.logical ≠ 0xffffffff)
    rw [Option.isSome_iff_ne_none, ne_eq, sendWithWall_none, not_and]
    rfl
  | recv remote wallNow => exact recv_isSome

/-- What a call returns is what the clock then shows. -/
theorem now_of_call (h : self.call c = some (ts, clock)) : ts = clock.now := by
  cases c with
  | send wallNow => exact (sendWithWall_some h).1
  | recv remote wallNow =>
    obtain ⟨logical, -, hclock⟩ := Option.map_eq_some_iff.mp h
    obtain ⟨rfl, rfl⟩ := Prod.mk.inj hclock
    rfl

/-- **What a call returns is after the local and after the remote timestamp.** -/
theorem after_of_call (h : self.call c = some (ts, clock)) :
    ts.after self.now = true ∧ ∀ remote ∈ c.remote?, ts.after remote = true := by
  simp only [Timestamp.after_iff]
  cases c with
  | send wallNow => exact ⟨(sendWithWall_some h).2, fun _ hmem => nomatch hmem⟩
  | recv remote wallNow =>
    have hlt := self.exact.lt_recv remote.exact wallNow.toNat
    rw [recv_exact h] at hlt
    refine ⟨Timestamp.exact_lt_exact.mp hlt.1, fun remote' hmem => ?_⟩
    obtain rfl := Option.some.inj hmem
    exact Timestamp.exact_lt_exact.mp hlt.2

/-- **The clock of the source counts on as long as its counters have room.**  From `init` and from any timestamp:
every call of a run returns, with what the clock then shows, and that is after what it showed before and after
the remote timestamp, iff every call finds room in the clock that it is made on. -/
theorem calls_return_iff (start : Start) (calls : List Call) :
    (∀ before c rest, calls = before ++ c :: rest → ∃ self, start.clock.callAll before = some self ∧
      ∃ ts clock, self.call c = some (ts, clock) ∧ ts = clock.now ∧ ts.after self.now = true ∧
        ∀ remote ∈ c.remote?, ts.after remote = true) ↔
    ∀ before c rest self, calls = before ++ c :: rest → start.clock.callAll before = some self →
      self.HasRoom c := by
  constructor
  · intro h before c rest self hcalls hself
    obtain ⟨self', hself', ts, clock, hcall, -⟩ := h before c rest hcalls
    obtain rfl := Option.some.inj (hself.symm.trans hself')
    rw [← call_isSome_iff, hcall]
    rfl
  · intro h before
    -- from the first call to the last: the calls before one have all returned
    induction before using List.reverseRecOn with
    | nil =>
      intro c rest hcalls
      obtain ⟨⟨ts, clock⟩, hcall⟩ := Option.isSome_iff_exists.mp (call_isSome_iff.mpr (h [] c rest _ hcalls rfl))
      exact ⟨_, rfl, ts, clock, hcall, now_of_call hcall, after_of_call hcall⟩
    | append_singleton before c' ih =>
      intro c rest hcalls
      rw [List.append_assoc, List.singleton_append] at hcalls
      obtain ⟨self, hself, ts', self', hcall', -⟩ := ih c' (c :: rest) hcalls
      have hself' : start.clock.callAll (before ++ [c']) = some self' := by
        unfold callAll at hself ⊢
        rw [List.foldlM_append, hself]
        show ((self.call c').map (·.2)).bind some = some self'
        rw [hcall']
        rfl
      rw [← List.singleton_append, ← List.append_assoc] at hcalls
      obtain ⟨⟨ts, clock⟩, hcall⟩ := Option.isSome_iff_exists.mp
        (call_isSome_iff.mpr (h _ c rest self' hcalls hself'))
      exact ⟨self', hself', ts, clock, hcall, now_of_call hcall, after_of_call hcall⟩

/-- A clock that is restored from a timestamp with the last counter has no next event until the wall moves on. -/
theorem not_calls_return :
    ¬ ∀ (start : Start) (calls : List Call),
      ∀ before c rest, calls = before ++ c :: rest → ∃ self, start.clock.callAll before = some self ∧
        ∃ ts clock, self.call c = some (ts, clock) ∧ ts.after self.now = true ∧
          ∀ remote ∈ c.remote?, ts.after remote = true := by
  intro h
  obtain ⟨self, hself, ts, clock, hcall, -⟩ := h (.fromTimestamp ⟨5, 0xffffffff, 1⟩) [.send 5] [] (.send 5) [] rfl
  obtain rfl := Option.some.inj hself
  exact Option.some_ne_none _ (hcall.symm.trans (by decide))

end Hlc

end Slung
