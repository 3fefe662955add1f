import Mathlib.Tactic.Ring

/-!
# Slung.Lib.Bytes — fixed-width integers and segments of byte lists

General facts about byte lists, used by every cursor decoder of the development.

* `leBytes w n` / `leNat`: the `w` little-endian bytes of a natural and back (`leNat_leBytes`).
* `SegAt bytes pos seg`: the bytes `seg` stand in `bytes` from position `pos` on.  A decoder that is
  right on a segment is right wherever the segment stands, so encodings compose by `segAt_append`.
-/

namespace Slung.Lib

/-! ## Little-endian naturals -/

/-- The `w` little-endian bytes of `n` (the rest of `n` is dropped). -/
def leBytes : ℕ → ℕ → List UInt8
  | 0, _ => []
  | w + 1, n => UInt8.ofNat n :: leBytes w (n / 256)

/-- The natural whose little-endian bytes are given. -/
def leNat : List UInt8 → ℕ
  | [] => 0
  | b :: bs => b.toNat + 256 * leNat bs

@[simp] theorem length_leBytes (w n : ℕ) : (leBytes w n).length = w := by
  induction w generalizing n with
  | zero => rfl
  | succ w ih => simp [leBytes, ih]

theorem leNat_leBytes (w n : ℕ) : leNat (leBytes w n) = n % 256 ^ w := by
  induction w generalizing n with
  | zero => simp [leBytes, leNat, Nat.mod_one]
  | succ w ih =>
    have hb : (UInt8.ofNat n).toNat = n % 256 := by simp
    rw [leBytes, leNat, ih, hb, pow_succ', Nat.mod_mul]

theorem leNat_leBytes_of_lt {w n : ℕ} (h : n < 256 ^ w) : leNat (leBytes w n) = n := by
  rw [leNat_leBytes, Nat.mod_eq_of_lt h]

@[simp] theorem leBytes_leNat (bs : List UInt8) : leBytes bs.length (leNat bs) = bs := by
  induction bs with
  | nil => rfl
  | cons b bs ih =>
    have hb : b.toNat < 256 := b.toNat_lt
    have hhead : UInt8.ofNat (leNat (b :: bs)) = b := by
      rw [← UInt8.toNat_inj, UInt8.toNat_ofNat', leNat]
      omega
    have htail : leNat (b :: bs) / 256 = leNat bs := by
      rw [leNat]
      omega
    rw [List.length_cons, leBytes, hhead, htail, ih]

theorem leNat_lt (bs : List UInt8) : leNat bs < 256 ^ bs.length := by
  induction bs with
  | nil => simp [leNat]
  | cons b bs ih =>
    have hb : b.toNat < 256 := b.toNat_lt
    rw [leNat, List.length_cons, pow_succ]
    omega

theorem leBytes_inj {w n m : ℕ} (hn : n < 256 ^ w) (hm : m < 256 ^ w)
    (h : leBytes w n = leBytes w m) : n = m := by
  have h' := congrArg leNat h
  rwa [leNat_leBytes_of_lt hn, leNat_leBytes_of_lt hm] at h'

/-! ## Segments -/

/-- The bytes `seg` stand in `bytes` from position `pos` on. -/
def SegAt (bytes : List UInt8) (pos : ℕ) (seg : List UInt8) : Prop := seg <+: bytes.drop pos

theorem segAt_append {bytes a b : List UInt8} {pos : ℕ} :
    SegAt bytes pos (a ++ b) ↔ SegAt bytes pos a ∧ SegAt bytes (pos + a.length) b := by
  unfold SegAt
  constructor
  · rintro ⟨t, ht⟩
    refine ⟨⟨b ++ t, by rw [← ht, List.append_assoc]⟩, t, ?_⟩
    rw [← List.drop_drop, ← ht, List.append_assoc, List.drop_left]
  · rintro ⟨⟨t, ht⟩, t', ht'⟩
    rw [← List.drop_drop, ← ht, List.drop_left] at ht'
    exact ⟨t', by rw [List.append_assoc, ht', ht]⟩

theorem SegAt.take {bytes seg : List UInt8} {pos : ℕ} (h : SegAt bytes pos seg) :
    (bytes.drop pos).take seg.length = seg :=
  (List.prefix_iff_eq_take.mp h).symm

theorem SegAt.length_le {bytes seg : List UInt8} {pos : ℕ} (h : SegAt bytes pos seg) :
    seg.length ≤ bytes.length - pos := by
  simpa using List.IsPrefix.length_le h

theorem segAt_left (seg suf : List UInt8) : SegAt (seg ++ suf) 0 seg := ⟨suf, rfl⟩

theorem segAt_self (seg : List UInt8) : SegAt seg 0 seg := ⟨[], List.append_nil _⟩

theorem SegAt.drop {bytes seg : List UInt8} {pos k : ℕ} (h : SegAt (bytes.drop k) pos seg) :
    SegAt bytes (k + pos) seg := by
  unfold SegAt at h ⊢
  rwa [List.drop_drop] at h

/-! ## Reading an integer at a position -/

/-- The `w`-byte little-endian natural at `pos`. -/
def readLE (w : ℕ) (bytes : List UInt8) (pos : ℕ) : ℕ := leNat ((bytes.drop pos).take w)

theorem readLE_lt (w : ℕ) (bytes : List UInt8) (pos : ℕ) : readLE w bytes pos < 256 ^ w := by
  refine (leNat_lt _).trans_le (Nat.pow_le_pow_right (by decide) ?_)
  simp only [List.length_take]
  exact Nat.min_le_left _ _

theorem readLE_segAt {w n pos : ℕ} {bytes : List UInt8} (hn : n < 256 ^ w)
    (h : SegAt bytes pos (leBytes w n)) : readLE w bytes pos = n := by
  have ht := h.take
  rw [length_leBytes] at ht
  rw [readLE, ht, leNat_leBytes_of_lt hn]

theorem readLE_drop (w : ℕ) (bytes : List UInt8) (k pos : ℕ) :
    readLE w (bytes.drop k) pos = readLE w bytes (k + pos) := by
  rw [readLE, List.drop_drop, readLE]

/-- The bytes of an integer that was read are the bytes it was read from. -/
theorem leBytes_readLE {w : ℕ} {bytes : List UInt8} {pos : ℕ} (h : pos + w ≤ bytes.length) :
    leBytes w (readLE w bytes pos) = (bytes.drop pos).take w := by
  have hlen : ((bytes.drop pos).take w).length = w := by
    rw [List.length_take, List.length_drop]
    omega
  have := leBytes_leNat ((bytes.drop pos).take w)
  rwa [hlen] at this

/-! ## Slices -/

/-- The bytes from `start` to `stop`. -/
def slice (bytes : List UInt8) (start stop : ℕ) : List UInt8 := (bytes.drop start).take (stop - start)

theorem length_slice {bytes : List UInt8} {start stop : ℕ} (h : stop ≤ bytes.length) :
    (slice bytes start stop).length = stop - start := by
  rw [slice, List.length_take, List.length_drop]
  omega

theorem slice_drop (bytes : List UInt8) (k start stop : ℕ) :
    slice (bytes.drop k) start stop = slice bytes (k + start) (k + stop) := by
  rw [slice, List.drop_drop, slice, Nat.add_sub_add_left]

theorem slice_of_segAt {bytes seg : List UInt8} {start stop : ℕ} (h : SegAt bytes start seg)
    (hstop : start + seg.length = stop) : slice bytes start stop = seg := by
  rw [slice, ← hstop, Nat.add_sub_cancel_left]
  exact h.take

/-- Slices that follow each other. -/
theorem slice_append {bytes : List UInt8} {i j k : ℕ} (hij : i ≤ j) (hjk : j ≤ k) :
    slice bytes i j ++ slice bytes j k = slice bytes i k := by
  have hdrop : bytes.drop j = (bytes.drop i).drop (j - i) := by
    rw [List.drop_drop]
    congr 1
    omega
  rw [slice, slice, slice, hdrop, ← List.take_add]
  congr 1
  omega

end Slung.Lib
