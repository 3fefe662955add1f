import Mathlib.Data.List.Basic
import Mathlib.Tactic.Common

/-!
# Slung.Lib.Delimited — formats whose frames say where they end, and loops that read them

The reader of a `Delimited` format takes one frame off the front of a byte list, so frames that follow each
other can be read in one way only.  A loop whose body takes a frame a turn (`Reads`) stops, and has read exactly
the records whose frames the bytes are (`Reads.run`).
-/

namespace Slung.Lib

variable {ρ σ ε : Type}

/-- Run a loop that its body ends with `ok none`; `none` when the fuel is used up. -/
def loop (body : σ → Except ε (Option σ)) : ℕ → σ → Option (Except ε σ)
  | 0, _ => none
  | fuel + 1, s =>
    match body s with
    | .error e => some (.error e)
    | .ok none => some (.ok s)
    | .ok (some s') => loop body fuel s'

/-- A format with a reader that is right about its valid records. -/
structure Delimited (ρ : Type) where
  Valid : ρ → Prop
  frame : ρ → List UInt8
  next : List UInt8 → Option (ρ × List UInt8)
  frame_ne_nil : ∀ r, frame r ≠ []
  next_eq_some_iff : ∀ bytes r rest, next bytes = some (r, rest) ↔ Valid r ∧ bytes = frame r ++ rest

namespace Delimited

variable (F : Delimited ρ)

def frames (rs : List ρ) : List UInt8 := rs.flatMap F.frame

/-- The bytes are the frames of these valid records. -/
def Holds (bytes : List UInt8) (rs : List ρ) : Prop := (∀ r ∈ rs, F.Valid r) ∧ bytes = F.frames rs

variable {F} {bytes rest : List UInt8} {r : ρ} {rs rs' : List ρ}

theorem holds_nil_iff : F.Holds [] rs ↔ rs = [] := by
  constructor
  · rintro ⟨-, hframes⟩
    cases rs with
    | nil => rfl
    | cons r rs => exact absurd (List.append_eq_nil_iff.mp hframes.symm).1 (F.frame_ne_nil r)
  · rintro rfl
    exact ⟨by simp, rfl⟩

/-- What the frames after the first one hold is the rest of the records. -/
theorem holds_iff_of_next (h : F.next bytes = some (r, rest)) :
    F.Holds bytes rs ↔ ∃ rs', rs = r :: rs' ∧ F.Holds rest rs' := by
  obtain ⟨hr, rfl⟩ := (F.next_eq_some_iff bytes r rest).mp h
  constructor
  · rintro ⟨hvalid, hframes⟩
    cases rs with
    | nil => exact absurd (List.append_eq_nil_iff.mp hframes).1 (F.frame_ne_nil r)
    | cons r' rs' =>
      have hnext : F.next (F.frame r ++ rest) = some (r', F.frames rs') :=
        (F.next_eq_some_iff _ _ _).mpr ⟨hvalid r' (by simp), hframes⟩
      obtain ⟨rfl, rfl⟩ := Prod.mk.inj (Option.some.inj (hnext.symm.trans h))
      exact ⟨rs', rfl, fun r'' hr'' => hvalid r'' (by simp [hr'']), rfl⟩
  · rintro ⟨rs', rfl, hvalid, rfl⟩
    exact ⟨List.forall_mem_cons.mpr ⟨hr, hvalid⟩, rfl⟩

/-- Bytes that do not begin with a frame hold nothing. -/
theorem not_holds_of_next (hne : bytes ≠ []) (h : F.next bytes = none) : ¬ F.Holds bytes rs := by
  rintro ⟨hvalid, hframes⟩
  cases rs with
  | nil => exact hne hframes
  | cons r rs =>
    have hnext : F.next bytes = some (r, F.frames rs) :=
      (F.next_eq_some_iff _ _ _).mpr ⟨hvalid r (by simp), hframes⟩
    rw [h] at hnext
    cases hnext

theorem length_lt_of_next (h : F.next bytes = some (r, rest)) : rest.length < bytes.length := by
  obtain ⟨-, rfl⟩ := (F.next_eq_some_iff bytes r rest).mp h
  have hpos := List.length_pos_iff.mpr (F.frame_ne_nil r)
  rw [List.length_append]
  omega

/-- **Bytes hold one list of records.** -/
theorem Holds.unique (h : F.Holds bytes rs) (h' : F.Holds bytes rs') : rs = rs' := by
  induction rs generalizing bytes rs' with
  | nil =>
    obtain ⟨-, rfl⟩ := h
    exact (holds_nil_iff.mp h').symm
  | cons r rs ih =>
    have hnext : F.next bytes = some (r, F.frames rs) :=
      (F.next_eq_some_iff _ _ _).mpr ⟨h.1 r (by simp), h.2⟩
    obtain ⟨rs₁, hrs₁, hrest₁⟩ := (holds_iff_of_next hnext).mp h
    obtain ⟨rs₂, rfl, hrest₂⟩ := (holds_iff_of_next hnext).mp h'
    rw [ih ((List.cons.inj hrs₁).2 ▸ hrest₁) hrest₂]

/-- The body of a loop takes one frame a turn.  `At s rest rs`: in `s` these bytes are left and these records
have been read.  The loop ends with `bad` where no frame begins, and refuses the records that `check` finds an
error in. -/
structure Reads (F : Delimited ρ) (body : σ → Except ε (Option σ)) (check : ρ → Option ε) (bad : ε)
    (At : σ → List UInt8 → List ρ → Prop) : Prop where
  done : ∀ s rs, At s [] rs → body s = .ok none
  stop : ∀ s bytes rs, At s bytes rs → bytes ≠ [] → F.next bytes = none → body s = .error bad
  refuse : ∀ s bytes rs r rest e, At s bytes rs → F.next bytes = some (r, rest) → check r = some e →
    body s = .error e
  read : ∀ s bytes rs r rest, At s bytes rs → F.next bytes = some (r, rest) → check r = none →
    ∃ s', body s = .ok (some s') ∧ At s' rest (rs ++ [r])

/-- How such a loop ends with these bytes left and these records read: with the records that the bytes hold, or
with an error if there are none, or one that is refused. -/
def Ends (F : Delimited ρ) (check : ρ → Option ε) (bad : ε) (At : σ → List UInt8 → List ρ → Prop)
    (bytes : List UInt8) (rs : List ρ) : Except ε σ → Prop
  | .ok s => ∃ rs', F.Holds bytes rs' ∧ (∀ r ∈ rs', check r = none) ∧ At s [] (rs ++ rs')
  | .error e => (e = bad ∨ ∃ r, check r = some e) ∧ ∀ rs', F.Holds bytes rs' → ∃ r ∈ rs', check r ≠ none

/-- **A loop that takes a frame a turn** ends within as many turns as there are bytes. -/
theorem Reads.run {body : σ → Except ε (Option σ)} {check : ρ → Option ε} {bad : ε}
    {At : σ → List UInt8 → List ρ → Prop} (h : Reads F body check bad At) :
    ∀ (fuel : ℕ) {s : σ} {bytes : List UInt8} {rs : List ρ}, At s bytes rs → bytes.length < fuel →
      ∃ result, loop body fuel s = some result ∧ Ends F check bad At bytes rs result
  | 0, _, _, _, _, hfuel => absurd hfuel (Nat.not_lt_zero _)
  | fuel + 1, s, bytes, rs, hs, hfuel => by
    rw [loop]
    by_cases hnil : bytes = []
    · subst hnil
      rw [h.done s rs hs]
      refine ⟨.ok s, rfl, [], holds_nil_iff.mpr rfl, by simp, ?_⟩
      rw [List.append_nil]
      exact hs
    cases hnext : F.next bytes with
    | none =>
      rw [h.stop s bytes rs hs hnil hnext]
      exact ⟨.error bad, rfl, Or.inl rfl, fun rs' hholds => absurd hholds (not_holds_of_next hnil hnext)⟩
    | some found =>
      obtain ⟨r, rest⟩ := found
      cases hcheck : check r with
      | some e =>
        rw [h.refuse s bytes rs r rest e hs hnext hcheck]
        refine ⟨.error e, rfl, Or.inr ⟨r, hcheck⟩, fun rs' hholds => ?_⟩
        obtain ⟨rs'', rfl, -⟩ := (holds_iff_of_next hnext).mp hholds
        exact ⟨r, by simp, by simp [hcheck]⟩
      | none =>
        obtain ⟨s', hbody, hs'⟩ := h.read s bytes rs r rest hs hnext hcheck
        rw [hbody]
        have hlt := length_lt_of_next hnext
        obtain ⟨result, hloop, hends⟩ := Reads.run h fuel hs' (by omega)
        refine ⟨result, hloop, ?_⟩
        cases result with
        | ok s'' =>
          obtain ⟨rs', hholds, hchecks, hat⟩ := hends
          refine ⟨r :: rs', (holds_iff_of_next hnext).mpr ⟨rs', rfl, hholds⟩,
            List.forall_mem_cons.mpr ⟨hcheck, hchecks⟩, ?_⟩
          rwa [List.append_assoc] at hat
        | error e =>
          refine ⟨hends.1, fun rs' hholds => ?_⟩
          obtain ⟨rs'', rfl, hrest⟩ := (holds_iff_of_next hnext).mp hholds
          obtain ⟨r', hr', hrefused⟩ := hends.2 rs'' hrest
          exact ⟨r', by simp [hr'], hrefused⟩

end Delimited

end Slung.Lib
