import Mathlib.Data.List.Basic
import Mathlib.Tactic.Common

/-!
# Slung.Lib.Framing — logs of framed records, cut anywhere

A log is the concatenation of framed records.  A scanner looks at the bytes that are left and says
whether they begin with a whole frame, with the torn beginning of one, or with something that is
neither.  `scanLog` folds a state over the frames and stops at the first torn one.

`Framing` asks two things of a scanner: it finds every whole frame, and it calls every proper beginning of
a frame torn.  Then a log cut at any point replays exactly the records that lie wholly before the cut
(`scanLog_take`).
-/

namespace Slung.Lib

variable {ρ β σ ε : Type}

/-- What a scanner sees at the head of a byte list. -/
inductive Scan (β : Type) where
  | torn
  | corrupt
  | frame (body : β) (size : ℕ)

/-- Fold `apply` over the frames of a log; the result carries the number of bytes they take. -/
def scanLog (scan : List UInt8 → Scan β) (apply : σ → β → Except ε σ) (bad : ε) :
    ℕ → σ → List UInt8 → Except ε (σ × ℕ)
  | 0, s, _ => .ok (s, 0)
  | fuel + 1, s, bytes =>
    if bytes = [] then .ok (s, 0)
    else match scan bytes with
      | .torn => .ok (s, 0)
      | .corrupt => .error bad
      | .frame body size =>
        match apply s body with
        | .error e => .error e
        | .ok s' =>
          match scanLog scan apply bad fuel s' (bytes.drop size) with
          | .error e => .error e
          | .ok (s'', n) => .ok (s'', size + n)

/-- Decode one more frame and put its record at the end of the list. -/
def collect (decode : β → Except ε ρ) (rs : List ρ) (body : β) : Except ε (List ρ) :=
  (decode body).map fun r => rs ++ [r]

/-- A step that decodes its frame and then folds the record cannot fail in the fold: it may as well run
after all frames are decoded. -/
theorem scanLog_collect (scan : List UInt8 → Scan β) {apply : σ → β → Except ε σ}
    {decode : β → Except ε ρ} {f : σ → ρ → σ} (happ : ∀ s b, apply s b = (decode b).map (f s)) (bad : ε)
    (s : σ) : ∀ (fuel : ℕ) (rs : List ρ) (bytes : List UInt8),
      scanLog scan apply bad fuel (rs.foldl f s) bytes =
        (scanLog scan (collect decode) bad fuel rs bytes).map fun r => (r.1.foldl f s, r.2)
  | 0, rs, bytes => rfl
  | fuel + 1, rs, bytes => by
    rw [scanLog, scanLog]
    by_cases hb : bytes = []
    · rw [if_pos hb, if_pos hb]
      rfl
    rw [if_neg hb, if_neg hb]
    cases scan bytes with
    | torn => rfl
    | corrupt => rfl
    | frame body size =>
      simp only [happ, collect]
      cases decode body with
      | error e => rfl
      | ok r =>
        have hfold : f (rs.foldl f s) r = (rs ++ [r]).foldl f s := by simp
        simp only [Except.map, hfold]
        rw [scanLog_collect scan happ bad s fuel (rs ++ [r]) (bytes.drop size)]
        cases scanLog scan (collect decode) bad fuel (rs ++ [r]) (bytes.drop size) <;> rfl

/-- A record format together with a scanner that is right about its valid records. -/
structure Framing (ρ β : Type) where
  Valid : ρ → Prop
  encode : ρ → List UInt8
  body : ρ → β
  scan : List UInt8 → Scan β
  encode_ne_nil : ∀ r, encode r ≠ []
  scan_frame : ∀ r rest, Valid r → scan (encode r ++ rest) = .frame (body r) (encode r).length
  scan_torn : ∀ r k, Valid r → k < (encode r).length → scan ((encode r).take k) = .torn

namespace Framing

variable (F : Framing ρ β)

/-- The log of a list of records. -/
def encodeAll (rs : List ρ) : List UInt8 := rs.flatMap F.encode

/-- The records that lie wholly inside the first `n` bytes of the log. -/
def whole : List ρ → ℕ → List ρ
  | [], _ => []
  | r :: rs, n => if (F.encode r).length ≤ n then r :: whole rs (n - (F.encode r).length) else []

@[simp] theorem encodeAll_nil : F.encodeAll [] = [] := rfl

@[simp] theorem encodeAll_cons (r : ρ) (rs : List ρ) :
    F.encodeAll (r :: rs) = F.encode r ++ F.encodeAll rs := List.flatMap_cons

@[simp] theorem encodeAll_append (rs rs' : List ρ) :
    F.encodeAll (rs ++ rs') = F.encodeAll rs ++ F.encodeAll rs' := List.flatMap_append

theorem whole_isPrefix (rs : List ρ) (n : ℕ) : F.whole rs n <+: rs := by
  induction rs generalizing n with
  | nil => exact List.prefix_rfl
  | cons r rs ih =>
    unfold whole
    split_ifs
    · exact (List.prefix_cons_inj r).mpr (ih _)
    · exact List.nil_prefix

theorem length_encodeAll_whole_le (rs : List ρ) (n : ℕ) : (F.encodeAll (F.whole rs n)).length ≤ n := by
  induction rs generalizing n with
  | nil => simp [whole]
  | cons r rs ih =>
    unfold whole
    split_ifs with h
    · rw [encodeAll_cons, List.length_append]
      have := ih (n - (F.encode r).length)
      omega
    · simp

/-- The whole records are a maximal prefix: one more no longer fits. -/
theorem whole_maximal {rs : List ρ} {n : ℕ} {r : ρ} {rest : List ρ}
    (h : rs = F.whole rs n ++ r :: rest) : n < (F.encodeAll (F.whole rs n ++ [r])).length := by
  induction rs generalizing n with
  | nil => simp [whole] at h
  | cons r' rs ih =>
    unfold whole at h ⊢
    split_ifs at h ⊢ with hlen
    · rw [List.cons_append, List.cons.injEq] at h
      have := ih h.2
      rw [List.cons_append, encodeAll_cons, List.length_append]
      omega
    · simp only [List.nil_append, List.cons.injEq] at h
      simp only [List.nil_append, encodeAll_cons, encodeAll_nil, List.append_nil, ← h.1]
      omega

theorem whole_of_length_le {rs : List ρ} {n : ℕ} (h : (F.encodeAll rs).length ≤ n) :
    F.whole rs n = rs := by
  induction rs generalizing n with
  | nil => rfl
  | cons r rs ih =>
    rw [encodeAll_cons, List.length_append] at h
    unfold whole
    rw [if_pos (by omega), ih (by omega)]

/-- The records before a torn one are the whole ones. -/
theorem whole_append_torn {rs : List ρ} {r : ρ} {k : ℕ} (h : k < (F.encode r).length) :
    F.whole (rs ++ [r]) ((F.encodeAll rs).length + k) = rs := by
  induction rs with
  | nil =>
    unfold whole
    rw [List.nil_append]
    simp only [encodeAll_nil, List.length_nil, Nat.zero_add]
    rw [if_neg (by omega)]
  | cons r' rs ih =>
    simp only [List.cons_append, encodeAll_cons, List.length_append]
    unfold whole
    rw [if_pos (by omega)]
    have harith : (F.encode r').length + (F.encodeAll rs).length + k - (F.encode r').length =
        (F.encodeAll rs).length + k := by omega
    rw [harith, ih]

theorem encodeAll_take_torn (rs : List ρ) (r : ρ) (k : ℕ) :
    (F.encodeAll (rs ++ [r])).take ((F.encodeAll rs).length + k) =
      F.encodeAll rs ++ (F.encode r).take k := by
  rw [encodeAll_append, List.take_length_add_append]
  simp

theorem length_encode_pos (r : ρ) : 0 < (F.encode r).length :=
  List.length_pos_iff.mpr (F.encode_ne_nil r)

/-- **A log cut at any point** folds the records that lie wholly before the cut, and the bytes counted are
theirs. -/
theorem scanLog_take (apply : σ → β → Except ε σ) (bad : ε) :
    ∀ (rs : List ρ), (∀ r ∈ rs, F.Valid r) → ∀ (n fuel : ℕ) (s : σ),
      ((F.encodeAll rs).take n).length ≤ fuel →
      scanLog F.scan apply bad fuel s ((F.encodeAll rs).take n) =
        (((F.whole rs n).map F.body).foldlM apply s).map
          (fun s' => (s', (F.encodeAll (F.whole rs n)).length))
  | [], _, n, fuel, s, _ => by
    cases fuel <;> simp [scanLog, whole] <;> rfl
  | r :: rs, hv, n, fuel, s, hfuel => by
    have hr : F.Valid r := hv r (by simp)
    have hrs : ∀ r' ∈ rs, F.Valid r' := fun r' h => hv r' (by simp [h])
    have hpos := F.length_encode_pos r
    rw [encodeAll_cons] at hfuel ⊢
    unfold whole
    split_ifs with hlen
    · have htake : (F.encode r ++ F.encodeAll rs).take n =
          F.encode r ++ (F.encodeAll rs).take (n - (F.encode r).length) := by
        rw [List.take_append, List.take_of_length_le hlen]
      rw [htake, List.length_append] at hfuel
      rw [htake]
      obtain ⟨fuel, rfl⟩ : ∃ f, fuel = f + 1 := ⟨fuel - 1, by omega⟩
      have hne : F.encode r ++ (F.encodeAll rs).take (n - (F.encode r).length) ≠ [] := by
        simp [F.encode_ne_nil r]
      rw [scanLog, if_neg hne, F.scan_frame _ _ hr]
      simp only [List.map_cons, List.foldlM_cons, List.drop_left]
      cases happ : apply s (F.body r) with
      | error e => rfl
      | ok s' =>
        simp only
        rw [scanLog_take apply bad rs hrs _ fuel s' (by omega)]
        change _ = Except.map _ (((F.whole rs (n - (F.encode r).length)).map F.body).foldlM apply s')
        cases ((F.whole rs (n - (F.encode r).length)).map F.body).foldlM apply s' with
        | error e => rfl
        | ok s'' => simp [Except.map]
    · -- the cut falls inside `r`
      have htake : (F.encode r ++ F.encodeAll rs).take n = (F.encode r).take n :=
        List.take_append_of_le_length (by omega)
      rw [htake]
      cases fuel with
      | zero => rfl
      | succ fuel =>
        rw [scanLog]
        split_ifs
        · rfl
        · rw [F.scan_torn r n hr (by omega)]
          rfl

theorem scanLog_encodeAll (apply : σ → β → Except ε σ) (bad : ε) {rs : List ρ} {fuel : ℕ} (s : σ)
    (hv : ∀ r ∈ rs, F.Valid r) (hfuel : (F.encodeAll rs).length ≤ fuel) :
    scanLog F.scan apply bad fuel s (F.encodeAll rs) =
      ((rs.map F.body).foldlM apply s).map (fun s' => (s', (F.encodeAll rs).length)) := by
  have h := F.scanLog_take apply bad rs hv (F.encodeAll rs).length fuel s (by simpa using hfuel)
  rwa [List.take_length, F.whole_of_length_le (Nat.le_refl _)] at h

end Framing

/-! ## Scanners that see exactly the frames -/

/-- A scanner that calls a frame what is one: the bodies with `Ok`, framed. -/
structure SeesFrames (scan : List UInt8 → Scan β) (frame : β → List UInt8) (Ok : β → Prop) : Prop where
  ne_nil : ∀ body, frame body ≠ []
  sound : ∀ bytes body size, scan bytes = .frame body size →
    Ok body ∧ size = (frame body).length ∧ frame body <+: bytes
  complete : ∀ body rest, Ok body → scan (frame body ++ rest) = .frame body (frame body).length

namespace SeesFrames

variable {scan : List UInt8 → Scan β} {frame : β → List UInt8} {Ok : β → Prop}

/-- A row of frames whose bodies are taken, and behind them nothing or the torn beginning of a frame. -/
def Splits (scan : List UInt8 → Scan β) (frame : β → List UInt8) (Ok : β → Prop) (apply : σ → β → Except ε σ)
    (s : σ) (bytes : List UInt8) (s' : σ) (n : ℕ) : Prop :=
  ∃ (bodies : List β) (rest : List UInt8), bytes = bodies.flatMap frame ++ rest ∧ (∀ body ∈ bodies, Ok body) ∧
    bodies.foldlM apply s = .ok s' ∧ n = (bodies.flatMap frame).length ∧ (rest = [] ∨ scan rest = .torn)

/-- Bytes that do not begin with a frame are torn or at their end, if they split. -/
theorem splits_of_no_frame (hscan : SeesFrames scan frame Ok) {apply : σ → β → Except ε σ} {s s' : σ}
    {bytes : List UInt8} {n : ℕ} (hno : ∀ body size, scan bytes ≠ .frame body size) :
    Splits scan frame Ok apply s bytes s' n ↔ (bytes = [] ∨ scan bytes = .torn) ∧ s = s' ∧ n = 0 := by
  constructor
  · rintro ⟨bodies, rest, rfl, hok, hfold, rfl, hend⟩
    cases bodies with
    | nil => exact ⟨hend, Except.ok.inj hfold, rfl⟩
    | cons body bodies =>
      rw [List.flatMap_cons, List.append_assoc] at hno
      exact absurd (hscan.complete body _ (hok body (by simp))) (hno _ _)
  · rintro ⟨hend, rfl, rfl⟩
    exact ⟨[], bytes, rfl, nofun, rfl, rfl, hend⟩

/-- Bytes that begin with a frame split behind it. -/
theorem splits_of_frame (hscan : SeesFrames scan frame Ok) {apply : σ → β → Except ε σ} {s s' : σ}
    {body : β} {rest : List UInt8} {n : ℕ} (hok : Ok body) :
    Splits scan frame Ok apply s (frame body ++ rest) s' n ↔ ∃ s₁ n₁, apply s body = .ok s₁ ∧
      n = (frame body).length + n₁ ∧ Splits scan frame Ok apply s₁ rest s' n₁ := by
  have hhead := hscan.complete body rest hok
  constructor
  · rintro ⟨bodies, rest', hsplit, hoks, hfold, rfl, hend⟩
    cases bodies with
    | nil =>
      rw [List.flatMap_nil, List.nil_append] at hsplit
      rw [← hsplit, hhead] at hend
      rcases hend with hend | hend
      · exact absurd (List.append_eq_nil_iff.mp hend).1 (hscan.ne_nil body)
      · cases hend
    | cons body' bodies =>
      rw [List.flatMap_cons, List.append_assoc] at hsplit
      have hhead' := hscan.complete body' (bodies.flatMap frame ++ rest') (hoks body' (by simp))
      rw [← hsplit, hhead] at hhead'
      obtain ⟨rfl, -⟩ := Scan.frame.inj hhead'
      rw [List.foldlM_cons] at hfold
      cases happ : apply s body with
      | error e =>
        rw [happ] at hfold
        cases hfold
      | ok s₁ =>
        rw [happ] at hfold
        refine ⟨s₁, _, rfl, by rw [List.flatMap_cons, List.length_append], bodies, rest',
          List.append_cancel_left hsplit, fun b hb => hoks b (List.mem_cons_of_mem _ hb), hfold, rfl, hend⟩
  · rintro ⟨s₁, n₁, happ, rfl, bodies, rest', rfl, hoks, hfold, rfl, hend⟩
    refine ⟨body :: bodies, rest', by rw [List.flatMap_cons, List.append_assoc], ?_, ?_, ?_, hend⟩
    · intro b hb
      rcases List.mem_cons.mp hb with rfl | hb
      · exact hok
      · exact hoks b hb
    · rw [List.foldlM_cons, happ]
      exact hfold
    · rw [List.flatMap_cons, List.length_append]

/-- **When a log is read to its end**: iff it splits. -/
theorem scanLog_ok_iff (hscan : SeesFrames scan frame Ok) (apply : σ → β → Except ε σ) (bad : ε) {s' : σ} :
    ∀ {n : ℕ} (fuel : ℕ) (s : σ) (bytes : List UInt8), bytes.length ≤ fuel →
      (scanLog scan apply bad fuel s bytes = .ok (s', n) ↔ Splits scan frame Ok apply s bytes s' n)
  | n, 0, s, bytes, hfuel => by
    obtain rfl : bytes = [] := List.length_eq_zero_iff.mp (Nat.le_zero.mp hfuel)
    have hno : ∀ body size, scan [] ≠ .frame body size := by
      intro body size h
      exact hscan.ne_nil body (List.prefix_nil.mp (hscan.sound _ _ _ h).2.2)
    rw [hscan.splits_of_no_frame hno, scanLog, Except.ok.injEq, Prod.mk.injEq]
    simp [eq_comm]
  | n, fuel + 1, s, bytes, hfuel => by
    rw [scanLog]
    by_cases hnil : bytes = []
    · rw [if_pos hnil, ← scanLog_ok_iff hscan apply bad 0 s bytes (by simp [hnil]), scanLog]
    rw [if_neg hnil]
    cases hhead : scan bytes with
    | torn =>
      rw [hscan.splits_of_no_frame (by simp [hhead]), Except.ok.injEq, Prod.mk.injEq]
      simp [hhead, eq_comm]
    | corrupt =>
      rw [hscan.splits_of_no_frame (by simp [hhead])]
      simp [hhead, hnil]
    | frame body size =>
      obtain ⟨hok, rfl, rest, rfl⟩ := hscan.sound _ _ _ hhead
      have hpos : 0 < (frame body).length := List.length_pos_iff.mpr (hscan.ne_nil body)
      rw [List.length_append] at hfuel
      rw [hscan.splits_of_frame hok]
      simp only [List.drop_left]
      have ih : ∀ {n : ℕ} (s₁ : σ), scanLog scan apply bad fuel s₁ rest = .ok (s', n) ↔
          Splits scan frame Ok apply s₁ rest s' n :=
        fun s₁ => scanLog_ok_iff hscan apply bad fuel s₁ rest (by omega)
      cases happ : apply s body with
      | error e => simp
      | ok s₁ =>
        simp only
        constructor
        · intro h
          cases hrec : scanLog scan apply bad fuel s₁ rest with
          | error e =>
            rw [hrec] at h
            cases h
          | ok r =>
            rw [hrec] at h
            obtain ⟨rfl, rfl⟩ := Prod.mk.inj (Except.ok.inj h)
            exact ⟨s₁, r.2, rfl, rfl, (ih s₁).mp hrec⟩
        · rintro ⟨s₂, n₁, hs, rfl, hsplits⟩
          obtain rfl := Except.ok.inj hs
          rw [(ih s₁).mpr hsplits]

/-- One step of fuel for each byte is enough. -/
theorem scanLog_succ (hscan : SeesFrames scan frame Ok) (apply : σ → β → Except ε σ) (bad : ε) :
    ∀ (fuel : ℕ) (s : σ) (bytes : List UInt8), bytes.length ≤ fuel →
      scanLog scan apply bad (fuel + 1) s bytes = scanLog scan apply bad fuel s bytes
  | 0, s, bytes, hfuel => by
    obtain rfl : bytes = [] := List.length_eq_zero_iff.mp (Nat.le_zero.mp hfuel)
    simp [scanLog]
  | fuel + 1, s, bytes, hfuel => by
    rw [scanLog, scanLog]
    by_cases hnil : bytes = []
    · rw [if_pos hnil, if_pos hnil]
    rw [if_neg hnil, if_neg hnil]
    cases hhead : scan bytes with
    | torn => rfl
    | corrupt => rfl
    | frame body size =>
      obtain ⟨-, rfl, rest, rfl⟩ := hscan.sound _ _ _ hhead
      have hpos : 0 < (frame body).length := List.length_pos_iff.mpr (hscan.ne_nil body)
      rw [List.length_append] at hfuel
      simp only [List.drop_left]
      cases apply s body with
      | error e => rfl
      | ok s₁ =>
        simp only
        rw [scanLog_succ hscan apply bad fuel s₁ rest (by omega)]

end SeesFrames

end Slung.Lib
