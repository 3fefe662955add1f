import Slung.Bin.Deployment
import Slung.Lib.Checked

/-!
# Slung.Bin.Envelope — the envelope of a deployment is a canonical encoding (`bin/deployment.zig`)

`Guarded.parseEnvelope` is `parseEnvelope` with every slice checked against the body, and no check fails
(`Guarded.parseEnvelope_eq`).  What is accepted is the header and the payload of what is returned
(`parseEnvelope_some`), so an accepted body neither goes on nor breaks off (`parseEnvelope_prefix`).  The lengths
alone say where the payload is split (`parseEnvelope_envelope`).
-/

namespace Slung.Deployment

open Slung.Lib

/-! ## The parser with its checks -/

namespace Guarded

def readU32 (body : Bytes) (pos : ℕ) : Checked Unit ℕ := do
  let bytes ← Checked.slice body pos 4
  pure (Deployment.readU32 bytes)

def parseEnvelope (allocFails : Bool) (body : Bytes) : Checked Unit Deployment :=
  if body.length < headerSize then throw ()
  else do
    let start ← Checked.slice body 0 8
    if start ≠ magic then throw ()
    else do
      let namespaceLen ← readU32 body 8
      let moduleNameLen ← readU32 body 12
      let configLen ← readU32 body 16
      let wasmLen ← readU32 body 20
      let total := namespaceLen + moduleNameLen + configLen + wasmLen
      if total > maxPayloadSize ∨ headerSize + total ≠ body.length then throw ()
      else if allocFails then throw ()
      else do
        let namespaceId ← Checked.slice body headerSize namespaceLen
        let moduleName ← Checked.slice body (headerSize + namespaceLen) moduleNameLen
        let config ← Checked.slice body (headerSize + namespaceLen + moduleNameLen) configLen
        let wasm ← Checked.slice body (headerSize + namespaceLen + moduleNameLen + configLen) wasmLen
        pure ⟨namespaceId, moduleName, config, wasm⟩

theorem readU32_bind {β : Type} {body : Bytes} {pos : ℕ} (h : pos + 4 ≤ body.length) (f : ℕ → Checked Unit β) :
    (readU32 body pos >>= f) = f (Deployment.readU32 (slice body pos (pos + 4))) := by
  unfold readU32 Checked.slice
  rw [if_pos h, slice, Nat.add_sub_cancel_left]
  rfl

theorem slice_bind {β : Type} {body : Bytes} {pos n : ℕ} (h : pos + n ≤ body.length)
    (f : Bytes → Checked Unit β) : (Checked.slice body pos n >>= f) = f (slice body pos (pos + n)) := by
  rw [Checked.slice_bind h, slice, Nat.add_sub_cancel_left]

/-- **Every slice of the parser lies in the body.** -/
theorem parseEnvelope_eq (allocFails : Bool) (body : Bytes) : parseEnvelope allocFails body =
    ExceptT.mk (.ok ((Deployment.parseEnvelope allocFails body).elim (.error ()) .ok)) := by
  unfold parseEnvelope Deployment.parseEnvelope
  by_cases hshort : body.length < headerSize
  · rw [if_pos hshort, if_pos (Or.inl hshort)]
    rfl
  have hheader : 24 ≤ body.length := Nat.le_of_not_lt hshort
  rw [if_neg hshort, slice_bind (by omega)]
  by_cases hmagic : slice body 0 8 ≠ magic
  · rw [if_pos hmagic, if_pos (Or.inr hmagic)]
    rfl
  rw [if_neg hmagic, if_neg (not_or.mpr ⟨hshort, hmagic⟩), readU32_bind (by omega), readU32_bind (by omega),
    readU32_bind (by omega), readU32_bind (by omega)]
  simp only
  generalize Deployment.readU32 (slice body 8 12) = namespaceLen
  generalize Deployment.readU32 (slice body 12 16) = moduleNameLen
  generalize Deployment.readU32 (slice body 16 20) = configLen
  generalize Deployment.readU32 (slice body 20 24) = wasmLen
  by_cases htotal : namespaceLen + moduleNameLen + configLen + wasmLen > maxPayloadSize ∨
      headerSize + (namespaceLen + moduleNameLen + configLen + wasmLen) ≠ body.length
  · rw [if_pos htotal, if_pos htotal]
    rfl
  rw [if_neg htotal, if_neg htotal]
  have hsum : headerSize + (namespaceLen + moduleNameLen + configLen + wasmLen) = body.length :=
    not_not.mp (not_or.mp htotal).2
  cases allocFails with
  | true => rfl
  | false =>
    rw [if_neg Bool.false_ne_true, if_neg Bool.false_ne_true, slice_bind (by omega), slice_bind (by omega),
      slice_bind (by omega), slice_bind (by omega)]
    rfl

end Guarded

/-! ## What is accepted -/

theorem writeU32_readU32 {bytes : Bytes} (h : bytes.length = 4) : writeU32 (readU32 bytes) = bytes := by
  have hlen : bytes.reverse.length = 4 := by rw [List.length_reverse, h]
  have hback := leBytes_leNat bytes.reverse
  rw [hlen] at hback
  rw [writeU32, readU32, hback, List.reverse_reverse]

theorem writeU32_inj {n m : ℕ} (hn : n < 256 ^ 4) (hm : m < 256 ^ 4) (h : writeU32 n = writeU32 m) : n = m :=
  leBytes_inj hn hm (List.reverse_injective h)

variable {allocFails allocFails' : Bool} {body body' : Bytes} {d d' : Deployment}

/-- **An accepted body is the header and the payload of what is returned.** -/
theorem parseEnvelope_some (h : parseEnvelope allocFails body = some d) :
    body = d.header ++ d.payload ∧ d.payload.length ≤ maxPayloadSize := by
  unfold parseEnvelope at h
  by_cases hmagic : body.length < headerSize ∨ slice body 0 8 ≠ magic
  · rw [if_pos hmagic] at h
    cases h
  rw [if_neg hmagic] at h
  obtain ⟨hshort, hstart⟩ := not_or.mp hmagic
  have hheader : 24 ≤ body.length := Nat.le_of_not_lt hshort
  have hlengths : body = slice body 0 8 ++ slice body 8 12 ++ slice body 12 16 ++ slice body 16 20 ++
      slice body 20 24 ++ slice body 24 body.length := by
    rw [slice_append (by omega) (by omega), slice_append (by omega) (by omega),
      slice_append (by omega) (by omega), slice_append (by omega) (by omega), slice_append (by omega) hheader]
    simp [slice]
  simp only at h
  generalize hnamespaceLen : readU32 (slice body 8 12) = namespaceLen at h
  generalize hmoduleNameLen : readU32 (slice body 12 16) = moduleNameLen at h
  generalize hconfigLen : readU32 (slice body 16 20) = configLen at h
  generalize hwasmLen : readU32 (slice body 20 24) = wasmLen at h
  have hread {i j n : ℕ} (hle : j ≤ body.length) (hfour : j - i = 4) (hn : readU32 (slice body i j) = n) :
      slice body i j = writeU32 n := by
    rw [← hn, writeU32_readU32 (by rw [length_slice hle, hfour])]
  by_cases htotal : namespaceLen + moduleNameLen + configLen + wasmLen > maxPayloadSize ∨
      headerSize + (namespaceLen + moduleNameLen + configLen + wasmLen) ≠ body.length
  · rw [if_pos htotal] at h
    cases h
  rw [if_neg htotal] at h
  obtain ⟨hlarge, hsum⟩ := not_or.mp htotal
  rw [not_not] at hsum
  unfold headerSize at hsum h
  cases allocFails with
  | true => cases h
  | false =>
    rw [if_neg Bool.false_ne_true] at h
    obtain rfl := Option.some.inj h
    have hparts : slice body 24 body.length = payload
        ⟨slice body 24 (24 + namespaceLen), slice body (24 + namespaceLen) (24 + namespaceLen + moduleNameLen),
          slice body (24 + namespaceLen + moduleNameLen) (24 + namespaceLen + moduleNameLen + configLen),
          slice body (24 + namespaceLen + moduleNameLen + configLen)
            (24 + namespaceLen + moduleNameLen + configLen + wasmLen)⟩ := by
      rw [payload, slice_append (by omega) (by omega), slice_append (by omega) (by omega),
        slice_append (by omega) (by omega)]
      congr 1
      omega
    rw [← hparts]
    refine ⟨?_, ?_⟩
    · rw [header, length_slice (by omega), length_slice (by omega), length_slice (by omega),
        length_slice (by omega), Nat.add_sub_cancel_left, Nat.add_sub_cancel_left, Nat.add_sub_cancel_left,
        Nat.add_sub_cancel_left, ← not_not.mp hstart, ← hread (by omega) rfl hnamespaceLen,
        ← hread (by omega) rfl hmoduleNameLen, ← hread (by omega) rfl hconfigLen,
        ← hread (by omega) rfl hwasmLen]
      exact hlengths
    · rw [length_slice le_rfl]
      omega

/-! ## Where the payload is split -/

/-- A body with these lengths in its header. -/
def envelope (namespaceLen moduleNameLen configLen wasmLen : ℕ) (payload : Bytes) : Bytes :=
  magic ++ writeU32 namespaceLen ++ writeU32 moduleNameLen ++ writeU32 configLen ++ writeU32 wasmLen ++ payload

/-- The payload in parts of these lengths. -/
def split (namespaceLen moduleNameLen configLen : ℕ) (payload : Bytes) : Deployment :=
  ⟨payload.take namespaceLen, (payload.drop namespaceLen).take moduleNameLen,
    (payload.drop (namespaceLen + moduleNameLen)).take configLen,
    payload.drop (namespaceLen + moduleNameLen + configLen)⟩

theorem header_payload (d : Deployment) : d.header ++ d.payload =
    envelope d.namespaceId.length d.moduleName.length d.config.length d.wasm.length d.payload := rfl

section

variable {n m c w n' m' c' w' : ℕ} {bytes bytes' : Bytes}

theorem length_envelope : (envelope n m c w bytes).length = headerSize + bytes.length := by
  simp only [envelope, magic, headerSize, List.length_append, length_writeU32, List.length_cons, List.length_nil]

/-- Envelopes that begin alike have the same lengths, where these fit. -/
theorem envelope_inj (h : envelope n m c w bytes <+: envelope n' m' c' w' bytes')
    (hn : n < 256 ^ 4) (hm : m < 256 ^ 4) (hc : c < 256 ^ 4) (hw : w < 256 ^ 4) (hn' : n' < 256 ^ 4)
    (hm' : m' < 256 ^ 4) (hc' : c' < 256 ^ 4) (hw' : w' < 256 ^ 4) :
    n = n' ∧ m = m' ∧ c = c' ∧ w = w' ∧ bytes <+: bytes' := by
  obtain ⟨rest, hrest⟩ := h
  simp only [envelope, List.append_assoc] at hrest
  obtain ⟨-, hrest⟩ := List.append_inj hrest rfl
  obtain ⟨h1, hrest⟩ := List.append_inj hrest (by simp)
  obtain ⟨h2, hrest⟩ := List.append_inj hrest (by simp)
  obtain ⟨h3, hrest⟩ := List.append_inj hrest (by simp)
  obtain ⟨h4, hrest⟩ := List.append_inj hrest (by simp)
  exact ⟨writeU32_inj hn hn' h1, writeU32_inj hm hm' h2, writeU32_inj hc hc' h3, writeU32_inj hw hw' h4,
    rest, hrest⟩

end

theorem lengths_lt (h : d.payload.length ≤ maxPayloadSize) : d.namespaceId.length < 256 ^ 4 ∧
    d.moduleName.length < 256 ^ 4 ∧ d.config.length < 256 ^ 4 ∧ d.wasm.length < 256 ^ 4 := by
  simp only [payload, List.length_append, maxPayloadSize] at h
  omega

/-- **Of two accepted bodies none goes on where the other one ends.** -/
theorem parseEnvelope_prefix (h : parseEnvelope allocFails body = some d)
    (h' : parseEnvelope allocFails' body' = some d') (hstart : body <+: body') : body = body' := by
  obtain ⟨rfl, hsize⟩ := parseEnvelope_some h
  obtain ⟨rfl, hsize'⟩ := parseEnvelope_some h'
  obtain ⟨hn, hm, hc, hw⟩ := lengths_lt hsize
  obtain ⟨hn', hm', hc', hw'⟩ := lengths_lt hsize'
  rw [header_payload, header_payload] at hstart
  obtain ⟨hnamespace, hmoduleName, hconfig, hwasm, hpayload⟩ := envelope_inj hstart hn hm hc hw hn' hm' hc' hw'
  have heq : d.payload = d'.payload := by
    refine hpayload.eq_of_length ?_
    simp only [payload, List.length_append]
    omega
  rw [header_payload, header_payload, hnamespace, hmoduleName, hconfig, hwasm, heq]

/-- **What the lengths of a header make of the payload behind it.** -/
theorem parseEnvelope_envelope {n m c w : ℕ} (hn : n < 256 ^ 4) (hm : m < 256 ^ 4) (hc : c < 256 ^ 4)
    (hw : w < 256 ^ 4) (bytes : Bytes) : parseEnvelope false (envelope n m c w bytes) =
      if n + m + c + w = bytes.length ∧ bytes.length ≤ maxPayloadSize then some (split n m c bytes) else none := by
  by_cases hsum : n + m + c + w = bytes.length ∧ bytes.length ≤ maxPayloadSize
  · obtain ⟨hlength, hsize⟩ := hsum
    have hpayload : (split n m c bytes).payload = bytes := by
      simp only [split, payload]
      rw [← List.take_add, ← List.take_add, List.take_append_drop]
    have hbody : envelope n m c w bytes = (split n m c bytes).header ++ (split n m c bytes).payload := by
      rw [header_payload, hpayload]
      simp only [split, List.length_take, List.length_drop]
      congr 1 <;> omega
    rw [if_pos ⟨hlength, hsize⟩, hbody, parseEnvelope_header_payload (by rw [hpayload]; exact hsize)]
  · rw [if_neg hsum]
    cases hparse : parseEnvelope false (envelope n m c w bytes) with
    | none => rfl
    | some d =>
      obtain ⟨hbody, hsize⟩ := parseEnvelope_some hparse
      obtain ⟨hn', hm', hc', hw'⟩ := lengths_lt hsize
      rw [header_payload] at hbody
      obtain ⟨rfl, rfl, rfl, rfl, hpayload⟩ :=
        envelope_inj ⟨[], (List.append_nil _).trans hbody⟩ hn hm hc hw hn' hm' hc' hw'
      obtain rfl : bytes = d.payload := by
        refine hpayload.eq_of_length ?_
        have hlength := congrArg List.length hbody
        rw [length_envelope, length_envelope] at hlength
        omega
      refine absurd ⟨?_, hsize⟩ hsum
      simp only [payload, List.length_append]

/-- **The envelope is a canonical encoding.**  What is written is parsed back; parsing ends, reads inside the body
and accepts only the header and the payload of what it returns; two bodies never parse to the same deployment, nor
is one the beginning of another; and the lengths of a header are accepted iff they add up to the payload. -/
theorem envelope_canonical :
    (∀ d body, writeEnvelope d = some body → parseEnvelope false body = some d) ∧
    (∀ allocFails body, Guarded.parseEnvelope allocFails body =
      ExceptT.mk (.ok ((parseEnvelope allocFails body).elim (.error ()) .ok))) ∧
    (∀ allocFails body d, parseEnvelope allocFails body = some d → body = d.header ++ d.payload) ∧
    (∀ allocFails allocFails' body body' d, parseEnvelope allocFails body = some d →
      parseEnvelope allocFails' body' = some d → body = body') ∧
    (∀ allocFails allocFails' body d, parseEnvelope allocFails body = some d →
      (∀ k < body.length, parseEnvelope allocFails' (body.take k) = none) ∧
      ∀ rest ≠ [], parseEnvelope allocFails' (body ++ rest) = none) ∧
    ∀ n m c w, n < 256 ^ 4 → m < 256 ^ 4 → c < 256 ^ 4 → w < 256 ^ 4 → ∀ bytes,
      parseEnvelope false (envelope n m c w bytes) =
        if n + m + c + w = bytes.length ∧ bytes.length ≤ maxPayloadSize then some (split n m c bytes) else none := by
  have hnone {allocFails : Bool} {body : Bytes} (h : ∀ d, parseEnvelope allocFails body ≠ some d) :
      parseEnvelope allocFails body = none := Option.eq_none_iff_forall_ne_some.mpr h
  refine ⟨fun d body => parseEnvelope_writeEnvelope, Guarded.parseEnvelope_eq,
    fun allocFails body d h => (parseEnvelope_some h).1, ?_, ?_,
    fun n m c w hn hm hc hw => parseEnvelope_envelope hn hm hc hw⟩
  · intro allocFails allocFails' body body' d h h'
    rw [(parseEnvelope_some h).1, (parseEnvelope_some h').1]
  · intro allocFails allocFails' body d h
    refine ⟨fun k hk => hnone fun d' h' => ?_, fun rest hrest => hnone fun d' h' => ?_⟩
    · have heq := parseEnvelope_prefix h' h (List.take_prefix k body)
      have hlength := congrArg List.length heq
      rw [List.length_take] at hlength
      omega
    · have heq := parseEnvelope_prefix h h' (List.prefix_append body rest)
      exact hrest (List.append_right_eq_self.mp heq.symm)

/-- A written envelope, cut off by its last byte and with one byte more. -/
theorem envelope_canonical_example :
    let d : Deployment := ⟨[97], [98], [], [0, 1]⟩
    parseEnvelope false (d.header ++ d.payload) = some d ∧
      parseEnvelope false ((d.header ++ d.payload).take 27) = none ∧
      parseEnvelope false (d.header ++ d.payload ++ [1]) = none := by
  intro d
  have hparse := envelope_canonical.1 d _ (if_neg (by decide) : d.writeEnvelope = some (d.header ++ d.payload))
  obtain ⟨hcut, hextended⟩ := envelope_canonical.2.2.2.2.1 false false _ d hparse
  exact ⟨hparse, hcut 27 (by decide), hextended [1] (by decide)⟩

/-- The same payload under other lengths is accepted as another deployment. -/
theorem resplit_accepted :
    let bytes : Bytes := [97, 98]
    parseEnvelope false (envelope 1 1 0 0 bytes) = some ⟨[97], [98], [], []⟩ ∧
      parseEnvelope false (envelope 2 0 0 0 bytes) = some ⟨[97, 98], [], [], []⟩ := by
  decide

end Slung.Deployment
