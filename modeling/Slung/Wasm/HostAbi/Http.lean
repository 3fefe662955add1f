import Slung.Lib.Bytes
import Slung.Lib.Delimited
import Slung.Types

/-!
# Slung.Wasm.HostAbi.Http — the header wire format (`wasm/host_abi/http.zig`)

Headers go between host and guest as the length of the name, the length of the value, the name and the value,
the lengths in four little-endian bytes.  Host and SDKs each read this with a cursor and checks of their own on
the two lengths: `Reads` for one turn of such a reader follows from what the turn does where a frame begins
(`Header.Turns`).
-/

namespace Slung

open Slung.Lib

structure Header where
  name : Bytes
  value : Bytes
deriving DecidableEq, Repr

/-- Why headers are not decoded. -/
inductive HeaderErr where
  | invalid | nameNotUtf8 | valueNotUtf8
  /-- a slice that is not inside the bytes stops the program -/
  | outOfRange
deriving DecidableEq, Repr

/-! ## The format -/

namespace Header

def Fits (self : Header) : Prop := self.name.length < 256 ^ 4 ∧ self.value.length < 256 ^ 4

/-- [name length: u32][value length: u32][name bytes][value bytes] -/
def frame (self : Header) : Bytes :=
  leBytes 4 self.name.length ++ leBytes 4 self.value.length ++ self.name ++ self.value

/-- Take one header off the front. -/
def next (bytes : Bytes) : Option (Header × Bytes) :=
  if bytes.length < 8 then none
  else
    let nameEnd := 8 + readLE 4 bytes 0
    let valueEnd := nameEnd + readLE 4 bytes 4
    if valueEnd > bytes.length then none
    else some (⟨slice bytes 8 nameEnd, slice bytes nameEnd valueEnd⟩, bytes.drop valueEnd)

theorem length_frame (self : Header) : self.frame.length = 8 + self.name.length + self.value.length := by
  simp only [frame, List.length_append, length_leBytes]

/-- Four bytes are those of the integer in them. -/
theorem leBytes_readLE {bytes : Bytes} {pos : ℕ} (h : pos + 4 ≤ bytes.length) :
    leBytes 4 (readLE 4 bytes pos) = slice bytes pos (pos + 4) := by
  have hread : readLE 4 bytes pos = leNat (slice bytes pos (pos + 4)) := by
    rw [readLE, slice, Nat.add_sub_cancel_left]
  have hwidth : (slice bytes pos (pos + 4)).length = 4 := by
    rw [length_slice h, Nat.add_sub_cancel_left]
  rw [hread]
  have hbytes := leBytes_leNat (slice bytes pos (pos + 4))
  rwa [hwidth] at hbytes

theorem next_eq_some_iff (bytes : Bytes) (h : Header) (rest : Bytes) :
    next bytes = some (h, rest) ↔ h.Fits ∧ bytes = h.frame ++ rest := by
  unfold next
  constructor
  · intro hnext
    by_cases hshort : bytes.length < 8
    · rw [if_pos hshort] at hnext
      cases hnext
    rw [if_neg hshort] at hnext
    simp only at hnext
    by_cases hlong : 8 + readLE 4 bytes 0 + readLE 4 bytes 4 > bytes.length
    · rw [if_pos hlong] at hnext
      cases hnext
    rw [if_neg hlong] at hnext
    obtain ⟨rfl, rfl⟩ := Prod.mk.inj (Option.some.inj hnext)
    have hname : (slice bytes 8 (8 + readLE 4 bytes 0)).length = readLE 4 bytes 0 := by
      rw [length_slice (by omega), Nat.add_sub_cancel_left]
    have hvalue : (slice bytes (8 + readLE 4 bytes 0) (8 + readLE 4 bytes 0 + readLE 4 bytes 4)).length =
        readLE 4 bytes 4 := by
      rw [length_slice (by omega), Nat.add_sub_cancel_left]
    refine ⟨⟨by rw [hname]; exact readLE_lt 4 bytes 0, by rw [hvalue]; exact readLE_lt 4 bytes 4⟩, ?_⟩
    rw [frame, hname, hvalue, leBytes_readLE (by omega), leBytes_readLE (by omega),
      slice_append (by omega) (by omega), slice_append (by omega) (by omega),
      slice_append (by omega) (by omega)]
    exact (List.take_append_drop _ bytes).symm
  · rintro ⟨⟨hname, hvalue⟩, rfl⟩
    have hlength := h.length_frame
    have hseg : SegAt (h.frame ++ rest) 0 h.frame := segAt_left _ _
    have hall : (h.frame ++ rest).length = h.frame.length + rest.length := List.length_append
    have hdrop : (h.frame ++ rest).drop (8 + h.name.length + h.value.length) = rest := by
      rw [← hlength, List.drop_left]
    generalize h.frame ++ rest = bytes at hseg hall hdrop ⊢
    rw [frame, segAt_append, segAt_append, segAt_append] at hseg
    obtain ⟨⟨⟨hnameLen, hvalueLen⟩, hnameAt⟩, hvalueAt⟩ := hseg
    simp only [List.length_append, length_leBytes, Nat.zero_add] at hvalueLen hnameAt hvalueAt
    rw [readLE_segAt hname hnameLen, readLE_segAt hvalue hvalueLen, if_neg (by omega)]
    simp only
    rw [if_neg (by omega), hdrop, slice_of_segAt hnameAt rfl, slice_of_segAt hvalueAt (by omega)]

/-- The wire format. -/
def wire : Delimited Header where
  Valid := Fits
  frame := frame
  next := next
  frame_ne_nil h := by
    rw [← List.length_pos_iff, length_frame]
    omega
  next_eq_some_iff := next_eq_some_iff

end Header

/-! ## Readers with a cursor -/

/-- A slice with its bounds checked. -/
def sliceOf (bytes : Bytes) (start stop : ℕ) : Except HeaderErr Bytes :=
  if start ≤ stop ∧ stop ≤ bytes.length then .ok (slice bytes start stop) else .error .outOfRange

/-- The little-endian integer in the four bytes at a position. -/
def readU32At (bytes : Bytes) (pos : ℕ) : Except HeaderErr ℕ := (sliceOf bytes pos (pos + 4)).map leNat

/-- Addition of integers with so many bits; headers are invalid when it overflows. -/
def addIn (bits a b : ℕ) : Except HeaderErr ℕ := if a + b < 2 ^ bits then .ok (a + b) else .error .invalid

/-- One turn of a reader that adds with checks. -/
def takeHeader (bits : ℕ) (push : List Header → Header → Except HeaderErr (List Header)) (bytes : Bytes)
    (s : ℕ × List Header) : Except HeaderErr (Option (ℕ × List Header)) :=
  if bytes.length ≤ s.1 then .ok none
  else if bytes.length - s.1 < 8 then .error .invalid
  else do
    let nameLen ← readU32At bytes s.1
    let valueLen ← readU32At bytes (s.1 + 4)
    let cursor := s.1 + 8
    let nameEnd ← addIn bits cursor nameLen
    let valueEnd ← addIn bits nameEnd valueLen
    if valueEnd > bytes.length then .error .invalid
    else
      let name ← sliceOf bytes cursor nameEnd
      let value ← sliceOf bytes nameEnd valueEnd
      let headers ← push s.2 ⟨name, value⟩
      .ok (some (valueEnd, headers))

namespace Header

/-- What one turn of a reader of these bytes does at every position, for positions that are kept as `pos`. -/
def Turns {ι : Type} (bytes : Bytes) (pos : ℕ → ι)
    (push : List Header → Header → Except HeaderErr (List Header))
    (body : ι × List Header → Except HeaderErr (Option (ι × List Header))) : Prop :=
  ∀ cursor headers, cursor ≤ bytes.length → body (pos cursor, headers) =
    if cursor = bytes.length then .ok none
    else match next (bytes.drop cursor) with
      | none => .error .invalid
      | some (h, _) => (push headers h).map fun headers => some (pos (cursor + h.frame.length), headers)

/-- What a reader of these bytes may return, if it refuses the headers that `check` finds an error in. -/
def Decoded (check : Header → Option HeaderErr) (bytes : Bytes) : Except HeaderErr (List Header) → Prop
  | .ok hs => wire.Holds bytes hs ∧ ∀ h ∈ hs, check h = none
  | .error e => (e = .invalid ∨ ∃ h, check h = some e) ∧ ∀ hs, wire.Holds bytes hs → ∃ h ∈ hs, check h ≠ none

section

variable {bytes : Bytes} {push : List Header → Header → Except HeaderErr (List Header)}

theorem sliceOf_eq {start stop : ℕ} (h : start ≤ stop) (h' : stop ≤ bytes.length) :
    sliceOf bytes start stop = .ok (slice bytes start stop) := if_pos ⟨h, h'⟩

theorem readU32At_eq {pos : ℕ} (h : pos + 4 ≤ bytes.length) :
    readU32At bytes pos = .ok (readLE 4 bytes pos) := by
  rw [readU32At, sliceOf_eq (by omega) h, readLE, slice, Nat.add_sub_cancel_left]
  rfl

section Next

variable {cursor : ℕ}

theorem next_drop_short (h : bytes.length - cursor < 8) : next (bytes.drop cursor) = none := by
  rw [next, List.length_drop, if_pos h]

/-- No header begins where the lengths point behind the bytes. -/
theorem next_drop_long (h : cursor + 8 ≤ bytes.length)
    (hlong : cursor + 8 + readLE 4 bytes cursor + readLE 4 bytes (cursor + 4) > bytes.length) :
    next (bytes.drop cursor) = none := by
  rw [next, List.length_drop, if_neg (by omega)]
  simp only [readLE_drop, Nat.add_zero]
  rw [if_pos (by omega)]

/-- The header at a position, and where it ends. -/
theorem next_drop (h : cursor + 8 ≤ bytes.length)
    (hfit : cursor + 8 + readLE 4 bytes cursor + readLE 4 bytes (cursor + 4) ≤ bytes.length) :
    ∃ header rest, next (bytes.drop cursor) = some (header, rest) ∧
      header = ⟨slice bytes (cursor + 8) (cursor + 8 + readLE 4 bytes cursor),
        slice bytes (cursor + 8 + readLE 4 bytes cursor)
          (cursor + 8 + readLE 4 bytes cursor + readLE 4 bytes (cursor + 4))⟩ ∧
      cursor + header.frame.length = cursor + 8 + readLE 4 bytes cursor + readLE 4 bytes (cursor + 4) := by
  rw [next, List.length_drop, if_neg (by omega)]
  simp only [readLE_drop, slice_drop, Nat.add_zero, ← Nat.add_assoc]
  rw [if_neg (by omega)]
  refine ⟨_, _, rfl, rfl, ?_⟩
  rw [length_frame, length_slice (by omega), length_slice (by omega)]
  omega

end Next

/-- A reader whose integers can hold the number of bytes does the right thing at each turn. -/
theorem turns_takeHeader {bits : ℕ} (hbits : bytes.length < 2 ^ bits) :
    Turns bytes id push (takeHeader bits push bytes) := by
  intro cursor headers hle
  show takeHeader bits push bytes (cursor, headers) = _
  unfold takeHeader
  simp only
  by_cases hend : cursor = bytes.length
  · rw [if_pos (by omega), if_pos hend]
  rw [if_neg (by omega), if_neg hend]
  by_cases hshort : bytes.length - cursor < 8
  · rw [if_pos hshort, next_drop_short hshort]
  have hroom : cursor + 8 ≤ bytes.length := by omega
  rw [if_neg hshort, readU32At_eq (by omega), readU32At_eq (by omega)]
  simp only [bind, Except.bind, addIn]
  by_cases hlong : cursor + 8 + readLE 4 bytes cursor + readLE 4 bytes (cursor + 4) > bytes.length
  · -- an addition overflows, or the end is behind the bytes
    rw [next_drop_long hroom hlong]
    by_cases hname : cursor + 8 + readLE 4 bytes cursor < 2 ^ bits
    · rw [if_pos hname]
      simp only
      by_cases hvalue : cursor + 8 + readLE 4 bytes cursor + readLE 4 bytes (cursor + 4) < 2 ^ bits
      · rw [if_pos hvalue]
        simp only
        rw [if_pos hlong]
      · rw [if_neg hvalue]
    · rw [if_neg hname]
  · have hfit := Nat.le_of_not_gt hlong
    obtain ⟨header, rest, hnext, hheader, hframe⟩ := next_drop hroom hfit
    rw [hnext, if_pos (by omega)]
    simp only
    rw [if_pos (by omega)]
    simp only
    rw [if_neg hlong, sliceOf_eq (by omega) (by omega), sliceOf_eq (by omega) (by omega), hframe, hheader]
    simp only
    cases push headers _ <;> rfl

variable {ι : Type} {pos : ℕ → ι} {body : ι × List Header → Except HeaderErr (Option (ι × List Header))}
  {check : Header → Option HeaderErr}

/-- Such a reader takes one header a turn, if it keeps every header that fits into the bytes and is not
refused. -/
theorem Turns.reads (h : Turns bytes pos push body)
    (hpush : ∀ headers header, 8 * (headers.length + 1) ≤ bytes.length → push headers header =
      match check header with
      | none => .ok (headers ++ [header])
      | some e => .error e) :
    wire.Reads body check .invalid fun s rest hs => ∃ cursor, s = (pos cursor, hs) ∧
      cursor ≤ bytes.length ∧ rest = bytes.drop cursor ∧ 8 * hs.length ≤ cursor := by
  have hlast {cursor : ℕ} (hle : cursor ≤ bytes.length) : bytes.drop cursor = [] ↔ cursor = bytes.length := by
    rw [List.drop_eq_nil_iff]
    omega
  have hturn {cursor : ℕ} {hs : List Header} {header : Header} {rest : Bytes} (hle : cursor ≤ bytes.length)
      (hnext : next (bytes.drop cursor) = some (header, rest)) (hcount : 8 * hs.length ≤ cursor) :
      body (pos cursor, hs) = (match check header with
        | none => .ok (hs ++ [header])
        | some e => .error e : Except HeaderErr (List Header)).map
          (fun headers => some (pos (cursor + header.frame.length), headers)) ∧
        cursor + header.frame.length ≤ bytes.length ∧ rest = bytes.drop (cursor + header.frame.length) ∧
        8 * (hs.length + 1) ≤ cursor + header.frame.length := by
    obtain ⟨-, hframe⟩ := (next_eq_some_iff _ _ _).mp hnext
    have hlength := congrArg List.length hframe
    rw [List.length_drop, List.length_append] at hlength
    have height := header.length_frame
    have hne : cursor ≠ bytes.length := by omega
    refine ⟨?_, by omega, ?_, by omega⟩
    · rw [h cursor hs hle, if_neg hne, hnext]
      simp only
      rw [hpush hs header (by omega)]
    · rw [← List.drop_drop, hframe, List.drop_left]
  constructor
  · rintro s hs ⟨cursor, rfl, hle, hnil, -⟩
    rw [h cursor hs hle, if_pos ((hlast hle).mp hnil.symm)]
  · rintro s rest hs ⟨cursor, rfl, hle, rfl, -⟩ hne hnext
    have hnone : next (bytes.drop cursor) = none := hnext
    rw [h cursor hs hle, if_neg fun hend => hne ((hlast hle).mpr hend), hnone]
  · rintro s _ hs header rest e ⟨cursor, rfl, hle, rfl, hcount⟩ hnext hcheck
    rw [(hturn hle hnext hcount).1, hcheck]
    rfl
  · rintro s _ hs header rest ⟨cursor, rfl, hle, rfl, hcount⟩ hnext hcheck
    obtain ⟨hbody, hle', hrest, hcount'⟩ := hturn hle hnext hcount
    refine ⟨(pos (cursor + header.frame.length), hs ++ [header]), ?_, cursor + header.frame.length, rfl, hle',
      hrest, ?_⟩
    · rw [hbody, hcheck]
      rfl
    · rw [List.length_append, List.length_singleton]
      exact hcount'

/-- **What such a reader returns.** -/
theorem Turns.run (h : Turns bytes pos push body)
    (hpush : ∀ headers header, 8 * (headers.length + 1) ≤ bytes.length → push headers header =
      match check header with
      | none => .ok (headers ++ [header])
      | some e => .error e) {fuel : ℕ} (hfuel : bytes.length < fuel) :
    ∃ result, (loop body fuel (pos 0, [])).map (fun ended => ended.map Prod.snd) = some result ∧
      Decoded check bytes result := by
  have hstart : ∃ cursor, (pos 0, ([] : List Header)) = (pos cursor, []) ∧ cursor ≤ bytes.length ∧
      bytes = bytes.drop cursor ∧ 8 * ([] : List Header).length ≤ cursor :=
    ⟨0, rfl, Nat.zero_le _, rfl, Nat.le_refl _⟩
  obtain ⟨ended, hloop, hends⟩ := (h.reads hpush).run fuel hstart hfuel
  rw [hloop]
  refine ⟨ended.map Prod.snd, rfl, ?_⟩
  cases ended with
  | error e => exact hends
  | ok s =>
    obtain ⟨hs, hholds, hchecks, cursor, rfl, -⟩ := hends
    exact ⟨hholds, hchecks⟩

variable {result result' : Except HeaderErr (List Header)} {hs : List Header}

/-- Headers are returned exactly if the bytes hold them and none is refused. -/
theorem Decoded.ok_iff (h : Decoded check bytes result) :
    result = .ok hs ↔ wire.Holds bytes hs ∧ ∀ header ∈ hs, check header = none := by
  constructor
  · rintro rfl
    exact h
  · rintro ⟨hholds, hchecks⟩
    cases result with
    | ok hs' => rw [h.1.unique hholds]
    | error e =>
      obtain ⟨header, hheader, hrefused⟩ := h.2 hs hholds
      exact absurd (hchecks header hheader) hrefused

/-- What is returned by readers that refuse nothing is the same. -/
theorem Decoded.unique (h : Decoded (fun _ => none) bytes result) (h' : Decoded (fun _ => none) bytes result') :
    result = result' := by
  have herror {e : HeaderErr} (h : Decoded (fun _ => none) bytes (.error e)) : e = .invalid :=
    h.1.resolve_right (by simp)
  cases result with
  | ok hs => exact (h'.ok_iff.mpr h).symm
  | error e =>
    cases result' with
    | ok hs => exact h.ok_iff.mpr h'
    | error e' => rw [herror h, herror h']

/-- No slice is out of range. -/
theorem Decoded.ne_outOfRange (h : Decoded check bytes result) (hcheck : ∀ header, check header ≠ some .outOfRange) :
    result ≠ .error .outOfRange := by
  rintro rfl
  rcases h.1 with heq | ⟨header, heq⟩
  · cases heq
  · exact hcheck header heq

end

end Header

/-! ## Encoding -/

/-- Why headers are not encoded: a length does not fit into 32 bits. -/
inductive EncodeErr where
  | nameTooLong | valueTooLong | tooLong
  /-- a checked integer cast of the source that does not fit -/
  | castTruncated
deriving DecidableEq, Repr

/-- Append the frames of the headers, as far as they are short enough. -/
def appendFrames (tooLong : Header → Option EncodeErr) (headers : List Header) : Except EncodeErr Bytes :=
  headers.foldlM (fun encoded header =>
    match tooLong header with
    | some e => .error e
    | none => .ok (encoded ++ header.frame)) []

theorem foldlM_appendFrames {tooLong : Header → Option EncodeErr}
    (hfits : ∀ header, tooLong header = none ↔ header.Fits) {headers : List Header} {encoded bytes : Bytes} :
    headers.foldlM (fun encoded header =>
        match tooLong header with
        | some e => .error e
        | none => .ok (encoded ++ header.frame)) encoded = Except.ok bytes ↔
      (∀ header ∈ headers, header.Fits) ∧ bytes = encoded ++ Header.wire.frames headers := by
  induction headers generalizing encoded with
  | nil =>
    show Except.ok encoded = Except.ok bytes ↔ _
    simp [Delimited.frames, eq_comm]
  | cons header headers ih =>
    rw [List.foldlM_cons, List.forall_mem_cons, ← hfits]
    cases tooLong header with
    | some e => exact iff_of_false (by rintro ⟨⟩) (by simp)
    | none =>
      show List.foldlM _ (encoded ++ header.frame) headers = _ ↔ _
      rw [ih, List.append_assoc, and_iff_right rfl]
      rfl

/-- What is encoded is the frames of the headers. -/
theorem appendFrames_iff {tooLong : Header → Option EncodeErr}
    (hfits : ∀ header, tooLong header = none ↔ header.Fits) {headers : List Header} {bytes : Bytes} :
    appendFrames tooLong headers = .ok bytes ↔ Header.wire.Holds bytes headers :=
  foldlM_appendFrames hfits

/-! ## The host -/

namespace HostAbi

/-- Append to the headers, which have room for `capacity`; `full` is what comes of it without room. -/
def put (full : Except HeaderErr (List Header)) (capacity : ℕ) (headers : List Header) (header : Header) :
    Except HeaderErr (List Header) :=
  if headers.length < capacity then .ok (headers ++ [header]) else full

def parseHeadersOr (full : Except HeaderErr (List Header)) (capacity fuel : ℕ) (bytes : Bytes) :
    Option (Except HeaderErr (List Header)) :=
  (loop (takeHeader 64 (put full capacity) bytes) fuel (0, [])).map fun ended => ended.map Prod.snd

def parseHeaders (capacity fuel : ℕ) (bytes : Bytes) : Option (Except HeaderErr (List Header)) :=
  parseHeadersOr (.error .invalid) capacity fuel bytes

/-- The room that a request makes for the headers in its bytes. -/
def maxRequestHeaders (requestHeaderBytes : Bytes) : ℕ := requestHeaderBytes.length / 8

def encodeHeaders : List Header → Except EncodeErr Bytes :=
  appendFrames fun header =>
    if header.name.length ≥ 256 ^ 4 then some .castTruncated
    else if header.value.length ≥ 256 ^ 4 then some .castTruncated
    else none

/-- **The host reads the headers that the bytes hold**, and always has room for them: what a `put` without room does
is all the same. -/
theorem parseHeaders_spec {bytes : Bytes} {fuel : ℕ} (hlength : bytes.length < 2 ^ 64)
    (hfuel : bytes.length < fuel) :
    ∃ result, (∀ full, parseHeadersOr full (maxRequestHeaders bytes) fuel bytes = some result) ∧
      Header.Decoded (fun _ => none) bytes result := by
  have hread : ∀ full, ∃ result, parseHeadersOr full (maxRequestHeaders bytes) fuel bytes = some result ∧
      Header.Decoded (fun _ => none) bytes result := by
    intro full
    refine (Header.turns_takeHeader hlength).run (fun headers header hroom => ?_) hfuel
    exact if_pos (by rw [maxRequestHeaders]; omega)
  obtain ⟨result, -, hdecoded⟩ := hread (.error .invalid)
  refine ⟨result, fun full => ?_, hdecoded⟩
  obtain ⟨result', hresult', hdecoded'⟩ := hread full
  rw [hresult', hdecoded'.unique hdecoded]

theorem encodeHeaders_iff {headers : List Header} {bytes : Bytes} :
    encodeHeaders headers = .ok bytes ↔ Header.wire.Holds bytes headers := by
  refine appendFrames_iff fun header => ?_
  unfold Header.Fits
  split_ifs <;> simp <;> omega

end HostAbi

end Slung
