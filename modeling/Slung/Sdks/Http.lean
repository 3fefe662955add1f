import Slung.Wasm.HostAbi.Http

/-!
# Slung.Sdks.Http — headers in the guest (`sdks/rust/src/host/http.rs`, `sdks/go/host/http.go`)

Both SDKs run with integers of 32 bits.  The reader of the Rust SDK adds with checks and takes only UTF-8; the one
of the Go SDK adds without checks, on signed integers, and looks whether an end came out before its beginning.
For fewer than `2 ^ 31` bytes that is the same (`GoSdk.ends_cases`), and host and SDKs read the same headers.
-/

namespace Slung

open Slung.Lib

/-! ## Rust -/

namespace RustSdk

/-- `String::from_utf8` -/
def isUtf8 (bytes : Bytes) : Bool := (ByteArray.mk bytes.toArray).validateUTF8

/-- What is wrong with a header that is to be two strings. -/
def notUtf8 (header : Header) : Option HeaderErr :=
  if ¬ isUtf8 header.name then some .nameNotUtf8
  else if ¬ isUtf8 header.value then some .valueNotUtf8
  else none

def push (headers : List Header) (header : Header) : Except HeaderErr (List Header) :=
  match notUtf8 header with
  | some e => .error e
  | none => .ok (headers ++ [header])

def decodeHeaderBytes (fuel : ℕ) (bytes : Bytes) : Option (Except HeaderErr (List Header)) :=
  (loop (takeHeader 32 push bytes) fuel (0, [])).map fun ended => ended.map Prod.snd

def encodeHeaders : List Header → Except EncodeErr Bytes :=
  appendFrames fun header =>
    if header.name.length ≥ 256 ^ 4 then some .nameTooLong
    else if header.value.length ≥ 256 ^ 4 then some .valueTooLong
    else none

theorem notUtf8_eq_none_iff {header : Header} :
    notUtf8 header = none ↔ isUtf8 header.name ∧ isUtf8 header.value := by
  by_cases hname : isUtf8 header.name <;> by_cases hvalue : isUtf8 header.value <;> simp [notUtf8, hname, hvalue]

theorem notUtf8_ne_outOfRange (header : Header) : notUtf8 header ≠ some .outOfRange := by
  by_cases hname : isUtf8 header.name <;> by_cases hvalue : isUtf8 header.value <;> simp [notUtf8, hname, hvalue]

theorem decodeHeaderBytes_spec {bytes : Bytes} {fuel : ℕ} (hlength : bytes.length < 2 ^ 32)
    (hfuel : bytes.length < fuel) :
    ∃ result, decodeHeaderBytes fuel bytes = some result ∧ Header.Decoded notUtf8 bytes result := by
  refine (Header.turns_takeHeader hlength).run (fun headers header _ => ?_) hfuel
  unfold push
  cases notUtf8 header <;> rfl

theorem encodeHeaders_iff {headers : List Header} {bytes : Bytes} :
    encodeHeaders headers = .ok bytes ↔ Header.wire.Holds bytes headers := by
  refine appendFrames_iff fun header => ?_
  unfold Header.Fits
  split_ifs <;> simp <;> omega

end RustSdk

/-! ## Go -/

namespace GoSdk

/-- A result of arithmetic on signed integers of 32 bits. -/
def wrap (i : ℤ) : ℤ := i.bmod (2 ^ 32)

/-- A slice with its bounds checked. -/
def sliceOf (bytes : Bytes) (start stop : ℤ) : Except HeaderErr Bytes :=
  if 0 ≤ start ∧ start ≤ stop ∧ stop ≤ bytes.length then .ok (slice bytes start.toNat stop.toNat)
  else .error .outOfRange

/-- `int(binary.LittleEndian.Uint32(bytes[start:stop]))` -/
def readInt (bytes : Bytes) (start stop : ℤ) : Except HeaderErr ℤ :=
  (sliceOf bytes start stop).map fun four => wrap (leNat four)

/-- One turn of the loop. -/
def decodeHeader (bytes : Bytes) (s : ℤ × List Header) : Except HeaderErr (Option (ℤ × List Header)) :=
  let length := wrap bytes.length
  if ¬ s.1 < length then .ok none
  else if wrap (length - s.1) < 8 then .error .invalid
  else do
    let nameLen ← readInt bytes s.1 (wrap (s.1 + 4))
    let valueLen ← readInt bytes (wrap (s.1 + 4)) (wrap (s.1 + 8))
    let cursor := wrap (s.1 + 8)
    let nameEnd := wrap (cursor + nameLen)
    let valueEnd := wrap (nameEnd + valueLen)
    if nameEnd < cursor ∨ valueEnd < nameEnd ∨ valueEnd > length then .error .invalid
    else
      let name ← sliceOf bytes cursor nameEnd
      let value ← sliceOf bytes nameEnd valueEnd
      .ok (some (valueEnd, s.2 ++ [⟨name, value⟩]))

/-- The bytes at `ptr`; a slice of negative length stops the program. -/
def decodeHeaders (fuel : ℕ) (ptr : UInt32) (bytes : Bytes) : Option (Except HeaderErr (List Header)) :=
  if ptr = 0 ∨ bytes.length = 0 then some (.ok [])
  else if wrap bytes.length < 0 then some (.error .outOfRange)
  else (loop (decodeHeader bytes) fuel (0, [])).map fun ended => ended.map Prod.snd

def encodeHeaders : List Header → Except EncodeErr Bytes :=
  appendFrames fun header =>
    if header.name.length > 0xffffffff ∨ header.value.length > 0xffffffff then some .tooLong else none

theorem encodeHeaders_iff {headers : List Header} {bytes : Bytes} :
    encodeHeaders headers = .ok bytes ↔ Header.wire.Holds bytes headers := by
  refine appendFrames_iff fun header => ?_
  unfold Header.Fits
  split_ifs <;> simp <;> omega

/-- A sum of two integers of 32 bits is itself, or has come out on the other side. -/
theorem wrap_cases {i : ℤ} (h : -2 ^ 31 ≤ i) (h' : i < 2 ^ 32) :
    i < 2 ^ 31 ∧ wrap i = i ∨ 2 ^ 31 ≤ i ∧ wrap i = i - 2 ^ 32 := by
  rw [wrap, Int.bmod_def]
  omega

theorem wrap_eq {i : ℤ} (h : -2 ^ 31 ≤ i) (h' : i < 2 ^ 31) : wrap i = i := by
  rcases wrap_cases h (by omega) with ⟨-, heq⟩ | ⟨hle, -⟩
  · exact heq
  · omega

/-- The end of a field that begins at `start` is right, or it is before the beginning. -/
theorem wrap_add_cases {start len : ℕ} (hstart : start < 2 ^ 31) (hlen : len < 2 ^ 32) :
    start + len < 2 ^ 31 ∧ wrap (start + wrap len) = (start + len : ℕ) ∨
      2 ^ 31 ≤ start + len ∧ wrap (start + wrap len) < start := by
  have hlow : -2 ^ 31 ≤ (len : ℤ) := by omega
  have hhigh : (len : ℤ) < 2 ^ 32 := by omega
  rcases wrap_cases hlow hhigh with ⟨hsmall, heq⟩ | ⟨hlarge, heq⟩
  · have hlow' : -2 ^ 31 ≤ (start : ℤ) + len := by omega
    have hhigh' : (start : ℤ) + len < 2 ^ 32 := by omega
    rw [heq]
    rcases wrap_cases hlow' hhigh' with ⟨hin, hsum⟩ | ⟨hout, hsum⟩
    · exact Or.inl ⟨by omega, by rw [hsum]; omega⟩
    · exact Or.inr ⟨by omega, by rw [hsum]; omega⟩
  · -- the length itself has come out negative
    have hlow' : -2 ^ 31 ≤ (start : ℤ) + (len - 2 ^ 32) := by omega
    have hhigh' : (start : ℤ) + (len - 2 ^ 32) < 2 ^ 31 := by omega
    rw [heq, wrap_eq hlow' hhigh']
    exact Or.inr ⟨by omega, by omega⟩

/-- **The ends of the two fields**: they come out before a beginning or behind the bytes, or they are right. -/
theorem ends_cases {cursor nameLen valueLen length : ℕ} (hcursor : cursor ≤ length) (hlength : length < 2 ^ 31)
    (hname : nameLen < 2 ^ 32) (hvalue : valueLen < 2 ^ 32) :
    let nameEnd := wrap (cursor + wrap nameLen)
    let valueEnd := wrap (nameEnd + wrap valueLen)
    cursor + nameLen + valueLen > length ∧ (nameEnd < cursor ∨ valueEnd < nameEnd ∨ valueEnd > length) ∨
      cursor + nameLen + valueLen ≤ length ∧ ¬ (nameEnd < cursor ∨ valueEnd < nameEnd ∨ valueEnd > length) ∧
        nameEnd = (cursor + nameLen : ℕ) ∧ valueEnd = (cursor + nameLen + valueLen : ℕ) := by
  intro nameEnd valueEnd
  have hstart : cursor < 2 ^ 31 := by omega
  rcases wrap_add_cases hstart hname with ⟨hin, hnameEnd⟩ | ⟨hout, hnameEnd⟩
  · have hnameEnd : nameEnd = (cursor + nameLen : ℕ) := hnameEnd
    have hvalueEnd : valueEnd = wrap ((cursor + nameLen : ℕ) + wrap valueLen) := by rw [← hnameEnd]
    rw [hvalueEnd, hnameEnd]
    rcases wrap_add_cases hin hvalue with ⟨hin', hend⟩ | ⟨hout', hend⟩
    · rw [hend]
      omega
    · exact Or.inl ⟨by omega, Or.inr (Or.inl hend)⟩
  · exact Or.inl ⟨by omega, Or.inl hnameEnd⟩

theorem sliceOf_eq {bytes : Bytes} {start stop : ℕ} (h : start ≤ stop) (h' : stop ≤ bytes.length) :
    sliceOf bytes start stop = .ok (slice bytes start stop) := by
  rw [sliceOf, if_pos (by omega), Int.toNat_natCast, Int.toNat_natCast]

theorem readInt_eq {bytes : Bytes} {start stop : ℕ} (hstop : stop = start + 4) (h : stop ≤ bytes.length) :
    readInt bytes start stop = .ok (wrap (readLE 4 bytes start)) := by
  rw [readInt, sliceOf_eq (by omega) h, readLE, slice, hstop, Nat.add_sub_cancel_left]
  rfl

theorem ok_bind {α β : Type} (a : α) (f : α → Except HeaderErr β) : (Except.ok a >>= f) = f a := rfl

/-- The loop of the Go SDK does the right thing at each turn, for fewer than `2 ^ 31` bytes. -/
theorem turns_decodeHeader {bytes : Bytes} (hlength : bytes.length < 2 ^ 31) :
    Header.Turns bytes (fun cursor => (cursor : ℤ)) (fun headers header => .ok (headers ++ [header]))
      (decodeHeader bytes) := by
  intro cursor headers hle
  have hlen : wrap bytes.length = bytes.length := wrap_eq (by omega) (by omega)
  unfold decodeHeader
  simp only [hlen]
  by_cases hend : cursor = bytes.length
  · rw [if_pos (by omega), if_pos hend]
  rw [if_neg (by omega), if_neg hend]
  have hleft : wrap ((bytes.length : ℤ) - cursor) = bytes.length - cursor := wrap_eq (by omega) (by omega)
  rw [hleft]
  by_cases hshort : bytes.length - cursor < 8
  · rw [if_pos (by omega), Header.next_drop_short hshort]
  have hroom : cursor + 8 ≤ bytes.length := by omega
  have hlengths : wrap ((cursor : ℤ) + 4) = (cursor + 4 : ℕ) := by
    rw [wrap_eq (by omega) (by omega)]
    omega
  have hcursor : wrap ((cursor : ℤ) + 8) = (cursor + 8 : ℕ) := by
    rw [wrap_eq (by omega) (by omega)]
    omega
  rw [if_neg (by omega), hlengths, hcursor, readInt_eq rfl (by omega), readInt_eq rfl (by omega), ok_bind, ok_bind]
  have hnameLen : readLE 4 bytes cursor < 2 ^ 32 := (readLE_lt 4 bytes cursor).trans_eq (by norm_num)
  have hvalueLen : readLE 4 bytes (cursor + 4) < 2 ^ 32 :=
    (readLE_lt 4 bytes (cursor + 4)).trans_eq (by norm_num)
  rcases ends_cases hroom hlength hnameLen hvalueLen with
    ⟨hlong, hwrong⟩ | ⟨hfit, hright, hnameEnd, hvalueEnd⟩
  · rw [if_pos hwrong, Header.next_drop_long hroom hlong]
  · obtain ⟨header, rest, hnext, hheader, hframe⟩ := Header.next_drop hroom hfit
    rw [if_neg hright, hnext, hvalueEnd, hnameEnd,
      sliceOf_eq (Nat.le_add_right _ _) ((Nat.le_add_right _ _).trans hfit), ok_bind,
      sliceOf_eq (Nat.le_add_right _ _) hfit, ok_bind, ← hheader, ← hframe]
    rfl

theorem decodeHeaders_spec {bytes : Bytes} {fuel : ℕ} {ptr : UInt32} (hlength : bytes.length < 2 ^ 31)
    (hfuel : bytes.length < fuel) (hptr : ptr = 0 → bytes = []) :
    ∃ result, decodeHeaders fuel ptr bytes = some result ∧ Header.Decoded (fun _ => none) bytes result := by
  unfold decodeHeaders
  by_cases hnone : ptr = 0 ∨ bytes.length = 0
  · obtain rfl : bytes = [] := hnone.elim hptr List.length_eq_zero_iff.mp
    exact ⟨.ok [], if_pos (Or.inr rfl), Delimited.holds_nil_iff.mpr rfl, by simp⟩
  · have hlen : wrap bytes.length = bytes.length := wrap_eq (by omega) (by omega)
    rw [if_neg hnone, hlen, if_neg (by omega)]
    exact (turns_decodeHeader hlength).run (fun _ _ _ => rfl) hfuel

/-- For `2 ^ 31` bytes or more, the slice has a negative length. -/
theorem decodeHeaders_of_long {bytes : Bytes} {fuel : ℕ} {ptr : UInt32} (hlong : 2 ^ 31 ≤ bytes.length)
    (hlength : bytes.length < 2 ^ 32) (hptr : ptr ≠ 0) :
    decodeHeaders fuel ptr bytes = some (.error .outOfRange) := by
  have hlow : -2 ^ 31 ≤ (bytes.length : ℤ) := by omega
  have hhigh : (bytes.length : ℤ) < 2 ^ 32 := by omega
  rcases wrap_cases hlow hhigh with ⟨hsmall, -⟩ | ⟨-, heq⟩
  · omega
  · rw [decodeHeaders, heq, if_neg (by rintro (hzero | hzero); exacts [hptr hzero, by omega]), if_pos (by omega)]

end GoSdk

/-! ## One format -/

/-- **Host and SDKs read the same headers.**  For fewer than `2 ^ 31` bytes, at an address that is not 0 if
there are any, each reader ends within as many turns as there are bytes and slices inside them; the host and the
Go SDK return the same, the Rust SDK returns it too if it is UTF-8; and it is what each of them has encoded.  The host
never puts a header where there is no room, whether it takes the bytes or refuses them: it returns the same whatever
would come of that. -/
theorem headers_agree {bytes : Bytes} {fuel : ℕ} {ptr : UInt32} (hlength : bytes.length < 2 ^ 31)
    (hfuel : bytes.length < fuel) (hptr : ptr = 0 → bytes = []) :
    ∃ host rust, HostAbi.parseHeaders (HostAbi.maxRequestHeaders bytes) fuel bytes = some host ∧
      (∀ full, HostAbi.parseHeadersOr full (HostAbi.maxRequestHeaders bytes) fuel bytes = some host) ∧
      GoSdk.decodeHeaders fuel ptr bytes = some host ∧ RustSdk.decodeHeaderBytes fuel bytes = some rust ∧
      host ≠ .error .outOfRange ∧ rust ≠ .error .outOfRange ∧
      (∀ headers, rust = .ok headers ↔
        host = .ok headers ∧ ∀ header ∈ headers, RustSdk.isUtf8 header.name ∧ RustSdk.isUtf8 header.value) ∧
      ∀ headers, HostAbi.encodeHeaders headers = .ok bytes ∨ RustSdk.encodeHeaders headers = .ok bytes ∨
        GoSdk.encodeHeaders headers = .ok bytes → host = .ok headers := by
  obtain ⟨host, hhost, hhostSpec⟩ :=
    HostAbi.parseHeaders_spec (hlength.trans (Nat.pow_lt_pow_right (by decide) (by decide))) hfuel
  obtain ⟨go, hgo, hgoSpec⟩ := GoSdk.decodeHeaders_spec hlength hfuel hptr
  obtain ⟨rust, hrust, hrustSpec⟩ :=
    RustSdk.decodeHeaderBytes_spec (hlength.trans (Nat.pow_lt_pow_right (by decide) (by decide))) hfuel
  obtain rfl := hhostSpec.unique hgoSpec
  refine ⟨host, rust, hhost _, hhost, hgo, hrust, hhostSpec.ne_outOfRange (by simp),
    hrustSpec.ne_outOfRange RustSdk.notUtf8_ne_outOfRange, ?_, ?_⟩
  · intro headers
    rw [hrustSpec.ok_iff, hhostSpec.ok_iff]
    simp only [RustSdk.notUtf8_eq_none_iff]
    tauto
  · intro headers hencoded
    rw [HostAbi.encodeHeaders_iff, RustSdk.encodeHeaders_iff, GoSdk.encodeHeaders_iff, or_self, or_self] at hencoded
    exact hhostSpec.ok_iff.mpr ⟨hencoded, by simp⟩

/-- Two headers, the second without a value. -/
theorem headers_agree_two : let headers : List Header := [⟨[97], [98]⟩, ⟨[99], []⟩]
    let bytes : Bytes := [1, 0, 0, 0, 1, 0, 0, 0, 97, 98, 1, 0, 0, 0, 0, 0, 0, 0, 99]
    HostAbi.encodeHeaders headers = .ok bytes ∧
      HostAbi.parseHeaders (HostAbi.maxRequestHeaders bytes) 20 bytes = some (.ok headers) ∧
      GoSdk.decodeHeaders 20 8 bytes = some (.ok headers) ∧
      RustSdk.decodeHeaderBytes 20 bytes = some (.ok headers) := by
  intro headers bytes
  have hencoded : HostAbi.encodeHeaders headers = .ok bytes := by decide +kernel
  have hlength : bytes.length < 2 ^ 31 := by decide
  have hptr : (8 : UInt32) = 0 → bytes = [] := by decide
  have hutf8 : ∀ header ∈ headers, RustSdk.isUtf8 header.name ∧ RustSdk.isUtf8 header.value := by decide +kernel
  obtain ⟨host, rust, hhost, -, hgo, hrust, -, -, hreads, hall⟩ := headers_agree hlength (Nat.lt_succ_self 19) hptr
  obtain rfl := hall headers (Or.inl hencoded)
  obtain rfl := (hreads headers).mpr ⟨rfl, hutf8⟩
  exact ⟨hencoded, hhost, hgo, hrust⟩

/-- A name of `2 ^ 31` bytes is encoded by the Go SDK and then stops it. -/
theorem decodeHeaders_long_name {name : Bytes} (hlong : 2 ^ 31 ≤ name.length)
    (hlength : name.length < 2 ^ 32 - 8) :
    GoSdk.encodeHeaders [⟨name, []⟩] = .ok (⟨name, []⟩ : Header).frame ∧
      ∀ fuel, GoSdk.decodeHeaders fuel 8 (⟨name, []⟩ : Header).frame = some (.error .outOfRange) := by
  have hframe : (⟨name, []⟩ : Header).frame.length = 8 + name.length := Header.length_frame _
  refine ⟨GoSdk.encodeHeaders_iff.mpr ⟨?_, (List.append_nil _).symm⟩, fun fuel => ?_⟩
  · rw [List.forall_mem_singleton]
    exact ⟨by show name.length < 256 ^ 4; omega, by show 0 < 256 ^ 4; decide⟩
  · exact GoSdk.decodeHeaders_of_long (by omega) (by omega) (by decide)

/-- A name that is not UTF-8 is encoded by the host and not read by the Rust SDK, and one of `2 ^ 31` bytes stops
the Go SDK. -/
theorem headers_not_read_back :
    (HostAbi.encodeHeaders [⟨[0xff], []⟩] = .ok [1, 0, 0, 0, 0, 0, 0, 0, 0xff] ∧
      RustSdk.decodeHeaderBytes 10 [1, 0, 0, 0, 0, 0, 0, 0, 0xff] = some (.error .nameNotUtf8)) ∧
    ∃ header bytes, GoSdk.encodeHeaders [header] = .ok bytes ∧
      ∀ fuel, GoSdk.decodeHeaders fuel 8 bytes = some (.error .outOfRange) := by
  refine ⟨by decide +kernel, ?_⟩
  obtain ⟨name, hname⟩ : ∃ name : Bytes, 2 ^ 31 ≤ name.length ∧ name.length < 2 ^ 32 - 8 := by
    have hlength : ∀ n, ∃ name : Bytes, name.length = n := fun n => ⟨List.replicate n 0, List.length_replicate⟩
    obtain ⟨name, hname⟩ := hlength (2 ^ 31)
    exact ⟨name, hname.ge, by rw [hname]; decide⟩
  obtain ⟨hencoded, hdecoded⟩ := decodeHeaders_long_name hname.1 hname.2
  exact ⟨⟨name, []⟩, _, hencoded, hdecoded⟩

end Slung
