import Slung.Sdks.Http
import Slung.Wasm.HostAbi.Requests

/-!
# Slung.Sdks.Requests — HTTP requests, in the guest (`sdks/rust/src/host/http.rs`, `sdks/go/host/http.go`)

A request through the SDK sends what the module gave it and returns the response of the client.
-/

namespace Slung

open Slung.Lib

/-- `Response` -/
structure SdkResponse where
  status : ℕ
  headers : List Header
  body : Bytes
deriving DecidableEq, Repr

/-- What the SDKs say about headers that they do not read. -/
def HeaderErr.message : HeaderErr → String
  | .nameNotUtf8 => "HTTP response header name is not UTF-8"
  | .valueNotUtf8 => "HTTP response header value is not UTF-8"
  | .invalid | .outOfRange => "invalid HTTP response headers"

namespace Sdk

variable (A : GuestAllocator)

/-- The headers in the bytes at `ptr`; `none` where the module traps. -/
def readHeaders (sdk : Sdk) (ptr : ℕ) (bytes : Bytes) : Option (Except HeaderErr (List Header)) :=
  match sdk with
  | .rust => RustSdk.decodeHeaderBytes (bytes.length + 1) bytes
  | .go =>
    match GoSdk.decodeHeaders (bytes.length + 1) (UInt32.ofNat ptr) bytes with
    | some (.error .outOfRange) => none
    | result => result

/-- `decode_headers` and `decodeHeaders` -/
def decodeHeaders (sdk : Sdk) (h : GuestHeap) (ptr len : ℕ) : GuestHeap × Option (Except HeaderErr (List Header)) :=
  if ptr = 0 ∨ len = 0 then (h, some (.ok []))
  else
    match (h.get ⟨ptr, len⟩).bind (sdk.readHeaders ptr) with
    | none => (h, none)
    | some result => (sdk.slungDealloc A h ptr len, some result)

/-- `encode_headers` and `encodeHeaders` -/
def encodeHeaders : Sdk → List Header → Except EncodeErr Bytes
  | .rust => RustSdk.encodeHeaders
  | .go => GoSdk.encodeHeaders

/-- `into_result` and `result` -/
def intoResult (sdk : Sdk) (h : GuestHeap) (out : ResponseBuffers) (status : ℕ) :
    GuestHeap × SdkResult SdkResponse :=
  if status = 0 then (h, .invalid "HTTP request failed before receiving a response")
  else
    match readU32 h out.bodyPtr, readU32 h out.bodyLen, readU32 h out.headersPtr, readU32 h out.headersLen with
    | some bodyPtr, some bodyLen, some headersPtr, some headersLen =>
      match sdk.copyAndFree A h bodyPtr bodyLen with
      | (h, none) => (h, .trapped)
      | (h, some body) =>
        match sdk.decodeHeaders A h headersPtr headersLen with
        | (h, none) => (h, .trapped)
        | (h, some (.error e)) => (h, .invalid e.message)
        -- the SDKs keep 16 bits of the status
        | (h, some (.ok headers)) => (h, .ok ⟨status % 2 ^ 16, headers, body⟩)
    | _, _, _, _ => (h, .trapped)

/-- `get`, `delete`, `put` and `post`, with the encoded headers in place. -/
def request (sdk : Sdk) (faults : List RequestFault) (fetch : HttpRequest → Option HttpResponse) (h : GuestHeap)
    (args : RequestArgs) (out : ResponseBuffers) : GuestHeap × SdkResult SdkResponse :=
  match HostAbi.writeResults h out 0 0 0 0 with
  | none => (h, .trapped)
  | some h =>
    match HostAbi.slungHttp A sdk faults fetch h args out with
    | (h, .status status) => sdk.intoResult A h out status
    | (h, .err _) => (h, .trapped)
    | (h, .panic) => (h, .panicked)

end Sdk

/-! ## What comes out -/

variable {A : GuestAllocator} {sdk : Sdk} {faults : List RequestFault} {fetch : HttpRequest → Option HttpResponse}
  {h h' : GuestHeap} {args : RequestArgs} {out : ResponseBuffers} {headers : List Header}
  {bytes url body : Bytes} {ptr : ℕ}

/-- Headers in these bytes are read by the SDK. -/
def Sdk.Readable (sdk : Sdk) (bytes : Bytes) (headers : List Header) : Prop :=
  match sdk with
  | .rust => ∀ header ∈ headers, RustSdk.isUtf8 header.name ∧ RustSdk.isUtf8 header.value
  | .go => bytes.length < 2 ^ 31

theorem Sdk.readHeaders_cases (hholds : Header.wire.Holds bytes headers) (hlength : bytes.length < 2 ^ 32)
    (hptr : ptr ≠ 0) (hptr' : ptr < 2 ^ 32) :
    (sdk.Readable bytes headers ∧ sdk.readHeaders ptr bytes = some (.ok headers)) ∨
      (¬ sdk.Readable bytes headers ∧ ∃ e, sdk.readHeaders ptr bytes = some (.error e)) ∨
      (¬ sdk.Readable bytes headers ∧ sdk.readHeaders ptr bytes = none) := by
  cases sdk with
  | rust =>
    obtain ⟨result, hresult, hdecoded⟩ :=
      RustSdk.decodeHeaderBytes_spec hlength (Nat.lt_succ_self bytes.length)
    have hiff : result = .ok headers ↔ Sdk.rust.Readable bytes headers := by
      rw [hdecoded.ok_iff, and_iff_right hholds]
      exact forall₂_congr fun header _ => RustSdk.notUtf8_eq_none_iff
    by_cases hreadable : Sdk.rust.Readable bytes headers
    · exact Or.inl ⟨hreadable, hiff.mpr hreadable ▸ hresult⟩
    · refine Or.inr (Or.inl ⟨hreadable, ?_⟩)
      cases result with
      | error e => exact ⟨e, hresult⟩
      | ok headers' =>
        obtain rfl : headers' = headers := (hdecoded.ok_iff.mp rfl).1.unique hholds
        exact absurd (hiff.mp rfl) hreadable
  | go =>
    have hzero : UInt32.ofNat ptr ≠ 0 := fun heq => by
      have hnat : (UInt32.ofNat ptr).toNat = ptr := UInt32.toNat_ofNat_of_lt' hptr'
      rw [heq] at hnat
      exact hptr hnat.symm
    by_cases hsmall : bytes.length < 2 ^ 31
    · obtain ⟨result, hresult, hdecoded⟩ :=
        GoSdk.decodeHeaders_spec hsmall (Nat.lt_succ_self bytes.length) fun heq => absurd heq hzero
      obtain rfl : result = .ok headers := hdecoded.ok_iff.mpr ⟨hholds, fun _ _ => rfl⟩
      exact Or.inl ⟨hsmall, by simp only [Sdk.readHeaders, hresult]⟩
    · refine Or.inr (Or.inr ⟨hsmall, ?_⟩)
      simp only [Sdk.readHeaders, GoSdk.decodeHeaders_of_long (Nat.le_of_not_lt hsmall) hlength hzero]

/-- **Headers that were handed over**: read and freed, refused and freed, or a trap. -/
theorem Sdk.decodeHeaders_handed (sdk : Sdk) (hA : A.Lawful) (hh : Handed h ptr bytes)
    (hholds : Header.wire.Holds bytes headers) :
    ∃ h' result, sdk.decodeHeaders A h ptr bytes.length = (h', result) ∧ h.Keeps (buffer ptr bytes) h' ∧
      ((sdk.Readable bytes headers ∧ result = some (.ok headers) ∧ h.live.Perm (buffer ptr bytes ++ h'.live)) ∨
        (¬ sdk.Readable bytes headers ∧ (∃ e, result = some (.error e)) ∧
          h.live.Perm (buffer ptr bytes ++ h'.live)) ∨
        (¬ sdk.Readable bytes headers ∧ result = none)) := by
  obtain ⟨hptr', hlength⟩ := hh.bounds
  unfold Handed at hh
  unfold Sdk.decodeHeaders buffer
  by_cases hempty : bytes.length = 0
  · rw [if_pos hempty, if_pos (Or.inr hempty)]
    obtain rfl := List.length_eq_zero_iff.mp hempty
    obtain rfl := Delimited.holds_nil_iff.mp hholds
    have hreadable : sdk.Readable [] [] := by
      cases sdk with
      | rust => exact fun header hin => absurd hin List.not_mem_nil
      | go => exact Nat.two_pow_pos 31
    exact ⟨h, _, rfl, Heap.Keeps.refl _ h, Or.inl ⟨hreadable, rfl, List.Perm.refl _⟩⟩
  · rw [if_neg hempty] at hh
    obtain ⟨hptr, hserves, hmem, hget⟩ := hh
    obtain ⟨hlive, hkeeps⟩ := Sdk.slungDealloc_live hA hserves hptr hmem
    have hperm : h.live.Perm ([⟨ptr, bytes.length⟩] ++ (sdk.slungDealloc A h ptr bytes.length).live) :=
      hlive ▸ List.perm_cons_erase hmem
    rw [if_neg (not_or.mpr ⟨hptr, hempty⟩), if_neg hempty, hget, Option.bind_some]
    rcases sdk.readHeaders_cases hholds hlength hptr hptr' with
      ⟨hreadable, hread⟩ | ⟨hreadable, e, hread⟩ | ⟨hreadable, hread⟩
    · exact ⟨_, _, by rw [hread], hkeeps, Or.inl ⟨hreadable, rfl, hperm⟩⟩
    · exact ⟨_, _, by rw [hread], hkeeps, Or.inr (Or.inl ⟨hreadable, ⟨e, rfl⟩, hperm⟩)⟩
    · exact ⟨h, none, by rw [hread], Heap.Keeps.refl _ h, Or.inr (Or.inr ⟨hreadable, rfl⟩)⟩

/-- **Both buffers come out.** -/
theorem Sdk.intoResult_handed (hA : A.Lawful) {status bodyPtr headersPtr : ℕ} {headerBytes : Bytes} {rest : List Block}
    {r : SdkResult SdkResponse} (hstatus : status ≠ 0) (hbody : Handed h bodyPtr body)
    (hheaders : Handed h headersPtr headerBytes) (hholds : Header.wire.Holds headerBytes headers)
    (hlive : h.live = buffer headersPtr headerBytes ++ (buffer bodyPtr body ++ rest))
    (htells : out.Tells h bodyPtr body.length headersPtr headerBytes.length)
    (hs : sdk.intoResult A h out status = (h', r)) :
    h.Keeps (buffer headersPtr headerBytes ++ buffer bodyPtr body) h' ∧
      ((sdk.Readable headerBytes headers ∧ r = .ok ⟨status % 2 ^ 16, headers, body⟩ ∧ h'.live.Perm rest) ∨
        (¬ sdk.Readable headerBytes headers ∧ (∃ message, r = .invalid message) ∧ h'.live.Perm rest) ∨
        (¬ sdk.Readable headerBytes headers ∧ r = .trapped)) := by
  obtain ⟨h₁, hcopy, hperm₁, hkeeps₁⟩ := sdk.copyAndFree_handed hA hbody
  have hapart : ∀ b ∈ buffer headersPtr headerBytes, b ∉ buffer bodyPtr body := by
    have hnodup := h.nodup
    rw [hlive] at hnodup
    exact fun b hb hin => (List.nodup_append.mp hnodup).2.2 b hb b (List.mem_append_left _ hin) rfl
  obtain ⟨h₂, result, hdecode, hkeeps₂, hends⟩ :=
    sdk.decodeHeaders_handed hA (hheaders.keeps hkeeps₁ hapart) hholds
  have hkeeps : h.Keeps (buffer headersPtr headerBytes ++ buffer bodyPtr body) h₂ :=
    (hkeeps₁.mono (List.subset_append_right _ _)).trans (hkeeps₂.mono (List.subset_append_left _ _))
  have hrest : h₁.live.Perm (buffer headersPtr headerBytes ++ h₂.live) → h₂.live.Perm rest := by
    intro hperm₂
    have hall := (hlive ▸ hperm₁).trans (hperm₂.append_left (buffer bodyPtr body))
    have hswap := List.perm_append_comm_assoc (buffer headersPtr headerBytes) (buffer bodyPtr body) rest
    have hboth := (hswap.symm.trans hall).symm
    exact (List.perm_append_left_iff _).mp ((List.perm_append_left_iff _).mp hboth)
  unfold Sdk.intoResult at hs
  rw [if_neg hstatus, htells.bodyPtr, htells.bodyLen, htells.headersPtr, htells.headersLen] at hs
  simp only [hcopy, hdecode] at hs
  rcases hends with ⟨hreadable, rfl, hperm⟩ | ⟨hreadable, ⟨e, rfl⟩, hperm⟩ | ⟨hreadable, rfl⟩
  · obtain ⟨rfl, rfl⟩ := Prod.mk.inj hs
    exact ⟨hkeeps, Or.inl ⟨hreadable, rfl, hrest hperm⟩⟩
  · obtain ⟨rfl, rfl⟩ := Prod.mk.inj hs
    exact ⟨hkeeps, Or.inr (Or.inl ⟨hreadable, ⟨_, rfl⟩, hrest hperm⟩)⟩
  · obtain ⟨rfl, rfl⟩ := Prod.mk.inj hs
    exact ⟨hkeeps, Or.inr (Or.inr ⟨hreadable, rfl⟩)⟩

theorem Sdk.encodeHeaders_iff : sdk.encodeHeaders headers = .ok bytes ↔ Header.wire.Holds bytes headers := by
  cases sdk with
  | rust => exact RustSdk.encodeHeaders_iff
  | go => exact GoSdk.encodeHeaders_iff

/-- The arguments are slices of the module, which no variable of the SDK overlaps. -/
structure RequestArgs.Fits (args : RequestArgs) (out : ResponseBuffers) (h : GuestHeap) : Prop where
  locals : out.Fits h
  url : h.Valid out.words args.url
  headers : h.Valid out.words args.headers
  body : h.Valid out.words args.body

/-- What the arguments hold; the headers are encoded by the SDK. -/
structure RequestArgs.Holds (args : RequestArgs) (sdk : Sdk) (h : GuestHeap) (url body : Bytes)
    (headers : List Header) (bytes : Bytes) : Prop where
  encoded : sdk.encodeHeaders headers = .ok bytes
  atUrl : h.get args.url = some url
  atHeaders : h.get args.headers = some bytes
  atBody : h.get args.body = some body

/-- What the client is to send. -/
def RequestArgs.sent (args : RequestArgs) (url body : Bytes) (headers : List Header) : HttpRequest :=
  ⟨args.method, url, headers, if args.method.hasBody then some body else none⟩

/-- What a request comes to: `f` is what the host has, and `h₁` the memory when it hands over. -/
structure RequestEnds (A : GuestAllocator) (sdk : Sdk) (fetched : Option HttpResponse) (h h₁ : GuestHeap)
    (f : HostAbi.Fetched) (h' : GuestHeap) (r : SdkResult SdkResponse) : Prop where
  answer : ∀ answer, r = .ok answer → ∃ response, fetched = some response ∧
    answer = ⟨response.status % 2 ^ 16, response.headers, response.body.getD []⟩
  answers : (∃ answer, r = .ok answer) ↔ HostAbi.gives A sdk h₁ f ∧ ∃ status responseBody headerBytes responseHeaders,
    f = .response status responseBody headerBytes ∧ Header.wire.Holds headerBytes responseHeaders ∧
      sdk.Readable headerBytes responseHeaders
  live : r ≠ .trapped → h'.live.Perm (HostAbi.stranded A sdk h₁ f ++ h.live)
  stranded : HostAbi.stranded A sdk h₁ f ≠ [] → r = .invalid "HTTP request failed before receiving a response" ∧
    ∃ response headerBytes, fetched = some response ∧ Header.wire.Holds headerBytes response.headers ∧
      ((response.body.getD []).length < 2 ^ 32 → headerBytes.length < 2 ^ 32 →
        ∃ ptr, HostAbi.stranded A sdk h₁ f = [⟨ptr, (response.body.getD []).length⟩])

namespace RequestEnds

variable {fetched : Option HttpResponse} {h₁ : GuestHeap} {f : HostAbi.Fetched} {r : SdkResult SdkResponse}

/-- The host stops before it has a response. -/
theorem of_ends {host : HostResult} (hnot : ∀ answer, r ≠ .ok answer) (hlive : h'.live = h.live) :
    RequestEnds A sdk fetched h h₁ (.ends host) h' r where
  answer answer hok := absurd hok (hnot answer)
  answers := by
    refine iff_of_false (fun ⟨answer, hok⟩ => hnot answer hok) ?_
    rintro ⟨hgives, -⟩
    cases hgives
  live _ := hlive ▸ List.Perm.refl _
  stranded hne := absurd rfl hne

/-- There is no response, or no room for it. -/
theorem of_fails (hgives : HostAbi.gives A sdk h₁ f = false)
    (hresponse : ∀ status responseBody headerBytes, f = .response status responseBody headerBytes → ∃ response,
      fetched = some response ∧ responseBody = response.body.getD [] ∧ Header.wire.Holds headerBytes response.headers)
    (hlive : h'.live = HostAbi.stranded A sdk h₁ f ++ h.live) :
    RequestEnds A sdk fetched h h₁ f h' (.invalid "HTTP request failed before receiving a response") where
  answer answer hok := by cases hok
  answers := by
    refine iff_of_false (fun ⟨answer, hok⟩ => by cases hok) ?_
    rintro ⟨htrue, -⟩
    cases hgives.symm.trans htrue
  live _ := hlive ▸ List.Perm.refl _
  stranded hne := by
    cases f with
    | ends host => exact absurd rfl hne
    | fails => exact absurd rfl hne
    | response status responseBody headerBytes =>
      obtain ⟨response, hfetched, rfl, hholds⟩ := hresponse _ _ _ rfl
      exact ⟨rfl, response, headerBytes, hfetched, hholds, fun hbody hheaders =>
        (HostAbi.stranded_of_small hbody hheaders).resolve_left hne⟩

/-- Both buffers come over; the SDK reads the headers, or it does not. -/
theorem of_response {response : HttpResponse} {headerBytes : Bytes} (hfetched : fetched = some response)
    (hholds : Header.wire.Holds headerBytes response.headers)
    (hgives : HostAbi.gives A sdk h₁ (.response response.status (response.body.getD []) headerBytes) = true)
    (hstranded : HostAbi.stranded A sdk h₁ (.response response.status (response.body.getD []) headerBytes) = [])
    (hr : (sdk.Readable headerBytes response.headers ∧
        r = .ok ⟨response.status % 2 ^ 16, response.headers, response.body.getD []⟩ ∧ h'.live.Perm h.live) ∨
      (¬ sdk.Readable headerBytes response.headers ∧ (∃ message, r = .invalid message) ∧ h'.live.Perm h.live) ∨
      (¬ sdk.Readable headerBytes response.headers ∧ r = .trapped)) :
    RequestEnds A sdk fetched h h₁ (.response response.status (response.body.getD []) headerBytes) h' r := by
  have hunread : ¬ sdk.Readable headerBytes response.headers → ¬ ∃ status responseBody headerBytes' headers',
      HostAbi.Fetched.response response.status (response.body.getD []) headerBytes =
        .response status responseBody headerBytes' ∧ Header.wire.Holds headerBytes' headers' ∧
      sdk.Readable headerBytes' headers' := by
    rintro hreadable ⟨_, _, _, headers', heq, hholds', hreadable'⟩
    obtain ⟨-, -, rfl⟩ := HostAbi.Fetched.response.inj heq
    obtain rfl := hholds'.unique hholds
    exact hreadable hreadable'
  have hkept : h'.live.Perm h.live → h'.live.Perm (HostAbi.stranded A sdk h₁
      (.response response.status (response.body.getD []) headerBytes) ++ h.live) := fun hperm => by
    rwa [hstranded, List.nil_append]
  have hnone : HostAbi.stranded A sdk h₁ (.response response.status (response.body.getD []) headerBytes) ≠ [] → False :=
    fun hne => hne hstranded
  rcases hr with ⟨hreadable, rfl, hperm⟩ | ⟨hreadable, ⟨message, rfl⟩, hperm⟩ | ⟨hreadable, rfl⟩
  · refine ⟨fun answer hok => ⟨response, hfetched, (SdkResult.ok.inj hok).symm⟩, ?_, fun _ => hkept hperm,
      fun hne => (hnone hne).elim⟩
    exact iff_of_true ⟨_, rfl⟩ ⟨hgives, _, _, headerBytes, response.headers, rfl, hholds, hreadable⟩
  · refine ⟨fun answer hok => (by cases hok), ?_, fun _ => hkept hperm, fun hne => (hnone hne).elim⟩
    exact iff_of_false (fun ⟨answer, hok⟩ => by cases hok) fun h => hunread hreadable h.2
  · refine ⟨fun answer hok => (by cases hok), ?_, fun h => absurd rfl h, fun hne => (hnone hne).elim⟩
    exact iff_of_false (fun ⟨answer, hok⟩ => by cases hok) fun h => hunread hreadable h.2

end RequestEnds

/-- How a request ends, once its arguments are in place. -/
theorem Sdk.request_ends (hA : A.Lawful) (hstatus : ∀ sent response, fetch sent = some response →
      response.status ≠ 0) (hfits : args.Fits out h) (hholds : args.Holds sdk h url body headers bytes)
    {r : SdkResult SdkResponse} (hs : sdk.request A faults fetch h args out = (h', r)) :
    ∃ h₁, HostAbi.writeResults h out 0 0 0 0 = some h₁ ∧ h.Keeps out.words h' ∧
      RequestEnds A sdk (fetch (args.sent url body headers)) h h₁
        (HostAbi.fetched faults fetch args.method url bytes body) h' r := by
  obtain ⟨h₁, hzero, hlive₁, hkeeps₁, -⟩ := HostAbi.writeResults_words hfits.locals (Nat.two_pow_pos 32)
    (Nat.two_pow_pos 32) (Nat.two_pow_pos 32) (Nat.two_pow_pos 32)
  have hbytes : Header.wire.Holds bytes headers := Sdk.encodeHeaders_iff.mp hholds.encoded
  have hlength : bytes.length < 2 ^ 64 := by
    have hget := hfits.headers.get.symm.trans hholds.atHeaders
    have hsize := hfits.headers.fits.trans h.mem.size_le
    have hlen := congrArg List.length (Option.some.inj hget)
    rw [List.length_take] at hlen
    omega
  have hsent : ∀ {status responseBody headerBytes},
      HostAbi.fetched faults fetch args.method url bytes body = .response status responseBody headerBytes →
      ∃ response, fetch (args.sent url body headers) = some response ∧ status = response.status ∧
        responseBody = response.body.getD [] ∧ Header.wire.Holds headerBytes response.headers := fun hf =>
    HostAbi.fetched_response hbytes hlength hf
  obtain ⟨hurl₁, hgetUrl⟩ := hkeeps₁.get hfits.url
  obtain ⟨hheaders₁, hgetHeaders⟩ := hkeeps₁.get hfits.headers
  obtain ⟨hbody₁, hgetBody⟩ := hkeeps₁.get hfits.body
  unfold Sdk.request at hs
  simp only [hzero, HostAbi.slungHttp_eq (hgetUrl.trans hholds.atUrl) (hgetHeaders.trans hholds.atHeaders)
    (hgetBody.trans hholds.atBody)] at hs
  refine ⟨h₁, hzero, ?_⟩
  generalize hf : HostAbi.fetched faults fetch args.method url bytes body = f at hs hsent ⊢
  rcases hdeliver : HostAbi.deliver A sdk h₁ out f with ⟨h₂, host⟩
  rw [hdeliver] at hs
  obtain ⟨hkeeps₂, hends⟩ :=
    HostAbi.deliver_cases hA (hfits.locals.of_live fun b hb => hlive₁ ▸ hb) hdeliver
  rcases hends with ⟨rfl, rfl⟩ | ⟨rfl, hgives, hlive₂⟩ |
    ⟨status, responseBody, headerBytes, bodyPtr, headersPtr, rfl, rfl, hgives, hstranded, hhandedBody, hhandedHeaders,
      hlive₂, htells⟩
  · have hr : h' = h₂ ∧ ∀ answer, r ≠ .ok answer := by
      rcases HostAbi.fetched_ends hf with rfl | rfl <;> obtain ⟨rfl, rfl⟩ := Prod.mk.inj hs <;>
        exact ⟨rfl, fun answer hok => by cases hok⟩
    obtain ⟨rfl, hnot⟩ := hr
    exact ⟨hkeeps₁, .of_ends hnot hlive₁⟩
  · obtain ⟨rfl, rfl⟩ := Prod.mk.inj hs
    refine ⟨hkeeps₁.trans hkeeps₂, .of_fails hgives (fun status responseBody headerBytes hresponse => ?_) ?_⟩
    · obtain ⟨response, hfetch, -, hrest⟩ := hsent hresponse
      exact ⟨response, hfetch, hrest⟩
    · rw [hlive₂, hlive₁]
  · obtain ⟨response, hresponse, rfl, rfl, hheaders⟩ := hsent rfl
    obtain ⟨hkeeps₃, hresult⟩ := Sdk.intoResult_handed hA (hstatus _ _ hresponse) hhandedBody hhandedHeaders hheaders
      (hlive₁ ▸ hlive₂) htells hs
    refine ⟨?_, .of_response hresponse hheaders hgives hstranded hresult⟩
    have hall := ((hkeeps₁.trans hkeeps₂).mono (List.subset_append_right
      (buffer headersPtr headerBytes ++ buffer bodyPtr (response.body.getD [])) out.words)).trans
      (hkeeps₃.mono (List.subset_append_left _ _))
    have hlive : h₂.live = (buffer headersPtr headerBytes ++ buffer bodyPtr (response.body.getD [])) ++ h.live := by
      rw [hlive₂, hlive₁, List.append_assoc]
    exact hall.of_fresh (Heap.fresh_of_live hlive)

/-- **A request through the SDK**: it returns a response exactly if the host has one, the module has room for its body
and its headers, and the SDK reads these; then it is the client's response to what the module has sent.  A call that
returns leaves the blocks in use as they were, and with them what is stranded: the body, when there is room for it and
then none for the headers, or a block that a buffer of `2 ^ 32` bytes or more did not fit into.  The SDK then says that
there was no response. -/
theorem request_returns_response (hA : A.Lawful) (hstatus : ∀ sent response, fetch sent = some response →
      response.status ≠ 0) (hfits : args.Fits out h) (hholds : args.Holds sdk h url body headers bytes)
    {r : SdkResult SdkResponse} (hs : sdk.request A faults fetch h args out = (h', r)) :
    ∃ h₁ f, HostAbi.writeResults h out 0 0 0 0 = some h₁ ∧
      f = HostAbi.fetched faults fetch args.method url bytes body ∧ h.Keeps out.words h' ∧
      (∀ answer, r = .ok answer → ∃ response, fetch (args.sent url body headers) = some response ∧
        answer = ⟨response.status % 2 ^ 16, response.headers, response.body.getD []⟩) ∧
      ((∃ answer, r = .ok answer) ↔ HostAbi.gives A sdk h₁ f ∧ ∃ status responseBody headerBytes responseHeaders,
        f = .response status responseBody headerBytes ∧ Header.wire.Holds headerBytes responseHeaders ∧
        sdk.Readable headerBytes responseHeaders) ∧
      (r ≠ .trapped → h'.live.Perm (HostAbi.stranded A sdk h₁ f ++ h.live)) ∧
      (HostAbi.stranded A sdk h₁ f ≠ [] → r = .invalid "HTTP request failed before receiving a response" ∧
        ∃ response headerBytes, fetch (args.sent url body headers) = some response ∧
          Header.wire.Holds headerBytes response.headers ∧
          ((response.body.getD []).length < 2 ^ 32 → headerBytes.length < 2 ^ 32 →
            ∃ ptr, HostAbi.stranded A sdk h₁ f = [⟨ptr, (response.body.getD []).length⟩])) := by
  obtain ⟨h₁, hzero, hkeeps, hanswer, hanswers, hlive, hstranded⟩ := Sdk.request_ends hA hstatus hfits hholds hs
  exact ⟨h₁, _, hzero, rfl, hkeeps, hanswer, hanswers, hlive, hstranded⟩

/-- Forty bytes with a URL at 8 and four variables; eight bytes are free. -/
def exampleCaller : GuestHeap where
  mem := ⟨List.replicate 8 0 ++ [47] ++ List.replicate 31 0, by decide⟩
  live := [⟨8, 1⟩, word 16, word 20, word 24, word 28]
  inside := by decide
  proper := by decide
  apart := by decide

/-- A body of three bytes, and a header of ten. -/
def exampleResponse : HttpResponse := ⟨200, [⟨[97], [98]⟩], some [1, 2, 3]⟩

/-- There is room for the body only: the module is told that there was no response, and three bytes stay in use. -/
theorem request_returns_response_stranded :
    ∃ h' r, Sdk.rust.request (Allocator.firstFit 32) [] (fun _ => some exampleResponse) exampleCaller
        ⟨.get, ⟨8, 1⟩, ⟨1, 0⟩, ⟨1, 0⟩⟩ ⟨16, 20, 24, 28⟩ = (h', r) ∧
      r = .invalid "HTTP request failed before receiving a response" ∧
      ∃ ptr, h'.live.Perm (⟨ptr, 3⟩ :: exampleCaller.live) := by
  let out : ResponseBuffers := ⟨16, 20, 24, 28⟩
  let args : RequestArgs := ⟨.get, ⟨8, 1⟩, ⟨1, 0⟩, ⟨1, 0⟩⟩
  let fetch : HttpRequest → Option HttpResponse := fun _ => some exampleResponse
  rcases hs : Sdk.rust.request (Allocator.firstFit 32) [] fetch exampleCaller args out with ⟨h', r⟩
  have hstatus : ∀ sent response, fetch sent = some response → response.status ≠ 0 := by
    rintro sent response heq
    obtain rfl := Option.some.inj heq
    decide
  have hfits : args.Fits out exampleCaller := ⟨⟨by decide, by decide⟩, by decide, by decide, by decide⟩
  have hholds : args.Holds .rust exampleCaller [47] [] [] [] := ⟨rfl, rfl, rfl, rfl⟩
  obtain ⟨h₁, f, hzero, hf, -, -, -, hlive, hstranded⟩ :=
    request_returns_response (Allocator.firstFit_lawful 32) hstatus hfits hholds hs
  have hstays : HostAbi.stranded (Allocator.firstFit 32) .rust h₁ f = [⟨32, 3⟩] := by
    have hrun : (HostAbi.writeResults exampleCaller out 0 0 0 0).map (fun h => HostAbi.stranded (Allocator.firstFit 32)
        .rust h (HostAbi.fetched [] fetch .get [47] [] [])) = some [⟨32, 3⟩] := by decide +kernel
    rw [hzero] at hrun
    rw [hf]
    exact Option.some.inj hrun
  obtain ⟨rfl, -⟩ := hstranded (hstays ▸ List.cons_ne_nil _ _)
  have hperm := hlive fun h => by cases h
  rw [hstays] at hperm
  exact ⟨h', _, rfl, rfl, 32, hperm⟩

end Slung
