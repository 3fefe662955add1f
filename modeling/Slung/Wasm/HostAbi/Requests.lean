import Slung.Sdks.Allocation
import Slung.Wasm.HostAbi.Generic
import Slung.Wasm.HostAbi.Http

/-!
# Slung.Wasm.HostAbi.Requests — HTTP requests of a module (`wasm/host_abi/http.zig`)

The host reads the request out of the guest's memory, sends it, and hands body and headers of the response to the guest
in two blocks.  The client is a parameter.
-/

namespace Slung

open Slung.Lib

inductive HttpMethod where
  | get
  | delete
  | put
  | post
deriving DecidableEq, Repr

def HttpMethod.hasBody : HttpMethod → Bool
  | .put | .post => true
  | .get | .delete => false

structure HttpRequest where
  method : HttpMethod
  url : Bytes
  headers : List Header
  body : Option Bytes
deriving DecidableEq, Repr

structure HttpResponse where
  status : ℕ
  headers : List Header
  body : Option Bytes
deriving DecidableEq, Repr

/-- What may fail on the host, apart from the client. -/
inductive RequestFault where
  | copyUrl
  | copyHeaders
  | copyBody
  | initHeaders
  | readBody
  | encodeHeaders
  | ownBody
  | ownHeaders
deriving DecidableEq, Repr

/-- Where the arguments of a request are; a body only if the method has one. -/
structure RequestArgs where
  method : HttpMethod
  url : Block
  headers : Block
  body : Block
deriving DecidableEq, Repr

/-- Where the guest wants to be told about the two buffers. -/
structure ResponseBuffers where
  bodyPtr : ℕ
  bodyLen : ℕ
  headersPtr : ℕ
  headersLen : ℕ
deriving DecidableEq, Repr

namespace HostAbi

/-- The bytes of the body and of the headers, with the status; or how the host call ends without them. -/
inductive Fetched where
  | response (status : ℕ) (body headers : Bytes)
  | fails
  | ends (r : HostResult)
deriving DecidableEq, Repr

/-- `request`, as far as the guest has no part in it. -/
def fetchResponse (faults : List RequestFault) (fetch : HttpRequest → Option HttpResponse) (method : HttpMethod)
    (url headerBytes : Bytes) (body : Option Bytes) : Fetched :=
  if .initHeaders ∈ faults then .ends (.err .outOfMemory)
  else
    match parseHeaders (maxRequestHeaders headerBytes) (headerBytes.length + 1) headerBytes with
    | some (.ok headers) =>
      match fetch ⟨method, url, headers, body⟩ with
      | none => .fails
      | some response =>
        if .readBody ∈ faults then .fails
        else if .encodeHeaders ∈ faults then .fails
        else
          match encodeHeaders response.headers with
          -- a length that does not fit into 32 bits
          | .error _ => .ends .panic
          | .ok responseHeaders =>
            if .ownBody ∈ faults ∨ .ownHeaders ∈ faults then .fails
            else .response response.status (response.body.getD []) responseHeaders
    | _ => .fails

/-- `writeResult` for both buffers. -/
def writeResults (h : GuestHeap) (out : ResponseBuffers) (bodyPtr bodyLen headersPtr headersLen : ℕ) :
    Option GuestHeap :=
  (writeResult h out.bodyPtr out.bodyLen bodyPtr bodyLen).bind fun h =>
    writeResult h out.headersPtr out.headersLen headersPtr headersLen

def fail (h : GuestHeap) (out : ResponseBuffers) : GuestHeap × HostResult :=
  match writeResults h out 0 0 0 0 with
  | none => (h, .err .guest)
  | some h => (h, .status 0)

/-- `request`, once there is a response. -/
def deliver (A : GuestAllocator) (sdk : Sdk) (h : GuestHeap) (out : ResponseBuffers) :
    Fetched → GuestHeap × HostResult
  | .ends r => (h, r)
  | .fails => fail h out
  | .response status body headers =>
    match allocate A sdk h body with
    | (h, none) => fail h out
    | (h, some bodyPtr) =>
      match allocate A sdk h headers with
      -- the block of the body stays
      | (h, none) => fail h out
      | (h, some headersPtr) =>
        match writeResults h out bodyPtr body.length headersPtr headers.length with
        | none => (h, .err .guest)
        | some h => (h, .status status)

/-- `urlRequest` and `bodyRequest` -/
def slungHttp (A : GuestAllocator) (sdk : Sdk) (faults : List RequestFault) (fetch : HttpRequest → Option HttpResponse)
    (h : GuestHeap) (args : RequestArgs) (out : ResponseBuffers) : GuestHeap × HostResult :=
  match memoryRead (RequestFault.copyUrl ∈ faults) h args.url with
  | none => fail h out
  | some url =>
    match memoryRead (RequestFault.copyHeaders ∈ faults) h args.headers with
    | none => fail h out
    | some headerBytes =>
      if args.method.hasBody then
        match memoryRead (RequestFault.copyBody ∈ faults) h args.body with
        | none => fail h out
        | some body => deliver A sdk h out (fetchResponse faults fetch args.method url headerBytes (some body))
      else deliver A sdk h out (fetchResponse faults fetch args.method url headerBytes none)

/-- What the host has of a request whose arguments are in place. -/
def fetched (faults : List RequestFault) (fetch : HttpRequest → Option HttpResponse) (method : HttpMethod)
    (url headerBytes body : Bytes) : Fetched :=
  if .copyUrl ∈ faults ∨ .copyHeaders ∈ faults ∨ (method.hasBody ∧ .copyBody ∈ faults) then .fails
  else fetchResponse faults fetch method url headerBytes (if method.hasBody then some body else none)

/-- There are blocks for both buffers. -/
def gives (A : GuestAllocator) (sdk : Sdk) (h : GuestHeap) : Fetched → Bool
  | .response _ body headers =>
    (allocate A sdk h body).2.isSome && (allocate A sdk (allocate A sdk h body).1 headers).2.isSome
  | .fails | .ends _ => false

/-- The blocks that stay: the body's when there is none for the headers, and one that a buffer did not fit into. -/
def stranded (A : GuestAllocator) (sdk : Sdk) (h : GuestHeap) : Fetched → List Block
  | .response _ body headers =>
    match allocate A sdk h body with
    | (_, none) => lost A sdk h body
    | (h, some bodyPtr) =>
      match allocate A sdk h headers with
      | (_, none) => lost A sdk h headers ++ buffer bodyPtr body
      | (_, some _) => []
  | .fails | .ends _ => []

end HostAbi

namespace ResponseBuffers

def words (out : ResponseBuffers) : List Block :=
  [word out.bodyPtr, word out.bodyLen, word out.headersPtr, word out.headersLen]

/-- The guest has four variables. -/
structure Fits (out : ResponseBuffers) (h : GuestHeap) : Prop where
  live : ∀ b ∈ out.words, b ∈ h.live
  apart : out.words.Nodup

theorem Fits.of_live {out : ResponseBuffers} {h h' : GuestHeap} (hfits : out.Fits h)
    (hlive : ∀ b ∈ h.live, b ∈ h'.live) : out.Fits h' :=
  ⟨fun b hb => hlive b (hfits.live b hb), hfits.apart⟩

/-- What the variables say. -/
structure Tells (out : ResponseBuffers) (h : GuestHeap) (bodyPtr bodyLen headersPtr headersLen : ℕ) : Prop where
  bodyPtr : readU32 h out.bodyPtr = some bodyPtr
  bodyLen : readU32 h out.bodyLen = some bodyLen
  headersPtr : readU32 h out.headersPtr = some headersPtr
  headersLen : readU32 h out.headersLen = some headersLen

end ResponseBuffers

/-! ## What the host calls come to -/

namespace HostAbi

variable {A : GuestAllocator} {sdk : Sdk} {faults : List RequestFault} {fetch : HttpRequest → Option HttpResponse}
  {h h' : GuestHeap} {args : RequestArgs} {out : ResponseBuffers} {touched : List Block} {method : HttpMethod}
  {url headerBytes : Bytes} {headers : List Header} {r : HostResult}

theorem writeResults_words (hfits : out.Fits h) {bodyPtr bodyLen headersPtr headersLen : ℕ}
    (hbodyPtr : bodyPtr < 2 ^ 32) (hbodyLen : bodyLen < 2 ^ 32) (hheadersPtr : headersPtr < 2 ^ 32)
    (hheadersLen : headersLen < 2 ^ 32) :
    ∃ h', writeResults h out bodyPtr bodyLen headersPtr headersLen = some h' ∧ h'.live = h.live ∧
      h.Keeps out.words h' ∧ out.Tells h' bodyPtr bodyLen headersPtr headersLen := by
  obtain ⟨hlive, hapart⟩ := hfits
  rw [ResponseBuffers.words, List.forall_mem_cons, List.forall_mem_cons, List.forall_mem_cons,
    List.forall_mem_singleton] at hlive
  simp only [ResponseBuffers.words, List.nodup_cons, List.mem_cons, List.not_mem_nil, or_false, not_or] at hapart
  obtain ⟨hin₁, hin₂, hin₃, hin₄⟩ := hlive
  obtain ⟨⟨h₁₂, h₁₃, h₁₄⟩, ⟨h₂₃, h₂₄⟩, h₃₄, -⟩ := hapart
  have hne : ∀ {p q : ℕ}, word p ≠ word q → p ≠ q := fun hpq heq => hpq (congrArg word heq)
  obtain ⟨h₁, hput₁, hlive₁, hkeeps₁, hread₁, hread₂⟩ := writeResult_words hin₁ hin₂ (hne h₁₂) hbodyPtr hbodyLen
  obtain ⟨h₂, hput₂, hlive₂, hkeeps₂, hread₃, hread₄⟩ :=
    writeResult_words (hlive₁ ▸ hin₃) (hlive₁ ▸ hin₄) (hne h₃₄) hheadersPtr hheadersLen
  have hkept : ∀ {p n : ℕ}, word p ∈ h.live → word p ≠ word out.headersPtr → word p ≠ word out.headersLen →
      readU32 h₁ p = some n → readU32 h₂ p = some n := fun {p n} hin hne₁ hne₂ hread => by
    have hout : word p ∉ [word out.headersPtr, word out.headersLen] := by simp [hne₁, hne₂]
    rw [readU32, (hkeeps₂.get (Heap.Valid.of_mem (hlive₁ ▸ hin) hout)).2]
    exact hread
  refine ⟨h₂, ?_, hlive₂.trans hlive₁, ?_, hkept hin₁ h₁₃ h₁₄ hread₁, hkept hin₂ h₂₃ h₂₄ hread₂, hread₃, hread₄⟩
  · rw [writeResults, hput₁, Option.bind_some, hput₂]
  · exact (hkeeps₁.mono (by simp [ResponseBuffers.words])).trans (hkeeps₂.mono (by simp [ResponseBuffers.words]))

theorem fail_eq (hfits : out.Fits h) :
    ∃ h', fail h out = (h', .status 0) ∧ h'.live = h.live ∧ h.Keeps out.words h' := by
  obtain ⟨h', hput, hlive, hkeeps, -⟩ := writeResults_words hfits (Nat.two_pow_pos 32) (Nat.two_pow_pos 32)
    (Nat.two_pow_pos 32) (Nat.two_pow_pos 32)
  exact ⟨h', by rw [fail, hput], hlive, hkeeps⟩

theorem slungHttp_eq (hurl : h.get args.url = some url) (hheaders : h.get args.headers = some headerBytes)
    {body : Bytes} (hbody : h.get args.body = some body) :
    slungHttp A sdk faults fetch h args out =
      deliver A sdk h out (fetched faults fetch args.method url headerBytes body) := by
  unfold slungHttp fetched memoryRead
  simp only [decide_eq_true_eq]
  by_cases hcopyUrl : .copyUrl ∈ faults
  · simp only [hcopyUrl, true_or, if_true]
    rfl
  by_cases hcopyHeaders : .copyHeaders ∈ faults
  · simp only [if_neg hcopyUrl, hurl, hcopyHeaders, true_or, or_true, if_true]
    rfl
  simp only [hurl, hheaders, hcopyUrl, hcopyHeaders, if_false, false_or]
  cases args.method.hasBody with
  | false => simp
  | true =>
    by_cases hcopyBody : .copyBody ∈ faults
    · simp only [hcopyBody, if_true, and_self]
      rfl
    · simp [hcopyBody, hbody]

/-- A response that the host has is the client's, to the request with the headers that were encoded. -/
theorem fetched_response {body : Bytes} (hholds : Header.wire.Holds headerBytes headers)
    (hlength : headerBytes.length < 2 ^ 64) {status : ℕ} {responseBody responseHeaders : Bytes}
    (hf : fetched faults fetch method url headerBytes body = .response status responseBody responseHeaders) :
    ∃ response, fetch ⟨method, url, headers, if method.hasBody then some body else none⟩ = some response ∧
      status = response.status ∧ responseBody = response.body.getD [] ∧
      Header.wire.Holds responseHeaders response.headers := by
  obtain ⟨result, hread, hdecoded⟩ := parseHeaders_spec hlength (Nat.lt_succ_self headerBytes.length)
  obtain rfl : result = .ok headers := hdecoded.ok_iff.mpr ⟨hholds, fun _ _ => rfl⟩
  have hparse : parseHeaders (maxRequestHeaders headerBytes) (headerBytes.length + 1) headerBytes =
      some (.ok headers) := hread _
  unfold fetched at hf
  by_cases hcopy : .copyUrl ∈ faults ∨ .copyHeaders ∈ faults ∨ (method.hasBody ∧ .copyBody ∈ faults)
  · rw [if_pos hcopy] at hf
    cases hf
  rw [if_neg hcopy] at hf
  unfold fetchResponse at hf
  by_cases hinit : .initHeaders ∈ faults
  · rw [if_pos hinit] at hf
    cases hf
  rw [if_neg hinit] at hf
  simp only [hparse] at hf
  cases hfetch : fetch ⟨method, url, headers, if method.hasBody then some body else none⟩ with
  | none =>
    simp only [hfetch] at hf
    cases hf
  | some response =>
    simp only [hfetch] at hf
    cases hencoded : encodeHeaders response.headers with
    | error e =>
      simp only [hencoded] at hf
      split_ifs at hf
    | ok encoded =>
      simp only [hencoded] at hf
      split_ifs at hf
      obtain ⟨rfl, rfl, rfl⟩ := Fetched.response.inj hf
      exact ⟨response, rfl, rfl, rfl, encodeHeaders_iff.mp hencoded⟩

/-- The host stops early only without memory, or at a length that does not fit. -/
theorem fetched_ends {body : Bytes} (hf : fetched faults fetch method url headerBytes body = .ends r) :
    r = .err .outOfMemory ∨ r = .panic := by
  unfold fetched at hf
  by_cases hcopy : .copyUrl ∈ faults ∨ .copyHeaders ∈ faults ∨ (method.hasBody ∧ .copyBody ∈ faults)
  · rw [if_pos hcopy] at hf
    cases hf
  rw [if_neg hcopy] at hf
  unfold fetchResponse at hf
  by_cases hinit : .initHeaders ∈ faults
  · rw [if_pos hinit] at hf
    exact Or.inl (Fetched.ends.inj hf).symm
  rw [if_neg hinit] at hf
  split at hf
  · split at hf
    · cases hf
    · rename_i response _
      cases hencoded : encodeHeaders response.headers with
      | error e =>
        simp only [hencoded] at hf
        split_ifs at hf
        exact Or.inr (Fetched.ends.inj hf).symm
      | ok encoded =>
        simp only [hencoded] at hf
        split_ifs at hf
  · cases hf

/-- Buffers whose lengths fit into 32 bits leave the body's block, or none. -/
theorem stranded_of_small {status : ℕ} {body headers : Bytes} (hbody : body.length < 2 ^ 32)
    (hheaders : headers.length < 2 ^ 32) : stranded A sdk h (.response status body headers) = [] ∨
      ∃ ptr, stranded A sdk h (.response status body headers) = [⟨ptr, body.length⟩] := by
  rcases hbody' : allocate A sdk h body with ⟨h₁, _ | bodyPtr⟩
  · exact Or.inl (by simp only [stranded, hbody', lost_of_small hbody])
  · rcases hheaders' : allocate A sdk h₁ headers with ⟨h₂, _ | headersPtr⟩
    · have hall : stranded A sdk h (.response status body headers) = buffer bodyPtr body := by
        simp only [stranded, hbody', hheaders', lost_of_small hheaders, List.nil_append]
      rw [hall, buffer]
      split_ifs
      · exact Or.inl rfl
      · exact Or.inr ⟨bodyPtr, rfl⟩
    · exact Or.inl (by simp only [stranded, hbody', hheaders'])

/-- **What a request leaves the guest**: nothing but zeros and what is stranded, or both buffers. -/
theorem deliver_cases (hA : A.Lawful) (hfits : out.Fits h) {f : Fetched} (hd : deliver A sdk h out f = (h', r)) :
    h.Keeps out.words h' ∧
      ((f = .ends r ∧ h' = h) ∨
        (r = .status 0 ∧ gives A sdk h f = false ∧ h'.live = stranded A sdk h f ++ h.live) ∨
        ∃ status body headers bodyPtr headersPtr, f = .response status body headers ∧ r = .status status ∧
          gives A sdk h f = true ∧ stranded A sdk h f = [] ∧ Handed h' bodyPtr body ∧ Handed h' headersPtr headers ∧
          h'.live = buffer headersPtr headers ++ (buffer bodyPtr body ++ h.live) ∧
          out.Tells h' bodyPtr body.length headersPtr headers.length) := by
  cases f with
  | ends r' =>
    obtain ⟨rfl, rfl⟩ := Prod.mk.inj hd
    exact ⟨Heap.Keeps.refl _ h, Or.inl ⟨rfl, rfl⟩⟩
  | fails =>
    obtain ⟨h₁, hfail, hlive, hkeeps⟩ := fail_eq hfits
    obtain ⟨rfl, rfl⟩ := Prod.mk.inj (hfail.symm.trans hd)
    exact ⟨hkeeps, Or.inr (Or.inl ⟨rfl, rfl, hlive⟩)⟩
  | response status body headers =>
    unfold deliver at hd
    rcases hbody : allocate A sdk h body with ⟨h₁, asked⟩
    obtain ⟨hkeeps₁, ⟨rfl, hlive₁⟩ | ⟨bodyPtr, rfl, hhanded₁, hlive₁⟩⟩ := allocate_cases hA hbody
    · obtain ⟨h₂, hfail, hlive₂, hkeeps₂⟩ := fail_eq (hfits.of_live fun b hb => hlive₁ ▸ List.mem_append_right _ hb)
      simp only [hbody] at hd
      obtain ⟨rfl, rfl⟩ := Prod.mk.inj (hfail.symm.trans hd)
      refine ⟨(hkeeps₁.mono (List.nil_subset _)).trans hkeeps₂, Or.inr (Or.inl ⟨rfl, by simp [gives, hbody], ?_⟩)⟩
      rw [hlive₂, hlive₁, stranded, hbody]
    simp only [hbody] at hd
    have hfits₁ : out.Fits h₁ := hfits.of_live fun b hb => hlive₁ ▸ List.mem_append_right _ hb
    rcases hheaders : allocate A sdk h₁ headers with ⟨h₂, asked⟩
    obtain ⟨hkeeps₂, ⟨rfl, hlive₂⟩ | ⟨headersPtr, rfl, hhanded₂, hlive₂⟩⟩ := allocate_cases hA hheaders
    · obtain ⟨h₃, hfail, hlive₃, hkeeps₃⟩ := fail_eq (hfits₁.of_live fun b hb => hlive₂ ▸ List.mem_append_right _ hb)
      simp only [hheaders] at hd
      obtain ⟨rfl, rfl⟩ := Prod.mk.inj (hfail.symm.trans hd)
      refine ⟨((hkeeps₁.trans hkeeps₂).mono (List.nil_subset _)).trans hkeeps₃,
        Or.inr (Or.inl ⟨rfl, by simp [gives, hbody, hheaders], ?_⟩)⟩
      simp only [stranded, hbody, hheaders]
      rw [hlive₃, hlive₂, hlive₁, List.append_assoc]
    · have hfits₂ : out.Fits h₂ := hfits₁.of_live fun b hb => hlive₂ ▸ List.mem_append_right _ hb
      obtain ⟨hbodyPtr, hbodyLen⟩ := hhanded₁.bounds
      obtain ⟨hheadersPtr, hheadersLen⟩ := hhanded₂.bounds
      obtain ⟨h₃, hput, hlive₃, hkeeps₃, htells⟩ :=
        writeResults_words hfits₂ hbodyPtr hbodyLen hheadersPtr hheadersLen
      simp only [hheaders, hput] at hd
      obtain ⟨rfl, rfl⟩ := Prod.mk.inj hd
      have hwords : ∀ b ∈ out.words, b ∈ h.live := hfits.live
      have hfresh₁ : ∀ b ∈ buffer bodyPtr body, b ∉ out.words := fun b hb hin =>
        Heap.fresh_of_live hlive₁ b hb (hwords b hin)
      have hfresh₂ : ∀ b ∈ buffer headersPtr headers, b ∉ out.words := fun b hb hin =>
        Heap.fresh_of_live hlive₂ b hb (hfits₁.live b hin)
      refine ⟨((hkeeps₁.trans hkeeps₂).mono (List.nil_subset _)).trans hkeeps₃, Or.inr (Or.inr ?_)⟩
      refine ⟨status, body, headers, bodyPtr, headersPtr, rfl, rfl, by simp [gives, hbody, hheaders],
        by simp only [stranded, hbody, hheaders], ?_, hhanded₂.keeps hkeeps₃ hfresh₂, ?_, htells⟩
      · exact (hhanded₁.keeps hkeeps₂ fun _ _ => List.not_mem_nil).keeps hkeeps₃ hfresh₁
      · rw [hlive₃, hlive₂, hlive₁]

end HostAbi

end Slung
