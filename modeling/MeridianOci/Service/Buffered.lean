import MeridianOci.Service.Sample

/-!
# Compressed transfers of buffered responses

What a registry puts on the wire, what `httpx` hands to the client of it, and what
`_bounded_response` makes of that. The body reaches the client decoded; the response that
is built around it carries the original headers, decodes it by them once more, and gets a
length if it came without one.
-/
namespace MeridianOci.Service

open MeridianOci.Data MeridianOci.Effect MeridianOci.Model

set_option autoImplicit false

variable {P : Platform}

/-- A response on the wire: its body is encoded and comes in any chunks. -/
structure Transfer where
  status : Nat
  headers : Headers
  url : String
  wire : List Bytes

variable (P) in
/-- What the client sees of a transfer whose body decodes to `body`: decoded chunks, cut anywhere. -/
structure Received (transfer : Transfer) (body : Bytes) (response : Response) : Prop where
  status : response.status = transfer.status
  headers : response.headers = transfer.headers
  url : response.url = transfer.url
  decoded : P.decodeContent transfer.headers transfer.wire.flatten = some body
  chunks : response.chunks.flatten = body
  complete : response.failure = none

variable {transfer : Transfer} {body : Bytes} {response : Response}

/-- Decoding a body by the headers it came with, though it is decoded already, changes nothing. -/
def Stable (P : Platform) (transfer : Transfer) (body : Bytes) : Prop :=
  P.decodeContent transfer.headers body = some body

/-- The response came with a length, or there is nothing to give one for. -/
def Measured (transfer : Transfer) (body : Bytes) : Prop :=
  body = [] ∨ (header transfer.headers "content-length").isSome = true

/-- What `_bounded_response` makes of a transfer. -/
theorem boundedResponse_received (h : Received P transfer body response) (maximumBytes : Nat) :
    boundedResponse P response maximumBytes =
      if maximumBytes < body.length then
        .error (.of .objectUnavailable "OCI registry response exceeded its configured bound")
      else
        match P.decodeContent transfer.headers body with
        | none => .error { kind := .httpError }
        | some content => .ok ⟨transfer.status, withLength transfer.headers body, content⟩ := by
  rw [boundedResponse, h.complete, readBounded_chunks _ _ _ (Nat.zero_le _), List.nil_append, h.chunks, h.status,
    h.headers]
  by_cases hlong : maximumBytes < body.length
  · rw [if_pos hlong, if_pos hlong]
  · cases hcontent : P.decodeContent transfer.headers body <;> simp only [if_neg hlong, hcontent]

/-- Status, headers and body within the bound are kept if and only if the body is stable and measured. -/
theorem boundedResponse_keeps (h : Received P transfer body response) {maximumBytes : Nat}
    (hfits : body.length ≤ maximumBytes) :
    boundedResponse P response maximumBytes = .ok ⟨transfer.status, transfer.headers, body⟩ ↔
      Stable P transfer body ∧ Measured transfer body := by
  rw [boundedResponse_received h, if_neg (Nat.not_lt.mpr hfits), Stable, Measured, ← withLength_eq_iff]
  cases P.decodeContent transfer.headers body with
  | none => simp
  | some content => simp [and_comm]

/-- The body within the bound is kept if and only if it is stable. -/
theorem boundedResponse_content (h : Received P transfer body response) {maximumBytes : Nat}
    (hfits : body.length ≤ maximumBytes) :
    (∃ bounded, boundedResponse P response maximumBytes = .ok bounded ∧ bounded.content = body) ↔
      Stable P transfer body := by
  rw [boundedResponse_received h, if_neg (Nat.not_lt.mpr hfits), Stable]
  cases P.decodeContent transfer.headers body with
  | none => simp
  | some content => simp

theorem boundedResponse_rejects (h : Received P transfer body response) {maximumBytes : Nat}
    (hlong : maximumBytes < body.length) : ∃ error, boundedResponse P response maximumBytes = .error error ∧
      error.kind = .objectUnavailable :=
  ⟨_, by rw [boundedResponse_received h, if_pos hlong], rfl⟩

section Requests

variable {client : RegistryHttpClient} {request : Request} {expected : List Nat} {maximumBytes left : Nat}

/-- What ends the loop of `_request`: a safe URL, and a status that is no reason to try again. -/
structure Accepts (client : RegistryHttpClient) (P : Platform) (expected : List Nat) (transfer : Transfer) : Prop where
  safe : requireSafeResponseUrl P client.binding transfer.url = .ok ()
  status : transfer.status ∈ expected
  settled : transfer.status ∉ retriableStatus

/-- An attempt of any buffered request hands on an accepted transfer under the same condition. -/
theorem attempt_keeps (haccepts : Accepts client P expected transfer) (h : Received P transfer body response)
    (hfits : body.length ≤ maximumBytes) :
    client.judge P expected maximumBytes left (client.attempt P request expected maximumBytes left) (.ok response) =
        .ret ⟨transfer.status, transfer.headers, body⟩ ↔ Stable P transfer body ∧ Measured transfer body := by
  have hbounded := boundedResponse_received h maximumBytes
  rw [if_neg (Nat.not_lt.mpr hfits)] at hbounded
  rw [RegistryHttpClient.judge, h.url, haccepts.safe, h.status, hbounded, Stable, Measured, ← withLength_eq_iff]
  simp only [haccepts.settled, false_and, if_false]
  cases P.decodeContent transfer.headers body with
  | none =>
    simp only [reduceCtorEq, if_false, if_true, false_and, iff_false]
    cases left with
    | zero => simp [RegistryHttpClient.attempt]
    | succ left => simp [RegistryHttpClient.attempt]
  | some content => simp [haccepts.status, and_comm]

/-- A body over the bound is rejected, whatever its coding. -/
theorem attempt_rejects (haccepts : Accepts client P expected transfer) (h : Received P transfer body response)
    (hlong : maximumBytes < body.length) (again : Action BoundedResponse) :
    ∃ error, client.judge P expected maximumBytes left again (.ok response) = .raise error ∧
      error.kind = .objectUnavailable := by
  obtain ⟨error, hbounded, hkind⟩ := boundedResponse_rejects h hlong
  refine ⟨error, ?_, hkind⟩
  rw [RegistryHttpClient.judge, h.url, haccepts.safe, h.status, hbounded]
  simp only [haccepts.settled, haccepts.status, hkind, false_and, if_false, if_true]

/-- Buffered responses keep status, headers and body of a transfer exactly when the body is stable and
measured, in `_bounded_response` and in every attempt of every buffered request, and the body alone
exactly when it is stable; a body over the bound is rejected. -/
theorem buffered_body (client : RegistryHttpClient) (request : Request) (expected : List Nat) (maximumBytes left : Nat)
    (h : Received P transfer body response) :
    (body.length ≤ maximumBytes →
      (boundedResponse P response maximumBytes = .ok ⟨transfer.status, transfer.headers, body⟩ ↔
        Stable P transfer body ∧ Measured transfer body) ∧
      ((∃ bounded, boundedResponse P response maximumBytes = .ok bounded ∧ bounded.content = body) ↔
        Stable P transfer body) ∧
      (Accepts client P expected transfer →
        (client.judge P expected maximumBytes left (client.attempt P request expected maximumBytes left) (.ok response) =
          .ret ⟨transfer.status, transfer.headers, body⟩ ↔ Stable P transfer body ∧ Measured transfer body))) ∧
    (maximumBytes < body.length →
      (∃ error, boundedResponse P response maximumBytes = .error error ∧ error.kind = .objectUnavailable) ∧
      (Accepts client P expected transfer →
        ∃ error, client.judge P expected maximumBytes left (client.attempt P request expected maximumBytes left)
          (.ok response) = .raise error ∧ error.kind = .objectUnavailable)) :=
  ⟨fun hfits => ⟨boundedResponse_keeps h hfits, boundedResponse_content h hfits,
      fun haccepts => attempt_keeps haccepts h hfits⟩,
    fun hlong => ⟨boundedResponse_rejects h hlong, fun haccepts => attempt_rejects haccepts h hlong _⟩⟩

end Requests

namespace Sample

open Model.Sample

/-- The two bytes of an empty mapping, and a gzip of them. -/
def zipped : Bytes :=
  [0x1f, 0x8b, 0x08, 0x00, 0x00, 0x00, 0x00, 0x00, 0x00, 0x03, 0xab, 0xae, 0x05, 0x00, 0x43, 0xbf, 0xa6, 0xa3,
    0x02, 0x00, 0x00, 0x00]

def isZipped (headers : Headers) : Bool :=
  headers.any fun field => isNamed field "content-encoding" && field.2 = "gzip"

/-- The sample platform with a decoder that knows one gzip; what is none is not decoded. -/
def zipPlatform : Platform :=
  { platform with
    decodeContent := fun headers body =>
      if isZipped headers then if body = zipped then some emptyJson else none else some body }

def zippedTransfer : Transfer := ⟨200, [("Content-Encoding", "gzip")], "https://registry/", [zipped]⟩

def plainTransfer : Transfer := ⟨200, [("Content-Length", "2")], "https://registry/", [emptyJson]⟩

/-- The document in a chunked transfer, which has no length. -/
def chunkedTransfer : Transfer := ⟨200, [("Transfer-Encoding", "chunked")], "https://registry/", [emptyJson]⟩

def unzipped (transfer : Transfer) : Response := ⟨transfer.status, transfer.headers, transfer.url, [emptyJson], none⟩

theorem received_zipped : Received zipPlatform zippedTransfer emptyJson (unzipped zippedTransfer) :=
  ⟨rfl, rfl, rfl, by decide, rfl, rfl⟩

theorem received_plain : Received zipPlatform plainTransfer emptyJson (unzipped plainTransfer) :=
  ⟨rfl, rfl, rfl, by decide, rfl, rfl⟩

theorem received_chunked : Received zipPlatform chunkedTransfer emptyJson (unzipped chunkedTransfer) :=
  ⟨rfl, rfl, rfl, by decide, rfl, rfl⟩

/-- A compressed document is within the bound and lost, though httpx had decoded it; one that comes
in a chunked transfer gains a header. -/
theorem zipped_lost : Received zipPlatform zippedTransfer emptyJson (unzipped zippedTransfer) ∧
    emptyJson.length ≤ defaultResponseBytes ∧
    boundedResponse zipPlatform (unzipped zippedTransfer) defaultResponseBytes = .error { kind := .httpError } ∧
    Received zipPlatform chunkedTransfer emptyJson (unzipped chunkedTransfer) ∧
    boundedResponse zipPlatform (unzipped chunkedTransfer) defaultResponseBytes =
      .ok ⟨200, [("Transfer-Encoding", "chunked"), ("Content-Length", "2")], emptyJson⟩ :=
  ⟨received_zipped, by decide, by rw [boundedResponse_received received_zipped]; rfl, received_chunked, by
    rw [boundedResponse_received received_chunked]
    rfl⟩

/-- The same document without a coding, and with its length, arrives. -/
theorem plain_kept :
    boundedResponse zipPlatform (unzipped plainTransfer) defaultResponseBytes =
      .ok ⟨200, [("Content-Length", "2")], emptyJson⟩ :=
  ((buffered_body (adapter 0).transport .ping [200] defaultResponseBytes 0 received_plain).1 (by decide)).1.mpr
    ⟨rfl, .inr (by decide)⟩

end Sample

end MeridianOci.Service
