import MeridianOci.Model.Binding

/-!
# Code outside the repository

Everything the adapter calls and this repository does not contain: SHA-256 and HMAC,
URL handling and content codings, and Object Common. The functions are arbitrary;
`Lawful` collects what the adapter relies on, and a result that needs none of it
does not assume it.

SHA-256 is idealised as an injective function. No injective digest has a fixed width,
so the repeat counts of the digest and tag grammars are parameters as well, `{64}` and
`{0,127}` in the source.
-/
namespace MeridianOci.Model

open MeridianOci.Data

set_option autoImplicit false

/-- `urlsplit`: the parts that are read. `port` is `none` where reading it raises. -/
structure SplitUrl where
  scheme : String
  hostname : Option String
  username : Option String
  port : Option (Option Nat)

abbrev Headers := List (String × String)

/-- Header names are compared in lower case. -/
def isNamed (field : String × String) (name : String) : Bool :=
  field.1.toList.map Char.toLower == name.toList

structure Platform where
  hexdigest : Bytes → String
  hmacSha256 : (key message : Bytes) → Bytes
  digestWidth : Nat → Bool
  tagWidth : Nat → Bool
  /-- `none` where `urljoin` or `urlsplit` raises `ValueError`. -/
  urljoin : (base location : String) → Option String
  urlsplit : String → Option SplitUrl
  /-- Whether `httpx` parses a URL; it raises `InvalidURL` otherwise. -/
  httpxUrl : String → Bool
  /-- `str(httpx.URL(url).copy_merge_params({"digest": digest}))`; `none` is `InvalidURL`. -/
  mergeDigest : (url digest : String) → Option String
  /-- What `json.loads` raises apart from its decoding errors: a number beyond the digit limit of
  `int`, or nesting beyond the recursion limit. -/
  jsonLimit : Bytes → Option Err
  isdigit : String → Bool
  /-- `int(value)` of a header value; `none` is a `ValueError`. -/
  int : String → Option Nat
  /-- Decoding by the `Content-Encoding` header; `none` is an `httpx.DecodingError`. -/
  decodeContent : Headers → Bytes → Option Bytes
  timestamp : Int → String
  /-- The checks of the `ObjectReference` and `MultipartSession` constructors. -/
  newMultipartSession : MultipartSession → Except Err Unit
  payloadReference : JsonObject → Except Err PayloadReference
  parseObjectReference : JsonObject → (requireDigest : Bool) → Except Err ObjectReference
  immutabilityFromMapping : JsonObject → Except Err ImmutabilityRequest
  immutabilityToDict : ImmutabilityRequest → JsonObject
  retentionFromMapping : JsonObject → Except Err RetentionRequest
  retentionToDict : RetentionRequest → JsonObject
  /-- The checks of the `ObjectMetadata` constructor, with the value it builds. -/
  newObjectMetadata : ObjectMetadata → Except Err ObjectMetadata
  metadataToDict : ObjectMetadata → JsonObject
  parseObjectMetadata : JsonObject → Except Err ObjectMetadata
  requireDeleteAllowed : RetentionRequest → (now : Int) → Except Err Unit
  capabilityFingerprint : OciDistributionBinding → String
  requireObjectCapabilities : OciDistributionBinding → List Json → Except Err Unit
  transition : PutState → PutState → Except Err PutState
  /-- `PutStateMachine.fail(physical_commit_possible=...)`. -/
  fail : PutState → Bool → Except Err PutState
  multipartCompletion : List MultipartPart → ContentIdentity → Except Err Unit
  ByteRange : Type
  byteRangeFromMapping : JsonObject → Except Err ByteRange
  resolveRange : ByteRange → Nat → Except Err ResolvedRange

/-- A mapping as `json` writes it and in key order, so that equal `dict`s are equal here. -/
def Normal (fields : JsonObject) : Prop :=
  Json.Writable (.obj fields) ∧ Json.sortFields fields = fields

/-- A value that the `ImmutabilityRequest` constructor accepts. -/
def ImmutabilityRequest.Valid (P : Platform) (request : ImmutabilityRequest) : Prop :=
  request = ⟨"immutable", false⟩ ∨ ∃ fields, P.immutabilityFromMapping fields = .ok request

def RetentionRequest.Valid (P : Platform) (request : RetentionRequest) : Prop :=
  ∃ fields, P.retentionFromMapping fields = .ok request

/-- A value that the `ObjectMetadata` constructor built. -/
def ObjectMetadata.Valid (P : Platform) (metadata : ObjectMetadata) : Prop :=
  ∃ fields, P.newObjectMetadata fields = .ok metadata

/-- The documented behaviour that the adapter relies on. -/
structure Platform.Lawful (P : Platform) : Prop where
  hexdigest_injective : Function.Injective P.hexdigest
  hexdigest_chars : ∀ value, ∀ c ∈ (P.hexdigest value).toList, c.isDigit ∨ ('a' ≤ c ∧ c ≤ 'f')
  hexdigest_width : ∀ value, P.digestWidth (P.hexdigest value).toList.length = true
  hexdigest_length : ∀ value, 32 ≤ (P.hexdigest value).toList.length
  tagWidth_short : ∀ value, P.tagWidth (4 + (P.hexdigest value).toList.length) = true
  tagWidth_long : ∀ value, P.tagWidth (37 + (P.hexdigest value).toList.length) = true
  jsonLimit_dumps : ∀ ensureAscii value, Json.Writable value → P.jsonLimit (Json.dumps ensureAscii value) = none
  jsonLimit_nil : P.jsonLimit [] = none
  isdigit_toString : ∀ n : Nat, P.isdigit (toString n) = true
  int_toString : ∀ n : Nat, P.int (toString n) = some n
  decodeContent_identity : ∀ headers body, (∀ header ∈ headers,
    isNamed header "content-encoding" = false) → P.decodeContent headers body = some body
  metadata_fields : ∀ fields metadata, P.newObjectMetadata fields = .ok metadata →
    metadata.objectRef = fields.objectRef ∧ metadata.digest = fields.digest ∧
      metadata.byteLength = fields.byteLength ∧ metadata.mediaType = fields.mediaType ∧
      metadata.createdAt = fields.createdAt ∧ metadata.mutability = fields.mutability
  metadata_normal : ∀ metadata : ObjectMetadata, metadata.Valid P → Normal (P.metadataToDict metadata)
  metadata_parse : ∀ metadata : ObjectMetadata, metadata.Valid P →
    P.parseObjectMetadata (P.metadataToDict metadata) = .ok metadata
  immutability_normal : ∀ request : ImmutabilityRequest, request.Valid P →
    Normal (P.immutabilityToDict request)
  immutability_parse : ∀ request : ImmutabilityRequest, request.Valid P →
    P.immutabilityFromMapping (P.immutabilityToDict request) = .ok request
  retention_normal : ∀ request : RetentionRequest, request.Valid P →
    Normal (P.retentionToDict request)
  retention_parse : ∀ request : RetentionRequest, request.Valid P →
    P.retentionFromMapping (P.retentionToDict request) = .ok request
  requireDeleteAllowed_before : ∀ request limit now, request.retainUntil = some limit → now < limit →
    ∃ error, P.requireDeleteAllowed request now = .error error ∧ error.kind = .retentionDenied
  requireDeleteAllowed_after : ∀ request limit now, request.retainUntil = some limit → limit ≤ now →
    P.requireDeleteAllowed request now = .ok ()
  transition_uploading : P.transition .initial .uploading = .ok .uploading
  transition_verifying : P.transition .uploading .verifying = .ok .verifying
  transition_committed : P.transition .verifying .committed = .ok .committed

end MeridianOci.Model
