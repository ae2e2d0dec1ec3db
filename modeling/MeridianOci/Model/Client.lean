import MeridianOci.Model.Signature

/-!
# The registry client

`transport/client.py`: one physical repository behind bounded retries. A request that
may be repeated is sent up to `maxReadAttempts` times; only the last outcome decides.
-/
namespace MeridianOci.Model

open MeridianOci.Data MeridianOci.Effect

set_option autoImplicit false

def retriableStatus : List Nat := [408, 425, 500, 502, 503, 504]

def defaultResponseBytes : Nat := 64 * 1024

/-- A response whose body was read within its bound. -/
structure BoundedResponse where
  status : Nat
  headers : Headers
  content : Bytes

/-- `headers.get(name)`, which joins repeated headers. -/
def header (headers : Headers) (name : String) : Option String :=
  match headers.filter (isNamed · name) with
  | [] => none
  | found => some (", ".intercalate (found.map (·.2)))

/-- The code in an error body. -/
def errorCode : Option Json → String
  | some (.obj value) =>
    match Json.get? value "errors" with
    | some (.arr (.obj first :: _)) =>
      match Json.get? first "code" with
      | some (.str code) => code
      | _ => "HTTP_ERROR"
    | _ => "HTTP_ERROR"
  | _ => "HTTP_ERROR"

/-- The error for a status and a provider code. -/
def statusError (status : Nat) (code : String) : Err :=
  let provenance := some ⟨code, status⟩
  if status = 401 ∨ code = "UNAUTHORIZED" then { kind := .objectAuthenticationFailed, provenance }
  else if status = 403 ∨ code = "DENIED" then { kind := .objectAuthorizationFailed, provenance }
  else if status = 404 ∨ code = "BLOB_UNKNOWN" ∨ code = "MANIFEST_UNKNOWN" ∨ code = "NAME_UNKNOWN" then
    { kind := .objectNotFound, provenance }
  else if status = 409 then { kind := .conditionalConflict, provenance }
  else if status = 416 then { kind := .rangeNotSatisfiable, provenance }
  else if status = 429 ∨ code = "TOOMANYREQUESTS" then { kind := .objectRateLimited, provenance }
  else if status = 413 ∨ status = 507 then { kind := .objectQuotaExceeded, provenance }
  else if code = "DIGEST_INVALID" then { kind := .digestMismatch, provenance }
  else if code = "BLOB_UPLOAD_INVALID" ∨ code = "BLOB_UPLOAD_UNKNOWN" then
    { kind := .incompleteUpload, provenance }
  else if 400 ≤ status ∧ status < 500 then
    { kind := .objectInvalidRequest, message := some "OCI registry rejected the request", provenance }
  else { kind := .objectUnavailable, message := some "OCI registry is unavailable", provenance }

def providerCode (P : Platform) (response : BoundedResponse) : Except Err String := do
  return errorCode (← loadJson P response.content)

/-- The error that `_raise_response` raises, or what reading the code raises. -/
def responseError (P : Platform) (response : BoundedResponse) : Err :=
  match providerCode P response with
  | .error error => error
  | .ok code => statusError response.status code

/-- Read a body chunk by chunk up to the first chunk that exceeds the bound. -/
def readBounded (maximumBytes : Nat) : List Bytes → Bytes → Option Err → Except Err Bytes
  | [], body, none => .ok body
  | [], _, some failure => .error failure
  | chunk :: rest, body, failure =>
    if maximumBytes < (body ++ chunk).length then
      .error (.of .objectUnavailable "OCI registry response exceeded its configured bound")
    else readBounded maximumBytes rest (body ++ chunk) failure

def containsText (needle text : String) : Bool :=
  text.toList.tails.any fun tail => needle.toList.isPrefixOf tail

variable (P : Platform)

/-- The headers of a response that is built from a body: `httpx` adds the length of one that is not
empty where the headers given have none. -/
def withLength (headers : Headers) (body : Bytes) : Headers :=
  if body = [] ∨ (header headers "content-length").isSome then headers
  else headers ++ [("Content-Length", toString body.length)]

theorem lower_contentLength : "Content-Length".toList.map Char.toLower = "content-length".toList := by decide

@[simp] theorem withLength_nil (headers : Headers) : withLength headers [] = headers := if_pos (.inl rfl)

theorem withLength_of_isSome {headers : Headers} (h : (header headers "content-length").isSome = true)
    (body : Bytes) : withLength headers body = headers := if_pos (.inr h)

theorem withLength_eq_iff {headers : Headers} {body : Bytes} :
    withLength headers body = headers ↔ body = [] ∨ (header headers "content-length").isSome = true := by
  unfold withLength
  split
  · rename_i h
    exact iff_of_true rfl h
  · rename_i h
    exact iff_of_false (by simp) h

/-- Every other header is the one received. -/
@[simp] theorem header_withLength (headers : Headers) (body : Bytes) {name : String} (hne : name ≠ "content-length") :
    header (withLength headers body) name = header headers name := by
  unfold withLength
  split
  · rfl
  · have hother : isNamed ("Content-Length", toString body.length) name = false := by
      refine beq_eq_false_iff_ne.mpr fun h => hne ?_
      rw [String.ext_iff, ← h]
      exact lower_contentLength
    rw [header, header, List.filter_append, List.filter_singleton, hother]
    simp

/-- `_bounded_response`: the body is wrapped again, which decodes it by its headers again. -/
def boundedResponse (response : Response) (maximumBytes : Nat) : Except Err BoundedResponse :=
  match readBounded maximumBytes response.chunks [] response.failure with
  | .error error => .error error
  | .ok body =>
    match P.decodeContent response.headers body with
    | none => .error { kind := .httpError }
    | some content => .ok ⟨response.status, withLength response.headers body, content⟩

def splitUrl (url : String) : Except Err SplitUrl :=
  match P.urlsplit url with
  | none => .error { kind := .valueError }
  | some parsed => .ok parsed

/-- `_origin`. -/
def origin (url : String) : Except Err (String × String × Nat) := do
  let parsed ← splitUrl P url
  match parsed.port with
  | none => .error { kind := .valueError }
  | some port =>
    let standard := if parsed.scheme = "https" then 443 else 80
    return (parsed.scheme, parsed.hostname.getD "", if port.getD 0 = 0 then standard else port.getD 0)

/-- `httpx.InvalidURL`. -/
def invalidUrl : Err := { kind := .other }

/-- What building a request for a URL raises: `_headers` reads its origin, then `httpx` parses it. -/
def buildUrl (url : String) : Except Err Unit := do
  let _ ← origin P url
  if P.httpxUrl url then .ok () else .error invalidUrl

/-- The same for a target. Every other URL is made of the endpoint, which the binding checked,
and of quoted names. -/
def Target.build : Target → Except Err Unit
  | .upload url none => buildUrl P url
  | .upload url (some digest) =>
    match P.mergeDigest url digest with
    | none => .error invalidUrl
    | some merged => buildUrl P merged
  | _ => .ok ()

/-- Whether a plain HTTP URL is on the bound origin and allowed there. -/
def allowedHttp (binding : OciDistributionBinding) (url : String) : Except Err Bool :=
  if binding.allowInsecureHttp then do
    return (← origin P url) = (← origin P binding.endpoint)
  else .ok false

def requireSafeResponseUrl (binding : OciDistributionBinding) (url : String) : Except Err Unit := do
  let parsed ← splitUrl P url
  let allowed ← allowedHttp P binding url
  if (parsed.scheme ≠ "http" ∧ parsed.scheme ≠ "https") ∨ parsed.hostname.getD "" = "" ∨
      parsed.username.isSome ∨ (parsed.scheme = "http" ∧ !allowed) then
    .error (.of .objectUnavailable "registry returned an insecure redirect")
  else .ok ()

/-- `_location`: the absolute URL of an upload. -/
def location (binding : OciDistributionBinding) (headers : Headers) : Except Err String :=
  match header headers "location" with
  | none => .error (.of .objectUnavailable "registry upload response omitted Location")
  | some value =>
    if value = "" then
      .error (.of .objectUnavailable "registry upload response omitted Location")
    else
      match P.urljoin (binding.endpoint ++ "/") value with
      | none => .error { kind := .valueError }
      | some resolved => do
        let parsed ← splitUrl P resolved
        if (parsed.scheme ≠ "http" ∧ parsed.scheme ≠ "https") ∨ parsed.hostname.getD "" = "" ∨
            parsed.username.getD "" ≠ "" then
          .error (.of .objectUnavailable "registry returned an invalid upload Location")
        else if parsed.scheme = "http" then do
          let allowed ← allowedHttp P binding resolved
          if allowed then .ok resolved
          else .error (.of .objectUnavailable "registry returned an insecure upload Location")
        else .ok resolved

def contentLength (headers : Headers) : Except Err Nat :=
  match header headers "content-length" with
  | none => .error (.of .objectUnavailable "registry response omitted a valid Content-Length")
  | some value =>
    if P.isdigit value then
      match P.int value with
      | none => .error { kind := .valueError }
      | some length => .ok length
    else .error (.of .objectUnavailable "registry response omitted a valid Content-Length")

/-! The requests of the client, one for each endpoint and method. -/

namespace Request

def ping : Request := { method := .get, target := .base }

def headBlob (digest : String) : Request := { method := .head, target := .blob digest }

def getBlob (digest : String) (range : Option (Nat × Nat)) : Request :=
  { method := .get, target := .blob digest, range }

def startUpload : Request := { method := .post, target := .uploads }

def patchUpload (url : String) (start finish : Nat) (chunk : Bytes) : Request :=
  { method := .patch, target := .upload url none, contentRange := some (start, finish),
    content := chunk }

/-- The digest PUT that finalises an upload, with the content it still adds. -/
def putUpload (url digest : String) (content : Bytes) : Request :=
  { method := .put, target := .upload url (some digest), content }

def deleteUpload (url : String) : Request := { method := .delete, target := .upload url none }

def getUpload (url : String) : Request := { method := .get, target := .upload url none }

def headManifest (reference : String) : Request := { method := .head, target := .manifest reference }

def getManifest (reference : String) : Request := { method := .get, target := .manifest reference }

def putManifest (reference : String) (body : Bytes) : Request :=
  { method := .put, target := .manifest reference, content := body }

def deleteManifest (reference : String) : Request :=
  { method := .delete, target := .manifest reference }

def listTags (limit : Nat) (last : Option String) : Request :=
  { method := .get, target := .tags limit last }

def getReferrers (subjectDigest artifactType : String) : Request :=
  { method := .get, target := .referrers subjectDigest artifactType }

end Request

/-- The names in a tag response; `none` where the response is invalid. -/
def tagNames (value : Json) : Option (List String) :=
  let tags : Json :=
    match value with
    | .obj fields => (Json.get? fields "tags").getD (.arr [])
    | _ => .arr []
  match tags with
  | .null => some []
  | .arr items => items.mapM fun item : Json =>
    match item with
    | .str name => some name
    | _ => none
  | _ => none

namespace RegistryHttpClient

variable (client : RegistryHttpClient)

/-- What becomes of one answer; `again` is the rest of the loop, with `left` attempts. -/
def judge (expected : List Nat) (maximumResponseBytes left : Nat) (again : Action BoundedResponse) :
    Except Err Response → Action BoundedResponse
  | .error error => if error.kind = .httpError then again else .raise error
  | .ok response =>
    match requireSafeResponseUrl P client.binding response.url with
    | .error error => .raise error
    | .ok () =>
      if response.status ∈ retriableStatus ∧ 0 < left then again
      else
        match boundedResponse P response maximumResponseBytes with
        | .error error =>
          if error.kind = .objectUnavailable then
            if response.status ∈ expected then .raise error
            else .raise (responseError P ⟨response.status, response.headers, []⟩)
          else if error.kind = .httpError then again
          else .raise error
        | .ok bounded =>
          if bounded.status ∈ expected then .ret bounded else .raise (responseError P bounded)

/-- The loop of `_request`, with the number of attempts left. -/
def attempt (request : Request) (expected : List Nat) (maximumResponseBytes : Nat) :
    Nat → Action BoundedResponse
  | 0 => .raise (.of .objectUnavailable "OCI registry request failed")
  | left + 1 =>
    .call (.send request) (client.judge P expected maximumResponseBytes left
      (attempt request expected maximumResponseBytes left))

/-- `_request`. A URL that no request can be built for raises before anything is sent. -/
def request (request : Request) (expected : List Nat) (retry : Bool)
    (maximumResponseBytes : Nat) : Action BoundedResponse :=
  match request.target.build P with
  | .error error => .raise error
  | .ok () =>
    client.attempt P request expected maximumResponseBytes (if retry then client.maxReadAttempts else 1)

/-- The version that `ping` reads; the map it returns also says `ok`. -/
def ping : Action String := do
  let response ← client.request P .ping [200] true defaultResponseBytes
  return (header response.headers "docker-distribution-api-version").getD "unknown"

def headBlob (digest : String) : Action (Option (OciDescriptor P)) := do
  let response ← client.request P (.headBlob digest) [200, 404] true
      defaultResponseBytes
  if response.status = 404 then return none
  else
    let size ← Action.lift (contentLength P response.headers)
    if (header response.headers "docker-content-digest").getD digest ≠ digest then
      throw (.of .digestMismatch "registry blob HEAD returned a different digest")
    else return some (← Action.lift (OciDescriptor.new P "application/octet-stream" digest size))

def startUpload : Action UploadLocation := do
  let response ← client.request P .startUpload [202] false
      defaultResponseBytes
  let url ← Action.lift (location P client.binding response.headers)
  let minimum ←
    match header response.headers "oci-chunk-min-length" with
    | none => pure none
    | some minimum =>
      if P.isdigit minimum then
        match P.int minimum with
        | none => throw { kind := .valueError }
        | some value => pure (some value)
      else pure none
  return ⟨url, header response.headers "docker-upload-uuid", minimum, 0⟩

def patchUpload (upload : UploadLocation) (chunk : Bytes) : Action UploadLocation :=
  if chunk = [] then throw (.of .valueError "an OCI upload chunk cannot be empty")
  else do
    let finish := upload.offset + chunk.length - 1
    let response ← client.request P (.patchUpload upload.url upload.offset finish chunk) [202] false
      defaultResponseBytes
    if (header response.headers "range").getD ("0-" ++ toString finish) ≠ "0-" ++ toString finish then
      throw (.of .incompleteUpload "registry acknowledged an unexpected upload range")
    else
      let url ← Action.lift (location P client.binding response.headers)
      let uuid := (header response.headers "docker-upload-uuid").or upload.uuid
      return ⟨url, uuid, upload.minimumChunkBytes, finish + 1⟩

def finishUpload (upload : UploadLocation) (digest : String) : Action (OciDescriptor P) := do
  let response ← client.request P (.putUpload upload.url digest []) [201] false
      defaultResponseBytes
  if (header response.headers "docker-content-digest").getD digest ≠ digest then
    throw (.of .digestMismatch "registry finalized the blob under a different digest")
  else Action.lift (OciDescriptor.new P "application/octet-stream" digest upload.offset)

def abortUpload (upload : UploadLocation) : Action Unit := do
  let _ ← client.request P (.deleteUpload upload.url) [204, 404] true
      defaultResponseBytes
  return ()

def uploadStatus (upload : UploadLocation) : Action UploadLocation := do
  let response ← client.request P (.getUpload upload.url) [204] true defaultResponseBytes
  let range := ((header response.headers "range").getD "").toList
  let offset ←
    if ['0', '-'].isPrefixOf range && P.isdigit (String.ofList (range.drop 2)) then
      match P.int (String.ofList (range.drop 2)) with
      | none => throw { kind := .valueError }
      | some last => pure (last + 1)
    else pure upload.offset
  let url ← Action.lift (location P client.binding response.headers)
  return ⟨url, (header response.headers "docker-upload-uuid").or upload.uuid, upload.minimumChunkBytes, offset⟩

/-- `_abort_safely`, of the client and of the adapter. -/
def abortSafely (upload : UploadLocation) : Action Unit := (client.abortUpload P upload).safely

def uploadBlobBytes (value : Bytes) (mediaType : String) : Action (OciDescriptor P) := do
  let digest := sha256Digest P value
  match ← client.headBlob P digest with
  | some existing =>
    if existing.size ≠ value.length then
      throw (.of .digestMismatch "existing registry blob size does not match its digest")
    else Action.lift (OciDescriptor.new P mediaType digest value.length)
  | none =>
    let upload ← client.startUpload P
    let transfer : Action Unit := do
      let response ← client.request P (.putUpload upload.url digest value) [201] false
        defaultResponseBytes
      if (header response.headers "docker-content-digest").getD digest ≠ digest then
        throw (.of .digestMismatch "registry stored a different blob digest")
    tryCatch transfer fun error => do
      client.abortSafely P upload
      throw error
    Action.lift (OciDescriptor.new P mediaType digest value.length)

def getBlobBytes (descriptor : OciDescriptor P) (maximumBytes : Nat) : Action Bytes :=
  if maximumBytes < descriptor.size then
    throw (.of .objectInvalidRequest "registry blob exceeds the configured metadata bound")
  else do
    let response ← client.request P (.getBlob descriptor.digest none) [200] true
      maximumBytes
    let body := response.content
    if maximumBytes < body.length ∨ body.length ≠ descriptor.size then
      throw (.of .digestMismatch "registry blob length does not match its descriptor")
    else if sha256Digest P body ≠ descriptor.digest then
      throw (.of .digestMismatch "registry blob content does not match its descriptor")
    else return body

/-- What `open_blob` makes of the answer. -/
def blobStream (source : RegistryBlobSource) : Except Err Response → Except Err Stream
  | .error error =>
    if error.kind = .httpError then .error (.of .objectUnavailable "OCI registry request failed")
    else .error error
  | .ok response => do
    requireSafeResponseUrl P client.binding response.url
    if response.status ≠ (if source.range.isSome then 206 else 200) then
      -- the error body is read without a bound
      match response.failure with
      | some failure => .error failure
      | none => .error (responseError P ⟨response.status, response.headers, response.chunks.flatten⟩)
    else if (header response.headers "docker-content-digest").getD source.digest ≠ source.digest then
      .error (.of .digestMismatch "registry blob response identified a different digest")
    else
      match source.range with
      | none => return ⟨response.chunks, response.failure⟩
      | some (start, finish) =>
        let expected := "bytes " ++ toString start ++ "-" ++ toString finish ++ "/"
        if expected.toList.isPrefixOf ((header response.headers "content-range").getD "").toList then
          return ⟨response.chunks, response.failure⟩
        else .error (.of .rangeNotSatisfiable "registry returned an unexpected byte range")

/-- `open_blob`, with the range it was given. Its `try` begins after the request is built. -/
def openBlob (source : RegistryBlobSource) : Action Stream := do
  Action.authorize
  .call (.send (.getBlob source.digest source.range)) fun answer =>
    Action.lift (client.blobStream P source answer)

def getManifest (reference : String) : Action (ManifestDocument P) := do
  let response ← client.request P (.getManifest reference) [200] true
    client.binding.maxManifestBytes
  let expectedDigest :=
    if ['s', 'h', 'a', '2', '5', '6', ':'].isPrefixOf reference.toList then some reference else none
  match ManifestDocument.parse P response.content expectedDigest client.binding.maxManifestBytes with
  | .error error =>
    if error.isTypeOrValue then
      throw (.of .digestMismatch "registry returned an invalid OCI manifest")
    else throw error
  | .ok document =>
    let contentType := ((header response.headers "content-type").getD "").toList.takeWhile (· ≠ ';')
    if (header response.headers "docker-content-digest").getD document.digest ≠ document.digest then
      throw (.of .digestMismatch "registry manifest response digest is invalid")
    else if contentType ≠ [] ∧ contentType ≠ document.mediaType.toList then
      throw (.of .digestMismatch "registry manifest Content-Type does not match its body")
    else return document

def manifestExists (reference : String) : Action Bool := do
  let response ← client.request P (.headManifest reference) [200, 404] true
      defaultResponseBytes
  return response.status = 200

def putManifest (reference : String) (body : Bytes) : Action (OciDescriptor P) := do
  let document ← Action.lift (ManifestDocument.parse P body none client.binding.maxManifestBytes)
  let response ← client.request P (.putManifest reference body) [201] false
      defaultResponseBytes
  if (header response.headers "docker-content-digest").getD document.digest ≠ document.digest then
    throw (.of .digestMismatch "registry stored a different manifest digest")
  else Action.lift (OciDescriptor.new P ociManifestMediaType document.digest body.length)

def deleteManifest (digest : String) : Action Bool := do
  let response ← client.request P (.deleteManifest digest) [202, 404] true
      defaultResponseBytes
  return response.status ≠ 404

def listTags (limit : Nat) (last : Option String) : Action TagPage := do
  let response ← client.request P (.listTags limit last) [200, 404] true
    (max defaultResponseBytes (limit * 192 + 1024))
  if response.status = 404 then return ⟨[], false⟩
  else
    match ← Action.lift (loadJson P response.content) with
    | none => throw (.of .objectUnavailable "registry tag response is not valid JSON")
    | some value =>
      match tagNames value with
      | none => throw (.of .objectUnavailable "registry tag response is invalid")
      | some names =>
        let next := containsText "rel=\"next\"" ((header response.headers "link").getD "")
        return ⟨names, next || decide (limit ≤ names.length)⟩

/-- The descriptors in a referrers response. -/
def referrersOf (value : Json) : Except Err (List (OciDescriptor P)) :=
  let manifests : Json :=
    match value with
    | .obj fields => (Json.get? fields "manifests").getD (.arr [])
    | _ => .arr []
  match manifests with
  | .arr items => items.mapM fun item : Json =>
    match item with
    | .obj fields =>
      match OciDescriptor.fromMapping P fields with
      | .error error =>
        if error.isTypeOrValue then .error (.of .objectUnavailable "registry referrers descriptor is invalid")
        else .error error
      | .ok descriptor => .ok descriptor
    | _ => .error (.of .objectUnavailable "registry referrers descriptor is invalid")
  | _ => .error (.of .objectUnavailable "registry referrers response is invalid")

def getReferrers (subjectDigest artifactType : String) : Action (List (OciDescriptor P)) := do
  let response ← client.request P (.getReferrers subjectDigest artifactType) [200, 404] true
    client.binding.maxManifestBytes
  if response.status = 404 then return []
  else
    match ← Action.lift (loadJson P response.content) with
    | none => throw (.of .objectUnavailable "registry referrers response is not valid JSON")
    | some value => Action.lift (referrersOf P value)

end RegistryHttpClient

end MeridianOci.Model
