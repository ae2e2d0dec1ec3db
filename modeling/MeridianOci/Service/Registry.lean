import MeridianOci.Data.Table
import MeridianOci.Model.Client

/-!
# A conforming registry

The state of one OCI Distribution repository and its answer to every request the client
sends, as in the in-memory registry of the tests. Blobs and manifests are stored under
their own digest and an upload only under a URL that was issued. What a conforming
registry may still choose (page lengths, upload URLs, how a body is cut into chunks) is
a policy.
-/
namespace MeridianOci.Service

open MeridianOci.Data MeridianOci.Model

set_option autoImplicit false

/-- The choices of a registry, as the client with the given binding sees them. -/
structure Policy (P : Platform) (binding : OciDistributionBinding) where
  chunks : Bytes → List Bytes
  chunks_flatten : ∀ body, (chunks body).flatten = body
  responseUrl : Request → String
  responseUrl_safe : ∀ request, requireSafeResponseUrl P binding (responseUrl request) = .ok ()
  /-- The absolute URL of the `n`-th upload, and the `Location` that is answered for it. -/
  uploadUrl : Nat → String
  locationOf : String → String
  uploadUrl_injective : Function.Injective uploadUrl
  uploadUrl_build : ∀ n digest, (Target.upload (uploadUrl n) digest).build P = .ok ()
  location_uploadUrl : ∀ headers n, header headers "location" = some (locationOf (uploadUrl n)) →
    location P binding headers = .ok (uploadUrl n)
  /-- How many of the remaining tags a page of at most `limit` holds. -/
  pageLength : (limit : Nat) → (remaining : List String) → Nat
  pageLength_le : ∀ limit remaining, pageLength limit remaining ≤ limit

variable {P : Platform} {binding : OciDistributionBinding}

structure Registry (policy : Policy P binding) where
  blobs : Table Bytes
  manifests : Table Bytes
  tags : Table String
  uploads : Table Bytes
  issued : Nat
  blobs_addressed : ∀ digest body, blobs[digest]? = some body → sha256Digest P body = digest
  manifests_addressed : ∀ digest body, manifests[digest]? = some body → sha256Digest P body = digest
  tags_stored : ∀ (tag digest : String), tags[tag]? = some digest → (manifests[digest]?).isSome
  uploads_issued : ∀ url body, uploads[url]? = some body → ∃ n, n < issued ∧ url = policy.uploadUrl n

structure Reply where
  status : Nat
  headers : Headers
  body : Bytes

namespace Registry

variable {policy : Policy P binding}

/-- A repository without any content. -/
def empty (policy : Policy P binding) : Registry policy where
  blobs := ∅
  manifests := ∅
  tags := ∅
  uploads := ∅
  issued := 0
  blobs_addressed := by simp
  manifests_addressed := by simp
  tags_stored := by simp
  uploads_issued := by simp

def addBlob (registry : Registry policy) (body : Bytes) : Registry policy :=
  { registry with
    blobs := registry.blobs.insert (sha256Digest P body) body
    blobs_addressed := by
      intro digest found h
      rw [Table.get?_insert] at h
      split at h
      · rename_i heq
        rw [← heq, Option.some.inj h]
      · exact registry.blobs_addressed digest found h }

/-- Store a manifest and point a tag at it. -/
def putTag (registry : Registry policy) (tag : String) (body : Bytes) : Registry policy :=
  { registry with
    manifests := registry.manifests.insert (sha256Digest P body) body
    tags := registry.tags.insert tag (sha256Digest P body)
    manifests_addressed := by
      intro digest found h
      rw [Table.get?_insert] at h
      split at h
      · rename_i heq
        rw [← heq, Option.some.inj h]
      · exact registry.manifests_addressed digest found h
    tags_stored := by
      intro other digest h
      rw [Table.get?_insert]
      split
      · rfl
      · rename_i hne
        rw [Table.get?_insert] at h
        split at h
        · exact absurd (Option.some.inj h) hne
        · exact registry.tags_stored other digest h }

/-- Delete a manifest and every tag that points at it. -/
def deleteManifest (registry : Registry policy) (digest : String) : Registry policy :=
  { registry with
    manifests := registry.manifests.erase digest
    tags := registry.tags.filter fun _ tagged => decide (tagged ≠ digest)
    manifests_addressed := by
      intro other body h
      rw [Table.get?_erase] at h
      split at h
      · cases h
      · exact registry.manifests_addressed other body h
    tags_stored := by
      intro tag other h
      obtain ⟨htag, hne⟩ := Table.get?_filter.mp h
      rw [Table.get?_erase, if_neg (Ne.symm (of_decide_eq_true hne))]
      exact registry.tags_stored tag other htag }

def openUpload (registry : Registry policy) : Registry policy :=
  { registry with
    uploads := registry.uploads.insert (policy.uploadUrl registry.issued) []
    issued := registry.issued + 1
    uploads_issued := by
      intro url body h
      rw [Table.get?_insert] at h
      split at h
      · rename_i heq
        exact ⟨registry.issued, Nat.lt_succ_self _, heq.symm⟩
      · obtain ⟨n, hn, hurl⟩ := registry.uploads_issued url body h
        exact ⟨n, Nat.lt_succ_of_lt hn, hurl⟩ }

/-- Replace the content of an upload that exists. -/
def setUpload (registry : Registry policy) (url : String) (content : Bytes) : Registry policy :=
  if hissued : (registry.uploads[url]?).isSome then
    { registry with
      uploads := registry.uploads.insert url content
      uploads_issued := by
        intro other body h
        rw [Table.get?_insert] at h
        split at h
        · rename_i heq
          obtain ⟨old, hold⟩ := Option.isSome_iff_exists.mp hissued
          rw [← heq]
          exact registry.uploads_issued url old hold
        · exact registry.uploads_issued other body h }
  else registry

def dropUpload (registry : Registry policy) (url : String) : Registry policy :=
  { registry with
    uploads := registry.uploads.erase url
    uploads_issued := by
      intro other body h
      rw [Table.get?_erase] at h
      split at h
      · cases h
      · exact registry.uploads_issued other body h }

/-- The manifest that a tag points at. -/
def tagged (registry : Registry policy) (tag : String) : Option Bytes :=
  (registry.tags[tag]?).bind fun digest => registry.manifests[digest]?

/-- The digest a manifest reference selects. -/
def select (registry : Registry policy) (reference : String) : Option String :=
  if ['s', 'h', 'a', '2', '5', '6', ':'].isPrefixOf reference.toList then some reference
  else registry.tags[reference]?

/-- The manifest a reference resolves to. -/
def resolve (registry : Registry policy) (reference : String) : Option Bytes :=
  (registry.select reference).bind fun digest => registry.manifests[digest]?

/-- The tags after `last`, in lexical order. -/
def remainingTags (registry : Registry policy) (last : Option String) : List String :=
  match last with
  | none => registry.tags.keys
  | some last => registry.tags.keys.filter fun tag => decide (last < tag)

end Registry

/-! ## Answers -/

def errorReply (status : Nat) (code : String) : Reply where
  status := status
  headers := [("Content-Type", "application/json")]
  body := canonicalJson [("errors", .arr [.obj [("code", .str code), ("message", .str code)]])]

def unsupported : Reply := errorReply 405 "UNSUPPORTED"

variable {policy : Policy P binding}

def blobHeaders (digest : String) (length : Nat) : Headers :=
  [("Content-Length", toString length), ("Docker-Content-Digest", digest)]

def manifestHeaders (digest : String) (length : Nat) : Headers :=
  [("Content-Length", toString length), ("Content-Type", ociManifestMediaType),
    ("Docker-Content-Digest", digest)]

def uploadHeaders (policy : Policy P binding) (url : String) (received : Nat) : Headers :=
  ("Location", policy.locationOf url) :: ("Docker-Upload-UUID", url) ::
    if received = 0 then [] else [("Range", "0-" ++ toString (received - 1))]

def respondUpload (registry : Registry policy) (request : Request) (url : String)
    (digest : Option String) : Reply × Registry policy :=
  match registry.uploads[url]? with
  | none => (errorReply 404 "BLOB_UPLOAD_UNKNOWN", registry)
  | some received =>
    match request.method with
    | .patch =>
      if request.contentRange = some (received.length, received.length + request.content.length - 1) then
        let content := received ++ request.content
        (⟨202, uploadHeaders policy url content.length, []⟩, registry.setUpload url content)
      else (errorReply 416 "BLOB_UPLOAD_INVALID", registry)
    | .put =>
      let content := received ++ request.content
      if digest = some (sha256Digest P content) then
        (⟨201, [("Docker-Content-Digest", sha256Digest P content)], []⟩,
          (registry.addBlob content).dropUpload url)
      else (errorReply 400 "DIGEST_INVALID", registry.setUpload url content)
    | .get => (⟨204, uploadHeaders policy url received.length, []⟩, registry)
    | .delete => (⟨204, [], []⟩, registry.dropUpload url)
    | _ => (unsupported, registry)

def respondBlob (registry : Registry policy) (request : Request) (digest : String) : Reply :=
  match registry.blobs[digest]? with
  | none => errorReply 404 "BLOB_UNKNOWN"
  | some body =>
    match request.method with
    | .head => ⟨200, blobHeaders digest body.length, []⟩
    | .get =>
      match request.range with
      | none => ⟨200, blobHeaders digest body.length, body⟩
      | some (start, finish) =>
        if finish < start ∨ body.length ≤ finish then errorReply 416 "RANGE_INVALID"
        else
          let selected := (body.drop start).take (finish + 1 - start)
          ⟨206, ("Content-Range", "bytes " ++ toString start ++ "-" ++ toString finish ++ "/" ++
            toString body.length) :: blobHeaders digest selected.length, selected⟩
    | _ => unsupported

def respondManifest (registry : Registry policy) (request : Request) (reference : String) :
    Reply × Registry policy :=
  match request.method with
  | .put =>
    (⟨201, [("Docker-Content-Digest", sha256Digest P request.content)], []⟩,
      registry.putTag reference request.content)
  | _ =>
    match registry.select reference, registry.resolve reference with
    | some digest, some body =>
      match request.method with
      | .delete => (⟨202, [], []⟩, registry.deleteManifest digest)
      | .head => (⟨200, manifestHeaders digest body.length, []⟩, registry)
      | .get => (⟨200, manifestHeaders digest body.length, body⟩, registry)
      | _ => (unsupported, registry)
    | _, _ => (errorReply 404 "MANIFEST_UNKNOWN", registry)

def respondTags (registry : Registry policy) (limit : Nat) (last : Option String) : Reply :=
  let remaining := registry.remainingTags last
  let page := remaining.take (policy.pageLength limit remaining)
  ⟨200, if page.length < remaining.length then [("Link", "<tags>; rel=\"next\"")] else [],
    canonicalJson [("tags", .arr (page.map .str))]⟩

/-- The descriptor of a manifest in the index of a subject and an artifact type. -/
def referrer (subjectDigest artifactType digest : String) (body : Bytes) : Option Json :=
  match Json.loads body with
  | some (.obj value) =>
    match Json.get? value "subject" with
    | some (.obj subject) =>
      match Json.get? subject "digest", Json.get? value "artifactType" with
      | some (.str subjectDigest'), some (.str artifactType') =>
        if subjectDigest' = subjectDigest ∧ artifactType' = artifactType then
          some (.obj [("mediaType", .str ociManifestMediaType), ("digest", .str digest), ("size", .int body.length)])
        else none
      | _, _ => none
    | _ => none
  | _ => none

def respondReferrers (registry : Registry policy) (subjectDigest artifactType : String) : Reply :=
  let descriptors := registry.manifests.keys.filterMap fun digest =>
    (registry.manifests[digest]?).bind (referrer subjectDigest artifactType digest)
  ⟨200, [("Content-Type", "application/vnd.oci.image.index.v1+json")],
    canonicalJson [("schemaVersion", .int 2), ("mediaType", .str "application/vnd.oci.image.index.v1+json"),
      ("manifests", .arr descriptors)]⟩

/-- The answer to a request and the state it leaves. -/
def respond (registry : Registry policy) (request : Request) : Reply × Registry policy :=
  match request.target with
  | .base =>
    if request.method = .get then (⟨200, [("Docker-Distribution-Api-Version", "registry/2.0")], []⟩, registry)
    else (unsupported, registry)
  | .uploads =>
    if request.method = .post then
      (⟨202, uploadHeaders policy (policy.uploadUrl registry.issued) 0, []⟩, registry.openUpload)
    else (unsupported, registry)
  | .upload url digest => respondUpload registry request url digest
  | .blob digest => (respondBlob registry request digest, registry)
  | .manifest reference => respondManifest registry request reference
  | .tags limit last =>
    if request.method = .get then (respondTags registry limit last, registry) else (unsupported, registry)
  | .referrers subjectDigest artifactType =>
    if request.method = .get then (respondReferrers registry subjectDigest artifactType, registry)
    else (unsupported, registry)

/-- A reply as the client receives it. -/
def deliver (policy : Policy P binding) (request : Request) (reply : Reply) : Response :=
  ⟨reply.status, reply.headers, policy.responseUrl request, policy.chunks reply.body, none⟩

end MeridianOci.Service
