import MeridianOci.Model.Client

/-!
# The data-plane adapter

`adapter.py`: put, get, stat, range read, list and delete over the registry client. An
upload that is abandoned is aborted best effort; the version manifest is published
before the latest tag is moved, and both only after everything they refer to.
-/
namespace MeridianOci.Model

open MeridianOci.Data MeridianOci.Effect

set_option autoImplicit false

structure ResolvedObject (P : Platform) where
  stored : StoredObject
  manifest : ManifestDocument P
  payload : OciDescriptor P

variable (P : Platform)

/-- The payload of a put. -/
def payloadOf (value : PutInput) : Except Err PayloadReference :=
  match value.payload with
  | .obj fields => P.payloadReference fields
  | _ => .error (.of .objectInvalidRequest "put payload must be a serialized PayloadReference")

/-- The range of a range read. -/
def byteRangeOf (range : Json) : Except Err P.ByteRange :=
  match range with
  | .obj fields => P.byteRangeFromMapping fields
  | _ => .error (.of .objectInvalidRequest "read_range requires a serialized ByteRange")

/-- The immutability request of a put, with its default. -/
def immutabilityOf (value : PutInput) : Except Err ImmutabilityRequest :=
  match value.immutability with
  | none => .ok ⟨"immutable", false⟩
  | some fields => P.immutabilityFromMapping fields

def retentionOf (value : PutInput) : Except Err (Option RetentionRequest) :=
  match value.retention with
  | none => .ok none
  | some fields => (P.retentionFromMapping fields).map some

/-- `require_delete_permitted`. -/
def requireDeletePermitted (retention : Option RetentionRequest) (now : Int) : Except Err Unit :=
  match retention with
  | none => .ok ()
  | some request =>
    match request.retainUntil with
    | none =>
      .error (.of .retentionDenied "logical retention policy requires an external release decision")
    | some _ => P.requireDeleteAllowed request now

def verifyIdentity (payload : PayloadReference) (identity : ContentIdentity) : Except Err Unit :=
  if payload.expectedLength.getD identity.byteLength ≠ identity.byteLength then
    .error { kind := .incompleteUpload }
  else if payload.expectedDigest.getD identity.digest ≠ identity.digest then
    .error { kind := .digestMismatch }
  else .ok ()

/-- `except Exception`: a put that was uploading or verifying is marked as failed. -/
def failing {α : Type} (machine : PutState) (physicalCommit : Bool) (action : Action α) : Action α :=
  tryCatch action fun error => do
    if machine = .uploading ∨ machine = .verifying then
      let _ ← Action.lift (P.fail machine physicalCommit)
      throw error
    else throw error

namespace OciDistributionAdapter

variable (adapter : OciDistributionAdapter)

def validateOperation (operation : Operation) : Except Err String :=
  if operation.catalog ≠ "object" ∨
      !"meridian.object.".toList.isPrefixOf operation.operationContract.toList then
    .error (.of .objectInvalidRequest "Operation is not an Object Catalog Operation")
  else if operation.operationVersion ≠ operationVersion then
    .error (.of .objectCapabilityMismatch
      "OCI Distribution Adapter supports Object Operation version 1.0.0 only")
  else if operation.resources ≠ [adapter.binding.resourceRef] then
    .error (.of .objectInvalidRequest "Operation Resource does not match the private binding")
  else if operation.operationContract ∉ availableOperationContracts adapter.binding then
    .error { kind := .objectCapabilityMismatch
             message := some "Object Operation is unavailable in the configured OCI binding"
             operationContract := some operation.operationContract }
  else
    .ok (String.ofList (operation.operationContract.toList.reverse.takeWhile (· ≠ '.')).reverse)

/-- `_now`. -/
def now : Action Int := do
  match ← Action.clock with
  | .aware instant => return instant
  | .naive _ => throw (.of .valueError "adapter clock must return a timezone-aware datetime")

def requireCreateAvailable (objectId : String) (immutability : ImmutabilityRequest)
    (createOnly : Bool) : Action Unit :=
  if !createOnly then return ()
  else do
    let reference ← Action.lift
      (if immutability.publishOnce then anchorTag P objectId else latestTag P objectId)
    if ← adapter.transport.manifestExists P reference then
      throw (.of (if immutability.publishOnce then .immutableObjectConflict else .conditionalConflict)
        "logical Object id was already published")
    else return ()

/-! ## Upload -/

/-- Abort the upload, if there is one, and raise. -/
def abandon {α : Type} (upload : Option UploadLocation) (error : Err) : Action α :=
  match upload with
  | none => throw error
  | some upload => do
    adapter.transport.abortSafely P upload
    throw error

def orAbandon {α : Type} (upload : Option UploadLocation) (action : Action α) : Action α :=
  tryCatch action (adapter.abandon P upload)

/-- The chunk loop of `_upload_payload`: the upload, what was hashed and its length. -/
def sendChunks (payload : PayloadReference) : List Bytes → Option UploadLocation → Bytes → Nat →
    Action (Option UploadLocation × Bytes × Nat)
  | [], upload, hashed, length => return (upload, hashed, length)
  | chunk :: rest, upload, hashed, length =>
    let length := length + chunk.length
    if adapter.binding.maxObjectBytes < length then
      adapter.abandon P upload (.of .objectInvalidRequest "Object exceeds the configured size limit")
    else if payload.expectedLength.getD length < length then
      adapter.abandon P upload (.of .incompleteUpload "payload exceeded its declared length")
    else
      match upload with
      | none => sendChunks payload rest none (hashed ++ chunk) length
      | some location => do
        let next ← adapter.orAbandon P upload (adapter.transport.patchUpload P location chunk)
        sendChunks payload rest (some next) (hashed ++ chunk) length

/-- The `try` block of one upload attempt, once its upload is open. -/
def transferTo (payload : PayloadReference) (existing : Option (OciDescriptor P))
    (upload : Option UploadLocation) : Action ContentIdentity := do
  let stream ← adapter.orAbandon P upload (Action.openPayload payload adapter.binding.chunkSize)
  let (upload, hashed, length) ← adapter.sendChunks P payload stream.chunks upload [] 0
  match stream.failure with
  | some failure => adapter.abandon P upload failure
  | none => do
    let identity : ContentIdentity := ⟨sha256Digest P hashed, length⟩
    adapter.orAbandon P upload (Action.lift (verifyIdentity payload identity))
    match existing, upload with
    | some existing, _ =>
      if existing.size ≠ identity.byteLength then
        adapter.abandon P upload
          (.of .digestMismatch "existing registry blob length does not match payload")
      else return identity
    | none, some location => do
      let _ ← adapter.orAbandon P upload (adapter.transport.finishUpload P location identity.digest)
      return identity
    | none, none => throw { kind := .other, message := some "AssertionError" }

/-- The `try` block of one upload attempt. -/
def transfer (payload : PayloadReference) (existing : Option (OciDescriptor P)) :
    Action ContentIdentity :=
  match existing with
  | some existing => adapter.transferTo P payload (some existing) none
  | none => do
    let upload ← adapter.transport.startUpload P
    adapter.transferTo P payload none (some upload)

/-- One turn of the loop over attempts, with the number of attempts left. -/
def uploadAttempt (payload : PayloadReference) : Nat → Action ContentIdentity
  | 0 => throw { kind := .other, message := some "unreachable upload retry state" }
  | left + 1 => do
    let existing ←
      match payload.expectedDigest with
      | none => pure none
      | some digest => adapter.transport.headBlob P digest
    (adapter.transfer P payload existing).handle fun
      | .ok identity => return identity
      | .error error =>
        if (error.kind = .objectUnavailable ∨ error.kind = .objectRateLimited) ∧ 0 < left then
          uploadAttempt payload left
        else throw error

def uploadPayload (payload : PayloadReference) : Action ContentIdentity :=
  adapter.uploadAttempt P payload (if payload.replayable then 2 else 1)

/-! ## Resolution -/

def storedFromManifest (document : ManifestDocument P) : Action (ResolvedObject P) := do
  let (config, payload, _) ←
    match manifestDescriptors document with
    | .ok descriptors => pure descriptors
    | .error error =>
      if error.isTypeOrValue then
        throw (.of .digestMismatch "registry returned an invalid Meridian Object manifest")
      else throw error
  let configBytes ← adapter.transport.getBlobBytes P config adapter.binding.maxMetadataBytes
  let stored ←
    match StoredObject.fromBytes P configBytes adapter.binding.maxMetadataBytes with
    | .ok stored => pure stored
    | .error error =>
      if error.isTypeOrValue then
        throw (.of .digestMismatch "registry returned invalid Meridian Object metadata")
      else throw error
  if stored.metadata.digest ≠ payload.digest ∨ stored.metadata.byteLength ≠ payload.size ∨
      stored.metadata.mediaType ≠ payload.mediaType then
    throw (.of .digestMismatch "OCI manifest payload descriptor does not match Object metadata")
  else return ⟨stored, document, payload⟩

/-- The tag a reference is looked up under: the latest one, or the exact one of its digest. -/
def referenceTag (reference : ObjectReference) : Except Err String :=
  match reference.digest with
  | none => latestTag P reference.objectId
  | some digest => versionTag P reference.objectId digest

def storedForReference (reference : ObjectReference) : Action (ResolvedObject P) := do
  let tag ← Action.lift (referenceTag P reference)
  let document ← adapter.transport.getManifest P tag
  let resolved ← adapter.storedFromManifest P document
  let metadata := resolved.stored.metadata
  if metadata.objectRef.resourceRef ≠ adapter.semanticResource then throw { kind := .objectNotFound }
  else if metadata.objectRef.objectId ≠ reference.objectId then throw { kind := .objectNotFound }
  else if reference.digest.getD metadata.digest ≠ metadata.digest then
    throw { kind := .objectNotFound }
  else
    let anchorReference ← Action.lift (anchorTag P reference.objectId)
    let anchor ← adapter.transport.getManifest P anchorReference
    let (_, _, subject) ← Action.lift (manifestDescriptors resolved.manifest)
    if subject.digest ≠ anchor.digest then
      throw (.of .digestMismatch "Object manifest subject does not match its logical anchor")
    else return resolved

/-! ## Commit -/

/-- Whether a manifest is the anchor with the given object id hash. -/
def isAnchorOf (value : JsonObject) (expectedHash : String) : Bool :=
  match Json.get? value "artifactType", Json.get? value "annotations" with
  | some (.str artifactType), some (.obj annotations) =>
    artifactType = meridianObjectAnchorType &&
      (match Json.get? annotations "org.meridian.object.anchor" with
        | some (.str hash) => hash = expectedHash
        | _ => false)
  | _, _ => false

def ensureAnchor (objectId : String) : Action (OciDescriptor P) := do
  let tag ← Action.lift (anchorTag P objectId)
  let expectedHash := objectIdHash P objectId
  if ← adapter.transport.manifestExists P tag then
    let document ← adapter.transport.getManifest P tag
    if !isAnchorOf document.value expectedHash then
      throw (.of .conditionalConflict "logical Object anchor is incompatible")
    else
      Action.lift (OciDescriptor.new P ociManifestMediaType document.digest document.body.length)
  else
    let _ ← adapter.transport.uploadBlobBytes P emptyJson ociEmptyMediaType
    adapter.transport.putManifest P tag (buildAnchorManifest P expectedHash)

/-- The provenance that the adapter adds. -/
def adapterProvenance : JsonObject :=
  [("adapterId", .str adapterId),
    ("capabilityFingerprint", .str (P.capabilityFingerprint adapter.binding)),
    ("engineProfile", .str "oci-distribution"),
    ("engineVersion", .str "1.1.1"),
    ("distributionSpec", .str "1.1.1"),
    ("registryReleaseObservation", .str "unavailable")] ++
  (match adapter.binding.registryRelease with
    | none => []
    | some release => [("selectedRegistryRelease", .str release)]) ++
  (match adapter.binding.registryImage with
    | none => []
    | some image => [("selectedRegistryImage", .str image)])

/-- The provenance of the object, unless the request's is malformed or reserved. -/
def provenanceOf (value : Json) : Except Err JsonObject :=
  match value with
  | .obj provenance =>
    if (Json.get? provenance "meridianAdapter").isSome then
      .error (.of .objectInvalidRequest "meridianAdapter is a reserved provenance field")
    else .ok (Json.set provenance "meridianAdapter" (.obj (adapter.adapterProvenance P)))
  | _ => .error (.of .objectInvalidRequest "Object provenance must be a mapping")

/-- The arguments of the `ObjectMetadata` constructor. -/
def metadataFields (value : PutInput) (identity : ContentIdentity)
    (immutability : ImmutabilityRequest) (provenance : JsonObject) (createdAt : Int) :
    ObjectMetadata where
  objectRef := ⟨adapter.semanticResource, value.objectId, some identity.digest⟩
  digest := identity.digest
  byteLength := identity.byteLength
  mediaType := value.mediaType
  createdAt := P.timestamp createdAt
  creationContext := value.creationContext
  userMetadata := value.userMetadata
  mutability := immutability.mutability
  provenance

/-- The branch of `_commit_object` that finds the exact version present. -/
def commitExisting (objectId : String) (identity : ContentIdentity)
    (immutability : ImmutabilityRequest) (createOnly : Bool) : Action ObjectMetadata :=
  if createOnly then
    throw (.of (if immutability.publishOnce then .immutableObjectConflict else .conditionalConflict)
      "exact Object version was already published")
  else do
    let existing ← adapter.storedForReference P
      ⟨adapter.semanticResource, objectId, some identity.digest⟩
    let latest ← Action.lift (latestTag P objectId)
    let _ ← adapter.transport.putManifest P latest existing.manifest.body
    return existing.stored.metadata

/-- Publish a stored object under its exact tag and make it the latest. -/
def publishVersion (objectId : String) (identity : ContentIdentity) (anchor : OciDescriptor P)
    (stored : StoredObject) (exactTag : String) : Action ObjectMetadata := do
  let metadata := stored.metadata
  let configBytes := stored.toBytes P
  if adapter.binding.maxMetadataBytes < configBytes.length then
    throw (.of .objectInvalidRequest "serialized Object metadata exceeds the configured limit")
  else
    let config ← adapter.transport.uploadBlobBytes P configBytes meridianObjectConfigMediaType
    let payload ← Action.lift
      (OciDescriptor.new P metadata.mediaType identity.digest identity.byteLength)
    let manifest := buildObjectManifest anchor config payload (objectIdHash P objectId)
      metadata.createdAt metadata.mutability
    let _ ← adapter.transport.putManifest P exactTag manifest
    let latest ← Action.lift (latestTag P objectId)
    let _ ← adapter.transport.putManifest P latest manifest
    return metadata

/-- The branch of `_commit_object` that publishes a new version. -/
def commitFresh (value : PutInput) (identity : ContentIdentity) (immutability : ImmutabilityRequest)
    (retention : Option RetentionRequest) (exactTag : String) : Action ObjectMetadata := do
  let anchor ← adapter.ensureAnchor P value.objectId
  let provenance ← Action.lift (adapter.provenanceOf P value.provenance)
  let createdAt ← now
  let metadata ← Action.lift (P.newObjectMetadata
    (adapter.metadataFields P value identity immutability provenance createdAt))
  adapter.publishVersion P value.objectId identity anchor ⟨metadata, immutability, retention⟩ exactTag

def commitObject (value : PutInput) (identity : ContentIdentity) (immutability : ImmutabilityRequest)
    (retention : Option RetentionRequest) (createOnly : Bool) : Action ObjectMetadata := do
  adapter.requireCreateAvailable P value.objectId immutability createOnly
  let exactTag ← Action.lift (versionTag P value.objectId identity.digest)
  if ← adapter.transport.manifestExists P exactTag then
    adapter.commitExisting P value.objectId identity immutability createOnly
  else adapter.commitFresh P value identity immutability retention exactTag

/-! ## Operations -/

def put (value : PutInput) : Action Result := do
  let payload ← Action.lift (payloadOf P value)
  let immutability ← Action.lift (immutabilityOf P value)
  let retention ← Action.lift (retentionOf P value)
  let createOnly := value.createOnly || immutability.publishOnce
  Action.locked do
    adapter.requireCreateAvailable P value.objectId immutability createOnly
    let machine ← Action.lift (P.transition .initial .uploading)
    let identity ← failing P machine false (adapter.uploadPayload P payload)
    let machine ← failing P machine true (Action.lift (P.transition machine .verifying))
    let result ← failing P machine true
      (adapter.commitObject P value identity immutability retention createOnly)
    let _ ← failing P machine true (Action.lift (P.transition machine .committed))
    return .put result

def reference (raw : Json) (requireDigest : Bool) : Except Err ObjectReference :=
  match raw with
  | .obj fields =>
    match P.parseObjectReference fields requireDigest with
    | .error error =>
      if error.isTypeOrValue then
        .error (.of .objectInvalidRequest ("invalid Object reference: " ++ error.message.getD ""))
      else .error error
    | .ok reference =>
      if reference.resourceRef ≠ adapter.semanticResource then
        .error (.of .objectInvalidRequest "Object reference does not match the private binding")
      else .ok reference
  | _ => .error (.of .objectInvalidRequest "Object reference must be a mapping")

def get (raw : Json) : Action Result := do
  let reference ← Action.lift (adapter.reference P raw false)
  let resolved ← adapter.storedForReference P reference
  let payload ← Action.register ⟨resolved.payload.digest, none⟩ resolved.payload.size
    (some resolved.payload.digest)
  return .get resolved.stored.metadata payload

def stat (raw : Json) : Action Result := do
  let reference ← Action.lift (adapter.reference P raw false)
  let resolved ← adapter.storedForReference P reference
  return .stat resolved.stored.metadata

def readRange (raw range : Json) : Action Result := do
  let reference ← Action.lift (adapter.reference P raw false)
  let byteRange ← Action.lift (byteRangeOf P range)
  let resolved ← adapter.storedForReference P reference
  let selected ← Action.lift (P.resolveRange byteRange resolved.payload.size)
  if adapter.binding.maxRangeBytes < selected.length then
    throw (.of .objectCapabilityMismatch "requested range exceeds the OCI binding limit")
  else
    let payload ← Action.register ⟨resolved.payload.digest, some (selected.start, selected.end)⟩
      selected.length none
    return .readRange resolved.stored.metadata payload selected

/-- The tag loop of `_list`: the items, the last tag looked at, and whether it stopped early. -/
def scanTags (prefixText : String) (limit : Nat) : List String → List ObjectMetadata → Option String →
    Action (List ObjectMetadata × Option String × Bool)
  | [], items, scanned => return (items, scanned, false)
  | tag :: rest, items, _ =>
    if !versionTagPrefix.toList.isPrefixOf tag.toList then scanTags prefixText limit rest items (some tag)
    else do
      let document ← adapter.transport.getManifest P tag
      let resolved ← adapter.storedFromManifest P document
      let metadata := resolved.stored.metadata
      let items := if prefixText.toList.isPrefixOf metadata.objectRef.objectId.toList then
        items ++ [metadata] else items
      if items.length = limit then return (items, some tag, true)
      else scanTags prefixText limit rest items (some tag)

def list (prefixText : String) (limit : Nat) (cursor : Option String) : Action Result := do
  let last ← Action.lift
    (match cursor with
      | none => .ok none
      | some cursor => (CursorCodec.decode P adapter.binding.cursorSigningKey cursor).map some)
  let page ← adapter.transport.listTags P adapter.binding.maxScanTags last
  let (items, scanned, stoppedEarly) ← adapter.scanTags P prefixText limit page.tags [] none
  match scanned with
  | some scanned =>
    if stoppedEarly || page.hasMore then
      return .list items (some (CursorCodec.encode P adapter.binding.cursorSigningKey scanned))
    else return .list items none
  | none => return .list items none

def delete (raw : Json) : Action Result := do
  let reference ← Action.lift (adapter.reference P raw true)
  Action.locked do
    let resolved ← adapter.storedForReference P reference
    let now ← now
    Action.lift (requireDeletePermitted P resolved.stored.retention now)
    if ← adapter.transport.deleteManifest P resolved.manifest.digest then return .delete
    else throw { kind := .objectNotFound }

def execute (operation : Operation) : Action Result := do
  let method ← Action.lift (adapter.validateOperation operation)
  Action.lift (P.requireObjectCapabilities adapter.binding operation.requirements)
  match operation.input with
  | .put value => if method = "put" then adapter.put P value else throw { kind := .other }
  | .get raw => if method = "get" then adapter.get P raw else throw { kind := .other }
  | .stat raw => if method = "stat" then adapter.stat P raw else throw { kind := .other }
  | .readRange raw range =>
    if method = "read_range" then adapter.readRange P raw range else throw { kind := .other }
  | .list prefixText limit cursor =>
    if method = "list" then adapter.list P prefixText limit cursor else throw { kind := .other }
  | .delete raw => if method = "delete" then adapter.delete P raw else throw { kind := .other }

end OciDistributionAdapter

end MeridianOci.Model
