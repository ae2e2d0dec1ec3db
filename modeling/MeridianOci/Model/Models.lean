import MeridianOci.Model.Naming

/-!
# Descriptors, manifests and stored metadata

`transport/models.py`. A descriptor and a parsed manifest carry what their constructors
checked. What the adapter writes is read back as the same descriptors and the same
stored object.
-/
namespace MeridianOci.Model

open MeridianOci.Data

set_option autoImplicit false

def ociManifestMediaType : String := "application/vnd.oci.image.manifest.v1+json"
def ociEmptyMediaType : String := "application/vnd.oci.empty.v1+json"
def meridianObjectArtifactType : String := "application/vnd.meridian.object.v1"
def meridianObjectAnchorType : String := "application/vnd.meridian.object.anchor.v1"
def meridianObjectConfigMediaType : String := "application/vnd.meridian.object.config.v1+json"
def storedMetadataFormat : String := "meridian.oci.stored-object.v1"

/-- `b"{}"`. -/
def emptyJson : Bytes := [123, 125]

def canonicalJson (value : JsonObject) : Bytes := Json.dumps false (.obj value)

/-- `json.loads`; `none` where it raises one of its decoding errors, which every caller catches. -/
def loadJson (P : Platform) (value : Bytes) : Except Err (Option Json) :=
  match P.jsonLimit value with
  | some error => .error error
  | none => .ok (Json.loads value)

def parseJsonObject (P : Platform) (value : Bytes) (label : String) : Except Err JsonObject := do
  match ← loadJson P value with
  | none => .error (.of .valueError (label ++ " is not valid UTF-8 JSON"))
  | some (.obj fields) => .ok fields
  | some _ => .error (.of .valueError (label ++ " must be a JSON object"))

structure OciDescriptor (P : Platform) where
  mediaType : String
  digest : String
  size : Nat
  mediaType_slash : mediaType.toList.contains '/' = true
  digest_valid : (matchDigest P digest).isSome = true

structure ManifestDocument (P : Platform) where
  body : Bytes
  digest : String
  mediaType : String
  value : JsonObject
  digest_eq : digest = sha256Digest P body
  mediaType_eq : mediaType = ociManifestMediaType
  value_eq : Json.loads body = some (.obj value)

structure StoredObject where
  metadata : ObjectMetadata
  immutability : ImmutabilityRequest
  retention : Option RetentionRequest

structure UploadLocation where
  url : String
  uuid : Option String
  minimumChunkBytes : Option Nat
  offset : Nat

structure TagPage where
  tags : List String
  hasMore : Bool

variable (P : Platform)

namespace OciDescriptor

/-- `OciDescriptor(media_type, digest, size)` with its checks. -/
def new (mediaType digest : String) (size : Nat) : Except Err (OciDescriptor P) :=
  if hmedia : mediaType.toList.contains '/' = true then
    if hdigest : (matchDigest P digest).isSome = true then
      .ok ⟨mediaType, digest, size, hmedia, hdigest⟩
    else .error (.of .valueError "OCI descriptor digest must be SHA-256")
  else .error (.of .valueError "OCI descriptor media type is invalid")

/-- The checks on a size that was read from JSON. -/
def sizeOf : Json → Except Err Nat
  | .int (.ofNat size) => .ok size
  | _ => .error (.of .valueError "OCI descriptor size must be a non-negative integer")

def fromMapping (value : JsonObject) : Except Err (OciDescriptor P) :=
  match Json.get? value "mediaType", Json.get? value "digest", Json.get? value "size" with
  | some mediaType, some digest, some size =>
    match mediaType with
    | .str mediaType =>
      if mediaType.toList.contains '/' then
        match digest with
        | .str digest =>
          if (matchDigest P digest).isSome then
            match sizeOf size with
            | .ok size => new P mediaType digest size
            | .error error => .error error
          else .error (.of .valueError "OCI descriptor digest must be SHA-256")
        -- `fullmatch` of something that is not a string
        | _ => .error { kind := .typeError }
      else .error (.of .valueError "OCI descriptor media type is invalid")
    | _ => .error (.of .valueError "OCI descriptor media type is invalid")
  | _, _, _ => .error (.of .valueError "OCI descriptor is missing required fields")

def dict (mediaType digest : String) (size : Nat) : JsonObject :=
  [("mediaType", .str mediaType), ("digest", .str digest), ("size", .int size)]

variable {P}

def toDict (descriptor : OciDescriptor P) : JsonObject :=
  dict descriptor.mediaType descriptor.digest descriptor.size

end OciDescriptor

/-- `EMPTY_DESCRIPTOR.to_dict()`. -/
def emptyDescriptorDict : JsonObject :=
  OciDescriptor.dict ociEmptyMediaType (sha256Digest P emptyJson) emptyJson.length

def ManifestDocument.parse (body : Bytes) (expectedDigest : Option String) (maximumBytes : Nat) :
    Except Err (ManifestDocument P) :=
  if maximumBytes < body.length then
    .error (.of .valueError "OCI manifest exceeds the configured size bound")
  else if expectedDigest ≠ none ∧ expectedDigest ≠ some (sha256Digest P body) then
    .error (.of .valueError "OCI manifest digest does not match")
  else
    match P.jsonLimit body with
    | some error => .error error
    | none =>
      match hvalue : Json.loads body with
      | some (.obj value) =>
        if ((Json.get? value "schemaVersion").map Json.isTwo).getD false then
          match Json.get? value "mediaType" with
          | some (.str mediaType) =>
            if hmedia : mediaType = ociManifestMediaType then
              .ok ⟨body, sha256Digest P body, mediaType, value, rfl, hmedia, hvalue⟩
            else .error (.of .valueError "OCI manifest mediaType is unsupported")
          | _ => .error (.of .valueError "OCI manifest mediaType is unsupported")
        else .error (.of .valueError "OCI manifest schemaVersion must be 2")
      | none => .error (.of .valueError "OCI manifest is not valid UTF-8 JSON")
      | some _ => .error (.of .valueError "OCI manifest must be a JSON object")

def anchorManifestFields (objectHash : String) : JsonObject :=
  [("schemaVersion", .int 2),
    ("mediaType", .str ociManifestMediaType),
    ("artifactType", .str meridianObjectAnchorType),
    ("config", .obj (emptyDescriptorDict P)),
    ("layers", .arr [.obj (emptyDescriptorDict P)]),
    ("annotations", .obj [
      ("org.meridian.adapter.id", .str adapterId),
      ("org.meridian.object.anchor", .str objectHash),
      ("org.meridian.object.format", .str storedMetadataFormat)])]

def buildAnchorManifest (objectHash : String) : Bytes := canonicalJson (anchorManifestFields P objectHash)

variable {P}

def objectManifestFields (anchor config payload : OciDescriptor P)
    (objectHash createdAt mutability : String) : JsonObject :=
  [("schemaVersion", .int 2),
    ("mediaType", .str ociManifestMediaType),
    ("artifactType", .str meridianObjectArtifactType),
    ("config", .obj config.toDict),
    ("layers", .arr [.obj payload.toDict]),
    ("subject", .obj anchor.toDict),
    ("annotations", .obj [
      ("org.opencontainers.image.created", .str createdAt),
      ("org.meridian.adapter.id", .str adapterId),
      ("org.meridian.object.digest", .str payload.digest),
      ("org.meridian.object.id-sha256", .str objectHash),
      ("org.meridian.object.mutability", .str mutability)])]

def buildObjectManifest (anchor config payload : OciDescriptor P)
    (objectHash createdAt mutability : String) : Bytes :=
  canonicalJson (objectManifestFields anchor config payload objectHash createdAt mutability)

/-- `manifest_descriptors(document)`: the config, payload and subject descriptors. -/
def manifestDescriptors (document : ManifestDocument P) :
    Except Err (OciDescriptor P × OciDescriptor P × OciDescriptor P) :=
  let value := document.value
  match Json.get? value "artifactType" with
  | some (.str artifactType) =>
    if artifactType ≠ meridianObjectArtifactType then
      .error (.of .valueError "manifest is not a Meridian Object artifact")
    else
      match Json.get? value "config", Json.get? value "subject" with
      | some (.obj config), some (.obj subject) =>
        match Json.get? value "layers" with
        | some (.arr [.obj layer]) => do
          let config ← OciDescriptor.fromMapping P config
          let payload ← OciDescriptor.fromMapping P layer
          let subject ← OciDescriptor.fromMapping P subject
          if config.mediaType ≠ meridianObjectConfigMediaType then
            .error (.of .valueError "Meridian Object config media type is invalid")
          else if subject.mediaType ≠ ociManifestMediaType then
            .error (.of .valueError "Meridian Object subject must be an OCI manifest")
          else .ok (config, payload, subject)
        | _ => .error (.of .valueError "Meridian Object manifest requires exactly one payload layer")
      | _, _ => .error (.of .valueError "Meridian Object manifest descriptors are invalid")
  | _ => .error (.of .valueError "manifest is not a Meridian Object artifact")

namespace StoredObject

variable (P)

def fields (stored : StoredObject) : JsonObject :=
  [("formatVersion", .str storedMetadataFormat),
    ("metadata", .obj (P.metadataToDict stored.metadata)),
    ("immutability", .obj (P.immutabilityToDict stored.immutability)),
    ("retention",
      match stored.retention with
      | none => .null
      | some retention => .obj (P.retentionToDict retention))]

def toBytes (stored : StoredObject) : Bytes := canonicalJson (stored.fields P)

def fromBytes (value : Bytes) (maximumBytes : Nat) : Except Err StoredObject :=
  if maximumBytes < value.length then
    .error (.of .valueError "stored Object metadata exceeds the configured size bound")
  else do
    let raw ← parseJsonObject P value "stored Object metadata"
    if !Json.keysAre raw ["formatVersion", "metadata", "immutability", "retention"] then
      .error (.of .valueError "stored Object metadata contains unknown or missing fields")
    else
      match Json.get? raw "formatVersion" with
      | some (.str format) =>
        if format ≠ storedMetadataFormat then
          .error (.of .valueError "stored Object metadata format is unsupported")
        else
          match Json.get? raw "metadata", Json.get? raw "immutability" with
          | some (.obj metadata), some (.obj immutability) =>
            match Json.get? raw "retention" with
            | some .null => do
              return ⟨← P.parseObjectMetadata metadata, ← P.immutabilityFromMapping immutability, none⟩
            | some (.obj retention) => do
              return ⟨← P.parseObjectMetadata metadata, ← P.immutabilityFromMapping immutability,
                some (← P.retentionFromMapping retention)⟩
            | _ => .error (.of .valueError "stored Object retention field is invalid")
          | _, _ => .error (.of .valueError "stored Object metadata fields are invalid")
      | _ => .error (.of .valueError "stored Object metadata format is unsupported")

/-- What the constructors of its parts accept. -/
structure Valid (stored : StoredObject) : Prop where
  metadata : stored.metadata.Valid P
  immutability : stored.immutability.Valid P
  retention : ∀ retention, stored.retention = some retention → retention.Valid P

end StoredObject

/-! ## Reading back what was written -/

namespace OciDescriptor

theorem new_ok {mediaType digest : String} {size : Nat} {descriptor : OciDescriptor P}
    (h : new P mediaType digest size = .ok descriptor) :
    descriptor.mediaType = mediaType ∧ descriptor.digest = digest ∧ descriptor.size = size := by
  unfold new at h
  split_ifs at h
  obtain rfl := Except.ok.inj h
  exact ⟨rfl, rfl, rfl⟩

theorem new_self (descriptor : OciDescriptor P) :
    new P descriptor.mediaType descriptor.digest descriptor.size = .ok descriptor := by
  rw [new, dif_pos descriptor.mediaType_slash, dif_pos descriptor.digest_valid]

/-- A descriptor is read back from its sorted items. -/
theorem fromMapping_toDict (descriptor : OciDescriptor P) :
    fromMapping P (Json.sortFields descriptor.toDict) = .ok descriptor := by
  have hmedia : Json.get? (Json.sortFields descriptor.toDict) "mediaType" =
      some (.str descriptor.mediaType) := by
    simp [Json.get?_sortFields, toDict, dict, Json.get?_cons, Json.sortKeys]
  have hdigest : Json.get? (Json.sortFields descriptor.toDict) "digest" =
      some (.str descriptor.digest) := by
    simp [Json.get?_sortFields, toDict, dict, Json.get?_cons, Json.sortKeys]
  have hsize : Json.get? (Json.sortFields descriptor.toDict) "size" =
      some (.int (.ofNat descriptor.size)) := by
    simp [Json.get?_sortFields, toDict, dict, Json.get?_cons, Json.sortKeys]
  simp only [fromMapping, hmedia, hdigest, hsize, descriptor.mediaType_slash,
    descriptor.digest_valid, ↓reduceIte, sizeOf, new_self]

theorem writable_dict (mediaType digest : String) (size : Nat) :
    Json.Writable (.obj (dict mediaType digest size)) := by
  simp [dict, Json.Writable, Json.WritableFields, Json.keys]

theorem ext_fields {a b : OciDescriptor P} (hm : a.mediaType = b.mediaType) (hd : a.digest = b.digest)
    (hs : a.size = b.size) : a = b := by
  cases a
  cases b
  simp_all

end OciDescriptor

theorem writable_anchorManifestFields (objectHash : String) :
    Json.Writable (.obj (anchorManifestFields P objectHash)) := by
  have hempty := OciDescriptor.writable_dict ociEmptyMediaType (sha256Digest P emptyJson)
    emptyJson.length
  simp only [Json.Writable] at hempty
  simp [anchorManifestFields, emptyDescriptorDict, Json.Writable, Json.WritableFields,
    Json.WritableItems, Json.keys, hempty]
  exact hempty.1

theorem writable_objectManifestFields (anchor config payload : OciDescriptor P)
    (objectHash createdAt mutability : String) : Json.Writable
      (.obj (objectManifestFields anchor config payload objectHash createdAt mutability)) := by
  have hdict := fun descriptor : OciDescriptor P =>
    OciDescriptor.writable_dict descriptor.mediaType descriptor.digest descriptor.size
  simp only [Json.Writable] at hdict
  have hanchor := hdict anchor
  have hconfig := hdict config
  have hpayload := hdict payload
  simp only [objectManifestFields, OciDescriptor.toDict, Json.Writable, Json.WritableFields,
    Json.WritableItems, hanchor, hconfig, hpayload, and_true]
  simp [Json.keys]

namespace ManifestDocument

/-- A document is determined by its body. -/
theorem ext_body {a b : ManifestDocument P} (h : a.body = b.body) : a = b := by
  obtain ⟨body, digest, mediaType, value, hdigest, hmedia, hvalue⟩ := a
  obtain ⟨body', digest', mediaType', value', hdigest', hmedia', hvalue'⟩ := b
  obtain rfl : body = body' := h
  obtain rfl : value = value' := by simpa using hvalue.symm.trans hvalue'
  subst hdigest hdigest' hmedia hmedia'
  rfl

theorem parse_ok {body : Bytes} {expectedDigest : Option String} {maximumBytes : Nat}
    {document : ManifestDocument P} (h : parse P body expectedDigest maximumBytes = .ok document) :
    document.body = body ∧ body.length ≤ maximumBytes ∧
      (∀ digest, expectedDigest = some digest → document.digest = digest) := by
  unfold parse at h
  split_ifs at h with hlen hdigest
  cases hlimit : P.jsonLimit body with
  | some error => rw [hlimit] at h; cases h
  | none => ?_
  simp only [hlimit] at h
  split at h
  · rename_i value hvalue
    split_ifs at h
    split at h
    · split_ifs at h with hmedia
      obtain rfl := Except.ok.inj h
      refine ⟨rfl, Nat.not_lt.mp hlen, ?_⟩
      rintro digest rfl
      by_contra hne
      refine hdigest ⟨by simp, ?_⟩
      intro heq
      exact hne (Option.some.inj heq).symm
    · cases h
  all_goals cases h

theorem exists_document {fields : JsonObject} (hwritable : Json.Writable (.obj fields)) :
    ∃ document : ManifestDocument P, document.body = canonicalJson fields :=
  ⟨⟨canonicalJson fields, _, ociManifestMediaType, Json.sortFields fields, rfl, rfl, Json.loads_dumps hwritable⟩, rfl⟩

/-- Text of a `dict` that says it is a manifest is parsed as one. -/
theorem parse_canonicalJson (laws : P.Lawful) {fields : JsonObject} {maximumBytes : Nat}
    (hwritable : Json.Writable (.obj fields)) (hlen : (canonicalJson fields).length ≤ maximumBytes)
    (hversion : Json.get? fields "schemaVersion" = some (.int 2))
    (hmedia : Json.get? fields "mediaType" = some (.str ociManifestMediaType)) :
    ∃ document, parse P (canonicalJson fields) none maximumBytes = .ok document ∧
      document.body = canonicalJson fields ∧ document.value = Json.sortFields fields := by
  have hload : Json.loads (canonicalJson fields) = some (.obj (Json.sortFields fields)) :=
    Json.loads_dumps hwritable
  refine ⟨⟨canonicalJson fields, sha256Digest P (canonicalJson fields), ociManifestMediaType,
    Json.sortFields fields, rfl, rfl, hload⟩, ?_, rfl, rfl⟩
  have hversion' : Json.get? (Json.sortFields fields) "schemaVersion" = some (.int 2) := by
    rw [Json.get?_sortFields, hversion]; rfl
  have hmedia' : Json.get? (Json.sortFields fields) "mediaType" =
      some (.str ociManifestMediaType) := by
    rw [Json.get?_sortFields, hmedia]; rfl
  rw [parse, if_neg (Nat.not_lt.mpr hlen), if_neg (by simp)]
  have hlimit : P.jsonLimit (canonicalJson fields) = none := laws.jsonLimit_dumps false _ hwritable
  simp only [hlimit]
  split
  · rename_i value hvalue
    obtain rfl : Json.sortFields fields = value := by simpa using hload.symm.trans hvalue
    simp [hversion', hmedia', Json.isTwo]
  · rename_i hvalue
    exact absurd (hload.symm.trans hvalue) (by simp)
  · rename_i value hne hvalue
    exact absurd (Option.some.inj (hload.symm.trans hvalue)).symm (hne _)

end ManifestDocument

/-- The descriptors of a built manifest are the ones it was built from. -/
theorem manifestDescriptors_build {anchor config payload : OciDescriptor P}
    {objectHash createdAt mutability : String} {document : ManifestDocument P}
    (hconfig : config.mediaType = meridianObjectConfigMediaType)
    (hanchor : anchor.mediaType = ociManifestMediaType)
    (hbody : document.value = Json.sortFields
      (objectManifestFields anchor config payload objectHash createdAt mutability)) :
    manifestDescriptors document = .ok (config, payload, anchor) := by
  have hget : ∀ key, Json.get? document.value key =
      (Json.get? (objectManifestFields anchor config payload objectHash createdAt mutability)
        key).map Json.sortKeys := fun key => by rw [hbody, Json.get?_sortFields]
  simp only [manifestDescriptors, hget]
  simp only [objectManifestFields, Json.get?_cons, String.reduceEq, ↓reduceIte, Option.map_some,
    Json.sortKeys, Json.sortItems, OciDescriptor.fromMapping_toDict, ne_eq, not_true_eq_false,
    bind, Except.bind, hconfig, hanchor]

namespace StoredObject

/-- Stored metadata is read back from its own text. -/
theorem fromBytes_toBytes (laws : P.Lawful) {stored : StoredObject} (hvalid : stored.Valid P)
    {maximumBytes : Nat} (hlen : (stored.toBytes P).length ≤ maximumBytes) :
    fromBytes P (stored.toBytes P) maximumBytes = .ok stored := by
  obtain ⟨metadata, immutability, retention⟩ := stored
  have hmetadata := laws.metadata_normal _ hvalid.metadata
  have himmutability := laws.immutability_normal _ hvalid.immutability
  have hretention := fun r h => laws.retention_normal r (hvalid.retention r h)
  have hwritable : Json.Writable (.obj (fields P ⟨metadata, immutability, retention⟩)) := by
    simp only [Json.Writable, fields, Json.WritableFields, hmetadata.1.1, hmetadata.1.2,
      himmutability.1.1, himmutability.1.2, and_self, and_true, true_and]
    refine ⟨by simp [Json.keys], ?_⟩
    cases retention with
    | none => trivial
    | some r => exact (hretention r rfl).1
  have hload : parseJsonObject P (toBytes P ⟨metadata, immutability, retention⟩)
      "stored Object metadata" =
      .ok (Json.sortFields (fields P ⟨metadata, immutability, retention⟩)) := by
    simp only [parseJsonObject, loadJson, toBytes, canonicalJson, laws.jsonLimit_dumps false _ hwritable,
      Json.loads_dumps hwritable, bind, Except.bind]
  rw [fromBytes, if_neg (Nat.not_lt.mpr hlen), hload]
  simp only [bind, Except.bind, pure, Except.pure, Json.keysAre_sortFields, Json.get?_sortFields]
  cases retention with
  | none =>
    simp only [fields, Json.get?_cons, String.reduceEq, ↓reduceIte, Option.map_some, Json.sortKeys,
      hmetadata.2, himmutability.2, laws.metadata_parse _ hvalid.metadata,
      laws.immutability_parse _ hvalid.immutability]
    simp [Json.keysAre, Json.keys]
  | some r =>
    simp only [fields, Json.get?_cons, String.reduceEq, ↓reduceIte, Option.map_some, Json.sortKeys,
      hmetadata.2, himmutability.2, laws.metadata_parse _ hvalid.metadata,
      laws.immutability_parse _ hvalid.immutability, (hretention r rfl).2,
      laws.retention_parse _ (hvalid.retention r rfl)]
    simp [Json.keysAre, Json.keys]

/-- Different stored objects have different text. -/
theorem toBytes_injective (laws : P.Lawful) {a b : StoredObject} (ha : a.Valid P) (hb : b.Valid P)
    (h : a.toBytes P = b.toBytes P) : a = b := by
  have hread := fromBytes_toBytes laws ha le_rfl
  rw [h, fromBytes_toBytes laws hb le_rfl] at hread
  exact (Except.ok.inj hread).symm

end StoredObject

end MeridianOci.Model
