import MeridianOci.Model.Adapter

/-!
# What the adapter publishes

The anchor manifest of an object id, the manifest of a stored object, and the tags they
are found under. A published manifest determines its stored object.
-/
namespace MeridianOci.Model

open MeridianOci.Data

set_option autoImplicit false

variable {P : Platform}

def anchorBody (P : Platform) (objectId : String) : Bytes :=
  buildAnchorManifest P (objectIdHash P objectId)

namespace StoredObject

def objectId (stored : StoredObject) : String := stored.metadata.objectRef.objectId

def exactName (P : Platform) (stored : StoredObject) : String :=
  versionName P stored.objectId stored.metadata.digest

def movingName (P : Platform) (stored : StoredObject) : String := latestName P stored.objectId

theorem anchorName_ne_exactName (objectId : String) (stored : StoredObject) :
    anchorName P objectId ≠ stored.exactName P := anchorName_ne_versionName _ _ _

theorem anchorName_ne_movingName (objectId : String) (stored : StoredObject) :
    anchorName P objectId ≠ stored.movingName P := anchorName_ne_latestName _ _

theorem movingName_ne_exactName (stored other : StoredObject) :
    stored.movingName P ≠ other.exactName P := latestName_ne_versionName _ _ _

/-- A body that the adapter builds for a stored object. -/
def IsManifest (P : Platform) (stored : StoredObject) (body : Bytes) : Prop :=
  ∃ anchor config payload : OciDescriptor P,
    (anchor.mediaType = ociManifestMediaType ∧
      anchor.digest = sha256Digest P (anchorBody P stored.objectId) ∧
      anchor.size = (anchorBody P stored.objectId).length) ∧
    (config.mediaType = meridianObjectConfigMediaType ∧
      config.digest = sha256Digest P (stored.toBytes P) ∧ config.size = (stored.toBytes P).length) ∧
    (payload.mediaType = stored.metadata.mediaType ∧ payload.digest = stored.metadata.digest ∧
      payload.size = stored.metadata.byteLength) ∧
    body = buildObjectManifest anchor config payload (objectIdHash P stored.objectId)
      stored.metadata.createdAt stored.metadata.mutability

end StoredObject

theorem ManifestDocument.value_of_body {document : ManifestDocument P} {fields : JsonObject}
    (hwritable : Json.Writable (.obj fields)) (hbody : document.body = canonicalJson fields) :
    document.value = Json.sortFields fields := by
  have hload : Json.loads (canonicalJson fields) = some (.obj (Json.sortFields fields)) :=
    Json.loads_dumps hwritable
  have hvalue := document.value_eq
  rw [hbody, hload] at hvalue
  simpa using hvalue.symm

theorem parse_anchorBody (laws : P.Lawful) {objectId : String} {maximumBytes : Nat}
    (hlen : (anchorBody P objectId).length ≤ maximumBytes) :
    ∃ document, ManifestDocument.parse P (anchorBody P objectId) none maximumBytes = .ok document ∧
      document.body = anchorBody P objectId := by
  obtain ⟨document, hparse, hbody, -⟩ := ManifestDocument.parse_canonicalJson laws
    (writable_anchorManifestFields (P := P) (objectIdHash P objectId)) hlen
    (by simp [anchorManifestFields, Json.get?_cons]) (by simp [anchorManifestFields, Json.get?_cons])
  exact ⟨document, hparse, hbody⟩

/-- An anchor is recognised as the anchor of its object id. -/
theorem isAnchorOf_anchorBody {document : ManifestDocument P} {objectId : String}
    (hbody : document.body = anchorBody P objectId) :
    OciDistributionAdapter.isAnchorOf document.value (objectIdHash P objectId) = true := by
  rw [document.value_of_body (writable_anchorManifestFields _) hbody]
  simp [OciDistributionAdapter.isAnchorOf, Json.get?_sortFields, anchorManifestFields, Json.get?_cons,
    Json.sortKeys]

/-- Anchors tell object ids apart as far as their hashes do. -/
theorem objectIdHash_of_anchorBody {objectId other : String} (h : anchorBody P objectId = anchorBody P other) :
    objectIdHash P objectId = objectIdHash P other := by
  obtain ⟨document, hbody⟩ := ManifestDocument.exists_document (P := P)
    (writable_anchorManifestFields (objectIdHash P objectId))
  have hanchor := isAnchorOf_anchorBody (hbody.trans h)
  rw [document.value_of_body (writable_anchorManifestFields _) hbody] at hanchor
  simpa [OciDistributionAdapter.isAnchorOf, Json.get?_sortFields, anchorManifestFields, Json.get?_cons,
    Json.sortKeys] using hanchor

namespace StoredObject

variable {stored other : StoredObject} {body : Bytes}

theorem IsManifest.parse (laws : P.Lawful) (h : stored.IsManifest P body) {maximumBytes : Nat}
    (hlen : body.length ≤ maximumBytes) :
    ∃ document, ManifestDocument.parse P body none maximumBytes = .ok document ∧ document.body = body := by
  obtain ⟨anchor, config, payload, -, -, -, rfl⟩ := h
  obtain ⟨document, hparse, hbody, -⟩ := ManifestDocument.parse_canonicalJson laws
    (writable_objectManifestFields anchor config payload _ _ _) hlen
    (by simp [objectManifestFields, Json.get?_cons]) (by simp [objectManifestFields, Json.get?_cons])
  exact ⟨document, hparse, hbody⟩

theorem IsManifest.exists_document (h : stored.IsManifest P body) :
    ∃ document : ManifestDocument P, document.body = body := by
  obtain ⟨anchor, config, payload, -, -, -, rfl⟩ := h
  exact ManifestDocument.exists_document (writable_objectManifestFields anchor config payload _ _ _)

/-- The descriptors of a published manifest. -/
theorem IsManifest.descriptors {document : ManifestDocument P} (h : stored.IsManifest P document.body) :
    ∃ anchor config payload : OciDescriptor P,
      manifestDescriptors document = .ok (config, payload, anchor) ∧
      (anchor.mediaType = ociManifestMediaType ∧
        anchor.digest = sha256Digest P (anchorBody P stored.objectId) ∧
        anchor.size = (anchorBody P stored.objectId).length) ∧
      (config.mediaType = meridianObjectConfigMediaType ∧
        config.digest = sha256Digest P (stored.toBytes P) ∧ config.size = (stored.toBytes P).length) ∧
      (payload.mediaType = stored.metadata.mediaType ∧ payload.digest = stored.metadata.digest ∧
        payload.size = stored.metadata.byteLength) := by
  obtain ⟨anchor, config, payload, hanchor, hconfig, hpayload, hbody⟩ := h
  have hvalue := document.value_of_body
    (writable_objectManifestFields anchor config payload _ _ _) hbody
  exact ⟨anchor, config, payload, manifestDescriptors_build hconfig.1 hanchor.1 hvalue, hanchor,
    hconfig, hpayload⟩

theorem IsManifest.ne_anchorBody (h : stored.IsManifest P body) (objectId : String) :
    body ≠ anchorBody P objectId := by
  intro heq
  obtain ⟨document, hbody⟩ := h.exists_document
  have hanchor := document.value_of_body (writable_anchorManifestFields (P := P) (objectIdHash P objectId))
    (hbody.trans heq)
  obtain ⟨anchor, config, payload, -, -, -, hmanifest⟩ := h
  have hobject := document.value_of_body
    (writable_objectManifestFields anchor config payload _ _ _) (hbody.trans hmanifest)
  have htype := congrArg (fun value => Json.get? value "artifactType") (hanchor.symm.trans hobject)
  simp [Json.get?_sortFields, anchorManifestFields, objectManifestFields, Json.get?_cons, Json.sortKeys,
    meridianObjectAnchorType, meridianObjectArtifactType] at htype

/-- A manifest names the text of its stored object, and with it the object. -/
theorem IsManifest.injective (laws : P.Lawful) (hvalid : stored.Valid P) (hvalid' : other.Valid P)
    (h : stored.IsManifest P body) (h' : other.IsManifest P body) : stored = other := by
  obtain ⟨document, -, rfl⟩ := h.parse laws le_rfl
  obtain ⟨anchor, config, payload, hread, -, hconfig, -⟩ := h.descriptors
  obtain ⟨anchor', config', payload', hread', -, hconfig', -⟩ := h'.descriptors
  have heq := Except.ok.inj (hread.symm.trans hread')
  simp only [Prod.mk.injEq] at heq
  obtain ⟨rfl, rfl, rfl⟩ := heq
  exact toBytes_injective laws hvalid hvalid'
    (sha256Digest_injective laws (hconfig.2.1.symm.trans hconfig'.2.1))

theorem IsManifest.unique {body' : Bytes} (h : stored.IsManifest P body) (h' : stored.IsManifest P body') :
    body = body' := by
  obtain ⟨anchor, config, payload, ha, hc, hp, rfl⟩ := h
  obtain ⟨anchor', config', payload', ha', hc', hp', rfl⟩ := h'
  have hanchor : anchor = anchor' := OciDescriptor.ext_fields (ha.1.trans ha'.1.symm)
    (ha.2.1.trans ha'.2.1.symm) (ha.2.2.trans ha'.2.2.symm)
  have hconfig : config = config' := OciDescriptor.ext_fields (hc.1.trans hc'.1.symm)
    (hc.2.1.trans hc'.2.1.symm) (hc.2.2.trans hc'.2.2.symm)
  have hpayload : payload = payload' := OciDescriptor.ext_fields (hp.1.trans hp'.1.symm)
    (hp.2.1.trans hp'.2.1.symm) (hp.2.2.trans hp'.2.2.symm)
  rw [hanchor, hconfig, hpayload]

end StoredObject

/-- A manifest of a stored object that one adapter can read back. -/
structure OciDistributionAdapter.Published (P : Platform) (adapter : OciDistributionAdapter)
    (stored : StoredObject) (body : Bytes) : Prop where
  valid : stored.Valid P
  short : (stored.toBytes P).length ≤ adapter.binding.maxMetadataBytes
  named : stored.metadata.objectRef =
    ⟨adapter.semanticResource, stored.objectId, some stored.metadata.digest⟩
  content : ∃ content, stored.metadata.digest = sha256Digest P content ∧
    stored.metadata.byteLength = content.length
  manifest : stored.IsManifest P body
  fits : body.length ≤ adapter.transport.binding.maxManifestBytes
  anchorFits : (anchorBody P stored.objectId).length ≤ adapter.transport.binding.maxManifestBytes

namespace OciDistributionAdapter.Published

variable {adapter : OciDistributionAdapter} {stored other : StoredObject} {body body' : Bytes}

theorem injective (laws : P.Lawful) (h : adapter.Published P stored body)
    (h' : adapter.Published P other body) : stored = other :=
  h.manifest.injective laws h.valid h'.valid h'.manifest

theorem unique (h : adapter.Published P stored body) (h' : adapter.Published P stored body') :
    body = body' := h.manifest.unique h'.manifest

end OciDistributionAdapter.Published

end MeridianOci.Model
