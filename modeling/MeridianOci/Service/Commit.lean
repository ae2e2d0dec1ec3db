import MeridianOci.Service.Uploads

/-!
# The commit of a version

`_commit_object` over an intact repository: the anchor, the config blob, the version
manifest and the latest tag, in that order. A commit that raises has stopped somewhere on
this way; one that returns has gone all of it, or has found the version there.
-/
namespace MeridianOci.Service

open MeridianOci.Data MeridianOci.Effect MeridianOci.Model

set_option autoImplicit false

variable {P : Platform} {adapter : OciDistributionAdapter}

section Registry

variable {policy : Policy P adapter.transport.binding} {registry registry' registry'' : Registry policy}

namespace Registry.Agrees

theorem refl (registry : Registry policy) : registry.Agrees registry := ⟨rfl, rfl, rfl, rfl⟩

theorem trans (h : registry.Agrees registry') (h' : registry'.Agrees registry'') :
    registry.Agrees registry'' :=
  ⟨h'.blobs.trans h.blobs, h'.manifests.trans h.manifests, h'.tags.trans h.tags,
    h'.uploads.trans h.uploads⟩

theorem grows (h : registry.Agrees registry') : registry.Grows registry' :=
  ⟨h.manifests, h.tags, fun digest body hblob => by rwa [h.blobs]⟩

theorem addBlob (h : registry.Agrees registry') (body : Bytes) :
    (registry.addBlob body).Agrees (registry'.addBlob body) :=
  ⟨by simp only [Registry.addBlob, h.blobs], h.manifests, h.tags, h.uploads⟩

theorem putTag (h : registry.Agrees registry') (tag : String) (body : Bytes) :
    (registry.putTag tag body).Agrees (registry'.putTag tag body) :=
  ⟨h.blobs, by simp only [Registry.putTag, h.manifests], by simp only [Registry.putTag, h.tags],
    h.uploads⟩

end Registry.Agrees

/-- The registry with the anchor of an object id. -/
def Registry.withAnchor (registry : Registry policy) (objectId : String) : Registry policy :=
  match registry.tagged (anchorName P objectId) with
  | some _ => registry
  | none => (registry.addBlob emptyJson).putTag (anchorName P objectId) (anchorBody P objectId)

theorem Intact.anchored (laws : P.Lawful) (hintact : Intact registry) {objectId : String} {body : Bytes}
    (h : registry.tagged (anchorName P objectId) = some body) : body = anchorBody P objectId := by
  have htagged := hintact.tags _ _ h
  generalize hname : anchorName P objectId = name at htagged
  cases htagged with
  | anchor other hbody => rw [hbody, anchorName_injective laws hname]
  | exact stored => exact absurd hname (StoredObject.anchorName_ne_exactName _ _)
  | latest stored => exact absurd hname (StoredObject.anchorName_ne_movingName _ _)

theorem Registry.tagged_withAnchor (laws : P.Lawful) (hintact : Intact registry) (objectId : String) :
    (registry.withAnchor objectId).tagged (anchorName P objectId) = some (anchorBody P objectId) := by
  unfold Registry.withAnchor
  split
  · rename_i body h
    rw [h, hintact.anchored laws h]
  · rw [Registry.tagged_putTag laws, if_pos rfl]

theorem Registry.withAnchor_moves (laws : P.Lawful) (registry : Registry policy) (objectId : String) :
    Moves registry (registry.withAnchor objectId) := by
  unfold Registry.withAnchor
  split
  · exact .refl
  · exact (Relation.ReflTransGen.single (.quiet _ _ (registry.grows_addBlob laws emptyJson))).tail
      (.anchor _ objectId)

theorem Registry.tagged_withAnchor_ne (laws : P.Lawful) {objectId tag : String}
    (h : anchorName P objectId ≠ tag) : (registry.withAnchor objectId).tagged tag = registry.tagged tag := by
  unfold Registry.withAnchor
  split
  · rfl
  · rw [Registry.tagged_putTag laws, if_neg h]
    rfl

theorem catalogOf_withAnchor (laws : P.Lawful) (hintact : Intact registry) (objectId : String) :
    catalogOf (registry.withAnchor objectId) = (catalogOf registry).anchor objectId := by
  unfold Registry.withAnchor
  split
  · rename_i body h
    have hmem : objectId ∈ (catalogOf registry).anchored := by
      rw [hintact.anchored laws h] at h
      exact h
    ext other
    · exact ⟨fun h => .inr h, fun h => (Set.mem_insert_iff.mp h).elim (fun h => h ▸ hmem) id⟩
    · exact Iff.rfl
    · exact Iff.rfl
  · rw [catalogOf_anchor laws]
    rfl

end Registry

variable {setting : Setting P adapter.transport.binding}

/-- A change of the world changes the registry in one of the five ways. -/
def World.Change (w w' : World setting.policy) : Prop := Move w.registry w'.registry

theorem quiet_change (laws : P.Lawful) (setting : Setting P adapter.transport.binding) :
    Quiet (@World.Change P adapter setting) where
  refl _ := .quiet _ _ (.refl _)
  upload w _ h := .quiet _ _ (w.silent_apply laws h).registry
  memory _ _ := .quiet _ _ (.refl _)
  now _ _ := .quiet _ _ (.refl _)
  payloads _ _ := .quiet _ _ (.refl _)

/-- The check of a create-only request lets it pass. -/
def Available {policy : Policy P adapter.transport.binding} (registry : Registry policy) (objectId : String)
    (immutability : ImmutabilityRequest) (createOnly : Bool) : Prop :=
  createOnly = true → registry.tagged
    (if immutability.publishOnce then anchorName P objectId else latestName P objectId) = none

/-- Everything a commit needs from its request, the clock and the limits. -/
structure Acceptable (setting : Setting P adapter.transport.binding) (value : PutInput)
    (identity : ContentIdentity) (immutability : ImmutabilityRequest)
    (retention : Option RetentionRequest) (before : DateTime) : Prop where
  anchorFits : (anchorBody P value.objectId).length ≤ adapter.transport.binding.maxManifestBytes
  mediaType : value.mediaType.toList.contains '/' = true
  metadata : ∃ provenance, adapter.provenanceOf P value.provenance = .ok provenance ∧
    ∀ now, setting.tick before now → ∃ createdAt metadata, now = .aware createdAt ∧
      P.newObjectMetadata (adapter.metadataFields P value identity immutability provenance createdAt) =
        .ok metadata ∧
      (StoredObject.toBytes P ⟨metadata, immutability, retention⟩).length ≤
        adapter.binding.maxMetadataBytes ∧
      ∀ body, StoredObject.IsManifest P ⟨metadata, immutability, retention⟩ body →
        body.length ≤ adapter.transport.binding.maxManifestBytes

/-- The exact version is there already, and the request may not or cannot use it. -/
def Blocked {policy : Policy P adapter.transport.binding} (registry : Registry policy)
    (objectId digest : String) (createOnly : Bool) : Prop :=
  ∃ stored body, adapter.Published P stored body ∧
    registry.tagged (versionName P objectId digest) = some body ∧
    (createOnly = true ∨ stored.objectId ≠ objectId)

/-- How a commit that returns leaves the world. -/
inductive Committed (setting : Setting P adapter.transport.binding) (value : PutInput)
    (identity : ContentIdentity) (immutability : ImmutabilityRequest)
    (retention : Option RetentionRequest) (createOnly : Bool) (w w' : World setting.policy) :
    ObjectMetadata → Prop where
  | existing (stored : StoredObject) (body : Bytes) : adapter.Published P stored body →
      w.registry.tagged (stored.exactName P) = some body → stored.objectId = value.objectId →
      stored.metadata.digest = identity.digest → createOnly = false →
      w' = { w with registry := w.registry.putTag (stored.movingName P) body } →
      Committed setting value identity immutability retention createOnly w w' stored.metadata
  | fresh (metadata : ObjectMetadata) (provenance : JsonObject) (createdAt : Int) (body : Bytes) :
      w.registry.tagged (versionName P value.objectId identity.digest) = none →
      adapter.provenanceOf P value.provenance = .ok provenance →
      P.newObjectMetadata (adapter.metadataFields P value identity immutability provenance createdAt) =
        .ok metadata →
      adapter.Published P ⟨metadata, immutability, retention⟩ body →
      setting.tick w.now (.aware createdAt) → w'.now = .aware createdAt → w'.memory = w.memory →
      w'.payloads = w.payloads →
      ((((w.registry.withAnchor value.objectId).addBlob
          (StoredObject.toBytes P ⟨metadata, immutability, retention⟩)).putTag
            (StoredObject.exactName P ⟨metadata, immutability, retention⟩) body).putTag
              (StoredObject.movingName P ⟨metadata, immutability, retention⟩) body).Agrees w'.registry →
      Committed setting value identity immutability retention createOnly w w' metadata

/-- The tag that a create-only request looks at. -/
theorem availabilityTag_eq (laws : P.Lawful) (once : Bool) (objectId : String) :
    (if once then anchorTag P objectId else latestTag P objectId) =
      .ok (if once then anchorName P objectId else latestName P objectId) := by
  split
  · exact anchorTag_eq laws objectId
  · exact latestTag_eq laws objectId

theorem isPrefixOf_availabilityName (once : Bool) (objectId : String) :
    ['s', 'h', 'a', '2', '5', '6', ':'].isPrefixOf
      (if once then anchorName P objectId else latestName P objectId).toList = false := by
  split
  · exact isPrefixOf_anchorName objectId
  · exact isPrefixOf_latestName objectId

section Steps

variable (laws : P.Lawful) (w : World setting.policy)

include laws

theorem requireCreateAvailable_ensures (objectId : String) (immutability : ImmutabilityRequest)
    (createOnly : Bool) :
    (adapter.requireCreateAvailable P objectId immutability createOnly).Ensures setting.env World.Change w
      fun outcome w' => w' = w ∧
        match outcome with
        | .ok _ => Available w.registry objectId immutability createOnly
        | .error _ => setting.faults ∨ ¬Available w.registry objectId immutability createOnly := by
  unfold OciDistributionAdapter.requireCreateAvailable
  cases createOnly with
  | false => exact ⟨rfl, fun h => by cases h⟩
  | true =>
    simp only [Bool.not_true, Bool.false_eq_true, if_false, availabilityTag_eq laws, Action.lift_ok,
      Prog.ret_bind]
    refine (manifestExists_ensures laws setting.reading (quiet_change laws setting).of_eq w _).bind ?_ ?_
    · rintro found w ⟨rfl, rfl⟩
      rw [Registry.resolve_tag (isPrefixOf_availabilityName _ _)]
      cases htagged : w.registry.tagged
          (if immutability.publishOnce then anchorName P objectId else latestName P objectId) with
      | none => exact ⟨rfl, fun _ => htagged⟩
      | some body =>
        refine ⟨rfl, .inr fun havailable => ?_⟩
        rw [havailable rfl] at htagged
        cases htagged
    · rintro error w ⟨rfl, hfaults⟩
      exact ⟨rfl, .inl hfaults⟩

/-- The anchor exists afterwards; on the way only it may have been written. -/
theorem ensureAnchor_ensures (hintact : Intact w.registry) (objectId : String) :
    (adapter.ensureAnchor P objectId).Ensures setting.env World.Change w fun outcome w' =>
      (w'.memory = w.memory ∧ w'.payloads = w.payloads ∧ w'.now = w.now) ∧
        match outcome with
        | .ok descriptor => descriptor.mediaType = ociManifestMediaType ∧
            descriptor.digest = sha256Digest P (anchorBody P objectId) ∧
            descriptor.size = (anchorBody P objectId).length ∧
            (anchorBody P objectId).length ≤ adapter.transport.binding.maxManifestBytes ∧
            (w.registry.withAnchor objectId).Agrees w'.registry
        | .error _ => (catalogOf w'.registry = catalogOf w.registry ∨
              catalogOf w'.registry = (catalogOf w.registry).anchor objectId) ∧
            (setting.faults ∨
              ¬(anchorBody P objectId).length ≤ adapter.transport.binding.maxManifestBytes) := by
  have hquiet := quiet_change laws setting
  simp only [OciDistributionAdapter.ensureAnchor, anchorTag_eq laws, Action.lift_ok, Prog.ret_bind]
  refine (manifestExists_ensures laws setting.reading hquiet.of_eq w _).bind ?_ ?_
  · rintro found w ⟨rfl, rfl⟩
    rw [Registry.resolve_tag (isPrefixOf_anchorName objectId)]
    cases htagged : w.registry.tagged (anchorName P objectId) with
    | some body =>
      obtain rfl := hintact.anchored laws htagged
      simp only [Option.isSome_some, if_true]
      refine (getManifest_ensures laws setting.reading hquiet.of_eq w
        (isPrefixOf_anchorName objectId)).bind ?_ ?_
      · rintro document w ⟨rfl, hbody, hmax, -⟩
        rw [Registry.resolve_tag (isPrefixOf_anchorName objectId), htagged] at hbody
        have hbody := Option.some.inj hbody
        obtain ⟨d, hd, hfields⟩ := OciDescriptor_new_sha256 laws document.body document.body.length
          (show ociManifestMediaType.toList.contains '/' = true by decide)
        rw [← document.digest_eq] at hd
        simp only [isAnchorOf_anchorBody hbody.symm, Bool.not_true, Bool.false_eq_true, if_false, hd,
          Action.lift_ok]
        rw [← hbody] at hfields hmax
        refine ⟨⟨rfl, rfl, rfl⟩, hfields.1, hfields.2.1, hfields.2.2, hmax, ?_⟩
        simp only [Registry.withAnchor, htagged]
        exact .refl _
      · rintro error w ⟨rfl, hwhy⟩
        refine ⟨⟨rfl, rfl, rfl⟩, .inl rfl, ?_⟩
        rw [Registry.resolve_tag (isPrefixOf_anchorName objectId), htagged] at hwhy
        rcases hwhy with hfaults | ⟨hnone, -⟩ | ⟨body, hbody, hparse⟩
        · exact .inl hfaults
        · cases hnone
        · obtain rfl := Option.some.inj hbody
          refine .inr fun hfits => ?_
          obtain ⟨document, hdocument, -⟩ := parse_anchorBody laws hfits
          exact hparse document hdocument
    | none =>
      simp only [Option.isSome_none, Bool.false_eq_true, if_false]
      refine (uploadBlobBytes_ensures laws w hquiet emptyJson
        (show ociEmptyMediaType.toList.contains '/' = true by decide)).bind ?_ ?_
      · intro descriptor w₁ hupload
        have hstores : World.Stores emptyJson w w₁ := hupload.2.2.2
        have hadded : (w.registry.addBlob emptyJson).Agrees w₁.registry :=
          ⟨hstores.blobs, hstores.manifests, hstores.tags, hstores.uploads⟩
        have hwith : (w.registry.withAnchor objectId).Agrees
            (w₁.registry.putTag (anchorName P objectId) (anchorBody P objectId)) := by
          simp only [Registry.withAnchor, htagged]
          exact hadded.putTag _ _
        have hmove : World.Change w₁
            (w₁.apply (.putManifest (anchorName P objectId) (anchorBody P objectId))) := by
          rw [World.apply_putManifest]
          exact Move.anchor w₁.registry objectId
        refine (putManifest_ensures laws w₁ hquiet.refl (anchorName P objectId) (anchorBody P objectId)
          fun _ => hmove).mono ?_
        rintro (error | anchor) w' h
        · obtain ⟨hw', hwhy⟩ := h
          have hreason : setting.faults ∨
              ¬(anchorBody P objectId).length ≤ adapter.transport.binding.maxManifestBytes := by
            refine hwhy.imp_right fun hparse hfits => ?_
            obtain ⟨document, hdocument, -⟩ := parse_anchorBody laws hfits
            exact hparse document hdocument
          rcases hw' with rfl | ⟨-, rfl⟩
          · exact ⟨⟨hstores.memory, hstores.payloads, hstores.now⟩,
              .inl (catalogOf_grows (hstores.silent laws).registry), hreason⟩
          · refine ⟨⟨hstores.memory, hstores.payloads, hstores.now⟩, .inr ?_, hreason⟩
            rw [World.apply_putManifest, catalogOf_anchor laws,
              catalogOf_grows (hstores.silent laws).registry]
        · obtain ⟨hmedia, hdigest, hsize, hmax, rfl⟩ := h
          exact ⟨⟨hstores.memory, hstores.payloads, hstores.now⟩, hmedia, hdigest, hsize, hmax, hwith⟩
      · rintro error w₁ ⟨hsilent, hfaults⟩
        exact ⟨⟨hsilent.memory, hsilent.payloads, hsilent.now⟩, .inl (catalogOf_grows hsilent.registry),
          .inl hfaults⟩
  · rintro error w ⟨rfl, hfaults⟩
    exact ⟨⟨rfl, rfl, rfl⟩, .inl rfl, .inl hfaults⟩

/-- Only stored objects are found under an exact tag. -/
theorem Intact.exact {w : World setting.policy} (hintact : Intact w.registry) {objectId : String}
    {content body : Bytes}
    (h : w.registry.tagged (versionName P objectId (sha256Digest P content)) = some body) :
    ∃ stored, adapter.Published P stored body ∧ stored.metadata.digest = sha256Digest P content ∧
      versionName P objectId (sha256Digest P content) = stored.exactName P := by
  have htagged := hintact.tags _ _ h
  generalize hname : versionName P objectId (sha256Digest P content) = name at htagged
  cases htagged with
  | anchor other hbody => exact absurd hname (anchorName_ne_versionName _ _ _).symm
  | exact stored hpublished =>
    refine ⟨stored, hpublished, ((exactName_eq laws hpublished ?_ hname).2).symm, rfl⟩
    rw [matchDigest_sha256Digest laws]
    rfl
  | latest stored => exact absurd hname (latestName_ne_versionName _ _ _).symm

/-- The branch that finds the exact version moves the latest tag to it, or raises. -/
theorem commitExisting_ensures (hintact : Intact w.registry) (objectId : String) {content body : Bytes}
    (immutability : ImmutabilityRequest) (createOnly : Bool)
    (hbody : w.registry.tagged (versionName P objectId (sha256Digest P content)) = some body) :
    (adapter.commitExisting P objectId ⟨sha256Digest P content, content.length⟩ immutability
      createOnly).Ensures setting.env World.Change w fun outcome w' =>
        match outcome with
        | .ok metadata => ∃ stored, adapter.Published P stored body ∧
            w.registry.tagged (stored.exactName P) = some body ∧ stored.objectId = objectId ∧
            stored.metadata.digest = sha256Digest P content ∧ createOnly = false ∧
            w' = { w with registry := w.registry.putTag (stored.movingName P) body } ∧
            stored.metadata = metadata
        | .error _ => (w' = w ∨ ∃ stored, adapter.Published P stored body ∧
              w.registry.tagged (stored.exactName P) = some body ∧ stored.objectId = objectId ∧
              stored.metadata.digest = sha256Digest P content ∧ createOnly = false ∧
              w' = { w with registry := w.registry.putTag (stored.movingName P) body }) ∧
            (setting.faults ∨ Blocked w.registry objectId (sha256Digest P content) createOnly) := by
  have hquiet := quiet_change laws setting
  obtain ⟨stored, hpublished, hdigest, hname⟩ := hintact.exact laws hbody
  unfold OciDistributionAdapter.commitExisting
  cases createOnly with
  | true => exact ⟨.inl rfl, .inr ⟨stored, body, hpublished, hbody, .inl rfl⟩⟩
  | false =>
    simp only [Bool.false_eq_true, if_false]
    refine (storedForReference_ensures laws setting.reading hquiet.of_eq
      (by rintro a _ rfl; exact .refl) w hintact _).bind ?_ ?_
    · rintro existing w ⟨rfl, _, rfl, hfound, -⟩
      have hsame : existing.manifest.body = body := Option.some.inj (hfound.tagged.symm.trans hbody)
      have hpublished' : adapter.Published P existing.stored body := hsame ▸ hfound.published
      obtain rfl := hpublished.injective laws hpublished'
      have hid : existing.stored.objectId = objectId := hfound.objectId
      have hmoving : existing.stored.movingName P = latestName P objectId := by
        rw [StoredObject.movingName, hid]
      rw [hname] at hbody
      simp only [latestTag_eq laws, Action.lift_ok, Prog.ret_bind, hsame]
      have hmove : World.Change w (w.apply (.putManifest (latestName P objectId) body)) := by
        rw [World.apply_putManifest, ← hmoving]
        exact Move.point w.registry existing.stored body hpublished hbody
      refine (putManifest_ensures laws w hquiet.refl _ body fun _ => hmove).bind ?_ ?_
      · rintro descriptor w' ⟨-, -, -, -, rfl⟩
        rw [World.apply_putManifest, ← hmoving]
        exact ⟨existing.stored, hpublished, hbody, hid, hdigest, trivial, rfl, rfl⟩
      · rintro error w' ⟨hw', hwhy⟩
        refine ⟨hw'.imp_right fun h => ⟨existing.stored, hpublished, hbody, hid, hdigest, trivial, ?_⟩, .inl ?_⟩
        · rw [h.2, World.apply_putManifest, hmoving]
        · refine hwhy.resolve_right fun hparse => ?_
          obtain ⟨document, hdocument, -⟩ := hpublished.manifest.parse laws hpublished.fits
          exact hparse document hdocument
    · rintro error w ⟨rfl, hwhy⟩
      refine ⟨.inl rfl, ?_⟩
      rcases hwhy with hfaults | ⟨digest, hsome, herror⟩ | ⟨-, v, rfl, hnone⟩
      · exact .inl hfaults
      · obtain rfl := Option.some.inj hsome
        rw [versionTag_eq laws] at herror
        cases herror
      · refine .inr ⟨stored, body, hpublished, hbody, .inr fun hid => ?_⟩
        have hnamed : w.registry.tagged (nameOf P
            ⟨adapter.semanticResource, objectId, some (sha256Digest P content)⟩) = some body := hbody
        obtain ⟨resolved, hfound, -⟩ := Found.of_published hpublished hnamed hid
          fun digest hsome => hdigest.trans (Option.some.inj hsome)
        exact hnone resolved hfound

theorem now_ensures : (OciDistributionAdapter.now).Ensures setting.env World.Change w
    fun outcome w' => w' = { w with now := w'.now } ∧
      match outcome with
      | .ok createdAt => setting.tick w.now (.aware createdAt) ∧ w'.now = .aware createdAt
      | .error _ => (setting.faults ∧ w'.now = w.now) ∨
          ∃ wall, setting.tick w.now (.naive wall) ∧ w'.now = .naive wall := by
  have hquiet := quiet_change laws setting
  rintro answer w' (⟨now, htick, rfl, rfl⟩ | ⟨hfaults, ⟨error, rfl⟩, rfl⟩)
  · refine ⟨hquiet.now w now, ?_⟩
    cases now with
    | aware createdAt => exact ⟨rfl, htick, rfl⟩
    | naive wall => exact ⟨rfl, .inr ⟨wall, htick, rfl⟩⟩
  · exact ⟨hquiet.refl _, rfl, .inl ⟨hfaults, rfl⟩⟩

theorem publishVersion_ensures {content : Bytes} (stored : StoredObject) {anchor : OciDescriptor P}
    (hvalid : stored.Valid P)
    (hnamed : stored.metadata.objectRef =
      ⟨adapter.semanticResource, stored.objectId, some stored.metadata.digest⟩)
    (hdigest : stored.metadata.digest = sha256Digest P content)
    (hlength : stored.metadata.byteLength = content.length)
    (hblob : w.registry.blobs[sha256Digest P content]? = some content)
    (hanchored : w.registry.tagged (anchorName P stored.objectId) =
      some (anchorBody P stored.objectId))
    (hanchor : anchor.mediaType = ociManifestMediaType ∧
      anchor.digest = sha256Digest P (anchorBody P stored.objectId) ∧
      anchor.size = (anchorBody P stored.objectId).length)
    (hanchorFits : (anchorBody P stored.objectId).length ≤ adapter.transport.binding.maxManifestBytes)
    (hfree : w.registry.tagged (stored.exactName P) = none) :
    (adapter.publishVersion P stored.objectId ⟨sha256Digest P content, content.length⟩ anchor stored
      (stored.exactName P)).Ensures setting.env World.Change w fun outcome w' =>
        (w'.memory = w.memory ∧ w'.payloads = w.payloads ∧ w'.now = w.now) ∧
          match outcome with
          | .ok metadata => metadata = stored.metadata ∧ ∃ body, adapter.Published P stored body ∧
              (((w.registry.addBlob (stored.toBytes P)).putTag (stored.exactName P) body).putTag
                (stored.movingName P) body).Agrees w'.registry
          | .error _ => (catalogOf w'.registry = catalogOf w.registry ∨
                catalogOf w'.registry = (catalogOf w.registry).publish stored ∨
                catalogOf w'.registry =
                  Catalog.point (storedNames P) ((catalogOf w.registry).publish stored) stored) ∧
              (setting.faults ∨ adapter.binding.maxMetadataBytes < (stored.toBytes P).length ∨
                stored.metadata.mediaType.toList.contains '/' = false ∨
                ∃ body, stored.IsManifest P body ∧
                  ¬body.length ≤ adapter.transport.binding.maxManifestBytes) := by
  have hquiet := quiet_change laws setting
  unfold OciDistributionAdapter.publishVersion
  simp only
  split
  · rename_i hlong
    exact ⟨⟨rfl, rfl, rfl⟩, .inl rfl, .inr (.inl hlong)⟩
  · rename_i hshort
    refine (uploadBlobBytes_ensures laws w hquiet (stored.toBytes P)
      (show meridianObjectConfigMediaType.toList.contains '/' = true by decide)).bind ?_ ?_
    · rintro config w₁ ⟨hconfigMedia, hconfigDigest, hconfigSize, hstores⟩
      have hframe : w₁.memory = w.memory ∧ w₁.payloads = w.payloads ∧ w₁.now = w.now :=
        ⟨hstores.memory, hstores.payloads, hstores.now⟩
      have hsilent := hstores.silent laws
      have hcatalog := catalogOf_grows hsilent.registry
      by_cases hslash : stored.metadata.mediaType.toList.contains '/' = true
      · obtain ⟨payload, hpayload, hpayloadMedia, hpayloadDigest, hpayloadSize⟩ :=
          OciDescriptor_new_sha256 laws content content.length hslash
        simp only [hpayload, Action.lift_ok, Prog.ret_bind]
        generalize hbody : buildObjectManifest anchor config payload (objectIdHash P stored.objectId)
          stored.metadata.createdAt stored.metadata.mutability = body
        have hmanifest : stored.IsManifest P body :=
          ⟨anchor, config, payload, hanchor, ⟨hconfigMedia, hconfigDigest, hconfigSize⟩,
            ⟨hpayloadMedia, hpayloadDigest.trans hdigest.symm, hpayloadSize.trans hlength.symm⟩, hbody.symm⟩
        have hpublished : body.length ≤ adapter.transport.binding.maxManifestBytes →
            adapter.Published P stored body := fun hfits =>
          ⟨hvalid, Nat.not_lt.mp hshort, hnamed, ⟨content, hdigest, hlength⟩, hmanifest, hfits, hanchorFits⟩
        have hfree₁ : w₁.registry.tagged (stored.exactName P) = none := by
          rw [hsilent.registry.tagged, hfree]
        have hcomplete : Complete w₁.registry stored := by
          refine ⟨?_, ?_, by rw [hsilent.registry.tagged, hanchored]⟩
          · rw [hstores.blobs, Table.get?_insert, if_pos rfl]
          · rw [hdigest, hsilent.registry.blobs _ _ hblob]
            rfl
        have hparse : (∀ document, ManifestDocument.parse P body none
            adapter.transport.binding.maxManifestBytes ≠ .ok document) →
            ¬body.length ≤ adapter.transport.binding.maxManifestBytes := fun hbad hfits => by
          obtain ⟨document, hdocument, -⟩ := hmanifest.parse laws hfits
          exact hbad document hdocument
        refine (putManifest_ensures laws w₁ hquiet.refl (stored.exactName P) body fun hfits => ?_).bind ?_ ?_
        · rw [World.apply_putManifest]
          exact Move.publish w₁.registry stored body (hpublished hfits) hcomplete hfree₁
        · rintro descriptor w₂ ⟨-, -, -, hfits, rfl⟩
          rw [World.apply_putManifest]
          have hpublish := catalogOf_publish laws (hpublished hfits) hfree₁
          have hexact : (w₁.registry.putTag (stored.exactName P) body).tagged (stored.exactName P) =
              some body := by
            rw [Registry.tagged_putTag laws, if_pos rfl]
          simp only [latestTag_eq laws, Action.lift_ok, Prog.ret_bind]
          refine (putManifest_ensures laws _ hquiet.refl (stored.movingName P) body
            fun hfits => ?_).bind ?_ ?_
          · rw [World.apply_putManifest]
            exact Move.point _ stored body (hpublished hfits) hexact
          · rintro descriptor w₃ ⟨-, -, -, -, rfl⟩
            refine ⟨hframe, rfl, body, hpublished hfits, ?_⟩
            have hadded : (w.registry.addBlob (stored.toBytes P)).Agrees w₁.registry :=
              ⟨hstores.blobs, hstores.manifests, hstores.tags, hstores.uploads⟩
            exact (hadded.putTag _ _).putTag _ _
          · rintro error w₃ ⟨hw₃, hwhy⟩
            have hfaults := hwhy.resolve_right fun hbad => hparse hbad hfits
            rcases hw₃ with rfl | ⟨-, rfl⟩
            · exact ⟨hframe, .inr (.inl (hpublish.trans (by rw [hcatalog]))), .inl hfaults⟩
            · refine ⟨hframe, .inr (.inr ?_), .inl hfaults⟩
              rw [World.apply_putManifest, catalogOf_point laws (hpublished hfits), hpublish, hcatalog]
        · rintro error w₂ ⟨hw₂, hwhy⟩
          have hreason : setting.faults ∨ adapter.binding.maxMetadataBytes < (stored.toBytes P).length ∨
              stored.metadata.mediaType.toList.contains '/' = false ∨
              ∃ body, stored.IsManifest P body ∧
                ¬body.length ≤ adapter.transport.binding.maxManifestBytes :=
            hwhy.imp_right fun hbad => .inr (.inr ⟨body, hmanifest, hparse hbad⟩)
          rcases hw₂ with rfl | ⟨hfits, rfl⟩
          · exact ⟨hframe, .inl hcatalog, hreason⟩
          · refine ⟨hframe, .inr (.inl ?_), hreason⟩
            rw [World.apply_putManifest, catalogOf_publish laws (hpublished hfits) hfree₁, hcatalog]
      · have hnew : OciDescriptor.new P stored.metadata.mediaType (sha256Digest P content) content.length =
            .error (.of .valueError "OCI descriptor media type is invalid") := by
          rw [OciDescriptor.new, dif_neg hslash]
        simp only [hnew, Action.lift_error, Prog.raise_bind]
        exact ⟨hframe, .inl hcatalog, .inr (.inr (.inl (Bool.eq_false_iff.mpr hslash)))⟩
    · rintro error w₁ ⟨hsilent, hfaults⟩
      exact ⟨⟨hsilent.memory, hsilent.payloads, hsilent.now⟩, .inl (catalogOf_grows hsilent.registry),
        .inl hfaults⟩

/-- What a commit of a content may publish or point at. -/
def Fitting (digest : String) (stored : StoredObject) : Prop := stored.metadata.digest = digest

/-- The branch that publishes a version: all of it, or a part of it and an error. -/
theorem commitFresh_ensures (hintact : Intact w.registry) (value : PutInput) {content : Bytes}
    (hblob : w.registry.blobs[sha256Digest P content]? = some content)
    {immutability : ImmutabilityRequest} (himmutability : immutability.Valid P)
    {retention : Option RetentionRequest} (hretention : ∀ r, retention = some r → r.Valid P)
    (createOnly : Bool)
    (hfree : w.registry.tagged (versionName P value.objectId (sha256Digest P content)) = none) :
    (adapter.commitFresh P value ⟨sha256Digest P content, content.length⟩ immutability retention
      (versionName P value.objectId (sha256Digest P content))).Ensures setting.env World.Change w
        fun outcome w' =>
          match outcome with
          | .ok metadata => Committed setting value ⟨sha256Digest P content, content.length⟩ immutability
              retention createOnly w w' metadata
          | .error _ => (w'.memory = w.memory ∧ w'.payloads = w.payloads) ∧
              Catalog.Commits (storedNames P) value.objectId (Fitting (sha256Digest P content))
                (catalogOf w.registry) (catalogOf w'.registry) ∧
              (setting.faults ∨ ¬Acceptable setting value ⟨sha256Digest P content, content.length⟩
                immutability retention w.now) := by
  have hquiet := quiet_change laws setting
  refine (ensureAnchor_ensures laws w hintact value.objectId).bind ?_ ?_
  · rintro anchor w₁ ⟨⟨hmemory₁, hpayloads₁, hnow₁⟩, hanchorMedia, hanchorDigest, hanchorSize, hfits,
      hagrees₁⟩
    have hanchored : catalogOf w₁.registry = (catalogOf w.registry).anchor value.objectId := by
      rw [catalogOf_grows hagrees₁.grows, catalogOf_withAnchor laws hintact]
    cases hprovenance : adapter.provenanceOf P value.provenance with
    | error error =>
      refine ⟨⟨hmemory₁, hpayloads₁⟩, hanchored ▸ .anchored, .inr fun haccept => ?_⟩
      obtain ⟨provenance, hok, -⟩ := haccept.metadata
      rw [hprovenance] at hok
      cases hok
    | ok provenance =>
      -- what an acceptable request promises about this reading of the clock
      have hpromise : Acceptable setting value ⟨sha256Digest P content, content.length⟩ immutability
          retention w.now → ∀ now, setting.tick w.now now → ∃ createdAt metadata, now = .aware createdAt ∧
          P.newObjectMetadata (adapter.metadataFields P value ⟨sha256Digest P content, content.length⟩
            immutability provenance createdAt) = .ok metadata ∧
          (StoredObject.toBytes P ⟨metadata, immutability, retention⟩).length ≤
            adapter.binding.maxMetadataBytes ∧
          ∀ body, StoredObject.IsManifest P ⟨metadata, immutability, retention⟩ body →
            body.length ≤ adapter.transport.binding.maxManifestBytes := by
        intro haccept
        obtain ⟨other, hok, h⟩ := haccept.metadata
        obtain rfl := Except.ok.inj (hprovenance.symm.trans hok)
        exact h
      simp only [Action.lift_ok, Prog.ret_bind]
      refine (now_ensures laws w₁).bind ?_ ?_
      · rintro createdAt w₂ ⟨hw₂, htick, hnow⟩
        rw [hnow₁] at htick
        have hregistry : w₂.registry = w₁.registry := by rw [hw₂]
        have hmemory : w₂.memory = w.memory := by rw [hw₂, ← hmemory₁]
        have hpayloads : w₂.payloads = w.payloads := by rw [hw₂, ← hpayloads₁]
        cases hnew : P.newObjectMetadata (adapter.metadataFields P value
            ⟨sha256Digest P content, content.length⟩ immutability provenance createdAt) with
        | error error =>
          simp only [Action.lift_error, Prog.raise_bind]
          refine ⟨⟨hmemory, hpayloads⟩, by rw [hregistry, hanchored]; exact .anchored, .inr fun haccept => ?_⟩
          obtain ⟨other, metadata, haware, hok, -⟩ := hpromise haccept _ htick
          cases haware
          rw [hnew] at hok
          cases hok
        | ok metadata =>
          simp only [Action.lift_ok, Prog.ret_bind]
          obtain ⟨hobjectRef, hdigest, hlength, hmedia, -⟩ := laws.metadata_fields _ _ hnew
          have hid : StoredObject.objectId ⟨metadata, immutability, retention⟩ = value.objectId := by
            rw [StoredObject.objectId, hobjectRef]
            rfl
          have hdigest : metadata.digest = sha256Digest P content := hdigest
          have hexact : StoredObject.exactName P ⟨metadata, immutability, retention⟩ =
              versionName P value.objectId (sha256Digest P content) := by
            rw [StoredObject.exactName, hid, hdigest]
          have hmoves : Moves w.registry w₂.registry := by
            rw [hregistry]
            exact (w.registry.withAnchor_moves laws value.objectId).tail (.quiet _ _ hagrees₁.grows)
          have htagged : w₂.registry.tagged (anchorName P value.objectId) =
              some (anchorBody P value.objectId) := by
            rw [hregistry, hagrees₁.grows.tagged, Registry.tagged_withAnchor laws hintact]
          have hfree₂ : w₂.registry.tagged (versionName P value.objectId (sha256Digest P content)) =
              none := by
            rw [hregistry, hagrees₁.grows.tagged,
              Registry.tagged_withAnchor_ne laws (anchorName_ne_versionName _ _ _), hfree]
          have hpublish := publishVersion_ensures laws w₂
            ⟨metadata, immutability, retention⟩ ⟨⟨_, hnew⟩, himmutability, hretention⟩
            (by rw [hid, hobjectRef, hdigest]; rfl) hdigest hlength (hmoves.blobs hblob)
            (by rw [hid, htagged]) (by rw [hid]; exact ⟨hanchorMedia, hanchorDigest, hanchorSize⟩)
            (by rw [hid]; exact hfits) (by rw [hexact, hfree₂])
          rw [hid, hexact] at hpublish
          refine hpublish.mono ?_
          rintro (error | result) w' ⟨⟨hmemory', hpayloads', hnow'⟩, h⟩
          · obtain ⟨hcatalog, hwhy⟩ := h
            rw [hregistry, hanchored] at hcatalog
            refine ⟨⟨hmemory'.trans hmemory, hpayloads'.trans hpayloads⟩, ?_,
              hwhy.imp_right fun hbad haccept => ?_⟩
            · have hslot : ∀ other ∈ (catalogOf w.registry).live, (storedNames P).slotOf other ≠
                  (storedNames P).slotOf ⟨metadata, immutability, retention⟩ := by
                rintro other ⟨body, hother, hbody⟩ heq
                have heq : other.exactName P =
                  StoredObject.exactName P ⟨metadata, immutability, retention⟩ := heq
                rw [heq, hexact, hfree] at hbody
                cases hbody
              rcases hcatalog with h | h | h
              · rw [h]
                exact .anchored
              · rw [h]
                exact .published _ hdigest hid hslot
              · rw [h]
                exact .pointed _ hdigest hid hslot
            · obtain ⟨other, metadata', haware, hok, hshort, hmanifests⟩ := hpromise haccept _ htick
              cases haware
              obtain rfl : metadata' = metadata := Except.ok.inj (hok.symm.trans hnew)
              rcases hbad with hlong | hslash | ⟨body, hmanifest, hlong⟩
              · exact absurd hshort (Nat.not_le.mpr hlong)
              · have hslash : metadata'.mediaType.toList.contains '/' = false := hslash
                have hmedia : metadata'.mediaType = value.mediaType := hmedia
                rw [hmedia, haccept.mediaType] at hslash
                cases hslash
              · exact hlong (hmanifests body hmanifest)
          · obtain ⟨hresult, body, hpublished, hagrees⟩ := h
            have hresult : result = metadata := hresult
            rw [hresult]
            refine .fresh metadata provenance createdAt body hfree hprovenance hnew hpublished htick
              (hnow'.trans hnow) (hmemory'.trans hmemory) (hpayloads'.trans hpayloads) ?_
            refine Registry.Agrees.trans ?_ hagrees
            rw [hregistry, hexact]
            exact ((hagrees₁.addBlob _).putTag _ _).putTag _ _
      · rintro error w₂ ⟨hw₂, hwhy⟩
        rw [hw₂]
        refine ⟨⟨hmemory₁, hpayloads₁⟩, hanchored ▸ .anchored, hwhy.imp And.left fun h haccept => ?_⟩
        obtain ⟨wall, hnaive, -⟩ := h
        rw [hnow₁] at hnaive
        obtain ⟨createdAt, metadata, haware, -⟩ := hpromise haccept _ hnaive
        cases haware
  · rintro error w₁ ⟨⟨hmemory₁, hpayloads₁, -⟩, hcatalog, hwhy⟩
    refine ⟨⟨hmemory₁, hpayloads₁⟩, ?_, hwhy.imp_right fun hlong haccept => hlong haccept.anchorFits⟩
    rcases hcatalog with hsame | hanchor
    · rw [hsame]
      exact .untouched
    · rw [hanchor]
      exact .anchored

theorem commitObject_ensures (hintact : Intact w.registry) (value : PutInput) {content : Bytes}
    (hblob : w.registry.blobs[sha256Digest P content]? = some content)
    {immutability : ImmutabilityRequest} (himmutability : immutability.Valid P)
    {retention : Option RetentionRequest} (hretention : ∀ r, retention = some r → r.Valid P)
    (createOnly : Bool) :
    (adapter.commitObject P value ⟨sha256Digest P content, content.length⟩ immutability retention
      createOnly).Ensures setting.env World.Change w fun outcome w' =>
        match outcome with
        | .ok metadata => Available w.registry value.objectId immutability createOnly ∧
            Committed setting value ⟨sha256Digest P content, content.length⟩ immutability retention
              createOnly w w' metadata
        | .error _ => (w'.memory = w.memory ∧ w'.payloads = w.payloads) ∧
            Catalog.Commits (storedNames P) value.objectId (Fitting (sha256Digest P content))
              (catalogOf w.registry) (catalogOf w'.registry) ∧
            (¬Available w.registry value.objectId immutability createOnly →
              catalogOf w'.registry = catalogOf w.registry) ∧
            (setting.faults ∨ ¬Available w.registry value.objectId immutability createOnly ∨
              Blocked w.registry value.objectId (sha256Digest P content) createOnly ∨
              (w.registry.tagged (versionName P value.objectId (sha256Digest P content)) = none ∧
                ¬Acceptable setting value ⟨sha256Digest P content, content.length⟩ immutability
                  retention w.now)) := by
  have hquiet := quiet_change laws setting
  refine (requireCreateAvailable_ensures laws w value.objectId immutability createOnly).bind ?_ ?_
  · rintro _ w ⟨rfl, havailable⟩
    simp only [versionTag_eq laws, Action.lift_ok, Prog.ret_bind]
    refine (manifestExists_ensures laws setting.reading hquiet.of_eq w _).bind ?_ ?_
    · rintro found w ⟨rfl, rfl⟩
      rw [Registry.resolve_tag (isPrefixOf_versionName _ _)]
      cases htagged : w.registry.tagged (versionName P value.objectId (sha256Digest P content)) with
      | some body =>
        simp only [Option.isSome_some, if_true]
        refine (commitExisting_ensures laws w hintact value.objectId immutability createOnly htagged).mono ?_
        rintro (error | metadata) w' h
        · obtain ⟨hw', hwhy⟩ := h
          refine ⟨?_, ?_, fun hnot => absurd havailable hnot, hwhy.imp_right fun h => .inr (.inl h)⟩
          · rcases hw' with rfl | ⟨stored, -, -, -, -, -, rfl⟩ <;> exact ⟨rfl, rfl⟩
          · rcases hw' with rfl | ⟨stored, hpublished, hexact, hid, hdigest, -, rfl⟩
            · exact .untouched
            · rw [catalogOf_point laws hpublished]
              exact .repointed stored hdigest hid ⟨body, hpublished, hexact⟩
        · obtain ⟨stored, hpublished, hexact, hid, hdigest, honly, hw', rfl⟩ := h
          exact ⟨havailable, .existing stored body hpublished hexact hid hdigest honly hw'⟩
      | none =>
        simp only [Option.isSome_none, Bool.false_eq_true, if_false]
        refine (commitFresh_ensures laws w hintact value hblob himmutability hretention createOnly
          htagged).mono ?_
        rintro (error | metadata) w' h
        · obtain ⟨hframe, hcommits, hwhy⟩ := h
          exact ⟨hframe, hcommits, fun hnot => absurd havailable hnot,
            hwhy.imp_right fun h => .inr (.inr ⟨trivial, h⟩)⟩
        · exact ⟨havailable, h⟩
    · rintro error w ⟨rfl, hfaults⟩
      exact ⟨⟨rfl, rfl⟩, .untouched, fun _ => rfl, .inl hfaults⟩
  · rintro error w ⟨rfl, hwhy⟩
    exact ⟨⟨rfl, rfl⟩, .untouched, fun _ => rfl, hwhy.imp_right .inl⟩

end Steps

end MeridianOci.Service
