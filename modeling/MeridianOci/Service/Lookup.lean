import MeridianOci.Service.Repository

/-!
# Resolving a reference

`_stored_for_reference` over an intact repository, alone or while the adapter writes. A
resolved object was found under the tag of its reference in one of the states passed
through, and the only other outcome of a reference that names a tag is a missing object.
-/
namespace MeridianOci.Service

open MeridianOci.Data MeridianOci.Effect MeridianOci.Model

set_option autoImplicit false

variable {P : Platform} {adapter : OciDistributionAdapter} {policy : Policy P adapter.transport.binding}

/-- The tag that a reference is looked up under. -/
def nameOf (P : Platform) (reference : ObjectReference) : String :=
  match reference.digest with
  | none => latestName P reference.objectId
  | some digest => versionName P reference.objectId digest

/-- The object that a reference resolves to in a registry. -/
structure Found (registry : Registry policy) (reference : ObjectReference)
    (resolved : ResolvedObject P) : Prop where
  published : adapter.Published P resolved.stored resolved.manifest.body
  tagged : registry.tagged (nameOf P reference) = some resolved.manifest.body
  objectId : resolved.stored.objectId = reference.objectId
  digest : ∀ digest, reference.digest = some digest → resolved.stored.metadata.digest = digest
  payload : resolved.payload.digest = resolved.stored.metadata.digest ∧
    resolved.payload.size = resolved.stored.metadata.byteLength ∧
    resolved.payload.mediaType = resolved.stored.metadata.mediaType

/-- A reference resolves to at most one object. -/
theorem Found.unique (laws : P.Lawful) {registry : Registry policy} {reference : ObjectReference}
    {resolved resolved' : ResolvedObject P} (h : Found registry reference resolved)
    (h' : Found registry reference resolved') : resolved = resolved' := by
  obtain ⟨stored, manifest, payload⟩ := resolved
  obtain ⟨stored', manifest', payload'⟩ := resolved'
  have hbody : manifest.body = manifest'.body := Option.some.inj (h.tagged.symm.trans h'.tagged)
  obtain rfl : manifest = manifest' := ManifestDocument.ext_body hbody
  obtain rfl : stored = stored' := h.published.injective laws h'.published
  obtain rfl : payload = payload' := OciDescriptor.ext_fields
    (h.payload.2.2.trans h'.payload.2.2.symm) (h.payload.1.trans h'.payload.1.symm)
    (h.payload.2.1.trans h'.payload.2.1.symm)
  rfl

/-- A stored object under the right tag is found. -/
theorem Found.of_published {registry : Registry policy} {reference : ObjectReference}
    {stored : StoredObject} {body : Bytes} (hpublished : adapter.Published P stored body)
    (htagged : registry.tagged (nameOf P reference) = some body)
    (hid : stored.objectId = reference.objectId)
    (hdigest : ∀ digest, reference.digest = some digest → stored.metadata.digest = digest) :
    ∃ resolved, Found registry reference resolved ∧ resolved.stored = stored := by
  obtain ⟨document, rfl⟩ := hpublished.manifest.exists_document
  obtain ⟨-, -, payload, -, -, -, hmedia, hpayload, hlength⟩ := hpublished.manifest.descriptors
  exact ⟨⟨stored, document, payload⟩,
    ⟨hpublished, htagged, hid, hdigest, hpayload, hlength, hmedia⟩, rfl⟩

/-- The exact tag of a stored object only leads to content with its digest. -/
theorem exactName_eq (laws : P.Lawful) {stored : StoredObject} {body : Bytes}
    (hpublished : adapter.Published P stored body) {objectId digest : String}
    (hdigest : (matchDigest P digest).isSome)
    (hname : versionName P objectId digest = stored.exactName P) :
    shortHash P objectId = shortHash P stored.objectId ∧ digest = stored.metadata.digest := by
  obtain ⟨content, hcontent, -⟩ := hpublished.content
  refine versionName_inj laws hdigest ?_ hname
  rw [hcontent, matchDigest_sha256Digest laws]
  rfl

theorem referenceTag_ok {reference : ObjectReference} {tag : String}
    (h : OciDistributionAdapter.referenceTag P reference = .ok tag) : tag = nameOf P reference ∧
      ∀ digest, reference.digest = some digest → (matchDigest P digest).isSome := by
  obtain ⟨resourceRef, objectId, digest⟩ := reference
  cases digest with
  | none => exact ⟨tag_ok h, fun digest hsome => by cases hsome⟩
  | some digest =>
    refine ⟨versionTag_ok h, ?_⟩
    intro other hother
    obtain rfl := Option.some.inj hother
    simp only [OciDistributionAdapter.referenceTag, versionTag] at h
    cases hmatch : matchDigest P digest with
    | none => simp [hmatch] at h
    | some digits => rfl

theorem referenceTag_error (laws : P.Lawful) {reference : ObjectReference} {error : Err}
    (h : OciDistributionAdapter.referenceTag P reference = .error error) :
    ∃ digest, reference.digest = some digest ∧ versionTag P reference.objectId digest = .error error := by
  obtain ⟨resourceRef, objectId, digest⟩ := reference
  cases digest with
  | none =>
    have hlatest := latestTag_eq laws objectId
    simp [OciDistributionAdapter.referenceTag, hlatest] at h
  | some digest => exact ⟨digest, rfl, h⟩

/-- What is tagged where a reference is looked up is the manifest of a stored object. -/
theorem stored_of_tagged (laws : P.Lawful) {registry : Registry policy} {reference : ObjectReference}
    {body : Bytes} (hdigest : ∀ digest, reference.digest = some digest → (matchDigest P digest).isSome)
    (h : Tagged registry body (nameOf P reference)) :
    ∃ stored, adapter.Published P stored body ∧
      ((reference.digest = none ∧ stored.objectId = reference.objectId) ∨
        reference.digest = some stored.metadata.digest) := by
  obtain ⟨resourceRef, objectId, digest⟩ := reference
  generalize hname : nameOf P ⟨resourceRef, objectId, digest⟩ = name at h
  cases digest with
  | none =>
    cases h with
    | anchor other hbody => exact absurd hname (anchorName_ne_latestName _ _).symm
    | exact stored hpublished => exact absurd hname (latestName_ne_versionName _ _ _)
    | latest stored hpublished hexact =>
      exact ⟨stored, hpublished, .inl ⟨rfl, (latestName_injective laws hname).symm⟩⟩
  | some digest =>
    cases h with
    | anchor other hbody => exact absurd hname (anchorName_ne_versionName _ _ _).symm
    | exact stored hpublished =>
      exact ⟨stored, hpublished, .inr (congrArg some (exactName_eq laws hpublished (hdigest _ rfl) hname).2)⟩
    | latest stored hpublished hexact => exact absurd hname (latestName_ne_versionName _ _ _).symm

section Reading

variable {env : Environment Op Op.Res Err (World policy)}
variable {rely G : World policy → World policy → Prop} {faults : Prop}

/-- A manifest resolves to the object whose config blob it names, if that blob stays. -/
theorem storedFromManifest_read (laws : P.Lawful) (reading : Reading env rely faults) (hG : ∀ a b, rely a b → G a b)
    (w : World policy) (hblobs : ∀ a b, rely a b → ∀ (digest : String) (body : Bytes),
      a.registry.blobs[digest]? = some body → b.registry.blobs[digest]? = some body)
    {document : ManifestDocument P} {stored : StoredObject} {anchor config payload : OciDescriptor P}
    (hdescriptors : manifestDescriptors document = .ok (config, payload, anchor)) (hvalid : stored.Valid P)
    (hshort : (stored.toBytes P).length ≤ adapter.binding.maxMetadataBytes)
    (hconfig : config.digest = sha256Digest P (stored.toBytes P) ∧ config.size = (stored.toBytes P).length)
    (hpayload : payload.digest = stored.metadata.digest ∧ payload.size = stored.metadata.byteLength ∧
      payload.mediaType = stored.metadata.mediaType)
    (hblob : w.registry.blobs[sha256Digest P (stored.toBytes P)]? = some (stored.toBytes P)) :
    (adapter.storedFromManifest P document).Ensures env G w fun outcome w' => rely w w' ∧
      match outcome with
      | .ok resolved => resolved.stored = stored ∧ resolved.manifest = document ∧
          resolved.payload.digest = stored.metadata.digest ∧
          resolved.payload.size = stored.metadata.byteLength ∧
          resolved.payload.mediaType = stored.metadata.mediaType
      | .error _ => faults := by
  obtain ⟨hdigest, hsize⟩ := hconfig
  have hread := StoredObject.fromBytes_toBytes laws hvalid hshort
  rw [← hdigest] at hblob
  simp only [OciDistributionAdapter.storedFromManifest, hdescriptors, Prog.pure_eq, Prog.ret_bind]
  refine (getBlobBytes_ensures laws reading hG w config adapter.binding.maxMetadataBytes).bind ?_ ?_
  · rintro body w' ⟨hrely, hfound, -⟩
    obtain rfl := Option.some.inj ((hblobs _ _ hrely _ _ hblob).symm.trans hfound)
    simp only [hread, hpayload.1, hpayload.2.1, hpayload.2.2, ne_eq, not_true_eq_false, or_self, if_false]
    exact ⟨hrely, rfl, rfl, hpayload⟩
  · rintro error w' ⟨hrely, hwhy⟩
    refine ⟨hrely, hwhy.resolve_right fun hbad => ?_⟩
    rcases hbad _ (hblobs _ _ hrely _ _ hblob) with hne | hlong
    · exact hne hsize.symm
    · omega

variable (laws : P.Lawful) (reading : Reading env rely faults) (hG : ∀ a b, rely a b → G a b)
variable (hmoves : ∀ a b, rely a b → Moves a.registry b.registry) (w : World policy)

include laws reading hG hmoves

/-- The manifest of a complete object resolves to it. -/
theorem storedFromManifest_ensures {document : ManifestDocument P} {stored : StoredObject}
    (hpublished : adapter.Published P stored document.body) (hcomplete : Complete w.registry stored) :
    (adapter.storedFromManifest P document).Ensures env G w fun outcome w' => rely w w' ∧
      match outcome with
      | .ok resolved => resolved.stored = stored ∧ resolved.manifest = document ∧
          resolved.payload.digest = stored.metadata.digest ∧
          resolved.payload.size = stored.metadata.byteLength ∧
          resolved.payload.mediaType = stored.metadata.mediaType
      | .error _ => faults := by
  obtain ⟨anchor, config, payload, hdescriptors, -, ⟨-, hconfig⟩, hmedia, hpayload, hlength⟩ :=
    hpublished.manifest.descriptors
  exact storedFromManifest_read laws reading hG w (fun a b h _ _ => (hmoves a b h).blobs) hdescriptors
    hpublished.valid hpublished.short hconfig ⟨hpayload, hlength, hmedia⟩ hcomplete.config

theorem storedForReference_ensures (hintact : Intact w.registry) (reference : ObjectReference) :
    (adapter.storedForReference P reference).Ensures env G w fun outcome w' => rely w w' ∧
      match outcome with
      | .ok resolved => ∃ v, rely w v ∧ Found v.registry reference resolved ∧
          Complete v.registry resolved.stored
      | .error error => faults ∨
          (∃ digest, reference.digest = some digest ∧
            versionTag P reference.objectId digest = .error error) ∨
          (error.kind = .objectNotFound ∧ ∃ v, rely w v ∧
            ∀ resolved, ¬Found v.registry reference resolved) := by
  cases htag : OciDistributionAdapter.referenceTag P reference with
  | error error =>
    obtain ⟨digest, hdigest, herror⟩ := referenceTag_error laws htag
    simp only [OciDistributionAdapter.storedForReference, htag, Action.lift_error, Prog.raise_bind]
    exact ⟨reading.refl w, .inr (.inl ⟨digest, hdigest, herror⟩)⟩
  | ok tag =>
    obtain ⟨rfl, hdigest⟩ := referenceTag_ok htag
    have hprefix : ['s', 'h', 'a', '2', '5', '6', ':'].isPrefixOf (nameOf P reference).toList = false := by
      unfold nameOf
      split
      · exact isPrefixOf_latestName _
      · exact isPrefixOf_versionName _ _
    simp only [OciDistributionAdapter.storedForReference, htag, Action.lift_ok, Prog.ret_bind]
    refine (getManifest_ensures laws reading hG w hprefix).bind ?_ ?_
    · rintro document v ⟨hv, hresolve, -⟩
      rw [Registry.resolve_tag hprefix] at hresolve
      have hintact' := (hmoves _ _ hv).intact laws hintact
      obtain ⟨stored, hpublished, hstored⟩ := stored_of_tagged laws hdigest (hintact'.tags _ _ hresolve)
      have hcomplete := hintact'.complete _ stored _ hresolve hpublished
      refine (storedFromManifest_ensures laws reading hG hmoves v hpublished hcomplete).bind ?_ ?_
      · rintro ⟨stored', manifest, payload⟩ v' ⟨hv', rfl, rfl, hpayload⟩
        have hresource : stored'.metadata.objectRef.resourceRef = adapter.semanticResource := by
          rw [hpublished.named]
        have hgetD : ¬reference.digest.getD stored'.metadata.digest ≠ stored'.metadata.digest := by
          rcases hstored with ⟨hnone, -⟩ | hsome
          · simp [hnone]
          · simp [hsome]
        simp only [hresource, ne_eq, not_true_eq_false, if_false]
        by_cases hid : stored'.metadata.objectRef.objectId = reference.objectId
        · simp only [hid, not_true_eq_false, if_false]
          rw [if_neg hgetD]
          simp only [anchorTag_eq laws, Action.lift_ok, Prog.ret_bind]
          obtain ⟨anchor, config, payload', hdescriptors, ⟨-, hanchorDigest, -⟩, -⟩ :=
            hpublished.manifest.descriptors
          have hfound : Found v.registry reference ⟨stored', manifest, payload⟩ :=
            ⟨hpublished, hresolve, hid, fun digest hsome => by
              rcases hstored with ⟨hnone, -⟩ | hsome'
              · rw [hnone] at hsome
                cases hsome
              · exact Option.some.inj (hsome'.symm.trans hsome), hpayload⟩
          refine (getManifest_ensures laws reading hG v' (isPrefixOf_anchorName _)).bind ?_ ?_
          · rintro anchorDocument v'' ⟨hv'', hanchorBody, -⟩
            have hanchor := (hmoves _ _ (reading.trans _ _ _ hv' hv'')).anchored laws hcomplete.anchor
            rw [Registry.resolve_tag (isPrefixOf_anchorName _), ← hid] at hanchorBody
            have hsame : anchorDocument.body = anchorBody P stored'.objectId :=
              Option.some.inj (hanchorBody.symm.trans hanchor)
            simp only [hdescriptors, Action.lift_ok, Prog.ret_bind, hanchorDigest,
              anchorDocument.digest_eq, hsame, not_true_eq_false, if_false]
            exact ⟨reading.trans _ _ _ hv (reading.trans _ _ _ hv' hv''), v, hv, hfound, hcomplete⟩
          · rintro error v'' ⟨hv'', hwhy⟩
            refine ⟨reading.trans _ _ _ hv (reading.trans _ _ _ hv' hv''), .inl ?_⟩
            have hanchor := (hmoves _ _ (reading.trans _ _ _ hv' hv'')).anchored laws hcomplete.anchor
            rcases hwhy with hfaults | ⟨hnone, -⟩ | ⟨body, hbody, hparse⟩
            · exact hfaults
            · rw [Registry.resolve_tag (isPrefixOf_anchorName _), ← hid] at hnone
              exact absurd (hnone.symm.trans hanchor) (by simp)
            · obtain ⟨found, hfound, -⟩ := parse_anchorBody laws hpublished.anchorFits
              rw [Registry.resolve_tag (isPrefixOf_anchorName _), ← hid] at hbody
              obtain rfl := Option.some.inj (hbody.symm.trans hanchor)
              exact absurd hfound (hparse found)
        · simp only [hid, not_false_eq_true, if_true]
          refine ⟨reading.trans _ _ _ hv hv', .inr (.inr ⟨rfl, v, hv, fun resolved hfound => ?_⟩)⟩
          have hbody : resolved.manifest.body = manifest.body :=
            Option.some.inj (hfound.tagged.symm.trans hresolve)
          have hsame : resolved.stored = stored' := by
            refine hfound.published.injective laws ?_
            rw [hbody]
            exact hpublished
          exact hid (hsame ▸ hfound.objectId)
      · rintro error v' ⟨hv', hfaults⟩
        exact ⟨reading.trans _ _ _ hv hv', .inl hfaults⟩
    · rintro error v ⟨hv, hwhy⟩
      refine ⟨hv, ?_⟩
      rcases hwhy with hfaults | ⟨hnone, hkind⟩ | ⟨body, hbody, hparse⟩
      · exact .inl hfaults
      · rw [Registry.resolve_tag hprefix] at hnone
        refine .inr (.inr ⟨hkind, v, hv, fun resolved hfound => ?_⟩)
        rw [hfound.tagged] at hnone
        cases hnone
      · rw [Registry.resolve_tag hprefix] at hbody
        obtain ⟨stored, hpublished, -⟩ :=
          stored_of_tagged laws hdigest (((hmoves _ _ hv).intact laws hintact).tags _ _ hbody)
        obtain ⟨found, hfound, -⟩ := hpublished.manifest.parse laws hpublished.fits
        exact absurd hfound (hparse found)

end Reading

end MeridianOci.Service
