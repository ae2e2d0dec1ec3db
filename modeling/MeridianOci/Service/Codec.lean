import MeridianOci.Service.Agreement

/-!
# The stored form of an object

What the adapter writes for an object is read back as that object: the metadata of its
config blob, the descriptors of its manifest, and, over a registry with any content, the
version that a commit has returned.
-/
namespace MeridianOci.Service

open MeridianOci.Data MeridianOci.Effect MeridianOci.Model

set_option autoImplicit false

variable {P : Platform} {adapter : OciDistributionAdapter}

/-! ## Manifests -/

/-- A manifest that names the digest of its body is parsed like one that names none. -/
theorem ManifestDocument.parse_expected {body : Bytes} {expectedDigest : Option String} {maximumBytes : Nat}
    (h : ∀ digest, expectedDigest = some digest → digest = sha256Digest P body) :
    ManifestDocument.parse P body expectedDigest maximumBytes = ManifestDocument.parse P body none maximumBytes := by
  have hexpected : ¬(expectedDigest ≠ none ∧ expectedDigest ≠ some (sha256Digest P body)) := by
    rintro ⟨hsome, hne⟩
    obtain ⟨digest, rfl⟩ := Option.ne_none_iff_exists'.mp hsome
    exact hne (congrArg some (h digest rfl))
  unfold ManifestDocument.parse
  rw [if_neg hexpected]
  simp

theorem parse_buildObjectManifest (laws : P.Lawful) {anchor config payload : OciDescriptor P}
    (hanchor : anchor.mediaType = ociManifestMediaType) (hconfig : config.mediaType = meridianObjectConfigMediaType)
    (objectHash createdAt mutability : String) {maximumBytes : Nat}
    (hlength : (buildObjectManifest anchor config payload objectHash createdAt mutability).length ≤ maximumBytes) :
    ∃ document : ManifestDocument P,
      ManifestDocument.parse P (buildObjectManifest anchor config payload objectHash createdAt mutability) none
        maximumBytes = .ok document ∧
      document.body = buildObjectManifest anchor config payload objectHash createdAt mutability ∧
      manifestDescriptors document = .ok (config, payload, anchor) := by
  obtain ⟨document, hparse, hbody, hvalue⟩ := ManifestDocument.parse_canonicalJson laws
    (writable_objectManifestFields anchor config payload objectHash createdAt mutability) hlength rfl rfl
  exact ⟨document, hparse, hbody, manifestDescriptors_build hconfig hanchor hvalue⟩

/-! ## What a commit leaves behind -/

section Commit

variable {setting : Setting P adapter.transport.binding}

/-- The exact and the latest reference of a version resolve to this stored object. -/
def ReadBack (w : World setting.policy) (objectId digest : String) (stored : StoredObject) : Prop :=
  ∀ reference ∈ [exactReference adapter objectId digest, latestReference adapter objectId],
    ∃ resolved, w.lookup reference = .ok resolved ∧ resolved.stored = stored

theorem Holds.stores {w w' : World setting.policy} {body : Bytes} {tag : String} {document : ManifestDocument P}
    (laws : P.Lawful) (h : Holds w.registry tag document) (hstores : World.Stores body w w') :
    Holds w'.registry tag document :=
  ⟨by rw [(hstores.silent laws).registry.tagged, h.tagged], h.parsed⟩

/-- A version whose two tags hold its manifest beside its config blob and its anchor is read back. -/
theorem readBack_of_holds (laws : P.Lawful) {w : World setting.policy} {objectId digest : String}
    {resolved : ResolvedObject P} {subject : OciDescriptor P} {anchor : ManifestDocument P}
    (htag : versionTag P objectId digest = .ok (versionName P objectId digest))
    (hexact : Holds w.registry (versionName P objectId digest) resolved.manifest)
    (hlatest : Holds w.registry (latestName P objectId) resolved.manifest)
    (hdescribes : Describes w.registry resolved subject) (hanchor : Holds w.registry (anchorName P objectId) anchor)
    (hsubject : subject.digest = anchor.digest)
    (hresource : resolved.stored.metadata.objectRef.resourceRef = adapter.semanticResource)
    (hid : resolved.stored.metadata.objectRef.objectId = objectId)
    (hdigest : resolved.stored.metadata.digest = digest) : ReadBack w objectId digest resolved.stored := by
  have hexactly : LeadsTo w.registry (exactReference adapter objectId digest) resolved :=
    ⟨htag, hexact, ⟨subject, anchor, hdescribes, hanchor, hsubject⟩, hresource, hid, hdigest.symm⟩
  have hlastly : LeadsTo w.registry (latestReference adapter objectId) resolved :=
    ⟨latestTag_eq laws objectId, hlatest, ⟨subject, anchor, hdescribes, hanchor, hsubject⟩, hresource, hid, rfl⟩
  intro reference hmem
  rcases List.mem_cons.mp hmem with rfl | hmem
  · exact ⟨resolved, (lookup_iff laws w).mpr hexactly, rfl⟩
  · obtain rfl := List.mem_singleton.mp hmem
    exact ⟨resolved, (lookup_iff laws w).mpr hlastly, rfl⟩

variable (laws : P.Lawful) (w : World setting.policy)

include laws

/-- An anchor that is returned is there, and can be read. -/
theorem ensureAnchor_holds (objectId : String) :
    (adapter.ensureAnchor P objectId).Ensures setting.env (fun _ _ => True) w fun outcome w' =>
      ∀ anchor, outcome = .ok anchor → anchor.mediaType = ociManifestMediaType ∧
        ∃ document, Holds w'.registry (anchorName P objectId) document ∧ anchor.digest = document.digest := by
  have hquiet : Quiet fun _ _ : World setting.policy => True := quiet_true
  have hplain := isPrefixOf_anchorName (P := P) objectId
  simp only [OciDistributionAdapter.ensureAnchor, anchorTag_eq laws, Action.lift_ok, Prog.ret_bind]
  refine (manifestExists_ensures laws setting.reading hquiet.of_eq w _).bind ?_ fun error w' _ anchor h => by cases h
  rintro found w ⟨rfl, -⟩
  cases found with
  | true =>
    simp only [if_true]
    refine (getManifest_ensures laws setting.reading hquiet.of_eq w hplain).bind ?_
      fun error w' _ anchor h => by cases h
    rintro document w ⟨rfl, hbody, -, hparsed⟩
    rw [Registry.resolve_tag hplain] at hbody
    obtain ⟨d, hd, hmedia, hdigest, -⟩ := OciDescriptor_new_sha256 laws document.body document.body.length
      (show ociManifestMediaType.toList.contains '/' = true by decide)
    rw [← document.digest_eq] at hd hdigest
    split
    · intro anchor h
      cases h
    · simp only [hd, Action.lift_ok]
      intro anchor h
      obtain rfl := Except.ok.inj h
      exact ⟨hmedia, document, ⟨hbody, hparsed⟩, hdigest⟩
  | false =>
    simp only [Bool.false_eq_true, if_false]
    refine (uploadBlobBytes_ensures laws w hquiet emptyJson
      (show ociEmptyMediaType.toList.contains '/' = true by decide)).bind ?_ fun error w' _ anchor h => by cases h
    intro descriptor w₁ _
    refine (putManifest_ensures laws w₁ hquiet.refl (anchorName P objectId) (anchorBody P objectId)
      fun _ => trivial).mono ?_
    rintro outcome w' h anchor rfl
    obtain ⟨hmedia, hdigest, -, hfits, rfl⟩ := h
    obtain ⟨document, hparsed, hbody⟩ := parse_anchorBody laws hfits
    refine ⟨hmedia, document, ⟨?_, by rw [hbody, hparsed]⟩, ?_⟩
    · rw [World.apply_putManifest, Registry.tagged_putTag laws, if_pos rfl, hbody]
    · rw [hdigest, document.digest_eq, hbody]

omit laws in
/-- What a manifest describes is not changed by a tag. -/
theorem Describes.putTag {w : World setting.policy} {resolved : ResolvedObject P} {subject : OciDescriptor P}
    {tag : String} {body : Bytes} (h : Describes w.registry resolved subject) :
    Describes (w.apply (.putManifest tag body)).registry resolved subject :=
  ⟨h.config, h.digest, h.byteLength, h.mediaType⟩

/-- Publishing a version under an anchor leaves it to be read. -/
theorem publishVersion_readBack {objectId : String} {identity : ContentIdentity} {anchor : OciDescriptor P}
    {stored : StoredObject} (hvalid : stored.Valid P)
    (hreference : stored.metadata.objectRef = exactReference adapter objectId identity.digest)
    (hdigest : stored.metadata.digest = identity.digest) (hlength : stored.metadata.byteLength = identity.byteLength)
    (htag : versionTag P objectId identity.digest = .ok (versionName P objectId identity.digest))
    (hmedia : anchor.mediaType = ociManifestMediaType)
    (hanchor : ∃ document, Holds w.registry (anchorName P objectId) document ∧ anchor.digest = document.digest) :
    (adapter.publishVersion P objectId identity anchor stored (versionName P objectId identity.digest)).Ensures
      setting.env (fun _ _ => True) w fun outcome w' =>
        ∀ metadata, outcome = .ok metadata →
          metadata = stored.metadata ∧ ReadBack w' objectId identity.digest stored := by
  have hquiet : Quiet fun _ _ : World setting.policy => True := quiet_true
  obtain ⟨anchored, hanchored, hsubject⟩ := hanchor
  unfold OciDistributionAdapter.publishVersion
  simp only
  split
  · intro metadata h
    cases h
  rename_i hshort
  refine (uploadBlobBytes_ensures laws w hquiet (stored.toBytes P)
    (show meridianObjectConfigMediaType.toList.contains '/' = true by decide)).bind ?_
    fun error w' _ metadata h => by cases h
  rintro config w₁ ⟨hconfigMedia, hconfigDigest, hconfigSize, hstores⟩
  cases hnew : OciDescriptor.new P stored.metadata.mediaType identity.digest identity.byteLength with
  | error error =>
    intro metadata h
    cases h
  | ok payload =>
    obtain ⟨hpayloadMedia, hpayloadDigest, hpayloadSize⟩ := OciDescriptor.new_ok hnew
    simp only [Action.lift_ok, Prog.ret_bind]
    generalize hbody : buildObjectManifest anchor config payload (objectIdHash P objectId)
      stored.metadata.createdAt stored.metadata.mutability = body
    refine (putManifest_ensures laws w₁ hquiet.refl _ body fun _ => trivial).bind ?_
      fun error w' _ metadata h => by cases h
    rintro descriptor w₂ ⟨-, -, -, hfits, rfl⟩
    simp only [latestTag_eq laws, Action.lift_ok, Prog.ret_bind]
    refine (putManifest_ensures laws _ hquiet.refl _ body fun _ => trivial).bind ?_
      fun error w' _ metadata h => by cases h
    rintro descriptor' w₃ ⟨-, -, -, -, rfl⟩ metadata h
    obtain rfl := Except.ok.inj h
    refine ⟨rfl, ?_⟩
    rw [← hbody] at hfits
    obtain ⟨document, hparsed, hdocument, hdescriptors⟩ := parse_buildObjectManifest laws hmedia hconfigMedia
      (objectIdHash P objectId) stored.metadata.createdAt stored.metadata.mutability hfits
    rw [hbody] at hdocument
    rw [hbody, ← hdocument] at hparsed
    -- the config blob is not touched by the two tags
    have hblob : w₁.registry.blobs[config.digest]? = some (stored.toBytes P) := by
      rw [hstores.blobs, Table.get?_insert, if_pos hconfigDigest.symm]
    have hdescribes : ∀ registry : Registry setting.policy, registry.blobs = w₁.registry.blobs →
        Describes registry ⟨stored, document, payload⟩ anchor := by
      intro registry hblobs
      refine ⟨⟨config, stored.toBytes P, hdescriptors, by rw [hblobs, hblob], hconfigSize.symm, ?_⟩,
        hdigest.trans hpayloadDigest.symm, hlength.trans hpayloadSize.symm, hpayloadMedia.symm⟩
      exact StoredObject.fromBytes_toBytes laws hvalid (Nat.not_lt.mp hshort)
    have hheld : Holds w₁.registry (anchorName P objectId) anchored := hanchored.stores laws hstores
    refine @readBack_of_holds _ _ _ laws _ _ _ ⟨stored, document, payload⟩ _ _ htag ?_ ?_ (hdescribes _ rfl) ?_
      hsubject (by rw [hreference]; rfl) (by rw [hreference]; rfl) hdigest
    · refine Holds.putTag laws ⟨?_, hparsed⟩ (latestName_ne_versionName _ _ _)
      rw [World.apply_putManifest, Registry.tagged_putTag laws, if_pos rfl, hdocument]
    · refine ⟨?_, hparsed⟩
      rw [World.apply_putManifest, Registry.tagged_putTag laws, if_pos rfl, hdocument]
    · exact (hheld.putTag laws (anchorName_ne_versionName _ _ _).symm).putTag laws (anchorName_ne_latestName _ _).symm

/-- Pointing the latest tag at a version that can be read leaves it to be read. -/
theorem commitExisting_readBack (objectId : String) (identity : ContentIdentity) (immutability : ImmutabilityRequest)
    (createOnly : Bool) :
    (adapter.commitExisting P objectId identity immutability createOnly).Ensures setting.env (fun _ _ => True) w
      fun outcome w' => ∀ metadata, outcome = .ok metadata →
        ∃ stored, stored.metadata = metadata ∧ ReadBack w' objectId identity.digest stored := by
  have hquiet : Quiet fun _ _ : World setting.policy => True := quiet_true
  unfold OciDistributionAdapter.commitExisting
  split
  · intro metadata h
    cases h
  have hreads : (adapter.storedForReference P (exactReference adapter objectId identity.digest)).Ensures setting.env
      (fun _ _ => True) w fun outcome w' => w' = w ∧ _ := reliable_storedForReference laws w _
  refine hreads.bind ?_ fun error w' _ metadata h => by cases h
  rintro existing w₁ ⟨rfl, hrun | ⟨-, error, h⟩⟩
  · have hfound : w₁.lookup (exactReference adapter objectId identity.digest) = .ok existing := congrArg Prod.fst hrun
    obtain ⟨htag, hholds, ⟨subject, anchor, hdescribes, hanchor, hsubject⟩, hresource, hid, hdigest⟩ :=
      (lookup_iff laws w₁).mp hfound
    simp only [latestTag_eq laws, Action.lift_ok, Prog.ret_bind]
    refine (putManifest_ensures laws w₁ hquiet.refl _ existing.manifest.body fun _ => trivial).bind ?_
      fun error w' _ metadata h => by cases h
    rintro descriptor w₂ ⟨-, -, -, -, rfl⟩ metadata h
    obtain rfl := Except.ok.inj h
    refine ⟨existing.stored, rfl, readBack_of_holds laws htag ?_ ?_ hdescribes.putTag ?_ hsubject hresource hid
      hdigest.symm⟩
    · exact hholds.putTag laws (latestName_ne_versionName _ _ _)
    · refine ⟨?_, hholds.parsed⟩
      rw [World.apply_putManifest, Registry.tagged_putTag laws, if_pos rfl]
    · exact hanchor.putTag laws (anchorName_ne_latestName _ _).symm
  · cases h

/-- A version that a commit returns can be read, over a registry with any content and whatever
failed on the way. One whose exact tag was free is stored with the retention it was given. -/
theorem commitObject_readBack (value : PutInput) (identity : ContentIdentity) {immutability : ImmutabilityRequest}
    (himmutability : immutability.Valid P) {retention : Option RetentionRequest}
    (hretention : ∀ r, retention = some r → r.Valid P) (createOnly : Bool) :
    (adapter.commitObject P value identity immutability retention createOnly).Ensures setting.env (fun _ _ => True) w
      fun outcome w' => ∀ metadata, outcome = .ok metadata → ∃ stored, stored.metadata = metadata ∧
        ReadBack w' value.objectId identity.digest stored ∧
        (w.registry.tagged (versionName P value.objectId identity.digest) = none →
          stored = ⟨metadata, immutability, retention⟩) := by
  have hquiet : Quiet fun _ _ : World setting.policy => True := quiet_true
  have havailable : (adapter.requireCreateAvailable P value.objectId immutability createOnly).Ensures setting.env
      (fun _ _ => True) w fun _ w' => w' = w :=
    (requireCreateAvailable_ensures laws w value.objectId immutability createOnly).weaken (fun _ _ _ _ h => h)
      (fun _ _ _ => trivial) fun _ _ h => h.1
  refine havailable.bind ?_ fun error w' _ metadata h => by cases h
  rintro _ w rfl
  cases htag : versionTag P value.objectId identity.digest with
  | error error =>
    intro metadata h
    cases h
  | ok tag =>
    obtain rfl := versionTag_ok htag
    simp only [Action.lift_ok, Prog.ret_bind]
    refine (manifestExists_ensures laws setting.reading hquiet.of_eq w _).bind ?_
      fun error w' _ metadata h => by cases h
    rintro found w ⟨rfl, rfl⟩
    rw [Registry.resolve_tag (isPrefixOf_versionName _ _)]
    cases htagged : w.registry.tagged (versionName P value.objectId identity.digest) with
    | some body =>
      simp only [Option.isSome_some, if_true]
      refine (commitExisting_readBack laws w value.objectId identity immutability createOnly).mono ?_
      intro outcome w' h metadata heq
      obtain ⟨stored, hmetadata, hread⟩ := h metadata heq
      exact ⟨stored, hmetadata, hread, fun h => by cases h⟩
    | none =>
      simp only [Option.isSome_none, Bool.false_eq_true, if_false]
      unfold OciDistributionAdapter.commitFresh
      refine (ensureAnchor_holds laws w value.objectId).bind ?_ fun error w' _ metadata h => by cases h
      intro anchor w₂ hanchor
      obtain ⟨hmedia, hheld⟩ := hanchor anchor rfl
      cases hprovenance : adapter.provenanceOf P value.provenance with
      | error error =>
        intro metadata h
        cases h
      | ok provenance =>
        have hnow : (OciDistributionAdapter.now).Ensures setting.env (fun _ _ => True) w₂
            fun _ w' => w' = { w₂ with now := w'.now } :=
          (now_ensures laws w₂).weaken (fun _ _ _ _ h => h) (fun _ _ _ => trivial) fun _ _ h => h.1
        simp only [Action.lift_ok, Prog.ret_bind]
        refine hnow.bind ?_ fun error w' _ metadata h => by cases h
        intro createdAt w₃ hw₃
        cases hnew : P.newObjectMetadata (adapter.metadataFields P value identity immutability provenance createdAt) with
        | error error =>
          intro metadata h
          cases h
        | ok metadata =>
          obtain ⟨hreference, hdigest, hlength, -⟩ := laws.metadata_fields _ _ hnew
          simp only [Action.lift_ok, Prog.ret_bind]
          have hvalid : StoredObject.Valid P ⟨metadata, immutability, retention⟩ :=
            ⟨⟨_, hnew⟩, himmutability, hretention⟩
          refine (publishVersion_readBack laws w₃ hvalid hreference hdigest hlength htag hmedia
            (by rw [hw₃]; exact hheld)).mono ?_
          intro outcome w' h result heq
          obtain ⟨rfl, hread⟩ := h result heq
          exact ⟨_, rfl, hread, fun _ => rfl⟩

end Commit

/-! ## The round trip -/

/-- Everything that is written is read back: stored objects, also apart from each other, manifests
with their descriptors, and versions that a commit has returned. -/
structure RoundTrips (P : Platform) (adapter : OciDistributionAdapter) : Prop where
  stored : ∀ (stored : StoredObject) (maximumBytes : Nat), stored.Valid P →
    (stored.toBytes P).length ≤ maximumBytes → StoredObject.fromBytes P (stored.toBytes P) maximumBytes = .ok stored
  manifest : ∀ (anchor config payload : OciDescriptor P) (objectHash createdAt mutability : String)
    (expectedDigest : Option String) (maximumBytes : Nat), anchor.mediaType = ociManifestMediaType →
    config.mediaType = meridianObjectConfigMediaType →
    (buildObjectManifest anchor config payload objectHash createdAt mutability).length ≤ maximumBytes →
    (∀ digest, expectedDigest = some digest →
      digest = sha256Digest P (buildObjectManifest anchor config payload objectHash createdAt mutability)) →
    ∃ document : ManifestDocument P,
      ManifestDocument.parse P (buildObjectManifest anchor config payload objectHash createdAt mutability)
        expectedDigest maximumBytes = .ok document ∧
      document.digest = sha256Digest P (buildObjectManifest anchor config payload objectHash createdAt mutability) ∧
      manifestDescriptors document = .ok (config, payload, anchor)
  distinct : ∀ stored other : StoredObject, stored.Valid P → other.Valid P → stored ≠ other →
    stored.toBytes P ≠ other.toBytes P
  accepted : ∀ (setting : Setting P adapter.transport.binding) (w w' : World setting.policy) (value : PutInput)
    (identity : ContentIdentity) (immutability : ImmutabilityRequest) (retention : Option RetentionRequest)
    (createOnly : Bool) (metadata : ObjectMetadata), immutability.Valid P →
    (∀ r, retention = some r → r.Valid P) →
    Performs setting.env (adapter.commitObject P value identity immutability retention createOnly) w (.ok metadata)
      w' →
    ∃ stored, stored.metadata = metadata ∧ ReadBack w' value.objectId identity.digest stored ∧
      (w.registry.tagged (versionName P value.objectId identity.digest) = none →
        stored = ⟨metadata, immutability, retention⟩)

theorem codec_round_trip (laws : P.Lawful) (adapter : OciDistributionAdapter) : RoundTrips P adapter where
  stored stored maximumBytes hvalid hlength := StoredObject.fromBytes_toBytes laws hvalid hlength
  manifest anchor config payload objectHash createdAt mutability expectedDigest maximumBytes hanchor hconfig hlength
      hexpected := by
    obtain ⟨document, hparse, hbody, hdescriptors⟩ :=
      parse_buildObjectManifest laws hanchor hconfig objectHash createdAt mutability hlength
    rw [← ManifestDocument.parse_expected hexpected] at hparse
    exact ⟨document, hparse, by rw [document.digest_eq, hbody], hdescriptors⟩
  distinct stored other hvalid hvalid' hne h := hne (StoredObject.toBytes_injective laws hvalid hvalid' h)
  accepted setting w w' value identity immutability retention createOnly metadata himmutability hretention h :=
    h.ensures (commitObject_readBack laws w value identity himmutability hretention createOnly) metadata rfl

namespace Sample

open MeridianOci.Model.Sample

/-- A put whose texts need escapes, with a retention. -/
def escaped : Plain where
  objectId := "\"é\n"
  text := "x"
  retention := some ⟨some 1, "hold", true⟩

def unescaped : Plain := { objectId := "e", text := "y" }

theorem valid_plain (put : Plain) : put.stored.Valid platform where
  metadata := ⟨_, @newObjectMetadata_plain 0 put⟩
  immutability := immutabilityOf_valid immutabilityOf_input
  retention := retentionOf_valid retentionOf_input

/-- Two versions are written differently, each is read back, and one of them also from a registry that had only the
other one when it was committed. -/
theorem codec_round_trip_two : ∃ limit, ∃ (w w' : World (setting limit False).policy) (metadata : ObjectMetadata),
    RoundTrips platform (Sample.adapter limit) ∧
    StoredObject.fromBytes platform (escaped.stored.toBytes platform) (1024 + limit) = .ok escaped.stored ∧
    StoredObject.fromBytes platform (unescaped.stored.toBytes platform) (1024 + limit) = .ok unescaped.stored ∧
    escaped.stored.toBytes platform ≠ unescaped.stored.toBytes platform ∧
    (catalogOf w.registry).live = {unescaped.stored} ∧
    Performs (setting limit False).env ((Sample.adapter limit).commitObject platform escaped.input
      (identityOf platform escaped.content) escaped.immutabilityRequest escaped.retention false) w (.ok metadata) w' ∧
    ∃ stored, stored.metadata = metadata ∧
      ReadBack w' escaped.objectId (sha256Digest platform escaped.content) stored := by
  obtain ⟨limit, hfits⟩ := exists_limit [escaped, unescaped] (by decide)
  have hescaped := hfits escaped (by simp)
  have hunescaped := hfits unescaped (by simp)
  obtain ⟨before, hrun, hcatalog⟩ := run_start hunescaped (.aware 0)
  -- the payload is uploaded before the commit
  let w : World (setting limit False).policy := { before with registry := before.registry.addBlob escaped.content }
  have hgrows : before.registry.Grows w.registry := Registry.grows_addBlob lawful before.registry escaped.content
  have hbefore : Intact before.registry := hrun.intact lawful
  have hintact : Intact w.registry := Move.intact lawful (.quiet _ _ hgrows) hbefore
  have hblob : w.registry.blobs[sha256Digest platform escaped.content]? = some escaped.content :=
    (Table.get?_insert _ _ _ _).trans (if_pos rfl)
  have hne := @digest_ne unescaped escaped (by decide)
  have hunblocked : ¬Blocked before.registry escaped.objectId (sha256Digest platform escaped.content) false :=
    not_blocked lawful hbefore fun stored hstored hdigest _ => by
      rw [hcatalog] at hstored
      obtain rfl : stored = unescaped.stored := hstored
      exact absurd hdigest hne
  obtain ⟨metadata, w', -, hperforms⟩ := performs_commit hescaped hintact hblob (fun h => by cases h)
    fun hblocked => hunblocked ((blocked_grows hgrows).mp hblocked)
  have hround := codec_round_trip lawful (Sample.adapter limit)
  obtain ⟨stored, hmetadata, hread, -⟩ := hround.accepted _ _ _ _ _ _ _ _ _ (valid_plain escaped).immutability
    (valid_plain escaped).retention hperforms
  refine ⟨limit, w, w', metadata, hround, ?_, ?_, ?_, ?_, hperforms, stored, hmetadata, hread⟩
  · exact hround.stored _ _ (valid_plain escaped) hescaped.stored
  · exact hround.stored _ _ (valid_plain unescaped) hunescaped.stored
  · refine hround.distinct _ _ (valid_plain escaped) (valid_plain unescaped) fun heq => hne ?_
    exact congrArg (·.metadata.digest) heq.symm
  · rw [catalogOf_grows hgrows, hcatalog]

end Sample

end MeridianOci.Service
