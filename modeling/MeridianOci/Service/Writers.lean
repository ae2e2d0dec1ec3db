import MeridianOci.Service.Amid

/-!
# Writers that create

Several processes put versions of one object id, each only if there is none, on a
repository whose tags are protected. The latest tag decides: whoever has put it returns
the version that stands from then on.
-/
namespace MeridianOci.Service

open MeridianOci.Data MeridianOci.Effect MeridianOci.Model

set_option autoImplicit false

variable {P : Platform}

/-! ## Standing versions -/

/-- A manifest of a stored object whose subject is a given anchor. -/
def Conveys (P : Platform) (stored : StoredObject) (subject body : Bytes) : Prop :=
  ∃ anchor config payload : OciDescriptor P,
    (anchor.mediaType = ociManifestMediaType ∧ anchor.digest = sha256Digest P subject) ∧
    (config.mediaType = meridianObjectConfigMediaType ∧
      config.digest = sha256Digest P (stored.toBytes P) ∧ config.size = (stored.toBytes P).length) ∧
    (payload.mediaType = stored.metadata.mediaType ∧ payload.digest = stored.metadata.digest ∧
      payload.size = stored.metadata.byteLength) ∧
    body = buildObjectManifest anchor config payload (objectIdHash P stored.objectId)
      stored.metadata.createdAt stored.metadata.mutability

theorem Conveys.descriptors {stored : StoredObject} {subject : Bytes} {document : ManifestDocument P}
    (h : Conveys P stored subject document.body) : ∃ anchor config payload,
      manifestDescriptors document = .ok (config, payload, anchor) ∧ anchor.digest = sha256Digest P subject ∧
      (config.digest = sha256Digest P (stored.toBytes P) ∧ config.size = (stored.toBytes P).length) ∧
      (payload.digest = stored.metadata.digest ∧ payload.size = stored.metadata.byteLength ∧
        payload.mediaType = stored.metadata.mediaType) := by
  obtain ⟨anchor, config, payload, hanchor, hconfig, hpayload, hbody⟩ := h
  have hvalue := document.value_of_body (writable_objectManifestFields anchor config payload _ _ _) hbody
  exact ⟨anchor, config, payload, manifestDescriptors_build hconfig.1 hanchor.1 hvalue, hanchor.2, hconfig.2,
    hpayload.2.1, hpayload.2.2, hpayload.1⟩

/-- A manifest carries one stored object. -/
theorem Conveys.injective (laws : P.Lawful) {stored other : StoredObject} {subject subject' body : Bytes}
    (hvalid : stored.Valid P) (hvalid' : other.Valid P) (h : Conveys P stored subject body)
    (h' : Conveys P other subject' body) : stored = other := by
  obtain ⟨document, rfl⟩ : ∃ document : ManifestDocument P, document.body = body := by
    obtain ⟨anchor, config, payload, -, -, -, rfl⟩ := h
    exact ManifestDocument.exists_document (writable_objectManifestFields anchor config payload _ _ _)
  obtain ⟨anchor, config, payload, hread, -, hconfig, -⟩ := h.descriptors
  obtain ⟨anchor', config', payload', hread', -, hconfig', -⟩ := h'.descriptors
  have heq := Except.ok.inj (hread.symm.trans hread')
  simp only [Prod.mk.injEq] at heq
  obtain ⟨rfl, -, -⟩ := heq
  exact StoredObject.toBytes_injective laws hvalid hvalid'
    (sha256Digest_injective laws (hconfig.1.symm.trans hconfig'.1))

/-- A version whose exact tag and latest tag lead to its manifest, and what the manifest refers to. -/
structure Standing (P : Platform) (adapter : OciDistributionAdapter) {policy : Policy P adapter.transport.binding}
    (registry : Registry policy) (stored : StoredObject) (body : Bytes) : Prop where
  valid : stored.Valid P
  short : (stored.toBytes P).length ≤ adapter.binding.maxMetadataBytes
  named : stored.metadata.objectRef = ⟨adapter.semanticResource, stored.objectId, some stored.metadata.digest⟩
  content : ∃ content, stored.metadata.digest = sha256Digest P content
  config : registry.blobs[sha256Digest P (stored.toBytes P)]? = some (stored.toBytes P)
  exact : registry.tagged (stored.exactName P) = some body
  latest : registry.tagged (stored.movingName P) = some body
  parsed : ∃ document, ManifestDocument.parse P body none adapter.transport.binding.maxManifestBytes = .ok document
  anchored : ∃ subject, registry.tagged (anchorName P stored.objectId) = some subject ∧
    (∃ document, ManifestDocument.parse P subject none adapter.transport.binding.maxManifestBytes = .ok document) ∧
    Conveys P stored subject body

section Standing

variable {adapter : OciDistributionAdapter} {policy : Policy P adapter.transport.binding}
variable {registry registry' : Registry policy} {stored : StoredObject} {body : Bytes}

theorem Standing.mono (h : Standing P adapter registry stored body) (hpersists : registry.Persists registry') :
    Standing P adapter registry' stored body := by
  obtain ⟨subject, hsubject, hanchored⟩ := h.anchored
  exact { h with
    config := hpersists.blobs _ _ h.config
    exact := hpersists.tags _ _ h.exact
    latest := hpersists.tags _ _ h.latest
    anchored := ⟨subject, hpersists.tags _ _ hsubject, hanchored⟩ }

/-- The tag of a reference to a standing version. -/
theorem Standing.referenceTag (laws : P.Lawful) (h : Standing P adapter registry stored body)
    {reference : ObjectReference} (hid : reference.objectId = stored.objectId)
    (hdigest : reference.digest = none ∨ reference.digest = some stored.metadata.digest) :
    ∃ tag, OciDistributionAdapter.referenceTag P reference = .ok tag ∧ registry.tagged tag = some body ∧
      ['s', 'h', 'a', '2', '5', '6', ':'].isPrefixOf tag.toList = false := by
  obtain ⟨content, hcontent⟩ := h.content
  unfold OciDistributionAdapter.referenceTag
  rcases hdigest with hnone | hsome
  · rw [hnone, hid]
    exact ⟨_, latestTag_eq laws _, h.latest, isPrefixOf_latestName _⟩
  · rw [hsome, hid]
    refine ⟨_, ?_, h.exact, isPrefixOf_versionName _ _⟩
    unfold StoredObject.exactName
    dsimp only
    rw [hcontent]
    exact versionTag_eq laws _ _

/-- A standing version resolves, with its digest and without. -/
theorem Standing.lookup (laws : P.Lawful) {w : World policy} (h : Standing P adapter w.registry stored body)
    {reference : ObjectReference} (hid : reference.objectId = stored.objectId)
    (hdigest : reference.digest = none ∨ reference.digest = some stored.metadata.digest) :
    ∃ resolved, w.lookup reference = .ok resolved ∧ resolved.stored = stored := by
  obtain ⟨tag, htag, htagged, hprefix⟩ := h.referenceTag laws hid hdigest
  obtain ⟨subject, hsubject, ⟨anchorDocument, hanchorParse⟩, hconveys⟩ := h.anchored
  obtain ⟨parsed, hparsed⟩ := h.parsed
  suffices hresolves : (adapter.storedForReference P reference).Ensures (Environment.ofFunction World.answer) Eq w
      fun outcome _ => ∃ resolved, outcome = .ok resolved ∧ resolved.stored = stored from hresolves.run
  unfold OciDistributionAdapter.storedForReference
  rw [htag, Action.lift_ok, Prog.ret_bind]
  have hrely : ∀ a b : World policy, a = b → a = b := fun _ _ h => h
  refine (getManifest_ensures laws reading_answer hrely w hprefix).bind ?_ ?_
  · intro document w₁ hgot
    obtain ⟨rfl, hresolve, -⟩ := hgot
    rw [Registry.resolve_tag hprefix, htagged] at hresolve
    obtain rfl := Option.some.inj hresolve
    obtain ⟨anchor, config, payload, hdescriptors, hanchor, hconfig, hpayload⟩ := hconveys.descriptors
    have hsame : ∀ a b : World policy, a = b → ∀ (digest : String) (body : Bytes),
        a.registry.blobs[digest]? = some body →
        b.registry.blobs[digest]? = some body := fun _ _ heq => heq ▸ fun _ _ h => h
    refine (storedFromManifest_read laws reading_answer hrely w hsame hdescriptors h.valid
      h.short hconfig hpayload h.config).bind ?_ ?_
    · intro resolved w₂ hread
      obtain ⟨found, manifest, payload'⟩ := resolved
      obtain ⟨rfl, rfl, rfl, -⟩ := hread
      have hresource : found.metadata.objectRef.resourceRef = adapter.semanticResource := by
        rw [h.named]
      have hsame : ¬found.metadata.objectRef.objectId ≠ reference.objectId := not_not.mpr hid.symm
      have hgetD : ¬reference.digest.getD found.metadata.digest ≠ found.metadata.digest := by
        rcases hdigest with hnone | hsome
        · rw [hnone]
          exact not_not.mpr rfl
        · rw [hsome]
          exact not_not.mpr rfl
      dsimp only
      rw [if_neg (not_not.mpr hresource), if_neg hsame, if_neg hgetD, hid, anchorTag_eq laws, Action.lift_ok,
        Prog.ret_bind]
      refine (getManifest_ensures laws reading_answer hrely _ (isPrefixOf_anchorName _)).bind ?_ ?_
      · intro anchored w₂ hgot
        obtain ⟨rfl, hresolve, -⟩ := hgot
        rw [Registry.resolve_tag (isPrefixOf_anchorName _), hsubject] at hresolve
        have hbody : subject = anchored.body := Option.some.inj hresolve
        have hdigests : ¬anchor.digest ≠ anchored.digest := by
          rw [hanchor, hbody, anchored.digest_eq]
          exact not_not.mpr rfl
        rw [hdescriptors, Action.lift_ok, Prog.ret_bind]
        dsimp only
        rw [if_neg hdigests]
        exact ⟨_, rfl, rfl⟩
      · intro error w₂ hfailed
        obtain ⟨rfl, hfalse | ⟨hnone, -⟩ | ⟨other, hother, hbad⟩⟩ := hfailed
        · exact hfalse.elim
        · rw [Registry.resolve_tag (isPrefixOf_anchorName _), hsubject] at hnone
          cases hnone
        · rw [Registry.resolve_tag (isPrefixOf_anchorName _), hsubject] at hother
          obtain rfl := Option.some.inj hother
          exact absurd hanchorParse (hbad anchorDocument)
    · intro error w₂ hfailed
      exact hfailed.2.elim
  · intro error w₁ hfailed
    obtain ⟨rfl, hfalse | ⟨hnone, -⟩ | ⟨found, hfound, hbad⟩⟩ := hfailed
    · exact hfalse.elim
    · rw [Registry.resolve_tag hprefix, htagged] at hnone
      cases hnone
    · rw [Registry.resolve_tag hprefix, htagged] at hfound
      obtain rfl := Option.some.inj hfound
      exact absurd hparsed (hbad parsed)

end Standing

/-! ## Puts beside others -/

section Puts

variable {adapter : OciDistributionAdapter} {setting : Setting P adapter.transport.binding}
variable {w w' : World setting.policy}

/-- The anchor that a put has made sure of is there. -/
theorem ensureAnchor_done (laws : P.Lawful) {objectId : String} {anchor : OciDescriptor P}
    (h : Performs setting.amid (adapter.ensureAnchor P objectId) w (.ok anchor) w') :
    ∃ subject, w'.registry.tagged (anchorName P objectId) = some subject ∧
      (∃ document, ManifestDocument.parse P subject none adapter.transport.binding.maxManifestBytes = .ok document) ∧
      anchor.mediaType = ociManifestMediaType ∧ anchor.digest = sha256Digest P subject := by
  unfold OciDistributionAdapter.ensureAnchor at h
  rw [anchorTag_eq laws, Action.lift_ok, Prog.ret_bind] at h
  obtain ⟨found, w₁, -, hrest⟩ := h.of_bind
  cases found with
  | true =>
    rw [if_pos rfl] at hrest
    obtain ⟨document, w₂, hgot, hlast⟩ := hrest.of_bind
    obtain ⟨-, hresolve, -, hparse⟩ := hgot.ensures
      (getManifest_ensures laws amid_reading (G := fun _ _ => True) (fun _ _ _ => trivial) w₁ (isPrefixOf_anchorName _))
    rw [Registry.resolve_tag (isPrefixOf_anchorName _)] at hresolve
    split at hlast
    · cases hlast
    · obtain ⟨hnew, rfl⟩ := performs_pure hlast
      obtain ⟨d, hd, hmedia, hdigest, -⟩ := OciDescriptor_new_sha256 laws document.body
        document.body.length (show ociManifestMediaType.toList.contains '/' = true by decide)
      rw [document.digest_eq, hd] at hnew
      obtain rfl := Except.ok.inj hnew
      exact ⟨document.body, hresolve, ⟨document, hparse⟩, hmedia, hdigest⟩
  | false =>
    rw [if_neg Bool.false_ne_true] at hrest
    obtain ⟨_, w₂, -, hput⟩ := hrest.of_bind
    obtain ⟨hmedia, hdigest, htagged, hparse⟩ := hput.ensures (putManifest_done laws w₂ _ _) anchor rfl
    exact ⟨_, htagged, hparse, hmedia, hdigest⟩

/-- A version that was published stands. -/
theorem publishVersion_done (laws : P.Lawful) {stored : StoredObject} {content subject : Bytes}
    {anchor : OciDescriptor P} {metadata : ObjectMetadata} (hvalid : stored.Valid P)
    (hnamed : stored.metadata.objectRef = ⟨adapter.semanticResource, stored.objectId, some stored.metadata.digest⟩)
    (hdigest : stored.metadata.digest = sha256Digest P content)
    (hlength : stored.metadata.byteLength = content.length)
    (hsubject : w.registry.tagged (anchorName P stored.objectId) = some subject)
    (hparsed : ∃ document,
      ManifestDocument.parse P subject none adapter.transport.binding.maxManifestBytes = .ok document)
    (hanchor : anchor.mediaType = ociManifestMediaType ∧ anchor.digest = sha256Digest P subject)
    (h : Performs setting.amid (adapter.publishVersion P stored.objectId (identityOf P content) anchor stored
      (stored.exactName P)) w (.ok metadata) w') :
    metadata = stored.metadata ∧ ∃ body, Standing P adapter w'.registry stored body := by
  unfold OciDistributionAdapter.publishVersion at h
  dsimp only at h
  by_cases hlong : adapter.binding.maxMetadataBytes < (stored.toBytes P).length
  · rw [if_pos hlong] at h
    cases h
  rw [if_neg hlong] at h
  obtain ⟨config, w₁, hconfig, h₁⟩ := h.of_bind
  obtain ⟨payload, hpayload, h₂⟩ := performs_lift h₁
  obtain ⟨_, w₂, hexact, h₃⟩ := h₂.of_bind
  rw [latestTag_eq laws, Action.lift_ok, Prog.ret_bind] at h₃
  obtain ⟨_, w₃, hlatest, hlast⟩ := h₃.of_bind
  cases hlast
  have hpersists₁ := hconfig.ensures (publishes_persists laws (publishes_off (off_uploadBlobBytes _ _)) w)
  have hpersists₂ := hexact.ensures (publishes_persists laws (publishes_putManifest _ _ _) w₁)
  have hpersists₃ := hlatest.ensures (publishes_persists laws (publishes_putManifest _ _ _) w₂)
  obtain ⟨hnew, hblob⟩ := hconfig.ensures (uploadBlobBytes_done laws w _ _) config rfl
  obtain ⟨-, -, hexactTagged, hbodyParsed⟩ := hexact.ensures (putManifest_done laws w₁ _ _) _ rfl
  obtain ⟨-, -, hlatestTagged, -⟩ := hlatest.ensures (putManifest_done laws w₂ _ _) _ rfl
  have hconfigFields : config.mediaType = meridianObjectConfigMediaType ∧
      config.digest = sha256Digest P (stored.toBytes P) ∧ config.size = (stored.toBytes P).length := by
    obtain ⟨d, hd, hfields⟩ := OciDescriptor_new_sha256 laws (stored.toBytes P) (stored.toBytes P).length
      (show meridianObjectConfigMediaType.toList.contains '/' = true by decide)
    obtain rfl := Except.ok.inj (hnew.symm.trans hd)
    exact hfields
  have hpayloadFields : payload.mediaType = stored.metadata.mediaType ∧ payload.digest = stored.metadata.digest ∧
      payload.size = stored.metadata.byteLength := by
    unfold OciDescriptor.new at hpayload
    split at hpayload
    · split at hpayload
      · obtain rfl := Except.ok.inj hpayload
        exact ⟨rfl, hdigest.symm, hlength.symm⟩
      · cases hpayload
    · cases hpayload
  refine ⟨rfl, _, hvalid, Nat.not_lt.mp hlong, hnamed, ⟨content, hdigest⟩, ?_, ?_, hlatestTagged, hbodyParsed, subject,
    ?_, hparsed, anchor, config, payload, hanchor, hconfigFields, hpayloadFields, rfl⟩
  · exact hpersists₃.blobs _ _ (hpersists₂.blobs _ _ hblob)
  · exact hpersists₃.tags _ _ hexactTagged
  · exact hpersists₃.tags _ _ (hpersists₂.tags _ _ (hpersists₁.tags _ _ hsubject))

theorem commitFresh_done (laws : P.Lawful) {value : PutInput} {content : Bytes} {immutability : ImmutabilityRequest}
    {retention : Option RetentionRequest} {metadata : ObjectMetadata} (himmutability : immutability.Valid P)
    (hretention : ∀ request, retention = some request → request.Valid P)
    (h : Performs setting.amid (adapter.commitFresh P value (identityOf P content) immutability retention
      (versionName P value.objectId (sha256Digest P content))) w (.ok metadata) w') :
    ∃ stored body, stored.metadata = metadata ∧ stored.objectId = value.objectId ∧
      Standing P adapter w'.registry stored body := by
  unfold OciDistributionAdapter.commitFresh at h
  obtain ⟨anchor, w₁, hanchor, h₁⟩ := h.of_bind
  obtain ⟨provenance, -, h₂⟩ := performs_lift h₁
  obtain ⟨createdAt, w₂, hnow, h₃⟩ := h₂.of_bind
  obtain ⟨fields, hfields, hpublish⟩ := performs_lift h₃
  obtain ⟨subject, hsubject, hparsed, hdescriptor⟩ := ensureAnchor_done laws hanchor
  have hpersists := hnow.ensures (publishes_persists laws (publishes_off off_now) w₁)
  obtain ⟨hobjectRef, hdigest, hlength, -⟩ := laws.metadata_fields _ _ hfields
  let stored : StoredObject := ⟨fields, immutability, retention⟩
  have hid : stored.objectId = value.objectId := by
    rw [StoredObject.objectId, hobjectRef]
    rfl
  have hdigest' : stored.metadata.digest = sha256Digest P content := hdigest
  have hexact : versionName P value.objectId (sha256Digest P content) = stored.exactName P := by
    rw [StoredObject.exactName, hid, hdigest']
  rw [← hid] at hsubject
  rw [hexact, ← hid] at hpublish
  obtain ⟨rfl, body, hstanding⟩ := publishVersion_done laws ⟨⟨_, hfields⟩, himmutability, hretention⟩
    (by rw [hid, hobjectRef, hdigest']; rfl) hdigest' hlength (hpersists.tags _ _ hsubject) hparsed hdescriptor hpublish
  exact ⟨stored, body, rfl, hid, hstanding⟩

/-- A commit that may only create has created. -/
theorem commitObject_done (laws : P.Lawful) {value : PutInput} {content : Bytes} {immutability : ImmutabilityRequest}
    {retention : Option RetentionRequest} {metadata : ObjectMetadata} (himmutability : immutability.Valid P)
    (hretention : ∀ request, retention = some request → request.Valid P)
    (h : Performs setting.amid (adapter.commitObject P value (identityOf P content) immutability retention true) w
      (.ok metadata) w') :
    ∃ stored body, stored.metadata = metadata ∧ stored.objectId = value.objectId ∧
      Standing P adapter w'.registry stored body := by
  have hversion : versionTag P value.objectId (identityOf P content).digest =
      .ok (versionName P value.objectId (sha256Digest P content)) := versionTag_eq laws _ _
  unfold OciDistributionAdapter.commitObject at h
  obtain ⟨_, w₁, -, h₁⟩ := h.of_bind
  rw [hversion, Action.lift_ok, Prog.ret_bind] at h₁
  obtain ⟨found, w₂, -, hcommit⟩ := h₁.of_bind
  cases found with
  | true =>
    rw [if_pos rfl] at hcommit
    cases hcommit
  | false =>
    rw [if_neg Bool.false_ne_true] at hcommit
    exact commitFresh_done laws himmutability hretention hcommit

/-- An upload that returns has hashed some content. -/
theorem uploadPayload_identity {σ : Type} {env : Environment Op Op.Res Err σ} {s s' : σ} {payload : PayloadReference}
    {identity : ContentIdentity} (h : Performs env (adapter.uploadPayload P payload) s (.ok identity) s') :
    ∃ content, identity = identityOf P content := by
  obtain ⟨trace, htrace⟩ := h.traces
  have hone : ∀ s trace, Traces env (adapter.uploadAttempt P payload 1) s trace (.ok identity) s' →
      ∃ content, identity = identityOf P content := by
    intro s trace hattempt
    obtain ⟨content, ⟨stream, -, -, -, hidentity⟩, -⟩ := (uploadAttempt_one_passed hattempt).2 identity rfl
    exact ⟨content, hidentity⟩
  unfold OciDistributionAdapter.uploadPayload at htrace
  split at htrace
  · rcases uploadAttempt_traces htrace with honce | ⟨-, front, error, s₁, rest, -, -, -, hrest⟩
    · exact hone _ _ honce
    · exact hone _ _ hrest
  · exact hone _ _ htrace

/-- A request that only creates: create-only or publish-once. -/
def Creates (P : Platform) (value : PutInput) : Prop :=
  ∀ immutability, immutabilityOf P value = .ok immutability → (value.createOnly || immutability.publishOnce) = true

/-- A put that may only create returns the metadata of a version that stands. -/
theorem put_done (laws : P.Lawful) {value : PutInput} (hcreates : Creates P value) {result : Result}
    (h : Performs setting.amid (adapter.put P value) w (.ok result) w') :
    ∃ stored body, result = .put stored.metadata ∧ stored.objectId = value.objectId ∧
      Standing P adapter w'.registry stored body := by
  unfold OciDistributionAdapter.put at h
  obtain ⟨payload, -, h₁⟩ := performs_lift h
  obtain ⟨immutability, himmutability, h₂⟩ := performs_lift h₁
  obtain ⟨retention, hretention, h₃⟩ := performs_lift h₂
  obtain ⟨_, w₁, -, h₄⟩ := h₃.of_bind
  obtain ⟨w₂, h₅, hrelease⟩ := h₄.of_finally
  obtain ⟨_, w₃, -, h₆⟩ := h₅.of_bind
  obtain ⟨machine, -, h₇⟩ := performs_lift h₆
  obtain ⟨identity, w₄, hupload, h₈⟩ := h₇.of_bind
  obtain ⟨content, rfl⟩ := uploadPayload_identity (performs_failing hupload)
  obtain ⟨machine', w₅, -, h₉⟩ := h₈.of_bind
  obtain ⟨metadata, w₆, hcommit, hlast⟩ := h₉.of_bind
  obtain ⟨_, w₇, hcommitted, hreturn⟩ := hlast.of_bind
  cases hreturn
  obtain ⟨-, rfl⟩ := performs_pure (performs_failing hcommitted)
  rw [hcreates immutability himmutability] at hcommit
  obtain ⟨stored, body, rfl, hid, hstanding⟩ := commitObject_done laws (immutabilityOf_valid himmutability)
    (retentionOf_valid hretention) (performs_failing hcommit)
  have hoff : (Prog.perform Op.release : Action Unit).Uses Op.OffManifests :=
    Prog.uses_perform fun request hsend => by cases hsend
  have hpersists := hrelease.ensures (publishes_persists laws (publishes_off hoff) _)
  exact ⟨stored, body, rfl, hid, hstanding.mono hpersists⟩

end Puts

/-! ## Several writers -/

/-- What an adapter makes of a reference in one process. -/
def Site.lookup {binding : OciDistributionBinding} {policy : Policy P binding} {κ : Type} (site : Site policy κ)
    (home : κ) (peer : Peer binding) (reference : ObjectReference) : Except Err (ResolvedObject P) :=
  @World.lookup P peer.adapter policy (site.world home) reference

/-- The program puts a version of an object id if there is none. -/
def Writes {binding : OciDistributionBinding} (P : Platform) (peer : Peer binding) (objectId : String)
    (program : Action Answer) : Prop :=
  ∃ operation value, operation.input = .put value ∧ value.objectId = objectId ∧ Creates P value ∧
    program = (Call.execute operation).program P peer.adapter

section Several

variable {binding : OciDistributionBinding} {setting : Setting P binding} {ι κ : Type} [DecidableEq ι]
variable {home : ι → κ} {peers : ι → Peer binding} {programs rest : ι → Action Answer} {objectId : String}
variable {first last : Site setting.policy κ} {log : List (Occurrence ι Op Op.Res Err (Site setting.policy κ))}

theorem Writes.publishes {peer : Peer binding} {program : Action Answer} (h : Writes P peer objectId program) :
    program.Uses Op.Publishes := by
  obtain ⟨operation, value, hinput, -, -, rfl⟩ := h
  have hpublished : (Call.execute operation).published = some value.objectId := by
    rw [Call.published, hinput]
  exact publishes_call hpublished

/-- A writer that returns, beside others that publish, leaves a standing version. -/
theorem Writes.standing (laws : P.Lawful) {peer : Peer binding} {program : Action Answer}
    (h : Writes P peer objectId program) {w w' : World setting.policy} {metadata : ObjectMetadata}
    (hperforms : Performs setting.amid program w (.ok (.result (.put metadata))) w') :
    ∃ stored body, stored.metadata = metadata ∧ stored.objectId = objectId ∧
      @Standing P peer.adapter setting.policy w'.registry stored body := by
  obtain ⟨operation, value, hinput, rfl, hcreates, rfl⟩ := h
  obtain ⟨inner, hexecute, hinner⟩ := hperforms.of_wrap
  cases inner with
  | error error => cases hinner
  | ok result =>
    obtain rfl : Result.put metadata = result := Answer.result.inj (Except.ok.inj hinner)
    unfold OciDistributionAdapter.execute at hexecute
    obtain ⟨method, -, h₁⟩ := performs_lift hexecute
    obtain ⟨_, -, h₂⟩ := performs_lift h₁
    rw [hinput] at h₂
    dsimp only at h₂
    split at h₂
    · obtain ⟨stored, body, hput, hid, hstanding⟩ := @put_done P peer.adapter setting _ _ laws value hcreates _ h₂
      exact ⟨stored, body, (Result.put.inj hput).symm, hid, hstanding⟩
    · cases h₂

/-- The version of a writer that has returned stands, whatever the others have done since. -/
theorem writer_standing (laws : P.Lawful) (hhome : Function.Injective home)
    (hwrites : ∀ i, Writes P (peers i) objectId (programs i))
    (hturns : Turns (fun i => Site.env (setting.guarded True) (home i)) programs first rest last log)
    {i : ι} {metadata : ObjectMetadata} (hreturned : rest i = .ret (.result (.put metadata))) :
    ∃ stored body, stored.metadata = metadata ∧ stored.objectId = objectId ∧
      @Standing P (peers i).adapter setting.policy last.registry stored body := by
  have hanswered := hturns.answered
  obtain ⟨-, hpublishes⟩ := hturns.uses fun i => (hwrites i).publishes
  have hothers : ∀ turn ∈ log, turn.who ≠ i →
      (turn.before.world (home i)).Beside (turn.after.world (home i)) := by
    intro turn hmem hne
    have hsite := hanswered turn hmem
    have hpersists : turn.before.registry.Persists turn.after.registry :=
      guarded_persists laws (hpublishes turn hmem) hsite.1
    exact ⟨Site.apart hsite fun heq => hne (hhome heq).symm, hpersists⟩
  have hrefl : ∀ w : World setting.policy, w.Beside w := World.Beside.refl
  have htrans : ∀ a b c : World setting.policy, a.Beside b → b.Beside c → a.Beside c := fun _ _ _ h h' => h.trans h'
  obtain ⟨w, hadvances, hbeside⟩ := hturns.advances (fun _ _ _ _ h => h.1) hrefl htrans hothers
  rw [hreturned] at hadvances
  have htraces : Traces setting.amid (programs i) (first.world (home i)) (Turns.own i log)
      (.ok (.result (.put metadata))) w := hadvances.ends
  obtain ⟨stored, body, hmetadata, hid, hstanding⟩ := (hwrites i).standing laws htraces.performs
  exact ⟨stored, body, hmetadata, hid, hstanding.mono hbeside.2⟩

/-- Whoever returns has put the version that both references resolve to, and so all return the same. -/
theorem writers_agree (laws : P.Lawful) (hhome : Function.Injective home)
    (hwrites : ∀ i, Writes P (peers i) objectId (programs i))
    (hturns : Turns (fun i => Site.env (setting.guarded True) (home i)) programs first rest last log) :
    (∀ i metadata, rest i = .ret (.result (.put metadata)) →
      (∃ resolved, last.lookup (home i) (peers i) (exactReference (peers i).adapter objectId metadata.digest) =
        .ok resolved ∧ resolved.stored.metadata = metadata) ∧
      ∃ resolved, last.lookup (home i) (peers i) (latestReference (peers i).adapter objectId) = .ok resolved ∧
        resolved.stored.metadata = metadata) ∧
    ∀ i j metadata metadata', rest i = .ret (.result (.put metadata)) →
      rest j = .ret (.result (.put metadata')) → metadata' = metadata := by
  constructor
  · intro i metadata hreturned
    obtain ⟨stored, body, rfl, rfl, hstanding⟩ := writer_standing laws hhome hwrites hturns hreturned
    have hworld : @Standing P (peers i).adapter setting.policy (last.world (home i)).registry stored body := hstanding
    constructor
    · have hexact : ∃ resolved, last.lookup (home i) (peers i) (exactReference (peers i).adapter stored.objectId
          stored.metadata.digest) = .ok resolved ∧ resolved.stored = stored := hworld.lookup laws rfl (.inr rfl)
      obtain ⟨resolved, hlookup, hstored⟩ := hexact
      exact ⟨resolved, hlookup, by rw [hstored]⟩
    · have hlatest : ∃ resolved, last.lookup (home i) (peers i) (latestReference (peers i).adapter stored.objectId) =
          .ok resolved ∧ resolved.stored = stored := hworld.lookup laws rfl (.inl rfl)
      obtain ⟨resolved, hlookup, hstored⟩ := hlatest
      exact ⟨resolved, hlookup, by rw [hstored]⟩
  · intro i j metadata metadata' hi hj
    obtain ⟨stored, body, rfl, hid, hstanding⟩ := writer_standing laws hhome hwrites hturns hi
    obtain ⟨stored', body', rfl, hid', hstanding'⟩ := writer_standing laws hhome hwrites hturns hj
    have hlatest : last.registry.tagged (stored.movingName P) = some body := hstanding.latest
    have hlatest' : last.registry.tagged (stored'.movingName P) = some body' := hstanding'.latest
    rw [StoredObject.movingName, hid] at hlatest
    rw [StoredObject.movingName, hid', hlatest] at hlatest'
    obtain rfl := Option.some.inj hlatest'
    obtain ⟨subject, -, -, hconveys⟩ := hstanding.anchored
    obtain ⟨subject', -, -, hconveys'⟩ := hstanding'.anchored
    rw [hconveys'.injective laws hstanding'.valid hstanding.valid hconveys]

end Several

/-! ## A writer that moves no tag -/

section Unopposed

variable {adapter : OciDistributionAdapter} {setting : Setting P adapter.transport.binding} {α : Type}

/-- A program that publishes removes no tag. -/
theorem publishes_tagged (laws : P.Lawful) {w : World setting.policy} {request : Request}
    (hpublishes : Op.Publishes (.send request)) {tag : String} (htagged : (w.registry.tagged tag).isSome) :
    ((w.apply request).registry.tagged tag).isSome := by
  by_cases hrepoints : w.registry.Repoints request
  · obtain ⟨other, body, -, rfl, -, -⟩ := hrepoints
    rw [World.apply_putManifest, Registry.tagged_putTag laws]
    split
    · rfl
    · exact htagged
  · obtain ⟨body, hbody⟩ := Option.isSome_iff_exists.mp htagged
    rw [(persists_apply laws w hpublishes hrepoints).tags tag body hbody]
    rfl

/-- Without a deletion every version stays live. -/
theorem Move.live_subset (laws : P.Lawful) {registry registry' : Registry setting.policy}
    (h : Move registry registry')
    (hkeeps : ∀ tag, (registry.tagged tag).isSome → (registry'.tagged tag).isSome) :
    (catalogOf registry).live ⊆ (catalogOf registry').live := by
  cases h with
  | quiet _ hgrows => rw [catalogOf_grows hgrows]
  | anchor objectId =>
    rw [catalogOf_anchor laws]
    exact fun _ hlive => hlive
  | publish stored body hpublished hcomplete hfree =>
    rw [catalogOf_publish laws hpublished hfree]
    exact fun _ hlive => .inr hlive
  | point stored body hpublished hexact =>
    rw [catalogOf_point laws hpublished]
    exact fun _ hlive => hlive
  | remove stored body hpublished hexact =>
    have hgone := hkeeps (stored.exactName P) (by rw [hexact]; rfl)
    rw [Registry.tagged_deleteManifest laws, if_pos hexact] at hgone
    cases hgone

/-- Where one version at most is live, the change that a manifest makes moves no tag. -/
theorem Move.not_repoints (laws : P.Lawful) {w : World setting.policy} {request : Request}
    (hintact : Intact w.registry) (h : Move w.registry (w.apply request).registry) {stored : StoredObject}
    (hsole : ∀ other ∈ (catalogOf w.registry).live, other = stored) : ¬w.registry.Repoints request := by
  intro hrepoints
  obtain ⟨tag, body, digest, rfl, htag, hne⟩ := hrepoints
  rw [World.apply_putManifest] at h
  have hafter : (w.registry.putTag tag body).tags[tag]? = some (sha256Digest P body) :=
    (Table.get?_insert _ _ _ _).trans (if_pos rfl)
  obtain ⟨old, hold⟩ := Option.isSome_iff_exists.mp (w.registry.tags_stored _ _ htag)
  have htagged : w.registry.tagged tag = some old := Registry.tagged_eq_some.mpr (by
    rw [w.registry.manifests_addressed _ _ hold]
    exact ⟨htag, hold⟩)
  have hput : ∀ (name : String) (found : Bytes), (w.registry.putTag name found).tags[tag]? =
      if name = tag then some (sha256Digest P found) else some digest :=
    fun name found => (Table.get?_insert _ _ _ _).trans (by rw [htag])
  have hdigest : sha256Digest P old = digest := w.registry.manifests_addressed _ _ hold
  generalize w.registry.putTag tag body = registry' at h hafter
  -- the only change that could move the tag is that of a latest tag, and there is one version for it
  cases h with
  | quiet _ hgrows =>
    rw [hgrows.tags, htag] at hafter
    exact hne (Option.some.inj hafter)
  | anchor objectId =>
    have hmoved := (hput (anchorName P objectId) (anchorBody P objectId)).symm.trans hafter
    split at hmoved
    · rename_i hname
      subst hname
      rw [← hintact.anchored laws htagged, hdigest] at hmoved
      exact hne (Option.some.inj hmoved)
    · exact hne (Option.some.inj hmoved)
  | publish other found hpublished hcomplete hfree =>
    have hmoved := (hput (other.exactName P) found).symm.trans hafter
    split at hmoved
    · rename_i hname
      rw [hname, htagged] at hfree
      cases hfree
    · exact hne (Option.some.inj hmoved)
  | point other found hpublished hexact =>
    have hmoved := (hput (other.movingName P) found).symm.trans hafter
    split at hmoved
    · rename_i hname
      have hfamily := hintact.tags _ _ htagged
      generalize tag = name at hname hfamily
      cases hfamily with
      | anchor objectId => exact StoredObject.anchorName_ne_movingName _ _ hname.symm
      | exact version hversion => exact StoredObject.movingName_ne_exactName _ _ hname
      | latest version hversion hlive =>
        obtain rfl : version = stored := hsole _ ⟨old, hversion, hlive⟩
        obtain rfl : other = version := hsole _ ⟨found, hpublished, hexact⟩
        rw [← hversion.unique hpublished, hdigest] at hmoved
        exact hne (Option.some.inj hmoved)
    · exact hne (Option.some.inj hmoved)
  | remove other found =>
    have hkept := (Table.get?_filter.mp hafter).1
    rw [htag] at hkept
    exact hne (Option.some.inj hkept)

/-- A run that ends with one live version is a run beside a registry with protected tags. -/
theorem performs_unopposed (laws : P.Lawful) (hfaults : ¬setting.faults) {program : Action α}
    {Q : Except Err α → World setting.policy → Prop} {w w' : World setting.policy} {outcome : Except Err α}
    {stored : StoredObject} (h : Performs setting.env program w outcome w')
    (hens : program.Ensures setting.env (fun a b => World.Change a b ∧ Intact a.registry ∧ Intact b.registry) w Q)
    (huses : program.Uses Op.Publishes)
    (hsole : ∀ other ∈ (catalogOf w'.registry).live, other = stored) :
    (∀ other ∈ (catalogOf w.registry).live, other = stored) ∧
      Performs (setting.guarded True) program w outcome w' := by
  induction h with
  | ret value w => exact ⟨hsole, .ret value w⟩
  | raise error w => exact ⟨hsole, .raise error w⟩
  | call op next w w₁ w₂ answer outcome hanswer _ ih =>
    obtain ⟨⟨hmove, hintact, -⟩, hrest⟩ := hens answer w₁ hanswer
    obtain ⟨hsole₁, hperforms⟩ := ih hrest (huses.2 answer) hsole
    have hmove' : Move w.registry w₁.registry := hmove
    suffices hstep : (∀ other ∈ (catalogOf w.registry).live, other = stored) ∧
        setting.guarded True op w answer w₁ from
      ⟨hstep.1, .call op next w w₁ w₂ answer outcome hstep.2 hperforms⟩
    have hpublishes := huses.1
    cases op with
    | send request =>
      rcases hanswer with ⟨rfl, rfl⟩ | ⟨hfault, -⟩
      · have hsole' : ∀ other ∈ (catalogOf w.registry).live, other = stored := fun other hother =>
          hsole₁ other (hmove'.live_subset laws (fun _ => publishes_tagged laws hpublishes) hother)
        exact ⟨hsole', .answered fun _ => hmove'.not_repoints laws hintact hsole'⟩
      · exact absurd hfault hfaults
    | clock =>
      refine ⟨?_, hanswer⟩
      rcases hanswer with ⟨now, -, -, rfl⟩ | ⟨-, -, rfl⟩
      · exact hsole₁
      · exact hsole₁
    | register source length digest =>
      refine ⟨?_, hanswer⟩
      obtain ⟨id, -, rfl⟩ := hanswer
      exact hsole₁
    | _ =>
      refine ⟨?_, hanswer⟩
      obtain ⟨-, rfl⟩ := hanswer
      exact hsole₁

/-- The site of a process, beside processes that do nothing. -/
def World.among {κ : Type} [DecidableEq κ] {policy : Policy P adapter.transport.binding} (w : World policy) (home : κ)
    (others : κ → Process) : Site policy κ :=
  ⟨w.registry, Function.update others home ⟨w.memory, w.now, w.payloads⟩⟩

theorem World.world_among {κ : Type} [DecidableEq κ] {policy : Policy P adapter.transport.binding} (w : World policy)
    (home : κ) (others : κ → Process) : (w.among home others).world home = w := by
  simp [World.among, Site.world]

theorem World.among_world {κ : Type} [DecidableEq κ] {policy : Policy P adapter.transport.binding} (site : Site policy κ)
    (home : κ) : (site.world home).among home site.process = site := by
  simp [World.among, Site.world]

theorem performs_among {κ : Type} [DecidableEq κ] {env : Environment Op Op.Res Err (World setting.policy)}
    {program : Action α} {w w' : World setting.policy} {outcome : Except Err α} (home : κ) (others : κ → Process)
    (h : Performs env program w outcome w') :
    Performs (Site.env env home) program (w.among home others) outcome (w'.among home others) := by
  have hstep : ∀ op (w : World setting.policy) answer w', True → env op w answer w' →
      True ∧ Site.env env home op (w.among home others) answer (w'.among home others) := by
    intro op w answer w' _ hanswer
    refine ⟨trivial, ?_, fun other hother => ?_⟩
    · rw [World.world_among, World.world_among]
      exact hanswer
    · simp [World.among, hother]
  exact h.map hstep trivial

/-- A registry that guards its tags has an answer to everything. -/
theorem Responsive.guarded (h : Responsive setting) (op : Op) (w : World setting.policy) :
    ∃ answer w', setting.guarded True op w answer w' := by
  cases op with
  | send request =>
    by_cases hrepoints : w.registry.Repoints request
    · exact ⟨.ok ⟨409, [], "", [], none⟩, w, .refused _ hrepoints rfl fun failure hfailure => by cases hfailure⟩
    · exact ⟨_, _, .answered fun _ => hrepoints⟩
  | _ => exact h.answers _ w

end Unopposed

namespace Sample

open MeridianOci.Model.Sample

/-- A put of an object that must be new. -/
def newPut (text : String) : Plain := { objectId := "a", text, createOnly := true }

/-- One of two writers that begin in an empty repository is done. -/
theorem new_run : ∃ limit, ∃ w : World (Sample.setting limit False).policy,
    Performs ((Sample.setting limit False).guarded True)
      ((Call.execute (newPut "x").operation).program platform (Sample.adapter limit)) (World.empty _ (.aware 0))
      (.ok (.result (.put (newPut "x").stored.metadata))) w := by
  obtain ⟨limit, hfits⟩ := (newPut "x").exists_fits (by decide)
  have hintact : Intact (World.empty (Sample.setting limit False).policy (.aware 0)).registry := intact_empty
  have hnone : ∀ other ∈ (catalogOf (World.empty (Sample.setting limit False).policy (.aware 0)).registry).live,
      False := by
    intro other hother
    rw [catalogOf_empty] at hother
    exact hother
  have hvalid := validPut hfits (w := World.empty (Sample.setting limit False).policy (.aware 0))
    (fun _ => empty_tagged _ _) (not_blocked lawful hintact fun other hother => (hnone other hother).elim)
  obtain ⟨outcome, w, hput⟩ := (responsive limit False).performs
    ((Sample.adapter limit).put platform (newPut "x").input) (World.empty _ (.aware 0))
  obtain ⟨-, metadata, rfl, hsucceeded⟩ := hput.ensures (put_valid_ensures lawful hintact id hvalid)
  obtain ⟨rfl, hcatalog⟩ := plain_catalog hintact hsucceeded fun other hother => (hnone other hother).elim
  have hsole : ∀ other ∈ (catalogOf w.registry).live, other = (newPut "x").stored := by
    intro other hother
    rw [hcatalog, catalogOf_empty] at hother
    rcases hother with rfl | hempty
    · rfl
    · exact hempty.elim
  have hkept : ∀ s s' : World (Sample.setting limit False).policy, Intact s.registry → World.Change s s' →
      Intact s'.registry := fun _ _ hs hmove => Move.intact lawful hmove hs
  have hens := (put_ensures lawful _ hintact (newPut "x").input).invariant hkept hintact
  have huses : ((Sample.adapter limit).put platform (newPut "x").input).Uses Op.Publishes := publishes_put _
  obtain ⟨-, hperforms⟩ := performs_unopposed lawful id hput hens huses hsole
  refine ⟨limit, w, ?_⟩
  show Performs _ ((Sample.adapter limit).execute platform (newPut "x").operation >>= _) _ _ _
  rw [execute_put accepted_put rfl]
  exact hperforms.handle (.ret _ _)

/-- One writer is done, and another one with another content comes after it. -/
theorem writers_agree_both : ∃ limit, ∃ (peer : Peer (Sample.adapter limit).transport.binding)
    (first last : Site (Sample.setting limit False).policy Bool) (rest : Bool → Action Answer) (log : _)
    (outcome : Except Err Answer) (metadata : ObjectMetadata),
    Turns (fun i => Site.env ((Sample.setting limit False).guarded True) i) (fun i => (Call.execute
      (newPut (if i then "x" else "y")).operation).program platform peer.adapter) first rest last log ∧
    rest true = .ret (.result (.put metadata)) ∧ rest false = Prog.ofExcept outcome ∧
    (∃ resolved, last.lookup true peer (latestReference peer.adapter "a") = .ok resolved ∧
      resolved.stored.metadata = metadata) ∧
    ∀ metadata', rest false = .ret (.result (.put metadata')) → metadata' = metadata := by
  obtain ⟨limit, w, hperforms⟩ := new_run
  let peer : Peer (Sample.adapter limit).transport.binding :=
    ⟨(Sample.adapter limit).binding, (Sample.adapter limit).transport.maxReadAttempts,
      (Sample.adapter limit).transport.maxReadAttempts_pos⟩
  let others : Bool → Process := fun _ => ⟨⟨[], []⟩, .aware 0, []⟩
  let programs : Bool → Action Answer := fun i =>
    (Call.execute (newPut (if i then "x" else "y")).operation).program platform peer.adapter
  have hcreates : ∀ text, Creates platform (newPut text).input := fun _ _ _ => rfl
  have hwrites : ∀ i, Writes platform peer "a" (programs i) := fun i => ⟨_, _, rfl, rfl, hcreates _, rfl⟩
  have hstart : Turns (fun i => Site.env ((Sample.setting limit False).guarded True) i) programs
      ((World.empty (Sample.setting limit False).policy (.aware 0)).among true others) programs _ [] := .start
  obtain ⟨more, hfirst, -⟩ := hstart.performs (performs_among true others hperforms)
  -- the other writer begins in the repository that the first has left
  obtain ⟨outcome, w', hother⟩ := exists_performs (fun op w _ => (responsive limit False).guarded op w)
    (programs false).uses_anything ((w.among true others).world false)
  have hlater := performs_among false (w.among true others).process hother
  rw [World.among_world] at hlater
  have hprogram : Function.update programs true (.ret (.result (.put (newPut "x").stored.metadata))) false =
      programs false := Function.update_of_ne (by decide) _ _
  obtain ⟨later, hturns, -⟩ := hfirst.performs (show Performs _ (Function.update programs true _ false) _ _ _ from
    hprogram.symm ▸ hlater)
  have hinjective : Function.Injective (id : Bool → Bool) := Function.injective_id
  obtain ⟨hresolves, hsame⟩ := @writers_agree platform _ _ _ _ _ id (fun _ => peer) programs _ "a" _ _ _ lawful hinjective
    hwrites hturns
  have hdone : Function.update (Function.update programs true (.ret (.result (.put (newPut "x").stored.metadata)))) false
      (Prog.ofExcept outcome) true = .ret (.result (.put (newPut "x").stored.metadata)) := by
    rw [Function.update_of_ne (by decide), Function.update_self]
  exact ⟨limit, peer, _, _, _, _, outcome, _, hturns, hdone, Function.update_self .., (hresolves true _ hdone).2,
    fun metadata' hreturned => hsame true false _ metadata' hdone hreturned⟩

end Sample

end MeridianOci.Service
