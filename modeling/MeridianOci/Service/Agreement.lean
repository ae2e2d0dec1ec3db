import MeridianOci.Service.Listing

/-!
# Listing beside exact lookups

List and stat over a repository with any content: what each of the two read paths checks,
as a condition on the registry, and when they agree.
-/
namespace MeridianOci.Service

open MeridianOci.Data MeridianOci.Effect MeridianOci.Model

set_option autoImplicit false

variable {P : Platform} {adapter : OciDistributionAdapter}

/-! ## What the two read paths check -/

section Content

variable {policy : Policy P adapter.transport.binding}

/-- A tag leads to a manifest that is read as this document. -/
structure Holds (registry : Registry policy) (tag : String) (document : ManifestDocument P) : Prop where
  tagged : registry.tagged tag = some document.body
  parsed : ManifestDocument.parse P document.body none adapter.transport.binding.maxManifestBytes = .ok document

/-- A manifest describes stored metadata: its config blob is there, is the metadata's text, and
the metadata is that of its payload. -/
structure Describes (registry : Registry policy) (resolved : ResolvedObject P) (subject : OciDescriptor P) :
    Prop where
  config : ∃ (config : OciDescriptor P) (configBytes : Bytes),
    manifestDescriptors resolved.manifest = .ok (config, resolved.payload, subject) ∧
    registry.blobs[config.digest]? = some configBytes ∧ configBytes.length = config.size ∧
    StoredObject.fromBytes P configBytes adapter.binding.maxMetadataBytes = .ok resolved.stored
  digest : resolved.stored.metadata.digest = resolved.payload.digest
  byteLength : resolved.stored.metadata.byteLength = resolved.payload.size
  mediaType : resolved.stored.metadata.mediaType = resolved.payload.mediaType

/-- The version of an object id and a digest: its exact tag leads to metadata that names them and
the binding's resource, under the anchor of the object id. -/
structure Exact (registry : Registry policy) (objectId digest : String) (resolved : ResolvedObject P) : Prop where
  tagged : Holds registry (versionName P objectId digest) resolved.manifest
  described : ∃ subject anchor, Describes registry resolved subject ∧
    Holds registry (anchorName P objectId) anchor ∧ subject.digest = anchor.digest
  resource : resolved.stored.metadata.objectRef.resourceRef = adapter.semanticResource
  objectId : resolved.stored.metadata.objectRef.objectId = objectId
  digest : resolved.stored.metadata.digest = digest

/-- What a reference resolves to: its tag leads to metadata that names it and the binding's resource,
under the anchor of its object id. -/
structure LeadsTo (registry : Registry policy) (reference : ObjectReference) (resolved : ResolvedObject P) :
    Prop where
  tag : OciDistributionAdapter.referenceTag P reference = .ok (nameOf P reference)
  holds : Holds registry (nameOf P reference) resolved.manifest
  described : ∃ subject anchor, Describes registry resolved subject ∧
    Holds registry (anchorName P reference.objectId) anchor ∧ subject.digest = anchor.digest
  resource : resolved.stored.metadata.objectRef.resourceRef = adapter.semanticResource
  objectId : resolved.stored.metadata.objectRef.objectId = reference.objectId
  digest : reference.digest.getD resolved.stored.metadata.digest = resolved.stored.metadata.digest

theorem isPrefixOf_nameOf (reference : ObjectReference) :
    ['s', 'h', 'a', '2', '5', '6', ':'].isPrefixOf (nameOf P reference).toList = false := by
  obtain ⟨resourceRef, objectId, digest⟩ := reference
  cases digest with
  | none => exact isPrefixOf_latestName objectId
  | some digest => exact isPrefixOf_versionName objectId digest

variable (laws : P.Lawful) (w : World policy)

include laws

theorem getManifest_run_iff {tag : String} (hplain : ['s', 'h', 'a', '2', '5', '6', ':'].isPrefixOf tag.toList = false)
    {document : ManifestDocument P} :
    ((adapter.transport.getManifest P tag).run World.answer w).1 = .ok document ↔ Holds w.registry tag document := by
  have hrun := (getManifest_ensures laws reading_answer (G := Eq) (fun _ _ h => h) w hplain).run
  generalize (adapter.transport.getManifest P tag).run World.answer w = result at hrun
  obtain ⟨outcome, w'⟩ := result
  obtain ⟨rfl, hrun⟩ := hrun
  simp only [Registry.resolve_tag hplain] at hrun
  constructor
  · rintro rfl
    exact ⟨hrun.1, hrun.2.2⟩
  · rintro ⟨htagged, hparsed⟩
    cases outcome with
    | ok other =>
      have hbody : document.body = other.body := Option.some.inj (htagged.symm.trans hrun.1)
      rw [ManifestDocument.ext_body hbody]
    | error error =>
      rcases hrun with hfalse | ⟨hnone, -⟩ | ⟨body, hbody, hparse⟩
      · exact hfalse.elim
      · rw [htagged] at hnone
        cases hnone
      · obtain rfl := Option.some.inj (htagged.symm.trans hbody)
        exact absurd hparsed (hparse document)

omit laws in
/-- Metadata is read from a text within the bound only. -/
theorem fromBytes_length {value : Bytes} {maximumBytes : Nat} {stored : StoredObject}
    (h : StoredObject.fromBytes P value maximumBytes = .ok stored) : value.length ≤ maximumBytes := by
  unfold StoredObject.fromBytes at h
  split at h
  · cases h
  · omega

omit laws in
/-- A program that only reads is run without leaving the world. -/
theorem run_reads {α : Type} {program : Action α} (h : program.Uses Op.Reads) :
    (program.run World.answer w).2 = w := by
  have hsame : program.Ensures (Environment.ofFunction World.answer) (fun _ _ => True) w fun _ w' => w' = w := by
    refine h.unchanged (fun _ => trivial) ?_ w
    rintro _ v answer v' ⟨request, rfl, hreads⟩ henv
    rw [← (Prod.mk.inj henv).2]
    exact apply_reads hreads v
  exact hsame.run

theorem getBlobBytes_run_iff {descriptor : OciDescriptor P} {maximumBytes : Nat} {body : Bytes} :
    ((adapter.transport.getBlobBytes P descriptor maximumBytes).run World.answer w).1 = .ok body ↔
      w.registry.blobs[descriptor.digest]? = some body ∧ body.length = descriptor.size ∧
        body.length ≤ maximumBytes := by
  by_cases hlong : maximumBytes < descriptor.size
  · rw [RegistryHttpClient.getBlobBytes, if_pos hlong]
    constructor
    · intro h
      cases h
    · rintro ⟨-, hsize, hshort⟩
      omega
  have hrun := (getBlobBytes_ensures laws reading_answer (G := Eq) (fun _ _ h => h) w descriptor maximumBytes).run
  generalize (adapter.transport.getBlobBytes P descriptor maximumBytes).run World.answer w = result at hrun
  obtain ⟨outcome, w'⟩ := result
  obtain ⟨rfl, hrun⟩ := hrun
  constructor
  · rintro rfl
    exact ⟨hrun.1, hrun.2, by have := hrun.2; omega⟩
  · rintro ⟨hblob, hlength, -⟩
    cases outcome with
    | ok other =>
      obtain rfl := Option.some.inj (hblob.symm.trans hrun.1)
      rfl
    | error error =>
      rcases hrun with hfalse | hbad
      · exact hfalse.elim
      · rcases hbad body hblob with hne | hover
        · exact absurd hlength hne
        · exact absurd hover hlong

theorem storedFromManifest_run_iff {document : ManifestDocument P} {resolved : ResolvedObject P} :
    ((adapter.storedFromManifest P document).run World.answer w).1 = .ok resolved ↔
      resolved.manifest = document ∧ ∃ subject, Describes w.registry resolved subject := by
  unfold OciDistributionAdapter.storedFromManifest
  cases hdescriptors : manifestDescriptors document with
  | error error =>
    dsimp only
    constructor
    · intro h
      split at h <;> cases h
    · rintro ⟨rfl, subject, ⟨config, configBytes, heq, -⟩, -⟩
      rw [hdescriptors] at heq
      cases heq
  | ok descriptors =>
    obtain ⟨config, payload, subject⟩ := descriptors
    simp only [Prog.pure_eq, Prog.ret_bind]
    rw [Prog.run_bind_ok_iff (run_reads w (reads_getBlobBytes P adapter.transport config _))]
    constructor
    · rintro ⟨configBytes, hblob, h⟩
      cases hstored : StoredObject.fromBytes P configBytes adapter.binding.maxMetadataBytes with
      | error error =>
        simp only [hstored] at h
        split at h <;> cases h
      | ok stored =>
        simp only [hstored] at h
        obtain ⟨hfound, hlength, -⟩ := (getBlobBytes_run_iff laws w).mp hblob
        by_cases hagree : stored.metadata.digest ≠ payload.digest ∨ stored.metadata.byteLength ≠ payload.size ∨
            stored.metadata.mediaType ≠ payload.mediaType
        · rw [if_pos hagree] at h
          cases h
        · rw [if_neg hagree] at h
          obtain rfl := Except.ok.inj h
          simp only [not_or, not_not] at hagree
          exact ⟨rfl, subject, ⟨config, configBytes, hdescriptors, hfound, hlength, hstored⟩, hagree.1, hagree.2.1,
            hagree.2.2⟩
    · rintro ⟨rfl, subject', ⟨⟨config', configBytes, heq, hblob, hlength, hstored⟩, hdigest, hsize, hmedia⟩⟩
      obtain ⟨rfl, rfl, rfl⟩ : config = config' ∧ payload = resolved.payload ∧ subject = subject' := by
        simpa using hdescriptors.symm.trans heq
      refine ⟨configBytes, (getBlobBytes_run_iff laws w).mpr ⟨hblob, hlength, fromBytes_length hstored⟩, ?_⟩
      simp only [hstored, hdigest, hsize, hmedia, ne_eq, not_true_eq_false, or_self, if_false]
      rfl

/-- A version tag resolves to what its manifest describes. -/
theorem inspect_iff {tag : String} (htag : IsVersionTag tag) {resolved : ResolvedObject P} :
    w.inspect tag = .ok resolved ↔ Holds w.registry tag resolved.manifest ∧
      ∃ subject, Describes w.registry resolved subject := by
  rw [World.inspect, Prog.run_bind_ok_iff (run_reads w (reads_getManifest P adapter.transport tag))]
  constructor
  · rintro ⟨document, hdocument, h⟩
    obtain ⟨rfl, hdescribes⟩ := (storedFromManifest_run_iff laws w).mp h
    exact ⟨(getManifest_run_iff laws w (isPrefixOf_of_isVersionTag htag)).mp hdocument, hdescribes⟩
  · rintro ⟨hholds, hdescribes⟩
    exact ⟨resolved.manifest, (getManifest_run_iff laws w (isPrefixOf_of_isVersionTag htag)).mpr hholds,
      (storedFromManifest_run_iff laws w).mpr ⟨rfl, hdescribes⟩⟩

omit laws in
theorem versionTag_of_isTag {objectId digest : String} (hdigest : (matchDigest P digest).isSome)
    (htag : isTag P (versionName P objectId digest) = true) :
    versionTag P objectId digest = .ok (versionName P objectId digest) := by
  obtain ⟨digits, hdigits⟩ := Option.isSome_iff_exists.mp hdigest
  have hname : "m-v1-" ++ shortHash P objectId ++ "-" ++ String.ofList digits = versionName P objectId digest := by
    rw [versionName, (matchDigest_some hdigits).1, String.append_assoc, String.append_assoc]
  simp only [versionTag, hdigits]
  rw [hname, tag, if_pos htag]

/-- A lookup resolves to what the tag of its reference describes, under the anchor of its object id. -/
theorem lookup_iff {reference : ObjectReference} {resolved : ResolvedObject P} :
    w.lookup reference = .ok resolved ↔ LeadsTo w.registry reference resolved := by
  unfold World.lookup OciDistributionAdapter.storedForReference
  constructor
  · intro h
    cases htag : OciDistributionAdapter.referenceTag P reference with
    | error error =>
      simp only [htag, Action.lift_error, Prog.raise_bind] at h
      cases h
    | ok tag =>
      obtain ⟨rfl, -⟩ := referenceTag_ok htag
      simp only [htag, Action.lift_ok, Prog.ret_bind] at h
      obtain ⟨document, hdocument, hrest⟩ :=
        (Prog.run_bind_ok_iff (run_reads w (reads_getManifest P adapter.transport _))).mp h
      obtain ⟨found, hfound, hchecks⟩ :=
        (Prog.run_bind_ok_iff (run_reads w (reads_storedFromManifest P adapter document))).mp hrest
      have hholds := (getManifest_run_iff laws w (isPrefixOf_nameOf reference)).mp hdocument
      obtain ⟨rfl, subject, hdescribes⟩ := (storedFromManifest_run_iff laws w).mp hfound
      split at hchecks
      · cases hchecks
      rename_i hresource
      split at hchecks
      · cases hchecks
      rename_i hid
      split at hchecks
      · cases hchecks
      rename_i hdigest
      simp only [anchorTag_eq laws, Action.lift_ok, Prog.ret_bind] at hchecks
      obtain ⟨anchor, hanchor, hlast⟩ :=
        (Prog.run_bind_ok_iff (run_reads w (reads_getManifest P adapter.transport _))).mp hchecks
      obtain ⟨config, configBytes, hdescriptors, -⟩ := hdescribes.config
      simp only [hdescriptors, Action.lift_ok, Prog.ret_bind] at hlast
      split at hlast
      · cases hlast
      rename_i hsubject
      obtain rfl := Except.ok.inj hlast
      simp only [not_not] at hresource hid hdigest hsubject
      exact ⟨htag, hholds, ⟨subject, anchor, hdescribes,
        (getManifest_run_iff laws w (isPrefixOf_anchorName _)).mp hanchor, hsubject⟩, hresource, hid, hdigest⟩
  · rintro ⟨htag, hholds, ⟨subject, anchor, hdescribes, hanchor, hsubject⟩, hresource, hid, hdigest⟩
    simp only [htag, Action.lift_ok, Prog.ret_bind]
    refine (Prog.run_bind_ok_iff (run_reads w (reads_getManifest P adapter.transport _))).mpr
      ⟨_, (getManifest_run_iff laws w (isPrefixOf_nameOf reference)).mpr hholds, ?_⟩
    refine (Prog.run_bind_ok_iff (run_reads w (reads_storedFromManifest P adapter _))).mpr
      ⟨_, (storedFromManifest_run_iff laws w).mpr ⟨rfl, subject, hdescribes⟩, ?_⟩
    rw [if_neg (not_not.mpr hresource), if_neg (not_not.mpr hid), if_neg (not_not.mpr hdigest)]
    simp only [anchorTag_eq laws, Action.lift_ok, Prog.ret_bind]
    refine (Prog.run_bind_ok_iff (run_reads w (reads_getManifest P adapter.transport _))).mpr
      ⟨anchor, (getManifest_run_iff laws w (isPrefixOf_anchorName _)).mpr hanchor, ?_⟩
    obtain ⟨config, configBytes, hdescriptors, -⟩ := hdescribes.config
    simp only [hdescriptors, Action.lift_ok, Prog.ret_bind]
    rw [if_neg (not_not.mpr hsubject)]
    rfl

/-- An exact lookup resolves to the version of its object id and digest. -/
theorem lookup_exact_iff (hnamed : w.registry.WellNamed) {objectId digest : String} {resolved : ResolvedObject P} :
    w.lookup (exactReference adapter objectId digest) = .ok resolved ↔
      Exact w.registry objectId digest resolved := by
  rw [lookup_iff laws w]
  constructor
  · intro h
    exact ⟨h.holds, h.described, h.resource, h.objectId, h.digest.symm⟩
  · rintro ⟨hholds, hdescribed, hresource, hid, hdigest⟩
    have hvalid : (matchDigest P digest).isSome := by
      obtain ⟨subject, anchor, hdescribes, -⟩ := hdescribed
      rw [← hdigest, hdescribes.digest]
      exact resolved.payload.digest_valid
    have htag := versionTag_of_isTag hvalid (hnamed _ (mem_tagSet.mpr ⟨_, hholds.tagged⟩)).1
    exact ⟨htag, hholds, hdescribed, hresource, hid, hdigest.symm⟩

end Content

/-! ## Walks in one repository -/

variable {setting : Setting P adapter.transport.binding}

/-- What a walk in one world has looked at. -/
structure Seen (w : World setting.policy) (prefixText : String) (steps : List (Listed setting))
    (final : Option String) (scanned : List String) : Prop where
  items : steps.flatMap (·.items) = scanned.filterMap (w.entry prefixText)
  sound : w.Sound scanned
  present : ∀ tag ∈ scanned, tag ∈ w.registry.tagSet
  initial : ∀ tag ∈ w.registry.tagSet, ∀ other ∈ scanned, tag ≤ other → tag ∈ scanned
  finished : final = none → steps ≠ [] → ∀ tag ∈ w.registry.tagSet, tag ∈ scanned

theorem ListWalk.seen (laws : P.Lawful) {w : World setting.policy} (hnamed : w.registry.WellNamed)
    (hadvances : ∀ bound, w.registry.Advances adapter.binding.maxScanTags bound)
    {prefixText : String} {steps : List (Listed setting)} {final : Option String}
    (hwalk : ListWalk setting prefixText none steps final) (hworld : ∀ step ∈ steps, step.world = w) :
    ∃ scanned, Seen w prefixText steps final scanned := by
  have hstart : Cursor adapter P none none := ⟨rfl, fun tag h => by cases h⟩
  obtain ⟨pages, last, hpages, hlast, hshows⟩ := hwalk.paged laws hstart
    (fun step hstep => hworld step hstep ▸ hnamed) fun step hstep bound _ => hworld step hstep ▸ hadvances bound
  have hpresent : ∀ page ∈ pages, page.1 = w.registry.tagSet := by
    intro page hpage
    obtain ⟨step, hstep, hshown⟩ := exists_of_forall₂ hshows hpage
    rw [hshown.present, hworld step hstep]
  refine ⟨pages.flatMap (·.2), ?_, ?_, ?_, ?_, ?_⟩
  · clear hpages hpresent hwalk
    induction hshows with
    | nil => rfl
    | @cons step page steps pages hstep _ ih =>
      rw [List.flatMap_cons, List.flatMap_cons, List.filterMap_append, hstep.items, hworld _ List.mem_cons_self,
        ih fun other hother => hworld other (List.mem_cons_of_mem _ hother)]
  · intro tag htag
    obtain ⟨page, hpage, hmem⟩ := List.mem_flatMap.mp htag
    obtain ⟨step, hstep, hshown⟩ := exists_of_forall₂ hshows hpage
    exact hworld step hstep ▸ hshown.sound tag hmem
  · intro tag htag
    obtain ⟨-, page, hpage, hmem⟩ := hpages.mem htag
    exact hpresent page hpage ▸ hmem
  · intro tag htag other hother hle
    exact hpages.initial hother hle (Paging.after_none tag) fun page hpage => hpresent page hpage ▸ htag
  · intro hfinal hsteps tag htag
    obtain rfl : last = none := by
      have hcursor := hlast.1
      rw [hfinal] at hcursor
      exact Option.map_eq_none_iff.mp hcursor.symm
    refine hpages.complete ?_ (Paging.after_none tag) fun page hpage => hpresent page hpage ▸ htag
    rintro rfl
    exact hsteps (List.length_eq_zero_iff.mp hshows.length_eq)

/-! ## Agreement -/

/-- In this world, list and exact lookups tell of the same versions: every walk can be followed
to its end, every item of a walk names the binding's resource and is what its exact lookup
returns, and a walk that has ended has returned everything that an exact lookup resolves. -/
structure Agrees (setting : Setting P adapter.transport.binding) (w : World setting.policy) : Prop where
  goesOn : ∀ prefixText, GoesOn setting w prefixText
  items : ∀ prefixText steps final, ListWalk setting prefixText none steps final →
    (∀ step ∈ steps, step.world = w) → ∀ metadata ∈ steps.flatMap (·.items),
    metadata.objectRef.resourceRef = adapter.semanticResource ∧ ∃ digest, metadata.objectRef.digest = some digest ∧
      ∃ resolved, w.lookup metadata.objectRef = .ok resolved ∧ resolved.stored.metadata = metadata
  versions : ∀ prefixText steps, ListWalk setting prefixText none steps none → steps ≠ [] →
    (∀ step ∈ steps, step.world = w) → ∀ objectId digest resolved,
    w.lookup (exactReference adapter objectId digest) = .ok resolved →
    prefixText.toList.isPrefixOf objectId.toList = true → resolved.stored.metadata ∈ steps.flatMap (·.items)

/-- A version tag describes a version of the binding's resource, whose exact tag describes the
same under its anchor. -/
def Genuine {policy : Policy P adapter.transport.binding} (registry : Registry policy) (tag : String) : Prop :=
  ∃ (resolved exact : ResolvedObject P) (subject : OciDescriptor P) (objectId digest : String),
    Holds registry tag resolved.manifest ∧ Describes registry resolved subject ∧
    resolved.stored.metadata.objectRef = exactReference adapter objectId digest ∧
    Exact registry objectId digest exact ∧ exact.stored.metadata = resolved.stored.metadata

section Agreement

variable (laws : P.Lawful) {w : World setting.policy} (hnamed : w.registry.WellNamed)

include laws hnamed

/-- The version tags of an intact repository are genuine. -/
theorem Intact.genuine (hintact : Intact w.registry) {tag : String} (htag : tag ∈ w.registry.tagSet)
    (hversion : IsVersionTag tag) : Genuine w.registry tag := by
  obtain ⟨body, htagged⟩ := mem_tagSet.mp htag
  obtain ⟨stored, resolved, hpublished, rfl, hinspect, rfl⟩ := hintact.inspect laws hversion htagged
  obtain ⟨hholds, subject, hdescribes⟩ := (inspect_iff laws w hversion).mp hinspect
  obtain ⟨exact, hlookup, hstored⟩ := (mem_live_iff laws hintact).mp ⟨body, hpublished, htagged⟩
  exact ⟨resolved, exact, subject, _, _, hholds, hdescribes, hpublished.named,
    (lookup_exact_iff laws w hnamed).mp hlookup, by rw [hstored]⟩

variable (hadvances : ∀ bound, w.registry.Advances adapter.binding.maxScanTags bound)

include hadvances

/-- Where list and exact lookups agree, every version tag is genuine. -/
theorem Agrees.genuine (h : Agrees setting w) {tag : String} (htag : tag ∈ w.registry.tagSet)
    (hversion : IsVersionTag tag) : Genuine w.registry tag := by
  obtain ⟨steps, hwalk, hne, hworld⟩ := exists_listWalk laws hnamed (h.goesOn "") 1
  obtain ⟨scanned, hseen⟩ := hwalk.seen laws hnamed hadvances hworld
  have hscanned := hseen.finished rfl hne tag htag
  obtain ⟨resolved, hinspect⟩ := hseen.sound tag hscanned hversion
  have hentry : w.entry "" tag = some resolved.stored.metadata :=
    World.entry_eq_some.mpr ⟨hversion, resolved, hinspect, rfl, rfl⟩
  have hitem : resolved.stored.metadata ∈ steps.flatMap (·.items) := by
    rw [hseen.items]
    exact List.mem_filterMap.mpr ⟨tag, hscanned, hentry⟩
  obtain ⟨hresource, digest, hdigest, exact, hlookup, hmetadata⟩ := h.items _ _ _ hwalk hworld _ hitem
  obtain ⟨hholds, subject, hdescribes⟩ := (inspect_iff laws w hversion).mp hinspect
  have hreference : resolved.stored.metadata.objectRef =
      exactReference adapter resolved.stored.metadata.objectRef.objectId digest := by
    rw [exactReference, ← hresource, ← hdigest]
  rw [hreference] at hlookup
  exact ⟨resolved, exact, subject, _, digest, hholds, hdescribes, hreference,
    (lookup_exact_iff laws w hnamed).mp hlookup, hmetadata⟩

/-- List and exact lookups agree where every version tag is genuine. -/
theorem agrees_of_genuine (hfaults : ¬setting.faults)
    (h : ∀ tag ∈ w.registry.tagSet, IsVersionTag tag → Genuine w.registry tag) : Agrees setting w := by
  have hlistable : ¬Unlistable w := by
    rintro (hbad | hbad | hbad)
    · exact hfaults hbad
    · exact hbad hnamed
    · refine hbad fun tag htag hversion => ?_
      obtain ⟨resolved, -, subject, -, -, hholds, hdescribes, -⟩ := h tag htag hversion
      exact ⟨resolved, (inspect_iff laws w hversion).mpr ⟨hholds, subject, hdescribes⟩⟩
  refine ⟨goesOn_of_listable laws hlistable, ?_, ?_⟩
  · intro prefixText steps final hwalk hworld metadata hitem
    obtain ⟨scanned, hseen⟩ := hwalk.seen laws hnamed hadvances hworld
    rw [hseen.items] at hitem
    obtain ⟨tag, htag, hentry⟩ := List.mem_filterMap.mp hitem
    obtain ⟨hversion, resolved, hinspect, -, rfl⟩ := World.entry_eq_some.mp hentry
    obtain ⟨other, exact, subject, objectId, digest, hholds, hdescribes, hreference, hexact, hmetadata⟩ :=
      h tag (hseen.present tag htag) hversion
    obtain rfl := Except.ok.inj
      (hinspect.symm.trans ((inspect_iff laws w hversion).mpr ⟨hholds, subject, hdescribes⟩))
    rw [hreference]
    exact ⟨rfl, digest, rfl, exact, (lookup_exact_iff laws w hnamed).mpr hexact, hmetadata⟩
  · intro prefixText steps hwalk hne hworld objectId digest resolved hlookup hprefix
    obtain ⟨scanned, hseen⟩ := hwalk.seen laws hnamed hadvances hworld
    obtain ⟨hholds, ⟨subject, -, hdescribes, -⟩, -, rfl, -⟩ := (lookup_exact_iff laws w hnamed).mp hlookup
    have hversion := isVersionTag_versionName (P := P) resolved.stored.metadata.objectRef.objectId digest
    have hentry := World.entry_eq_some.mpr ⟨hversion, resolved,
      (inspect_iff laws w hversion).mpr ⟨hholds, subject, hdescribes⟩, hprefix, rfl⟩
    rw [hseen.items]
    exact List.mem_filterMap.mpr ⟨_, hseen.finished rfl hne _ (mem_tagSet.mpr ⟨_, hholds.tagged⟩), hentry⟩

/-- In any repository, list and exact lookups agree if and only if every version tag is genuine. -/
theorem list_agrees (hfaults : ¬setting.faults) :
    Agrees setting w ↔ ∀ tag ∈ w.registry.tagSet, IsVersionTag tag → Genuine w.registry tag :=
  ⟨fun h _ => h.genuine laws hnamed hadvances, agrees_of_genuine laws hnamed hadvances hfaults⟩

end Agreement

/-! ## Other tags -/

section Other

variable {policy : Policy P adapter.transport.binding} {registry : Registry policy} {tag other : String} {body : Bytes}

theorem Holds.putTag (laws : P.Lawful) {document : ManifestDocument P} (h : Holds registry tag document)
    (hne : other ≠ tag) : Holds (registry.putTag other body) tag document := by
  refine ⟨?_, h.parsed⟩
  rw [Registry.tagged_putTag laws, if_neg hne]
  exact h.tagged

/-- A tag that is neither its exact tag nor its anchor does not concern a version. -/
theorem Exact.putTag (laws : P.Lawful) {objectId digest : String} {resolved : ResolvedObject P}
    (h : Exact registry objectId digest resolved) (hexact : other ≠ versionName P objectId digest)
    (hanchor : other ≠ anchorName P objectId) : Exact (registry.putTag other body) objectId digest resolved := by
  obtain ⟨hholds, ⟨subject, anchor, hdescribes, hanchored, hsubject⟩, hresource, hid, hdigest⟩ := h
  have hsame : Describes (registry.putTag other body) resolved subject :=
    ⟨hdescribes.config, hdescribes.digest, hdescribes.byteLength, hdescribes.mediaType⟩
  exact ⟨hholds.putTag laws hexact, ⟨subject, anchor, hsame, hanchored.putTag laws hanchor, hsubject⟩,
    hresource, hid, hdigest⟩

/-- An anchor describes nothing. -/
theorem not_describes_anchor {resolved : ResolvedObject P} {subject : OciDescriptor P} {objectId : String}
    (hbody : resolved.manifest.body = anchorBody P objectId) : ¬Describes registry resolved subject := by
  rintro ⟨⟨config, configBytes, hdescriptors, -⟩, -⟩
  simp only [manifestDescriptors, resolved.manifest.value_of_body (writable_anchorManifestFields _) hbody,
    Json.get?_sortFields, anchorManifestFields, Json.get?_cons, String.reduceEq, if_true, if_false, Option.map_some,
    Json.sortKeys, meridianObjectAnchorType, meridianObjectArtifactType, ne_eq, not_false_eq_true] at hdescriptors
  cases hdescriptors

end Other

namespace Sample

open MeridianOci.Model.Sample

/-- The only version of the repositories below. -/
def single : Plain where
  objectId := "a"
  text := "x"

/-- The world after another client has moved a tag. -/
def retagged {limit : Nat} (w : World (Sample.setting limit False).policy) (tag : String) (body : Bytes) :
    World (Sample.setting limit False).policy :=
  { w with registry := w.registry.putTag tag body }

theorem tagged_retagged {limit : Nat} (w : World (Sample.setting limit False).policy) (tag other : String) (body : Bytes) :
    (retagged w tag body).registry.tagged other = if tag = other then some body else w.registry.tagged other :=
  Registry.tagged_putTag lawful w.registry tag other body

section Damaged

variable {limit : Nat} {w : World (Sample.setting limit False).policy} (hintact : Intact w.registry)
variable (hcatalog : catalogOf w.registry = ⟨{single.objectId}, {single.stored}, {single.stored}⟩)

include hintact hcatalog

theorem wellNamed_single : w.registry.WellNamed :=
  wellNamed_start hintact hcatalog (by decide) (by decide) (by decide)

/-- One more tag that is well formed. -/
theorem wellNamed_retagged {tag : String} {body : Bytes} (htag : isTag platform tag = true ∧ tag.toList.length ≤ 128) :
    (retagged w tag body).registry.WellNamed := by
  intro other hother
  obtain ⟨found, hfound⟩ := mem_tagSet.mp hother
  rw [tagged_retagged] at hfound
  split at hfound
  · rename_i heq
    exact heq ▸ htag
  · exact wellNamed_single hintact hcatalog other (mem_tagSet.mpr ⟨found, hfound⟩)

theorem exists_exact : ∃ resolved, Exact w.registry "a" (sha256Digest platform single.content) resolved ∧
    resolved.stored = single.stored := by
  obtain ⟨resolved, hlookup, hstored⟩ := (mem_live_iff lawful hintact).mp
    (show single.stored ∈ (catalogOf w.registry).live by rw [hcatalog]; rfl)
  exact ⟨resolved, (lookup_exact_iff lawful w (wellNamed_single hintact hcatalog)).mp hlookup, hstored⟩

theorem versionTag_single {tag : String} {body : Bytes} (hversion : IsVersionTag tag)
    (h : w.registry.tagged tag = some body) : tag = single.stored.exactName platform := by
  obtain ⟨stored, -, hpublished, rfl, -⟩ := hintact.inspect lawful hversion h
  have hlive : stored ∈ (catalogOf w.registry).live := ⟨body, hpublished, h⟩
  rw [hcatalog] at hlive
  obtain rfl : stored = single.stored := hlive
  rfl

/-- Beside a tag with the prefix that leads to another kind of manifest, no walk returns the version. -/
theorem no_items : ∀ steps final, ListWalk (Sample.setting limit False) "a" none steps final →
    (∀ step ∈ steps, step.world = retagged w "m-v1-0" (anchorBody platform "a")) →
    steps.flatMap (·.items) = [] := by
  intro steps final hwalk hworld
  obtain ⟨scanned, hseen⟩ := hwalk.seen lawful (wellNamed_retagged hintact hcatalog (by decide))
    (fun bound => advances_policy _ bound) hworld
  rw [hseen.items, List.filterMap_eq_nil_iff]
  intro tag htag
  by_contra hentry
  obtain ⟨metadata, hentry⟩ := Option.ne_none_iff_exists'.mp hentry
  obtain ⟨hversion, -, -⟩ := World.entry_eq_some.mp hentry
  -- the walk has looked at the additional tag
  have hle : "m-v1-0" ≤ tag := by
    obtain ⟨body, hbody⟩ := mem_tagSet.mp (hseen.present tag htag)
    rw [tagged_retagged] at hbody
    split at hbody
    · rename_i heq
      exact heq.le
    · rw [versionTag_single hintact hcatalog hversion hbody]
      decide
  have hadded : "m-v1-0" ∈ (retagged w "m-v1-0" (anchorBody platform "a")).registry.tagSet :=
    mem_tagSet.mpr ⟨_, by rw [tagged_retagged, if_pos rfl]⟩
  obtain ⟨bad, hbad⟩ := hseen.sound "m-v1-0" (hseen.initial _ hadded tag htag hle) (by decide)
  obtain ⟨hholds, subject, hdescribes⟩ := (inspect_iff lawful _ (by decide)).mp hbad
  have hbody := hholds.tagged
  rw [tagged_retagged, if_pos rfl] at hbody
  exact not_describes_anchor (Option.some.inj hbody).symm hdescribes

/-- With the anchor of another object id under the anchor tag, a walk still returns the version. -/
theorem exists_leak : ∃ steps, ListWalk (Sample.setting limit False) "a" none steps none ∧
    (∀ step ∈ steps, step.world = retagged w (anchorName platform "a") (anchorBody platform "b")) ∧
    single.stored.metadata ∈ steps.flatMap (·.items) := by
  have hnamed' : (retagged w (anchorName platform "a") (anchorBody platform "b")).registry.WellNamed :=
    wellNamed_retagged hintact hcatalog (by decide)
  have hnot : ∀ tag, IsVersionTag tag → anchorName platform "a" ≠ tag := by
    rintro tag hversion rfl
    rw [IsVersionTag, isPrefixOf_versionTagPrefix] at hversion
    cases hversion
  obtain ⟨resolved, hexact, hstored⟩ := exists_exact hintact hcatalog
  obtain ⟨hholds, ⟨subject, -, hdescribes, -⟩, -⟩ := hexact
  have hversion := isVersionTag_versionName (P := platform) "a" (sha256Digest platform single.content)
  -- the version tag leads where it led before
  have hinspect : (retagged w (anchorName platform "a") (anchorBody platform "b")).inspect
      (versionName platform "a" (sha256Digest platform single.content)) = .ok resolved :=
    (inspect_iff lawful _ hversion).mpr ⟨hholds.putTag lawful (hnot _ hversion), subject, hdescribes.config,
      hdescribes.digest, hdescribes.byteLength, hdescribes.mediaType⟩
  have hlistable : ¬@Unlistable _ _ (Sample.setting limit False)
      (retagged w (anchorName platform "a") (anchorBody platform "b")) := by
    rintro (hfalse | hbad | hbad)
    · exact hfalse
    · exact hbad hnamed'
    · refine hbad fun tag htag htagVersion => ?_
      obtain ⟨body, hbody⟩ := mem_tagSet.mp htag
      rw [tagged_retagged, if_neg (hnot tag htagVersion)] at hbody
      rw [versionTag_single hintact hcatalog htagVersion hbody]
      exact ⟨resolved, hinspect⟩
  obtain ⟨steps, hwalk, hne, hworld⟩ := exists_listWalk lawful hnamed' (goesOn_of_listable lawful hlistable "a") 1
  obtain ⟨scanned, hseen⟩ := hwalk.seen lawful hnamed' (fun bound => advances_policy _ bound) hworld
  refine ⟨steps, hwalk, hworld, ?_⟩
  rw [hseen.items]
  refine List.mem_filterMap.mpr ⟨versionName platform "a" (sha256Digest platform single.content),
    hseen.finished rfl hne _ ?_, World.entry_eq_some.mpr ⟨hversion, resolved, hinspect, ?_, ?_⟩⟩
  · exact mem_tagSet.mpr ⟨_, (hholds.putTag lawful (hnot _ hversion)).tagged⟩
  · rw [hstored]
    rfl
  · rw [hstored]

/-- There the exact lookup of the version fails. -/
theorem lookup_leak (resolved : ResolvedObject platform) :
    (retagged w (anchorName platform "a") (anchorBody platform "b")).lookup single.stored.metadata.objectRef ≠
      .ok resolved := by
  intro hlookup
  obtain ⟨other, hother, -⟩ := exists_exact hintact hcatalog
  obtain ⟨hholds, ⟨subject, anchor, hdescribes, hanchor, hsubject⟩, -⟩ := hother
  have hexact := (lookup_exact_iff lawful _ (wellNamed_retagged hintact hcatalog (by decide))).mp
    (show (retagged w (anchorName platform "a") (anchorBody platform "b")).lookup (exactReference
      (Sample.adapter limit) "a" (sha256Digest platform single.content)) = .ok resolved from hlookup)
  obtain ⟨hholds', ⟨subject', anchor', hdescribes', hanchor', hsubject'⟩, -⟩ := hexact
  -- the same manifest, so the same subject
  have hbody := hholds'.tagged
  rw [tagged_retagged, if_neg (by decide), hholds.tagged] at hbody
  have hmanifest : other.manifest = resolved.manifest := ManifestDocument.ext_body (Option.some.inj hbody)
  obtain ⟨config, configBytes, hdescriptors, -⟩ := hdescribes.config
  obtain ⟨config', configBytes', hdescriptors', -⟩ := hdescribes'.config
  rw [hmanifest, hdescriptors'] at hdescriptors
  obtain ⟨-, -, rfl⟩ : config' = config ∧ resolved.payload = other.payload ∧ subject' = subject := by
    simpa using hdescriptors
  have hold := hintact.anchored lawful hanchor.tagged
  have hnew := hanchor'.tagged
  rw [tagged_retagged, if_pos rfl] at hnew
  rw [hsubject, anchor.digest_eq, hold, anchor'.digest_eq, ← Option.some.inj hnew] at hsubject'
  exact absurd (objectIdHash_of_anchorBody (sha256Digest_injective lawful hsubject')) (by decide)

end Damaged

/-- After three puts, two of them of one object id, list and exact lookups agree. -/
theorem list_agrees_three : ∃ limit, ∃ w : World (Sample.setting limit False).policy,
    (∀ stored, stored ∈ (catalogOf w.registry).live ↔ stored ∈ [Plain.stored ⟨"a", "x", false, none, none⟩,
      Plain.stored ⟨"a", "y", false, none, none⟩, Plain.stored ⟨"b", "z", false, none, none⟩]) ∧
    Agrees (Sample.setting limit False) w := by
  let puts : List Plain := [⟨"a", "x", false, none, none⟩, ⟨"a", "y", false, none, none⟩, ⟨"b", "z", false, none, none⟩]
  obtain ⟨limit, hfits⟩ := exists_limit puts (by decide)
  obtain ⟨w, history, hrun, -, -, hanchored, hlive⟩ := run_puts hfits (by decide) (by decide) (.aware 0)
  have hintact : Intact w.registry := hrun.intact lawful
  have hnamed := wellNamed_puts hintact (fun _ => (hanchored _).mp) (fun _ => (hlive _).mp) (by decide)
  exact ⟨limit, w, hlive, (list_agrees lawful hnamed (fun bound => advances_policy _ bound) id).mpr
    fun tag htag hversion => hintact.genuine lawful hnamed htag hversion⟩

/-- Two repositories of one version. In one a walk returns it, although its exact lookup fails,
since its anchor is another one. In the other the exact lookup resolves it and no walk returns
it, since another tag with the prefix does not resolve. -/
theorem list_disagrees : ∃ limit,
    (∃ (w : World (Sample.setting limit False).policy) (steps : List (Listed (Sample.setting limit False)))
      (metadata : ObjectMetadata), w.registry.WellNamed ∧ ListWalk (Sample.setting limit False) "a" none steps none ∧
      (∀ step ∈ steps, step.world = w) ∧ metadata ∈ steps.flatMap (·.items) ∧
      ∀ resolved, w.lookup metadata.objectRef ≠ .ok resolved) ∧
    ∃ (w : World (Sample.setting limit False).policy) (resolved : ResolvedObject platform),
      w.registry.WellNamed ∧ w.lookup (exactReference (Sample.adapter limit) "a"
        (sha256Digest platform single.content)) = .ok resolved ∧
      ∀ steps final, ListWalk (Sample.setting limit False) "a" none steps final → (∀ step ∈ steps, step.world = w) →
        steps.flatMap (·.items) = [] := by
  obtain ⟨limit, hfits⟩ := Plain.exists_fits single (by decide)
  obtain ⟨w, hrun, hcatalog⟩ := run_start hfits (.aware 0)
  have hintact : Intact w.registry := hrun.intact lawful
  obtain ⟨resolved, hexact, -⟩ := exists_exact hintact hcatalog
  obtain ⟨steps, hwalk, hworld, hitem⟩ := exists_leak hintact hcatalog
  refine ⟨limit, ⟨_, steps, _, wellNamed_retagged hintact hcatalog (by decide), hwalk, hworld, hitem,
    lookup_leak hintact hcatalog⟩, ⟨_, resolved, wellNamed_retagged hintact hcatalog (by decide), ?_,
    no_items hintact hcatalog⟩⟩
  exact (lookup_exact_iff lawful _ (wellNamed_retagged hintact hcatalog (by decide))).mpr
    (hexact.putTag lawful (by decide) (by decide))

end Sample

end MeridianOci.Service
