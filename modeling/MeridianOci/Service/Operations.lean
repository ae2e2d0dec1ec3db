import MeridianOci.Service.Commit

/-!
# Operations of the data plane

Put, delete and the reading operations, each as one program over an intact repository:
what a result says about the repository, and which changes an exception may leave.
-/
namespace MeridianOci.Service

open MeridianOci.Data MeridianOci.Effect MeridianOci.Model

set_option autoImplicit false

variable {P : Platform} {adapter : OciDistributionAdapter}
variable {setting : Setting P adapter.transport.binding}

/-! ## Locks and the state of a put -/

section Wrappers

variable {G : World setting.policy → World setting.policy → Prop} {α : Type} {w : World setting.policy}
variable {action : Action α} {R : Except Err α → World setting.policy → Prop}

/-- The write lock changes nothing else. -/
theorem locked_ensures (hrefl : ∀ a, G a a) (h : action.Ensures setting.env G w R) :
    (Action.locked action).Ensures setting.env G w R := by
  rintro answer w' ⟨rfl, rfl⟩
  refine ⟨hrefl _, h.finally_ fun outcome w₁ hr => ?_⟩
  rintro released w₂ ⟨rfl, rfl⟩
  exact ⟨hrefl _, hr⟩

/-- Marking a put as failed may replace its error and does nothing else. -/
theorem failing_ensures (machine : PutState) (physicalCommit : Bool)
    (h : action.Ensures setting.env G w R) :
    (failing P machine physicalCommit action).Ensures setting.env G w fun outcome w' =>
      match outcome with
      | .ok value => R (.ok value) w'
      | .error _ => ∃ error, R (.error error) w' := by
  refine h.handle ?_
  rintro (error | value) w' hr
  · simp only [Prog.onError]
    split
    · cases P.fail machine physicalCommit <;> exact ⟨error, hr⟩
    · exact ⟨error, hr⟩
  · exact hr

end Wrappers

/-! ## Put -/

/-- The identity of a content. -/
def identityOf (P : Platform) (content : Bytes) : ContentIdentity :=
  ⟨sha256Digest P content, content.length⟩

theorem immutabilityOf_valid {value : PutInput} {immutability : ImmutabilityRequest}
    (h : immutabilityOf P value = .ok immutability) : immutability.Valid P := by
  unfold immutabilityOf at h
  split at h
  · exact .inl (Except.ok.inj h).symm
  · exact .inr ⟨_, h⟩

theorem retentionOf_valid {value : PutInput} {retention : Option RetentionRequest}
    (h : retentionOf P value = .ok retention) : ∀ r, retention = some r → r.Valid P := by
  rintro r rfl
  unfold retentionOf at h
  split at h
  · cases h
  · rename_i fields hfields
    cases hparse : P.retentionFromMapping fields with
    | error error => simp [hparse, Except.map] at h
    | ok parsed =>
      simp only [hparse, Except.map, Except.ok.injEq, Option.some.injEq] at h
      exact ⟨fields, h ▸ hparse⟩

/-- What a put or a completion that returned has done between two worlds: the content was
stored, and then committed. -/
structure Succeeded (setting : Setting P adapter.transport.binding) (value : PutInput)
    (content : Bytes) (immutability : ImmutabilityRequest) (retention : Option RetentionRequest)
    (w w' : World setting.policy) (metadata : ObjectMetadata) : Prop where
  parsed : immutabilityOf P value = .ok immutability
  kept : retentionOf P value = .ok retention
  available : Available w.registry value.objectId immutability
    (value.createOnly || immutability.publishOnce)
  committed : ∃ w₁ w₂ : World setting.policy, w.registry.Grows w₁.registry ∧ w₁.now = w.now ∧
    w₁.registry.blobs[sha256Digest P content]? = some content ∧
    (¬setting.faults → (w.registry.addBlob content).blobs = w₁.registry.blobs) ∧
    Committed setting value (identityOf P content) immutability retention
      (value.createOnly || immutability.publishOnce) w₁ w₂ metadata ∧
    w₂.registry = w'.registry ∧ w₂.now = w'.now

/-- What a put or a completion may leave when it raises; `source` holds of the contents it
may have been about to publish. -/
structure Interrupted (setting : Setting P adapter.transport.binding) (value : PutInput)
    (source : Bytes → Prop) (w w' : World setting.policy) : Prop where
  commits : catalogOf w'.registry = catalogOf w.registry ∨ ∃ content, source content ∧
    Catalog.Commits (storedNames P) value.objectId (Fitting (sha256Digest P content))
      (catalogOf w.registry) (catalogOf w'.registry)
  refused : ∀ immutability, immutabilityOf P value = .ok immutability →
    ¬Available w.registry value.objectId immutability (value.createOnly || immutability.publishOnce) →
    catalogOf w'.registry = catalogOf w.registry

/-- A put that has no reason to raise, apart from the registry. -/
structure ValidPut (setting : Setting P adapter.transport.binding) (value : PutInput)
    (w : World setting.policy) (payload : PayloadReference) (content : Bytes)
    (immutability : ImmutabilityRequest) (retention : Option RetentionRequest) : Prop where
  read : payloadOf P value = .ok payload
  parsed : immutabilityOf P value = .ok immutability
  kept : retentionOf P value = .ok retention
  deliverable : Deliverable setting payload content
  available : Available w.registry value.objectId immutability
    (value.createOnly || immutability.publishOnce)
  unblocked : ¬Blocked w.registry value.objectId (sha256Digest P content)
    (value.createOnly || immutability.publishOnce)
  acceptable : w.registry.tagged (versionName P value.objectId (sha256Digest P content)) = none →
    Acceptable setting value (identityOf P content) immutability retention w.now

/-- The contents a put may publish. -/
def payloadSource (setting : Setting P adapter.transport.binding) (value : PutInput)
    (content : Bytes) : Prop :=
  ∃ payload, payloadOf P value = .ok payload ∧ Delivers setting payload content

theorem Interrupted.of_grows {value : PutInput} {source : Bytes → Prop} {w w' : World setting.policy}
    (h : w.registry.Grows w'.registry) : Interrupted setting value source w w' :=
  ⟨.inl (catalogOf_grows h), fun _ _ _ => catalogOf_grows h⟩

/-- Only tags decide whether a create-only request is open. -/
theorem available_grows {policy : Policy P adapter.transport.binding} {registry registry' : Registry policy}
    (h : registry.Grows registry') {objectId : String} {immutability : ImmutabilityRequest}
    {createOnly : Bool} : Available registry' objectId immutability createOnly ↔
      Available registry objectId immutability createOnly := by
  simp only [Available, h.tagged]

theorem blocked_grows {policy : Policy P adapter.transport.binding} {registry registry' : Registry policy}
    (h : registry.Grows registry') {objectId digest : String} {createOnly : Bool} :
    Blocked registry' objectId digest createOnly ↔ Blocked registry objectId digest createOnly := by
  simp only [Blocked, h.tagged]

theorem Committed.frame {value : PutInput} {identity : ContentIdentity}
    {immutability : ImmutabilityRequest} {retention : Option RetentionRequest} {createOnly : Bool}
    {w w' : World setting.policy} {metadata : ObjectMetadata}
    (h : Committed setting value identity immutability retention createOnly w w' metadata) :
    w'.memory = w.memory ∧ w'.payloads = w.payloads := by
  rcases h with ⟨stored, body, -, -, -, -, -, rfl⟩ | ⟨_, _, _, _, -, -, -, -, -, -, hmemory, hpayloads, -⟩
  · exact ⟨rfl, rfl⟩
  · exact ⟨hmemory, hpayloads⟩

theorem Committed.uploads {value : PutInput} {identity : ContentIdentity}
    {immutability : ImmutabilityRequest} {retention : Option RetentionRequest} {createOnly : Bool}
    {w w' : World setting.policy} {metadata : ObjectMetadata}
    (h : Committed setting value identity immutability retention createOnly w w' metadata) :
    w'.registry.uploads = w.registry.uploads := by
  rcases h with ⟨stored, body, -, -, -, -, -, rfl⟩ | ⟨_, _, _, _, -, -, -, -, -, -, -, -, hagrees⟩
  · rfl
  · rw [hagrees.uploads]
    simp only [Registry.putTag, Registry.addBlob, Registry.withAnchor]
    split <;> rfl

theorem put_ensures (laws : P.Lawful) (w : World setting.policy) (hintact : Intact w.registry)
    (value : PutInput) :
    (adapter.put P value).Ensures setting.env World.Change w fun outcome w' =>
      (w'.memory = w.memory ∧ w'.payloads = w.payloads) ∧
        match outcome with
        | .ok result => ∃ content immutability retention metadata, payloadSource setting value content ∧
            Succeeded setting value content immutability retention w w' metadata ∧
            (¬setting.faults → w'.registry.uploads = w.registry.uploads) ∧ result = .put metadata
        | .error _ => Interrupted setting value (payloadSource setting value) w w' ∧
            (setting.faults ∨ ∀ payload content immutability retention,
              ¬ValidPut setting value w payload content immutability retention) := by
  have hquiet := quiet_change laws setting
  unfold OciDistributionAdapter.put
  cases hpayload : payloadOf P value with
  | error error =>
    refine ⟨⟨rfl, rfl⟩, .of_grows (.refl _), .inr fun payload content immutability retention hvalid => ?_⟩
    rw [hvalid.read] at hpayload
    cases hpayload
  | ok payload =>
    cases himmutability : immutabilityOf P value with
    | error error =>
      refine ⟨⟨rfl, rfl⟩, .of_grows (.refl _), .inr fun payload content immutability retention hvalid => ?_⟩
      rw [hvalid.parsed] at himmutability
      cases himmutability
    | ok immutability =>
      cases hretention : retentionOf P value with
      | error error =>
        refine ⟨⟨rfl, rfl⟩, .of_grows (.refl _),
          .inr fun payload content immutability retention hvalid => ?_⟩
        rw [hvalid.kept] at hretention
        cases hretention
      | ok retention =>
        simp only [Action.lift_ok, Prog.ret_bind]
        refine locked_ensures hquiet.refl ?_
        refine (requireCreateAvailable_ensures laws w value.objectId immutability _).bind ?_ ?_
        · rintro _ w ⟨rfl, havailable⟩
          simp only [laws.transition_uploading, Action.lift_ok, Prog.ret_bind]
          refine (failing_ensures .uploading false (uploadPayload_ensures laws hquiet w payload)).bind ?_ ?_
          · rintro identity w₁ ⟨content, hdelivers, rfl, hblob, hsilent, hstores⟩
            have hintact₁ : Intact w₁.registry := (Move.quiet _ _ hsilent.registry).intact laws hintact
            have hsource : payloadSource setting value content := ⟨payload, hpayload, hdelivers⟩
            simp only [laws.transition_verifying]
            refine (failing_ensures .verifying true (commitObject_ensures laws w₁ hintact₁ value hblob
              (immutabilityOf_valid himmutability) (retentionOf_valid hretention) _)).bind ?_ ?_
            · rintro metadata w₂ ⟨-, hcommitted⟩
              simp only [laws.transition_committed]
              exact ⟨⟨hcommitted.frame.1.trans hsilent.memory, hcommitted.frame.2.trans hsilent.payloads⟩,
                content, immutability, retention, metadata, hsource, ⟨himmutability, hretention,
                  havailable, w₁, w₂, hsilent.registry, hsilent.now, hblob,
                  fun hfaults => (hstores hfaults).blobs.symm, hcommitted, rfl, rfl⟩,
                fun hfaults => hcommitted.uploads.trans (hstores hfaults).uploads, rfl⟩
            · rintro error w₂ ⟨_, ⟨hmemory, hpayloads⟩, hcommits, hrefused, hwhy⟩
              refine ⟨⟨hmemory.trans hsilent.memory, hpayloads.trans hsilent.payloads⟩,
                ⟨.inr ⟨content, hsource, ?_⟩, ?_⟩, ?_⟩
              · rw [← catalogOf_grows hsilent.registry]
                exact hcommits
              · intro other hother hnot
                obtain rfl := Except.ok.inj (himmutability.symm.trans hother)
                exact absurd havailable hnot
              · refine hwhy.imp_right fun hbad payload' content' immutability' retention' hvalid => ?_
                obtain rfl := Except.ok.inj (hpayload.symm.trans hvalid.read)
                obtain rfl := Except.ok.inj (himmutability.symm.trans hvalid.parsed)
                obtain rfl := Except.ok.inj (hretention.symm.trans hvalid.kept)
                obtain ⟨stream, hstream, -, rfl⟩ := hdelivers
                obtain ⟨stream', heq, -, -, rfl⟩ := hvalid.deliverable.streams _ hstream
                obtain rfl := Except.ok.inj heq
                rcases hbad with hbad | hbad | ⟨hfree, hbad⟩
                · exact hbad ((available_grows hsilent.registry).mpr havailable)
                · exact hvalid.unblocked ((blocked_grows hsilent.registry).mp hbad)
                · rw [hsilent.registry.tagged] at hfree
                  rw [hsilent.now] at hbad
                  exact hbad (hvalid.acceptable hfree)
          · rintro error w₁ ⟨_, ⟨hsilent, -⟩, hwhy⟩
            refine ⟨⟨hsilent.memory, hsilent.payloads⟩, .of_grows hsilent.registry,
              hwhy.imp_right fun hbad payload' content _ _ hvalid => ?_⟩
            obtain rfl := Except.ok.inj (hpayload.symm.trans hvalid.read)
            exact hbad content hvalid.deliverable
        · rintro error w ⟨rfl, hwhy⟩
          refine ⟨⟨rfl, rfl⟩, .of_grows (.refl _), hwhy.imp_right fun hnot _ _ _ _ hvalid => ?_⟩
          obtain rfl := Except.ok.inj (himmutability.symm.trans hvalid.parsed)
          exact hnot hvalid.available

/-! ## Delete -/

/-- A stored object was removed, at a time that its retention allowed. -/
def Removed (w w' : World setting.policy) (stored : StoredObject) : Prop :=
  stored ∈ (catalogOf w.registry).live ∧
    catalogOf w'.registry = (catalogOf w.registry).remove stored ∧
    ∃ now, setting.tick w.now (.aware now) ∧ w'.now = .aware now ∧
      requireDeletePermitted P stored.retention now = .ok ()

/-- What a reference of a delete finds. -/
def Targets (w : World setting.policy) (reference : ObjectReference) (stored : StoredObject) : Prop :=
  ∃ body, adapter.Published P stored body ∧ w.registry.tagged (nameOf P reference) = some body ∧
    stored.objectId = reference.objectId ∧
    ∀ digest, reference.digest = some digest → stored.metadata.digest = digest

/-- Why a delete raises although no request failed. -/
inductive Undeletable (w w' : World setting.policy) (raw : Json) (error : Err) : Prop where
  | reference (reason : Err) : adapter.reference P raw true = .error reason → Undeletable w w' raw error
  | missing (reference : ObjectReference) : adapter.reference P raw true = .ok reference →
      (∀ stored, ¬Targets w reference stored) → Undeletable w w' raw error
  | clock (wall : Int) : setting.tick w.now (.naive wall) → w'.now = .naive wall →
      Undeletable w w' raw error
  | retained (reference : ObjectReference) (stored : StoredObject) (now : Int) :
      adapter.reference P raw true = .ok reference → Targets w reference stored →
      setting.tick w.now (.aware now) → w'.now = .aware now →
      requireDeletePermitted P stored.retention now = .error error → Undeletable w w' raw error

/-- What is found under a tag is live. -/
theorem Targets.live (laws : P.Lawful) {w : World setting.policy} (hintact : Intact w.registry)
    {reference : ObjectReference} {stored : StoredObject} (h : Targets w reference stored) :
    ∃ body, adapter.Published P stored body ∧ w.registry.tagged (stored.exactName P) = some body := by
  obtain ⟨body, hpublished, htagged, -, -⟩ := h
  refine ⟨body, hpublished, ?_⟩
  have hfamily := hintact.tags _ _ htagged
  generalize hname : nameOf P reference = name at hfamily htagged
  cases hfamily with
  | anchor objectId hbody => exact absurd hbody (hpublished.manifest.ne_anchorBody objectId)
  | exact other hother =>
    rw [hpublished.injective laws hother]
    exact htagged
  | latest other hother hexact =>
    rw [hpublished.injective laws hother]
    exact hexact

theorem delete_ensures (laws : P.Lawful) (w : World setting.policy) (hintact : Intact w.registry)
    (raw : Json) :
    (adapter.delete P raw).Ensures setting.env World.Change w fun outcome w' =>
      (w'.memory = w.memory ∧ w'.payloads = w.payloads) ∧
        match outcome with
        | .ok result => result = .delete ∧ ∃ reference stored, adapter.reference P raw true = .ok reference ∧
            Targets w reference stored ∧ Removed w w' stored
        | .error error => (catalogOf w'.registry = catalogOf w.registry ∨
              ∃ reference stored, adapter.reference P raw true = .ok reference ∧
                Targets w reference stored ∧ Removed w w' stored) ∧
            (w'.now = w.now ∨ setting.tick w.now w'.now) ∧
            (setting.faults ∨ Undeletable w w' raw error) := by
  have hquiet := quiet_change laws setting
  unfold OciDistributionAdapter.delete
  cases hreference : adapter.reference P raw true with
  | error error => exact ⟨⟨rfl, rfl⟩, .inl rfl, .inl rfl, .inr (.reference error hreference)⟩
  | ok reference =>
    simp only [Action.lift_ok, Prog.ret_bind]
    refine locked_ensures hquiet.refl ?_
    refine (storedForReference_ensures laws setting.reading hquiet.of_eq
      (by rintro a _ rfl; exact .refl) w hintact reference).bind ?_ ?_
    · rintro resolved w ⟨rfl, _, rfl, hfound, hcomplete⟩
      have htargets : Targets w reference resolved.stored :=
        ⟨resolved.manifest.body, hfound.published, hfound.tagged, hfound.objectId, hfound.digest⟩
      obtain ⟨body, hpublished, hexact⟩ := htargets.live laws hintact
      obtain rfl := hpublished.unique hfound.published
      refine (now_ensures laws w).bind ?_ ?_
      · rintro now w₁ ⟨hw₁, htick, hnow⟩
        have hregistry : w₁.registry = w.registry := by rw [hw₁]
        have hframe : w₁.memory = w.memory ∧ w₁.payloads = w.payloads := by
          rw [hw₁]
          exact ⟨rfl, rfl⟩
        cases hpermitted : requireDeletePermitted P resolved.stored.retention now with
        | error error =>
          refine ⟨hframe, .inl (by rw [hregistry]), .inr (by rw [hnow]; exact htick), .inr ?_⟩
          exact .retained reference resolved.stored now hreference htargets htick hnow hpermitted
        | ok _ =>
          simp only [Action.lift_ok, Prog.ret_bind]
          have hresolve : w₁.registry.resolve (sha256Digest P resolved.manifest.body) =
              some resolved.manifest.body := by
            rw [Registry.resolve_digest, hregistry]
            exact (Registry.tagged_eq_some.mp hexact).2
          have happly := w₁.apply_deleteManifest resolved.manifest.body
          rw [hresolve] at happly
          have hremoved : Removed w (w₁.apply (.deleteManifest (sha256Digest P resolved.manifest.body)))
              resolved.stored := by
            rw [happly]
            refine ⟨⟨_, hpublished, hexact⟩, ?_, now, htick, hnow, hpermitted⟩
            rw [catalogOf_remove laws hpublished, hregistry]
          have hmove : World.Change w₁
              (w₁.apply (.deleteManifest (sha256Digest P resolved.manifest.body))) := by
            rw [happly]
            rw [← hregistry] at hexact
            exact Move.remove w₁.registry resolved.stored _ hpublished hexact
          have htick' : (w₁.apply (.deleteManifest (sha256Digest P resolved.manifest.body))).now =
              .aware now := hnow
          have hframe' : (w₁.apply (.deleteManifest (sha256Digest P resolved.manifest.body))).memory =
              w.memory ∧ (w₁.apply (.deleteManifest (sha256Digest P resolved.manifest.body))).payloads =
                w.payloads := hframe
          rw [resolved.manifest.digest_eq]
          refine (deleteManifest_ensures laws w₁ hquiet.refl resolved.manifest.body hmove).bind ?_ ?_
          · rintro (_ | _) w₂ ⟨rfl, h⟩
            · refine ⟨hframe', .inr ⟨reference, resolved.stored, rfl, htargets, hremoved⟩,
                .inr (by rw [htick']; exact htick), .inl (h.resolve_right ?_)⟩
              rw [hresolve]
              simp
            · exact ⟨hframe', rfl, reference, resolved.stored, rfl, htargets, hremoved⟩
          · rintro error w₂ ⟨hw₂, hfaults⟩
            rcases hw₂ with rfl | rfl
            · exact ⟨hframe, .inl (by rw [hregistry]), .inr (by rw [hnow]; exact htick), .inl hfaults⟩
            · exact ⟨hframe', .inr ⟨reference, resolved.stored, rfl, htargets, hremoved⟩,
                .inr (by rw [htick']; exact htick), .inl hfaults⟩
      · rintro error w₁ ⟨hw₁, hwhy⟩
        have hregistry : w₁.registry = w.registry := by rw [hw₁]
        have hframe : w₁.memory = w.memory ∧ w₁.payloads = w.payloads := by
          rw [hw₁]
          exact ⟨rfl, rfl⟩
        refine ⟨hframe, .inl (by rw [hregistry]), ?_⟩
        rcases hwhy with ⟨hfaults, hnow⟩ | ⟨wall, htick, hnow⟩
        · exact ⟨.inl hnow, .inl hfaults⟩
        · exact ⟨.inr (by rw [hnow]; exact htick), .inr (.clock wall htick hnow)⟩
    · rintro error w ⟨rfl, hwhy⟩
      refine ⟨⟨rfl, rfl⟩, .inl rfl, .inl rfl, hwhy.imp_right fun hwhy =>
        .missing reference hreference ?_⟩
      rintro stored ⟨body, hpublished, htagged, hid, hdigest⟩
      rcases hwhy with ⟨digest, hsome, herror⟩ | ⟨-, _, rfl, hnone⟩
      · obtain ⟨content, hcontent, -⟩ := hpublished.content
        rw [← hdigest digest hsome, hcontent, versionTag_eq laws] at herror
        cases herror
      · obtain ⟨resolved, hfound, -⟩ := Found.of_published hpublished htagged hid hdigest
        exact hnone resolved hfound

end MeridianOci.Service
