import MeridianOci.Service.Sample

/-!
# Integrity at every instant

In every state of a run, also between two requests of a call, each version tag and each
latest tag leads to a complete version. A reader that is interleaved with the run in any
way therefore gets a version that was complete in a state it passed through, or nothing.
-/
namespace MeridianOci.Service

open MeridianOci.Data MeridianOci.Effect MeridianOci.Model

set_option autoImplicit false

variable {P : Platform} {adapter : OciDistributionAdapter}

/-! ## Complete resolution -/

section Resolution

variable {policy : Policy P adapter.transport.binding}

/-- Everything that a resolution of a manifest checks, against the registry. -/
def ResolvesCompletely (registry : Registry policy) (body : Bytes) : Prop :=
  ∃ (document : ManifestDocument P) (config payload subject : OciDescriptor P) (configBytes anchor : Bytes)
    (stored : StoredObject),
    ManifestDocument.parse P body none adapter.transport.binding.maxManifestBytes = .ok document ∧
    manifestDescriptors document = .ok (config, payload, subject) ∧
    registry.blobs[config.digest]? = some configBytes ∧ configBytes.length = config.size ∧
    StoredObject.fromBytes P configBytes adapter.binding.maxMetadataBytes = .ok stored ∧
    (registry.blobs[payload.digest]?).isSome ∧
    stored.metadata.digest = payload.digest ∧ stored.metadata.byteLength = payload.size ∧
    stored.metadata.mediaType = payload.mediaType ∧
    registry.tagged (anchorName P stored.objectId) = some anchor ∧ subject.digest = sha256Digest P anchor

variable {registry : Registry policy}

/-- A complete version resolves completely. -/
theorem Complete.resolves (laws : P.Lawful) {stored : StoredObject} {body : Bytes}
    (h : Complete registry stored) (hpublished : adapter.Published P stored body) :
    ResolvesCompletely registry body := by
  obtain ⟨document, hparse, rfl⟩ := hpublished.manifest.parse laws hpublished.fits
  obtain ⟨anchor, config, payload, hdescriptors, ⟨-, hanchor, -⟩, ⟨-, hconfig, hsize⟩, hmedia, hpayload, hlength⟩ :=
    hpublished.manifest.descriptors
  refine ⟨document, config, payload, anchor, stored.toBytes P, anchorBody P stored.objectId, stored, hparse,
    hdescriptors, ?_, hsize.symm, StoredObject.fromBytes_toBytes laws hpublished.valid hpublished.short, ?_,
    hpayload.symm, hlength.symm, hmedia.symm, h.anchor, hanchor⟩
  · rw [hconfig]
    exact h.config
  · rw [hpayload]
    exact h.payload

theorem isPrefixOf_versionTagPrefix (objectId : String) :
    versionTagPrefix.toList.isPrefixOf (anchorName P objectId).toList = false := by
  simp [versionTagPrefix, anchorName, List.isPrefixOf]

/-- Version tags and latest tags of an intact repository resolve completely. -/
theorem Intact.resolves (laws : P.Lawful) (hintact : Intact registry) {tag : String} {body : Bytes}
    (htagged : registry.tagged tag = some body)
    (hkind : versionTagPrefix.toList.isPrefixOf tag.toList = true ∨ ∃ objectId, tag = latestName P objectId) :
    ResolvesCompletely registry body := by
  have hfamily := hintact.tags _ _ htagged
  cases hfamily with
  | anchor objectId hbody =>
    rcases hkind with hversion | ⟨other, heq⟩
    · rw [isPrefixOf_versionTagPrefix] at hversion
      cases hversion
    · exact absurd heq (anchorName_ne_latestName _ _)
  | exact stored hpublished => exact (hintact.complete _ _ _ htagged hpublished).resolves laws hpublished
  | latest stored hpublished hexact =>
    exact (hintact.complete _ _ _ htagged hpublished).resolves laws hpublished

/-- The manifest of a latest tag is also under an exact tag of the object id. -/
theorem Intact.latest_exact (laws : P.Lawful) (hintact : Intact registry) {objectId : String} {body : Bytes}
    (htagged : registry.tagged (latestName P objectId) = some body) :
    ∃ digest, registry.tagged (versionName P objectId digest) = some body := by
  generalize hname : latestName P objectId = name at htagged
  have hfamily := hintact.tags _ _ htagged
  cases hfamily with
  | anchor other hbody => exact absurd hname (anchorName_ne_latestName _ _).symm
  | exact stored hpublished => exact absurd hname (latestName_ne_versionName _ _ _)
  | latest stored hpublished hexact =>
    obtain rfl := latestName_injective laws hname
    exact ⟨stored.metadata.digest, hexact⟩

end Resolution

/-! ## Reading beside the writer -/

variable {setting : Setting P adapter.transport.binding}

/-- A reader of a registry that others write to: before each of its requests the state may
have moved on, and the payloads it registers are its own. -/
def watching {policy : Policy P adapter.transport.binding} {κ : Type} (view : κ → World policy)
    (step : κ → κ → Prop) : Environment Op Op.Res Err κ
  | .send request, k, answer, k' => step k k' ∧ answer = .ok (deliver policy request ((view k').reply request))
  | .register _ expectedLength expectedDigest, k, answer, k' =>
    k' = k ∧ ∃ id, answer = .ok ⟨id, true, expectedDigest, some expectedLength⟩
  | .openPayload _ _, _, _, _ => False
  | .authorize, k, answer, k' => k' = k ∧ answer = .ok ()
  | .clock, _, _, _ => False
  | .token, _, _, _ => False
  | .acquire, _, _, _ => False
  | .release, _, _, _ => False
  | .memory _, _, _, _ => False

theorem reading_watching {policy : Policy P adapter.transport.binding}
    {rely : World policy → World policy → Prop} (hrefl : ∀ w, rely w w)
    (htrans : ∀ a b c, rely a b → rely b c → rely a c) : Reading (watching id rely) rely False where
  refl := hrefl
  trans := htrans
  send _ _ _ _ _ h := ⟨h.1, .inl h.2⟩

/-- The metadata that a read returns. -/
def metadataOf : Result → Option ObjectMetadata
  | .stat metadata => some metadata
  | .get metadata _ => some metadata
  | _ => none

/-- The outcome of a read: a version that was complete in one of the given states, a missing
object, or a reference that is rejected or has no tag. -/
inductive Answered (policy : Policy P adapter.transport.binding) (states : World policy → Prop) (raw : Json) :
    Except Err Result → Prop where
  | found (reference : ObjectReference) (resolved : ResolvedObject P) (w : World policy) (result : Result) :
      adapter.reference P raw false = .ok reference → states w → Found w.registry reference resolved →
      ResolvesCompletely w.registry resolved.manifest.body →
      metadataOf result = some resolved.stored.metadata → Answered policy states raw (.ok result)
  | missing (error : Err) : error.kind = .objectNotFound → Answered policy states raw (.error error)
  | rejected (error : Err) : adapter.reference P raw false = .error error →
      Answered policy states raw (.error error)
  | unnamed (reference : ObjectReference) (digest : String) (error : Err) :
      adapter.reference P raw false = .ok reference → reference.digest = some digest →
      versionTag P reference.objectId digest = .error error → Answered policy states raw (.error error)

section Reader

variable (laws : P.Lawful) {policy : Policy P adapter.transport.binding}
variable {rely : World policy → World policy → Prop} (hrefl : ∀ w, rely w w)
variable (htrans : ∀ a b c, rely a b → rely b c → rely a c)
variable (hmoves : ∀ a b, rely a b → Moves a.registry b.registry) (w : World policy)
variable (hintact : Intact w.registry) (raw : Json)

include laws hrefl htrans hmoves hintact

theorem stat_watching : (adapter.stat P raw).Ensures (watching id rely) (fun _ _ => True) w
    fun outcome _ => Answered policy (rely w) raw outcome := by
  unfold OciDistributionAdapter.stat
  cases hreference : adapter.reference P raw false with
  | error error => exact .rejected error hreference
  | ok reference =>
    simp only [Action.lift_ok, Prog.ret_bind]
    refine (storedForReference_ensures laws (reading_watching hrefl htrans) (fun _ _ _ => trivial) hmoves w
      hintact reference).bind ?_ ?_
    · rintro resolved w' ⟨-, v, hv, hfound, hcomplete⟩
      exact .found reference resolved v _ hreference hv hfound (hcomplete.resolves laws hfound.published) rfl
    · rintro error w' ⟨-, hfalse | ⟨digest, hdigest, herror⟩ | ⟨hkind, -⟩⟩
      · exact hfalse.elim
      · exact .unnamed reference digest error hreference hdigest herror
      · exact .missing error hkind

theorem get_watching : (adapter.get P raw).Ensures (watching id rely) (fun _ _ => True) w
    fun outcome _ => Answered policy (rely w) raw outcome := by
  unfold OciDistributionAdapter.get
  cases hreference : adapter.reference P raw false with
  | error error => exact .rejected error hreference
  | ok reference =>
    simp only [Action.lift_ok, Prog.ret_bind]
    refine (storedForReference_ensures laws (reading_watching hrefl htrans) (fun _ _ _ => trivial) hmoves w
      hintact reference).bind ?_ ?_
    · rintro resolved w' ⟨-, v, hv, hfound, hcomplete⟩
      have hregister : (Action.register ⟨resolved.payload.digest, none⟩ resolved.payload.size
          (some resolved.payload.digest)).Ensures (watching id rely) (fun _ _ => True) w'
          fun outcome _ => ∃ payload, outcome = .ok payload := by
        refine Prog.Ensures.perform ?_
        rintro answer w'' ⟨-, id, rfl⟩
        exact ⟨trivial, _, rfl⟩
      refine hregister.bind ?_ ?_
      · rintro payload w'' -
        exact .found reference resolved v _ hreference hv hfound (hcomplete.resolves laws hfound.published) rfl
      · rintro error w'' ⟨payload, heq⟩
        cases heq
    · rintro error w' ⟨-, hfalse | ⟨digest, hdigest, herror⟩ | ⟨hkind, -⟩⟩
      · exact hfalse.elim
      · exact .unnamed reference digest error hreference hdigest herror
      · exact .missing error hkind

end Reader

/-- A state that the run reaches from a configuration. -/
def Ahead (config : Config Op Op.Res Err Answer (World setting.policy) Call) (w : World setting.policy) : Prop :=
  ∃ later, Relation.ReflTransGen (Step setting.env (Call.program P adapter)) config later ∧ later.state = w

/-- A reader beside a run sees only states that the run reaches. -/
theorem Runs.performs (laws : P.Lawful) {now : DateTime}
    {config after : Config Op Op.Res Err Answer (World setting.policy) Call} (hrun : Runs setting now config)
    {program : Action Result} {raw : Json} {outcome : Except Err Result}
    (hprogram : ∀ rely : World setting.policy → World setting.policy → Prop, (∀ w, rely w w) →
      (∀ a b c, rely a b → rely b c → rely a c) → (∀ a b, rely a b → Moves a.registry b.registry) →
      program.Ensures (watching id rely) (fun _ _ => True) config.state
        fun outcome _ => Answered setting.policy (rely config.state) raw outcome)
    (hperforms : Performs (watching Config.state (Relation.ReflTransGen (Step setting.env (Call.program P adapter))))
      program config outcome after) :
    Answered setting.policy (Ahead config) raw outcome := by
  let rely : World setting.policy → World setting.policy → Prop := fun a b =>
    Moves a.registry b.registry ∧ (Ahead config a → Ahead config b)
  have hseen : Performs (watching id rely) program config.state outcome after.state := by
    refine hperforms.map (J := Relation.ReflTransGen (Step setting.env (Call.program P adapter)) config) ?_ .refl
    intro op k r k' hk hanswer
    cases op with
    | send request =>
      obtain ⟨hstep, hanswer⟩ := hanswer
      exact ⟨hk.trans hstep, ⟨Runs.moves laws (hrun.trans hk) hstep, fun _ => ⟨k', hk.trans hstep, rfl⟩⟩, hanswer⟩
    | register source length digest =>
      obtain ⟨rfl, hanswer⟩ := hanswer
      exact ⟨hk, rfl, hanswer⟩
    | authorize =>
      obtain ⟨rfl, hanswer⟩ := hanswer
      exact ⟨hk, rfl, hanswer⟩
    | _ => exact hanswer.elim
  have hanswered := hseen.ensures (hprogram rely (fun _ => ⟨.refl, id⟩)
    (fun _ _ _ hab hbc => ⟨hab.1.trans hbc.1, hbc.2 ∘ hab.2⟩) fun _ _ h => h.1)
  cases hanswered with
  | found reference resolved w result hreference hw hfound hcomplete hmetadata =>
    exact .found reference resolved w result hreference (hw.2 ⟨config, .refl, rfl⟩) hfound hcomplete hmetadata
  | missing error hkind => exact .missing error hkind
  | rejected error herror => exact .rejected error herror
  | unnamed reference digest error hreference hdigest herror =>
    exact .unnamed reference digest error hreference hdigest herror

/-- In every state of a run every version and latest tag resolves completely, every latest
tag is beside an exact one, and readers beside the run get a complete version or nothing. -/
theorem referential_integrity (laws : P.Lawful) {now : DateTime}
    {config : Config Op Op.Res Err Answer (World setting.policy) Call} (hrun : Runs setting now config) :
    (∀ tag body, config.state.registry.tagged tag = some body →
      (versionTagPrefix.toList.isPrefixOf tag.toList = true ∨ ∃ objectId, tag = latestName P objectId) →
      ResolvesCompletely config.state.registry body) ∧
    (∀ objectId body, config.state.registry.tagged (latestName P objectId) = some body →
      ∃ digest, config.state.registry.tagged (versionName P objectId digest) = some body) ∧
    ∀ raw program outcome after, (program = adapter.stat P raw ∨ program = adapter.get P raw) →
      Performs (watching Config.state (Relation.ReflTransGen (Step setting.env (Call.program P adapter))))
        program config outcome after →
      Answered setting.policy (Ahead config) raw outcome := by
  have hintact := hrun.intact laws
  refine ⟨fun tag body => hintact.resolves laws, fun objectId body => hintact.latest_exact laws, ?_⟩
  rintro raw program outcome after (rfl | rfl) hperforms
  · exact hrun.performs laws (fun rely hrefl htrans hmoves =>
      stat_watching laws hrefl htrans hmoves _ hintact raw) hperforms
  · exact hrun.performs laws (fun rely hrefl htrans hmoves =>
      get_watching laws hrefl htrans hmoves _ hintact raw) hperforms

namespace Sample

open MeridianOci.Model.Sample

/-- After the first put of a run, its latest tag resolves completely. -/
theorem referential_integrity_first : ∃ limit, ∃ w : World (Sample.setting limit False).policy, ∃ body,
    w.registry.tagged (latestName platform "a") = some body ∧ ResolvesCompletely w.registry body := by
  obtain ⟨limit, hfits⟩ := exists_limit [{ objectId := "a", text := "x" }] (by decide)
  obtain ⟨w, hrun, hcatalog⟩ := run_start (hfits _ List.mem_cons_self) (.aware 0)
  have hlatest : Plain.stored { objectId := "a", text := "x" } ∈ (catalogOf w.registry).latest := by
    rw [hcatalog]
    rfl
  obtain ⟨body, -, htagged⟩ := hlatest
  exact ⟨limit, w, body, htagged, (referential_integrity lawful hrun).1 _ body htagged (.inr ⟨"a", rfl⟩)⟩

end Sample

end MeridianOci.Service
