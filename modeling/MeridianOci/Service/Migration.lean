import MeridianOci.Model.Migration
import MeridianOci.Service.Declared
import MeridianOci.Service.Reads

/-!
# Logical migration

What an import leaves in its target. A fresh version carries everything that was exported;
where the target already holds the exact version, the import returns that version instead.
-/
namespace MeridianOci.Service

open MeridianOci.Data MeridianOci.Effect MeridianOci.Model

set_option autoImplicit false

variable {P : Platform} {adapter : OciDistributionAdapter}

/-! ## Object Common -/

/-- Equal as `dict`s. -/
def SameItems (fields other : JsonObject) : Prop :=
  ∀ key, (Json.get? fields key).map Json.sortKeys = (Json.get? other key).map Json.sortKeys

theorem SameItems.trans {first second third : JsonObject} (h : SameItems first second) (h' : SameItems second third) :
    SameItems first third := fun key => (h key).trans (h' key)

theorem SameItems.set {fields other : JsonObject} (h : SameItems fields other) (key : String) (item : Json) :
    SameItems (Json.set fields key item) (Json.set other key item) := by
  intro found
  rw [Json.get?_set, Json.get?_set]
  split
  · rfl
  · exact h found

/-- Popping a key does not matter when it is set afterwards. -/
theorem SameItems.set_pop (fields : JsonObject) (key : String) (item : Json) :
    SameItems (Json.set (Json.pop fields key) key item) (Json.set fields key item) := by
  intro found
  rw [Json.get?_set, Json.get?_set]
  split
  · rfl
  · rename_i hne
    rw [Json.get?_pop, if_neg hne]

variable (P) in
/-- An operation's input with the arguments of a put. -/
structure Carried (arguments : PutArguments) (value : PutInput) : Prop where
  objectId : value.objectId = arguments.objectId
  payload : payloadOf P value = .ok arguments.payload
  mediaType : value.mediaType = arguments.mediaType
  userMetadata : SameItems value.userMetadata arguments.userMetadata
  creationContext : SameItems value.creationContext arguments.creationContext
  provenance : ∃ fields, value.provenance = .obj fields ∧ SameItems fields arguments.provenance
  immutability : immutabilityOf P value = .ok arguments.immutability
  retention : retentionOf P value = .ok arguments.retention
  createOnly : value.createOnly = arguments.createOnly

variable (P) in
/-- The surface and the normaliser carry the arguments of a put through. -/
def Carries (normalize : PutArguments → Except Err Operation) : Prop :=
  ∀ arguments operation, normalize arguments = .ok operation →
    ∃ value, operation.input = .put value ∧ Carried P arguments value

variable (P) in
/-- The `ObjectMetadata` constructor keeps the mappings that it is given. -/
def KeepsMappings : Prop := ∀ fields metadata, P.newObjectMetadata fields = .ok metadata →
  SameItems metadata.creationContext fields.creationContext ∧ SameItems metadata.userMetadata fields.userMetadata ∧
    SameItems metadata.provenance fields.provenance

/-! ## Export -/

section Export

variable {setting : Setting P adapter.transport.binding}

variable (P adapter) in
/-- The reference that an export resolves. -/
structure Exports (raw : JsonObject) (reference : ObjectReference) : Prop where
  parsed : P.parseObjectReference raw false = .ok reference
  resource : reference.resourceRef = adapter.semanticResource

/-- What is exported is what the reference finds, with a payload that declares its content. -/
theorem exportLogical_ensures (laws : P.Lawful) (w : World setting.policy) (hintact : Intact w.registry)
    (raw : JsonObject) :
    (exportLogical P adapter raw).Ensures setting.env World.Change w fun outcome w' => w.Reads w' ∧
      match outcome with
      | .ok exported => ∃ reference resolved id, Exports P adapter raw reference ∧
          Found w.registry reference resolved ∧ exported = ⟨resolved.stored.metadata,
            ⟨id, true, some resolved.stored.metadata.digest, some resolved.stored.metadata.byteLength⟩,
            resolved.stored.immutability, resolved.stored.retention⟩
      | .error _ => setting.faults ∨ ∀ reference, Exports P adapter raw reference → Unresolved w reference := by
  unfold exportLogical
  cases hparse : P.parseObjectReference raw false with
  | error error =>
    have hnone : ∀ reference, Exports P adapter raw reference → Unresolved w reference := by
      intro reference h
      cases hparse.symm.trans h.parsed
    simp only
    split
    · exact ⟨.refl w, .inr hnone⟩
    · exact ⟨.refl w, .inr hnone⟩
  | ok parsed =>
    simp only [Action.lift_ok, Prog.ret_bind]
    split
    · rename_i hresource
      refine ⟨.refl w, .inr fun reference h => ?_⟩
      obtain rfl := Except.ok.inj (hparse.symm.trans h.parsed)
      exact absurd h.resource hresource
    · rename_i hresource
      refine (resolve_ensures laws w hintact (quiet_change laws setting).refl parsed).bind ?_ ?_
      · intro resolved w₁ h
        obtain ⟨rfl, hfound⟩ := h
        refine (register_ensures laws w₁ _ _ _).bind ?_ ?_
        · intro payload w' h
          obtain ⟨hreads, id, heq, -⟩ := h
          obtain rfl := Except.ok.inj heq
          refine ⟨hreads, parsed, resolved, id, ⟨hparse, not_not.mp hresource⟩, hfound, ?_⟩
          rw [hfound.payload.1, hfound.payload.2.1]
        · intro error w' h
          obtain ⟨-, id, heq, -⟩ := h
          cases heq
      · intro error w₁ h
        obtain ⟨rfl, hwhy⟩ := h
        refine ⟨.refl w₁, hwhy.imp_right fun hnone reference hexports => ?_⟩
        obtain rfl := Except.ok.inj (hparse.symm.trans hexports.parsed)
        exact hnone.1

/-- Without faults, what a reference finds can be exported, under any free id of its payload. -/
theorem performs_export (laws : P.Lawful) {w : World setting.policy} (hintact : Intact w.registry)
    (hfaults : ¬setting.faults) (hresponsive : Responsive setting) {raw : JsonObject} {reference : ObjectReference}
    (hexports : Exports P adapter raw reference) {resolved : ResolvedObject P}
    (hfound : Found w.registry reference resolved) (id : String) :
    ∃ w', Performs setting.env (exportLogical P adapter raw) w (.ok ⟨resolved.stored.metadata,
      ⟨id, true, some resolved.stored.metadata.digest, some resolved.stored.metadata.byteLength⟩,
      resolved.stored.immutability, resolved.stored.retention⟩) w' := by
  obtain ⟨outcome, w₁, hperforms⟩ := hresponsive.performs (adapter.storedForReference P reference) w
  obtain ⟨rfl, hresolve⟩ := hperforms.ensures
    (resolve_ensures laws w hintact (quiet_change laws setting).refl reference)
  cases outcome with
  | error error => exact absurd hfound ((hresolve.resolve_left hfaults).1 resolved)
  | ok other =>
    obtain rfl := Found.unique laws hresolve hfound
    unfold exportLogical
    simp only [hexports.parsed, Action.lift_ok, Prog.ret_bind, hexports.resource, ne_eq, not_true_eq_false, if_false]
    refine ⟨{ w₁ with payloads := (id, ⟨other.payload.digest, none⟩) :: w₁.payloads },
      hperforms.bind (.call _ _ _ _ _ (.ok ⟨id, true, _, _⟩) _ ⟨id, rfl, rfl⟩ ?_)⟩
    rw [← hfound.payload.1, ← hfound.payload.2.1]
    exact .ret _ _

end Export

variable (P) in
/-- What some adapter has exported in a run. -/
def Exported (exported : LogicalObjectExport) : Prop :=
  ∃ (source : OciDistributionAdapter) (setting : Setting P source.transport.binding) (now : DateTime)
    (w w' : World setting.policy) (history : List (Event Call Err Answer (World setting.policy))) (raw : JsonObject),
    Runs setting now ⟨w, .idle, history⟩ ∧ Performs setting.env (exportLogical P source raw) w (.ok exported) w'

/-- The payload of an export declares the digest and the length that its metadata name. -/
theorem Exported.declares (laws : P.Lawful) {exported : LogicalObjectExport} (h : Exported P exported) :
    exported.payload.expectedDigest = some exported.metadata.digest ∧
      exported.payload.expectedLength = some exported.metadata.byteLength := by
  obtain ⟨source, setting, now, w, w', history, raw, hrun, hperforms⟩ := h
  obtain ⟨-, reference, resolved, id, -, -, rfl⟩ :=
    hperforms.ensures (exportLogical_ensures laws w (hrun.intact laws) raw)
  exact ⟨rfl, rfl⟩

/-! ## Import -/

section Import

variable {setting : Setting P adapter.transport.binding} {w w' : World setting.policy}

/-- An operation that returned has gone through the put of its input. -/
theorem performs_put {operation : Operation} {value : PutInput} {result : Result}
    (h : Performs setting.env (adapter.execute P operation) w (.ok result) w') (hinput : operation.input = .put value) :
    Performs setting.env (adapter.put P value) w (.ok result) w' := by
  unfold OciDistributionAdapter.execute at h
  cases hmethod : adapter.validateOperation operation with
  | error error =>
    rw [hmethod] at h
    cases h
  | ok method =>
    rw [hmethod] at h
    cases hcapable : P.requireObjectCapabilities adapter.binding operation.requirements with
    | error error =>
      rw [hcapable] at h
      cases h
    | ok _ =>
      rw [hcapable, hinput] at h
      simp only [Action.lift_ok, Prog.ret_bind] at h
      split at h
      · exact h
      · cases h

/-- An import that returned is a put with the exported values. -/
theorem performs_import {normalize : PutArguments → Except Err Operation} (hcarries : Carries P normalize)
    {exported : LogicalObjectExport} {createOnly : Bool} {result : Result}
    (h : Performs setting.env (importLogical P adapter normalize exported createOnly) w (.ok result) w') :
    ∃ value, Carried P (importArguments adapter exported createOnly) value ∧
      Performs setting.env (adapter.put P value) w (.ok result) w' := by
  unfold importLogical at h
  cases hnormalize : normalize (importArguments adapter exported createOnly) with
  | error error =>
    rw [hnormalize] at h
    cases h
  | ok operation =>
    rw [hnormalize] at h
    obtain ⟨value, hinput, hcarried⟩ := hcarries _ _ hnormalize
    exact ⟨value, hcarried, performs_put h hinput⟩

variable (P adapter) in
/-- A stored object with everything that was exported, under the target's own resource and provenance. -/
structure Matches (exported : LogicalObjectExport) (stored : StoredObject) : Prop where
  objectRef : stored.metadata.objectRef =
    exactReference adapter exported.metadata.objectRef.objectId exported.metadata.digest
  digest : stored.metadata.digest = exported.metadata.digest
  byteLength : stored.metadata.byteLength = exported.metadata.byteLength
  mediaType : stored.metadata.mediaType = exported.metadata.mediaType
  userMetadata : SameItems stored.metadata.userMetadata exported.metadata.userMetadata
  creationContext : SameItems stored.metadata.creationContext exported.metadata.creationContext
  provenance : SameItems stored.metadata.provenance
    (Json.set exported.metadata.provenance "meridianAdapter" (.obj (adapter.adapterProvenance P)))
  immutability : stored.immutability = exported.immutability
  retention : stored.retention = exported.retention

variable (setting) in
/-- The object that exact stat and get return has everything that was exported. -/
def Preserved (w : World setting.policy) (exported : LogicalObjectExport) : Prop :=
  ∃ resolved, Matches P adapter exported resolved.stored ∧
    w.lookup (exactReference adapter exported.metadata.objectRef.objectId exported.metadata.digest) = .ok resolved ∧
    ∀ raw, adapter.reference P raw false =
        .ok (exactReference adapter exported.metadata.objectRef.objectId exported.metadata.digest) →
      (∀ outcome w', Performs setting.faultless.env (adapter.stat P raw) w outcome w' →
        outcome = .ok (.stat resolved.stored.metadata)) ∧
      ∀ outcome w', Performs setting.faultless.env (adapter.get P raw) w outcome w' →
        ∃ payload, outcome = .ok (.get resolved.stored.metadata payload) ∧
          payload.expectedDigest = some exported.metadata.digest ∧
          payload.expectedLength = some exported.metadata.byteLength

/-- Stat and get return what the lookup of their reference finds. -/
theorem preserved_of_lookup (laws : P.Lawful) (hintact : Intact w.registry) {exported : LogicalObjectExport}
    {resolved : ResolvedObject P} (hmatches : Matches P adapter exported resolved.stored)
    (h : w.lookup (exactReference adapter exported.metadata.objectRef.objectId exported.metadata.digest) =
      .ok resolved) : Preserved setting w exported := by
  have hfound := (lookup_ok laws hintact).mp h
  refine ⟨resolved, hmatches, h, fun raw hraw => ⟨fun outcome w' hperforms => ?_, fun outcome w' hperforms => ?_⟩⟩
  · have hstat := hperforms.ensures (@stat_ensures P adapter setting.faultless laws w hintact raw)
    cases outcome with
    | error error => exact absurd hfound (hstat.2.resolve_left id _ hraw resolved)
    | ok result =>
      obtain ⟨-, reference, other, hreference, hother, rfl⟩ := hstat
      obtain rfl := Except.ok.inj (hraw.symm.trans hreference)
      rw [hother.unique laws hfound]
  · have hget := hperforms.ensures (@get_ensures P adapter setting.faultless laws w hintact raw)
    cases outcome with
    | error error => exact absurd hfound (hget.2.resolve_left id _ hraw resolved)
    | ok result =>
      obtain ⟨-, reference, other, payload, hreference, hother, rfl, hdigest, hlength, -⟩ := hget
      obtain rfl := Except.ok.inj (hraw.symm.trans hreference)
      rw [hother.unique laws hfound] at hdigest hlength ⊢
      refine ⟨payload, rfl, ?_, ?_⟩
      · rw [hdigest, hfound.payload.1, hmatches.digest]
      · rw [hlength, hfound.payload.2.1, hmatches.byteLength]

/-- A version that a success left under its exact tag was there before, or carries the request's values. -/
theorem Succeeded.origin {value : PutInput} {content : Bytes} {immutability : ImmutabilityRequest}
    {retention : Option RetentionRequest} {metadata : ObjectMetadata}
    (h : Succeeded setting value content immutability retention w w' metadata) :
    (∃ stored ∈ (catalogOf w.registry).live, stored.metadata = metadata ∧ stored.objectId = value.objectId) ∨
      ∃ provenance createdAt, adapter.provenanceOf P value.provenance = .ok provenance ∧
        P.newObjectMetadata (adapter.metadataFields P value (identityOf P content) immutability provenance createdAt) =
          .ok metadata := by
  obtain ⟨w₁, w₂, hgrows, -, -, -, hcommitted, -⟩ := h.committed
  cases hcommitted with
  | existing stored body hpublished htagged hid =>
    refine .inl ⟨stored, ?_, rfl, hid⟩
    rw [← catalogOf_grows hgrows]
    exact ⟨body, hpublished, htagged⟩
  | fresh _ provenance createdAt _ _ hprovenance hnew => exact .inr ⟨provenance, createdAt, hprovenance, hnew⟩

/-- What the constructor makes of the values of an export matches it. -/
theorem matches_fresh (laws : P.Lawful) (hkeeps : KeepsMappings P) {exported : LogicalObjectExport} {createOnly : Bool}
    {value : PutInput} (hcarried : Carried P (importArguments adapter exported createOnly) value) {content : Bytes}
    (hdigest : exported.metadata.digest = sha256Digest P content)
    (hlength : exported.metadata.byteLength = content.length) {provenance : JsonObject} {createdAt : Int}
    (hprovenance : adapter.provenanceOf P value.provenance = .ok provenance) {metadata : ObjectMetadata}
    (hnew : P.newObjectMetadata (adapter.metadataFields P value (identityOf P content) exported.immutability provenance
      createdAt) = .ok metadata) :
    Matches P adapter exported ⟨metadata, exported.immutability, exported.retention⟩ := by
  obtain ⟨hobjectRef, hsame, hbytes, hmedia, -⟩ := laws.metadata_fields _ _ hnew
  obtain ⟨hcontext, huser, hkept⟩ := hkeeps _ _ hnew
  obtain ⟨fields, hfields, hitems⟩ := hcarried.provenance
  have hset : provenance = Json.set fields "meridianAdapter" (.obj (adapter.adapterProvenance P)) := by
    rw [hfields, OciDistributionAdapter.provenanceOf] at hprovenance
    split at hprovenance
    · cases hprovenance
    · exact (Except.ok.inj hprovenance).symm
  refine ⟨?_, ?_, ?_, ?_, ?_, ?_, ?_, rfl, rfl⟩
  · rw [hobjectRef, hdigest]
    show (⟨adapter.semanticResource, value.objectId, some (sha256Digest P content)⟩ : ObjectReference) = _
    rw [hcarried.objectId]
    rfl
  · exact hsame.trans hdigest.symm
  · exact hbytes.trans hlength.symm
  · exact hmedia.trans hcarried.mediaType
  · exact huser.trans hcarried.userMetadata
  · exact hcontext.trans hcarried.creationContext
  · rw [hset] at hkept
    exact (hkept.trans (hitems.set _ _)).trans (SameItems.set_pop _ _ _)

/-- An import that returned has published the declared content, or found it. -/
theorem import_succeeded (laws : P.Lawful) {normalize : PutArguments → Except Err Operation}
    (hcarries : Carries P normalize) {exported : LogicalObjectExport} (hexported : Exported P exported)
    (hintact : Intact w.registry) {createOnly : Bool} {result : Result}
    (himport : Performs setting.env (importLogical P adapter normalize exported createOnly) w (.ok result) w') :
    ∃ value content metadata, Carried P (importArguments adapter exported createOnly) value ∧
      Succeeded setting value content exported.immutability exported.retention w w' metadata ∧
      exported.metadata.digest = sha256Digest P content ∧ exported.metadata.byteLength = content.length ∧
      Intact w'.registry := by
  obtain ⟨value, hcarried, hput⟩ := performs_import hcarries himport
  obtain ⟨⟨-, content, immutability, retention, metadata, -, hsucceeded, -, rfl⟩, hintact'⟩ :=
    hput.ensures (intact_after laws w hintact (put_ensures laws w hintact value))
  obtain rfl := Except.ok.inj (hcarried.immutability.symm.trans hsucceeded.parsed)
  obtain rfl := Except.ok.inj (hcarried.retention.symm.trans hsucceeded.kept)
  obtain ⟨-, -, -, hdigest, -⟩ := hsucceeded.advances laws hintact
  have hhonours : Honours P exported.payload.expectedDigest exported.payload.expectedLength content := by
    obtain ⟨⟨error, herror⟩, -⟩ | ⟨payload, other, hpayload, -, hhonours, hresult⟩ :=
      hput.ensures (put_declared_ensures laws w hintact value)
    · cases herror
    · obtain rfl := Except.ok.inj (hcarried.payload.symm.trans hpayload)
      obtain ⟨found, hfound, hsame⟩ := hresult _ rfl
      cases hfound
      rw [sha256Digest_injective laws (hdigest.symm.trans hsame)]
      exact hhonours
  obtain ⟨hexpected, hlength⟩ := hexported.declares laws
  exact ⟨value, content, metadata, hcarried, hsucceeded, hhonours.digest _ hexpected, hhonours.length _ hlength,
    hintact'⟩

/-- What an exact reference found before an import, it finds afterwards. -/
theorem import_lookup (laws : P.Lawful) {normalize : PutArguments → Except Err Operation}
    (hcarries : Carries P normalize) {exported : LogicalObjectExport} (hexported : Exported P exported)
    (hintact : Intact w.registry) {createOnly : Bool} {result : Result}
    (himport : Performs setting.env (importLogical P adapter normalize exported createOnly) w (.ok result) w')
    {objectId digest : String} {held : ResolvedObject P}
    (hheld : w.lookup (exactReference adapter objectId digest) = .ok held) :
    w'.lookup (exactReference adapter objectId digest) = .ok held := by
  obtain ⟨value, content, metadata, -, hsucceeded, -, -, hintact'⟩ :=
    import_succeeded laws hcarries hexported hintact himport
  obtain ⟨stored, -, -, -, hadvances⟩ := hsucceeded.advances laws hintact
  obtain ⟨hlive, -, -⟩ := lookup_exact laws hintact hheld
  exact lookup_live laws hintact hintact' hheld (hadvances.live.mpr (.inr hlive))

/-- Without faults, an import without a reason to raise succeeds. -/
theorem import_valid_ensures (laws : P.Lawful) (hintact : Intact w.registry) (hfaults : ¬setting.faults)
    {normalize : PutArguments → Except Err Operation} {exported : LogicalObjectExport} {createOnly : Bool}
    {operation : Operation} {value : PutInput} {payload : PayloadReference} {content : Bytes}
    {immutability : ImmutabilityRequest} {retention : Option RetentionRequest}
    (hnormalize : normalize (importArguments adapter exported createOnly) = .ok operation)
    (haccepted : Accepted P adapter operation "put") (hinput : operation.input = .put value)
    (hvalid : ValidPut setting value w payload content immutability retention) :
    (importLogical P adapter normalize exported createOnly).Ensures setting.env World.Change w fun outcome _ =>
      ∃ result, outcome = .ok result := by
  unfold importLogical
  rw [hnormalize]
  simp only [Action.lift_ok, Prog.ret_bind]
  rw [execute_put haccepted hinput]
  refine (put_valid_ensures laws hintact hfaults hvalid).mono fun outcome w' h => ?_
  obtain ⟨-, metadata, rfl, -⟩ := h
  exact ⟨_, rfl⟩

/-- An import that succeeds has preserved the exported object if and only if every record of the exact
version that the target already held matches it. -/
theorem import_preserves (laws : P.Lawful) (hkeeps : KeepsMappings P)
    {normalize : PutArguments → Except Err Operation} (hcarries : Carries P normalize)
    {exported : LogicalObjectExport} (hexported : Exported P exported) {now : DateTime}
    {history : List (Event Call Err Answer (World setting.policy))} (hrun : Runs setting now ⟨w, .idle, history⟩)
    {createOnly : Bool} {result : Result}
    (himport : Performs setting.env (importLogical P adapter normalize exported createOnly) w (.ok result) w') :
    Preserved setting w' exported ↔ ∀ held,
      w.lookup (exactReference adapter exported.metadata.objectRef.objectId exported.metadata.digest) = .ok held →
      Matches P adapter exported held.stored := by
  have hintact : Intact w.registry := hrun.intact laws
  obtain ⟨value, content, metadata, hcarried, hsucceeded, hdeclared, hlength, hintact'⟩ :=
    import_succeeded laws hcarries hexported hintact himport
  obtain ⟨stored, hstored, hid, hdigest, hadvances⟩ := hsucceeded.advances laws hintact
  have hobjectId : value.objectId = exported.metadata.objectRef.objectId := hcarried.objectId
  -- the version that the exact reference finds afterwards
  obtain ⟨resolved, hlookup, hresolved⟩ := (mem_live_iff laws hintact').mp (hadvances.live.mpr (.inl rfl))
  rw [hid, hobjectId, hstored, hdigest, ← hdeclared] at hlookup
  constructor
  · intro hpreserved held hheld
    obtain ⟨other, hmatches, hother, -⟩ := hpreserved
    have hsame := import_lookup laws hcarries hexported hintact himport hheld
    rw [Except.ok.inj (hsame.symm.trans hother)]
    exact hmatches
  · intro hheld
    refine preserved_of_lookup laws hintact' ?_ hlookup
    have hbefore : ∀ before ∈ (catalogOf w.registry).live, before.metadata = metadata →
        before.objectId = value.objectId → Matches P adapter exported resolved.stored := by
      intro before hlive hsame hsameId
      obtain ⟨held, hlookup', hfound⟩ := (mem_live_iff laws hintact).mp hlive
      rw [hsameId, hobjectId, hsame, hdigest, ← hdeclared] at hlookup'
      have hkept := import_lookup laws hcarries hexported hintact himport hlookup'
      rw [Except.ok.inj (hlookup.symm.trans hkept)]
      exact hheld held hlookup'
    obtain ⟨before, hlive, hsame, hsameId⟩ | ⟨provenance, createdAt, hprovenance, hnew⟩ := hsucceeded.origin
    · exact hbefore before hlive hsame hsameId
    · cases hadvances with
      | existing _ hlive => exact hbefore stored hlive hstored hid
      | fresh himmutability hretention =>
        obtain ⟨found, immutability, retention⟩ := stored
        obtain rfl : found = metadata := hstored
        obtain rfl : immutability = exported.immutability := himmutability
        obtain rfl : retention = exported.retention := hretention
        rw [hresolved]
        exact matches_fresh laws hkeeps hcarried hdeclared hlength hprovenance hnew

end Import

namespace Sample

open MeridianOci.Model.Sample

/-- The mapping of a payload reference. -/
def payloadToDict (payload : PayloadReference) : JsonObject :=
  [("digest", textOrNull payload.expectedDigest), ("id", .str payload.id),
    ("length", match payload.expectedLength with
      | none => .null
      | some length => .int length)]

/-- The operation of a put, with its arguments as they are. -/
def putOperation (arguments : PutArguments) : Operation where
  catalog := "object"
  operationContract := "meridian.object.put"
  operationVersion := "1.0.0"
  resources := [arguments.resource]
  requirements := []
  input := .put {
    objectId := arguments.objectId
    payload := .obj (payloadToDict arguments.payload)
    createOnly := arguments.createOnly
    immutability := some (immutabilityToDict arguments.immutability)
    retention := arguments.retention.map retentionToDict
    expectedDigest := some arguments.expectedDigest
    expectedLength := some arguments.expectedLength
    mediaType := arguments.mediaType
    creationContext := arguments.creationContext
    userMetadata := arguments.userMetadata
    provenance := .obj arguments.provenance }

/-- A normaliser of puts with replayable payloads. -/
def normalize (arguments : PutArguments) : Except Err Operation :=
  if arguments.payload.replayable then .ok (putOperation arguments)
  else .error (.of .valueError "payload is not replayable")

theorem keepsMappings : KeepsMappings platform := by
  intro fields metadata h
  obtain ⟨-, rfl⟩ := newObjectMetadata_ok h
  have hsorted : ∀ items : JsonObject, SameItems (Json.sortFields items) items := by
    intro items key
    rw [Json.get?_sortFields, Option.map_map]
    congr 1
    funext item
    exact Json.sortKeys_sortKeys item
  exact ⟨hsorted _, hsorted _, hsorted _⟩

theorem payloadOf_dict {value : PutInput} {payload : PayloadReference} (hreplayable : payload.replayable = true)
    (h : value.payload = .obj (payloadToDict payload)) : payloadOf platform value = .ok payload := by
  obtain ⟨id, replayable, digest, length⟩ := payload
  obtain rfl : replayable = true := hreplayable
  cases digest <;> cases length <;>
    simp [payloadOf, h, payloadToDict, platform, payloadReference, text?, optionalText, optionalNat, textOrNull,
      Json.get?_cons, bind, Except.bind, pure, Except.pure]

theorem immutabilityOf_dict {value : PutInput} {request : ImmutabilityRequest}
    (h : value.immutability = some (immutabilityToDict request)) : immutabilityOf platform value = .ok request := by
  simp [immutabilityOf, h, platform, immutabilityFromMapping, immutabilityToDict, text?, Json.get?_cons, bind,
    Except.bind, pure, Except.pure]

theorem retentionOf_dict {value : PutInput} {retention : Option RetentionRequest}
    (h : value.retention = retention.map retentionToDict) : retentionOf platform value = .ok retention := by
  cases retention with
  | none => simp [retentionOf, h]
  | some request =>
    obtain ⟨retainUntil, policy, requireEnforcement⟩ := request
    cases retainUntil <;>
      simp [retentionOf, h, platform, retentionFromMapping, retentionToDict, text?, Json.get?_cons, bind, Except.bind,
        pure, Except.pure, Except.map]

theorem carries : Carries platform normalize := by
  intro arguments operation h
  unfold normalize at h
  split at h
  · rename_i hreplayable
    obtain rfl := Except.ok.inj h
    exact ⟨_, rfl, rfl, payloadOf_dict hreplayable rfl, rfl, fun _ => rfl, fun _ => rfl, ⟨_, rfl, fun _ => rfl⟩,
      immutabilityOf_dict rfl, retentionOf_dict rfl, rfl⟩
  · cases h

/-- What the export of a plain put's version is. -/
def exportOf (put : Plain) : LogicalObjectExport where
  metadata := put.stored.metadata
  payload := ⟨put.text, true, some (sha256Digest platform put.content), some put.content.length⟩
  immutability := put.immutabilityRequest
  retention := put.retention

section Plain

variable {limit : Nat} {put : Plain}

/-- A live version of a plain put can be exported. -/
theorem performs_export_plain {w : World (Sample.setting limit False).policy} (hintact : Intact w.registry)
    (hlive : put.stored ∈ (catalogOf w.registry).live) : ∃ raw w',
    Exports platform (Sample.adapter limit) raw put.stored.metadata.objectRef ∧
      Performs (Sample.setting limit False).env (exportLogical platform (Sample.adapter limit) raw) w
        (.ok (exportOf put)) w' := by
  obtain ⟨resolved, hlookup, hstored⟩ := (mem_live_iff lawful hintact).mp hlive
  have hexports : Exports platform (Sample.adapter limit) (referenceToDict put.stored.metadata.objectRef)
      put.stored.metadata.objectRef := by
    refine ⟨?_, rfl⟩
    simp [platform, parseObjectReference, referenceFromMapping, referenceToDict, text?, optionalText, textOrNull,
      Json.get?_cons, bind, Except.bind, pure, Except.pure, Plain.stored]
  obtain ⟨w', hperforms⟩ := performs_export lawful hintact id (responsive limit False) hexports
    ((lookup_ok lawful hintact).mp hlookup) put.text
  rw [hstored] at hperforms
  exact ⟨_, w', hexports, hperforms⟩

/-- The version of the first put of a run is exported as it is. -/
theorem exported_start (hfits : put.Fits limit) : Exported platform (exportOf put) := by
  obtain ⟨w, hrun, hcatalog⟩ := run_start hfits (.aware 0)
  have hlive : put.stored ∈ (catalogOf w.registry).live := by
    rw [hcatalog]
    exact rfl
  obtain ⟨raw, w', -, hperforms⟩ := performs_export_plain (hrun.intact lawful) hlive
  exact ⟨_, _, _, w, w', _, raw, hrun, hperforms⟩

theorem accepted_import (createOnly : Bool) : Accepted platform (Sample.adapter limit)
    (putOperation (importArguments (Sample.adapter limit) (exportOf put) createOnly)) "put" := by
  refine ⟨?_, rfl⟩
  simp [OciDistributionAdapter.validateOperation, putOperation, importArguments, operationVersion,
    availableOperationContracts, Sample.adapter, Sample.binding]

/-- The payload of the export delivers what the put's payload delivered. -/
theorem deliverable_import (hfits : put.Fits limit) :
    Deliverable (Sample.setting limit False) (exportOf put).payload put.content := by
  obtain ⟨hstreams, hshort, -, -⟩ := @deliverable limit False put hfits.content
  exact ⟨hstreams, hshort, rfl, rfl⟩

theorem acceptable_import (hfits : put.Fits limit) {createOnly : Bool} {value : PutInput}
    (hinput : (putOperation (importArguments (Sample.adapter limit) (exportOf put) createOnly)).input = .put value)
    (before : DateTime) : Acceptable (Sample.setting limit False) value (identityOf platform put.content)
      put.immutabilityRequest put.retention before := by
  obtain rfl := OperationInput.put.inj hinput
  obtain ⟨hanchor, hmedia, hmetadata⟩ := @acceptable limit False put hfits before
  exact ⟨hanchor, hmedia, hmetadata⟩

/-- The import of a plain put's version needs no more than the put. -/
theorem validPut_import (hfits : put.Fits limit) {createOnly : Bool} {w : World (Sample.setting limit False).policy}
    (havailable : Available w.registry put.objectId put.immutabilityRequest
      (createOnly || put.immutabilityRequest.publishOnce))
    (hunblocked : ¬Blocked w.registry put.objectId (sha256Digest platform put.content)
      (createOnly || put.immutabilityRequest.publishOnce)) {value : PutInput}
    (hinput : (putOperation (importArguments (Sample.adapter limit) (exportOf put) createOnly)).input = .put value) :
    ValidPut (Sample.setting limit False) value w (exportOf put).payload put.content put.immutabilityRequest
      put.retention := by
  have hacceptable := acceptable_import hfits hinput w.now
  obtain rfl := OperationInput.put.inj hinput
  exact ⟨payloadOf_dict rfl rfl, immutabilityOf_dict rfl, retentionOf_dict rfl, deliverable_import hfits, havailable,
    hunblocked, fun _ => hacceptable⟩

/-- Such an import succeeds where it is available and not blocked. -/
theorem performs_plain (hfits : put.Fits limit) (createOnly : Bool) {w : World (Sample.setting limit False).policy}
    (hintact : Intact w.registry)
    (havailable : Available w.registry put.objectId put.immutabilityRequest
      (createOnly || put.immutabilityRequest.publishOnce))
    (hunblocked : ¬Blocked w.registry put.objectId (sha256Digest platform put.content)
      (createOnly || put.immutabilityRequest.publishOnce)) :
    ∃ result w', Performs (Sample.setting limit False).env
      (importLogical platform (Sample.adapter limit) normalize (exportOf put) createOnly) w (.ok result) w' := by
  obtain ⟨outcome, w', hperforms⟩ := (responsive limit False).performs
    (importLogical platform (Sample.adapter limit) normalize (exportOf put) createOnly) w
  obtain ⟨result, rfl⟩ := hperforms.ensures (import_valid_ensures lawful hintact id rfl (accepted_import createOnly) rfl
    (validPut_import hfits havailable hunblocked rfl))
  exact ⟨result, w', hperforms⟩

end Plain

/-- What is exported. -/
def portable : Plain := { objectId := "a", text := "x" }

/-- Another version of the object. -/
def revised : Plain := { objectId := "a", text := "y" }

/-- The same version, put as a mutable one. -/
def older : Plain := { objectId := "a", text := "x", immutability := some ⟨"mutable", false⟩ }

/-- An import that may replace preserves what was exported where the target holds another version of the object. -/
theorem import_preserves_revised : ∃ limit, ∃ (w w' : World (Sample.setting limit False).policy) (result : Result),
    Exported platform (exportOf portable) ∧
    Runs (Sample.setting limit False) (.aware 0) ⟨w, .idle, [⟨.execute revised.operation,
      .ok (.result (.put revised.stored.metadata)), World.empty _ (.aware 0), w⟩]⟩ ∧
    Performs (Sample.setting limit False).env
      (importLogical platform (Sample.adapter limit) normalize (exportOf portable) false) w (.ok result) w' ∧
    Preserved (Sample.setting limit False) w' (exportOf portable) := by
  obtain ⟨limit, hfits⟩ := exists_limit [portable, revised] (by decide)
  have hportable := hfits portable (by simp)
  have hexported := exported_start hportable
  obtain ⟨w, hrun, hcatalog⟩ := run_start (hfits revised (by simp)) (.aware 0)
  have hintact : Intact w.registry := hrun.intact lawful
  have hnew : ∀ stored ∈ (catalogOf w.registry).live,
      stored.metadata.digest ≠ sha256Digest platform portable.content := by
    intro stored hstored
    rw [hcatalog] at hstored
    obtain rfl : stored = revised.stored := hstored
    exact @digest_ne revised portable (by decide)
  obtain ⟨result, w', himport⟩ := performs_plain hportable false hintact (fun h => by cases h)
    (not_blocked lawful hintact fun stored hstored hdigest _ => absurd hdigest (hnew stored hstored))
  have hpreserves := import_preserves lawful keepsMappings carries hexported hrun himport
  refine ⟨limit, w, w', result, hexported, hrun, himport, hpreserves.mpr fun held hheld => ?_⟩
  obtain ⟨hlive, -, hdigest⟩ := lookup_exact lawful hintact hheld
  exact absurd hdigest (hnew _ hlive)

/-- Such an import returns the version that the target holds already, which was put with another mutability. -/
theorem import_keeps_older : ∃ limit, ∃ (w w' : World (Sample.setting limit False).policy) (result : Result),
    Exported platform (exportOf portable) ∧
    Runs (Sample.setting limit False) (.aware 0) ⟨w, .idle, [⟨.execute older.operation,
      .ok (.result (.put older.stored.metadata)), World.empty _ (.aware 0), w⟩]⟩ ∧
    Performs (Sample.setting limit False).env
      (importLogical platform (Sample.adapter limit) normalize (exportOf portable) false) w (.ok result) w' ∧
    ¬Preserved (Sample.setting limit False) w' (exportOf portable) := by
  obtain ⟨limit, hfits⟩ := exists_limit [portable, older] (by decide)
  have hexported := exported_start (hfits portable (by simp))
  obtain ⟨w, hrun, hcatalog⟩ := run_start (hfits older (by simp)) (.aware 0)
  have hintact : Intact w.registry := hrun.intact lawful
  have hlive : older.stored ∈ (catalogOf w.registry).live := by
    rw [hcatalog]
    exact rfl
  obtain ⟨result, w', himport⟩ := performs_plain (hfits portable (by simp)) false hintact
    (fun h => by cases h) (not_blocked lawful hintact fun stored hstored _ _ => by
      rw [hcatalog] at hstored
      obtain rfl : stored = older.stored := hstored
      exact ⟨rfl, rfl⟩)
  refine ⟨limit, w, w', result, hexported, hrun, himport, fun hpreserved => ?_⟩
  obtain ⟨held, hheld, hstored⟩ := (mem_live_iff lawful hintact).mp hlive
  obtain ⟨resolved, hmatches, hlookup, -⟩ := hpreserved
  have hkept := import_lookup lawful carries hexported hintact himport hheld
  obtain rfl := Except.ok.inj (hkept.symm.trans hlookup)
  have himmutability := hmatches.immutability
  rw [hstored] at himmutability
  exact absurd himmutability (by decide)

end Sample

end MeridianOci.Service
