import MeridianOci.Service.Probe
import MeridianOci.Service.Migration

/-!
# Resolution against any registry

Nothing is assumed of the registry here: every send may get any answer. What a lookup
returns still goes back to answers that it got, each compared with what refers to it.
-/
namespace MeridianOci.Service

open MeridianOci.Data MeridianOci.Effect MeridianOci.Model

set_option autoImplicit false

variable {P : Platform}

/-- The payload table gives a registered payload the expectations that it was registered with. -/
def Expects {σ : Type} (env : Environment Op Op.Res Err σ) : Prop :=
  ∀ source length digest s payload s', env (.register source length digest) s (.ok payload) s' →
    payload.expectedDigest = digest ∧ payload.expectedLength = some length

section Evidence

variable (P) (adapter : OciDistributionAdapter) (trace : List (Effect.Exchange Op Op.Res Err))

/-- A request was answered with this content: a success whose body reached its end. -/
def Returned (request : Request) (content : Bytes) : Prop :=
  ∃ raw, ⟨.send request, .ok raw⟩ ∈ trace ∧ raw.status = 200 ∧ raw.failure = none ∧
    P.decodeContent raw.headers raw.chunks.flatten = some content

/-- A field of a manifest holds a descriptor. -/
def FieldHolds (document : ManifestDocument P) (key : String) (descriptor : OciDescriptor P) : Prop :=
  ∃ fields, Json.get? document.value key = some (.obj fields) ∧ OciDescriptor.fromMapping P fields = .ok descriptor

/-- The metadata was decoded from the config blob of a manifest, and describes its one layer. -/
structure Decoded (document : ManifestDocument P) (metadata : ObjectMetadata) : Prop where
  config : ∃ descriptor content stored, FieldHolds P document "config" descriptor ∧
    Returned P trace (.getBlob descriptor.digest none) content ∧ content.length = descriptor.size ∧
    sha256Digest P content = descriptor.digest ∧
    StoredObject.fromBytes P content adapter.binding.maxMetadataBytes = .ok stored ∧ stored.metadata = metadata
  layer : ∃ fields payload, Json.get? document.value "layers" = some (.arr [.obj fields]) ∧
    OciDescriptor.fromMapping P fields = .ok payload ∧ metadata.digest = payload.digest ∧
    metadata.byteLength = payload.size ∧ metadata.mediaType = payload.mediaType

/-- What the answers say about the metadata that a reference was resolved to. -/
structure Attested (reference : ObjectReference) (metadata : ObjectMetadata) : Prop where
  resource : metadata.objectRef.resourceRef = adapter.semanticResource
  objectId : metadata.objectRef.objectId = reference.objectId
  digest : ∀ digest, reference.digest = some digest → metadata.digest = digest
  answers : ∃ tag document anchor anchorBody subject,
    OciDistributionAdapter.referenceTag P reference = .ok tag ∧
    Returned P trace (.getManifest tag) document.body ∧ Decoded P adapter trace document metadata ∧
    anchorTag P reference.objectId = .ok anchor ∧ Returned P trace (.getManifest anchor) anchorBody ∧
    FieldHolds P document "subject" subject ∧ subject.digest = sha256Digest P anchorBody

/-- The payload was registered for the blob of the metadata, with its digest and length. -/
structure Enrolled (metadata : ObjectMetadata) (payload : PayloadReference) : Prop where
  registered : ⟨.register ⟨metadata.digest, none⟩ metadata.byteLength (some metadata.digest), .ok payload⟩ ∈ trace
  digest : payload.expectedDigest = some metadata.digest
  length : payload.expectedLength = some metadata.byteLength

end Evidence

section Within

variable {adapter : OciDistributionAdapter} {trace whole : List (Effect.Exchange Op Op.Res Err)}

theorem Returned.within {request : Request} {content : Bytes} (h : Returned P trace request content)
    (hsub : trace ⊆ whole) : Returned P whole request content := by
  obtain ⟨raw, hmem, hraw⟩ := h
  exact ⟨raw, hsub hmem, hraw⟩

theorem Decoded.within {document : ManifestDocument P} {metadata : ObjectMetadata}
    (h : Decoded P adapter trace document metadata) (hsub : trace ⊆ whole) :
    Decoded P adapter whole document metadata := by
  obtain ⟨descriptor, content, stored, hdescribes, hreturned, hrest⟩ := h.config
  exact ⟨⟨descriptor, content, stored, hdescribes, hreturned.within hsub, hrest⟩, h.layer⟩

theorem Attested.within {reference : ObjectReference} {metadata : ObjectMetadata}
    (h : Attested P adapter trace reference metadata) (hsub : trace ⊆ whole) :
    Attested P adapter whole reference metadata := by
  obtain ⟨tag, document, anchor, anchorBody, subject, htag, hmanifest, hdecoded, hanchor, hbody, hsubject⟩ := h.answers
  exact ⟨h.resource, h.objectId, h.digest, tag, document, anchor, anchorBody, subject, htag, hmanifest.within hsub,
    hdecoded.within hsub, hanchor, hbody.within hsub, hsubject⟩

/-- A body that was read within its bound was read whole. -/
theorem Got.returned {request : Request} {maximumBytes : Nat} {response : BoundedResponse}
    (h : Got P request maximumBytes trace response) (hstatus : response.status = 200) :
    Returned P trace request response.content := by
  obtain ⟨raw, hmem, hbounded⟩ := h
  unfold boundedResponse at hbounded
  cases hfailure : raw.failure with
  | some failure =>
    cases hread : readBounded maximumBytes raw.chunks [] raw.failure with
    | error error =>
      rw [hread] at hbounded
      cases hbounded
    | ok body =>
      rw [hfailure] at hread
      exact absurd hread readBounded_failure
  | none =>
    rw [hfailure, readBounded_chunks _ _ _ (Nat.zero_le _), List.nil_append] at hbounded
    by_cases hlong : maximumBytes < raw.chunks.flatten.length
    · rw [if_pos hlong] at hbounded
      cases hbounded
    · rw [if_neg hlong] at hbounded
      dsimp only at hbounded
      cases hdecode : P.decodeContent raw.headers raw.chunks.flatten with
      | none =>
        rw [hdecode] at hbounded
        cases hbounded
      | some content =>
        rw [hdecode] at hbounded
        obtain rfl := Except.ok.inj hbounded
        exact ⟨raw, hmem, hstatus, hfailure, hdecode⟩

end Within

/-! ## Manifests -/

/-- Descriptors that are read from a manifest are those of its fields. -/
theorem manifestDescriptors_ok {document : ManifestDocument P} {config payload subject : OciDescriptor P}
    (h : manifestDescriptors document = .ok (config, payload, subject)) :
    FieldHolds P document "config" config ∧ FieldHolds P document "subject" subject ∧
      ∃ fields, Json.get? document.value "layers" = some (.arr [.obj fields]) ∧
        OciDescriptor.fromMapping P fields = .ok payload := by
  unfold manifestDescriptors at h
  dsimp only at h
  split at h
  · split at h
    · cases h
    split at h
    · rename_i configFields subjectFields hconfig hsubject
      split at h
      · rename_i layer hlayers
        cases hfirst : OciDescriptor.fromMapping P configFields with
        | error error =>
          rw [hfirst] at h
          cases h
        | ok first => ?_
        cases hsecond : OciDescriptor.fromMapping P layer with
        | error error =>
          rw [hfirst, hsecond] at h
          cases h
        | ok second => ?_
        cases hthird : OciDescriptor.fromMapping P subjectFields with
        | error error =>
          rw [hfirst, hsecond, hthird] at h
          cases h
        | ok third => ?_
        simp only [hfirst, hsecond, hthird, bind, Except.bind] at h
        split at h
        · cases h
        split at h
        · cases h
        cases h
        exact ⟨⟨_, hconfig, hfirst⟩, ⟨_, hsubject, hthird⟩, layer, hlayers, hsecond⟩
      · cases h
    · cases h
  · cases h

section Lookups

variable {adapter : OciDistributionAdapter} {σ : Type} {env : Environment Op Op.Res Err σ} {s s' : σ}
variable {trace : List (Effect.Exchange Op Op.Res Err)}

/-- A pure step of a call that returns has succeeded. -/
theorem lift_traces {α β : Type} {given : Except Err α} {next : α → Action β} {result : β}
    (h : Traces env (Action.lift given >>= next) s trace (.ok result) s') :
    ∃ value, given = .ok value ∧ Traces env (next value) s trace (.ok result) s' := by
  cases given with
  | error error => cases h
  | ok value => exact ⟨value, rfl, h⟩

/-- A step of a call that returns has returned. -/
theorem then_traces {α β : Type} {action : Action α} {next : α → Action β} {result : β}
    (h : Traces env (action >>= next) s trace (.ok result) s') : ∃ value front s₁ rest, trace = front ++ rest ∧
      Traces env action s front (.ok value) s₁ ∧ Traces env (next value) s₁ rest (.ok result) s' := by
  obtain ⟨error, -, heq⟩ | hrest := h.of_bind
  · cases heq
  · exact hrest

theorem getManifest_returned {reference : String} {document : ManifestDocument P}
    (h : Traces env (adapter.transport.getManifest P reference) s trace (.ok document) s') :
    Returned P trace (.getManifest reference) document.body := by
  obtain ⟨response, hgot, hstatus, hbody⟩ := getManifest_traces h
  rw [hbody]
  exact hgot.returned hstatus

theorem getBlobBytes_returned {descriptor : OciDescriptor P} {maximumBytes : Nat} {content : Bytes}
    (h : Traces env (adapter.transport.getBlobBytes P descriptor maximumBytes) s trace (.ok content) s') :
    Returned P trace (.getBlob descriptor.digest none) content ∧ content.length = descriptor.size ∧
      sha256Digest P content = descriptor.digest := by
  unfold RegistryHttpClient.getBlobBytes at h
  split at h
  · cases h
  obtain ⟨response, hgot, hstatus, hcontent, hlength, hdigest⟩ := request_then (R := fun response content =>
      response.content = content ∧ content.length = descriptor.size ∧
        sha256Digest P content = descriptor.digest) h fun response => by
    dsimp only
    split
    · trivial
    · rename_i hlength
      split
      · trivial
      · rename_i hdigest
        exact ⟨rfl, of_not_not fun hne => hlength (.inr hne), of_not_not hdigest⟩
  rw [← hcontent]
  rw [← hcontent] at hlength hdigest
  exact ⟨hgot.returned (List.mem_singleton.mp hstatus), hlength, hdigest⟩

theorem storedFromManifest_traces {document : ManifestDocument P} {resolved : ResolvedObject P}
    (h : Traces env (adapter.storedFromManifest P document) s trace (.ok resolved) s') :
    resolved.manifest = document ∧ Decoded P adapter trace document resolved.stored.metadata ∧
      resolved.payload.digest = resolved.stored.metadata.digest ∧
      resolved.payload.size = resolved.stored.metadata.byteLength := by
  unfold OciDistributionAdapter.storedFromManifest at h
  cases hdescriptors : manifestDescriptors document with
  | error error =>
    rw [hdescriptors] at h
    dsimp only at h
    split at h <;> cases h
  | ok descriptors => ?_
  obtain ⟨config, payload, subject⟩ := descriptors
  rw [hdescriptors] at h
  dsimp only at h
  rw [Prog.pure_eq, Prog.ret_bind] at h
  obtain ⟨content, front, s₁, rest, rfl, hblob, h⟩ := then_traces h
  obtain ⟨hreturned, hlength, hdigest⟩ := getBlobBytes_returned hblob
  cases hstored : StoredObject.fromBytes P content adapter.binding.maxMetadataBytes with
  | error error =>
    rw [hstored] at h
    dsimp only at h
    split at h <;> cases h
  | ok stored => ?_
  rw [hstored] at h
  replace h : Traces env (if stored.metadata.digest ≠ payload.digest ∨ stored.metadata.byteLength ≠ payload.size ∨
      stored.metadata.mediaType ≠ payload.mediaType then throw (.of .digestMismatch
        "OCI manifest payload descriptor does not match Object metadata")
    else return ⟨stored, document, payload⟩ : Action (ResolvedObject P)) s₁ rest (.ok resolved) s' := h
  split at h
  · cases h
  rename_i hagrees
  cases h
  obtain ⟨hconfig, -, layer, hlayers, hpayload⟩ := manifestDescriptors_ok hdescriptors
  have hsame : stored.metadata.digest = payload.digest := of_not_not fun hne => hagrees (.inl hne)
  have hsize : stored.metadata.byteLength = payload.size := of_not_not fun hne => hagrees (.inr (.inl hne))
  have hmedia : stored.metadata.mediaType = payload.mediaType := of_not_not fun hne => hagrees (.inr (.inr hne))
  exact ⟨rfl, ⟨⟨config, content, stored, hconfig, hreturned.within (List.subset_append_left _ _), hlength, hdigest,
    hstored, rfl⟩, layer, payload, hlayers, hpayload, hsame, hsize, hmedia⟩, hsame.symm, hsize.symm⟩

theorem storedForReference_traces {reference : ObjectReference} {resolved : ResolvedObject P}
    (h : Traces env (adapter.storedForReference P reference) s trace (.ok resolved) s') :
    Attested P adapter trace reference resolved.stored.metadata ∧
      resolved.payload.digest = resolved.stored.metadata.digest ∧
      resolved.payload.size = resolved.stored.metadata.byteLength := by
  unfold OciDistributionAdapter.storedForReference at h
  obtain ⟨tag, htag, h⟩ := lift_traces h
  obtain ⟨document, first, s₁, rest, rfl, hmanifest, h⟩ := then_traces h
  obtain ⟨found, second, s₂, rest, rfl, hstored, h⟩ := then_traces h
  dsimp only at h
  split at h
  · cases h
  rename_i hresource
  split at h
  · cases h
  rename_i hobject
  split at h
  · cases h
  rename_i hdigest
  obtain ⟨anchor, hanchor, h⟩ := lift_traces h
  obtain ⟨anchorDocument, third, s₃, rest, rfl, hbody, h⟩ := then_traces h
  obtain ⟨⟨config, payload, subject⟩, hdescriptors, h⟩ := lift_traces h
  dsimp only at h
  split at h
  · cases h
  rename_i hsubject
  cases h
  obtain ⟨hsame, hdecoded, hpayload⟩ := storedFromManifest_traces hstored
  rw [hsame] at hdescriptors
  obtain ⟨-, hdescribes, -⟩ := manifestDescriptors_ok hdescriptors
  refine ⟨⟨of_not_not hresource, of_not_not hobject, fun digest hgiven => ?_, tag, document, anchor,
    anchorDocument.body, subject, htag, ?_, ?_, hanchor, ?_, hdescribes, ?_⟩, hpayload⟩
  · rw [hgiven] at hdigest
    exact (of_not_not hdigest).symm
  · exact (getManifest_returned hmanifest).within fun _ hmem => by simp [hmem]
  · exact hdecoded.within fun _ hmem => by simp [hmem]
  · exact (getManifest_returned hbody).within fun _ hmem => by simp [hmem]
  · rw [← anchorDocument.digest_eq]
    exact of_not_not hsubject

/-! ## Operations -/

/-- Registering the blob of what was resolved. -/
theorem register_traces (hregisters : Expects env) {metadata : ObjectMetadata}
    {digest : String} {size : Nat} (hdigest : digest = metadata.digest) (hsize : size = metadata.byteLength)
    {payload : PayloadReference}
    (h : Traces env (Action.register ⟨digest, none⟩ size (some digest)) s trace (.ok payload) s') :
    Enrolled trace metadata payload := by
  subst hdigest hsize
  cases h with
  | call _ _ _ s₁ _ answer rest _ hanswer hrest =>
    cases answer with
    | error error => cases hrest
    | ok given =>
      cases hrest
      obtain ⟨hgiven, hlength⟩ := hregisters _ _ _ _ _ _ hanswer
      exact ⟨List.mem_cons_self, hgiven, hlength⟩

theorem stat_traces {raw : Json} {result : Result}
    (h : Traces env (adapter.stat P raw) s trace (.ok result) s') : ∃ reference metadata,
      adapter.reference P raw false = .ok reference ∧ result = .stat metadata ∧
        Attested P adapter trace reference metadata := by
  unfold OciDistributionAdapter.stat at h
  obtain ⟨reference, hreference, h⟩ := lift_traces h
  obtain ⟨resolved, front, s₁, rest, rfl, hresolved, h⟩ := then_traces h
  cases h
  rw [List.append_nil]
  exact ⟨reference, _, hreference, rfl, (storedForReference_traces hresolved).1⟩

theorem get_traces (hregisters : Expects env) {raw : Json} {result : Result}
    (h : Traces env (adapter.get P raw) s trace (.ok result) s') : ∃ reference metadata payload,
      adapter.reference P raw false = .ok reference ∧ result = .get metadata payload ∧
        Attested P adapter trace reference metadata ∧ Enrolled trace metadata payload := by
  unfold OciDistributionAdapter.get at h
  obtain ⟨reference, hreference, h⟩ := lift_traces h
  obtain ⟨resolved, front, s₁, rest, rfl, hresolved, h⟩ := then_traces h
  obtain ⟨payload, middle, s₂, rest, rfl, hregister, h⟩ := then_traces h
  cases h
  obtain ⟨hattested, hdigest, hsize⟩ := storedForReference_traces hresolved
  obtain ⟨hmem, hgiven, hlength⟩ := register_traces hregisters hdigest hsize hregister
  exact ⟨reference, _, payload, hreference, rfl, hattested.within (List.subset_append_left _ _), by simp [hmem],
    hgiven, hlength⟩

theorem readRange_attested {raw range : Json} {result : Result}
    (h : Traces env (adapter.readRange P raw range) s trace (.ok result) s') : ∃ reference metadata payload selected,
      adapter.reference P raw false = .ok reference ∧ result = .readRange metadata payload selected ∧
        Attested P adapter trace reference metadata := by
  unfold OciDistributionAdapter.readRange at h
  obtain ⟨reference, hreference, h⟩ := lift_traces h
  obtain ⟨byteRange, -, h⟩ := lift_traces h
  obtain ⟨resolved, front, s₁, rest, rfl, hresolved, h⟩ := then_traces h
  obtain ⟨selected, -, h⟩ := lift_traces h
  split at h
  · cases h
  obtain ⟨payload, middle, s₂, rest, rfl, -, h⟩ := then_traces h
  cases h
  exact ⟨reference, _, payload, selected, hreference, rfl,
    (storedForReference_traces hresolved).1.within (List.subset_append_left _ _)⟩

theorem exportLogical_traces (hregisters : Expects env) {raw : JsonObject} {exported : LogicalObjectExport}
    (h : Traces env (exportLogical P adapter raw) s trace (.ok exported) s') : ∃ reference,
      P.parseObjectReference raw false = .ok reference ∧ reference.resourceRef = adapter.semanticResource ∧
        Attested P adapter trace reference exported.metadata ∧
        Enrolled trace exported.metadata exported.payload := by
  unfold exportLogical at h
  obtain ⟨reference, hparsed, h⟩ := lift_traces h
  have hreference : P.parseObjectReference raw false = .ok reference := by
    split at hparsed
    · rename_i parsed heq
      rw [heq, ← Except.ok.inj hparsed]
    · split at hparsed <;> cases hparsed
  split at h
  · cases h
  rename_i hresource
  obtain ⟨resolved, front, s₁, rest, rfl, hresolved, h⟩ := then_traces h
  obtain ⟨payload, middle, s₂, rest, rfl, hregister, h⟩ := then_traces h
  cases h
  obtain ⟨hattested, hdigest, hsize⟩ := storedForReference_traces hresolved
  obtain ⟨hmem, hgiven, hlength⟩ := register_traces hregisters hdigest hsize hregister
  exact ⟨reference, hreference, of_not_not hresource, hattested.within (List.subset_append_left _ _), by simp [hmem],
    hgiven, hlength⟩

/-- The method that an operation was executed by. -/
theorem execute_traces {operation : Operation} {result : Result}
    (h : Traces env (adapter.execute P operation) s trace (.ok result) s') :
    match operation.input with
    | .stat raw => Traces env (adapter.stat P raw) s trace (.ok result) s'
    | .get raw => Traces env (adapter.get P raw) s trace (.ok result) s'
    | .readRange raw range => Traces env (adapter.readRange P raw range) s trace (.ok result) s'
    | _ => True := by
  unfold OciDistributionAdapter.execute at h
  obtain ⟨method, -, h⟩ := lift_traces h
  obtain ⟨_, -, h⟩ := lift_traces h
  cases hinput : operation.input with
  | put value => trivial
  | list prefixText limit cursor => trivial
  | delete raw => trivial
  | stat raw =>
    rw [hinput] at h
    dsimp only at h ⊢
    split at h
    · exact h
    · cases h
  | get raw =>
    rw [hinput] at h
    dsimp only at h ⊢
    split at h
    · exact h
    · cases h
  | readRange raw range =>
    rw [hinput] at h
    dsimp only at h ⊢
    split at h
    · exact h
    · cases h

/-- A stat, a get, a range read or an export raises, or what it returns was verified against the answers
that it got. -/
theorem resolution_verified (hregisters : Expects env) :
    (∀ operation raw outcome, operation.input = .stat raw →
      Traces env (adapter.execute P operation) s trace outcome s' → (∃ error, outcome = .error error) ∨
        ∃ reference metadata, adapter.reference P raw false = .ok reference ∧ outcome = .ok (.stat metadata) ∧
          Attested P adapter trace reference metadata) ∧
    (∀ operation raw outcome, operation.input = .get raw →
      Traces env (adapter.execute P operation) s trace outcome s' → (∃ error, outcome = .error error) ∨
        ∃ reference metadata payload, adapter.reference P raw false = .ok reference ∧
          outcome = .ok (.get metadata payload) ∧ Attested P adapter trace reference metadata ∧
          Enrolled trace metadata payload) ∧
    (∀ operation raw range outcome, operation.input = .readRange raw range →
      Traces env (adapter.execute P operation) s trace outcome s' → (∃ error, outcome = .error error) ∨
        ∃ reference metadata payload selected, adapter.reference P raw false = .ok reference ∧
          outcome = .ok (.readRange metadata payload selected) ∧ Attested P adapter trace reference metadata) ∧
    (∀ raw outcome, Traces env (exportLogical P adapter raw) s trace outcome s' →
      (∃ error, outcome = .error error) ∨ ∃ reference exported, P.parseObjectReference raw false = .ok reference ∧
        reference.resourceRef = adapter.semanticResource ∧ outcome = .ok exported ∧
          Attested P adapter trace reference exported.metadata ∧
          Enrolled trace exported.metadata exported.payload) := by
  refine ⟨fun operation raw outcome hinput h => ?_, fun operation raw outcome hinput h => ?_,
    fun operation raw range outcome hinput h => ?_, fun raw outcome h => ?_⟩
  · cases outcome with
    | error error => exact .inl ⟨error, rfl⟩
    | ok result =>
      have hmethod := execute_traces h
      rw [hinput] at hmethod
      obtain ⟨reference, metadata, hreference, rfl, hattested⟩ := stat_traces hmethod
      exact .inr ⟨reference, metadata, hreference, rfl, hattested⟩
  · cases outcome with
    | error error => exact .inl ⟨error, rfl⟩
    | ok result =>
      have hmethod := execute_traces h
      rw [hinput] at hmethod
      obtain ⟨reference, metadata, payload, hreference, rfl, hattested⟩ := get_traces hregisters hmethod
      exact .inr ⟨reference, metadata, payload, hreference, rfl, hattested⟩
  · cases outcome with
    | error error => exact .inl ⟨error, rfl⟩
    | ok result =>
      have hmethod := execute_traces h
      rw [hinput] at hmethod
      obtain ⟨reference, metadata, payload, selected, hreference, rfl, hattested⟩ := readRange_attested hmethod
      exact .inr ⟨reference, metadata, payload, selected, hreference, rfl, hattested⟩
  · cases outcome with
    | error error => exact .inl ⟨error, rfl⟩
    | ok exported =>
      obtain ⟨reference, hparsed, hresource, hattested⟩ := exportLogical_traces hregisters h
      exact .inr ⟨reference, exported, hparsed, hresource, rfl, hattested⟩

end Lookups

namespace Sample

open MeridianOci.Model.Sample

theorem registers {limit : Nat} {faults : Prop} : Expects (Sample.setting limit faults).env := by
  intro source length digest s payload s' h
  obtain ⟨id, heq, -⟩ := h
  obtain rfl := Except.ok.inj heq
  exact ⟨rfl, rfl⟩

/-- The first version of a repository is exported, and verified. -/
theorem resolution_verified_export : ∃ limit, ∃ (w w' : World (Sample.setting limit False).policy) (raw : JsonObject)
    (trace : List (Effect.Exchange Op Op.Res Err)) (exported : LogicalObjectExport) (reference : ObjectReference),
    Traces (Sample.setting limit False).env (exportLogical platform (Sample.adapter limit) raw) w trace
      (.ok exported) w' ∧
    Attested platform (Sample.adapter limit) trace reference exported.metadata ∧
    Enrolled trace exported.metadata exported.payload := by
  let put : Plain := { objectId := "a", text := "x" }
  obtain ⟨limit, hfits⟩ := put.exists_fits (by decide)
  obtain ⟨w, hrun, hcatalog⟩ := run_start hfits (.aware 0)
  have hlive : put.stored ∈ (catalogOf w.registry).live := by
    rw [hcatalog]
    exact rfl
  obtain ⟨raw, w', -, hperforms⟩ := performs_export_plain (hrun.intact lawful) hlive
  obtain ⟨trace, htrace⟩ := hperforms.traces
  obtain ⟨error, heq⟩ | ⟨reference, exported, -, -, heq, hattested, hregistered⟩ :=
    (resolution_verified registers).2.2.2 raw _ htrace
  · cases heq
  · obtain rfl := Except.ok.inj heq
    exact ⟨limit, w, w', raw, trace, _, reference, htrace, hattested, hregistered⟩

end Sample

end MeridianOci.Service
