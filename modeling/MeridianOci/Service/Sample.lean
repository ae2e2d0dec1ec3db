import MeridianOci.Model.Sample
import MeridianOci.Service.Progress

/-!
# A sample service

One adapter over one registry on the sample platform. A payload delivers its own id, and
the clock stands still. Any finite number of plain puts fits within suitable limits, and
each of them is a put without a reason to raise.
-/
namespace MeridianOci.Service.Sample

open MeridianOci.Data MeridianOci.Effect MeridianOci.Model MeridianOci.Model.Sample

set_option autoImplicit false

/-- A binding whose size limits are a parameter. -/
def binding (limit : Nat) : OciDistributionBinding where
  resourceRef := ⟨"object", "tenant", "bucket"⟩
  endpoint := "https://registry"
  allowInsecureHttp := false
  chunkSize := 65536
  maxObjectBytes := 1048576
  maxRangeBytes := 1048576
  maxManifestBytes := 1024 + limit
  maxMetadataBytes := 1024 + limit
  maxListPageSize := 100
  maxScanTags := 100
  maxMultipartParts := 100
  deletionEnabled := true
  referrersRequired := false
  cursorSigningKey := List.replicate 16 7
  registryRelease := none
  registryImage := none
  chunkSize_bounds := by decide
  maxObjectBytes_pos := by decide
  maxRangeBytes_pos := by decide
  maxManifestBytes_bound := Nat.le_add_right _ _
  maxMetadataBytes_bound := Nat.le_add_right _ _
  maxListPageSize_bounds := by decide
  maxScanTags_bound := by decide
  maxMultipartParts_bounds := by decide
  cursorSigningKey_bound := by decide

def adapter (limit : Nat) : OciDistributionAdapter :=
  ⟨binding limit, ⟨binding limit, 3, readAttempts_pos⟩⟩

/-- The digits of the number of an upload, behind a slash. -/
def uploadUrl (n : Nat) : String := String.ofList ('/' :: Nat.toDigits 10 n)

theorem uploadUrl_injective : Function.Injective uploadUrl := by
  intro m n h
  have hdigits := (List.cons.inj (String.ofList_inj.mp h)).2
  have hvalue := congrArg (fun digits => Nat.ofDigitChars 10 digits 0) hdigits
  simpa only [Nat.ofDigitChars_ten_toDigits] using hvalue

theorem uploadUrl_ne_empty (n : Nat) : uploadUrl n ≠ "" := by
  intro h
  have htext := congrArg String.toList h
  rw [uploadUrl, String.toList_ofList] at htext
  cases htext

attribute [irreducible] uploadUrl

/-- A registry that answers in one chunk and fills its pages. -/
def policy (limit : Nat) : Policy platform (adapter limit).transport.binding where
  chunks body := [body]
  chunks_flatten body := by simp
  responseUrl _ := "https://registry/"
  responseUrl_safe _ := by
    simp [requireSafeResponseUrl, splitUrl, platform, allowedHttp, adapter, binding, bind, Except.bind]
  uploadUrl := uploadUrl
  locationOf url := url
  uploadUrl_injective := uploadUrl_injective
  uploadUrl_build n digest := by cases digest <;> rfl
  location_uploadUrl headers n h := by
    simp [location, h, uploadUrl_ne_empty, platform, splitUrl, bind, Except.bind]
  pageLength limit remaining := min limit remaining.length
  pageLength_le _ _ := Nat.min_le_left _ _

/-- What a payload delivers. -/
def contentOf (payload : PayloadReference) : Bytes := utf8 payload.id.toList

def chunksOf (content : Bytes) : List Bytes := if content = [] then [] else [content]

/-- A setting in which every payload delivers its content and the clock shows one time. -/
def setting (limit : Nat) (faults : Prop) : Setting platform (adapter limit).transport.binding where
  policy := policy limit
  streams payload _ answer := answer = .ok ⟨chunksOf (contentOf payload), none⟩
  tick _ now := now = .aware 0
  faults := faults

theorem responsive (limit : Nat) (faults : Prop) : Responsive (setting limit faults) :=
  ⟨fun _ _ => ⟨_, rfl⟩, fun _ => ⟨_, rfl⟩⟩

/-! ## Plain puts -/

/-- A put of a text as one object, with the metadata the caller may leave out. -/
structure Plain where
  objectId : String
  text : String
  createOnly : Bool := false
  immutability : Option ImmutabilityRequest := none
  retention : Option RetentionRequest := none

namespace Plain

variable (put : Plain)

def content : Bytes := utf8 put.text.toList

def immutabilityRequest : ImmutabilityRequest := put.immutability.getD ⟨"immutable", false⟩

def input : PutInput where
  objectId := put.objectId
  payload := .obj [("id", .str put.text)]
  createOnly := put.createOnly
  immutability := put.immutability.map immutabilityToDict
  retention := put.retention.map retentionToDict
  expectedDigest := none
  expectedLength := none
  mediaType := "text/plain"
  creationContext := []
  userMetadata := []
  provenance := .obj []

def operation : Operation where
  catalog := "object"
  operationContract := "meridian.object.put"
  operationVersion := "1.0.0"
  resources := [⟨"object", "tenant", "bucket"⟩]
  requirements := []
  input := .put put.input

/-- The version that the put publishes if it is fresh. -/
def stored : StoredObject where
  metadata := {
    objectRef := ⟨⟨"object", "tenant", "bucket"⟩, put.objectId, some (sha256Digest platform put.content)⟩
    digest := sha256Digest platform put.content
    byteLength := put.content.length
    mediaType := "text/plain"
    createdAt := "0"
    creationContext := []
    userMetadata := []
    mutability := put.immutabilityRequest.mutability
    provenance := [("meridianAdapter", .obj (Json.sortFields ((adapter 0).adapterProvenance platform)))] }
  immutability := put.immutabilityRequest
  retention := put.retention

/-- The put and its manifests are within the limits. -/
structure Fits (limit : Nat) : Prop where
  content : put.content.length ≤ 1048576
  anchor : (anchorBody platform put.objectId).length ≤ 1024 + limit
  stored : (put.stored.toBytes platform).length ≤ 1024 + limit
  manifest : ∀ body, put.stored.IsManifest platform body → body.length ≤ 1024 + limit

theorem Fits.mono {limit limit' : Nat} (h : put.Fits limit) (hle : limit ≤ limit') : put.Fits limit' :=
  ⟨h.content, h.anchor.trans (by omega), h.stored.trans (by omega),
    fun body hbody => (h.manifest body hbody).trans (by omega)⟩

theorem exists_fits (hcontent : put.content.length ≤ 1048576) : ∃ limit, put.Fits limit := by
  obtain ⟨size, hsize⟩ : ∃ size, ∀ body, put.stored.IsManifest platform body → body.length ≤ size := by
    by_cases h : ∃ body, put.stored.IsManifest platform body
    · obtain ⟨body, hbody⟩ := h
      exact ⟨body.length, fun other hother => by rw [hother.unique hbody]⟩
    · exact ⟨0, fun body hbody => absurd ⟨body, hbody⟩ h⟩
  refine ⟨(anchorBody platform put.objectId).length + (put.stored.toBytes platform).length + size, hcontent,
    by omega, by omega, fun body hbody => ?_⟩
  have := hsize body hbody
  omega

end Plain

/-- A publish-once put of a text. -/
def once (objectId text : String) : Plain where
  objectId := objectId
  text := text
  immutability := some ⟨"immutable", true⟩

/-- Some limit is large enough for all of finitely many puts. -/
theorem exists_limit (puts : List Plain) (hcontent : ∀ put ∈ puts, put.content.length ≤ 1048576) :
    ∃ limit, ∀ put ∈ puts, put.Fits limit := by
  induction puts with
  | nil => exact ⟨0, fun put h => by cases h⟩
  | cons put rest ih =>
    obtain ⟨limit, hrest⟩ := ih fun other hother => hcontent other (List.mem_cons_of_mem _ hother)
    obtain ⟨limit', hput⟩ := put.exists_fits (hcontent put List.mem_cons_self)
    refine ⟨limit + limit', fun other hother => ?_⟩
    rcases List.mem_cons.mp hother with rfl | hmem
    · exact hput.mono _ (by omega)
    · exact (hrest other hmem).mono _ (by omega)

section Puts

variable {limit : Nat} {faults : Prop} {put : Plain}

theorem accepted_put : Accepted platform (adapter limit) put.operation "put" := by
  refine ⟨?_, rfl⟩
  simp [OciDistributionAdapter.validateOperation, Plain.operation, operationVersion, availableOperationContracts,
    adapter, binding]

theorem payloadOf_input : payloadOf platform put.input = .ok ⟨put.text, true, none, none⟩ := by
  simp [payloadOf, Plain.input, platform, payloadReference, text?, optionalText, optionalNat, Json.get?,
    bind, Except.bind, pure, Except.pure]

theorem immutabilityOf_input : immutabilityOf platform put.input = .ok put.immutabilityRequest := by
  cases h : put.immutability with
  | none => simp [immutabilityOf, Plain.input, h, Plain.immutabilityRequest]
  | some request =>
    simp only [immutabilityOf, Plain.input, h, Option.map_some, Plain.immutabilityRequest, Option.getD_some]
    exact lawful.immutability_parse request (.inr ⟨immutabilityToDict request, by
      simp [platform, immutabilityFromMapping, immutabilityToDict, text?, Json.get?_cons, bind, Except.bind,
        pure, Except.pure]⟩)

theorem retentionOf_input : retentionOf platform put.input = .ok put.retention := by
  cases h : put.retention with
  | none => simp [retentionOf, Plain.input, h]
  | some request =>
    have hparse : platform.retentionFromMapping (retentionToDict request) = .ok request := by
      obtain ⟨retainUntil, policy, requireEnforcement⟩ := request
      cases retainUntil <;>
        simp [platform, retentionFromMapping, retentionToDict, text?, Json.get?_cons, bind, Except.bind, pure,
          Except.pure]
    simp only [retentionOf, Plain.input, h, Option.map_some, hparse, Except.map]

theorem deliverable (hcontent : put.content.length ≤ 1048576) :
    Deliverable (setting limit faults) ⟨put.text, true, none, none⟩ put.content where
  streams answer h := by
    refine ⟨_, h, rfl, ?_, ?_⟩
    · simp only [chunksOf]
      split
      · simp
      · rename_i hne
        simpa using hne
    · simp only [chunksOf]
      split
      · rename_i hempty
        exact hempty.symm
      · simp [contentOf, Plain.content]
  short := hcontent
  length := rfl
  digest := rfl

theorem newObjectMetadata_plain :
    platform.newObjectMetadata ((adapter limit).metadataFields platform put.input (identityOf platform put.content)
      put.immutabilityRequest [("meridianAdapter", .obj ((adapter limit).adapterProvenance platform))] 0) =
        .ok put.stored.metadata := by
  have htext : (Json.obj [("meridianAdapter",
      .obj ((adapter limit).adapterProvenance platform))]).isText = true := by
    simp [OciDistributionAdapter.adapterProvenance, adapter, binding, Json.isText, Json.fieldsAreText, Json.keys]
  have hempty : (Json.obj []).isText = true := by decide
  rw [show platform.newObjectMetadata = newObjectMetadata from rfl, newObjectMetadata]
  simp only [OciDistributionAdapter.metadataFields, Plain.input, htext, hempty, Bool.and_true, if_true]
  rfl

theorem acceptable (hfits : put.Fits limit) (before : DateTime) :
    Acceptable (setting limit faults) put.input (identityOf platform put.content) put.immutabilityRequest
      put.retention before where
  anchorFits := hfits.anchor
  mediaType := show "text/plain".toList.contains '/' = true by decide
  metadata := by
    refine ⟨_, rfl, ?_⟩
    rintro now rfl
    exact ⟨0, put.stored.metadata, rfl, newObjectMetadata_plain, hfits.stored, hfits.manifest⟩

/-- A plain put has no reason to raise where it is available and not blocked. -/
theorem validPut (hfits : put.Fits limit) {w : World (setting limit faults).policy}
    (havailable : Available w.registry put.objectId put.immutabilityRequest
      (put.createOnly || put.immutabilityRequest.publishOnce))
    (hunblocked : ¬Blocked w.registry put.objectId (sha256Digest platform put.content)
      (put.createOnly || put.immutabilityRequest.publishOnce)) :
    ValidPut (setting limit faults) put.input w ⟨put.text, true, none, none⟩ put.content
      put.immutabilityRequest put.retention :=
  ⟨payloadOf_input, immutabilityOf_input, retentionOf_input, deliverable hfits.content, havailable, hunblocked,
    fun _ => acceptable hfits w.now⟩

/-- A plain put whose content is stored can be committed where it is available and not blocked. -/
theorem performs_commit (hfits : put.Fits limit) {w : World (setting limit False).policy} (hintact : Intact w.registry)
    (hblob : w.registry.blobs[sha256Digest platform put.content]? = some put.content)
    (havailable : Available w.registry put.objectId put.immutabilityRequest
      (put.createOnly || put.immutabilityRequest.publishOnce))
    (hunblocked : ¬Blocked w.registry put.objectId (sha256Digest platform put.content)
      (put.createOnly || put.immutabilityRequest.publishOnce)) :
    ∃ metadata w', w'.memory = w.memory ∧ Performs (setting limit False).env ((adapter limit).commitObject platform
      put.input (identityOf platform put.content) put.immutabilityRequest put.retention
      (put.input.createOnly || put.immutabilityRequest.publishOnce)) w (.ok metadata) w' := by
  obtain ⟨outcome, w', hcommit⟩ := (responsive limit False).performs ((adapter limit).commitObject platform
    put.input (identityOf platform put.content) put.immutabilityRequest put.retention
    (put.input.createOnly || put.immutabilityRequest.publishOnce)) w
  have hdone := hcommit.ensures (commitObject_ensures lawful w hintact put.input hblob
    (immutabilityOf_valid immutabilityOf_input) (retentionOf_valid retentionOf_input) _)
  cases outcome with
  | ok metadata => exact ⟨metadata, w', hdone.2.frame.1, hcommit⟩
  | error error =>
    obtain ⟨-, -, -, hfalse | hnot | hblocked | ⟨-, hbad⟩⟩ := hdone
    · exact hfalse.elim
    · exact absurd havailable hnot
    · exact absurd hblocked hunblocked
    · exact absurd (acceptable hfits w.now) hbad

/-- The commit after the upload of the content is finished. -/
theorem performs_commit_finished (hfits : put.Fits limit) {w w₁ : World (setting limit False).policy}
    (hintact : Intact w.registry)
    (havailable : Available w.registry put.objectId put.immutabilityRequest
      (put.createOnly || put.immutabilityRequest.publishOnce))
    (hunblocked : ¬Blocked w.registry put.objectId (sha256Digest platform put.content)
      (put.createOnly || put.immutabilityRequest.publishOnce))
    {url : String} (hfinished : w₁.registry = (w.registry.addBlob put.content).dropUpload url) :
    ∃ metadata w₂, w₂.memory = w₁.memory ∧ Performs (setting limit False).env ((adapter limit).commitObject platform
      put.input (identityOf platform put.content) put.immutabilityRequest put.retention
      (put.input.createOnly || put.immutabilityRequest.publishOnce)) w₁ (.ok metadata) w₂ := by
  have hgrows : w.registry.Grows w₁.registry := by
    rw [hfinished]
    exact (Registry.grows_addBlob lawful _ _).trans ⟨rfl, rfl, fun _ _ h => h⟩
  have hblob : w₁.registry.blobs[sha256Digest platform put.content]? = some put.content := by
    rw [hfinished]
    exact (Table.get?_insert _ _ _ _).trans (if_pos rfl)
  exact performs_commit hfits ((Move.quiet _ _ hgrows).intact lawful hintact) hblob
    ((available_grows hgrows).mpr havailable) fun hblocked => hunblocked ((blocked_grows hgrows).mp hblocked)

/-- Where nothing is tagged, nothing stands in the way of a put. -/
theorem unblocked_of_untagged {policy : Policy platform (adapter limit).transport.binding} {registry : Registry policy}
    (hfree : ∀ tag, registry.tagged tag = none) {objectId digest : String} {createOnly : Bool} :
    ¬Blocked registry objectId digest createOnly := by
  rintro ⟨stored, body, -, htagged, -⟩
  cases (hfree _).symm.trans htagged

/-- A run, with faults or without, goes on with what is performed without faults. -/
theorem run_performs {now : DateTime} {w w' : World (setting limit faults).policy} {call : Call}
    {outcome : Except Err Answer} {history : List (Event Call Err Answer (World (setting limit faults).policy))}
    (hrun : Runs (setting limit faults) now ⟨w, .idle, history⟩)
    (hperforms : Performs (setting limit False).env (call.program platform (adapter limit)) w outcome w') :
    Runs (setting limit faults) now ⟨w', .idle, history ++ [⟨call, outcome, w, w'⟩]⟩ :=
  Reachable.performs hrun (hperforms.mono fun _ _ _ _ h => Setting.env_faultless h)

/-- A run goes on with a plain put that is available and not blocked. -/
theorem run_plain (hfits : put.Fits limit) {now : DateTime} {w : World (setting limit faults).policy}
    {history : List (Event Call Err Answer (World (setting limit faults).policy))}
    (hrun : Runs (setting limit faults) now ⟨w, .idle, history⟩)
    (havailable : Available w.registry put.objectId put.immutabilityRequest
      (put.createOnly || put.immutabilityRequest.publishOnce))
    (hunblocked : ¬Blocked w.registry put.objectId (sha256Digest platform put.content)
      (put.createOnly || put.immutabilityRequest.publishOnce)) :
    ∃ w' metadata, Runs (setting limit faults) now
        ⟨w', .idle, history ++ [⟨.execute put.operation, .ok (.result (.put metadata)), w, w'⟩]⟩ ∧
      Succeeded (setting limit False) put.input put.content put.immutabilityRequest put.retention w w'
        metadata := by
  obtain ⟨w', metadata, hperforms, hsucceeded⟩ := @exists_performs_put _ _ (setting limit False) lawful w (hrun.intact lawful)
    id _ _ _ _ _ (responsive limit False) _ accepted_put rfl (validPut hfits havailable hunblocked)
  exact ⟨w', metadata, run_performs hrun hperforms, hsucceeded⟩

theorem empty_tagged (now : DateTime) (tag : String) :
    (World.empty (setting limit faults).policy now).registry.tagged tag = none := by
  rw [Registry.tagged_eq_none]
  simp [World.empty, Registry.empty]

/-- What a plain put of a new content publishes. -/
theorem plain_catalog {w w' : World (setting limit faults).policy} (hintact : Intact w.registry)
    {metadata : ObjectMetadata}
    (h : Succeeded (setting limit faults) put.input put.content put.immutabilityRequest put.retention w w'
      metadata)
    (hnew : ∀ other ∈ (catalogOf w.registry).live, other.metadata.digest ≠ sha256Digest platform put.content) :
    metadata = put.stored.metadata ∧ catalogOf w'.registry = Catalog.point (storedNames platform)
      (((catalogOf w.registry).anchor put.objectId).publish put.stored) put.stored := by
  have hmetadata : metadata = put.stored.metadata := by
    obtain ⟨w₁, w₂, hgrows, -, -, -, hcommitted, -⟩ := h.committed
    cases hcommitted with
    | existing stored body hpublished htagged hid hdigest =>
      refine absurd hdigest (hnew stored ?_)
      rw [← catalogOf_grows hgrows]
      exact ⟨body, hpublished, htagged⟩
    | fresh _ provenance createdAt body _ hprovenance hfields _ htick =>
      obtain rfl := DateTime.aware.inj htick
      obtain rfl := Except.ok.inj hprovenance
      exact Except.ok.inj (hfields.symm.trans newObjectMetadata_plain)
  obtain ⟨stored, hstored, hid, hdigest, hadvances⟩ := h.advances lawful hintact
  cases hadvances with
  | existing _ hlive =>
    rw [← hstored] at hdigest
    exact absurd hdigest (hnew stored hlive)
  | fresh himmutability hretention _ hcatalog =>
    obtain ⟨found, immutability, retention⟩ := stored
    obtain rfl : found = put.stored.metadata := hstored.trans hmetadata
    obtain rfl : immutability = put.immutabilityRequest := himmutability
    obtain rfl : retention = put.retention := hretention
    exact ⟨hmetadata, hcatalog⟩

/-- A run goes on with a plain put of a new content. -/
theorem run_new (hfits : put.Fits limit) {now : DateTime} {w : World (setting limit faults).policy}
    {history : List (Event Call Err Answer (World (setting limit faults).policy))}
    (hrun : Runs (setting limit faults) now ⟨w, .idle, history⟩)
    (havailable : Available w.registry put.objectId put.immutabilityRequest
      (put.createOnly || put.immutabilityRequest.publishOnce))
    (hnew : ∀ other ∈ (catalogOf w.registry).live, other.metadata.digest ≠ sha256Digest platform put.content) :
    ∃ w', Runs (setting limit faults) now ⟨w', .idle,
        history ++ [⟨.execute put.operation, .ok (.result (.put put.stored.metadata)), w, w'⟩]⟩ ∧
      catalogOf w'.registry = Catalog.point (storedNames platform)
        (((catalogOf w.registry).anchor put.objectId).publish put.stored) put.stored := by
  have hintact := hrun.intact lawful
  obtain ⟨w', metadata, hrun', hsucceeded⟩ := run_plain hfits hrun havailable
    (not_blocked lawful hintact fun other hother hdigest _ => absurd hdigest (hnew other hother))
  obtain ⟨rfl, hcatalog⟩ := @plain_catalog _ False _ _ _ hintact _ hsucceeded hnew
  exact ⟨w', hrun', hcatalog⟩

theorem catalogOf_empty (now : DateTime) :
    catalogOf (World.empty (setting limit faults).policy now).registry = ⟨∅, ∅, ∅⟩ := by
  simp only [catalogOf, empty_tagged, reduceCtorEq, and_false, exists_const, Set.ofPred_false]

/-- The first put of a run, and its version. -/
theorem run_start (hfits : put.Fits limit) (now : DateTime) :
    ∃ w, Runs (setting limit False) now ⟨w, .idle,
        [⟨.execute put.operation, .ok (.result (.put put.stored.metadata)), World.empty _ now, w⟩]⟩ ∧
      catalogOf w.registry = ⟨{put.objectId}, {put.stored}, {put.stored}⟩ := by
  obtain ⟨w, hrun, hcatalog⟩ := @run_new _ False _ hfits now _ [] .refl (fun _ => empty_tagged now _) (by
    rw [catalogOf_empty]
    exact fun other h => h.elim)
  refine ⟨w, hrun, ?_⟩
  rw [hcatalog, catalogOf_empty]
  ext other
  · simp [Catalog.point, Catalog.publish, Catalog.anchor]
  · simp [Catalog.point, Catalog.publish, Catalog.anchor]
  · simp [Catalog.point, Catalog.publish, Catalog.anchor]

theorem digest_ne {other : Plain} (h : put.content ≠ other.content) :
    sha256Digest platform put.content ≠ sha256Digest platform other.content :=
  fun heq => h (sha256Digest_injective lawful heq)

/-- A run of ordinary puts of different contents. -/
theorem run_puts {puts : List Plain} (hfits : ∀ put ∈ puts, put.Fits limit)
    (hordinary : ∀ put ∈ puts, (put.createOnly || put.immutabilityRequest.publishOnce) = false)
    (hdistinct : puts.Pairwise (·.content ≠ ·.content)) (now : DateTime) :
    ∃ w history, Runs (setting limit False) now ⟨w, .idle, history⟩ ∧
      history.map (·.call) = puts.map (.execute ·.operation) ∧
      history.map (·.outcome) = puts.map (.ok <| .result <| .put ·.stored.metadata) ∧
      (∀ objectId, objectId ∈ (catalogOf w.registry).anchored ↔ objectId ∈ puts.map (·.objectId)) ∧
      ∀ stored, stored ∈ (catalogOf w.registry).live ↔ stored ∈ puts.map (·.stored) := by
  induction puts using List.reverseRecOn with
  | nil =>
    refine ⟨_, [], .refl, rfl, rfl, fun objectId => ?_, fun stored => ?_⟩
    · rw [catalogOf_empty]
      simp
    · rw [catalogOf_empty]
      simp
  | append_singleton puts put ih =>
    obtain ⟨hfront, hlast, hapart⟩ := List.pairwise_append.mp hdistinct
    have hmem : put ∈ puts ++ [put] := List.mem_append_right _ List.mem_cons_self
    obtain ⟨w, history, hrun, hcalls, houtcomes, hanchored, hlive⟩ :=
      ih (fun other hother => hfits other (List.mem_append_left _ hother))
        (fun other hother => hordinary other (List.mem_append_left _ hother)) hfront
    obtain ⟨w', hrun', hcatalog⟩ := run_new (hfits put hmem) hrun
      (fun hcreate => by rw [hordinary put hmem] at hcreate; cases hcreate) (by
        intro other hother
        obtain ⟨earlier, hearlier, rfl⟩ := List.mem_map.mp ((hlive other).mp hother)
        exact digest_ne (hapart earlier hearlier put List.mem_cons_self))
    refine ⟨w', _, hrun', by simp [hcalls], by simp [houtcomes], fun objectId => ?_, fun stored => ?_⟩
    · rw [hcatalog, List.map_append, List.mem_append, ← hanchored]
      simp [Catalog.point, Catalog.publish, Catalog.anchor, or_comm]
    · rw [hcatalog, List.map_append, List.mem_append, ← hlive]
      simp [Catalog.point, Catalog.publish, Catalog.anchor, or_comm]

/-- A plain put delivers its content. -/
theorem delivers_plain (hcontent : put.content.length ≤ 1048576) (w : World (setting limit faults).policy) :
    sourceOf (setting limit faults) w (.execute put.operation) put.content := by
  have hdeliverable : Deliverable (setting limit faults) ⟨put.text, true, none, none⟩ put.content :=
    deliverable hcontent
  obtain ⟨stream, heq, hfailure, -, hflatten⟩ := hdeliverable.streams _ rfl
  exact ⟨_, payloadOf_input, stream, heq ▸ rfl, hfailure, hflatten⟩

/-- A plain put delivers its content only. -/
theorem source_plain {w : World (setting limit faults).policy} {content : Bytes}
    (hcontent : put.content.length ≤ 1048576)
    (h : sourceOf (setting limit faults) w (.execute put.operation) content) : content = put.content := by
  obtain ⟨payload, hpayload, hdelivers⟩ := h
  obtain rfl := Except.ok.inj (payloadOf_input.symm.trans hpayload)
  exact (deliverable hcontent).unique hdelivers

/-- A put of a new content may fail before any of its requests is carried out. -/
theorem run_down (hcontent : put.content.length ≤ 1048576) {now : DateTime} {w : World (setting limit True).policy}
    {history : List (Event Call Err Answer (World (setting limit True).policy))}
    (hrun : Runs (setting limit True) now ⟨w, .idle, history⟩)
    (hnew : ∀ other ∈ (catalogOf w.registry).live, other.metadata.digest ≠ sha256Digest platform put.content) :
    ∃ w' error, Runs (setting limit True) now
        ⟨w', .idle, history ++ [⟨.execute put.operation, .error error, w, w'⟩]⟩ ∧ w'.registry = w.registry := by
  obtain ⟨outcome, w', hperforms, hsame⟩ := (responsive limit True).performs_down trivial
    (Call.program platform (adapter limit) (.execute put.operation)) w
  have hrun' := Reachable.performs hrun hperforms
  cases outcome with
  | error error => exact ⟨w', error, hrun', hsame⟩
  | ok answer =>
    obtain ⟨last, hlog, hlast⟩ := Runs.log lawful hrun'
    obtain ⟨-, hdone, -⟩ := hlog.of_snoc
    obtain ⟨content, immutability, retention, metadata, hsource, hsucceeded, -⟩ := hdone.effected.succeeded rfl
    obtain rfl := source_plain hcontent hsource
    obtain ⟨stored, hstored, -, hdigest, hadvances⟩ := hsucceeded.advances lawful hdone.intact
    have hlive := hadvances.live.mpr (.inl rfl)
    rw [hsame] at hlive
    exact absurd (hstored ▸ hdigest) (hnew stored hlive)

/-- The sample clock stands still. -/
theorem now_still {w w' : World (setting limit faults).policy}
    (h : Relation.ReflTransGen (Ticks (setting limit faults)) w w') (hw : w.now = .aware 0) :
    w'.now = .aware 0 := by
  induction h with
  | refl => exact hw
  | tail _ hstep ih =>
    rcases hstep with hsame | htick
    · exact hsame.trans ih
    · exact htick

end Puts

/-! ## Deletes -/

/-- The exact reference of a plain put, as a caller writes it. -/
def Plain.reference (put : Plain) : Json :=
  .obj (referenceToDict ⟨⟨"object", "tenant", "bucket"⟩, put.objectId, some (sha256Digest platform put.content)⟩)

def Plain.deletion (put : Plain) : Operation where
  catalog := "object"
  operationContract := "meridian.object.delete"
  operationVersion := "1.0.0"
  resources := [⟨"object", "tenant", "bucket"⟩]
  requirements := []
  input := .delete put.reference

section Deletes

variable {limit : Nat} {put : Plain}

theorem accepted_delete : Accepted platform (adapter limit) put.deletion "delete" := by
  refine ⟨?_, rfl⟩
  simp [OciDistributionAdapter.validateOperation, Plain.deletion, operationVersion, availableOperationContracts,
    adapter, binding]

theorem reference_plain (requireDigest : Bool) : (adapter limit).reference platform put.reference requireDigest =
    .ok (exactReference (adapter limit) put.objectId (sha256Digest platform put.content)) := by
  simp [OciDistributionAdapter.reference, Plain.reference, platform, parseObjectReference, referenceFromMapping,
    referenceToDict, text?, optionalText, textOrNull, Json.get?_cons, bind, Except.bind, pure, Except.pure,
    OciDistributionAdapter.semanticResource, adapter, binding, exactReference]

/-- A live version whose retention allows it can be deleted. -/
theorem performs_deletion {w : World (setting limit False).policy} (hintact : Intact w.registry) {stored : StoredObject}
    (hlive : stored ∈ (catalogOf w.registry).live) (hid : stored.objectId = put.objectId)
    (hdigest : stored.metadata.digest = sha256Digest platform put.content)
    (hretention : requireDeletePermitted platform stored.retention 0 = .ok ()) :
    ∃ w', Performs (setting limit False).env (Call.program platform (adapter limit) (.execute put.deletion)) w
        (.ok (.result .delete)) w' ∧
      catalogOf w'.registry = (catalogOf w.registry).remove stored ∧ w'.now = .aware 0 := by
  obtain ⟨body, hpublished, htagged⟩ := hlive
  have htargets : Targets w (exactReference (adapter limit) put.objectId (sha256Digest platform put.content))
      stored := by
    refine ⟨body, hpublished, ?_, hid, ?_⟩
    · rw [StoredObject.exactName, hid, hdigest] at htagged
      exact htagged
    · intro digest heq
      rw [hdigest]
      exact Option.some.inj heq
  obtain ⟨w', hperforms, hremoved⟩ := performs_delete lawful hintact id (responsive limit False)
    accepted_delete rfl (reference_plain true) htargets fun next htick => ⟨0, htick, hretention⟩
  obtain ⟨-, hcatalog, instant, htick, hnow, -⟩ := hremoved
  exact ⟨w', hperforms, hcatalog, hnow.trans htick⟩

/-- A run goes on with the delete of a live version whose retention allows it. -/
theorem run_deletion {now : DateTime} {w : World (setting limit False).policy}
    {history : List (Event Call Err Answer (World (setting limit False).policy))}
    (hrun : Runs (setting limit False) now ⟨w, .idle, history⟩) {stored : StoredObject}
    (hlive : stored ∈ (catalogOf w.registry).live) (hid : stored.objectId = put.objectId)
    (hdigest : stored.metadata.digest = sha256Digest platform put.content)
    (hretention : requireDeletePermitted platform stored.retention 0 = .ok ()) :
    ∃ w', Runs (setting limit False) now ⟨w', .idle,
        history ++ [⟨.execute put.deletion, .ok (.result .delete), w, w'⟩]⟩ ∧
      catalogOf w'.registry = (catalogOf w.registry).remove stored ∧ w'.now = .aware 0 := by
  obtain ⟨w', hperforms, h⟩ := performs_deletion (hrun.intact lawful) hlive hid hdigest hretention
  exact ⟨w', Reachable.performs hrun hperforms, h⟩

end Deletes

end MeridianOci.Service.Sample
