import MeridianOci.Effect.Coincide
import MeridianOci.Service.Composed
import MeridianOci.Service.Assembly

/-!
# One put or many parts

A content that is put at once and a content that is sent in parts reach the same commit:
the registries differ at most in how many uploads were issued. From there the two runs
make the same requests of the repository, apart from the URLs of their uploads.
-/
namespace MeridianOci.Service

open MeridianOci.Data MeridianOci.Effect MeridianOci.Model

set_option autoImplicit false

variable {P : Platform}

/-- The same setting with a clock that shows one time. -/
def Setting.showing {binding : OciDistributionBinding} (setting : Setting P binding) (reading : DateTime) :
    Setting P binding := { setting with tick := fun _ now => now = reading }

/-! ## Registries that agree -/

section Agree

variable {binding : OciDistributionBinding} {policy : Policy P binding} {registry registry' : Registry policy}

theorem Registry.Agrees.symm (h : registry.Agrees registry') : registry'.Agrees registry :=
  ⟨h.blobs.symm, h.manifests.symm, h.tags.symm, h.uploads.symm⟩

/-- Reads are answered alike. -/
theorem reply_agrees {w w' : World policy} (h : w.registry.Agrees w'.registry) {request : Request}
    (hreads : Request.Reads request) : w'.reply request = w.reply request := by
  have hresolve : ∀ reference, w'.registry.resolve reference = w.registry.resolve reference := by
    intro reference
    simp only [Registry.resolve, Registry.select, h.manifests, h.tags]
  obtain ⟨digest, range, rfl | rfl | rfl | rfl | ⟨limit, last, rfl⟩⟩ := hreads
  · simp only [World.reply, respond, Request.getBlob, respondBlob, h.blobs]
  · simp only [World.reply, respond, Request.headBlob, respondBlob, h.blobs]
  · rw [w'.reply_headManifest, w.reply_headManifest, hresolve]
  · rw [w'.reply_getManifest, w.reply_getManifest, hresolve]
  · have hremaining : w'.registry.remainingTags last = w.registry.remainingTags last := by
      cases last <;> simp only [Registry.remainingTags, h.tags]
    show respondTags w'.registry limit last = respondTags w.registry limit last
    simp only [respondTags, hremaining]

end Agree

variable {adapter : OciDistributionAdapter} {setting : Setting P adapter.transport.binding}

section Commit

variable (laws : P.Lawful) (hfaults : ¬setting.faults)

/-- Whatever is returned in worlds whose registries agree is the same. They still agree, and have the
open uploads that they had. -/
abbrev Concurs (setting : Setting P adapter.transport.binding) (reading : DateTime) (uploads : Table Bytes) {α : Type}
    (program : Action α) : Prop :=
  program.Coincides (setting.showing reading).env (setting.showing reading).env
    fun w w' : World setting.policy => w.registry.Agrees w'.registry ∧ w.registry.uploads = uploads

variable {reading : DateTime} {uploads : Table Bytes}

include hfaults in
theorem concurs_reads {α : Type} {program : Action α} (h : program.Uses Op.Reads) :
    Concurs setting reading uploads program := by
  refine h.coincides fun op w v r w' r' v' hop hagrees hr hr' => ?_
  obtain ⟨request, rfl, hreads⟩ := hop
  obtain ⟨rfl, rfl⟩ | ⟨hfalse, -⟩ := hr
  · obtain ⟨rfl, rfl⟩ | ⟨hfalse, -⟩ := hr'
    · rw [apply_reads hreads, apply_reads hreads]
      refine ⟨?_, hagrees⟩
      exact congrArg (fun reply => Except.ok (deliver setting.policy request reply)) (reply_agrees hagrees.1 hreads)
    · exact absurd hfalse hfaults
  · exact absurd hfalse hfaults

include laws in
theorem concurs_now : Concurs setting reading uploads OciDistributionAdapter.now := by
  intro w v value w' other v' hagrees h h'
  obtain ⟨hw, hread, -⟩ := h.ensures (@now_ensures P adapter (setting.showing reading) laws w)
  obtain ⟨hv, hread', -⟩ := h'.ensures (@now_ensures P adapter (setting.showing reading) laws v)
  rw [hw, hv]
  refine ⟨?_, hagrees⟩
  have hsame : DateTime.aware other = .aware value := hread'.trans hread.symm
  exact DateTime.aware.inj hsame

include laws in
theorem concurs_putManifest (reference : String) (body : Bytes) :
    Concurs setting reading uploads (adapter.transport.putManifest P reference body) := by
  intro w v value w' other v' hagrees h h'
  have hput := h.ensures (@putManifest_ensures _ laws _ (setting.showing reading) (fun _ _ => True) w
    (fun _ => trivial) reference body fun _ => trivial)
  have hput' := h'.ensures (@putManifest_ensures _ laws _ (setting.showing reading) (fun _ _ => True) v
    (fun _ => trivial) reference body fun _ => trivial)
  obtain ⟨hmedia, hdigest, hsize, -, rfl⟩ := hput
  obtain ⟨hmedia', hdigest', hsize', -, rfl⟩ := hput'
  exact ⟨OciDescriptor.ext_fields (hmedia'.trans hmedia.symm) (hdigest'.trans hdigest.symm) (hsize'.trans hsize.symm),
    hagrees.1.putTag reference body, hagrees.2⟩

include laws in
theorem concurs_uploadBlobBytes (value : Bytes) {mediaType : String} (hmedia : mediaType.toList.contains '/' = true) :
    Concurs setting reading uploads (adapter.transport.uploadBlobBytes P value mediaType) := by
  intro w v first w' other v' hagrees h h'
  obtain ⟨hfirst, hdigest, hsize, hstores⟩ := h.ensures
    (@uploadBlobBytes_ensures _ laws _ (setting.showing reading) _ w quiet_true value _ hmedia)
  obtain ⟨hother, hdigest', hsize', hstores'⟩ := h'.ensures
    (@uploadBlobBytes_ensures _ laws _ (setting.showing reading) _ v quiet_true value _ hmedia)
  refine ⟨OciDescriptor.ext_fields (hother.trans hfirst.symm) (hdigest'.trans hdigest.symm) (hsize'.trans hsize.symm),
    ⟨?_, ?_, ?_, ?_⟩, hstores.uploads.trans hagrees.2⟩
  · rw [hstores'.blobs, hstores.blobs, hagrees.1.blobs]
  · rw [hstores'.manifests, hstores.manifests, hagrees.1.manifests]
  · rw [hstores'.tags, hstores.tags, hagrees.1.tags]
  · rw [hstores'.uploads, hstores.uploads, hagrees.1.uploads]

theorem concurs_lift {α : Type} (outcome : Except Err α) : Concurs setting reading uploads (Action.lift outcome) :=
  Prog.coincides_ofExcept outcome

include laws hfaults

theorem concurs_ensureAnchor (objectId : String) :
    Concurs setting reading uploads (adapter.ensureAnchor P objectId) := by
  refine (concurs_lift _).bind fun tag => ?_
  refine (concurs_reads hfaults (reads_manifestExists P adapter.transport tag)).bind fun found => ?_
  split
  · refine (concurs_reads hfaults (reads_getManifest P adapter.transport tag)).bind fun document => ?_
    split
    · exact Prog.coincides_raise _
    · exact concurs_lift _
  · refine (concurs_uploadBlobBytes laws _ (by decide)).bind fun _ => ?_
    exact concurs_putManifest laws _ _

omit hfaults in
theorem concurs_publishVersion (objectId : String) (identity : ContentIdentity) (anchor : OciDescriptor P)
    (stored : StoredObject) (exactTag : String) :
    Concurs setting reading uploads (adapter.publishVersion P objectId identity anchor stored exactTag) := by
  unfold OciDistributionAdapter.publishVersion
  dsimp only
  split
  · exact Prog.coincides_raise _
  · refine (concurs_uploadBlobBytes laws _ (by decide)).bind fun config => ?_
    refine (concurs_lift _).bind fun payload => ?_
    refine (concurs_putManifest laws _ _).bind fun _ => ?_
    refine (concurs_lift _).bind fun latest => ?_
    exact (concurs_putManifest laws _ _).bind fun _ => Prog.coincides_ret _

/-- Commits of one content coincide. -/
theorem concurs_commitObject (value : PutInput) (identity : ContentIdentity) (immutability : ImmutabilityRequest)
    (retention : Option RetentionRequest) (createOnly : Bool) :
    Concurs setting reading uploads (adapter.commitObject P value identity immutability retention createOnly) := by
  refine (concurs_reads hfaults (reads_requireCreateAvailable P adapter _ _ _)).bind fun _ => ?_
  refine (concurs_lift _).bind fun exactTag => ?_
  refine (concurs_reads hfaults (reads_manifestExists P adapter.transport exactTag)).bind fun found => ?_
  split
  · unfold OciDistributionAdapter.commitExisting
    split
    · exact Prog.coincides_raise _
    · refine (concurs_reads hfaults (reads_storedForReference P adapter _)).bind fun existing => ?_
      refine (concurs_lift _).bind fun latest => ?_
      exact (concurs_putManifest laws _ _).bind fun _ => Prog.coincides_ret _
  · refine (concurs_ensureAnchor laws hfaults value.objectId).bind fun anchor => ?_
    refine (concurs_lift _).bind fun provenance => ?_
    refine (concurs_now laws).bind fun createdAt => ?_
    refine (concurs_lift _).bind fun metadata => ?_
    exact concurs_publishVersion laws value.objectId identity anchor _ exactTag

end Commit

/-! ## Calls that return -/

section Returned

variable {w w' : World setting.policy} {α β : Type}

section Anywhere

variable {σ : Type} {env : Environment Op Op.Res Err σ} {s s' : σ}

theorem performs_pure {given : Except Err α} {value : α} (h : Performs env (Action.lift given) s (.ok value) s') :
    given = .ok value ∧ s' = s := by
  cases given with
  | error error => cases h
  | ok value =>
    cases h
    exact ⟨rfl, rfl⟩

theorem performs_lift {given : Except Err α} {next : α → Action β} {last : β}
    (h : Performs env (Action.lift given >>= next) s (.ok last) s') :
    ∃ value, given = .ok value ∧ Performs env (next value) s (.ok last) s' := by
  cases given with
  | error error => cases h
  | ok value => exact ⟨value, rfl, h⟩

theorem performs_failing {machine : PutState} {physicalCommit : Bool} {action : Action α} {value : α}
    (h : Performs env (failing P machine physicalCommit action) s (.ok value) s') :
    Performs env action s (.ok value) s' := by
  refine h.of_tryCatch fun error => ?_
  split
  · exact Prog.returns_bind fun _ => trivial
  · trivial

end Anywhere

theorem performs_read {program : Action α} {next : α → Action β} {last : β} (hreads : program.Uses Op.Reads)
    (h : Performs setting.env (program >>= next) w (.ok last) w') :
    ∃ value, Performs setting.env (next value) w (.ok last) w' := by
  obtain ⟨value, w₁, hfirst, hrest⟩ := h.of_bind
  obtain rfl := hfirst.ensures (reads_ensures hreads (G := fun _ _ => True) (fun _ => trivial) w)
  exact ⟨value, hrest⟩

theorem performs_locked {action : Action α} {value : α}
    (h : Performs setting.env (Action.locked action) w (.ok value) w') :
    Performs setting.env action w (.ok value) w' := by
  obtain ⟨_, w₁, hacquire, hrest⟩ := h.of_bind
  obtain ⟨w₂, hfirst, hrelease⟩ := hrest.of_finally
  have hbefore : w₁ = w := by
    cases hacquire with
    | call _ _ _ _ _ answer _ hanswer hlast =>
      cases answer <;> cases hlast
      exact hanswer.2
  have hafter : w' = w₂ := by
    cases hrelease with
    | call _ _ _ _ _ answer _ hanswer hlast =>
      cases answer <;> cases hlast
      exact hanswer.2
  rw [hbefore] at hfirst
  rw [hafter]
  exact hfirst

/-- A put that returns has stored what its payload delivered, and has committed it. -/
theorem performs_putting (laws : P.Lawful) (hfaults : ¬setting.faults) {value : PutInput} {result : Result}
    (h : Performs setting.env (adapter.put P value) w (.ok result) w') :
    ∃ content immutability retention w₁ metadata, payloadSource setting value content ∧
      immutabilityOf P value = .ok immutability ∧ retentionOf P value = .ok retention ∧ World.Stores content w w₁ ∧
      Performs setting.env (adapter.commitObject P value (identityOf P content) immutability retention
        (value.createOnly || immutability.publishOnce)) w₁ (.ok metadata) w' ∧ result = .put metadata := by
  obtain ⟨payload, hpayload, h⟩ := performs_lift h
  obtain ⟨immutability, himmutability, h⟩ := performs_lift h
  obtain ⟨retention, hretention, h⟩ := performs_lift h
  replace h := performs_locked h
  obtain ⟨_, h⟩ := performs_read (reads_requireCreateAvailable P adapter _ _ _) h
  obtain ⟨machine, -, h⟩ := performs_lift h
  obtain ⟨identity, w₁, hupload, h⟩ := h.of_bind
  obtain ⟨content, hdelivers, rfl, -, -, hstores⟩ :=
    (performs_failing hupload).ensures (uploadPayload_ensures laws quiet_true w payload)
  obtain ⟨machine', w₂, hverifying, hrest⟩ := h.of_bind
  obtain ⟨metadata, w₃, hcommit, hlast⟩ := hrest.of_bind
  obtain ⟨_, w₄, hcommitted, hreturn⟩ := hlast.of_bind
  cases hreturn
  obtain ⟨-, hsame⟩ := performs_pure (performs_failing hverifying)
  obtain ⟨-, hsame'⟩ := performs_pure (performs_failing hcommitted)
  rw [hsame] at hcommit
  rw [hsame']
  exact ⟨content, immutability, retention, w₁, metadata, ⟨payload, hpayload, hdelivers⟩, himmutability, hretention,
    hstores hfaults, performs_failing hcommit, rfl⟩

/-! ## Sessions -/

/-- A live session has hashed and uploaded a content, and the repository has not changed since its begin. -/
structure Gathered (registry : Registry setting.policy) (session : MultipartSession) (value : PutInput) (url : String)
    (content : Bytes) (w : World setting.policy) : Prop where
  live : ∃ reference state, Live w.memory session.sessionId reference state ∧ state.input = value ∧
    state.upload.url = url ∧ state.upload.offset = content.length ∧ state.hashed = content ∧
    state.length = content.length
  blobs : w.registry.blobs = registry.blobs
  manifests : w.registry.manifests = registry.manifests
  tags : w.registry.tags = registry.tags
  uploads : w.registry.uploads = registry.uploads.insert url content

section Session

variable (laws : P.Lawful) {registry : Registry setting.policy} {session : MultipartSession} {value : PutInput}
variable {url : String} {content : Bytes}

include laws

theorem gathered_begin {operation : Operation}
    (h : Performs setting.env (adapter.beginMultipart P operation) w (.ok session) w') :
    ∃ value url, operation.input = .put value ∧ w.registry.uploads[url]? = none ∧
      Gathered w.registry session value url [] w' := by
  obtain ⟨-, value, immutability, upload, hinput, -, -, -, hmemory, hurl, hoffset, hregistry⟩ :=
    h.ensures (beginMultipart_ensures laws w operation)
  refine ⟨value, upload.url, hinput, hurl ▸ w.registry.uploads_fresh, ⟨w.memory.heap.length,
    .start value upload .uploading, ?_, rfl, rfl, hoffset, rfl, rfl⟩, ?_, ?_, ?_, ?_⟩
  · rw [hmemory]
    exact live_insert _ _ _
  · rw [hregistry]
    rfl
  · rw [hregistry]
    rfl
  · rw [hregistry]
    rfl
  · rw [hregistry, hurl]
    rfl

theorem Gathered.part {partNumber : Nat} {payload : PayloadReference} {part : MultipartPart} {more : Bytes}
    (h : Gathered registry session value url content w) (hdelivers : PartDelivers setting session payload more)
    (hpart : Performs setting.env (adapter.uploadPart P session partNumber payload) w (.ok part) w') :
    Gathered registry session value url (content ++ more) w' := by
  obtain ⟨reference, state, hlive, hinput, hurl, hoffset, hhashed, hlength⟩ := h.live
  obtain ⟨reference', state', bytes, w₁, state₁, hlive', -, -, hcontent, -, -, hidentity, -, -, happended, hw'⟩ :=
    hpart.ensures (uploadPart_ensures laws w session partNumber payload)
  obtain rfl := hdelivers bytes hcontent
  obtain rfl := Option.some.inj (hlive.entry.symm.trans hlive'.entry)
  obtain rfl := Option.some.inj (hlive.object.symm.trans hlive'.object)
  have hreceived : w.registry.uploads[state.upload.url]? = some content := by
    rw [h.uploads, hurl, Table.get?_insert, if_pos rfl]
  have huploads := happended.uploads content hreceived hoffset.symm
  have hregistry : w'.registry = w₁.registry := by rw [hw']
  refine ⟨⟨reference, state₁.acknowledge part, ?_, ?_, ?_, ?_, ?_, ?_⟩, ?_, ?_, ?_, ?_⟩
  · rw [hw']
    exact hlive.replaced _
  · rw [MultipartState.acknowledge, happended.result]
    exact hinput
  · exact happended.url.trans hurl
  · show state₁.upload.offset = _
    rw [happended.offset, hoffset, List.length_append]
  · rw [MultipartState.acknowledge, happended.result]
    show state.hashed ++ bytes = _
    rw [hhashed]
  · rw [MultipartState.acknowledge, happended.result, hidentity]
    show state.length + bytes.length = _
    rw [hlength, List.length_append]
  · rw [hregistry, happended.blobs, h.blobs]
  · rw [hregistry, happended.manifests, h.manifests]
  · rw [hregistry, happended.tags, h.tags]
  · rw [hregistry, huploads, h.uploads, hurl, Table.insert_insert]

theorem Gathered.sent {contents : List Bytes} (hsent : Sent setting session w contents w')
    (h : Gathered registry session value url content w) :
    Gathered registry session value url (content ++ contents.flatten) w' := by
  induction hsent generalizing content with
  | done w =>
    rw [List.flatten_nil, List.append_nil]
    exact h
  | part w w₁ w' partNumber payload part more rest hdelivers hpart _ ih =>
    have hnext := ih (h.part laws hdelivers hpart)
    rw [List.append_assoc] at hnext
    rw [List.flatten_cons]
    exact hnext

omit laws in
theorem performs_readState {α : Type} {reference : Nat} {state : MultipartState} {next : MultipartState → Action α}
    {last : α} (hobject : w.memory.heap[reference]? = some state)
    (h : Performs setting.env (OciDistributionAdapter.readState reference >>= next) w (.ok last) w') :
    Performs setting.env (next state) w (.ok last) w' := by
  obtain ⟨found, w₁, hread, hrest⟩ := h.of_bind
  obtain ⟨heq, rfl⟩ := hread.ensures (readState_ensures quiet_true w hobject)
  rw [← Except.ok.inj heq]
  exact hrest

omit laws in
theorem performs_transitionState {reference : Nat} {target : PutState} {value : Unit}
    (h : Performs setting.env (OciDistributionAdapter.transitionState P reference target) w (.ok value) w') :
    w'.registry = w.registry := by
  obtain ⟨state, w₁, hupdate, hrest⟩ := h.of_bind
  obtain ⟨_, w₂, hlift, hreturn⟩ := hrest.of_bind
  cases hreturn
  obtain ⟨-, rfl⟩ := performs_pure hlift
  obtain ⟨memory, w₃, hmemory, hfound⟩ := hupdate.of_bind
  obtain ⟨-, rfl⟩ := hmemory.ensures (memory_ensures quiet_true w _)
  split at hfound
  · cases hfound
    rfl
  · cases hfound

/-- Inside the lock the upload becomes a blob, which is then committed. -/
theorem performs_commitMultipart {reference : Nat} {state : MultipartState} {identity : ContentIdentity}
    {immutability : ImmutabilityRequest} {retention : Option RetentionRequest} {metadata : ObjectMetadata}
    (hobject : w.memory.heap[reference]? = some state)
    (h : Performs setting.env (adapter.commitMultipart P reference value identity immutability retention) w
      (.ok metadata) w') : ∃ received w₁ w₂, w.registry.uploads[state.upload.url]? = some received ∧
        identity.digest = sha256Digest P received ∧
        w₁.registry = (w.registry.addBlob received).dropUpload state.upload.url ∧
        Performs setting.env (adapter.commitObject P value identity immutability retention
          (value.createOnly || immutability.publishOnce)) w₁ (.ok metadata) w₂ ∧ w'.registry = w₂.registry := by
  unfold OciDistributionAdapter.commitMultipart at h
  obtain ⟨_, hfirst⟩ := performs_read (reads_requireCreateAvailable P adapter _ _ _) h
  replace hfirst := performs_readState hobject hfirst
  obtain ⟨descriptor, w₁, hfinish, hrest⟩ := hfirst.of_bind
  obtain ⟨received, hreceived, hdigest, hw₁⟩ := hfinish.ensures (finishUpload_ensures laws quiet_true w state.upload _)
  obtain ⟨_, w₂, hverifying, hcommit⟩ := hrest.of_bind
  obtain ⟨committed, w₃, hcommitted, hlast⟩ := hcommit.of_bind
  obtain ⟨_, w₄, hfinal, hreturn⟩ := hlast.of_bind
  cases hreturn
  refine ⟨received, w₂, w₃, hreceived, hdigest, ?_, hcommitted, performs_transitionState hfinal⟩
  rw [performs_transitionState hverifying, hw₁]

/-- A completion that returns has stored what its session gathered, and has committed it. -/
theorem performs_complete {supplied : List MultipartPart} {metadata : ObjectMetadata}
    (hfresh : registry.uploads[url]? = none) (hgathered : Gathered registry session value url content w)
    (h : Performs setting.env (adapter.completeMultipart P session supplied) w (.ok metadata) w') :
    ∃ immutability retention w₁ w₂, immutabilityOf P value = .ok immutability ∧ retentionOf P value = .ok retention ∧
      (registry.addBlob content).Agrees w₁.registry ∧
      Performs setting.env (adapter.commitObject P value (identityOf P content) immutability retention
        (value.createOnly || immutability.publishOnce)) w₁ (.ok metadata) w₂ ∧ w'.registry = w₂.registry := by
  obtain ⟨reference, state, hlive, hinput, hurl, -, hhashed, hlength⟩ := hgathered.live
  unfold OciDistributionAdapter.completeMultipart at h
  obtain ⟨found, w₀, hstate, hrest⟩ := h.of_bind
  obtain ⟨rfl, other, hother, -⟩ := hstate.ensures (stateOf_ensures quiet_true w session)
  obtain rfl := Option.some.inj (hlive.entry.symm.trans hother.entry)
  replace hrest := performs_readState hlive.object hrest
  split at hrest
  · cases hrest
  split at hrest
  · cases hrest
  obtain ⟨_, -, hrest⟩ := performs_lift hrest
  dsimp only at hrest
  split at hrest
  · obtain ⟨_, w₁, -, hraise⟩ := hrest.of_bind
    cases hraise
  split at hrest
  · obtain ⟨_, w₁, -, hraise⟩ := hrest.of_bind
    cases hraise
  obtain ⟨immutability, himmutability, hrest⟩ := performs_lift hrest
  obtain ⟨retention, hretention, hrest⟩ := performs_lift hrest
  obtain ⟨w₁, htry, hpop⟩ := hrest.of_finally
  have hlocked := performs_locked (htry.of_tryCatch (abandonMultipart_returns reference))
  obtain ⟨received, w₂, w₃, hreceived, hdigest, hw₂, hcommit, hw₁⟩ := performs_commitMultipart laws hlive.object hlocked
  have hsame : received = content := by
    have hheld : w₀.registry.uploads[state.upload.url]? = some content := by
      rw [hgathered.uploads, hurl, Table.get?_insert, if_pos rfl]
    exact Option.some.inj (hreceived.symm.trans hheld)
  obtain ⟨memory, w₄, hmemory, hreturn⟩ := hpop.of_bind
  cases hreturn
  obtain ⟨-, hw'⟩ := hmemory.ensures (memory_ensures quiet_true w₁ _)
  rw [hinput] at himmutability hretention hcommit
  rw [hhashed, hlength] at hcommit
  refine ⟨immutability, retention, w₂, w₃, himmutability, hretention, ?_, hcommit, ?_⟩
  · rw [hw₂, hsame]
    refine ⟨?_, hgathered.manifests, hgathered.tags, ?_⟩
    · show w₀.registry.blobs.insert _ _ = registry.blobs.insert _ _
      rw [hgathered.blobs]
    · show w₀.registry.uploads.erase state.upload.url = registry.uploads
      rw [hgathered.uploads, hurl]
      exact Table.erase_insert hfresh
  · rw [hw', ← hw₁]

end Session

/-! ## Both ways -/

/-- A put and a multipart upload of one content, with one reading of the clock, return the same metadata
and leave the same repository, and no upload is open that was not before. -/
theorem multipart_agrees (laws : P.Lawful) (hfaults : ¬setting.faults) {operation : Operation} {reading : DateTime}
    {session : MultipartSession} {contents : List Bytes} {supplied : List MultipartPart} {result : Result}
    {metadata : ObjectMetadata} {w w₁ w₂ wm wp : World setting.policy}
    (hdelivers : ∀ value payload bytes, operation.input = .put value → payloadOf P value = .ok payload →
      Delivers setting payload bytes → bytes = contents.flatten)
    (hput : Performs (setting.showing reading).env (adapter.execute P operation) w (.ok result) wp)
    (hbegin : Performs setting.env (adapter.beginMultipart P operation) w (.ok session) w₁)
    (hsent : Sent setting session w₁ contents w₂)
    (hcomplete : Performs (setting.showing reading).env (adapter.completeMultipart P session supplied) w₂
      (.ok metadata) wm) :
    result = .put metadata ∧ wm.registry.blobs = wp.registry.blobs ∧ wm.registry.manifests = wp.registry.manifests ∧
      wm.registry.tags = wp.registry.tags ∧ wm.registry.uploads = w.registry.uploads ∧
      wp.registry.uploads = w.registry.uploads := by
  obtain ⟨value, url, hinput, hfresh, hgathered⟩ := gathered_begin laws hbegin
  replace hgathered := Gathered.sent laws hsent hgathered
  rw [List.nil_append] at hgathered
  have hshown : @Gathered _ _ (setting.showing reading) w.registry session value url contents.flatten w₂ :=
    ⟨hgathered.live, hgathered.blobs, hgathered.manifests, hgathered.tags, hgathered.uploads⟩
  obtain ⟨immutability, retention, w₃, w₄, himmutability, hretention, hagrees, hcommit, hwm⟩ := @performs_complete _ _
    (setting.showing reading) _ _ laws _ _ _ _ _ _ _ hfresh hshown hcomplete
  obtain ⟨method, -, hrest⟩ := performs_lift hput
  obtain ⟨_, -, hrest⟩ := performs_lift hrest
  rw [hinput] at hrest
  dsimp only at hrest
  split at hrest
  swap
  · cases hrest
  obtain ⟨content, immutability', retention', w₅, metadata', ⟨payload, hpayload, hsource⟩, himmutability', hretention',
    hstores, hcommit', rfl⟩ := @performs_putting _ _ (setting.showing reading) _ _ laws hfaults _ _ hrest
  obtain rfl := hdelivers value payload content hinput hpayload hsource
  obtain rfl := Except.ok.inj (himmutability.symm.trans himmutability')
  obtain rfl := Except.ok.inj (hretention.symm.trans hretention')
  have hstart : w₃.registry.Agrees w₅.registry := hagrees.symm.trans
    ⟨hstores.blobs, hstores.manifests, hstores.tags, hstores.uploads⟩
  obtain ⟨rfl, hend, huploads⟩ := concurs_commitObject laws hfaults value (identityOf P contents.flatten) immutability
    retention (value.createOnly || immutability.publishOnce) w₃ w₅ metadata w₄ metadata' wp
    ⟨hstart, hagrees.uploads⟩ hcommit hcommit'
  rw [hwm]
  exact ⟨rfl, hend.blobs.symm, hend.manifests.symm, hend.tags.symm, huploads, hend.uploads.trans huploads⟩

end Returned

namespace Sample

open MeridianOci.Model.Sample

/-- A run of one character, and another character behind it. -/
def lengthy (size : Nat) : Plain where
  objectId := "a"
  text := String.ofList (List.replicate size 'x' ++ ['y'])

def front (size : Nat) : Bytes := utf8 (List.replicate size 'x')

theorem length_front (size : Nat) : (front size).length = size := by
  have hone : 'x'.utf8Size = 1 := by decide
  simp [front, utf8, List.length_flatMap, hone]

theorem content_lengthy (size : Nat) : (lengthy size).content = front size ++ utf8 ['y'] := by
  rw [Plain.content, lengthy, String.toList_ofList, utf8, List.flatMap_append]
  rfl

/-- The first of the two parts is as long as a part has to be, and they add up. -/
theorem lengthy_parts {size : Nat} (hminimum : minPartBytes = size) {parts : List MultipartPart} {content : Bytes}
    (hwhole : [front size, utf8 ['y']].flatten = content)
    (hidentities : parts.map (·.identity) = [identityOf platform (front size), identityOf platform (utf8 ['y'])]) :
    parts.dropLast.any (fun part => part.identity.byteLength < minPartBytes) = false ∧
      platform.multipartCompletion parts (identityOf platform content) = .ok () := by
  obtain ⟨first, rest, rfl, hfirst, hrest⟩ := List.map_eq_cons_iff.mp hidentities
  obtain ⟨last, none, rfl, hlast, hnone⟩ := List.map_eq_cons_iff.mp hrest
  obtain rfl := List.map_eq_nil_iff.mp hnone
  have hfront : first.identity.byteLength = (front size).length := congrArg (·.byteLength) hfirst
  have hend : last.identity.byteLength = (utf8 ['y']).length := congrArg (·.byteLength) hlast
  constructor
  · have hlong : ¬first.identity.byteLength < minPartBytes := by
      rw [hfront, hminimum]
      exact (length_front size).ge.not_gt
    simp [hlong]
  · have hsum : first.identity.byteLength + last.identity.byteLength = content.length := by
      rw [← hwhole, hfront, hend]
      simp
    show multipartCompletion _ _ = _
    simp [multipartCompletion, hsum, identityOf]

/-- A text is put, and is sent in two parts, in an empty repository. -/
theorem multipart_agrees_parts : ∃ limit session parts metadata,
    ∃ w₁ w₂ wm wp : World (Sample.setting limit False).policy,
      Performs (Sample.setting limit False).env
        ((Sample.adapter limit).execute platform (lengthy minPartBytes).operation) (World.empty _ (.aware 0))
        (.ok (.put metadata)) wp ∧
      Performs (Sample.setting limit False).env
        ((Sample.adapter limit).beginMultipart platform (lengthy minPartBytes).operation) (World.empty _ (.aware 0))
        (.ok session) w₁ ∧
      Sent (Sample.setting limit False) session w₁ [front minPartBytes, utf8 ['y']] w₂ ∧
      Performs (Sample.setting limit False).env ((Sample.adapter limit).completeMultipart platform session parts) w₂
        (.ok metadata) wm ∧
      wm.registry.blobs = wp.registry.blobs ∧ wm.registry.manifests = wp.registry.manifests ∧
      wm.registry.tags = wp.registry.tags := by
  generalize hminimum : minPartBytes = size
  have hsize : (front size).length = 65536 := (length_front size).trans hminimum.symm
  have hlast : (utf8 ['y']).length = 1 := by decide
  have hwhole : (lengthy size).content = [front size, utf8 ['y']].flatten := by
    rw [content_lengthy]
    simp
  have hlength : (lengthy size).content.length = 65537 := by
    rw [content_lengthy, List.length_append, hsize, hlast]
  obtain ⟨limit, hfits⟩ := (lengthy size).exists_fits (by rw [hlength]; omega)
  generalize lengthy size = put at *
  let w : World (Sample.setting limit False).policy := World.empty _ (.aware 0)
  have hfree : ∀ tag, w.registry.tagged tag = none := @empty_tagged limit False (.aware 0)
  have havailable : Available w.registry put.objectId put.immutabilityRequest
      (put.createOnly || put.immutabilityRequest.publishOnce) := fun _ => hfree _
  -- the put
  obtain ⟨outcome, wp, hput⟩ := (responsive limit False).performs
    ((Sample.adapter limit).execute platform put.operation) w
  have hdone := hput
  rw [execute_put accepted_put rfl] at hdone
  obtain ⟨-, metadata', rfl, -⟩ := hdone.ensures (put_valid_ensures lawful intact_empty id
    (validPut hfits havailable (unblocked_of_untagged hfree)))
  -- the session and its two parts
  obtain ⟨session, w₁, hbegin⟩ := @beginMultipart_performs _ (Sample.adapter limit)
    (Sample.setting limit False) w lawful id (responsive limit False) put.operation put.input
    put.immutabilityRequest accepted_put rfl immutabilityOf_input havailable 0 rfl "0" (by decide) rfl
  obtain ⟨⟨hgrows, -⟩, value, immutability, upload, hinput, -, hbelongs, hpart, hmemory, hurl, hoffset, hregistry⟩ :=
    hbegin.ensures (beginMultipart_ensures lawful w put.operation)
  obtain rfl := OperationInput.put.inj hinput
  have hpart' : session.partSize = 65536 := hpart
  have hlive : Live w₁.memory session.sessionId w.memory.heap.length (.start put.input upload .uploading) := by
    rw [hmemory]
    exact live_insert _ _ _
  have hopen : w₁.registry.uploads[upload.url]? = some [] := by
    rw [hregistry, hurl]
    exact (Table.get?_insert _ _ _ _).trans (if_pos rfl)
  obtain ⟨state, w₂, hconveyed⟩ := @exists_sent _ (Sample.adapter limit) (Sample.setting limit False) w₁ lawful id
    (responsive limit False) session _ [(textual (List.replicate size 'x'), front size),
      (textual ['y'], utf8 ['y'])] _ _ hlive hbelongs (by
      intro part hmem
      rcases List.mem_cons.mp hmem with rfl | hmem
      · refine chunked_textual (fun hnil => ?_) (by rw [hpart']; exact hsize.le)
        rw [front, hnil] at hsize
        cases hsize
      · obtain rfl := List.mem_singleton.mp hmem
        exact chunked_textual (by decide) (by rw [hpart', hlast]; omega)) (show 1 + 2 ≤ 100 + 1 by omega) (by
      show 0 + [front size, utf8 ['y']].flatten.length ≤ 1048576
      rw [← hwhole, hlength]
      omega) hopen hoffset.symm
  obtain ⟨hsent, hlive₂, hstate, hmachine, hhashed, hcounted, hidentities, hgrows₂, hreceived⟩ := hconveyed
  rw [List.map_cons, List.map_cons, List.map_nil, ← hwhole] at hhashed hcounted hreceived
  rw [List.nil_append] at hreceived
  have hcontent : state.hashed = put.content := hhashed.trans (List.nil_append _)
  have hcounted' : state.length = put.content.length := hcounted.trans (Nat.zero_add _)
  have hgrows' := hgrows.trans hgrows₂
  have havailable₂ : Available w₂.registry put.objectId put.immutabilityRequest
      (put.createOnly || put.immutabilityRequest.publishOnce) := (available_grows hgrows').mpr havailable
  have hunblocked₂ : ¬Blocked w₂.registry put.objectId (sha256Digest platform put.content)
      (put.createOnly || put.immutabilityRequest.publishOnce) := fun hblocked =>
    unblocked_of_untagged hfree ((blocked_grows hgrows').mp hblocked)
  obtain ⟨hfilled, hcompletion⟩ := @lengthy_parts size hminimum state.parts put.content hwhole.symm hidentities
  rw [← hcontent] at hcompletion
  -- the completion
  obtain ⟨metadata, wm, hcomplete⟩ := @completeMultipart_performs _ (Sample.adapter limit)
    (Sample.setting limit False) w₂ lawful id (responsive limit False) session _ state put.immutabilityRequest put.retention
    hlive₂ (by rw [hstate]; exact hbelongs) ⟨by rw [hcounted', hcontent], hmachine⟩ hfilled hcompletion
    (by rw [hstate]; exact ⟨fun _ h => (by cases h), fun _ h => (by cases h)⟩)
    (by rw [hstate]; exact immutabilityOf_input) (by rw [hstate]; exact retentionOf_input)
    (by rw [hstate]; exact havailable₂) (by rw [hcontent]; exact hreceived) (by
      rw [hstate, hcontent]
      intro w₃ hfinished
      exact performs_commit_finished hfits ((Move.quiet _ _ hgrows').intact lawful intact_empty) havailable₂
        hunblocked₂ hfinished)
  have hsingle : ∀ value payload bytes, put.operation.input = .put value →
      payloadOf platform value = .ok payload → Delivers (Sample.setting limit False) payload bytes →
      bytes = [front size, utf8 ['y']].flatten := by
    intro value payload bytes hinput hpayload hdelivers
    obtain rfl := OperationInput.put.inj hinput
    obtain rfl := Except.ok.inj (hpayload.symm.trans payloadOf_input)
    rw [← hwhole]
    exact (deliverable hfits.content).unique hdelivers
  have hagrees := @multipart_agrees _ (Sample.adapter limit) (Sample.setting limit False) lawful id put.operation
    (.aware 0) session [front size, utf8 ['y']] _ _ metadata w w₁ w₂ wm wp hsingle hput hbegin hsent hcomplete
  obtain ⟨hsame, hblobs, hmanifests, htags, -⟩ := hagrees
  rw [hsame] at hput
  exact ⟨limit, session, state.parts, metadata, w₁, w₂, wm, wp, hput, hbegin, hsent, hcomplete, hblobs, hmanifests, htags⟩

end Sample

end MeridianOci.Service
