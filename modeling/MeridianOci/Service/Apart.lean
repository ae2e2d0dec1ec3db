import MeridianOci.Service.Composed

/-!
# Uploads of others

A call writes to the upload of its own session and to uploads that it opened itself. Any
other upload is left as it is, whatever fails on the way.
-/
namespace MeridianOci.Service

open MeridianOci.Data MeridianOci.Effect MeridianOci.Model

set_option autoImplicit false

variable {P : Platform} {adapter : OciDistributionAdapter}
variable {setting : Setting P adapter.transport.binding}

/-! ## One upload among the others -/

/-- An operation that sends nothing to one upload and leaves the memory alone. -/
def Op.Spares (url : String) (op : Op) : Prop :=
  (∀ request, op = .send request → ∀ digest, request.target ≠ .upload url digest) ∧ ∀ update, op ≠ .memory update

theorem Op.Aside.spares {op : Op} (h : Op.Aside op) (url : String) : Op.Spares url op := by
  refine ⟨fun request heq digest htarget => ?_, h.2⟩
  have hupload := h.1 request heq
  rw [htarget] at hupload
  cases hupload

theorem uploads_respondUpload {binding : OciDistributionBinding} {policy : Policy P binding}
    (registry : Registry policy) (request : Request) {url other : String} (hne : other ≠ url) (digest : Option String) :
    (respondUpload registry request other digest).2.uploads[url]? = registry.uploads[url]? := by
  have hset : ∀ content, (registry.setUpload other content).uploads[url]? = registry.uploads[url]? := by
    intro content
    unfold Registry.setUpload
    split
    · exact (Table.get?_insert ..).trans (if_neg hne)
    · rfl
  have hdrop : ∀ registry : Registry policy, (registry.dropUpload other).uploads[url]? = registry.uploads[url]? :=
    fun registry => (Table.get?_erase ..).trans (if_neg hne)
  unfold respondUpload
  cases registry.uploads[other]? with
  | none => rfl
  | some received =>
    dsimp only
    cases request.method with
    | patch =>
      dsimp only
      split
      · exact hset _
      · rfl
    | put =>
      dsimp only
      split
      · exact hdrop _
      · exact hset _
    | delete => exact hdrop registry
    | _ => rfl

/-- A request with another target leaves an upload that exists as it is. -/
theorem uploads_apply (w : World setting.policy) {request : Request} {url : String}
    (htarget : ∀ digest, request.target ≠ .upload url digest) (hheld : ∃ content, w.registry.uploads[url]? = some content) :
    (w.apply request).registry.uploads[url]? = w.registry.uploads[url]? := by
  obtain ⟨content, hcontent⟩ := hheld
  show (respond w.registry request).2.uploads[url]? = _
  unfold respond
  cases hrequest : request.target with
  | uploads =>
    dsimp only
    split
    · refine (Table.get?_insert ..).trans (if_neg ?_)
      rintro rfl
      rw [w.registry.uploads_fresh] at hcontent
      cases hcontent
    · rfl
  | upload other digest =>
    refine uploads_respondUpload w.registry request ?_ digest
    rintro rfl
    exact htarget digest hrequest
  | manifest reference =>
    dsimp only
    unfold respondManifest
    repeat' split
    all_goals rfl
  | blob digest => rfl
  | base =>
    dsimp only
    split <;> rfl
  | tags limit last =>
    dsimp only
    split <;> rfl
  | referrers subjectDigest artifactType =>
    dsimp only
    split <;> rfl

theorem env_spares {url : String} {op : Op} (hop : Op.Spares url op) {w w' : World setting.policy}
    {answer : Except Err op.Res} (h : setting.env op w answer w') (hheld : ∃ content, w.registry.uploads[url]? = some content) :
    w'.memory = w.memory ∧ w'.registry.uploads[url]? = w.registry.uploads[url]? := by
  cases op with
  | send request =>
    have happly := uploads_apply w (hop.1 request rfl) hheld
    rcases h with ⟨-, rfl⟩ | ⟨-, -, rfl | rfl⟩
    · exact ⟨rfl, happly⟩
    · exact ⟨rfl, rfl⟩
    · exact ⟨rfl, happly⟩
  | register source length digest =>
    obtain ⟨id, -, rfl⟩ := h
    exact ⟨rfl, rfl⟩
  | clock => rcases h with ⟨now, -, -, rfl⟩ | ⟨-, -, rfl⟩ <;> exact ⟨rfl, rfl⟩
  | memory update => exact absurd rfl (hop.2 update)
  | openPayload payload chunkSize => exact h.2 ▸ ⟨rfl, rfl⟩
  | authorize => exact h.2 ▸ ⟨rfl, rfl⟩
  | token => exact h.2 ▸ ⟨rfl, rfl⟩
  | acquire => exact h.2 ▸ ⟨rfl, rfl⟩
  | release => exact h.2 ▸ ⟨rfl, rfl⟩

/-! ## Programs beside an upload -/

/-- A predicate that the memory and one existing upload decide. -/
structure Confined (setting : Setting P adapter.transport.binding) (url : String) (J : World setting.policy → Prop) :
    Prop where
  held : ∀ w, J w → ∃ content, w.registry.uploads[url]? = some content
  step : ∀ w w', J w → w'.memory = w.memory → w'.registry.uploads[url]? = w.registry.uploads[url]? → J w'

/-- A program that keeps a predicate, whatever it is answered. -/
def Preserves (setting : Setting P adapter.transport.binding) (J : World setting.policy → Prop) {α : Type}
    (program : Action α) : Prop :=
  ∀ w, J w → program.Ensures setting.env (fun _ _ => True) w fun _ w' => J w'

section Preserves

variable {J : World setting.policy → Prop}

theorem Preserves.and {α : Type} {program : Action α} (h : Preserves setting J program) {w : World setting.policy}
    (hw : J w) {G : World setting.policy → World setting.policy → Prop} {Q : Except Err α → World setting.policy → Prop}
    (hprogram : program.Ensures setting.env G w Q) :
    program.Ensures setting.env (fun _ _ => True) w fun outcome w' => J w' ∧ Q outcome w' :=
  ((h w hw).and hprogram).weaken (fun _ _ _ _ h => h) (fun _ _ _ => trivial) fun _ _ hq => hq

variable {url : String} (hJ : Confined setting url J)

include hJ

theorem Confined.uses {α : Type} {program : Action α} (h : program.Uses (Op.Spares url)) : Preserves setting J program := by
  intro w hw
  induction program generalizing w with
  | ret value => exact hw
  | raise error => exact hw
  | call op next ih =>
    intro answer w' hanswer
    obtain ⟨hmemory, huploads⟩ := env_spares h.1 hanswer (hJ.held w hw)
    exact ⟨trivial, ih answer (h.2 answer) w' (hJ.step w w' hw hmemory huploads)⟩

theorem Confined.compositional : Compositional fun _ program => Preserves setting J program where
  aside h := hJ.uses (h.mono fun _ hop => hop.spares url)
  handle h hnext w hw := (h w hw).handle fun outcome w' hw' => hnext outcome w' hw'

end Preserves

/-! ## Uploads of a call -/

section Client

variable {url : String}

/-- A request to another upload. -/
theorem spares_request {request : Request} (h : ∀ digest, request.target ≠ .upload url digest)
    (client : RegistryHttpClient) (expected : List Nat) (retry : Bool) (maximumBytes : Nat) :
    (client.request P request expected retry maximumBytes).Uses (Op.Spares url) := by
  refine (uses_request client request expected retry maximumBytes).mono ?_
  rintro _ rfl
  refine ⟨?_, by rintro update ⟨⟩⟩
  rintro _ ⟨⟩
  exact h

theorem upload_ne {other : String} (hne : other ≠ url) (digest digest' : Option String) :
    Target.upload other digest ≠ .upload url digest' := by
  rintro ⟨⟩
  exact hne rfl

variable (client : RegistryHttpClient) {upload : UploadLocation} (hne : upload.url ≠ url)

include hne

theorem spares_patchUpload (chunk : Bytes) : (client.patchUpload P upload chunk).Uses (Op.Spares url) := by
  unfold RegistryHttpClient.patchUpload
  split
  · trivial
  · refine (spares_request (upload_ne hne none) client _ _ _).bind fun response => ?_
    split
    · trivial
    · exact (uses_lift _).bind fun location => trivial

theorem spares_finishUpload (digest : String) : (client.finishUpload P upload digest).Uses (Op.Spares url) := by
  refine (spares_request (upload_ne hne (some digest)) client _ _ _).bind fun response => ?_
  split
  · trivial
  · exact uses_lift _

theorem spares_abortSafely : (client.abortSafely P upload).Uses (Op.Spares url) :=
  ((spares_request (upload_ne hne none) client _ _ _).bind fun _ => Prog.uses_ret ()).handle fun outcome => by
    cases outcome <;> trivial

end Client

section Uploads

variable (laws : P.Lawful) {url : String} {J : World setting.policy → Prop} (hJ : Confined setting url J)

include laws hJ

/-- An upload that is opened is a new one. -/
theorem startUpload_apart {w : World setting.policy} (hw : J w) :
    (adapter.transport.startUpload P).Ensures setting.env (fun _ _ => True) w fun outcome w' =>
      J w' ∧ ∀ upload, outcome = .ok upload → upload.url ≠ url := by
  obtain ⟨content, hcontent⟩ := hJ.held w hw
  have happly : J (w.apply .startUpload) :=
    hJ.step w _ hw rfl (uploads_apply w (by rintro digest ⟨⟩) ⟨content, hcontent⟩)
  refine (startUpload_ensures laws quiet_true w).mono ?_
  rintro (error | upload) w' h
  · obtain ⟨rfl | rfl, -⟩ := h
    · exact ⟨hw, by rintro upload ⟨⟩⟩
    · exact ⟨happly, by rintro upload ⟨⟩⟩
  · obtain ⟨rfl, hurl, -⟩ := h
    refine ⟨happly, ?_⟩
    rintro _ ⟨⟩ heq
    rw [← heq, hurl, w.registry.uploads_fresh] at hcontent
    cases hcontent

theorem patchUpload_apart {w : World setting.policy} (hw : J w) {upload : UploadLocation} (hne : upload.url ≠ url)
    (chunk : Bytes) :
    (adapter.transport.patchUpload P upload chunk).Ensures setting.env (fun _ _ => True) w fun outcome w' =>
      J w' ∧ ∀ next, outcome = .ok next → next.url ≠ url := by
  refine ((hJ.uses (spares_patchUpload adapter.transport hne chunk)).and hw
    (patchUpload_ensures laws quiet_true w upload chunk)).mono ?_
  rintro outcome w' ⟨hw', h⟩
  refine ⟨hw', ?_⟩
  rintro next rfl
  obtain ⟨received, -, -, -, hurl, -⟩ := h
  rw [hurl]
  exact hne

omit laws in
theorem preserves_abortSafely {upload : UploadLocation} (hne : upload.url ≠ url) :
    Preserves setting J (adapter.transport.abortSafely P upload) := hJ.uses (spares_abortSafely adapter.transport hne)

omit laws in
theorem preserves_finishUpload {upload : UploadLocation} (hne : upload.url ≠ url) (digest : String) :
    Preserves setting J (adapter.transport.finishUpload P upload digest) :=
  hJ.uses (spares_finishUpload adapter.transport hne digest)

theorem preserves_uploadBlobBytes (value : Bytes) (mediaType : String) :
    Preserves setting J (adapter.transport.uploadBlobBytes P value mediaType) := by
  have hS := hJ.compositional
  refine hS.bind (hS.aside (aside_headBlob P adapter _)) fun existing => ?_
  cases existing with
  | some existing =>
    dsimp only
    split
    · exact hS.raise _
    · exact hS.lift _
  | none =>
    intro w hw
    refine (startUpload_apart laws hJ hw).bind ?_ fun error w' h => h.1
    rintro upload w₁ ⟨hw₁, hurl⟩
    have hne : upload.url ≠ url := hurl upload rfl
    refine hS.bind (hS.handle ?_ fun outcome => ?_) (fun _ => hS.lift _) w₁ hw₁
    · refine hJ.uses ((spares_request (upload_ne hne _) adapter.transport _ _ _).bind fun response => ?_)
      split <;> trivial
    · cases outcome with
      | ok _ => exact hS.ret _
      | error error => exact hS.bind (preserves_abortSafely hJ hne) fun _ => hS.raise error

end Uploads

/-! ## The upload of a payload -/

/-- If there is an upload, it is another one. -/
def Elsewhere (url : String) (upload : Option UploadLocation) : Prop :=
  ∀ location, upload = some location → location.url ≠ url

section Payload

variable (laws : P.Lawful) {url : String} {J : World setting.policy → Prop} (hJ : Confined setting url J)
variable {upload : Option UploadLocation}

include hJ

theorem preserves_abandon {α : Type} (helsewhere : Elsewhere url upload) (error : Err) :
    Preserves setting J (adapter.abandon P upload error : Action α) := by
  have hS := hJ.compositional
  cases upload with
  | none => exact hS.raise error
  | some location =>
    exact hS.bind (preserves_abortSafely hJ (helsewhere location rfl)) fun _ => hS.raise error

theorem orAbandon_apart {α : Type} (helsewhere : Elsewhere url upload) {action : Action α} {w : World setting.policy}
    {R : α → Prop} (h : action.Ensures setting.env (fun _ _ => True) w fun outcome w' =>
      J w' ∧ ∀ value, outcome = .ok value → R value) :
    (adapter.orAbandon P upload action).Ensures setting.env (fun _ _ => True) w fun outcome w' =>
      J w' ∧ ∀ value, outcome = .ok value → R value := by
  refine h.handle ?_
  rintro (error | value) w₁ ⟨hw₁, hvalue⟩
  · have hraises : (adapter.abandon P upload error : Action α).Returns fun _ => False := by
      cases upload with
      | none => trivial
      | some location => exact Prog.returns_bind fun _ => trivial
    refine (hraises.and_ensures (preserves_abandon hJ helsewhere error w₁ hw₁)).mono ?_
    rintro outcome w₂ ⟨hw₂, hreturned⟩
    exact ⟨hw₂, fun value heq => (hreturned value heq).elim⟩
  · exact ⟨hw₁, hvalue⟩

theorem preserves_orAbandon {α : Type} (helsewhere : Elsewhere url upload) {action : Action α}
    (h : Preserves setting J action) : Preserves setting J (adapter.orAbandon P upload action) :=
  hJ.compositional.handle h fun outcome => by
    cases outcome with
    | ok value => exact hJ.compositional.ret value
    | error error => exact preserves_abandon hJ helsewhere error

include laws

/-- The chunk loop goes on with the upload that it has. -/
theorem sendChunks_apart (payload : PayloadReference) (chunks : List Bytes) {w : World setting.policy} (hw : J w)
    (helsewhere : Elsewhere url upload) (hashed : Bytes) (length : Nat) :
    (adapter.sendChunks P payload chunks upload hashed length).Ensures setting.env (fun _ _ => True) w
      fun outcome w' => J w' ∧ ∀ result, outcome = .ok result → Elsewhere url result.1 := by
  induction chunks generalizing w upload hashed length with
  | nil =>
    refine ⟨hw, ?_⟩
    rintro _ ⟨⟩
    exact helsewhere
  | cons chunk rest ih =>
    have habandon : ∀ error : Err, (adapter.abandon P upload error :
        Action (Option UploadLocation × Bytes × Nat)).Ensures setting.env (fun _ _ => True) w fun outcome w' =>
          J w' ∧ ∀ result, outcome = .ok result → Elsewhere url result.1 := by
      intro error
      have hraise : (Prog.raise error : Action (Option UploadLocation × Bytes × Nat)).Ensures setting.env (fun _ _ => True) w
          fun outcome w' => J w' ∧ ∀ result, outcome = .ok result → Elsewhere url result.1 := ⟨hw, by rintro _ ⟨⟩⟩
      exact orAbandon_apart hJ helsewhere hraise
    unfold OciDistributionAdapter.sendChunks
    dsimp only
    split
    · exact habandon _
    split
    · exact habandon _
    cases upload with
    | none => exact ih hw helsewhere _ _
    | some location =>
      have hpatch := patchUpload_apart laws hJ hw (helsewhere location rfl) chunk
      refine (orAbandon_apart hJ helsewhere hpatch).bind ?_ ?_
      · rintro next w₁ ⟨hw₁, hurl⟩
        refine ih hw₁ ?_ _ _
        rintro _ ⟨⟩
        exact hurl next rfl
      · rintro error w₁ ⟨hw₁, -⟩
        exact ⟨hw₁, by rintro _ ⟨⟩⟩

theorem preserves_transferTo (payload : PayloadReference) (existing : Option (OciDescriptor P))
    (helsewhere : Elsewhere url upload) : Preserves setting J (adapter.transferTo P payload existing upload) := by
  have hS := hJ.compositional
  refine hS.bind (preserves_orAbandon hJ helsewhere (hS.aside (aside_openPayload _ _))) fun stream => ?_
  intro w hw
  refine (sendChunks_apart laws hJ payload stream.chunks hw helsewhere [] 0).bind ?_ fun error w' h => h.1
  rintro ⟨upload', hashed, length⟩ w₁ ⟨hw₁, hupload⟩
  have helsewhere' : Elsewhere url upload' := hupload _ rfl
  dsimp only
  cases stream.failure with
  | some failure => exact preserves_abandon hJ helsewhere' failure w₁ hw₁
  | none =>
    refine hS.bind (preserves_orAbandon hJ helsewhere' (hS.lift _)) (fun _ => ?_) w₁ hw₁
    cases existing with
    | some existing =>
      dsimp only
      split
      · exact preserves_abandon hJ helsewhere' _
      · exact hS.ret _
    | none =>
      cases upload' with
      | none => exact hS.raise _
      | some location =>
        have hfinish := preserves_finishUpload hJ (helsewhere' location rfl) (sha256Digest P hashed)
        exact hS.bind (preserves_orAbandon hJ helsewhere' hfinish) fun _ => hS.ret _

theorem preserves_uploadPayload (payload : PayloadReference) : Preserves setting J (adapter.uploadPayload P payload) := by
  have hS := hJ.compositional
  have htransfer : ∀ existing, Preserves setting J (adapter.transfer P payload existing) := by
    intro existing
    cases existing with
    | some existing =>
      have hnone : Elsewhere url none := by rintro _ ⟨⟩
      exact preserves_transferTo laws hJ payload (some existing) hnone
    | none =>
      intro w hw
      refine (startUpload_apart laws hJ hw).bind ?_ fun error w' h => h.1
      rintro upload w₁ ⟨hw₁, hurl⟩
      have helsewhere : Elsewhere url (some upload) := by
        rintro _ ⟨⟩
        exact hurl upload rfl
      exact preserves_transferTo laws hJ payload none helsewhere w₁ hw₁
  exact hS.uploadAttempt htransfer _

end Payload

/-! ## Calls on another session -/

/-- The session a call is made on. -/
def Call.session? : Call → Option MultipartSession
  | .uploadPart session _ _ => some session
  | .completeMultipart session _ => some session
  | .abortMultipart session => some session
  | _ => none

/-- An upload with its content, beside a session and the state object of that session. -/
structure Apart (url : String) (content : Bytes) (sessionId : String) (reference : Nat) (w : World setting.policy) :
    Prop where
  stands : w.registry.uploads[url]? = some content
  object : ∀ state, w.memory.heap[reference]? = some state → state.upload.url ≠ url
  entry : ∀ other, w.memory.lookup sessionId = some other → other = reference

variable {url : String} {content : Bytes} {sessionId : String} {reference : Nat}

theorem confined_stands : Confined setting url fun w => w.registry.uploads[url]? = some content where
  held _ hw := ⟨content, hw⟩
  step _ _ hw _ huploads := huploads.trans hw

theorem confined_apart : Confined setting url (Apart url content sessionId reference) where
  held _ hw := ⟨content, hw.stands⟩
  step w w' hw hmemory huploads := by
    refine ⟨huploads.trans hw.stands, ?_, ?_⟩
    · rw [hmemory]
      exact hw.object
    · rw [hmemory]
      exact hw.entry

namespace Apart

variable {w : World setting.policy}

/-- A session with another upload, or none. -/
theorem of_live (hstands : w.registry.uploads[url]? = some content)
    (hlive : ∀ reference state, Live w.memory sessionId reference state → state.upload.url ≠ url) :
    ∃ reference, Apart url content sessionId reference w := by
  cases hentry : w.memory.lookup sessionId with
  | none =>
    refine ⟨w.memory.heap.length, hstands, fun state hobject => ?_, fun other h => ?_⟩
    · rw [List.getElem?_eq_none le_rfl] at hobject
      cases hobject
    · rw [hentry] at h
      cases h
  | some reference =>
    refine ⟨reference, hstands, fun state hobject => hlive reference state ⟨hentry, hobject⟩, fun other h => ?_⟩
    exact Option.some.inj (h.symm.trans hentry)

theorem modify (h : Apart url content sessionId reference w) {update : MultipartState → MultipartState}
    (hupdate : ∀ state, state.upload.url ≠ url → (update state).upload.url ≠ url) :
    Apart url content sessionId reference { w with memory := w.memory.modify reference update } := by
  refine ⟨h.stands, fun state hobject => ?_, h.entry⟩
  rw [get?_modify, if_pos rfl] at hobject
  obtain ⟨before, hbefore, rfl⟩ := Option.map_eq_some_iff.mp hobject
  exact hupdate before (h.object before hbefore)

theorem pop (h : Apart url content sessionId reference w) :
    Apart url content sessionId reference { w with memory := w.memory.pop sessionId } := by
  refine ⟨h.stands, h.object, fun other hentry => ?_⟩
  rw [lookup_pop, if_pos rfl] at hentry
  cases hentry

theorem readState (h : Apart url content sessionId reference w) :
    (OciDistributionAdapter.readState reference).Ensures setting.env (fun _ _ => True) w fun outcome w' =>
      Apart url content sessionId reference w' ∧ ∀ state, outcome = .ok state → state.upload.url ≠ url := by
  refine (remembers quiet_true).memory_bind w ?_
  rintro _ rfl
  cases hobject : w.memory.heap[reference]? with
  | none => exact ⟨h, by rintro _ ⟨⟩⟩
  | some state =>
    refine ⟨h, ?_⟩
    rintro _ ⟨⟩
    exact h.object state hobject

theorem updateState (h : Apart url content sessionId reference w) {update : MultipartState → MultipartState}
    (hupdate : ∀ state, state.upload.url ≠ url → (update state).upload.url ≠ url) :
    (OciDistributionAdapter.updateState reference update).Ensures setting.env (fun _ _ => True) w fun outcome w' =>
      Apart url content sessionId reference w' ∧ ∀ state, outcome = .ok state → state.upload.url ≠ url := by
  refine (remembers quiet_true).memory_bind w ?_
  rintro _ rfl
  cases hobject : w.memory.heap[reference]? with
  | none => exact ⟨h.modify hupdate, by rintro _ ⟨⟩⟩
  | some state =>
    refine ⟨h.modify hupdate, ?_⟩
    rintro _ ⟨⟩
    exact h.object state hobject

end Apart

theorem preserves_transitionState (target : PutState) :
    Preserves setting (Apart url content sessionId reference) (OciDistributionAdapter.transitionState P reference target) := by
  have hS := (@confined_apart P adapter setting url content sessionId reference).compositional
  intro w hw
  refine (hw.updateState fun state hne => ?_).bind ?_ fun error w' h => h.1
  · split <;> exact hne
  · rintro state w₁ ⟨hw₁, -⟩
    exact hS.bind (hS.lift _) (fun _ => hS.ret _) w₁ hw₁

theorem preserves_failState (physicalCommit : Bool) :
    Preserves setting (Apart url content sessionId reference)
      (OciDistributionAdapter.failState P reference physicalCommit) := by
  have hS := (@confined_apart P adapter setting url content sessionId reference).compositional
  intro w hw
  refine (hw.updateState fun state hne => ?_).bind ?_ fun error w' h => h.1
  · split <;> exact hne
  · rintro state w₁ ⟨hw₁, -⟩
    exact hS.bind (hS.lift _) (fun _ => hS.ret _) w₁ hw₁

theorem stateOf_apart (session : MultipartSession) {w : World setting.policy}
    (hw : Apart url content session.sessionId reference w) :
    (adapter.stateOf session).Ensures setting.env (fun _ _ => True) w fun outcome w' =>
      Apart url content session.sessionId reference w' ∧ ∀ other, outcome = .ok other → other = reference := by
  refine (stateOf_ensures quiet_true w session).mono ?_
  rintro outcome w' ⟨rfl, h⟩
  refine ⟨hw, ?_⟩
  rintro other rfl
  obtain ⟨state, hlive, -⟩ := h
  exact hw.entry other hlive.entry

theorem preserves_abortMultipart (session : MultipartSession) :
    Preserves setting (Apart url content session.sessionId reference) (adapter.abortMultipart P session) := by
  have hS := (@confined_apart P adapter setting url content session.sessionId reference).compositional
  have hJ := @confined_apart P adapter setting url content session.sessionId reference
  intro w hw
  refine (remembers quiet_true).memory_bind w ?_
  rintro _ rfl
  cases hentry : w.memory.lookup session.sessionId with
  | none => exact hw.pop
  | some other =>
    obtain rfl := hw.entry other hentry
    refine hw.pop.readState.bind ?_ fun error w' h => h.1
    rintro state w₁ ⟨hw₁, hurl⟩
    refine hS.bind (preserves_abortSafely hJ (hurl state rfl)) (fun _ w₂ hw₂ => ?_) w₁ hw₁
    refine hw₂.readState.bind ?_ fun error w' h => h.1
    rintro state' w₃ ⟨hw₃, -⟩
    split
    · exact preserves_transitionState .aborted w₃ hw₃
    · exact hw₃

section Calls

variable (laws : P.Lawful)

include laws

/-- A chunk goes to the upload that the state object names. -/
theorem preserves_sendChunk (chunk : Bytes) :
    Preserves setting (Apart url content sessionId reference) (adapter.sendChunk P reference chunk) := by
  intro w hw
  refine Prog.Ensures.bind (hw.updateState fun state hne => hne) ?_ fun error w' h => h.1
  rintro state w₁ ⟨hw₁, hurl⟩
  refine (patchUpload_apart laws confined_apart hw₁ (hurl state rfl) chunk).bind ?_ fun error w' h => h.1
  rintro upload w₂ ⟨hw₂, hnext⟩
  refine Prog.Ensures.bind (hw₂.updateState fun state _ => hnext upload rfl) ?_ fun error w' h => h.1
  rintro _ w₃ ⟨hw₃, -⟩
  exact hw₃

theorem preserves_sendPart (session : MultipartSession) (chunks : List Bytes) (hashed : Bytes) (length : Nat) :
    Preserves setting (Apart url content sessionId reference)
      (adapter.sendPart P session reference chunks hashed length) := by
  have hJ := @confined_apart P adapter setting url content sessionId reference
  have hS := hJ.compositional
  induction chunks generalizing hashed length with
  | nil => exact hS.ret _
  | cons chunk rest ih =>
    unfold OciDistributionAdapter.sendPart
    dsimp only
    split
    · exact hS.raise _
    intro w hw
    refine hw.readState.bind ?_ fun error w' h => h.1
    rintro state w₁ ⟨hw₁, -⟩
    split
    · exact hw₁
    exact hS.bind (preserves_sendChunk laws chunk) (fun _ => ih _ _) w₁ hw₁

theorem preserves_uploadPart (session : MultipartSession) (partNumber : Nat) (payload : PayloadReference) :
    Preserves setting (Apart url content session.sessionId reference) (adapter.uploadPart P session partNumber payload) := by
  have hS := (@confined_apart P adapter setting url content session.sessionId reference).compositional
  intro w hw
  refine (stateOf_apart session hw).bind ?_ fun error w' h => h.1
  rintro other w₁ ⟨hw₁, hother⟩
  obtain rfl := hother other rfl
  refine hw₁.readState.bind ?_ fun error w' h => h.1
  rintro state w₂ ⟨hw₂, -⟩
  split
  · exact hw₂
  split
  · exact hw₂
  refine hS.bind (hS.handle ?_ fun outcome => ?_) ?_ w₂ hw₂
  · refine hS.bind (hS.aside (aside_openPayload _ _)) fun stream => ?_
    refine hS.bind (preserves_sendPart laws session stream.chunks [] 0) fun result => ?_
    dsimp only
    split
    · exact hS.raise _
    split
    · exact hS.raise _
    · exact hS.bind (hS.lift _) fun _ => hS.ret _
  · cases outcome with
    | ok identity => exact hS.ret _
    | error error => exact hS.bind (preserves_abortMultipart session) fun _ => hS.raise error
  · intro identity w₃ hw₃
    refine Prog.Ensures.bind (hw₃.updateState fun state hne => hne) ?_ fun error w' h => h.1
    rintro _ w₄ ⟨hw₄, -⟩
    exact hw₄

theorem preserves_completeMultipart (session : MultipartSession) (supplied : List MultipartPart) :
    Preserves setting (Apart url content session.sessionId reference) (adapter.completeMultipart P session supplied) := by
  have hJ := @confined_apart P adapter setting url content session.sessionId reference
  have hS := hJ.compositional
  have habort : ∀ error : Err, Preserves setting (Apart url content session.sessionId reference) (do
      adapter.abortMultipart P session
      throw error : Action ObjectMetadata) := fun error =>
    hS.bind (preserves_abortMultipart session) fun _ => hS.raise error
  intro w hw
  refine (stateOf_apart session hw).bind ?_ fun error w' h => h.1
  rintro other w₁ ⟨hw₁, hother⟩
  obtain rfl := hother other rfl
  refine hw₁.readState.bind ?_ fun error w' h => h.1
  rintro state w₂ ⟨hw₂, -⟩
  split
  · exact hw₂
  split
  · exact hw₂
  refine hS.bind (hS.lift _) (fun _ => ?_) w₂ hw₂
  dsimp only
  split
  · exact habort _
  split
  · exact habort _
  refine hS.bind (hS.lift _) fun immutability => hS.bind (hS.lift _) fun retention => ?_
  refine hS.finally_ (hS.handle (hS.locked ?_) fun outcome => ?_) ?_
  · refine hS.bind (hS.aside (aside_requireCreateAvailable P adapter _ _ _)) fun _ w₃ hw₃ => ?_
    refine hw₃.readState.bind ?_ fun error w' h => h.1
    rintro state' w₄ ⟨hw₄, hurl⟩
    have hfinish := preserves_finishUpload hJ (hurl state' rfl) (sha256Digest P state.hashed)
    refine hS.bind hfinish (fun _ => hS.bind (preserves_transitionState _) fun _ => ?_) w₄ hw₄
    refine hS.bind ((hS.sequential P).commitObject (preserves_uploadBlobBytes laws hJ) _ _ _ _ _) fun metadata => ?_
    exact hS.bind (preserves_transitionState _) fun _ => hS.ret _
  · cases outcome with
    | ok metadata => exact hS.ret _
    | error error =>
      intro w₃ hw₃
      refine hw₃.readState.bind ?_ fun error w' h => h.1
      rintro state' w₄ ⟨hw₄, hurl⟩
      have habort := preserves_abortSafely hJ (hurl state' rfl)
      split
      · exact hS.bind habort (fun _ => hS.bind (preserves_failState false) fun _ => hS.raise error) w₄ hw₄
      split
      · exact hS.bind (preserves_failState true) (fun _ => hS.raise error) w₄ hw₄
      · exact hw₄
  · intro w₃ hw₃
    refine (remembers quiet_true).memory_bind w₃ ?_
    rintro _ rfl
    exact hw₃.pop

/-- What a call leaves of an upload that no session it is about has. -/
theorem call_apart (call : Call) {w : World setting.policy} (hstands : w.registry.uploads[url]? = some content)
    (hlive : ∀ session, call.session? = some session → ∀ reference state,
      Live w.memory session.sessionId reference state → state.upload.url ≠ url) :
    (call.program P adapter).Ensures setting.env (fun _ _ => True) w fun _ w' =>
      w'.registry.uploads[url]? = some content := by
  have hJ := @confined_stands P adapter setting url content
  have hS := hJ.compositional
  cases call with
  | execute operation =>
    refine hS.bind ?_ (fun _ => hS.ret _) w hstands
    exact (hS.sequential P).execute (preserves_uploadBlobBytes laws hJ) (preserves_uploadPayload laws hJ) operation
  | beginMultipart operation =>
    refine hS.bind ?_ (fun _ => hS.ret _) w hstands
    refine hS.bind (hS.lift _) fun method => ?_
    split
    · exact hS.raise _
    refine hS.bind (hS.lift _) fun _ => ?_
    cases operation.input with
    | put value =>
      refine hS.bind (hS.lift _) fun immutability => hS.bind (hS.locked ?_) fun upload => ?_
      · refine hS.bind (hS.aside (aside_requireCreateAvailable P adapter _ _ _)) fun _ w₁ hw₁ => ?_
        exact (startUpload_apart laws hJ hw₁).mono fun _ _ h => h.1
      · refine hS.bind (hS.lift _) fun machine => hS.bind (hS.aside ?_) fun token => ?_
        · exact Prog.uses_perform ⟨(by rintro request ⟨⟩), by rintro update ⟨⟩⟩
        · refine hS.bind (hS.aside aside_now) fun createdAt => hS.bind (hS.lift _) fun session w₁ hw₁ => ?_
          refine (remembers quiet_true).memory_bind w₁ ?_
          rintro _ rfl
          exact hw₁
    | _ => exact hS.raise _
  | uploadPart session partNumber payload =>
    obtain ⟨reference, hapart⟩ := Apart.of_live hstands (hlive session rfl)
    exact (preserves_uploadPart laws session partNumber payload w hapart).bind (fun _ _ h => h.stands) fun _ _ h => h.stands
  | completeMultipart session parts =>
    obtain ⟨reference, hapart⟩ := Apart.of_live hstands (hlive session rfl)
    exact (preserves_completeMultipart laws session parts w hapart).bind (fun _ _ h => h.stands) fun _ _ h => h.stands
  | abortMultipart session =>
    obtain ⟨reference, hapart⟩ := Apart.of_live hstands (hlive session rfl)
    exact (preserves_abortMultipart session w hapart).bind (fun _ _ h => h.stands) fun _ _ h => h.stands

end Calls

end MeridianOci.Service
