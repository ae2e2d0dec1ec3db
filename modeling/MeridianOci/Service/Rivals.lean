import MeridianOci.Effect.Relying
import MeridianOci.Service.Apart
import MeridianOci.Service.Conflict
import MeridianOci.Service.Equivalence

/-!
# Calls that share a session

Calls on one adapter that take turns, operation by operation and in any order; several may be
on the same session. None of them begins a session, so a session keeps its state object and
that object keeps its upload URL. Finalising an upload uses it up, and its URL is not issued
again: of all completions of a session at most one returns.
-/
namespace MeridianOci.Service

open MeridianOci.Data MeridianOci.Effect MeridianOci.Model

set_option autoImplicit false

variable {P : Platform} {adapter : OciDistributionAdapter}
variable {setting : Setting P adapter.transport.binding}

/-! ## Sessions that nobody begins -/

/-- A state object keeps the URL of its upload, and a session its state object. -/
structure Pinned (urls : Nat → String) (entries : String → Option Nat) (w : World setting.policy) : Prop where
  upload : ∀ reference state, w.memory.heap[reference]? = some state → state.upload.url = urls reference
  entry : ∀ sessionId reference, w.memory.lookup sessionId = some reference → entries sessionId = some reference

variable {urls : Nat → String} {entries : String → Option Nat} {w : World setting.policy}

namespace Pinned

theorem of_memory (h : Pinned urls entries w) {w' : World setting.policy} (hmemory : w'.memory = w.memory) :
    Pinned urls entries w' := by
  refine ⟨?_, ?_⟩
  · rw [hmemory]
    exact h.upload
  · rw [hmemory]
    exact h.entry

theorem modify (h : Pinned urls entries w) (reference : Nat) {update : MultipartState → MultipartState}
    (hupdate : ∀ state, state.upload.url = urls reference → (update state).upload.url = urls reference) :
    Pinned urls entries { w with memory := w.memory.modify reference update } := by
  refine ⟨fun other state hobject => ?_, h.entry⟩
  rw [get?_modify] at hobject
  split at hobject
  · rename_i heq
    subst heq
    obtain ⟨before, hbefore, rfl⟩ := Option.map_eq_some_iff.mp hobject
    exact hupdate before (h.upload _ before hbefore)
  · exact h.upload other state hobject

theorem pop (h : Pinned urls entries w) (sessionId : String) :
    Pinned urls entries { w with memory := w.memory.pop sessionId } := by
  refine ⟨h.upload, fun other reference hentry => ?_⟩
  rw [lookup_pop] at hentry
  split at hentry
  · cases hentry
  · exact h.entry other reference hentry

end Pinned

/-- Only operations on the memory change it. -/
theorem memory_of_forgets {op : Op} {w' : World setting.policy} {answer : Except Err op.Res} (hop : Op.Forgets op)
    (h : setting.env op w answer w') : w'.memory = w.memory := by
  cases op with
  | send request =>
    rcases h with ⟨-, rfl⟩ | ⟨-, -, rfl | rfl⟩
    all_goals rfl
  | register source length digest =>
    obtain ⟨id, -, rfl⟩ := h
    rfl
  | clock =>
    rcases h with ⟨now, -, -, rfl⟩ | ⟨-, -, rfl⟩
    all_goals rfl
  | memory update => exact absurd rfl (hop update)
  | openPayload payload chunkSize => rw [h.2]
  | authorize => rw [h.2]
  | token => rw [h.2]
  | acquire => rw [h.2]
  | release => rw [h.2]

/-! ## Programs among such calls -/

section Programs

variable {ι α : Type} {who : ι}

/-- A program that keeps sessions pinned, and whose value is as stated. -/
def Holding (setting : Setting P adapter.transport.binding) (urls : Nat → String) (entries : String → Option Nat)
    (who : ι) (program : Action α) (R : α → Prop) : Prop :=
  program.Relies setting.env who (Pinned urls entries) fun outcome _ => ∀ value, outcome = .ok value → R value

/-- A program that keeps sessions pinned. -/
def Keeping (setting : Setting P adapter.transport.binding) (urls : Nat → String) (entries : String → Option Nat)
    (who : ι) (program : Action α) : Prop :=
  program.Relies setting.env who (Pinned urls entries) fun _ _ => True

variable {program : Action α}

theorem keeping_forgets (h : program.Uses Op.Forgets) : Keeping setting urls entries who program :=
  h.relies fun _ _ _ _ hop hk hstep => hk.of_memory (memory_of_forgets hop hstep)

theorem compositional_keeping : Compositional fun _ program => Keeping setting urls entries who program where
  aside h := keeping_forgets (h.mono fun _ hop => hop.2)
  handle h hnext := h.handle fun outcome _ _ => hnext outcome

theorem Holding.bind {β : Type} {next : α → Action β} {R : α → Prop}
    {Q : Except Err β → List (Occurrence ι Op Op.Res Err (World setting.policy)) → Prop}
    (h : Holding setting urls entries who program R)
    (hok : ∀ value front, R value →
      (next value).Relies setting.env who (Pinned urls entries) fun last back => Q last (front ++ back))
    (herror : ∀ error front, Q (.error error) front) :
    (program >>= next).Relies setting.env who (Pinned urls entries) Q :=
  Prog.Relies.bind h (fun value front hr => hok value front (hr value rfl)) fun error front _ => herror error front

theorem holding_memory {update : Memory → Memory} {next : Memory → Action α} {R : α → Prop}
    (hnext : ∀ w : World setting.policy, Pinned urls entries w → Pinned urls entries { w with memory := update w.memory } ∧
      Holding setting urls entries who (next w.memory) R) :
    Holding setting urls entries who (Action.memory update >>= next) R := by
  refine Prog.relies_call fun w answer w' hw hstep => ?_
  obtain ⟨rfl, rfl⟩ := hstep
  obtain ⟨hw', hrest⟩ := hnext w hw
  exact ⟨hw', hrest⟩

variable {reference : Nat}

theorem holding_readState : Holding setting urls entries who (OciDistributionAdapter.readState reference)
    fun state => state.upload.url = urls reference := by
  refine holding_memory fun w hw => ⟨hw, ?_⟩
  cases hobject : w.memory.heap[reference]? with
  | none => exact Prog.relies_raise (by rintro value ⟨⟩)
  | some state =>
    refine Prog.relies_ret ?_
    rintro _ ⟨⟩
    exact hw.upload reference state hobject

theorem holding_updateState {update : MultipartState → MultipartState}
    (hupdate : ∀ state, state.upload.url = urls reference → (update state).upload.url = urls reference) :
    Holding setting urls entries who (OciDistributionAdapter.updateState reference update)
      fun state => state.upload.url = urls reference := by
  refine holding_memory fun w hw => ⟨hw.modify reference hupdate, ?_⟩
  cases hobject : w.memory.heap[reference]? with
  | none => exact Prog.relies_raise (by rintro value ⟨⟩)
  | some state =>
    refine Prog.relies_ret ?_
    rintro _ ⟨⟩
    exact hw.upload reference state hobject

theorem holding_stateOf (session : MultipartSession) :
    Holding setting urls entries who (adapter.stateOf session) fun reference =>
      entries session.sessionId = some reference := by
  refine holding_memory fun w hw => ⟨hw, ?_⟩
  cases hentry : w.memory.lookup session.sessionId with
  | none => exact Prog.relies_raise (by rintro value ⟨⟩)
  | some reference =>
    dsimp only
    split
    · exact Prog.relies_raise (by rintro value ⟨⟩)
    split
    · exact Prog.relies_raise (by rintro value ⟨⟩)
    · refine Prog.relies_ret ?_
      rintro _ ⟨⟩
      exact hw.entry _ _ hentry

end Programs

/-! ## The requests of an upload -/

/-- A turn that finalised the upload under a URL, as the blob with a digest. -/
def Finalises {ι : Type} (url digest : String) (turn : Occurrence ι Op Op.Res Err (World setting.policy)) : Prop :=
  ∃ received, turn.before.registry.uploads[url]? = some received ∧ digest = sha256Digest P received ∧
    turn.after = { turn.before with registry := (turn.before.registry.addBlob received).dropUpload url }

section Requests

variable {ι α : Type} {who : ι}

/-- A request that is sent once does what it does alone. -/
theorem relies_once {request : Request} {program : Action α} (h : Journal.Once request program)
    {R : World setting.policy → Except Err α → World setting.policy → Prop}
    (hR : ∀ w, program.Ensures setting.env (fun _ _ => True) w (R w)) :
    program.Relies setting.env who (Pinned urls entries) fun outcome done =>
      ∃ turn, done = [turn] ∧ R turn.before outcome turn.after := by
  obtain ⟨next, rfl, hnext⟩ := h
  refine Prog.relies_call fun w answer w' hw hstep => ⟨hw.of_memory (memory_of_forgets ?_ hstep), ?_⟩
  · rintro update ⟨⟩
  have hafter := (hR w answer w' hstep).2
  rcases Journal.uses_false (hnext answer) with ⟨value, hvalue⟩ | ⟨error, herror⟩
  · rw [hvalue] at hafter ⊢
    exact Prog.relies_ret ⟨_, rfl, hafter⟩
  · rw [herror] at hafter ⊢
    exact Prog.relies_raise ⟨_, rfl, hafter⟩

variable (laws : P.Lawful)

include laws

theorem holding_patchUpload (upload : UploadLocation) (chunk : Bytes) :
    Holding setting urls entries who (adapter.transport.patchUpload P upload chunk) fun next =>
      next.url = upload.url := by
  by_cases hchunk : chunk = []
  · rw [RegistryHttpClient.patchUpload, if_pos hchunk]
    exact Prog.relies_raise (by rintro value ⟨⟩)
  cases hbuild : (Target.upload upload.url none).build P with
  | error error =>
    have hunbuilt : (Request.patchUpload upload.url upload.offset (upload.offset + chunk.length - 1)
      chunk).target.build P = .error error := hbuild
    rw [RegistryHttpClient.patchUpload, if_neg hchunk]
    simp only [request_unbuilt hunbuilt]
    exact Prog.relies_raise (by rintro value ⟨⟩)
  | ok _ =>
    have honce : Journal.Once (.patchUpload upload.url upload.offset (upload.offset + chunk.length - 1) chunk)
        (adapter.transport.patchUpload P upload chunk) := by
      rw [RegistryHttpClient.patchUpload, if_neg hchunk]
      refine (Journal.once_request adapter.transport hbuild _ _).bind fun response => ?_
      split
      · trivial
      · exact (uses_lift _).bind fun url => trivial
    refine (relies_once honce fun w => patchUpload_ensures laws quiet_true w upload chunk).mono ?_
    rintro outcome done ⟨turn, -, h⟩ next rfl
    obtain ⟨received, -, -, -, hurl, -⟩ := h
    exact hurl

/-- An upload whose finalisation returns was finalised by one of the requests. -/
theorem finishUpload_finalises (upload : UploadLocation) (digest : String) :
    (adapter.transport.finishUpload P upload digest).Relies setting.env who (Pinned urls entries)
      fun outcome done => ∀ descriptor, outcome = .ok descriptor → ∃ turn ∈ done, Finalises upload.url digest turn := by
  cases hbuild : (Target.upload upload.url (some digest)).build P with
  | error error =>
    have hunbuilt : (Request.putUpload upload.url digest []).target.build P = .error error := hbuild
    unfold RegistryHttpClient.finishUpload
    rw [request_unbuilt hunbuilt]
    exact Prog.relies_raise (by rintro value ⟨⟩)
  | ok _ =>
    have honce : Journal.Once (.putUpload upload.url digest []) (adapter.transport.finishUpload P upload digest) := by
      refine (Journal.once_request adapter.transport hbuild _ _).bind fun response => ?_
      split
      · trivial
      · exact uses_lift _
    refine (relies_once honce fun w => finishUpload_ensures laws quiet_true w upload digest).mono ?_
    rintro outcome done ⟨turn, rfl, h⟩ descriptor rfl
    exact ⟨turn, List.mem_singleton.mpr rfl, h⟩

end Requests

/-! ## Calls that do not touch a session -/

section Payload

variable {ι : Type} {who : ι}

theorem keeping_request {α : Type} (client : RegistryHttpClient) (request : Request) (expected : List Nat) (retry : Bool)
    (maximumBytes : Nat) {next : BoundedResponse → Action α} (hnext : ∀ response, (next response).Uses fun _ => False) :
    Keeping setting urls entries who (client.request P request expected retry maximumBytes >>= next) := by
  refine keeping_forgets (((uses_request client request expected retry maximumBytes).mono ?_).bind fun response =>
    (hnext response).mono fun _ hop => hop.elim)
  rintro _ rfl update ⟨⟩

theorem keeping_startUpload : Keeping setting urls entries who (adapter.transport.startUpload P) := by
  refine keeping_request _ _ _ _ _ fun response => (uses_lift _).bind fun url => ?_
  repeat' split
  all_goals trivial

theorem keeping_patchUpload (upload : UploadLocation) (chunk : Bytes) :
    Keeping setting urls entries who (adapter.transport.patchUpload P upload chunk) := by
  unfold RegistryHttpClient.patchUpload
  split
  · exact compositional_keeping.raise _
  · refine keeping_request _ _ _ _ _ fun response => ?_
    split
    · trivial
    · exact (uses_lift _).bind fun url => trivial

theorem keeping_finishUpload (upload : UploadLocation) (digest : String) :
    Keeping setting urls entries who (adapter.transport.finishUpload P upload digest) := by
  refine keeping_request _ _ _ _ _ fun response => ?_
  split
  · trivial
  · exact uses_lift _

theorem keeping_abortSafely (upload : UploadLocation) :
    Keeping setting urls entries who (adapter.transport.abortSafely P upload) :=
  compositional_keeping.handle (keeping_request _ _ _ _ _ fun _ => trivial) fun _ => compositional_keeping.ret ()

theorem keeping_uploadBlobBytes (value : Bytes) (mediaType : String) :
    Keeping setting urls entries who (adapter.transport.uploadBlobBytes P value mediaType) := by
  refine keeping_forgets ((sends_uploadBlobBytes P adapter.transport value mediaType).mono ?_)
  rintro _ ⟨request, rfl⟩ update ⟨⟩

theorem keeping_abandon {α : Type} (upload : Option UploadLocation) (error : Err) :
    Keeping setting urls entries who (adapter.abandon P upload error : Action α) := by
  cases upload with
  | none => exact compositional_keeping.raise error
  | some upload => exact compositional_keeping.bind (keeping_abortSafely upload) fun _ => compositional_keeping.raise error

theorem keeping_orAbandon {α : Type} (upload : Option UploadLocation) {action : Action α}
    (h : Keeping setting urls entries who action) :
    Keeping setting urls entries who (adapter.orAbandon P upload action) :=
  compositional_keeping.handle h fun outcome => by
    cases outcome with
    | ok value => exact compositional_keeping.ret value
    | error error => exact keeping_abandon upload error

theorem keeping_sendChunks (payload : PayloadReference) (chunks : List Bytes) (upload : Option UploadLocation)
    (hashed : Bytes) (length : Nat) :
    Keeping setting urls entries who (adapter.sendChunks P payload chunks upload hashed length) := by
  induction chunks generalizing upload hashed length with
  | nil => exact compositional_keeping.ret _
  | cons chunk rest ih =>
    unfold OciDistributionAdapter.sendChunks
    dsimp only
    split
    · exact keeping_abandon upload _
    split
    · exact keeping_abandon upload _
    cases upload with
    | none => exact ih none _ _
    | some location =>
      exact compositional_keeping.bind (keeping_orAbandon _ (keeping_patchUpload location chunk)) fun next =>
        ih (some next) _ _

theorem keeping_transferTo (payload : PayloadReference) (existing : Option (OciDescriptor P))
    (upload : Option UploadLocation) :
    Keeping setting urls entries who (adapter.transferTo P payload existing upload) := by
  have hS := @compositional_keeping P adapter setting urls entries ι who
  refine hS.bind (keeping_orAbandon _ (hS.aside (aside_openPayload _ _))) fun stream => ?_
  refine hS.bind (keeping_sendChunks payload stream.chunks upload [] 0) fun sent => ?_
  obtain ⟨upload, hashed, length⟩ := sent
  dsimp only
  split
  · exact keeping_abandon upload _
  refine hS.bind (keeping_orAbandon _ (hS.lift _)) fun _ => ?_
  split
  · split
    · exact keeping_abandon upload _
    · exact hS.ret _
  · exact hS.bind (keeping_orAbandon _ (keeping_finishUpload _ _)) fun _ => hS.ret _
  · exact hS.raise _

theorem keeping_uploadPayload (payload : PayloadReference) :
    Keeping setting urls entries who (adapter.uploadPayload P payload) := by
  have hS := @compositional_keeping P adapter setting urls entries ι who
  have htransfer : ∀ existing, Keeping setting urls entries who (adapter.transfer P payload existing) := by
    intro existing
    cases existing with
    | some existing => exact keeping_transferTo payload (some existing) none
    | none => exact hS.bind keeping_startUpload fun upload => keeping_transferTo payload none (some upload)
  exact hS.uploadAttempt htransfer _

theorem keeping_execute (operation : Operation) :
    Keeping setting urls entries who (adapter.execute P operation) :=
  (compositional_keeping.sequential P).execute keeping_uploadBlobBytes keeping_uploadPayload operation

end Payload

/-! ## Calls on a session -/

section Calls

variable {ι : Type} {who : ι} {reference : Nat}

theorem Holding.keeping {α β : Type} {program : Action α} {next : α → Action β} {R : α → Prop}
    (h : Holding setting urls entries who program R)
    (hnext : ∀ value, R value → Keeping setting urls entries who (next value)) :
    Keeping setting urls entries who (program >>= next) :=
  h.bind (fun value _ hr => hnext value hr) fun _ _ => trivial

theorem keeping_transitionState (target : PutState) :
    Keeping setting urls entries who (OciDistributionAdapter.transitionState P reference target) := by
  have hS := @compositional_keeping P adapter setting urls entries ι who
  refine (holding_updateState fun state hurl => ?_).keeping fun _ _ => hS.bind (hS.lift _) fun _ => hS.ret _
  split <;> exact hurl

theorem keeping_failState (physicalCommit : Bool) :
    Keeping setting urls entries who (OciDistributionAdapter.failState P reference physicalCommit) := by
  have hS := @compositional_keeping P adapter setting urls entries ι who
  refine (holding_updateState fun state hurl => ?_).keeping fun _ _ => hS.bind (hS.lift _) fun _ => hS.ret _
  split <;> exact hurl

theorem keeping_pop {α : Type} {sessionId : String} {next : Memory → Action α}
    (hnext : ∀ memory, Keeping setting urls entries who (next memory)) :
    Keeping setting urls entries who (Action.memory (fun memory => memory.pop sessionId) >>= next) := by
  refine Prog.relies_call fun w answer w' hw hstep => ?_
  obtain ⟨rfl, rfl⟩ := hstep
  exact ⟨hw.pop sessionId, hnext w.memory⟩

theorem keeping_abortMultipart (session : MultipartSession) :
    Keeping setting urls entries who (adapter.abortMultipart P session) := by
  have hS := @compositional_keeping P adapter setting urls entries ι who
  refine keeping_pop fun memory => ?_
  split
  · exact hS.ret _
  refine holding_readState.keeping fun state _ => hS.bind (keeping_abortSafely _) fun _ => ?_
  refine holding_readState.keeping fun state' _ => ?_
  split
  · exact keeping_transitionState .aborted
  · exact hS.ret _

theorem keeping_abandonMultipart (error : Err) :
    Keeping setting urls entries who (adapter.abandonMultipart P reference error) := by
  have hS := @compositional_keeping P adapter setting urls entries ι who
  refine holding_readState.keeping fun state _ => ?_
  split
  · refine hS.bind (keeping_abortSafely _) fun _ => ?_
    exact hS.bind (keeping_failState false) fun _ => hS.raise error
  split
  · exact hS.bind (keeping_failState true) fun _ => hS.raise error
  · exact hS.raise error

variable (laws : P.Lawful)

include laws

/-- The state object gets back the URL that it had. -/
theorem keeping_sendChunk (chunk : Bytes) :
    Keeping setting urls entries who (adapter.sendChunk P reference chunk) := by
  have hS := @compositional_keeping P adapter setting urls entries ι who
  refine Holding.keeping (holding_updateState ?_) fun state hurl => ?_
  · exact fun _ hurl => hurl
  refine (holding_patchUpload laws state.upload chunk).keeping fun upload hnext => ?_
  refine Holding.keeping (holding_updateState ?_) fun _ _ => hS.ret _
  exact fun _ _ => hnext.trans hurl

theorem keeping_sendPart (session : MultipartSession) (chunks : List Bytes) (hashed : Bytes) (length : Nat) :
    Keeping setting urls entries who (adapter.sendPart P session reference chunks hashed length) := by
  have hS := @compositional_keeping P adapter setting urls entries ι who
  induction chunks generalizing hashed length with
  | nil => exact hS.ret _
  | cons chunk rest ih =>
    unfold OciDistributionAdapter.sendPart
    dsimp only
    split
    · exact hS.raise _
    refine holding_readState.keeping fun state _ => ?_
    split
    · exact hS.raise _
    · exact hS.bind (keeping_sendChunk laws chunk) fun _ => ih _ _

theorem keeping_uploadPart (session : MultipartSession) (partNumber : Nat) (payload : PayloadReference) :
    Keeping setting urls entries who (adapter.uploadPart P session partNumber payload) := by
  have hS := @compositional_keeping P adapter setting urls entries ι who
  refine (holding_stateOf session).keeping fun reference _ => holding_readState.keeping fun state _ => ?_
  split
  · exact hS.raise _
  split
  · exact hS.raise _
  refine hS.bind (hS.handle ?_ fun outcome => ?_) fun identity => ?_
  · refine hS.bind (hS.aside (aside_openPayload _ _)) fun stream => ?_
    refine hS.bind (keeping_sendPart laws session stream.chunks [] 0) fun result => ?_
    dsimp only
    split
    · exact hS.raise _
    split
    · exact hS.raise _
    · exact hS.bind (hS.lift _) fun _ => hS.ret _
  · cases outcome with
    | ok identity => exact hS.ret _
    | error error => exact hS.bind (keeping_abortMultipart session) fun _ => hS.raise error
  · refine Holding.keeping (holding_updateState ?_) fun _ _ => hS.ret _
    exact fun _ hurl => hurl

end Calls

/-! ## Completions -/

section Completions

variable (laws : P.Lawful)

include laws

variable {ι : Type} {who : ι}

theorem commitMultipart_earns (reference : Nat) (value : PutInput) (identity : ContentIdentity)
    (immutability : ImmutabilityRequest) (retention : Option RetentionRequest) :
    (adapter.commitMultipart P reference value identity immutability retention).Earns setting.env who
      (Pinned urls entries) fun metadata turn => Finalises (urls reference) metadata.digest turn := by
  have hS := @compositional_keeping P adapter setting urls entries ι who
  refine Prog.earns_after (hS.aside (aside_requireCreateAvailable P adapter _ _ _)) fun _ _ _ => ?_
  refine Prog.earns_after holding_readState fun state _ hr => ?_
  have hfinish := @finishUpload_finalises P adapter setting urls entries ι who laws state.upload identity.digest
  rw [hr state rfl] at hfinish
  refine Prog.Earns.bind hfinish (fun descriptor => ?_) fun descriptor => ?_
  · refine hS.bind (keeping_transitionState .verifying) fun _ => ?_
    refine hS.bind ((hS.sequential P).commitObject keeping_uploadBlobBytes _ _ _ _ _) fun metadata => ?_
    exact hS.bind (keeping_transitionState .committed) fun _ => hS.ret _
  · refine Prog.returns_bind fun _ => (commitObject_digest laws _ _ _ _ _).bind fun metadata hdigest => ?_
    refine Prog.returns_bind fun _ => fun turn hturn => ?_
    rw [hdigest]
    exact hturn

/-- A completion that returns has finalised the upload of its session. -/
theorem completeMultipart_earns (session : MultipartSession) (supplied : List MultipartPart) :
    (adapter.completeMultipart P session supplied).Earns setting.env who (Pinned urls entries) fun metadata turn =>
      ∃ reference, entries session.sessionId = some reference ∧ Finalises (urls reference) metadata.digest turn := by
  have hS := @compositional_keeping P adapter setting urls entries ι who
  have habort : ∀ error : Err, (do adapter.abortMultipart P session; throw error : Action ObjectMetadata).Earns
      setting.env who (Pinned urls entries) fun metadata turn =>
        ∃ reference, entries session.sessionId = some reference ∧ Finalises (urls reference) metadata.digest turn :=
    fun error => Prog.earns_after (keeping_abortMultipart session) fun _ _ _ => Prog.earns_raise error
  refine Prog.earns_after (holding_stateOf session) fun reference _ hr => ?_
  have hentry := hr reference rfl
  refine Prog.earns_after holding_readState fun state _ _ => ?_
  split
  · exact Prog.earns_raise _
  split
  · exact Prog.earns_raise _
  refine Prog.earns_after (hS.lift _) fun _ _ _ => ?_
  dsimp only
  split
  · exact habort _
  split
  · exact habort _
  refine Prog.earns_after (hS.lift _) fun immutability _ _ => Prog.earns_after (hS.lift _) fun retention _ _ => ?_
  refine Prog.Earns.finally_ (Prog.Earns.tryCatch ?_ (fun error => keeping_abandonMultipart error)
    fun error => abandonMultipart_returns reference error) (keeping_pop fun _ => hS.ret ())
  refine Prog.earns_after (hS.aside aside_acquire) fun _ _ _ => Prog.Earns.finally_ ?_ (hS.aside aside_release)
  refine (commitMultipart_earns laws reference state.input _ immutability retention).mono ?_
  intro outcome done h metadata heq
  obtain ⟨turn, hturn, hfinalises⟩ := h metadata heq
  exact ⟨turn, hturn, reference, hentry, hfinalises⟩

/-- What any call does that begins no session. -/
theorem call_earns {call : Call} (hcall : ∀ operation, call ≠ .beginMultipart operation) :
    (call.program P adapter).Relies setting.env who (Pinned urls entries) fun outcome done =>
      ∀ session parts, call = .completeMultipart session parts → ∀ answer, outcome = .ok answer →
        ∃ metadata, answer = .metadata metadata ∧ ∃ turn ∈ done, ∃ reference,
          entries session.sessionId = some reference ∧ Finalises (urls reference) metadata.digest turn := by
  have hS := @compositional_keeping P adapter setting urls entries ι who
  cases call with
  | beginMultipart operation => exact absurd rfl (hcall operation)
  | completeMultipart session parts =>
    refine Prog.Relies.bind (completeMultipart_earns laws session parts) (fun metadata front h => ?_) ?_
    · refine Prog.relies_ret ?_
      rintro _ _ ⟨⟩ _ ⟨⟩
      rw [List.append_nil]
      exact ⟨metadata, rfl, h metadata rfl⟩
    · rintro error front - _ _ - _ ⟨⟩
  | execute operation =>
    refine (hS.bind (keeping_execute operation) fun _ => hS.ret _).mono ?_
    rintro _ _ - _ _ ⟨⟩
  | uploadPart session partNumber payload =>
    refine (hS.bind (keeping_uploadPart laws session partNumber payload) fun _ => hS.ret _).mono ?_
    rintro _ _ - _ _ ⟨⟩
  | abortMultipart session =>
    refine (hS.bind (keeping_abortMultipart session) fun _ => hS.ret _).mono ?_
    rintro _ _ - _ _ ⟨⟩

end Completions

/-! ## At most one completion -/

/-- A URL that was issued and whose upload is gone. -/
def Registry.Spent {binding : OciDistributionBinding} {policy : Policy P binding} (registry : Registry policy)
    (url : String) : Prop :=
  registry.uploads[url]? = none ∧ ∃ n, n < registry.issued ∧ url = policy.uploadUrl n

/-- Blobs stay, and a URL that is spent stays spent. -/
structure Registry.Ages {binding : OciDistributionBinding} {policy : Policy P binding}
    (registry registry' : Registry policy) : Prop where
  blobs : ∀ (digest : String) (body : Bytes), registry.blobs[digest]? = some body →
    registry'.blobs[digest]? = some body
  spent : ∀ url, registry.Spent url → registry'.Spent url

section Ages

variable {binding : OciDistributionBinding} {policy : Policy P binding}

theorem Registry.Ages.refl (registry : Registry policy) : registry.Ages registry :=
  ⟨fun _ _ h => h, fun _ h => h⟩

theorem Registry.Ages.trans {a b c : Registry policy} (hab : a.Ages b) (hbc : b.Ages c) : a.Ages c :=
  ⟨fun digest body h => hbc.blobs digest body (hab.blobs digest body h),
    fun url h => hbc.spent url (hab.spent url h)⟩

theorem issued_respondUpload (registry : Registry policy) (request : Request) (url : String) (digest : Option String) :
    (respondUpload registry request url digest).2.issued = registry.issued := by
  have hset : ∀ content, (registry.setUpload url content).issued = registry.issued := by
    intro content
    unfold Registry.setUpload
    split <;> rfl
  unfold respondUpload
  cases registry.uploads[url]? with
  | none => rfl
  | some received =>
    dsimp only
    cases request.method with
    | patch =>
      dsimp only
      split
      · exact hset _
      · rfl
    | put =>
      dsimp only
      split
      · rfl
      · exact hset _
    | _ => rfl

theorem Registry.Spent.openUpload {registry : Registry policy} {url : String} (h : registry.Spent url) :
    registry.openUpload.Spent url := by
  obtain ⟨hgone, n, hn, rfl⟩ := h
  refine ⟨(Table.get?_insert ..).trans ?_, n, Nat.lt_succ_of_lt hn, rfl⟩
  rw [if_neg]
  · exact hgone
  · intro heq
    have hsame := policy.uploadUrl_injective heq
    omega

theorem Registry.Spent.respondUpload {registry : Registry policy} {url : String} (h : registry.Spent url)
    (request : Request) (other : String) (digest : Option String) :
    (respondUpload registry request other digest).2.Spent url := by
  by_cases hother : other = url
  · subst hother
    have hsame : (MeridianOci.Service.respondUpload registry request other digest).2 = registry := by
      unfold MeridianOci.Service.respondUpload
      rw [h.1]
    rw [hsame]
    exact h
  · refine ⟨?_, ?_⟩
    · rw [uploads_respondUpload registry request hother digest]
      exact h.1
    · rw [issued_respondUpload]
      exact h.2

theorem ages_apply (laws : P.Lawful) (w : World policy) (request : Request) :
    w.registry.Ages (w.apply request).registry := by
  by_cases hupload : Target.isUpload request.target = true
  · refine ⟨(w.silent_apply laws hupload).registry.blobs, fun url h => ?_⟩
    show (respond w.registry request).2.Spent url
    unfold respond
    cases htarget : request.target with
    | uploads =>
      dsimp only
      split
      · exact h.openUpload
      · exact h
    | upload other digest => exact h.respondUpload request other digest
    | _ =>
      rw [htarget] at hupload
      cases hupload
  · show w.registry.Ages (respond w.registry request).2
    unfold respond
    cases htarget : request.target with
    | uploads => rw [htarget] at hupload; exact absurd rfl hupload
    | upload url digest => rw [htarget] at hupload; exact absurd rfl hupload
    | manifest reference =>
      dsimp only
      unfold respondManifest
      repeat' split
      all_goals exact ⟨fun _ _ h => h, fun _ h => h⟩
    | blob digest => exact .refl _
    | base => dsimp only; split <;> exact .refl _
    | tags limit last => dsimp only; split <;> exact .refl _
    | referrers subjectDigest artifactType => dsimp only; split <;> exact .refl _

end Ages

section Once

/-- Whatever a call does, the registry ages. -/
theorem ages_env (laws : P.Lawful) {op : Op} {answer : Except Err op.Res} {w w' : World setting.policy}
    (h : setting.env op w answer w') : w.registry.Ages w'.registry := by
  cases op with
  | send request =>
    rcases h with ⟨-, rfl⟩ | ⟨-, -, rfl | rfl⟩
    · exact ages_apply laws w request
    · exact .refl _
    · exact ages_apply laws w request
  | register source length digest =>
    obtain ⟨id, -, rfl⟩ := h
    exact .refl _
  | clock =>
    rcases h with ⟨now, -, -, rfl⟩ | ⟨-, -, rfl⟩
    all_goals exact .refl _
  | memory update =>
    obtain ⟨-, rfl⟩ := h
    exact .refl _
  | openPayload payload chunkSize => rw [h.2]; exact .refl _
  | authorize => rw [h.2]; exact .refl _
  | token => rw [h.2]; exact .refl _
  | acquire => rw [h.2]; exact .refl _
  | release => rw [h.2]; exact .refl _

variable {ι : Type} {calls : ι → Call} {first last : World setting.policy} {rest : ι → Action Answer}
variable {log : List (Occurrence ι Op Op.Res Err (World setting.policy))}

theorem Finalises.spends {url digest : String} {turn : Occurrence ι Op Op.Res Err (World setting.policy)}
    (h : Finalises url digest turn) : ¬turn.before.registry.Spent url ∧ turn.after.registry.Spent url := by
  obtain ⟨received, hreceived, -, hafter⟩ := h
  refine ⟨fun hspent => ?_, ?_⟩
  · rw [hspent.1] at hreceived
    cases hreceived
  · rw [hafter]
    refine ⟨(Table.get?_erase ..).trans (if_pos rfl), ?_⟩
    exact turn.before.registry.uploads_issued url received hreceived

variable [DecidableEq ι] (laws : P.Lawful) {programs : ι → Action Answer}
variable (h : Turns (fun _ => setting.env) programs first rest last log)

include laws h

/-- What a turn finalised is in the registry from then on. -/
theorem finalised_stays {url digest : String} {turn : Occurrence ι Op Op.Res Err (World setting.policy)}
    (hturn : turn ∈ log) (hfinalises : Finalises url digest turn) :
    ∃ content, digest = sha256Digest P content ∧ last.registry.blobs[digest]? = some content := by
  have hages := h.reach_after (R := fun w w' => w.registry.Ages w'.registry) (fun w => .refl w.registry)
    (fun _ _ _ hab hbc => hab.trans hbc) (fun turn hmem => ages_env laws (h.answered turn hmem)) turn hturn
  obtain ⟨received, -, rfl, hafter⟩ := hfinalises
  refine ⟨received, rfl, hages.blobs _ received ?_⟩
  rw [hafter]
  exact (Table.get?_insert ..).trans (if_pos rfl)

/-- An upload is finalised by one turn. -/
theorem finalised_once {url : String} {turn other : Occurrence ι Op Op.Res Err (World setting.policy)}
    (hturn : turn ∈ log) (hother : other ∈ log) (hfinalises : ∃ digest, Finalises url digest turn)
    (hfinalises' : ∃ digest, Finalises url digest other) : turn = other := by
  refine Turns.sole (fun w => w.registry.Spent url) (fun turn => ∃ digest, Finalises url digest turn) h
    (fun turn hmem => (ages_env laws (h.answered turn hmem)).spent url) (fun turn _ hevent => ?_) hturn hother
    hfinalises hfinalises'
  obtain ⟨digest, hdigest⟩ := hevent
  exact hdigest.spends

omit h

/-- Calls of one adapter in any order, of which none begins a session: at most one completion of
a session returns, and the content it has returned metadata of is in the registry. -/
theorem one_completion_returns (hcalls : ∀ i operation, calls i ≠ .beginMultipart operation)
    (h : Turns (fun _ => setting.env) (fun i => (calls i).program P adapter) first rest last log) {i : ι}
    {session : MultipartSession} {parts : List MultipartPart} {answer : Answer}
    (hcall : calls i = .completeMultipart session parts) (hreturned : rest i = .ret answer) :
    (∃ metadata content, answer = .metadata metadata ∧ metadata.digest = sha256Digest P content ∧
      last.registry.blobs[metadata.digest]? = some content) ∧
    ∀ j session' parts' answer', calls j = .completeMultipart session' parts' →
      session'.sessionId = session.sessionId → rest j = .ret answer' → j = i := by
  let urls : Nat → String := fun reference => ((first.memory.heap[reference]?).map fun state => state.upload.url).getD ""
  have hfirst : Pinned urls first.memory.lookup first := by
    refine ⟨fun reference state hobject => ?_, fun _ _ hentry => hentry⟩
    show _ = ((first.memory.heap[reference]?).map fun state => state.upload.url).getD ""
    rw [hobject]
    rfl
  have hearns := h.relies hfirst fun i => call_earns laws (hcalls i)
  have hfinalised : ∀ j session' parts' answer', calls j = .completeMultipart session' parts' →
      rest j = .ret answer' → ∃ metadata, answer' = .metadata metadata ∧ ∃ turn ∈ log, turn.who = j ∧ ∃ reference,
        first.memory.lookup session'.sessionId = some reference ∧ Finalises (urls reference) metadata.digest turn := by
    intro j session' parts' answer' hcall' hreturned'
    obtain ⟨metadata, rfl, turn, hmem, hturn⟩ := hearns j (.ok answer') hreturned' session' parts' hcall' answer' rfl
    obtain ⟨hlog, hwho⟩ := List.mem_filter.mp hmem
    exact ⟨metadata, rfl, turn, hlog, by simpa using hwho, hturn⟩
  obtain ⟨metadata, rfl, turn, hturn, rfl, reference, hentry, hfinalises⟩ := hfinalised i session parts answer hcall hreturned
  obtain ⟨content, hdigest, hblob⟩ := finalised_stays laws h hturn hfinalises
  refine ⟨⟨metadata, content, rfl, hdigest, hblob⟩, fun j session' parts' answer' hcall' hsame hreturned' => ?_⟩
  obtain ⟨metadata', -, other, hother, rfl, reference', hentry', hfinalises'⟩ :=
    hfinalised j session' parts' answer' hcall' hreturned'
  rw [hsame, hentry] at hentry'
  obtain rfl := Option.some.inj hentry'
  exact congrArg Occurrence.who (finalised_once laws h hother hturn ⟨_, hfinalises'⟩ ⟨_, hfinalises⟩)

end Once

namespace Sample

open MeridianOci.Model.Sample

/-- The one part of a session. -/
def solePart : MultipartPart := ⟨1, identityOf platform firstPut.content, ""⟩

/-- A session whose upload has the content of its one part. -/
def gathered (limit : Nat) : World (Sample.setting limit False).policy :=
  let w : World (Sample.setting limit False).policy := World.empty _ (.aware 0)
  { w with
    registry := w.registry.openUpload.setUpload (uploadUrl 0) firstPut.content
    memory := w.memory.insert "u0" ⟨firstPut.input, ⟨uploadUrl 0, none, none, 1⟩, .uploading, firstPut.content,
      firstPut.content.length, 2, [solePart]⟩ }

theorem grows_gathered (limit : Nat) : (Registry.empty (Sample.setting limit False).policy).Grows (gathered limit).registry :=
  (show (Registry.empty (Sample.setting limit False).policy).Grows (Registry.empty _).openUpload from
    ⟨rfl, rfl, fun _ _ h => h⟩).trans (Registry.grows_setUpload _ _ _)

theorem gathered_upload (limit : Nat) : (gathered limit).registry.uploads[uploadUrl 0]? = some firstPut.content := by
  have hopen : ((Registry.empty (Sample.setting limit False).policy).openUpload.uploads[uploadUrl 0]?).isSome :=
    congrArg Option.isSome ((Table.get?_insert _ _ _ _).trans (if_pos rfl))
  show ((Registry.empty (Sample.setting limit False).policy).openUpload.setUpload (uploadUrl 0)
    firstPut.content).uploads[uploadUrl 0]? = _
  unfold Registry.setUpload
  rw [dif_pos hopen]
  exact (Table.get?_insert _ _ _ _).trans (if_pos rfl)

def handleAt (limit : Nat) : MultipartSession :=
  ⟨"u0", (Sample.adapter limit).objectReferenceOf firstPut.input, (binding limit).chunkSize, ""⟩

/-- The session can be completed. -/
theorem performs_gathered : ∃ limit metadata w, Performs (Sample.setting limit False).env
    ((Call.completeMultipart (handleAt limit) [solePart]).program platform (Sample.adapter limit)) (gathered limit)
    (.ok (.metadata metadata)) w := by
  obtain ⟨limit, hfits⟩ := firstPut.exists_fits (by decide)
  have hfree : ∀ tag, (gathered limit).registry.tagged tag = none := fun tag =>
    ((grows_gathered limit).tagged).trans (@empty_tagged limit False (.aware 0) tag)
  have havailable : Available (gathered limit).registry firstPut.objectId firstPut.immutabilityRequest
      (firstPut.createOnly || firstPut.immutabilityRequest.publishOnce) := fun _ => hfree _
  have hintact : Intact (gathered limit).registry := (Move.quiet _ _ (grows_gathered limit)).intact lawful intact_empty
  have hcompletion : platform.multipartCompletion [solePart] (identityOf platform firstPut.content) = .ok () := by
    have hplatform : platform.multipartCompletion = multipartCompletion := rfl
    simp [hplatform, multipartCompletion, solePart]
  obtain ⟨metadata, w, hcomplete⟩ := @completeMultipart_performs _ (Sample.adapter limit)
    (Sample.setting limit False) (gathered limit) lawful id (responsive limit False) (handleAt limit) _ _ _ _
    (live_insert ⟨[], []⟩ "u0" _) rfl ⟨rfl, rfl⟩ rfl hcompletion
    ⟨fun _ h => (by cases h), fun _ h => (by cases h)⟩ immutabilityOf_input retentionOf_input havailable
    (gathered_upload limit) fun _ hfinished =>
      performs_commit_finished hfits hintact havailable (unblocked_of_untagged hfree) hfinished
  exact ⟨limit, metadata, w, hcomplete.bind (.ret _ _)⟩

/-- Two completions of one session, of which one runs to its end first. -/
theorem one_completion_returns_first : ∃ limit, ∃ (rest : Bool → Action Answer)
    (last : World (Sample.setting limit False).policy),
    (∃ metadata content, rest true = .ret (.metadata metadata) ∧ metadata.digest = sha256Digest platform content ∧
      last.registry.blobs[metadata.digest]? = some content) ∧
    ∀ j answer, rest j = .ret answer → j = true := by
  obtain ⟨limit, metadata, last, hperforms⟩ := performs_gathered
  let calls : Bool → Call := fun _ => .completeMultipart (handleAt limit) [solePart]
  have hstart : Turns (fun _ => (Sample.setting limit False).env)
      (fun i => (calls i).program platform (Sample.adapter limit)) (gathered limit) _ _ [] := .start
  obtain ⟨more, hturns, -⟩ := hstart.performs (i := true) hperforms
  obtain ⟨⟨metadata', content, heq, hdigest, hblob⟩, hsole⟩ := one_completion_returns lawful
    (fun i operation heq => by cases heq) hturns (i := true) rfl (Function.update_self ..)
  obtain rfl := Answer.metadata.inj heq
  exact ⟨limit, _, last, ⟨metadata, content, Function.update_self .., hdigest, hblob⟩,
    fun j answer hanswer => hsole j (handleAt limit) [solePart] answer rfl rfl hanswer⟩

end Sample

end MeridianOci.Service
