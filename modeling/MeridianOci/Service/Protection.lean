import MeridianOci.Effect.Assuming
import MeridianOci.Service.Addresses
import MeridianOci.Service.Desk
import MeridianOci.Service.Factory

/-!
# Deployments with TLS

An adapter that is deployed with TLS sends every request to an `https` URL first: its own URLs are
those of its endpoint, and an upload whose URL is not is refused before it is kept. Calls may take
turns in any order and registries may answer anything. The credentials go to the bound origin only.
-/
namespace MeridianOci.Service

open MeridianOci.Data MeridianOci.Effect MeridianOci.Model

set_option autoImplicit false

variable {P : Platform}

/-- A URL that is read as one of `https`. -/
def Https (P : Platform) (url : String) : Prop := ∃ parsed, splitUrl P url = .ok parsed ∧ parsed.scheme = "https"

/-- Where an adapter sends its requests: to `https` URLs, if that is what its uploads have. -/
structure Encrypted (P : Platform) (adapter : OciDistributionAdapter) (toUrl : Target → String) : Prop where
  binding : adapter.transport.binding.allowInsecureHttp = false
  repository : ∀ target, (∀ url digest, target ≠ .upload url digest) → Https P (toUrl target)
  upload : ∀ url digest, Https P url → Https P (toUrl (.upload url digest))

/-- Every upload that is kept has an `https` URL. -/
def EncryptedUploads (P : Platform) (memory : Memory) : Prop := ∀ state ∈ memory.heap, Https P state.upload.url

/-- Memory that was read has only such uploads. -/
def Recalled (P : Platform) : (op : Op) → Except Err op.Res → Prop
  | .memory _, .ok memory => EncryptedUploads P memory
  | _, _ => True

/-- A request is sent to an `https` URL, and an update of memory keeps the uploads that have one. -/
def Op.Safe (P : Platform) (toUrl : Target → String) : Op → Prop
  | .send request => Https P (toUrl request.target)
  | .memory update => ∀ memory, EncryptedUploads P memory → EncryptedUploads P (update memory)
  | _ => True

/-- A program that is safe as long as the memory is, with what it returns. -/
def Safely (P : Platform) (toUrl : Target → String) {α : Type} (program : Action α) (R : α → Prop) : Prop :=
  program.Assuming (Recalled P) (Op.Safe P toUrl) R

variable {adapter : OciDistributionAdapter} {toUrl : Target → String}

/-! ## The client -/

section Client

variable (h : Encrypted P adapter toUrl)

include h

theorem safe_aside {op : Op} (hop : Op.Aside op) : Op.Safe P toUrl op := by
  cases op with
  | send request =>
    refine h.repository request.target fun url digest htarget => ?_
    have hfalse := hop.1 request rfl
    rw [htarget] at hfalse
    cases hfalse
  | memory update => exact absurd rfl (hop.2 update)
  | _ => trivial

theorem compositional_safely : Compositional fun _ program => Safely P toUrl program fun _ => True where
  aside haside := (haside.mono fun _ hop => safe_aside h hop).assuming (Prog.returns_trivial _)
  handle hprogram hnext := hprogram.handle (fun value _ => hnext (.ok value)) fun error => hnext (.error error)

omit h

theorem safe_request (client : RegistryHttpClient) {request : Request} (hrequest : Https P (toUrl request.target))
    (expected : List Nat) (retry : Bool) (maximumBytes : Nat) :
    (client.request P request expected retry maximumBytes).Uses (Op.Safe P toUrl) := by
  refine (uses_request client request expected retry maximumBytes).mono ?_
  rintro _ rfl
  exact hrequest

theorem safe_lift {α : Type} (outcome : Except Err α) : (Action.lift outcome).Uses (Op.Safe P toUrl) :=
  Prog.uses_ofExcept outcome

include h

theorem https_of_secure {url : String} (hsecure : Secure P adapter.transport.binding url) : Https P url := by
  obtain ⟨parsed, hparsed, hscheme | ⟨-, hallowed⟩⟩ := hsecure
  · exact ⟨parsed, hparsed, hscheme⟩
  · rw [allowedHttp, h.binding] at hallowed
    cases hallowed

theorem safely_startUpload : Safely P toUrl (adapter.transport.startUpload P) fun upload => Https P upload.url := by
  refine Prog.Uses.assuming ?_ (secure_startUpload.mono fun upload hsecure => https_of_secure h hsecure)
  refine (safe_request _ (h.repository .uploads (by rintro _ _ ⟨⟩)) _ _ _).bind fun response => ?_
  refine (safe_lift _).bind fun url => ?_
  dsimp only
  repeat' split
  all_goals trivial

theorem safely_patchUpload {upload : UploadLocation} (hupload : Https P upload.url) (chunk : Bytes) :
    Safely P toUrl (adapter.transport.patchUpload P upload chunk) fun upload => Https P upload.url := by
  refine Prog.Uses.assuming ?_ ((secure_patchUpload upload chunk).mono fun upload hsecure => https_of_secure h hsecure)
  unfold RegistryHttpClient.patchUpload
  split
  · trivial
  refine (safe_request _ (h.upload _ _ hupload) _ _ _).bind fun response => ?_
  split
  · trivial
  · exact (safe_lift _).bind fun url => trivial

theorem safely_finishUpload {upload : UploadLocation} (hupload : Https P upload.url) (digest : String) :
    Safely P toUrl (adapter.transport.finishUpload P upload digest) fun _ => True := by
  refine Prog.Uses.assuming ?_ (Prog.returns_trivial _)
  refine (safe_request _ (h.upload _ _ hupload) _ _ _).bind fun response => ?_
  split
  · trivial
  · exact safe_lift _

theorem safely_abortSafely {upload : UploadLocation} (hupload : Https P upload.url) :
    Safely P toUrl (adapter.transport.abortSafely P upload) fun _ => True := by
  refine Prog.Uses.assuming ?_ (Prog.returns_trivial _)
  refine Prog.Uses.handle ?_ fun _ => trivial
  exact (safe_request _ (h.upload _ none hupload) _ _ _).bind fun _ => trivial

theorem safely_uploadBlobBytes (value : Bytes) (mediaType : String) :
    Safely P toUrl (adapter.transport.uploadBlobBytes P value mediaType) fun _ => True := by
  have hS := compositional_safely h
  unfold RegistryHttpClient.uploadBlobBytes
  dsimp only
  refine hS.bind (hS.aside (aside_headBlob P adapter _)) fun existing => ?_
  cases existing with
  | some existing =>
    dsimp only
    split
    · exact hS.raise _
    · exact hS.lift _
  | none =>
    refine (safely_startUpload h).bind fun upload hupload => hS.bind (hS.handle ?_ fun outcome => ?_) fun _ => hS.lift _
    · refine Prog.Uses.assuming ?_ (Prog.returns_trivial _)
      refine (safe_request _ (h.upload _ _ hupload) _ _ _).bind fun response => ?_
      split <;> trivial
    · cases outcome with
      | ok value => exact hS.ret value
      | error error => exact hS.bind (safely_abortSafely h hupload) fun _ => hS.raise error

end Client

/-! ## Payloads -/

section Payload

variable (h : Encrypted P adapter toUrl)

include h

theorem safely_abandon {α : Type} {upload : Option UploadLocation} (hupload : ∀ location ∈ upload, Https P location.url)
    (error : Err) (R : α → Prop) : Safely P toUrl (adapter.abandon P upload error : Action α) R := by
  cases upload with
  | none => trivial
  | some location => exact (safely_abortSafely h (hupload location rfl)).bind fun _ _ => trivial

theorem safely_orAbandon {α : Type} {upload : Option UploadLocation} (hupload : ∀ location ∈ upload, Https P location.url)
    {action : Action α} {R : α → Prop} (haction : Safely P toUrl action R) :
    Safely P toUrl (adapter.orAbandon P upload action) R :=
  haction.tryCatch fun error => safely_abandon h hupload error R

theorem safely_sendChunks (payload : PayloadReference) (chunks : List Bytes) {upload : Option UploadLocation}
    (hupload : ∀ location ∈ upload, Https P location.url) (hashed : Bytes) (length : Nat) :
    Safely P toUrl (adapter.sendChunks P payload chunks upload hashed length) fun sent =>
      ∀ location ∈ sent.1, Https P location.url := by
  induction chunks generalizing upload hashed length with
  | nil => exact hupload
  | cons chunk rest ih =>
    unfold OciDistributionAdapter.sendChunks
    dsimp only
    split
    · exact safely_abandon h hupload _ _
    split
    · exact safely_abandon h hupload _ _
    cases upload with
    | none => exact ih hupload _ _
    | some location =>
      refine (safely_orAbandon h hupload (safely_patchUpload h (hupload location rfl) chunk)).bind fun next hnext => ?_
      refine ih ?_ _ _
      rintro _ ⟨⟩
      exact hnext

theorem safely_transferTo (payload : PayloadReference) (existing : Option (OciDescriptor P))
    {upload : Option UploadLocation} (hupload : ∀ location ∈ upload, Https P location.url) :
    Safely P toUrl (adapter.transferTo P payload existing upload) fun _ => True := by
  have hS := compositional_safely h
  refine hS.bind (safely_orAbandon h hupload (hS.aside (aside_openPayload _ _))) fun stream => ?_
  refine (safely_sendChunks h payload stream.chunks hupload [] 0).bind fun sent hsent => ?_
  obtain ⟨upload, hashed, length⟩ := sent
  dsimp only at hsent ⊢
  split
  · exact safely_abandon h hsent _ _
  refine hS.bind (safely_orAbandon h hsent (hS.lift _)) fun _ => ?_
  split
  · split
    · exact safely_abandon h hsent _ _
    · exact hS.ret _
  · rename_i location
    exact hS.bind (safely_orAbandon h hsent (safely_finishUpload h (hsent location rfl) _)) fun _ => hS.ret _
  · exact hS.raise _

theorem safely_uploadPayload (payload : PayloadReference) :
    Safely P toUrl (adapter.uploadPayload P payload) fun _ => True := by
  have hS := compositional_safely h
  have htransfer : ∀ existing, Safely P toUrl (adapter.transfer P payload existing) fun _ => True := by
    intro existing
    cases existing with
    | some existing => exact safely_transferTo h payload (some existing) (by rintro _ ⟨⟩)
    | none =>
      refine (safely_startUpload h).bind fun upload hupload => safely_transferTo h payload none ?_
      rintro _ ⟨⟩
      exact hupload
  exact hS.uploadAttempt htransfer _

end Payload

/-! ## Sessions -/

section Sessions

theorem EncryptedUploads.modify {memory : Memory} (hmemory : EncryptedUploads P memory) (reference : Nat)
    {update : MultipartState → MultipartState}
    (hupdate : ∀ state, Https P state.upload.url → Https P (update state).upload.url) :
    EncryptedUploads P (memory.modify reference update) := by
  intro state hstate
  obtain ⟨other, hother⟩ := List.mem_iff_getElem?.mp hstate
  rw [get?_modify] at hother
  split at hother
  · obtain ⟨before, hbefore, rfl⟩ := Option.map_eq_some_iff.mp hother
    exact hupdate before (hmemory before (List.mem_of_getElem? hbefore))
  · exact hmemory state (List.mem_of_getElem? hother)

theorem safely_memory {α : Type} {update : Memory → Memory} {next : Memory → Action α} {R : α → Prop}
    (hupdate : ∀ memory, EncryptedUploads P memory → EncryptedUploads P (update memory))
    (hnext : ∀ memory, EncryptedUploads P memory → Safely P toUrl (next memory) R) :
    Safely P toUrl (Action.memory update >>= next) R := by
  refine ⟨hupdate, fun answer hanswer => ?_⟩
  cases answer with
  | error error => trivial
  | ok memory => exact hnext memory hanswer

variable {reference : Nat}

theorem safely_readState :
    Safely P toUrl (OciDistributionAdapter.readState reference) fun state => Https P state.upload.url := by
  refine safely_memory (fun _ hmemory => hmemory) fun memory hmemory => ?_
  cases hobject : memory.heap[reference]? with
  | none => trivial
  | some state => exact hmemory state (List.mem_of_getElem? hobject)

theorem safely_updateState {update : MultipartState → MultipartState}
    (hupdate : ∀ state, Https P state.upload.url → Https P (update state).upload.url) :
    Safely P toUrl (OciDistributionAdapter.updateState reference update) fun state => Https P state.upload.url := by
  refine safely_memory (fun _ hmemory => hmemory.modify reference hupdate) fun memory hmemory => ?_
  cases hobject : memory.heap[reference]? with
  | none => trivial
  | some state => exact hmemory state (List.mem_of_getElem? hobject)

theorem safely_transitionState (target : PutState) :
    Safely P toUrl (OciDistributionAdapter.transitionState P reference target) fun _ => True := by
  refine (safely_updateState fun state hstate => ?_).bind fun state _ =>
    ((safe_lift _).assuming (Prog.returns_trivial _)).bind fun _ _ => trivial
  split <;> exact hstate

theorem safely_failState (physicalCommit : Bool) :
    Safely P toUrl (OciDistributionAdapter.failState P reference physicalCommit) fun _ => True := by
  refine (safely_updateState fun state hstate => ?_).bind fun state _ =>
    ((safe_lift _).assuming (Prog.returns_trivial _)).bind fun _ _ => trivial
  split <;> exact hstate

theorem safely_token : Safely P toUrl Action.token fun _ => True :=
  Prog.Uses.assuming (Prog.uses_perform trivial) (Prog.returns_trivial _)

theorem safely_locked {α : Type} {action : Action α} {R : α → Prop} (haction : Safely P toUrl action R) :
    Safely P toUrl (Action.locked action) R := by
  have hacquire : Safely P toUrl Action.acquire fun _ => True :=
    Prog.Uses.assuming (Prog.uses_perform trivial) (Prog.returns_trivial _)
  have hrelease : Safely P toUrl Action.release fun _ => True :=
    Prog.Uses.assuming (Prog.uses_perform trivial) (Prog.returns_trivial _)
  exact hacquire.bind fun _ _ => haction.finally_ hrelease

theorem safely_stateOf (session : MultipartSession) : Safely P toUrl (adapter.stateOf session) fun _ => True := by
  refine safely_memory (fun _ hmemory => hmemory) fun memory _ => ?_
  cases memory.lookup session.sessionId with
  | none => trivial
  | some reference =>
    dsimp only
    repeat' split
    all_goals trivial

variable (h : Encrypted P adapter toUrl)

include h

theorem safely_beginMultipart (operation : Operation) :
    Safely P toUrl (adapter.beginMultipart P operation) fun _ => True := by
  have hS := compositional_safely h
  refine hS.bind (hS.lift _) fun method => ?_
  split
  · exact hS.raise _
  refine hS.bind (hS.lift _) fun _ => ?_
  split
  · rename_i value _
    refine hS.bind (hS.lift _) fun immutability => ?_
    have hstart : Safely P toUrl (do
        adapter.requireCreateAvailable P value.objectId immutability (value.createOnly || immutability.publishOnce)
        adapter.transport.startUpload P) fun upload => Https P upload.url :=
      Prog.Assuming.bind (hS.aside (aside_requireCreateAvailable P adapter _ _ _)) fun _ _ => safely_startUpload h
    refine (safely_locked hstart).bind fun upload hupload => hS.bind (hS.lift _) fun machine => ?_
    refine Prog.Assuming.bind safely_token fun token _ => hS.bind (hS.aside aside_now) fun createdAt => ?_
    refine hS.bind (hS.lift _) fun session => ?_
    refine safely_memory (fun memory hmemory state hstate => ?_) fun _ _ => trivial
    rcases List.mem_append.mp hstate with hstate | hstate
    · exact hmemory state hstate
    · rw [List.mem_singleton.mp hstate]
      exact hupload
  · exact hS.raise _

theorem safely_abortMultipart (session : MultipartSession) :
    Safely P toUrl (adapter.abortMultipart P session) fun _ => True := by
  have hS := compositional_safely h
  refine safely_memory (fun _ hmemory => hmemory) fun memory _ => ?_
  split
  · exact hS.ret _
  refine safely_readState.bind fun state hstate => hS.bind (safely_abortSafely h hstate) fun _ => ?_
  refine safely_readState.bind fun state' _ => ?_
  split
  · exact safely_transitionState .aborted
  · exact hS.ret _

theorem safely_sendChunk (chunk : Bytes) : Safely P toUrl (adapter.sendChunk P reference chunk) fun _ => True := by
  refine Prog.Assuming.bind (safely_updateState ?_) fun state hstate => ?_
  · exact fun _ hstate => hstate
  refine (safely_patchUpload h hstate chunk).bind fun upload hupload => ?_
  refine Prog.Assuming.bind (safely_updateState ?_) fun _ _ => trivial
  exact fun _ _ => hupload

theorem safely_sendPart (session : MultipartSession) (chunks : List Bytes) (hashed : Bytes) (length : Nat) :
    Safely P toUrl (adapter.sendPart P session reference chunks hashed length) fun _ => True := by
  induction chunks generalizing hashed length with
  | nil => trivial
  | cons chunk rest ih =>
    unfold OciDistributionAdapter.sendPart
    dsimp only
    split
    · trivial
    refine safely_readState.bind fun state _ => ?_
    split
    · trivial
    · exact (safely_sendChunk h chunk).bind fun _ _ => ih _ _

theorem safely_uploadPart (session : MultipartSession) (partNumber : Nat) (payload : PayloadReference) :
    Safely P toUrl (adapter.uploadPart P session partNumber payload) fun _ => True := by
  have hS := compositional_safely h
  refine (safely_stateOf session).bind fun reference _ => safely_readState.bind fun state _ => ?_
  split
  · exact hS.raise _
  split
  · exact hS.raise _
  refine hS.bind (hS.handle ?_ fun outcome => ?_) fun identity => ?_
  · refine hS.bind (hS.aside (aside_openPayload _ _)) fun stream => ?_
    refine hS.bind (safely_sendPart h session stream.chunks [] 0) fun result => ?_
    dsimp only
    split
    · exact hS.raise _
    split
    · exact hS.raise _
    · exact hS.bind (hS.lift _) fun _ => hS.ret _
  · cases outcome with
    | ok identity => exact hS.ret _
    | error error => exact hS.bind (safely_abortMultipart h session) fun _ => hS.raise error
  · refine Prog.Assuming.bind (safely_updateState ?_) fun _ _ => hS.ret _
    exact fun _ hstate => hstate

theorem safely_completeMultipart (session : MultipartSession) (supplied : List MultipartPart) :
    Safely P toUrl (adapter.completeMultipart P session supplied) fun _ => True := by
  have hS := compositional_safely h
  have habort : ∀ error : Err, Safely P toUrl (do adapter.abortMultipart P session; throw error : Action ObjectMetadata)
      fun _ => True := fun error => hS.bind (safely_abortMultipart h session) fun _ => hS.raise error
  refine (safely_stateOf session).bind fun reference _ => safely_readState.bind fun state _ => ?_
  split
  · exact hS.raise _
  split
  · exact hS.raise _
  refine hS.bind (hS.lift _) fun _ => ?_
  dsimp only
  split
  · exact habort _
  split
  · exact habort _
  refine hS.bind (hS.lift _) fun immutability => hS.bind (hS.lift _) fun retention => ?_
  refine hS.finally_ (hS.handle (hS.locked ?_) fun outcome => ?_) (safely_memory (fun _ hmemory => hmemory) fun _ _ => trivial)
  · refine hS.bind (hS.aside (aside_requireCreateAvailable P adapter _ _ _)) fun _ => ?_
    refine safely_readState.bind fun state hstate => hS.bind (safely_finishUpload h hstate _) fun _ => ?_
    refine hS.bind (safely_transitionState .verifying) fun _ => ?_
    refine hS.bind ((hS.sequential P).commitObject (safely_uploadBlobBytes h) _ _ _ _ _) fun metadata => ?_
    exact hS.bind (safely_transitionState .committed) fun _ => hS.ret _
  · cases outcome with
    | ok metadata => exact hS.ret _
    | error error =>
      refine safely_readState.bind fun state hstate => ?_
      split
      · refine hS.bind (safely_abortSafely h hstate) fun _ => ?_
        exact hS.bind (safely_failState false) fun _ => hS.raise error
      split
      · exact hS.bind (safely_failState true) fun _ => hS.raise error
      · exact hS.raise error

/-- Every call is safe. -/
theorem safely_call (call : Call) : Safely P toUrl (call.program P adapter) fun _ => True := by
  have hS := compositional_safely h
  cases call with
  | execute operation =>
    refine hS.bind ?_ fun _ => hS.ret _
    exact (hS.sequential P).execute (safely_uploadBlobBytes h) (safely_uploadPayload h) operation
  | beginMultipart operation => exact hS.bind (safely_beginMultipart h operation) fun _ => hS.ret _
  | uploadPart session partNumber payload => exact hS.bind (safely_uploadPart h session partNumber payload) fun _ => hS.ret _
  | completeMultipart session parts => exact hS.bind (safely_completeMultipart h session parts) fun _ => hS.ret _
  | abortMultipart session => exact hS.bind (safely_abortMultipart h session) fun _ => hS.ret _

end Sessions

/-! ## Deployments -/

section Deployments

variable {rules : ConfigRules} {withParams : String → List (String × String) → String}

/-- URLs are taken apart as `urllib` does it, and a URL that `httpx` adds parameters to keeps its scheme. -/
structure Wired (P : Platform) (rules : ConfigRules) (withParams : String → List (String × String) → String) : Prop where
  urlsplit : ∀ url, P.urlsplit url = (Url.urlsplit rules.url url.toList).map (splitUrlOf rules.url)
  params : ∀ url params, Https P url → Https P (withParams url params)
  merged : ∀ url digest result, P.mergeDigest url digest = some result → Https P url → Https P result

theorem https_routeUrl (wired : Wired P rules withParams) {config : BoundConfig rules}
    (hallow : config.binding.allowInsecureHttp = false) (route : Route) :
    Https P (String.ofList (config.routeUrl route)) := by
  have hscheme : config.endpoint.scheme = "https".toList := by
    refine config.endpoint.scheme_allowed.resolve_right fun hhttp => ?_
    cases hallow.symm.trans hhttp.2
  have hsplit := wired.urlsplit (String.ofList (config.routeUrl route))
  rw [String.toList_ofList, urlsplit_routeUrl, hscheme] at hsplit
  exact ⟨_, by rw [splitUrl, hsplit]; rfl, rfl⟩

theorem encrypted_config (wired : Wired P rules withParams) {config : BoundConfig rules}
    (hallow : config.binding.allowInsecureHttp = false) : Encrypted P config.adapter (config.targetUrl P withParams) where
  binding := hallow
  repository target htarget := by
    have hroute := https_routeUrl wired hallow
    cases target with
    | base => exact hroute .base
    | uploads => exact hroute .uploads
    | upload url digest => exact absurd rfl (htarget url digest)
    | blob digest => exact hroute (.blob digest)
    | manifest reference => exact hroute (.manifest reference)
    | tags limit last => exact wired.params _ _ (hroute .tags)
    | referrers subjectDigest artifactType => exact wired.params _ _ (hroute (.referrers subjectDigest))
  upload url digest hurl := by
    cases digest with
    | none => exact hurl
    | some digest =>
      rw [BoundConfig.targetUrl]
      cases hmerged : P.mergeDigest url digest with
      | none => exact hurl
      | some merged => exact wired.merged url digest merged hmerged hurl

theorem mem_setHeader {fields : Headers} {entry : String × String} {name value : String} (hname : entry.1 ≠ name)
    (h : (name, value) ∈ BoundConfig.setHeader fields entry) : (name, value) ∈ fields := by
  unfold BoundConfig.setHeader at h
  split at h
  · obtain ⟨field, hfield, heq⟩ := List.mem_map.mp h
    split at heq
    · rw [heq] at hname
      exact absurd rfl hname
    · rw [← heq]
      exact hfield
  · rcases List.mem_append.mp h with h | h
    · exact h
    · rw [← List.mem_singleton.mp h] at hname
      exact absurd rfl hname

theorem authorization_commonHeaders {authorization : Option String} {value : String}
    (h : ("Authorization", value) ∈ BoundConfig.commonHeaders authorization) : authorization = some value := by
  cases authorization with
  | none => simp [BoundConfig.commonHeaders] at h
  | some header =>
    have hheaders : BoundConfig.commonHeaders (some header) =
        [("User-Agent", "meridian-storage-oci/1.0.0"), ("Accept", "application/json"), ("Authorization", header)] := rfl
    rw [hheaders] at h
    simp only [List.mem_cons, Prod.mk.injEq, List.not_mem_nil, or_false] at h
    rcases h with h | h | h
    · exact absurd h.1 (by decide)
    · exact absurd h.1 (by decide)
    · rw [h.2]

/-- A request carries the credentials on the bound origin only. -/
theorem authorization_bound (config : BoundConfig rules) {resolved : Except Err Json} {url value : String}
    {additional fields : Headers} (hadditional : ∀ entry ∈ additional, entry.1 ≠ "Authorization")
    (hfields : config.headers P resolved url additional = .ok fields) (hmem : ("Authorization", value) ∈ fields) :
    origin P url = origin P config.binding.endpoint ∧ config.credentials.authorizationHeader resolved = .ok (some value) := by
  unfold BoundConfig.headers at hfields
  obtain ⟨requested, hrequested, hfields⟩ := of_bind_ok hfields
  obtain ⟨bound, hbound, hfields⟩ := of_bind_ok hfields
  obtain ⟨authorization, hauthorization, hfields⟩ := of_bind_ok hfields
  obtain rfl := Except.ok.inj hfields
  have hbase : ∀ (entries : Headers) (base : Headers), (∀ entry ∈ entries, entry.1 ≠ "Authorization") →
      ("Authorization", value) ∈ entries.foldl BoundConfig.setHeader base → ("Authorization", value) ∈ base := by
    intro entries
    induction entries with
    | nil => exact fun base _ h => h
    | cons entry rest ih =>
      intro base hentries h
      have hrest := ih _ (fun other hother => hentries other (List.mem_cons_of_mem _ hother)) h
      exact mem_setHeader (hentries entry List.mem_cons_self) hrest
  have hown := hbase additional _ hadditional hmem
  split at hauthorization
  · rename_i hsame
    refine ⟨by rw [hrequested, hbound, hsame], ?_⟩
    rw [hauthorization, authorization_commonHeaders hown]
  · obtain rfl := Except.ok.inj hauthorization
    cases authorization_commonHeaders hown

variable {ι : Type} [DecidableEq ι]

/-- In a deployment with TLS certificates are verified, and whatever is called in whatever order and answered in any
way, every request goes to an `https` URL first, and the client adds its credentials only if that is on the bound
origin. -/
theorem deployment_encrypted (wired : Wired P rules withParams) {context : AdapterCreateContext} {fresh : Bytes}
    {config : BoundConfig rules} {ca : Option Bytes} (hcreate : createConfig rules fresh (some context) = .ok (config, ca))
    (hmode : context.binding.tlsMode ≠ "disabled") {caPath : Option String} {opened : BoundConfig rules}
    (hopen : config.opened fresh caPath = .ok opened) {calls : ι → Call} {rest : ι → Action Answer} {last : Desk}
    {log : List (Occurrence ι Op Op.Res Err Desk)}
    (h : Turns (fun _ => Desk.env P) (fun i => (calls i).program P opened.adapter) Desk.empty rest last log) :
    opened.verifyTls ≠ .flag false ∧ ∀ turn ∈ log, ∀ request, turn.exchange.1 = .send request →
      Https P (opened.targetUrl P withParams request.target) ∧ ∀ resolved additional fields value,
        (∀ entry ∈ additional, entry.1 ≠ "Authorization") →
        opened.headers P resolved (opened.targetUrl P withParams request.target) additional = .ok fields →
        ("Authorization", value) ∈ fields →
          origin P (opened.targetUrl P withParams request.target) = origin P opened.binding.endpoint ∧
            config.credentials.authorizationHeader resolved = .ok (some value) := by
  obtain ⟨endpoint, parsed, hrealises⟩ := realises_of_create hcreate
  obtain ⟨hallow, hcredentials, hverify⟩ := opened_keeps hopen
  have hsecure : opened.binding.allowInsecureHttp = false := by
    rw [hallow, hrealises.allowHttp]
    exact decide_eq_false hmode
  refine ⟨fun hflag => ?_, fun turn hmem request hrequest => ?_⟩
  · have hplain := hverify hflag
    rw [hrealises.verifyTls] at hplain
    have htrue : decide (context.binding.tlsMode ≠ "disabled") = true := decide_eq_true hmode
    rw [htrue] at hplain
    cases hplain
  · have hencrypted := encrypted_config wired hsecure
    have hstep : ∀ (op : Op) (desk : Desk) (answer : Except Err op.Res) (desk' : Desk),
        Op.Safe P (opened.targetUrl P withParams) op → EncryptedUploads P desk.memory → Desk.env P op desk answer desk' →
          Recalled P op answer ∧ EncryptedUploads P desk'.memory := by
      intro op desk answer desk' hop hdesk henv
      cases op with
      | memory update =>
        obtain ⟨rfl, rfl⟩ := henv
        exact ⟨hdesk, hop desk.memory hdesk⟩
      | _ =>
        obtain rfl := Desk.env_other henv (by rintro update ⟨⟩)
        exact ⟨trivial, hdesk⟩
    obtain ⟨-, hlog⟩ := h.assuming (I := fun desk => EncryptedUploads P desk.memory) (by rintro state ⟨⟩) hstep fun i =>
      safely_call hencrypted (calls i)
    have hsafe := hlog turn hmem
    rw [hrequest] at hsafe
    refine ⟨hsafe, fun resolved additional fields value hadditional hfields hvalue => ?_⟩
    rw [← hcredentials]
    exact authorization_bound opened hadditional hfields hvalue

end Deployments

namespace Sample

open MeridianOci.Model.Sample

/-- A platform that takes URLs apart as the binding does. -/
def wiredPlatform : Platform :=
  { platform with urlsplit := fun url => (Url.urlsplit configRules.url url.toList).map (splitUrlOf configRules.url) }

def unchanged (url : String) (_ : List (String × String)) : String := url

theorem wired_unchanged : Wired wiredPlatform configRules unchanged where
  urlsplit _ := rfl
  params _ _ h := h
  merged url digest result h hurl := by
    obtain rfl : url = result := Option.some.inj h
    exact hurl

def plainPut : Plain := { objectId := "a", text := "x" }

/-- A session begins with a request for an upload. -/
theorem begins {config : BoundConfig configRules} (h : config.binding.resourceRef = ⟨"object", "tenant", "bucket"⟩) :
    ∃ next, Call.program wiredPlatform config.adapter (.beginMultipart plainPut.operation) = .call .acquire next ∧
      ∃ next', next (.ok ()) = .call (.send .startUpload) next' := by
  have hvalid : config.adapter.validateOperation plainPut.operation = .ok "put" := by
    simp [OciDistributionAdapter.validateOperation, Plain.operation, operationVersion, availableOperationContracts,
      BoundConfig.adapter, h]
  rw [Call.program, OciDistributionAdapter.beginMultipart, hvalid]
  exact ⟨_, rfl, _, rfl⟩

/-- An upload that the registry keeps elsewhere. -/
def elsewhere : Response :=
  { status := 202, headers := [("location", "https://uploads.example/1")], url := "https://registry.example/v2/", chunks := [],
    failure := none }

/-- To the endpoint the client adds the credentials of the deployment. -/
theorem headers_created {config : BoundConfig configRules} {ca : Option Bytes}
    (hcreate : createConfig configRules drawnKey (some (deployment "first")) = .ok (config, ca)) : ∃ fields value,
      config.headers wiredPlatform (.ok .null) (config.targetUrl wiredPlatform unchanged Request.startUpload.target) [] =
        .ok fields ∧ ("Authorization", value) ∈ fields := by
  have hnames : (createConfig configRules drawnKey (some (deployment "first"))).toOption.bind (fun made =>
      (made.1.headers wiredPlatform (.ok .null) (made.1.targetUrl wiredPlatform unchanged Request.startUpload.target)
        []).toOption.map (·.map Prod.fst)) = some ["User-Agent", "Accept", "Authorization"] := by
    decide +kernel
  simp only [hcreate, Except.toOption, Option.bind_some] at hnames
  cases hfields : config.headers wiredPlatform (.ok .null)
      (config.targetUrl wiredPlatform unchanged Request.startUpload.target) [] with
  | error error =>
    rw [hfields] at hnames
    cases hnames
  | ok fields =>
    rw [hfields] at hnames
    have hnames : fields.map Prod.fst = ["User-Agent", "Accept", "Authorization"] := Option.some.inj hnames
    have hmem : "Authorization" ∈ fields.map Prod.fst := by
      rw [hnames]
      decide
    obtain ⟨⟨name, value⟩, hmem, rfl⟩ := List.mem_map.mp hmem
    exact ⟨fields, value, rfl, hmem⟩

/-- Two sessions begin at the same time, and the registry answers one of them. Both requests go to an `https` URL,
and with the credentials of the deployment. -/
theorem deployment_encrypted_two : ∃ config ca,
    createConfig configRules drawnKey (some (deployment "first")) = .ok (config, ca) ∧
      ∃ (rest : Bool → Action Answer) (last : Desk) (log : List (Occurrence Bool Op Op.Res Err Desk)),
        Turns (fun _ => Desk.env wiredPlatform)
          (fun _ => Call.program wiredPlatform config.adapter (.beginMultipart plainPut.operation)) Desk.empty rest last log ∧
        log.map (fun turn => (turn.who, turn.exchange)) =
          [(false, ⟨.acquire, .ok ()⟩), (true, ⟨.acquire, .ok ()⟩), (false, ⟨.send .startUpload, .ok elsewhere⟩),
            (true, ⟨.send .startUpload, .error { kind := .httpError }⟩)] ∧
        config.verifyTls ≠ .flag false ∧
        Https wiredPlatform (config.targetUrl wiredPlatform unchanged Request.startUpload.target) ∧
        ∃ fields value, config.headers wiredPlatform (.ok .null)
            (config.targetUrl wiredPlatform unchanged Request.startUpload.target) [] = .ok fields ∧
          ("Authorization", value) ∈ fields ∧ config.credentials.authorizationHeader (.ok .null) = .ok (some value) := by
  obtain ⟨config, ca, hcreate⟩ := exists_created
  obtain ⟨endpoint, parsed, hrealises⟩ := realises_of_create hcreate
  have hresource : config.binding.resourceRef = ⟨"object", "tenant", "bucket"⟩ :=
    (Except.ok.inj (hrealises.resource (.str "object:tenant.bucket") rfl)).symm
  obtain ⟨next, hnext, next', hnext'⟩ := begins hresource
  let calls : Bool → Call := fun _ => .beginMultipart plainPut.operation
  have hstart : Turns (fun _ => Desk.env wiredPlatform) (fun i => (calls i).program wiredPlatform config.adapter)
      Desk.empty _ _ [] := .start
  have hacquired : Desk.env wiredPlatform .acquire Desk.empty (.ok ()) Desk.empty := rfl
  have hfirst := hstart.turn _ _ _ _ false .acquire next (.ok ()) hnext hacquired
  have hsecond := hfirst.turn _ _ _ _ true .acquire next (.ok ())
    ((Function.update_of_ne (by decide) ..).trans hnext) hacquired
  -- the registry answers the first caller, and the other one loses its connection
  have hanswered : Desk.env wiredPlatform (.send .startUpload) Desk.empty (.ok elsewhere)
      ⟨⟨[], []⟩, [.opened none]⟩ := rfl
  have hthird := hsecond.turn _ _ _ _ false (.send .startUpload) next' (.ok elsewhere)
    ((Function.update_of_ne (by decide) ..).trans ((Function.update_self ..).trans hnext')) hanswered
  have hfailed : Desk.env wiredPlatform (.send .startUpload) ⟨⟨[], []⟩, [.opened none]⟩
      (.error { kind := .httpError }) ⟨⟨[], []⟩, [.opened none, .opened none]⟩ := rfl
  have hturns := hthird.turn _ _ _ _ true (.send .startUpload) next' (.error { kind := .httpError })
    ((Function.update_of_ne (by decide) ..).trans ((Function.update_self ..).trans hnext')) hfailed
  have hopen : config.opened drawnKey none = .ok config := rfl
  have hencrypted := deployment_encrypted wired_unchanged hcreate (by decide) hopen hturns
  obtain ⟨hhttps, hbound⟩ := hencrypted.2 _ (List.mem_append_right _ (List.mem_singleton.mpr rfl)) _ rfl
  obtain ⟨fields, value, hfields, hmem⟩ := headers_created hcreate
  refine ⟨config, ca, hcreate, _, _, _, hturns, rfl, hencrypted.1, hhttps, fields, value, hfields, hmem, ?_⟩
  exact (hbound _ _ fields value (by simp) hfields hmem).2

end Sample

end MeridianOci.Service
