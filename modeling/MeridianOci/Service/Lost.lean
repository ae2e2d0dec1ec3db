import MeridianOci.Effect.Trace
import MeridianOci.Service.Closure
import MeridianOci.Service.Desk

/-!
# Lost upload sessions

A registry that no longer knows an upload says so in the code of its error, under a status
of its choice. What the client makes of such an answer to a PATCH or to a finalising PUT
depends on whether it can read the code and on the status; unless the error is one that an
upload is tried again after, it ends the operation: nothing on the way catches it, and the
abort that follows cannot replace it.
-/
namespace MeridianOci.Service

open MeridianOci.Data MeridianOci.Effect MeridianOci.Model

set_option autoImplicit false

variable {P : Platform}

/-- A PATCH of an upload or its finalising PUT. -/
def Op.Transfers (op : Op) : Prop := ∃ request url digest, op = .send request ∧
  (request.method = .patch ∨ request.method = .put) ∧ request.target = .upload url digest

/-- The codes for an upload that a registry does not know. -/
def lostCodes : List String := ["BLOB_UPLOAD_UNKNOWN", "BLOB_UPLOAD_INVALID"]

/-- An answer with an error status other than 401, 403 and 429 whose body says that the upload is unknown
or invalid. -/
structure Loses (response : Response) : Prop where
  error : 400 ≤ response.status
  status : response.status ∉ [401, 403, 429]
  whole : response.failure = none
  code : errorCode (Json.loads response.chunks.flatten) ∈ lostCodes

/-- The statuses that name the error before its code does. -/
def overriding : List Nat := [404, 409, 413, 416, 507]

/-- The client reads the code, and the status names no other error: the answer comes from a safe URL, its body
is within the bound and, decoded by its headers once more, within the limits of `json` and still one with such a
code. -/
structure Legible (P : Platform) (client : RegistryHttpClient) (response : Response) : Prop where
  safe : requireSafeResponseUrl P client.binding response.url = .ok ()
  short : response.chunks.flatten.length ≤ defaultResponseBytes
  content : ∃ content, P.decodeContent response.headers response.chunks.flatten = some content ∧
    P.jsonLimit content = none ∧ errorCode (Json.loads content) ∈ lostCodes
  status : response.status ∉ overriding

/-- What a request that is sent once raises over an answer with an error status. -/
def refusal (P : Platform) (client : RegistryHttpClient) (response : Response) : Err :=
  match requireSafeResponseUrl P client.binding response.url with
  | .error error => error
  | .ok () =>
    match boundedResponse P response defaultResponseBytes with
    | .ok bounded => responseError P bounded
    | .error error =>
      if error.kind = .objectUnavailable then responseError P ⟨response.status, response.headers, []⟩
      else if error.kind = .httpError then .of .objectUnavailable "OCI registry request failed"
      else error

/-- A transfer was refused with an error after which nothing is tried again. -/
def Fatal (P : Platform) (client : RegistryHttpClient) (exchange : Exchange Op Op.Res Err) (error : Err) : Prop :=
  Op.Transfers exchange.1 ∧ ∃ request response, exchange = ⟨.send request, .ok response⟩ ∧ 400 ≤ response.status ∧
    error = refusal P client response ∧ error.kind ≠ .objectUnavailable ∧ error.kind ≠ .objectRateLimited

/-- Only an upload code under a status that does not decide makes an upload incomplete. -/
theorem statusError_incomplete (status : Nat) (code : String) : (statusError status code).kind = .incompleteUpload ↔
    code ∈ lostCodes ∧ status ∉ [401, 403, 429] ∧ status ∉ overriding := by
  by_cases hcode : code ∈ lostCodes
  · have hother : code ≠ "UNAUTHORIZED" ∧ code ≠ "DENIED" ∧ code ≠ "BLOB_UNKNOWN" ∧ code ≠ "MANIFEST_UNKNOWN" ∧
        code ≠ "NAME_UNKNOWN" ∧ code ≠ "TOOMANYREQUESTS" ∧ code ≠ "DIGEST_INVALID" := by
      rcases List.mem_cons.mp hcode with rfl | hcode
      · decide
      · obtain rfl := List.mem_singleton.mp hcode
        decide
    have hupload : code = "BLOB_UPLOAD_INVALID" ∨ code = "BLOB_UPLOAD_UNKNOWN" := by
      simpa [lostCodes, or_comm] using hcode
    obtain ⟨h₁, h₂, h₃, h₄, h₅, h₆, h₇⟩ := hother
    simp only [statusError, h₁, h₂, h₃, h₄, h₅, h₆, h₇, hupload, or_false, if_false, if_true, hcode, true_and, overriding,
      List.mem_cons, List.not_mem_nil, not_or]
    repeat' split
    all_goals simp_all
    tauto
  · have hupload : ¬(code = "BLOB_UPLOAD_INVALID" ∨ code = "BLOB_UPLOAD_UNKNOWN") := by
      simpa [lostCodes, or_comm] using hcode
    simp only [statusError, hupload, if_false, hcode, false_and, iff_false]
    repeat' split
    all_goals rintro ⟨⟩

/-- A lost upload is reported as incomplete exactly if the answer can be read. -/
theorem refusal_incomplete_iff (hlimits : Platform.LimitsRaw P) {client : RegistryHttpClient} {response : Response}
    (h : Loses response) : (refusal P client response).kind = .incompleteUpload ↔ Legible P client response := by
  have hraw : ∀ {error : Err}, Err.Raw error → error.kind ≠ .incompleteUpload := by
    rintro error (hkind | hkind | hkind | hkind) heq
    all_goals cases hkind.symm.trans heq
  have hbody : ∀ bounded : BoundedResponse, (responseError P bounded).kind = .incompleteUpload ↔
      P.jsonLimit bounded.content = none ∧ errorCode (Json.loads bounded.content) ∈ lostCodes ∧
        bounded.status ∉ [401, 403, 429] ∧ bounded.status ∉ overriding := by
    intro bounded
    unfold responseError providerCode loadJson
    cases hlimit : P.jsonLimit bounded.content with
    | some error => simpa using hraw (hlimits _ _ hlimit)
    | none => simpa using statusError_incomplete bounded.status (errorCode (Json.loads bounded.content))
  have hread := readBounded_chunks defaultResponseBytes response.chunks [] (Nat.zero_le _)
  rw [List.nil_append] at hread
  unfold refusal boundedResponse
  rw [h.whole, hread]
  cases hsafe : requireSafeResponseUrl P client.binding response.url with
  | error error =>
    refine iff_of_false (fun hkind => ?_) fun hlegible => by cases hsafe.symm.trans hlegible.safe
    rcases require_kind hsafe with herror | herror
    · exact hraw herror hkind
    · cases herror.symm.trans hkind
  | ok safe =>
    dsimp only
    by_cases hlong : defaultResponseBytes < response.chunks.flatten.length
    · -- a body beyond the bound is dropped, and its code with it
      rw [if_pos hlong]
      refine iff_of_false (fun hkind => ?_) fun hlegible => absurd hlong (Nat.not_lt.mpr hlegible.short)
      have hempty : errorCode (Json.loads []) ∈ lostCodes := ((hbody _).mp hkind).2.1
      exact absurd hempty (by decide)
    · rw [if_neg hlong]
      dsimp only
      cases hdecoded : P.decodeContent response.headers response.chunks.flatten with
      | none =>
        refine iff_of_false (by rintro ⟨⟩) fun hlegible => ?_
        obtain ⟨content, hcontent, -⟩ := hlegible.content
        cases hdecoded.symm.trans hcontent
      | some content =>
        refine (hbody _).trans ⟨?_, fun hlegible => ?_⟩
        · rintro ⟨hlimit, hcode, -, hstatus⟩
          exact ⟨hsafe, Nat.not_lt.mp hlong, ⟨content, hdecoded, hlimit, hcode⟩, hstatus⟩
        · obtain ⟨other, hother, hlimit, hcode⟩ := hlegible.content
          obtain rfl := Option.some.inj (hdecoded.symm.trans hother)
          exact ⟨hlimit, hcode, h.status, hlegible.status⟩

/-- A desk whose lock works. -/
def Desk.working (P : Platform) : Environment Op Op.Res Err Desk := fun op desk answer desk' =>
  Desk.env P op desk answer desk' ∧
    match op, answer with
    | .release, .error _ => False
    | _, _ => True

theorem Desk.env_of_working {op : Op} {desk desk' : Desk} {answer : Except Err op.Res}
    (h : Desk.working P op desk answer desk') : Desk.env P op desk answer desk' := h.1

/-- Where an upload is lost, the program raises the error of it. -/
def SurfacesAt (P : Platform) (client : RegistryHttpClient) {α : Type} (program : Action α) (desk : Desk) : Prop :=
  ∀ trace outcome desk', Traces (Desk.working P) program desk trace outcome desk' →
    ∀ exchange ∈ trace, ∀ error, Fatal P client exchange error → outcome = .error error

def Surfaces (P : Platform) (client : RegistryHttpClient) {α : Type} (program : Action α) : Prop :=
  ∀ desk, SurfacesAt P client program desk

/-- In a state, the program raises the error and transfers nothing. -/
def Rethrows (P : Platform) {α : Type} (error : Err) (program : Action α) (desk : Desk) : Prop :=
  ∀ trace outcome desk', Traces (Desk.working P) program desk trace outcome desk' →
    outcome = .error error ∧ ∀ exchange ∈ trace, ¬ Op.Transfers exchange.1

section Rules

variable {client : RegistryHttpClient} {α β : Type}

/-- Without a transfer no upload is lost. -/
theorem surfaces_of_uses {program : Action α} (h : program.Uses fun op => ¬ Op.Transfers op) : Surfaces P client program :=
  fun _ _ _ _ htraces exchange hmem _ hlost => absurd hlost.1 (htraces.uses h exchange hmem)

/-- What comes next, where the first program leads. -/
theorem SurfacesAt.bind {program : Action α} {next : α → Action β} {desk : Desk} (h : SurfacesAt P client program desk)
    (hnext : program.Ensures (Desk.env P) (fun _ _ => True) desk fun outcome desk₁ =>
      ∀ value, outcome = .ok value → SurfacesAt P client (next value) desk₁) :
    SurfacesAt P client (program >>= next) desk := by
  intro trace outcome desk' htraces exchange hmem error hlost
  rcases htraces.of_bind with ⟨raised, hfirst, rfl⟩ | ⟨value, front, desk₁, rest, rfl, hfirst, hrest⟩
  · rw [Except.error.inj (h _ _ _ hfirst exchange hmem error hlost)]
  · rcases List.mem_append.mp hmem with hfront | hlast
    · cases h _ _ _ hfirst exchange hfront error hlost
    · have hat := (hfirst.mono fun _ _ _ _ => Desk.env_of_working).ensures hnext
      exact hat value rfl _ _ _ hrest exchange hlast error hlost

theorem Surfaces.bind {program : Action α} {next : α → Action β} (h : Surfaces P client program)
    (hnext : ∀ value, Surfaces P client (next value)) : Surfaces P client (program >>= next) := fun desk =>
  (h desk).bind (Prog.ensures_of_performs fun _ desk₁ _ value _ => hnext value desk₁)

/-- A handler that raises the same error again. -/
theorem Surfaces.tryCatch {program : Action α} {handler : Err → Action α} (h : Surfaces P client program)
    (hhandler : ∀ error desk, Rethrows P error (handler error) desk) :
    Surfaces P client (tryCatch program handler) := by
  intro desk trace outcome desk' htraces exchange hmem error hlost
  obtain ⟨front, first, desk₁, rest, rfl, hfirst, hrest⟩ := htraces.of_handle
  cases first with
  | error raised =>
    obtain ⟨houtcome, hquiet⟩ := hhandler raised desk₁ rest outcome desk' hrest
    rcases List.mem_append.mp hmem with hfront | hlast
    · rw [houtcome, ← h _ _ _ _ hfirst exchange hfront error hlost]
    · exact absurd hlost.1 (hquiet exchange hlast)
  | ok value =>
    cases hrest
    rw [List.append_nil] at hmem
    cases h _ _ _ _ hfirst exchange hmem error hlost

theorem transfers_aside {op : Op} (h : Op.Aside op) : ¬ Op.Transfers op := by
  rintro ⟨request, url, digest, rfl, -, htarget⟩
  have hother := h.1 request rfl
  rw [htarget] at hother
  cases hother

theorem transfers_send {request : Request} (hmethod : request.method ≠ .patch ∧ request.method ≠ .put) :
    ¬ Op.Transfers (.send request) := by
  rintro ⟨other, url, digest, heq, hother, -⟩
  cases heq
  exact hother.elim hmethod.1 hmethod.2

theorem surfaces_locked {action : Action α} (h : Surfaces P client action) : Surfaces P client (Action.locked action) := by
  refine (surfaces_of_uses (aside_acquire.mono fun _ => transfers_aside)).bind fun _ => ?_
  intro desk trace outcome desk' htraces exchange hmem error hlost
  obtain ⟨front, first, desk₁, rest, rfl, hfirst, hrest⟩ := htraces.of_handle
  -- releasing the lock does not raise
  have hreleased : outcome = first ∧ ∀ exchange ∈ rest, ¬ Op.Transfers exchange.1 := by
    obtain ⟨answer, desk₂, last, rfl, henv, hlast⟩ := Traces.of_perform hrest
    cases answer with
    | error failure => exact henv.2.elim
    | ok released =>
      obtain ⟨rfl, rfl, -⟩ := Traces.of_except hlast
      refine ⟨rfl, fun exchange hmem => ?_⟩
      rw [List.mem_singleton.mp hmem]
      rintro ⟨request, url, digest, heq, -⟩
      cases heq
  rcases List.mem_append.mp hmem with hfront | hlast
  · rw [hreleased.1]
    exact h _ _ _ _ hfirst exchange hfront error hlost
  · exact absurd hlost.1 (hreleased.2 exchange hlast)

/-- A put that is uploading or verifying can be marked as failed, and an upload can be aborted. -/
structure Platform.Fails (P : Platform) : Prop where
  fail : ∀ machine physicalCommit, machine = .uploading ∨ machine = .verifying →
    ∃ next, P.fail machine physicalCommit = .ok next
  abort : ∃ next, P.transition .uploading .aborted = .ok next

theorem surfaces_failing (hfails : Platform.Fails P) (machine : PutState) (physicalCommit : Bool) {action : Action α}
    (h : Surfaces P client action) : Surfaces P client (failing P machine physicalCommit action) := by
  refine h.tryCatch fun error desk trace outcome desk' htraces => ?_
  split at htraces
  · rename_i hmachine
    obtain ⟨next, hnext⟩ := hfails.fail machine physicalCommit hmachine
    rw [hnext] at htraces
    cases htraces
    exact ⟨rfl, by simp⟩
  · cases htraces
    exact ⟨rfl, by simp⟩

theorem sequential_surfaces (hfails : Platform.Fails P) (client : RegistryHttpClient) :
    Sequential P fun _ program => Surfaces P client program where
  aside h := surfaces_of_uses (h.mono fun _ => transfers_aside)
  bind := Surfaces.bind
  locked := surfaces_locked
  failing machine physicalCommit _ h := surfaces_failing hfails machine physicalCommit h

/-! ## Requests -/

/-- An answer with an error status ends a request that is sent once. -/
theorem judge_refused {expected : List Nat} (hexpected : ∀ status ∈ expected, status < 400)
    {response : Response} (herror : 400 ≤ response.status) :
    client.judge P expected defaultResponseBytes 0 (.raise (.of .objectUnavailable "OCI registry request failed"))
      (.ok response) = .raise (refusal P client response) := by
  have hnot : response.status ∉ expected := fun hmem => absurd (hexpected _ hmem) (Nat.not_lt.mpr herror)
  have hretry : ¬ (response.status ∈ retriableStatus ∧ 0 < 0) := fun h => absurd h.2 (Nat.lt_irrefl 0)
  unfold refusal
  simp only [RegistryHttpClient.judge]
  cases requireSafeResponseUrl P client.binding response.url with
  | error error => rfl
  | ok safe =>
    dsimp only
    rw [if_neg hretry]
    cases hbounded : boundedResponse P response defaultResponseBytes with
    | ok bounded =>
      have hstatus : bounded.status = response.status := (boundedResponse_ok hbounded).1
      simp only [hstatus, if_neg hnot]
    | error error =>
      simp only [if_neg hnot]
      split
      · rfl
      · split
        · rfl
        · rfl

/-- A request that is sent once, with what is made of its response. -/
theorem surfaces_request (request : Request) {expected : List Nat} (hexpected : ∀ status ∈ expected, status < 400)
    {next : BoundedResponse → Action α} (hnext : ∀ response, (next response).Uses fun _ => False) :
    Surfaces P client (client.request P request expected false defaultResponseBytes >>= next) := by
  intro desk trace outcome desk' htraces exchange hmem error hlost
  cases hbuild : request.target.build P with
  | error failure =>
    rw [request_unbuilt hbuild] at htraces
    cases htraces
    cases hmem
  | ok built =>
    rw [request_attempt hbuild] at htraces
    cases htraces with
    | call _ _ _ desk₁ _ answer rest _ hanswer hrest =>
      have hidle : (client.judge P expected defaultResponseBytes 0 (client.attempt P request expected defaultResponseBytes 0)
          answer >>= next).Uses fun _ => False := by
        refine Prog.Uses.bind ?_ hnext
        unfold RegistryHttpClient.judge
        repeat' split
        all_goals trivial
      obtain rfl := hrest.of_idle hidle
      obtain rfl := List.mem_singleton.mp hmem
      obtain ⟨-, _, response, heq, herror, rfl, -⟩ := hlost
      cases heq
      have hraise := @judge_refused P client expected hexpected response herror
      have hlast : Traces (Desk.working P) (client.judge P expected defaultResponseBytes 0
          (.raise (.of .objectUnavailable "OCI registry request failed")) (.ok response) >>= next) desk₁ [] outcome
          desk' := hrest
      rw [hraise] at hlast
      cases hlast
      rfl

theorem surfaces_patchUpload (upload : UploadLocation) (chunk : Bytes) :
    Surfaces P client (client.patchUpload P upload chunk) := by
  unfold RegistryHttpClient.patchUpload
  split
  · exact surfaces_of_uses (Prog.uses_raise _)
  · refine surfaces_request _ (by simp) fun response => ?_
    split
    · trivial
    · exact (uses_lift _).bind fun url => trivial

theorem surfaces_finishUpload (upload : UploadLocation) (digest : String) :
    Surfaces P client (client.finishUpload P upload digest) := by
  refine surfaces_request _ (by simp) fun response => ?_
  split
  · trivial
  · exact uses_lift _

theorem surfaces_startUpload : Surfaces P client (client.startUpload P) := by
  refine surfaces_request _ (by simp) fun response => (uses_lift _).bind fun url => ?_
  dsimp only
  repeat' split
  all_goals trivial

/-- An abort raises nothing and transfers nothing. -/
theorem abortSafely_quiet (upload : UploadLocation) :
    (client.abortSafely P upload).Uses fun op => ¬ Op.Transfers op := by
  have huses : (client.abortSafely P upload).Uses (· = .send (.deleteUpload upload.url)) :=
    Prog.Uses.handle ((uses_request client _ _ _ _).bind fun _ => trivial) fun _ => trivial
  refine huses.mono ?_
  rintro _ rfl
  exact transfers_send ⟨by rintro ⟨⟩, by rintro ⟨⟩⟩

theorem abortSafely_returns {σ : Type} {env : Environment Op Op.Res Err σ} {s s' : σ} {upload : UploadLocation}
    {outcome : Except Err Unit} (h : Performs env (client.abortSafely P upload) s outcome s') : outcome = .ok () := by
  obtain ⟨first, s₁, -, hrest⟩ := h.of_handle
  cases hrest
  rfl

theorem abortSafely_still (upload : UploadLocation) (desk : Desk) :
    (client.abortSafely P upload).Ensures (Desk.env P) (fun _ _ => True) desk fun outcome desk' =>
      outcome = .ok () ∧ desk' = desk :=
  Prog.ensures_of_performs fun _ _ hperforms =>
    ⟨abortSafely_returns hperforms, hperforms.ensures (Desk.abortSafely_desk upload desk)⟩

/-- The error is raised after the abort. -/
theorem rethrows_abort (upload : UploadLocation) (error : Err) (desk : Desk) :
    Rethrows P error (client.abortSafely P upload >>= fun _ => (.raise error : Action α)) desk := by
  intro trace outcome desk' htraces
  rcases htraces.of_bind with ⟨raised, hfirst, rfl⟩ | ⟨value, front, desk₁, rest, rfl, hfirst, hrest⟩
  · cases abortSafely_returns hfirst.performs
  · cases hrest
    refine ⟨rfl, ?_⟩
    rw [List.append_nil]
    exact hfirst.uses (abortSafely_quiet upload)

theorem surfaces_uploadBlobBytes (value : Bytes) (mediaType : String) :
    Surfaces P client (client.uploadBlobBytes P value mediaType) := by
  unfold RegistryHttpClient.uploadBlobBytes
  dsimp only
  refine (surfaces_of_uses ((reads_headBlob P client _).mono fun _ h => transfers_aside h.aside)).bind fun existing => ?_
  cases existing with
  | some existing =>
    dsimp only
    split
    · exact surfaces_of_uses (Prog.uses_raise _)
    · exact surfaces_of_uses (uses_lift _)
  | none =>
    refine surfaces_startUpload.bind fun upload => Surfaces.bind (Surfaces.tryCatch ?_ ?_) fun _ =>
      surfaces_of_uses (uses_lift _)
    · refine surfaces_request _ (by simp) fun response => ?_
      split <;> trivial
    · exact fun error desk => rethrows_abort upload error desk

end Rules

/-! ## Uploads of a payload -/

section Uploads

variable {adapter : OciDistributionAdapter}

theorem rethrows_abandon {α : Type} (upload : Option UploadLocation) (error : Err) (desk : Desk) :
    Rethrows P error (adapter.abandon P upload error : Action α) desk := by
  cases upload with
  | none =>
    intro trace outcome desk' htraces
    cases htraces
    exact ⟨rfl, by simp⟩
  | some upload => exact rethrows_abort upload error desk

theorem surfaces_abandon {α : Type} (upload : Option UploadLocation) (error : Err) :
    Surfaces P adapter.transport (adapter.abandon P upload error : Action α) := fun desk _ _ _ htraces exchange hmem _ hlost =>
  absurd hlost.1 ((rethrows_abandon upload error desk _ _ _ htraces).2 exchange hmem)

theorem surfaces_orAbandon {α : Type} (upload : Option UploadLocation) {action : Action α}
    (h : Surfaces P adapter.transport action) : Surfaces P adapter.transport (adapter.orAbandon P upload action) :=
  h.tryCatch fun error desk => rethrows_abandon upload error desk

theorem surfaces_sendChunks (payload : PayloadReference) (chunks : List Bytes) (upload : Option UploadLocation)
    (hashed : Bytes) (length : Nat) :
    Surfaces P adapter.transport (adapter.sendChunks P payload chunks upload hashed length) := by
  induction chunks generalizing upload hashed length with
  | nil => exact surfaces_of_uses (Prog.uses_ret _)
  | cons chunk rest ih =>
    unfold OciDistributionAdapter.sendChunks
    dsimp only
    split
    · exact surfaces_abandon upload _
    · split
      · exact surfaces_abandon upload _
      · cases upload with
        | none => exact ih _ _ _
        | some location =>
          exact (surfaces_orAbandon _ (surfaces_patchUpload location chunk)).bind fun next => ih _ _ _

theorem surfaces_transferTo (payload : PayloadReference) (existing : Option (OciDescriptor P))
    (upload : Option UploadLocation) :
    Surfaces P adapter.transport (adapter.transferTo P payload existing upload) := by
  have hopen : Surfaces P adapter.transport (Action.openPayload payload adapter.binding.chunkSize) :=
    surfaces_of_uses ((aside_openPayload _ _).mono fun _ => transfers_aside)
  refine (surfaces_orAbandon upload hopen).bind fun stream => ?_
  refine (surfaces_sendChunks payload stream.chunks upload [] 0).bind fun result => ?_
  obtain ⟨upload, hashed, length⟩ := result
  dsimp only
  cases stream.failure with
  | some failure => exact surfaces_abandon upload failure
  | none =>
    dsimp only
    refine (surfaces_orAbandon upload (surfaces_of_uses (uses_lift _))).bind fun _ => ?_
    cases existing with
    | some existing =>
      dsimp only
      split
      · exact surfaces_abandon upload _
      · exact surfaces_of_uses (Prog.uses_ret _)
    | none =>
      cases upload with
      | none => exact surfaces_of_uses (Prog.uses_raise _)
      | some location =>
        refine (surfaces_orAbandon _ (surfaces_finishUpload location _)).bind fun _ => ?_
        exact surfaces_of_uses (Prog.uses_ret _)

theorem surfaces_transfer (payload : PayloadReference) (existing : Option (OciDescriptor P)) :
    Surfaces P adapter.transport (adapter.transfer P payload existing) := by
  cases existing with
  | some existing => exact @surfaces_transferTo P adapter payload (some existing) none
  | none => exact surfaces_startUpload.bind fun upload => surfaces_transferTo payload _ _

/-- The error of a lost upload is not one after which an upload is tried again. -/
theorem surfaces_uploadAttempt (payload : PayloadReference) (left : Nat) :
    Surfaces P adapter.transport (adapter.uploadAttempt P payload left) := by
  induction left with
  | zero => exact surfaces_of_uses (Prog.uses_raise _)
  | succ left ih =>
    rw [uploadAttempt_succ]
    refine Surfaces.bind ?_ fun existing => ?_
    · unfold lookBefore
      cases payload.expectedDigest with
      | none => exact surfaces_of_uses (Prog.uses_ret _)
      | some digest => exact surfaces_of_uses ((aside_headBlob P adapter digest).mono fun _ => transfers_aside)
    · intro desk trace outcome desk' htraces exchange hmem error hlost
      obtain ⟨front, first, desk₁, rest, rfl, hfirst, hlast⟩ := htraces.of_handle
      rcases List.mem_append.mp hmem with hfront | hlater
      · obtain rfl := surfaces_transfer payload existing _ _ _ _ hfirst exchange hfront error hlost
        obtain ⟨-, -, -, -, -, -, hkind⟩ := hlost
        dsimp only [afterTransfer] at hlast
        rw [if_neg (fun h => h.1.elim hkind.1 hkind.2)] at hlast
        cases hlast
        rfl
      · cases first with
        | ok identity =>
          cases hlast
          cases hlater
        | error raised =>
          dsimp only [afterTransfer] at hlast
          split at hlast
          · exact ih _ _ _ _ hlast exchange hlater error hlost
          · cases hlast
            cases hlater

theorem surfaces_execute (hfails : Platform.Fails P) (operation : Operation) :
    Surfaces P adapter.transport (adapter.execute P operation) :=
  (sequential_surfaces hfails adapter.transport).execute
    (show ∀ value mediaType, Surfaces P adapter.transport (adapter.transport.uploadBlobBytes P value mediaType) from
      surfaces_uploadBlobBytes)
    (fun payload => surfaces_uploadAttempt payload _) operation

end Uploads

/-! ## Multipart -/

section Multipart

variable {adapter : OciDistributionAdapter} {reference : Nat}

/-- An operation on the manager's objects transfers nothing. -/
theorem quiet_memory {α : Type} {update : Memory → Memory} {next : Memory → Action α}
    (hnext : ∀ memory, (next memory).Uses fun op => ¬ Op.Transfers op) :
    (Action.memory update >>= next).Uses fun op => ¬ Op.Transfers op :=
  (Prog.uses_perform (by rintro ⟨request, url, digest, ⟨⟩, -⟩)).bind hnext

theorem quiet_readState : (OciDistributionAdapter.readState reference).Uses fun op => ¬ Op.Transfers op := by
  refine quiet_memory fun memory => ?_
  cases memory.heap[reference]? <;> trivial

theorem quiet_updateState (update : MultipartState → MultipartState) :
    (OciDistributionAdapter.updateState reference update).Uses fun op => ¬ Op.Transfers op := by
  refine quiet_memory fun memory => ?_
  cases memory.heap[reference]? <;> trivial

theorem quiet_transitionState (target : PutState) :
    (OciDistributionAdapter.transitionState P reference target).Uses fun op => ¬ Op.Transfers op :=
  (quiet_updateState _).bind fun _ => (uses_lift _).bind fun _ => trivial

theorem quiet_failState (physicalCommit : Bool) :
    (OciDistributionAdapter.failState P reference physicalCommit).Uses fun op => ¬ Op.Transfers op :=
  (quiet_updateState _).bind fun _ => (uses_lift _).bind fun _ => trivial

theorem quiet_stateOf (session : MultipartSession) :
    (adapter.stateOf session).Uses fun op => ¬ Op.Transfers op := by
  refine quiet_memory fun memory => ?_
  cases memory.lookup session.sessionId with
  | none => trivial
  | some reference =>
    dsimp only
    cases memory.heap[reference]? with
    | none => trivial
    | some state =>
      dsimp only
      split <;> trivial

theorem quiet_abortMultipart (session : MultipartSession) :
    (adapter.abortMultipart P session).Uses fun op => ¬ Op.Transfers op := by
  refine quiet_memory fun memory => ?_
  cases memory.lookup session.sessionId with
  | none => trivial
  | some reference =>
    refine quiet_readState.bind fun state => (abortSafely_quiet _).bind fun _ => ?_
    refine quiet_readState.bind fun state => ?_
    split
    · exact quiet_transitionState _
    · trivial

theorem surfaces_sendPart (session : MultipartSession) (chunks : List Bytes) (hashed : Bytes) (length : Nat) :
    Surfaces P adapter.transport (adapter.sendPart P session reference chunks hashed length) := by
  induction chunks generalizing hashed length with
  | nil => exact surfaces_of_uses (Prog.uses_ret _)
  | cons chunk rest ih =>
    unfold OciDistributionAdapter.sendPart
    dsimp only
    split
    · exact surfaces_of_uses (Prog.uses_raise _)
    · refine (surfaces_of_uses quiet_readState).bind fun state => ?_
      split
      · exact surfaces_of_uses (Prog.uses_raise _)
      · refine Surfaces.bind ?_ fun _ => ih _ _
        refine (surfaces_of_uses (quiet_updateState _)).bind fun state => ?_
        refine (surfaces_patchUpload _ _).bind fun upload => ?_
        exact (surfaces_of_uses (quiet_updateState _)).bind fun _ => surfaces_of_uses (Prog.uses_ret _)

theorem surfaces_transferPart (session : MultipartSession) (payload : PayloadReference) :
    Surfaces P adapter.transport (adapter.transferPart P session reference payload) := by
  refine (surfaces_of_uses ((aside_openPayload _ _).mono fun _ => transfers_aside)).bind fun stream => ?_
  refine (surfaces_sendPart session stream.chunks [] 0).bind fun result => ?_
  obtain ⟨hashed, length⟩ := result
  dsimp only
  cases stream.failure with
  | some failure => exact surfaces_of_uses (Prog.uses_raise _)
  | none =>
    dsimp only
    split
    · exact surfaces_of_uses (Prog.uses_raise _)
    · exact (surfaces_of_uses (uses_lift _)).bind fun _ => surfaces_of_uses (Prog.uses_ret _)

theorem surfaces_commitMultipart (hfails : Platform.Fails P) (value : PutInput) (identity : ContentIdentity)
    (immutability : ImmutabilityRequest) (retention : Option RetentionRequest) :
    Surfaces P adapter.transport (adapter.commitMultipart P reference value identity immutability retention) := by
  have hS := sequential_surfaces hfails adapter.transport
  refine hS.bind (hS.aside (aside_requireCreateAvailable P adapter _ _ _)) fun _ => ?_
  refine hS.bind (surfaces_of_uses quiet_readState) fun state => ?_
  refine hS.bind (surfaces_finishUpload _ _) fun _ => ?_
  refine hS.bind (surfaces_of_uses (quiet_transitionState _)) fun _ => ?_
  refine hS.bind (hS.commitObject surfaces_uploadBlobBytes _ _ _ _ _) fun metadata => ?_
  exact hS.bind (surfaces_of_uses (quiet_transitionState _)) fun _ => hS.ret _

/-- Aborting a live session raises nothing. -/
theorem abortMultipart_completes (hfails : Platform.Fails P) {session : MultipartSession} {state : MultipartState} {desk : Desk}
    (hlive : Live desk.memory session.sessionId reference state) :
    (adapter.abortMultipart P session).Ensures (Desk.env P) (fun _ _ => True) desk fun outcome _ => outcome = .ok () := by
  refine Desk.remembers.memory_bind desk ?_
  rintro desk₁ rfl
  simp only [hlive.entry]
  have hobject : (desk.memory.pop session.sessionId).heap[reference]? = some state := hlive.object
  refine (Desk.remembers.readState { desk with memory := desk.memory.pop session.sessionId } hobject).bind ?_
    (by rintro _ _ ⟨heq, -⟩; cases heq)
  rintro found desk₁ ⟨heq, rfl⟩
  obtain rfl := Except.ok.inj heq
  refine (abortSafely_still found.upload _).bind ?_ (by rintro _ _ ⟨heq, -⟩; cases heq)
  rintro _ desk₁ ⟨-, rfl⟩
  refine (Desk.remembers.readState { desk with memory := desk.memory.pop session.sessionId } hobject).bind ?_
    (by rintro _ _ ⟨heq, -⟩; cases heq)
  rintro found' desk₁ ⟨heq, rfl⟩
  obtain rfl := Except.ok.inj heq
  split
  · rename_i huploading
    refine (Desk.remembers.transitionState { desk with memory := desk.memory.pop session.sessionId } hobject .aborted).mono ?_
    rintro (error | value) desk' ⟨-, houtcome⟩
    · obtain ⟨next, hnext⟩ := hfails.abort
      rw [huploading, hnext] at houtcome
      cases houtcome
    · rfl
  · rfl

/-- Giving up a completion raises the error of it. -/
theorem abandonMultipart_rethrows (hfails : Platform.Fails P) {state : MultipartState} {desk : Desk}
    (hobject : desk.memory.heap[reference]? = some state) (error : Err) :
    (adapter.abandonMultipart P reference error).Ensures (Desk.env P) (fun _ _ => True) desk fun outcome _ =>
      outcome = .error error := by
  have hfail : ∀ physicalCommit, state.machine = .uploading ∨ state.machine = .verifying →
      (OciDistributionAdapter.failState P reference physicalCommit).Ensures (Desk.env P) (fun _ _ => True) desk
        fun outcome _ => outcome = .ok () := by
    intro physicalCommit hmachine
    obtain ⟨next, hnext⟩ := hfails.fail state.machine physicalCommit hmachine
    refine (Desk.remembers.updateState desk hobject _).bind ?_ (by rintro _ _ ⟨heq, -⟩; cases heq)
    rintro before desk₁ ⟨heq, -⟩
    obtain rfl := Except.ok.inj heq
    rw [hnext]
    rfl
  refine (Desk.remembers.readState desk hobject).bind ?_ (by rintro _ _ ⟨heq, -⟩; cases heq)
  rintro found desk₁ ⟨heq, rfl⟩
  obtain rfl := Except.ok.inj heq
  split
  · rename_i huploading
    refine (abortSafely_still found.upload _).bind ?_ (by rintro _ _ ⟨heq, -⟩; cases heq)
    rintro _ desk₁ ⟨-, rfl⟩
    exact (hfail false (.inl huploading)).bind (fun _ _ _ => rfl) (by rintro _ _ ⟨⟩)
  · split
    · rename_i hverifying
      exact (hfail true (.inr hverifying)).bind (fun _ _ _ => rfl) (by rintro _ _ ⟨⟩)
    · rfl

theorem quiet_abandonMultipart (error : Err) :
    (adapter.abandonMultipart P reference error).Uses fun op => ¬ Op.Transfers op := by
  refine quiet_readState.bind fun state => ?_
  split
  · exact (abortSafely_quiet _).bind fun _ => (quiet_failState _).bind fun _ => trivial
  · split
    · exact (quiet_failState _).bind fun _ => trivial
    · trivial

/-- Where the session object is there, a program that touches only it and a handler of its errors. -/
theorem surfaces_guarded {α : Type} {program : Action α} {handler : Err → Action α} {I : Desk → Prop} {desk : Desk}
    (h : Surfaces P adapter.transport program)
    (hkeeps : program.Ensures (Desk.env P) (fun _ _ => True) desk fun _ desk₁ => I desk₁)
    (hhandler : ∀ error desk₁, I desk₁ → (handler error).Ensures (Desk.env P) (fun _ _ => True) desk₁ fun outcome _ =>
      outcome = .error error)
    (hquiet : ∀ error, (handler error).Uses fun op => ¬ Op.Transfers op) :
    SurfacesAt P adapter.transport (tryCatch program handler) desk := by
  intro trace outcome desk' htraces exchange hmem error hlost
  obtain ⟨front, first, desk₁, rest, rfl, hfirst, hrest⟩ := htraces.of_handle
  have hinvariant := (hfirst.mono fun _ _ _ _ => Desk.env_of_working).ensures hkeeps
  cases first with
  | ok value =>
    cases hrest
    rw [List.append_nil] at hmem
    cases h _ _ _ _ hfirst exchange hmem error hlost
  | error raised =>
    have hrethrown := (hrest.mono fun _ _ _ _ => Desk.env_of_working).ensures (hhandler raised desk₁ hinvariant)
    rcases List.mem_append.mp hmem with hfront | hlast
    · rw [hrethrown, ← h _ _ _ _ hfirst exchange hfront error hlost]
    · exact absurd hlost.1 (hrest.uses (hquiet raised) exchange hlast)

/-- A transfer keeps the session alive. -/
theorem touching_live (session : MultipartSession) (payload : PayloadReference) {state : MultipartState} {desk : Desk}
    (hlive : Live desk.memory session.sessionId reference state) :
    (adapter.transferPart P session reference payload).Ensures (Desk.env P) (fun _ _ => True) desk fun _ desk₁ =>
      ∃ state', Live desk₁.memory session.sessionId reference state' := by
  refine (Desk.touching_transferPart session payload desk).mono ?_
  rintro outcome desk₁ ⟨update, hmemory⟩
  refine ⟨update state, ?_, ?_⟩
  · rw [hmemory]
    exact hlive.entry
  · rw [hmemory, get?_modify, if_pos rfl, hlive.object]
    rfl

theorem surfaces_uploadPart (hfails : Platform.Fails P) (session : MultipartSession) (partNumber : Nat)
    (payload : PayloadReference) : Surfaces P adapter.transport (adapter.uploadPart P session partNumber payload) := by
  intro desk
  refine SurfacesAt.bind (surfaces_of_uses (quiet_stateOf session) desk)
    ((Desk.remembers.stateOf desk session).mono ?_)
  rintro _ desk₁ ⟨rfl, hstate⟩ reference rfl
  obtain ⟨state, hlive, -⟩ := hstate
  refine SurfacesAt.bind (surfaces_of_uses quiet_readState desk) ((Desk.remembers.readState desk hlive.object).mono ?_)
  rintro _ desk₁ ⟨heq, rfl⟩ found rfl
  obtain rfl := Except.ok.inj heq
  split
  · exact surfaces_of_uses (Prog.uses_raise _) desk
  · split
    · exact surfaces_of_uses (Prog.uses_raise _) desk
    · have hpart : SurfacesAt P adapter.transport (tryCatch (adapter.transferPart P session reference payload) fun error => do
          adapter.abortMultipart P session
          throw error) desk := by
        refine surfaces_guarded (surfaces_transferPart session payload) (touching_live session payload hlive) ?_ ?_
        · rintro error desk₁ ⟨state', hlive'⟩
          exact (abortMultipart_completes hfails hlive').bind (fun _ _ _ => rfl) (by rintro _ _ ⟨⟩)
        · exact fun error => (quiet_abortMultipart session).bind fun _ => Prog.uses_raise error
      refine hpart.bind (Prog.ensures_of_performs fun _ desk₁ _ identity _ => ?_)
      exact surfaces_of_uses ((quiet_updateState _).bind fun _ => Prog.uses_ret _) desk₁

theorem surfaces_completeMultipart (hfails : Platform.Fails P) (session : MultipartSession) (supplied : List MultipartPart) :
    Surfaces P adapter.transport (adapter.completeMultipart P session supplied) := by
  intro desk
  refine SurfacesAt.bind (surfaces_of_uses (quiet_stateOf session) desk)
    ((Desk.remembers.stateOf desk session).mono ?_)
  rintro _ desk₁ ⟨rfl, hstate⟩ reference rfl
  obtain ⟨state, hlive, -⟩ := hstate
  refine SurfacesAt.bind (surfaces_of_uses quiet_readState desk) ((Desk.remembers.readState desk hlive.object).mono ?_)
  rintro _ desk₁ ⟨heq, rfl⟩ found rfl
  obtain rfl := Except.ok.inj heq
  have hrefuse : ∀ error, Surfaces P adapter.transport (do
      adapter.abortMultipart P session
      (throw error : Action ObjectMetadata)) := fun error =>
    surfaces_of_uses ((quiet_abortMultipart session).bind fun _ => Prog.uses_raise error)
  have hlift : ∀ {β : Type} (outcome : Except Err β) {next : β → Action ObjectMetadata},
      (∀ value, SurfacesAt P adapter.transport (next value) desk) →
        SurfacesAt P adapter.transport (Action.lift outcome >>= next) desk := by
    intro β outcome next hnext
    cases outcome with
    | error error => exact surfaces_of_uses (Prog.uses_raise error) desk
    | ok value => exact hnext value
  split
  · exact surfaces_of_uses (Prog.uses_raise _) desk
  split
  · exact surfaces_of_uses (Prog.uses_raise _) desk
  refine hlift _ fun _ => ?_
  dsimp only
  split
  · exact hrefuse _ desk
  split
  · exact hrefuse _ desk
  refine hlift _ fun immutability => hlift _ fun retention => ?_
  have hcommit : SurfacesAt P adapter.transport (tryCatch (Action.locked (adapter.commitMultipart P reference found.input
      ⟨sha256Digest P found.hashed, found.length⟩ immutability retention)) (adapter.abandonMultipart P reference)) desk := by
    refine surfaces_guarded (surfaces_locked (surfaces_commitMultipart hfails _ _ _ _)) (I := fun desk =>
      ∃ state, desk.memory.heap[reference]? = some state) ?_ ?_ quiet_abandonMultipart
    · refine (((Desk.compositional_touching P reference).locked (Desk.touching_commitMultipart _ _ _ _)) desk).mono ?_
      rintro outcome desk₁ ⟨update, hmemory⟩
      refine ⟨update found, ?_⟩
      rw [hmemory, get?_modify, if_pos rfl, hlive.object]
      rfl
    · rintro error desk₁ ⟨state', hobject⟩
      exact abandonMultipart_rethrows hfails hobject error
  intro trace outcome desk' htraces exchange hmem error hlost
  obtain ⟨front, first, desk₁, rest, rfl, hfirst, hrest⟩ := htraces.of_handle
  -- the session is taken from the table whatever happened
  obtain ⟨last, cleaned, desk₂, more, rfl, hlast, hmore⟩ := hrest.of_handle
  have hquiet : ∀ exchange ∈ last, ¬ Op.Transfers exchange.1 := hlast.uses (quiet_memory fun _ => Prog.uses_ret ())
  have hfinal : outcome = first ∧ more = [] := by
    obtain ⟨answer, desk₃, others, -, ⟨⟨rfl, -⟩, -⟩, hafter⟩ := Traces.of_perform hlast
    cases hafter
    obtain ⟨rfl, rfl, -⟩ := Traces.of_except hmore
    exact ⟨rfl, rfl⟩
  obtain ⟨rfl, rfl⟩ := hfinal
  rw [List.append_nil] at hmem
  rcases List.mem_append.mp hmem with hfront | hcleanup
  · exact hcommit _ _ _ hfirst exchange hfront error hlost
  · exact absurd hlost.1 (hquiet exchange hcleanup)

theorem quiet_beginMultipart (operation : Operation) :
    (adapter.beginMultipart P operation).Uses fun op => ¬ Op.Transfers op := by
  have haside : ∀ {β : Type} {program : Action β}, program.Uses Op.Aside → program.Uses fun op => ¬ Op.Transfers op :=
    fun h => h.mono fun _ => transfers_aside
  have hstart : (adapter.transport.startUpload P).Uses fun op => ¬ Op.Transfers op := by
    refine Prog.Uses.bind ((uses_request _ _ _ _ _).mono ?_) fun response => (uses_lift _).bind fun url => ?_
    · rintro _ rfl
      exact transfers_send ⟨by rintro ⟨⟩, by rintro ⟨⟩⟩
    · dsimp only
      repeat' split
      all_goals trivial
  refine (uses_lift _).bind fun method => ?_
  split
  · trivial
  refine (uses_lift _).bind fun _ => ?_
  cases operation.input with
  | put value =>
    refine (uses_lift _).bind fun immutability => Prog.Uses.bind ?_ fun upload => ?_
    · refine (haside aside_acquire).bind fun _ => Prog.Uses.finally_ ?_ (haside aside_release)
      exact (haside (aside_requireCreateAvailable P adapter _ _ _)).bind fun _ => hstart
    · refine (uses_lift _).bind fun machine => ?_
      refine (Prog.uses_perform (by rintro ⟨request, url, digest, ⟨⟩, -⟩)).bind fun token => ?_
      exact (haside aside_now).bind fun createdAt => (uses_lift _).bind fun session => quiet_memory fun _ => trivial
  | _ => trivial

end Multipart

/-! ## Every call -/

section Calls

variable {adapter : OciDistributionAdapter}

theorem surfaces_call (hfails : Platform.Fails P) (call : Call) : Surfaces P adapter.transport (call.program P adapter) := by
  have hreturn : ∀ {β : Type} {program : Action β} {wrap : β → Answer}, Surfaces P adapter.transport program →
      Surfaces P adapter.transport (program >>= fun value => pure (wrap value)) := fun h =>
    h.bind fun _ => surfaces_of_uses (Prog.uses_ret _)
  cases call with
  | execute operation => exact hreturn (surfaces_execute hfails operation)
  | beginMultipart operation => exact hreturn (surfaces_of_uses (quiet_beginMultipart operation))
  | uploadPart session partNumber payload => exact hreturn (surfaces_uploadPart hfails session partNumber payload)
  | completeMultipart session parts => exact hreturn (surfaces_completeMultipart hfails session parts)
  | abortMultipart session => exact hreturn (surfaces_of_uses (quiet_abortMultipart session))

/-- In every call, whatever the registry answers and whatever else fails: an answer that loses an upload makes
the call fail with `IncompleteUpload` if and only if it is legible. An illegible one makes it fail as well, with
the error of that answer, unless the error is one that an upload is tried again after. -/
theorem lost_upload (hlimits : Platform.LimitsRaw P) (hfails : Platform.Fails P) (call : Call) {desk desk' : Desk}
    {trace : List (Exchange Op Op.Res Err)} {outcome : Except Err Answer}
    (h : Traces (Desk.working P) (call.program P adapter) desk trace outcome desk') {request : Request}
    {response : Response} (hmem : (⟨.send request, .ok response⟩ : Exchange Op Op.Res Err) ∈ trace)
    (htransfers : Op.Transfers (.send request)) (hlost : Loses response) :
    ((outcome = .error (refusal P adapter.transport response) ∧
        (refusal P adapter.transport response).kind = .incompleteUpload) ↔ Legible P adapter.transport response) ∧
      ((refusal P adapter.transport response).kind ≠ .objectUnavailable →
        (refusal P adapter.transport response).kind ≠ .objectRateLimited →
        outcome = .error (refusal P adapter.transport response)) := by
  have hends : (refusal P adapter.transport response).kind ≠ .objectUnavailable →
      (refusal P adapter.transport response).kind ≠ .objectRateLimited →
      outcome = .error (refusal P adapter.transport response) := fun hunavailable hlimited =>
    surfaces_call hfails call desk trace outcome desk' h _ hmem _
      ⟨htransfers, request, response, rfl, hlost.error, rfl, hunavailable, hlimited⟩
  refine ⟨⟨fun hfailed => (refusal_incomplete_iff hlimits hlost).mp hfailed.2, fun hlegible => ?_⟩, hends⟩
  have hkind := (refusal_incomplete_iff hlimits hlost).mpr hlegible
  refine ⟨hends ?_ ?_, hkind⟩
  · rw [hkind]
    decide
  · rw [hkind]
    decide

end Calls

namespace Sample

open MeridianOci.Model.Sample

def gonePut : Plain := { objectId := "a", text := "x" }

def opened : Response := ⟨202, [("location", "/1")], "https://registry/", [], none⟩

/-- The registry no longer knows the upload, under a status of its choice. -/
def gone (status : Nat) : Response :=
  ⟨status, (errorReply status "BLOB_UPLOAD_UNKNOWN").headers, "https://registry/",
    [(errorReply status "BLOB_UPLOAD_UNKNOWN").body], none⟩

def firstPatch : Request := .patchUpload "/1" 0 0 [1]

theorem transfers_firstPatch : Op.Transfers (.send firstPatch) := ⟨firstPatch, "/1", none, rfl, .inl rfl, rfl⟩

theorem code_gone (status : Nat) : errorCode (Json.loads (gone status).chunks.flatten) = "BLOB_UPLOAD_UNKNOWN" := by
  have hcode := providerCode_errorReply lawful status "BLOB_UPLOAD_UNKNOWN"
  rw [gone, List.flatten_singleton]
  exact Except.ok.inj hcode

theorem loses_gone {status : Nat} (herror : 400 ≤ status) (hstatus : status ∉ [401, 403, 429]) : Loses (gone status) :=
  ⟨herror, hstatus, rfl, by rw [code_gone]; exact List.mem_cons_self⟩

theorem refusal_gone (status : Nat) :
    refusal platform (adapter 0).transport (gone status) = statusError status "BLOB_UPLOAD_UNKNOWN" := by
  have hsafe : requireSafeResponseUrl platform (adapter 0).transport.binding (gone status).url = .ok () :=
    (policy 0).responseUrl_safe .ping
  have hshort : ¬ defaultResponseBytes < (([] : Bytes) ++ (errorReply status "BLOB_UPLOAD_UNKNOWN").body).length :=
    Nat.not_lt.mpr (errorReply_short (.inr (.inr rfl)))
  have hbounded : boundedResponse platform (gone status) defaultResponseBytes =
      .ok (errorReply status "BLOB_UPLOAD_UNKNOWN").bounded := by
    simp only [boundedResponse, gone, readBounded, if_neg hshort]
    rfl
  have hcode := providerCode_errorReply lawful status "BLOB_UPLOAD_UNKNOWN"
  simp only [refusal, hsafe, hbounded, responseError, hcode]
  rfl

def goneTrace (status : Nat) : List (Exchange Op Op.Res Err) :=
  [⟨.acquire, .ok ()⟩, ⟨.send .startUpload, .ok opened⟩, ⟨.openPayload ⟨"x", true, none, none⟩ 65536, .ok ⟨[[1]], none⟩⟩,
    ⟨.send firstPatch, .ok (gone status)⟩, ⟨.send (.deleteUpload "/1"), .error { kind := .other }⟩, ⟨.release, .ok ()⟩]

def goneDesk (n : Nat) : Desk := ⟨⟨[], []⟩, [.opened none, .delivered [[1]], .patched [1]].take n⟩

/-- A put whose first PATCH loses the upload. -/
theorem traces_gone {status : Nat} (herror : 400 ≤ status) {kind : ErrorKind}
    (hrefusal : refusal platform (adapter 0).transport (gone status) =
      ⟨kind, none, none, some ⟨"BLOB_UPLOAD_UNKNOWN", status⟩⟩)
    (hkind : kind = .objectNotFound ∨ kind = .incompleteUpload) :
    Traces (Desk.working platform) ((Call.execute gonePut.operation).program platform (adapter 0)) Desk.empty
      (goneTrace status) (.error ⟨kind, none, none, some ⟨"BLOB_UPLOAD_UNKNOWN", status⟩⟩) (goneDesk 3) := by
  have hjudge := @judge_refused platform (adapter 0).transport [202] (by simp) (gone status) herror
  rw [hrefusal] at hjudge
  clear hrefusal
  unfold goneTrace
  rcases hkind with rfl | rfl
  all_goals
    refine .call _ _ _ (goneDesk 0) _ _ _ _ ⟨by exact rfl, trivial⟩ ?_
    refine .call _ _ _ (goneDesk 1) _ _ _ _ ⟨by exact rfl, trivial⟩ ?_
    refine .call _ _ _ (goneDesk 2) _ _ _ _ ⟨by exact rfl, trivial⟩ ?_
    refine .call _ _ _ (goneDesk 3) _ _ _ _ ⟨by exact rfl, trivial⟩ ?_
    simp only [RegistryHttpClient.attempt, hjudge]
    refine .call _ _ _ (goneDesk 3) _ _ _ _ ⟨by exact rfl, trivial⟩ ?_
    refine .call _ _ _ (goneDesk 3) _ _ _ _ ⟨by exact rfl, trivial⟩ ?_
    exact .raise _ _

/-- An upload that is lost under status 404 is reported as a missing object. -/
theorem lost_upload_missing : Loses (gone 404) ∧
    goneTrace 404 = [⟨.acquire, .ok ()⟩, ⟨.send .startUpload, .ok opened⟩,
      ⟨.openPayload ⟨"x", true, none, none⟩ 65536, .ok ⟨[[1]], none⟩⟩, ⟨.send firstPatch, .ok (gone 404)⟩,
      ⟨.send (.deleteUpload "/1"), .error { kind := .other }⟩, ⟨.release, .ok ()⟩] ∧
    Traces (Desk.working platform) ((Call.execute gonePut.operation).program platform (adapter 0)) Desk.empty
      (goneTrace 404) (.error ⟨.objectNotFound, none, none, some ⟨"BLOB_UPLOAD_UNKNOWN", 404⟩⟩) (goneDesk 3) :=
  ⟨loses_gone (by decide) (by decide), rfl, traces_gone (by decide) (refusal_gone 404) (.inl rfl)⟩

theorem fails : Platform.Fails platform := ⟨fun _ _ _ => ⟨_, rfl⟩, _, rfl⟩

theorem limits_platform : Platform.LimitsRaw platform := fun _ _ h => nomatch h

theorem legible_gone : Legible platform (adapter 0).transport (gone 400) where
  safe := (policy 0).responseUrl_safe .ping
  short := by
    rw [gone, List.flatten_singleton]
    exact errorReply_short (.inr (.inr rfl))
  content := ⟨_, rfl, rfl, by rw [code_gone]; exact List.mem_cons_self⟩
  status := by decide

/-- Under status 400 it is reported as an incomplete upload. -/
theorem lost_upload_incomplete : Traces (Desk.working platform)
      ((Call.execute gonePut.operation).program platform (adapter 0)) Desk.empty (goneTrace 400)
      (.error (refusal platform (adapter 0).transport (gone 400))) (goneDesk 3) ∧
    (refusal platform (adapter 0).transport (gone 400)).kind = .incompleteUpload := by
  have htraces := @traces_gone 400 (by decide) _ (refusal_gone 400) (.inr rfl)
  have hmem : (⟨.send firstPatch, .ok (gone 400)⟩ : Exchange Op Op.Res Err) ∈ goneTrace 400 := by simp [goneTrace]
  obtain ⟨hends, hkind⟩ := (lost_upload limits_platform fails _ htraces hmem transfers_firstPatch
    (loses_gone (by decide) (by decide))).1.mpr legible_gone
  exact ⟨hends ▸ htraces, hkind⟩

end Sample

end MeridianOci.Service
