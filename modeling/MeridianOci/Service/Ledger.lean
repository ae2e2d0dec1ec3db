import MeridianOci.Service.Composed

/-!
# The ledger of uploads

An adapter over any registry, seen through what it sends and what it is answered. From
that log one reads off which uploads it has opened, where each was last located, and
whether a digest PUT or an abort has ended it. All that is asked of the registry is that
no two uploads are ever given one location, and that requests can be built for locations.
-/
namespace MeridianOci.Service

open MeridianOci.Data MeridianOci.Effect MeridianOci.Model

set_option autoImplicit false

variable {P : Platform}

/-! ## Logs -/

/-- An operation of the adapter and its answer. -/
abbrev Entry := (op : Op) × Except Err op.Res

/-- What a program has returned. -/
def returned {α : Type} : Action α → Option α
  | .ret value => some value
  | _ => none

/-- What a program returns when its first request is answered like this. -/
def answered {α : Type} (program : Action α) (answer : Except Err Response) : Option α :=
  match program with
  | .call (.send _) next => returned (next answer)
  | _ => none

/-- A request is answered with the status of a created resource. -/
def isCreated : Except Err Response → Bool
  | .ok response => response.status = 201
  | .error _ => false

/-- An upload: where it was located last and before, and whether it has ended. -/
structure Upload where
  location : String
  former : List String
  closed : Bool

namespace Upload

def locations (upload : Upload) : List String := upload.location :: upload.former

def move (next : String) (upload : Upload) : Upload := ⟨next, upload.location :: upload.former, upload.closed⟩

def close (upload : Upload) : Upload := { upload with closed := true }

/-- Change the upload at a location. -/
def touch (url : String) (change : Upload → Upload) (upload : Upload) : Upload :=
  if upload.location = url then change upload else upload

end Upload

variable (P) in
/-- What an entry of the log makes of the uploads. -/
def record (client : RegistryHttpClient) (uploads : List Upload) : Entry → List Upload
  | ⟨.send request, answer⟩ =>
    match request.method, request.target with
    | .post, .uploads =>
      match answered (client.startUpload P) answer with
      | some upload => uploads ++ [⟨upload.url, [], false⟩]
      | none => uploads
    | .patch, .upload url _ =>
      match answered (client.patchUpload P ⟨url, none, none, (request.contentRange.getD (0, 0)).1⟩ request.content)
        answer with
      | some next => uploads.map (Upload.touch url (Upload.move next.url))
      | none => uploads
    | .put, .upload url _ => if isCreated answer then uploads.map (Upload.touch url Upload.close) else uploads
    | .delete, .upload url _ => uploads.map (Upload.touch url Upload.close)
    | _, _ => uploads
  | _ => uploads

variable (P) in
def ledger (client : RegistryHttpClient) (log : List Entry) : List Upload := log.foldl (record P client) []

/-- No location belongs to two uploads. -/
def Distinct (uploads : List Upload) : Prop :=
  ∀ (i j : Nat) (a b : Upload), uploads[i]? = some a → uploads[j]? = some b → ∀ url, url ∈ a.locations →
    url ∈ b.locations → i = j

/-- Every request of the client to the URL can be built. -/
def Requestable (P : Platform) (url : String) : Prop := ∀ digest, (Target.upload url digest).build P = .ok ()

/-- The process of an adapter and its log; the registry keeps locations distinct and gives URLs
that requests can be built for. -/
structure Journal (P : Platform) (client : RegistryHttpClient) where
  memory : Memory
  log : List Entry
  distinct : Distinct (ledger P client log)
  requestable : ∀ upload ∈ ledger P client log, ∀ url ∈ upload.locations, Requestable P url

namespace Journal

variable {client : RegistryHttpClient}

def uploads (j : Journal P client) : List Upload := ledger P client j.log

theorem separate (j : Journal P client) : Distinct j.uploads := j.distinct

theorem build_upload (j : Journal P client) {k : Nat} {entry : Upload} (hk : j.uploads[k]? = some entry) {url : String}
    (hurl : entry.location = url) (digest : Option String) : (Target.upload url digest).build P = .ok () :=
  j.requestable entry (List.mem_of_getElem? hk) url (hurl ▸ List.mem_cons_self) digest

/-- A process that has done nothing. -/
def empty (P : Platform) (client : RegistryHttpClient) : Journal P client :=
  ⟨⟨[], []⟩, [], fun i j a b h => by simp [ledger] at h, fun upload h => by simp [ledger] at h⟩

/-- Any answer may come, except that memory and lock are the process's own. -/
def env : Environment Op Op.Res Err (Journal P client)
  | .memory update, j, answer, j' =>
    j'.log = j.log ++ [⟨.memory update, answer⟩] ∧ answer = .ok j.memory ∧ j'.memory = update j.memory
  | .acquire, j, answer, j' => j'.log = j.log ++ [⟨.acquire, answer⟩] ∧ answer = .ok () ∧ j'.memory = j.memory
  | .release, j, answer, j' => j'.log = j.log ++ [⟨.release, answer⟩] ∧ answer = .ok () ∧ j'.memory = j.memory
  | op, j, answer, j' => j'.log = j.log ++ [⟨op, answer⟩] ∧ j'.memory = j.memory

end Journal

/-- A PATCH to a location. -/
def Entry.Patches (entry : Entry) (url : String) : Prop :=
  ∃ request digest, entry.1 = .send request ∧ request.method = .patch ∧ request.target = .upload url digest

/-- No PATCH goes to an upload that has ended. -/
def Disciplined (P : Platform) (client : RegistryHttpClient) (log : List Entry) : Prop :=
  ∀ front entry rest, log = front ++ entry :: rest → ∀ url, entry.Patches url →
    ∀ upload ∈ ledger P client front, url ∈ upload.locations → upload.closed = false

namespace Journal

variable {client : RegistryHttpClient}

/-- One more operation, which is no PATCH to an upload that has ended. -/
def Advances (j j' : Journal P client) : Prop :=
  ∃ entry, j'.log = j.log ++ [entry] ∧ ∀ url, entry.Patches url →
    ∀ upload ∈ j.uploads, url ∈ upload.locations → upload.closed = false

variable {j j' : Journal P client}

theorem Advances.disciplined (h : j.Advances j') (hj : Disciplined P client j.log) :
    Disciplined P client j'.log := by
  obtain ⟨last, hlog, hlast⟩ := h
  intro front entry rest heq
  rw [hlog] at heq
  rcases List.eq_nil_or_concat rest with rfl | ⟨init, other, rfl⟩
  · obtain ⟨rfl, hentry⟩ := List.append_inj' heq rfl
    obtain rfl : last = entry := by simpa using hentry
    exact hlast
  · rw [List.concat_eq_append, ← List.cons_append, ← List.append_assoc] at heq
    exact hj front entry init (List.append_inj' heq rfl).1

theorem uploads_log {entry : Entry} (h : j'.log = j.log ++ [entry]) :
    j'.uploads = record P client j.uploads entry := by
  rw [uploads, h, ledger, List.foldl_append]
  rfl

theorem env_log {op : Op} {answer : Except Err op.Res} (h : env op j answer j') :
    j'.log = j.log ++ [⟨op, answer⟩] := by
  cases op <;> exact h.1

theorem env_memory {op : Op} {answer : Except Err op.Res} (h : env op j answer j')
    (hop : ∀ update, op ≠ .memory update) : j'.memory = j.memory := by
  cases op with
  | memory update => exact absurd rfl (hop update)
  | acquire => exact h.2.2
  | release => exact h.2.2
  | send request => exact h.2
  | openPayload payload chunkSize => exact h.2
  | register source expectedLength expectedDigest => exact h.2
  | clock => exact h.2
  | authorize => exact h.2
  | token => exact h.2

theorem env_memory_ok {update : Memory → Memory} {answer : Except Err Memory}
    (h : env (.memory update) j answer j') :
    answer = .ok j.memory ∧ j'.memory = update j.memory ∧ j'.uploads = j.uploads :=
  ⟨h.2.1, h.2.2, uploads_log h.1⟩

/-- Only a PATCH has to be watched. -/
theorem advances_env {op : Op} {answer : Except Err op.Res} (h : env op j answer j')
    (hop : ∀ request url digest, op = .send request → request.method = .patch → request.target = .upload url digest →
      ∀ upload ∈ j.uploads, url ∈ upload.locations → upload.closed = false) : j.Advances j' := by
  refine ⟨_, env_log h, ?_⟩
  rintro url ⟨request, digest, hsend, hmethod, htarget⟩
  exact hop request url digest hsend hmethod htarget

/-! ## Operations aside -/

theorem record_aside {op : Op} {answer : Except Err op.Res} (h : Op.Aside op) (uploads : List Upload) :
    record P client uploads ⟨op, answer⟩ = uploads := by
  cases op with
  | send request =>
    have htarget := h.1 request rfl
    obtain ⟨method, target, contentRange, range, content⟩ := request
    cases target with
    | uploads => cases htarget
    | upload url digest => cases htarget
    | blob digest => cases method <;> rfl
    | manifest reference => cases method <;> rfl
    | base => cases method <;> rfl
    | tags limit last => cases method <;> rfl
    | referrers subjectDigest artifactType => cases method <;> rfl
  | _ => rfl

theorem aside_ensures {α : Type} {program : Action α} (h : program.Uses Op.Aside) (j : Journal P client) :
    program.Ensures env Advances j fun _ j' => j'.memory = j.memory ∧ j'.uploads = j.uploads := by
  induction program generalizing j with
  | ret value => exact ⟨rfl, rfl⟩
  | raise error => exact ⟨rfl, rfl⟩
  | call op next ih =>
    intro answer j' henv
    have huploads : j'.uploads = j.uploads := by
      rw [uploads_log (env_log henv), record_aside h.1]
    have hmemory := env_memory henv h.1.2
    refine ⟨advances_env henv ?_, (ih answer (h.2 answer) j').mono ?_⟩
    · rintro request url digest rfl - htarget
      have hnot := h.1.1 request rfl
      rw [htarget] at hnot
      cases hnot
    · rintro outcome j'' ⟨hmemory', huploads'⟩
      exact ⟨hmemory'.trans hmemory, huploads'.trans huploads⟩

/-! ## Requests that are sent once -/

/-- A program that sends one request and computes its outcome from the answer. -/
def Once {α : Type} (request : Request) (program : Action α) : Prop :=
  ∃ next, program = .call (.send request) next ∧ ∀ answer, (next answer).Uses fun _ => False

theorem once_request (client : RegistryHttpClient) {request : Request} (hbuild : request.target.build P = .ok ())
    (expected : List Nat) (maximumBytes : Nat) :
    Once request (client.request P request expected false maximumBytes) := by
  rw [request_attempt hbuild]
  refine ⟨_, rfl, fun answer => ?_⟩
  unfold RegistryHttpClient.judge
  repeat' split
  all_goals trivial

theorem Once.bind {α β : Type} {request : Request} {program : Action α} {next : α → Action β} (h : Once request program)
    (hnext : ∀ value, (next value).Uses fun _ => False) : Once request (program >>= next) := by
  obtain ⟨rest, rfl, hrest⟩ := h
  exact ⟨_, rfl, fun answer => (hrest answer).bind hnext⟩

theorem uses_false {α : Type} {program : Action α} (h : program.Uses fun _ => False) :
    (∃ value, program = .ret value) ∨ ∃ error, program = .raise error := by
  cases program with
  | ret value => exact .inl ⟨value, rfl⟩
  | raise error => exact .inr ⟨error, rfl⟩
  | call op next => exact h.1.elim

theorem answered_bind {α β : Type} {request : Request} {program : Action α} (h : Once request program)
    (next : α → Action β) (answer : Except Err Response) :
    answered (program >>= next) answer = (answered program answer).bind fun value => returned (next value) := by
  obtain ⟨rest, rfl, hrest⟩ := h
  change returned (rest answer >>= next) = (returned (rest answer)).bind _
  rcases uses_false (hrest answer) with ⟨value, heq⟩ | ⟨error, heq⟩
  · rw [heq]
    rfl
  · rw [heq]
    rfl

theorem Once.ensures {α : Type} {request : Request} {program : Action α} (h : Once request program)
    (hpatch : ∀ url digest, request.method = .patch → request.target = .upload url digest →
      ∀ upload ∈ j.uploads, url ∈ upload.locations → upload.closed = false) :
    program.Ensures env Advances j fun outcome j' => j'.memory = j.memory ∧ ∃ answer,
      j'.uploads = record P client j.uploads ⟨.send request, answer⟩ ∧
      match outcome with
      | .ok value => answered program answer = some value
      | .error _ => answered program answer = none := by
  obtain ⟨next, rfl, hnext⟩ := h
  intro answer j' henv
  have hmemory := env_memory henv (by rintro update ⟨⟩)
  refine ⟨advances_env henv (by rintro other url digest ⟨⟩; exact hpatch url digest), ?_⟩
  rcases uses_false (hnext answer) with ⟨value, heq⟩ | ⟨error, heq⟩
  · rw [heq]
    exact ⟨hmemory, answer, uploads_log (env_log henv), by simp only [answered, heq, returned]⟩
  · rw [heq]
    exact ⟨hmemory, answer, uploads_log (env_log henv), by simp only [answered, heq, returned]⟩

/-! ## Changes of one upload -/

/-- A change at a location concerns the upload that is there. -/
theorem map_touch {uploads : List Upload} (hdistinct : Distinct uploads) {k : Nat} {upload : Upload}
    (hk : uploads[k]? = some upload) {url : String} (hurl : upload.location = url) (change : Upload → Upload) :
    uploads.map (Upload.touch url change) = uploads.set k (change upload) := by
  refine List.ext_getElem? fun i => ?_
  rw [List.getElem?_map, List.getElem?_set]
  by_cases hi : k = i
  · subst hi
    obtain ⟨hlt, -⟩ := List.getElem?_eq_some_iff.mp hk
    rw [hk, if_pos rfl, if_pos hlt, Option.map_some, Upload.touch, if_pos hurl]
  · rw [if_neg hi]
    cases hother : uploads[i]? with
    | none => rfl
    | some other =>
      have hne : other.location ≠ url := by
        intro heq
        exact hi (hdistinct k i upload other hk hother url (hurl ▸ List.mem_cons_self) (heq ▸ List.mem_cons_self))
      simp [Upload.touch, hne]

section Methods

theorem once_startUpload : Once .startUpload (client.startUpload P) := by
  refine (once_request client (rfl : Request.startUpload.target.build P = .ok ()) [202] defaultResponseBytes).bind fun response => ?_
  refine (uses_lift _).bind fun url => ?_
  dsimp only
  repeat' split
  all_goals trivial

theorem startUpload_journal (j : Journal P client) :
    (client.startUpload P).Ensures env Advances j fun outcome j' => j'.memory = j.memory ∧
      match outcome with
      | .ok upload => j'.uploads = j.uploads ++ [⟨upload.url, [], false⟩]
      | .error _ => j'.uploads = j.uploads := by
  refine (once_startUpload.ensures (by rintro url digest ⟨⟩)).mono ?_
  rintro outcome j' ⟨hmemory, answer, huploads, houtcome⟩
  refine ⟨hmemory, ?_⟩
  cases outcome with
  | ok upload => simpa [record, Request.startUpload, houtcome] using huploads
  | error error => simpa [record, Request.startUpload, houtcome] using huploads

theorem once_patchUpload {upload : UploadLocation} (hbuild : (Target.upload upload.url none).build P = .ok ())
    {chunk : Bytes} (hchunk : chunk ≠ []) :
    Once (.patchUpload upload.url upload.offset (upload.offset + chunk.length - 1) chunk)
      (client.patchUpload P upload chunk) := by
  rw [RegistryHttpClient.patchUpload, if_neg hchunk]
  refine (once_request client hbuild [202] defaultResponseBytes).bind fun response => ?_
  split
  · trivial
  · exact (uses_lift _).bind fun url => trivial

/-- What a PATCH is answered with does not depend on the upload's other fields. -/
theorem answered_patchUpload {upload : UploadLocation} (hbuild : (Target.upload upload.url none).build P = .ok ())
    (chunk : Bytes) (answer : Except Err Response) :
    (answered (client.patchUpload P upload chunk) answer).map UploadLocation.url =
      (answered (client.patchUpload P ⟨upload.url, none, none, upload.offset⟩ chunk) answer).map
        UploadLocation.url := by
  by_cases hchunk : chunk = []
  · rw [RegistryHttpClient.patchUpload, RegistryHttpClient.patchUpload, if_pos hchunk, if_pos hchunk]
  rw [RegistryHttpClient.patchUpload, RegistryHttpClient.patchUpload, if_neg hchunk, if_neg hchunk,
    answered_bind (once_request client hbuild _ _), answered_bind (once_request client hbuild _ _), Option.map_bind,
    Option.map_bind]
  congr 1
  funext response
  dsimp only [Function.comp]
  split
  · rfl
  · cases location P client.binding response.headers <;> rfl

theorem patchUpload_journal {k : Nat} {entry : Upload} (hk : j.uploads[k]? = some entry)
    (hopen : entry.closed = false) {upload : UploadLocation} (hurl : entry.location = upload.url) (chunk : Bytes) :
    (client.patchUpload P upload chunk).Ensures env Advances j fun outcome j' => j'.memory = j.memory ∧
      match outcome with
      | .ok next => j'.uploads = j.uploads.set k (entry.move next.url)
      | .error _ => j'.uploads = j.uploads := by
  by_cases hchunk : chunk = []
  · rw [RegistryHttpClient.patchUpload, if_pos hchunk]
    exact ⟨rfl, rfl⟩
  have hbuild := j.build_upload hk hurl none
  refine ((once_patchUpload hbuild hchunk).ensures ?_).mono ?_
  · rintro url digest - ⟨⟩ other hother hlocation
    obtain ⟨i, hi, rfl⟩ := List.mem_iff_getElem.mp hother
    have hsame := j.separate k i entry _ hk (List.getElem?_eq_getElem hi) upload.url (hurl ▸ List.mem_cons_self) hlocation
    subst hsame
    rw [List.getElem?_eq_getElem hi] at hk
    rw [Option.some.inj hk, hopen]
  · rintro outcome j' ⟨hmemory, answer, huploads, houtcome⟩
    refine ⟨hmemory, ?_⟩
    have hsame := @answered_patchUpload P client upload hbuild chunk answer
    simp only [record, Request.patchUpload, Option.getD_some] at huploads
    cases outcome with
    | ok next =>
      dsimp only at houtcome ⊢
      rw [houtcome] at hsame
      obtain ⟨other, hother, hnext⟩ := Option.map_eq_some_iff.mp hsame.symm
      rw [hother] at huploads
      rw [← hnext, huploads]
      exact map_touch j.separate hk hurl _
    | error error =>
      dsimp only at houtcome ⊢
      rw [houtcome] at hsame
      rw [Option.map_eq_none_iff.mp hsame.symm] at huploads
      exact huploads

/-- What a request that is sent once returns, it reads off a safe answer. -/
theorem request_answered {request : Request} (hbuild : request.target.build P = .ok ()) {expected : List Nat}
    {maximumBytes : Nat} {answer : Except Err Response} {bounded : BoundedResponse}
    (h : answered (client.request P request expected false maximumBytes) answer = some bounded) :
    ∃ response, answer = .ok response ∧ (∃ body, bounded.headers = withLength response.headers body) ∧
      bounded.status = response.status ∧ response.status ∈ expected := by
  rw [request_attempt hbuild] at h
  have hjudge : client.judge P expected maximumBytes 0 (.raise (.of .objectUnavailable "OCI registry request failed"))
      answer = .ret bounded := by
    change returned (client.judge P expected maximumBytes 0
      (.raise (.of .objectUnavailable "OCI registry request failed")) answer) = some bounded at h
    generalize client.judge P expected maximumBytes 0 _ answer = outcome at h
    cases outcome with
    | ret value => rw [Option.some.inj h]
    | raise error => cases h
    | call op next => cases h
  rcases judge_ret hjudge with hraise | ⟨response, hanswer, -, hread, hstatus⟩
  · cases hraise
  · obtain ⟨hsame, hheaders⟩ := boundedResponse_ok hread
    exact ⟨response, hanswer, hheaders, hsame, hsame ▸ hstatus⟩

/-- A digest PUT that returns was answered with the status of a created resource. -/
theorem created_of_answered {α : Type} {request : Request} (hbuild : request.target.build P = .ok ()) {maximumBytes : Nat} {next : BoundedResponse → Action α}
    {answer : Except Err Response} {value : α}
    (h : answered (client.request P request [201] false maximumBytes >>= next) answer = some value) :
    isCreated answer = true := by
  rw [answered_bind (once_request client hbuild _ _)] at h
  obtain ⟨bounded, hbounded, -⟩ := Option.bind_eq_some_iff.mp h
  obtain ⟨response, rfl, -, -, hstatus⟩ := request_answered hbuild hbounded
  rw [List.mem_singleton] at hstatus
  simp [isCreated, hstatus]

/-- A digest PUT ends the upload if it is accepted. -/
theorem putUpload_ensures {α : Type} {k : Nat} {entry : Upload} (hk : j.uploads[k]? = some entry) {url digest : String}
    (hurl : entry.location = url) (content : Bytes) {next : BoundedResponse → Action α}
    (hnext : ∀ response, (next response).Uses fun _ => False) :
    (client.request P (.putUpload url digest content) [201] false defaultResponseBytes >>= next).Ensures env Advances j
      fun outcome j' => j'.memory = j.memory ∧
        match outcome with
        | .ok _ => j'.uploads = j.uploads.set k entry.close
        | .error _ => j'.uploads = j.uploads ∨ j'.uploads = j.uploads.set k entry.close := by
  have hbuild : (Request.putUpload url digest content).target.build P = .ok () := j.build_upload hk hurl (some digest)
  refine (((once_request client hbuild [201] defaultResponseBytes).bind hnext).ensures (by rintro url digest ⟨⟩)).mono ?_
  rintro outcome j' ⟨hmemory, answer, huploads, houtcome⟩
  refine ⟨hmemory, ?_⟩
  have hput : j'.uploads = if isCreated answer then j.uploads.map (Upload.touch url Upload.close) else j.uploads :=
    huploads
  rw [map_touch j.separate hk hurl] at hput
  cases outcome with
  | ok value =>
    rw [if_pos (created_of_answered hbuild houtcome)] at hput
    exact hput
  | error error =>
    split at hput
    · exact .inr hput
    · exact .inl hput

theorem finishUpload_journal {k : Nat} {entry : Upload} (hk : j.uploads[k]? = some entry) {upload : UploadLocation}
    (hurl : entry.location = upload.url) (digest : String) :
    (client.finishUpload P upload digest).Ensures env Advances j fun outcome j' => j'.memory = j.memory ∧
      match outcome with
      | .ok _ => j'.uploads = j.uploads.set k entry.close
      | .error _ => j'.uploads = j.uploads ∨ j'.uploads = j.uploads.set k entry.close := by
  have hidle : ∀ response : BoundedResponse, (if (header response.headers "docker-content-digest").getD digest ≠ digest then
      throw (.of .digestMismatch "registry finalized the blob under a different digest")
      else Action.lift (OciDescriptor.new P "application/octet-stream" digest upload.offset) :
        Action (OciDescriptor P)).Uses fun _ => False := by
    intro response
    split
    · trivial
    · exact uses_lift _
  refine (putUpload_ensures hk hurl [] hidle).mono ?_
  rintro (error | descriptor) j' h
  · exact h
  · exact h

theorem close_close (upload : Upload) : upload.close.close = upload.close := rfl

/-- An abort is issued for the upload, whatever becomes of it. -/
theorem abortSafely_journal {k : Nat} {entry : Upload} (hk : j.uploads[k]? = some entry) {upload : UploadLocation}
    (hurl : entry.location = upload.url) :
    (client.abortSafely P upload).Ensures env Advances j fun outcome j' => j'.memory = j.memory ∧
      j'.uploads = j.uploads.set k entry.close ∧ ∃ value, outcome = .ok value := by
  -- every attempt issues the DELETE
  have hdelete : ∀ {α : Type} (program : Action α), program.Uses (· = .send (.deleteUpload upload.url)) →
      ∀ (j : Journal P client) (entry : Upload), j.uploads[k]? = some entry → entry.location = upload.url →
      program.Ensures env Advances j fun _ j' => j'.memory = j.memory ∧
        (j'.uploads = j.uploads.set k entry.close ∨ (j'.uploads = j.uploads ∧ ∀ op next, program ≠ .call op next)) := by
    intro α program huses
    induction program with
    | ret value => exact fun j entry hk hurl => ⟨rfl, .inr ⟨rfl, fun op next h => by cases h⟩⟩
    | raise error => exact fun j entry hk hurl => ⟨rfl, .inr ⟨rfl, fun op next h => by cases h⟩⟩
    | call op next ih =>
      intro j entry hk hurl answer j' henv
      obtain ⟨rfl, hrest⟩ := huses
      have hmemory := env_memory henv (by rintro update ⟨⟩)
      have huploads : j'.uploads = j.uploads.set k entry.close := by
        rw [← map_touch j.separate hk hurl]
        exact uploads_log (env_log henv)
      obtain ⟨hlt, -⟩ := List.getElem?_eq_some_iff.mp hk
      have hk' : j'.uploads[k]? = some entry.close := by
        rw [huploads, List.getElem?_set_self hlt]
      refine ⟨advances_env henv (by rintro other url digest ⟨⟩ ⟨⟩), (ih answer (hrest answer) j' _ hk' hurl).mono ?_⟩
      rintro outcome j'' ⟨hmemory', huploads'⟩
      refine ⟨hmemory'.trans hmemory, .inl ?_⟩
      rcases huploads' with h | ⟨h, -⟩
      · rw [h, huploads, List.set_set, close_close]
      · rw [h, huploads]
  have huses : (client.abortUpload P upload).Uses (· = .send (.deleteUpload upload.url)) :=
    (uses_request client _ [204, 404] true defaultResponseBytes).bind fun _ => trivial
  refine (hdelete _ huses j entry hk hurl).handle ?_
  rintro outcome j' ⟨hmemory, h⟩
  refine ⟨hmemory, h.resolve_right ?_, (), rfl⟩
  rintro ⟨-, hnot⟩
  obtain ⟨left, hleft⟩ := Nat.exists_eq_add_of_le' client.maxReadAttempts_pos
  obtain ⟨op, next, hcall⟩ : ∃ op next, client.abortUpload P upload = .call op next := by
    rw [RegistryHttpClient.abortUpload, request_attempt (j.build_upload hk hurl none), if_pos rfl, hleft,
      RegistryHttpClient.attempt]
    exact ⟨_, _, rfl⟩
  exact hnot op next hcall

end Methods

/-! ## Programs that end the uploads they open -/

/-- Uploads may have been opened, and have ended. -/
structure Settles (j j' : Journal P client) : Prop where
  memory : j'.memory = j.memory
  uploads : ∃ extra, j'.uploads = j.uploads ++ extra ∧ ∀ upload ∈ extra, upload.closed = true

/-- An upload was opened, which is now at this location. -/
structure Opens (url : String) (entry : Upload) (j j' : Journal P client) : Prop where
  memory : j'.memory = j.memory
  uploads : j'.uploads = j.uploads ++ [entry]
  location : entry.location = url

variable {j'' : Journal P client} {url : String} {entry : Upload}

theorem Settles.refl (j : Journal P client) : j.Settles j := ⟨rfl, [], (List.append_nil _).symm, fun _ h => by cases h⟩

theorem Settles.of_same (hmemory : j'.memory = j.memory) (huploads : j'.uploads = j.uploads) : j.Settles j' :=
  ⟨hmemory, [], by rw [huploads, List.append_nil], fun _ h => by cases h⟩

theorem Settles.trans (h : j.Settles j') (h' : j'.Settles j'') : j.Settles j'' := by
  obtain ⟨extra, huploads, hclosed⟩ := h.uploads
  obtain ⟨more, huploads', hclosed'⟩ := h'.uploads
  refine ⟨h'.memory.trans h.memory, extra ++ more, by rw [huploads', huploads, List.append_assoc], ?_⟩
  intro upload hupload
  rcases List.mem_append.mp hupload with hmem | hmem
  · exact hclosed upload hmem
  · exact hclosed' upload hmem

namespace Opens

theorem get (h : Opens url entry j j') : j'.uploads[j.uploads.length]? = some entry := by
  rw [h.uploads, List.getElem?_append_right le_rfl, Nat.sub_self]
  rfl

theorem set (h : Opens url entry j j') (other : Upload) :
    j'.uploads.set j.uploads.length other = j.uploads ++ [other] := by
  rw [h.uploads, List.set_append_right _ _ le_rfl, Nat.sub_self]
  rfl

theorem settles (h : Opens url entry j j') (hmemory : j''.memory = j'.memory)
    (huploads : j''.uploads = j'.uploads.set j.uploads.length entry.close) : j.Settles j'' := by
  refine ⟨hmemory.trans h.memory, [entry.close], by rw [huploads, h.set], ?_⟩
  intro upload hupload
  rw [List.mem_singleton.mp hupload]
  rfl

end Opens

/-- The upload is aborted and the error raised. -/
theorem abandon_journal {adapter : OciDistributionAdapter} {j₀ j : Journal P adapter.transport} {α : Type}
    {upload : UploadLocation} {entry : Upload} (h : Opens upload.url entry j₀ j) (error : Err) :
    (adapter.abandon P (some upload) error : Action α).Ensures env Advances j fun outcome j' =>
      j₀.Settles j' ∧ outcome = .error error := by
  refine (abortSafely_journal h.get h.location).bind ?_ ?_
  · rintro ⟨⟩ j' ⟨hmemory, huploads, -⟩
    exact ⟨h.settles hmemory huploads, rfl⟩
  · rintro failure j' ⟨-, -, value, hok⟩
    cases hok

theorem uploadBlobBytes_journal (j : Journal P client) (value : Bytes) (mediaType : String) :
    (client.uploadBlobBytes P value mediaType).Ensures env Advances j fun _ j' => j.Settles j' := by
  unfold RegistryHttpClient.uploadBlobBytes
  dsimp only
  refine (aside_ensures ((reads_headBlob P client _).mono fun _ => Op.Reads.aside) j).bind ?_ ?_
  · rintro existing j₁ ⟨hmemory, huploads⟩
    have hsame := Settles.of_same hmemory huploads
    cases existing with
    | some existing =>
      dsimp only
      split
      · exact hsame
      · exact Prog.ensures_ofExcept.mpr hsame
    | none =>
      refine (startUpload_journal j₁).bind ?_ ?_
      · rintro upload j₂ ⟨hmemory₂, huploads₂⟩
        have hopens : Opens upload.url ⟨upload.url, [], false⟩ j₁ j₂ := ⟨hmemory₂, huploads₂, rfl⟩
        have hidle : ∀ response : BoundedResponse,
            (if (header response.headers "docker-content-digest").getD (sha256Digest P value) ≠ sha256Digest P value then
              throw (.of .digestMismatch "registry stored a different blob digest")
            else pure () : Action Unit).Uses fun _ => False := by
          intro response
          split <;> trivial
        refine Prog.Ensures.bind (R := fun _ j' => j.Settles j') ?_ ?_ fun _ _ h => h
        · refine (putUpload_ensures hopens.get hopens.location value hidle).handle ?_
          rintro (error | done) j₃ ⟨hmemory₃, h₃⟩
          · have hopens₃ : ∃ entry, Opens upload.url entry j₁ j₃ := by
              rcases h₃ with h₃ | h₃
              · exact ⟨_, hmemory₃.trans hmemory₂, h₃.trans huploads₂, rfl⟩
              · exact ⟨_, hmemory₃.trans hmemory₂, h₃.trans (hopens.set _), rfl⟩
            obtain ⟨entry, hopens₃⟩ := hopens₃
            refine (abortSafely_journal hopens₃.get hopens₃.location).bind ?_ ?_
            · rintro ⟨⟩ j₄ ⟨hmemory₄, huploads₄, -⟩
              exact hsame.trans (hopens₃.settles hmemory₄ huploads₄)
            · rintro failure j₄ ⟨-, -, value, hok⟩
              cases hok
          · exact hsame.trans (hopens.settles hmemory₃ h₃)
        · rintro ⟨⟩ j₃ h
          exact Prog.ensures_ofExcept.mpr h
      · rintro error j₂ ⟨hmemory₂, huploads₂⟩
        exact hsame.trans (.of_same hmemory₂ huploads₂)
  · rintro error j₁ ⟨hmemory, huploads⟩
    exact .of_same hmemory huploads

/-! ## The upload of a payload -/

section Payload

variable {adapter : OciDistributionAdapter} {j₀ j : Journal P adapter.transport} {α : Type}

/-- The upload of an attempt, if it has one, is open and the only new one. -/
def Carries (j₀ : Journal P adapter.transport) (upload : Option UploadLocation) (j : Journal P adapter.transport) : Prop :=
  match upload with
  | none => j₀.Settles j
  | some location => ∃ entry, entry.closed = false ∧ Opens location.url entry j₀ j

theorem Carries.same {upload : Option UploadLocation} {j' : Journal P adapter.transport} (h : Carries j₀ upload j)
    (hmemory : j'.memory = j.memory) (huploads : j'.uploads = j.uploads) : Carries j₀ upload j' := by
  cases upload with
  | none => exact Settles.trans h (.of_same hmemory huploads)
  | some location =>
    obtain ⟨entry, hopen, h⟩ := h
    exact ⟨entry, hopen, hmemory.trans h.memory, huploads.trans h.uploads, h.location⟩

theorem abandon_carried {upload : Option UploadLocation} (h : Carries j₀ upload j) (error : Err) :
    (adapter.abandon P upload error : Action α).Ensures env Advances j fun outcome j' =>
      j₀.Settles j' ∧ outcome = .error error := by
  cases upload with
  | none => exact ⟨h, rfl⟩
  | some location =>
    obtain ⟨entry, -, h⟩ := h
    exact abandon_journal h error

theorem orAbandon_aside {upload : Option UploadLocation} (h : Carries j₀ upload j) {action : Action α}
    (haside : action.Uses Op.Aside) :
    (adapter.orAbandon P upload action).Ensures env Advances j fun outcome j' =>
      match outcome with
      | .ok _ => Carries j₀ upload j'
      | .error _ => j₀.Settles j' := by
  refine (aside_ensures haside j).handle ?_
  rintro (error | value) j' ⟨hmemory, huploads⟩
  · refine (abandon_carried (h.same hmemory huploads) error).mono ?_
    rintro _ j'' ⟨hsettles, rfl⟩
    exact hsettles
  · exact h.same hmemory huploads

theorem sendChunks_journal (payload : PayloadReference) (chunks : List Bytes) {upload : Option UploadLocation}
    (h : Carries j₀ upload j) (hashed : Bytes) (length : Nat) :
    (adapter.sendChunks P payload chunks upload hashed length).Ensures env Advances j fun outcome j' =>
      match outcome with
      | .ok result => Carries j₀ result.1 j' ∧ (result.1.isSome ↔ upload.isSome)
      | .error _ => j₀.Settles j' := by
  induction chunks generalizing j upload hashed length with
  | nil => exact ⟨h, Iff.rfl⟩
  | cons chunk rest ih =>
    have habandon : ∀ error : Err, (adapter.abandon P upload error :
        Action (Option UploadLocation × Bytes × Nat)).Ensures env Advances j fun outcome j' =>
          match outcome with
          | .ok result => Carries j₀ result.1 j' ∧ (result.1.isSome ↔ upload.isSome)
          | .error _ => j₀.Settles j' := by
      intro error
      refine (abandon_carried h error).mono ?_
      rintro _ j' ⟨hsettles, rfl⟩
      exact hsettles
    unfold OciDistributionAdapter.sendChunks
    dsimp only
    split
    · exact habandon _
    split
    · exact habandon _
    cases upload with
    | none => exact ih h _ _
    | some location =>
      obtain ⟨entry, hopen, hopens⟩ := h
      dsimp only
      refine Prog.Ensures.bind (R := fun outcome j' =>
        match outcome with
        | .ok next => Carries j₀ (some next) j'
        | .error _ => j₀.Settles j') ?_ ?_ fun _ _ h => h
      · refine (patchUpload_journal hopens.get hopen hopens.location chunk).handle ?_
        rintro (error | next) j' ⟨hmemory, huploads⟩
        · have hcarries : Carries j₀ (some location) j' :=
            Carries.same ⟨entry, hopen, hopens⟩ hmemory huploads
          refine (abandon_carried hcarries error).mono ?_
          rintro _ j'' ⟨hsettles, rfl⟩
          exact hsettles
        · exact ⟨entry.move next.url, hopen, hmemory.trans hopens.memory, huploads.trans (hopens.set _), rfl⟩
      · intro next j' hnext
        refine (ih hnext _ _).mono ?_
        rintro (error | result) j'' hresult
        · exact hresult
        · exact hresult

theorem transferTo_journal (payload : PayloadReference) (existing : Option (OciDescriptor P))
    {upload : Option UploadLocation} (h : Carries j₀ upload j) (hsome : existing.isSome = upload.isNone) :
    (adapter.transferTo P payload existing upload).Ensures env Advances j fun _ j' => j₀.Settles j' := by
  unfold OciDistributionAdapter.transferTo
  refine (orAbandon_aside h (aside_openPayload payload _)).bind ?_ fun _ _ h => h
  intro stream j₁ h₁
  refine (sendChunks_journal payload stream.chunks h₁ [] 0).bind ?_ fun _ _ h => h
  rintro ⟨upload', hashed, length⟩ j₂ ⟨h₂, hupload'⟩
  dsimp only at h₂ hupload' ⊢
  have habandon : ∀ (error : Err) (j : Journal P adapter.transport), Carries j₀ upload' j →
      (adapter.abandon P upload' error : Action ContentIdentity).Ensures env Advances j fun _ j' => j₀.Settles j' :=
    fun error j hcarries => (abandon_carried hcarries error).mono fun _ _ h => h.1
  cases stream.failure with
  | some failure => exact habandon failure j₂ h₂
  | none =>
    dsimp only
    refine (orAbandon_aside h₂ (aside_lift _)).bind ?_ fun _ _ h => h
    rintro ⟨⟩ j₃ h₃
    cases existing with
    | some existing =>
      dsimp only
      split
      · exact habandon _ j₃ h₃
      · cases upload' with
        | none => exact h₃
        | some location =>
          obtain rfl : upload = none := by simpa using hsome
          simp at hupload'
    | none =>
      cases upload' with
      | none =>
        have hnone : upload.isNone = true := by
          cases upload with
          | none => rfl
          | some location => simp at hupload'
        rw [hnone] at hsome
        cases hsome
      | some location =>
        obtain ⟨entry, hopen, hopens⟩ := h₃
        dsimp only
        refine Prog.Ensures.bind (R := fun _ j' => j₀.Settles j') ?_ (fun _ _ h => h) fun _ _ h => h
        refine (finishUpload_journal hopens.get hopens.location _).handle ?_
        rintro (error | descriptor) j₄ ⟨hmemory, huploads⟩
        · have hopens' : ∃ entry, Opens location.url entry j₀ j₄ := by
            rcases huploads with huploads | huploads
            · exact ⟨entry, hmemory.trans hopens.memory, huploads.trans hopens.uploads, hopens.location⟩
            · exact ⟨entry.close, hmemory.trans hopens.memory, huploads.trans (hopens.set _), hopens.location⟩
          obtain ⟨entry', hopens'⟩ := hopens'
          exact (abandon_journal hopens' error).mono fun _ _ h => h.1
        · exact hopens.settles hmemory huploads

theorem transfer_journal (payload : PayloadReference) (existing : Option (OciDescriptor P))
    (j : Journal P adapter.transport) :
    (adapter.transfer P payload existing).Ensures env Advances j fun _ j' => j.Settles j' := by
  cases existing with
  | some existing => exact @transferTo_journal P adapter j j payload (some existing) none (Settles.refl j) rfl
  | none =>
    refine (startUpload_journal j).bind ?_ ?_
    · rintro upload j' ⟨hmemory, huploads⟩
      exact @transferTo_journal P adapter j j' payload none (some upload)
        ⟨⟨upload.url, [], false⟩, rfl, hmemory, huploads, rfl⟩ rfl
    · rintro error j' ⟨hmemory, huploads⟩
      exact .of_same hmemory huploads

theorem uploadAttempt_journal (payload : PayloadReference) (left : Nat) (j : Journal P adapter.transport) :
    (adapter.uploadAttempt P payload left).Ensures env Advances j fun _ j' => j.Settles j' := by
  induction left generalizing j with
  | zero => exact .refl j
  | succ left ih =>
    rw [uploadAttempt_succ]
    refine Prog.Ensures.bind (R := fun _ j₁ => j.Settles j₁) ?_ ?_ fun _ _ h => h
    · unfold lookBefore
      cases payload.expectedDigest with
      | none => exact .refl j
      | some digest =>
        refine (aside_ensures ((reads_headBlob P adapter.transport digest).mono fun _ => Op.Reads.aside) j).mono ?_
        rintro _ j₁ ⟨hmemory, huploads⟩
        exact .of_same hmemory huploads
    · -- the rest of the turn, from what the HEAD found
      intro existing j₁ hsame
      refine (transfer_journal payload existing j₁).handle ?_
      rintro (error | identity) j₂ h
      · dsimp only [afterTransfer]
        split
        · exact (ih j₂).mono fun _ _ hlast => (hsame.trans h).trans hlast
        · exact hsame.trans h
      · exact hsame.trans h

end Payload

/-! ## Operations of the data plane -/

/-- A program that ends every upload it opens. -/
def Settling {α : Type} (client : RegistryHttpClient) (program : Action α) : Prop :=
  ∀ j : Journal P client, program.Ensures env Advances j fun _ j' => j.Settles j'

theorem compositional_settling (client : RegistryHttpClient) :
    Compositional fun α program => @Settling P α client program where
  aside h j := by
    refine (aside_ensures h j).mono ?_
    rintro outcome j' ⟨hmemory, huploads⟩
    exact .of_same hmemory huploads
  handle h hnext j := by
    refine (h j).handle fun outcome j' hfirst => ?_
    exact (hnext outcome j').mono fun _ _ hlast => hfirst.trans hlast

theorem settling_of_aside {α : Type} {program : Action α} (h : program.Uses Op.Aside) :
    @Settling P α client program := (compositional_settling client).aside h

section Operations

variable (P) (adapter : OciDistributionAdapter)

theorem settling_commitObject (value : PutInput) (identity : ContentIdentity) (immutability : ImmutabilityRequest)
    (retention : Option RetentionRequest) (createOnly : Bool) : @Settling P _ adapter.transport
      (adapter.commitObject P value identity immutability retention createOnly) :=
  ((compositional_settling adapter.transport).sequential P).commitObject
    (fun value mediaType j => uploadBlobBytes_journal j value mediaType) value identity immutability retention createOnly

theorem settling_execute (operation : Operation) :
    @Settling P _ adapter.transport (adapter.execute P operation) :=
  ((compositional_settling adapter.transport).sequential P).execute (fun value mediaType j => uploadBlobBytes_journal j value mediaType)
    (fun payload j => uploadAttempt_journal payload _ j) operation

end Operations

end Journal

end MeridianOci.Service
