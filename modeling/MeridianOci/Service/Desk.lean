import MeridianOci.Service.Ledger

/-!
# An adapter beside any registry

The weakest world of an adapter: its objects are its own, and everything else may be
answered in any way. What is kept of the answers is what an upload is made of, from the
request that opened it to the one that finalises it.
-/
namespace MeridianOci.Service

open MeridianOci.Data MeridianOci.Effect MeridianOci.Model

set_option autoImplicit false

/-- A step of an upload, or a reading of the clock. -/
inductive Sighting where
  | opened (minimum : Option Nat)
  | delivered (chunks : List Bytes)
  | patched (chunk : Bytes)
  | finalised
  | told (reading : DateTime)

/-- The process of an adapter, and what was seen of its uploads. -/
structure Desk where
  memory : Memory
  seen : List Sighting

variable (P : Platform)

/-- The minimum chunk length in the answer that opens an upload. -/
def announced : Except Err Response → Option Nat
  | .ok response =>
    match header response.headers "oci-chunk-min-length" with
    | some minimum => if P.isdigit minimum then P.int minimum else none
    | none => none
  | .error _ => none

def observe : (op : Op) → Except Err op.Res → List Sighting
  | .send request, answer =>
    match request.method, request.target with
    | .post, .uploads => [.opened (announced P answer)]
    | .patch, .upload _ _ => [.patched request.content]
    | .put, .upload _ _ => [.finalised]
    | _, _ => []
  | .openPayload _ _, .ok stream => [.delivered stream.chunks]
  | .clock, .ok reading => [.told reading]
  | _, _ => []

namespace Desk

/-- Any answer may come, except that memory is the process's own. -/
def env : Environment Op Op.Res Err Desk
  | .memory update, desk, answer, desk' => answer = .ok desk.memory ∧ desk' = { desk with memory := update desk.memory }
  | op, desk, answer, desk' => desk' = { desk with seen := desk.seen ++ observe P op answer }

/-- A process that has done nothing. -/
def empty : Desk := ⟨⟨[], []⟩, []⟩

variable {P}

theorem remembers : Remembers (env P) (fun _ _ => True) Desk.memory
    fun desk memory desk' => desk' = { desk with memory } where
  step := fun _ _ _ _ h => ⟨trivial, h⟩

theorem env_other {op : Op} {desk desk' : Desk} {answer : Except Err op.Res} (h : env P op desk answer desk')
    (hop : ∀ update, op ≠ .memory update) : desk' = { desk with seen := desk.seen ++ observe P op answer } := by
  cases op with
  | memory update => exact absurd rfl (hop update)
  | _ => exact h

/-- A program that leaves the memory alone extends what was seen by what its operations show. -/
theorem extends_ensures {α : Type} {program : Action α} {A : Op → Prop} {shown : Sighting → Prop} (h : program.Uses A)
    (hmemory : ∀ op, A op → ∀ update, op ≠ .memory update)
    (hshown : ∀ op, A op → ∀ answer, ∀ item ∈ observe P op answer, shown item) (desk : Desk) :
    program.Ensures (env P) (fun _ _ => True) desk fun _ desk' => ∃ extra, (∀ item ∈ extra, shown item) ∧
      desk' = { desk with seen := desk.seen ++ extra } := by
  induction program generalizing desk with
  | ret value => exact ⟨[], by simp, by simp⟩
  | raise error => exact ⟨[], by simp, by simp⟩
  | call op next ih =>
    intro answer desk' henv
    obtain rfl := env_other henv (hmemory op h.1)
    refine ⟨trivial, (ih answer (h.2 answer) _).mono ?_⟩
    rintro outcome desk' ⟨extra, hextra, rfl⟩
    refine ⟨observe P op answer ++ extra, ?_, by simp⟩
    intro item hitem
    rcases List.mem_append.mp hitem with hmem | hmem
    · exact hshown op h.1 answer item hmem
    · exact hextra item hmem

/-- Reads show nothing. -/
theorem observe_reads {op : Op} (h : Op.Reads op) (answer : Except Err op.Res) : observe P op answer = [] := by
  obtain ⟨request, rfl, digest, range, rfl | rfl | rfl | rfl | ⟨limit, last, rfl⟩⟩ := h <;> rfl

/-- An operation aside shows neither a PATCH nor a digest PUT. -/
theorem observe_aside {op : Op} (h : Op.Aside op) (answer : Except Err op.Res) :
    ∀ item ∈ observe P op answer, (∃ chunks, item = .delivered chunks) ∨ ∃ reading, item = .told reading := by
  intro item hitem
  cases op with
  | send request =>
    have htarget := h.1 request rfl
    obtain ⟨method, target, contentRange, range, content⟩ := request
    cases target with
    | uploads => cases htarget
    | upload url digest => cases htarget
    | _ => cases method <;> cases hitem
  | openPayload payload chunkSize =>
    cases answer with
    | error error => cases hitem
    | ok stream => exact .inl ⟨stream.chunks, List.mem_singleton.mp hitem⟩
  | clock =>
    cases answer with
    | error error => cases hitem
    | ok reading => exact .inr ⟨reading, List.mem_singleton.mp hitem⟩
  | memory update => exact absurd rfl (h.2 update)
  | _ => cases hitem

/-- A program that shows nothing changes nothing. -/
theorem still_ensures {α : Type} {program : Action α} {A : Op → Prop} (h : program.Uses A)
    (hmemory : ∀ op, A op → ∀ update, op ≠ .memory update) (hshown : ∀ op, A op → ∀ answer, observe P op answer = [])
    (desk : Desk) : program.Ensures (env P) (fun _ _ => True) desk fun _ desk' => desk' = desk := by
  have hnothing : ∀ op, A op → ∀ answer, ∀ item ∈ observe P op answer, False := by
    intro op hop answer item hitem
    rw [hshown op hop answer] at hitem
    cases hitem
  refine (extends_ensures h hmemory hnothing desk).mono ?_
  · rintro outcome desk' ⟨extra, hextra, rfl⟩
    obtain rfl := List.eq_nil_iff_forall_not_mem.mpr hextra
    rw [List.append_nil]

theorem reads_ensures {α : Type} {program : Action α} (h : program.Uses Op.Reads) (desk : Desk) :
    program.Ensures (env P) (fun _ _ => True) desk fun _ desk' => desk' = desk :=
  still_ensures h (fun _ hop => hop.aside.2) (fun _ hop => observe_reads hop) desk

/-! ## The requests of an upload -/

section Requests

variable {client : RegistryHttpClient}

/-- A request that is sent at most once, and what becomes of its answer. -/
theorem request_desk {α : Type} (request : Request) (expected : List Nat) (maximumBytes : Nat)
    {next : BoundedResponse → Action α} (hnext : ∀ response, (next response).Uses fun _ => False) (desk : Desk) :
    (client.request P request expected false maximumBytes >>= next).Ensures (env P) (fun _ _ => True) desk
      fun outcome desk' => (desk' = desk ∧ ∃ error, outcome = .error error) ∨
        ∃ answer, desk' = { desk with seen := desk.seen ++ observe P (.send request) answer } := by
  cases hbuild : request.target.build P with
  | error error =>
    rw [request_unbuilt hbuild]
    exact .inl ⟨rfl, error, rfl⟩
  | ok _ =>
    obtain ⟨rest, heq, hrest⟩ := (Journal.once_request client hbuild expected maximumBytes).bind hnext
    rw [heq]
    intro answer desk' henv
    refine ⟨trivial, ?_⟩
    rcases Journal.uses_false (hrest answer) with ⟨value, hvalue⟩ | ⟨error, herror⟩
    · rw [hvalue]
      exact .inr ⟨answer, henv⟩
    · rw [herror]
      exact .inr ⟨answer, henv⟩

theorem patchUpload_desk (upload : UploadLocation) (chunk : Bytes) (desk : Desk) :
    (client.patchUpload P upload chunk).Ensures (env P) (fun _ _ => True) desk fun outcome desk' =>
      (desk' = desk ∧ ∃ error, outcome = .error error) ∨
        desk' = { desk with seen := desk.seen ++ [.patched chunk] } := by
  unfold RegistryHttpClient.patchUpload
  split
  · exact .inl ⟨rfl, _, rfl⟩
  · refine (request_desk _ _ _ (fun response => ?_) desk).mono ?_
    · split
      · trivial
      · exact (uses_lift _).bind fun url => trivial
    · rintro outcome desk' (h | ⟨answer, h⟩)
      · exact .inl h
      · exact .inr h

theorem finishUpload_desk (upload : UploadLocation) (digest : String) (desk : Desk) :
    (client.finishUpload P upload digest).Ensures (env P) (fun _ _ => True) desk fun _ desk' =>
      desk' = desk ∨ desk' = { desk with seen := desk.seen ++ [.finalised] } := by
  refine (request_desk _ _ _ (fun response => ?_) desk).mono ?_
  · split
    · trivial
    · exact uses_lift _
  · rintro outcome desk' (⟨rfl, -⟩ | ⟨answer, rfl⟩)
    · exact .inl rfl
    · exact .inr rfl

theorem returned_returns {α : Type} {program : Action α} {R : α → Prop} {value : α} (h : program.Returns R)
    (hreturned : returned program = some value) : R value := by
  cases program with
  | ret other => exact Option.some.inj hreturned ▸ h
  | raise error => cases hreturned
  | call op next => cases hreturned

/-- The minimum that an upload location records is the one that was announced. -/
theorem startUpload_minimum {answer : Except Err Response} {upload : UploadLocation}
    (h : answered (client.startUpload P) answer = some upload) : upload.minimumChunkBytes = announced P answer := by
  have hbuild : Request.startUpload.target.build P = .ok () := rfl
  unfold RegistryHttpClient.startUpload at h
  rw [Journal.answered_bind (Journal.once_request client hbuild _ _)] at h
  obtain ⟨bounded, hbounded, hrest⟩ := Option.bind_eq_some_iff.mp h
  obtain ⟨response, rfl, ⟨body, hheaders⟩, -⟩ := Journal.request_answered hbuild hbounded
  apply returned_returns (R := fun upload => upload.minimumChunkBytes = announced P (.ok response)) ?_ hrest
  refine Prog.returns_bind fun url => ?_
  rw [announced, ← @header_withLength response.headers body "oci-chunk-min-length" (by decide), ← hheaders]
  cases header bounded.headers "oci-chunk-min-length" with
  | none => rfl
  | some minimum =>
    by_cases hdigit : P.isdigit minimum = true
    · simp only [hdigit, if_true]
      cases P.int minimum with
      | none => trivial
      | some value => rfl
    · simp only [hdigit]
      rfl

theorem startUpload_desk (desk : Desk) :
    (client.startUpload P).Ensures (env P) (fun _ _ => True) desk fun outcome desk' =>
      ∃ minimum, desk' = { desk with seen := desk.seen ++ [.opened minimum] } ∧
        ∀ upload, outcome = .ok upload → upload.minimumChunkBytes = minimum := by
  obtain ⟨rest, heq, hrest⟩ := @Journal.once_startUpload P client
  rw [heq]
  intro answer desk' henv
  refine ⟨trivial, ?_⟩
  rcases Journal.uses_false (hrest answer) with ⟨value, hvalue⟩ | ⟨error, herror⟩
  · rw [hvalue]
    refine ⟨_, henv, ?_⟩
    rintro _ ⟨⟩
    refine @startUpload_minimum P client _ _ ?_
    rw [heq, answered, hvalue]
    rfl
  · rw [herror]
    refine ⟨_, henv, ?_⟩
    rintro _ ⟨⟩

theorem abortSafely_desk (upload : UploadLocation) (desk : Desk) :
    (client.abortSafely P upload).Ensures (env P) (fun _ _ => True) desk fun _ desk' => desk' = desk := by
  have huses : (client.abortSafely P upload).Uses (· = .send (.deleteUpload upload.url)) :=
    Prog.Uses.handle ((uses_request client _ _ _ _).bind fun _ => trivial) fun _ => trivial
  refine still_ensures huses ?_ ?_ desk
  · rintro _ rfl update ⟨⟩
  · rintro _ rfl answer
    rfl

end Requests

/-! ## Programs on one session object -/

/-- A program that changes no object but one, and no session. -/
def Touching (P : Platform) (reference : Nat) {α : Type} (program : Action α) : Prop :=
  ∀ desk, program.Ensures (env P) (fun _ _ => True) desk fun _ desk' =>
    ∃ update, desk'.memory = desk.memory.modify reference update

section Touching

variable {reference : Nat}

theorem modify_id (memory : Memory) : memory.modify reference id = memory := by
  simp [Memory.modify]

theorem touching_of_uses {α : Type} {program : Action α} {A : Op → Prop} (h : program.Uses A)
    (hmemory : ∀ op, A op → ∀ update, op ≠ .memory update) : Touching P reference program := by
  intro desk
  have hanything : ∀ op, A op → ∀ answer, ∀ item ∈ observe P op answer, True := fun _ _ _ _ _ => trivial
  refine (extends_ensures h hmemory hanything desk).mono ?_
  rintro outcome desk' ⟨extra, -, rfl⟩
  exact ⟨id, (modify_id _).symm⟩

theorem compositional_touching (P : Platform) (reference : Nat) :
    Compositional fun _ program => Touching P reference program where
  aside h := touching_of_uses h fun _ hop => hop.2
  handle h hnext desk := by
    refine (h desk).handle fun outcome desk₁ hfirst => ?_
    refine (hnext outcome desk₁).mono ?_
    rintro outcome desk₂ ⟨second, hsecond⟩
    obtain ⟨first, hfirst⟩ := hfirst
    exact ⟨second ∘ first, by rw [hsecond, hfirst, modify_modify]⟩

theorem touching_memory {α : Type} {update : MultipartState → MultipartState} {next : Memory → Action α}
    (hnext : ∀ memory, Touching P reference (next memory)) :
    Touching P reference (Action.memory (fun memory => memory.modify reference update) >>= next) := by
  refine (compositional_touching P reference).bind (fun desk => ?_) hnext
  refine (remembers.memory desk _).mono ?_
  rintro outcome desk' ⟨-, rfl⟩
  exact ⟨update, rfl⟩

theorem touching_updateState (update : MultipartState → MultipartState) :
    Touching P reference (OciDistributionAdapter.updateState reference update) := by
  refine touching_memory fun memory => ?_
  cases memory.heap[reference]? with
  | none => exact (compositional_touching P reference).raise _
  | some state => exact (compositional_touching P reference).ret _

theorem touching_readState : Touching P reference (OciDistributionAdapter.readState reference) := by
  refine (compositional_touching P reference).bind (fun desk => ?_) fun memory => ?_
  · refine (remembers.memory desk _).mono ?_
    rintro outcome desk' ⟨-, rfl⟩
    exact ⟨id, (modify_id _).symm⟩
  · cases memory.heap[reference]? with
    | none => exact (compositional_touching P reference).raise _
    | some state => exact (compositional_touching P reference).ret _

theorem touching_transitionState (target : PutState) :
    Touching P reference (OciDistributionAdapter.transitionState P reference target) := by
  have hS := compositional_touching P reference
  exact hS.bind (touching_updateState _) fun state => hS.bind (hS.lift _) fun _ => hS.ret _

theorem touching_failState (physicalCommit : Bool) :
    Touching P reference (OciDistributionAdapter.failState P reference physicalCommit) := by
  have hS := compositional_touching P reference
  exact hS.bind (touching_updateState _) fun state => hS.bind (hS.lift _) fun _ => hS.ret _

variable {adapter : OciDistributionAdapter}

theorem touching_send {α : Type} (request : Request) (expected : List Nat) (retry : Bool) (maximumBytes : Nat)
    {next : BoundedResponse → Action α} (hnext : ∀ response, (next response).Uses fun _ => False) :
    Touching P reference (adapter.transport.request P request expected retry maximumBytes >>= next) := by
  refine (compositional_touching P reference).bind (touching_of_uses (uses_request _ _ _ _ _) ?_) fun response => ?_
  · rintro _ rfl update ⟨⟩
  · exact touching_of_uses (hnext response) fun _ hop => hop.elim

theorem touching_abortSafely (upload : UploadLocation) :
    Touching P reference (adapter.transport.abortSafely P upload) :=
  (compositional_touching P reference).handle (touching_send _ _ _ _ fun _ => trivial) fun _ =>
    (compositional_touching P reference).ret _

theorem touching_patchUpload (upload : UploadLocation) (chunk : Bytes) :
    Touching P reference (adapter.transport.patchUpload P upload chunk) := by
  unfold RegistryHttpClient.patchUpload
  split
  · exact (compositional_touching P reference).raise _
  · refine touching_send _ _ _ _ fun response => ?_
    split
    · trivial
    · exact (uses_lift _).bind fun url => trivial

theorem touching_finishUpload (upload : UploadLocation) (digest : String) :
    Touching P reference (adapter.transport.finishUpload P upload digest) := by
  refine touching_send _ _ _ _ fun response => ?_
  split
  · trivial
  · exact uses_lift _

theorem touching_commitObject (value : PutInput) (identity : ContentIdentity) (immutability : ImmutabilityRequest)
    (retention : Option RetentionRequest) (createOnly : Bool) :
    Touching P reference (adapter.commitObject P value identity immutability retention createOnly) := by
  refine ((compositional_touching P reference).sequential P).commitObject (fun value mediaType => ?_) value identity immutability
    retention createOnly
  refine touching_of_uses (sends_uploadBlobBytes P adapter.transport value mediaType) ?_
  rintro _ ⟨request, rfl⟩ update ⟨⟩

theorem touching_sendChunk (chunk : Bytes) : Touching P reference (adapter.sendChunk P reference chunk) := by
  have hS := compositional_touching P reference
  refine hS.bind (touching_updateState _) fun state => hS.bind (touching_patchUpload _ _) fun upload => ?_
  exact hS.bind (touching_updateState _) fun _ => hS.ret _

theorem touching_sendPart (session : MultipartSession) (chunks : List Bytes) (hashed : Bytes) (length : Nat) :
    Touching P reference (adapter.sendPart P session reference chunks hashed length) := by
  have hS := compositional_touching P reference
  induction chunks generalizing hashed length with
  | nil => exact hS.ret _
  | cons chunk rest ih =>
    unfold OciDistributionAdapter.sendPart
    dsimp only
    split
    · exact hS.raise _
    · refine hS.bind touching_readState fun state => ?_
      split
      · exact hS.raise _
      · exact hS.bind (touching_sendChunk chunk) fun _ => ih _ _

theorem touching_transferPart (session : MultipartSession) (payload : PayloadReference) :
    Touching P reference (adapter.transferPart P session reference payload) := by
  have hS := compositional_touching P reference
  refine hS.bind (hS.aside (aside_openPayload _ _)) fun stream => ?_
  refine hS.bind (touching_sendPart session stream.chunks [] 0) fun result => ?_
  obtain ⟨hashed, length⟩ := result
  dsimp only
  cases stream.failure with
  | some failure => exact hS.raise _
  | none =>
    dsimp only
    split
    · exact hS.raise _
    · exact hS.bind (hS.lift _) fun _ => hS.ret _

theorem touching_commitMultipart (value : PutInput) (identity : ContentIdentity) (immutability : ImmutabilityRequest)
    (retention : Option RetentionRequest) :
    Touching P reference (adapter.commitMultipart P reference value identity immutability retention) := by
  have hS := compositional_touching P reference
  refine hS.bind (hS.aside (aside_requireCreateAvailable P adapter _ _ _)) fun _ => ?_
  refine hS.bind touching_readState fun state => hS.bind (touching_finishUpload _ _) fun _ => ?_
  refine hS.bind (touching_transitionState _) fun _ => hS.bind (touching_commitObject _ _ _ _ _) fun metadata => ?_
  exact hS.bind (touching_transitionState _) fun _ => hS.ret _

theorem touching_abandonMultipart (error : Err) :
    Touching P reference (adapter.abandonMultipart P reference error) := by
  have hS := compositional_touching P reference
  refine hS.bind touching_readState fun state => ?_
  split
  · refine hS.bind (touching_abortSafely _) fun _ => ?_
    exact hS.bind (touching_failState _) fun _ => hS.raise _
  · split
    · exact hS.bind (touching_failState _) fun _ => hS.raise _
    · exact hS.raise _

end Touching

/-! ## The calls on a session -/

/-- Chunks went to the hash of a session object and to its upload. -/
structure Forwarded (reference : Nat) (state : MultipartState) (chunks : List Bytes) (desk desk' : Desk)
    (state' : MultipartState) : Prop where
  result : state' = { state with hashed := state.hashed ++ chunks.flatten, upload := state'.upload }
  memory : desk'.memory = desk.memory.modify reference fun _ => state'
  seen : desk'.seen = desk.seen ++ chunks.map .patched

namespace Forwarded

variable {reference : Nat} {state state' state'' : MultipartState} {chunks more : List Bytes} {desk desk' desk'' : Desk}

theorem nil (hobject : desk.memory.heap[reference]? = some state) : Forwarded reference state [] desk desk state := by
  refine ⟨by simp, ?_, by simp⟩
  have hsame : desk.memory.modify reference (fun _ => state) = desk.memory.modify reference id := modify_congr hobject rfl
  rw [hsame, modify_id]

theorem object (h : Forwarded reference state chunks desk desk' state')
    (hobject : desk.memory.heap[reference]? = some state) : desk'.memory.heap[reference]? = some state' := by
  rw [h.memory, get?_modify, if_pos rfl, hobject]
  rfl

theorem trans (h : Forwarded reference state chunks desk desk' state')
    (h' : Forwarded reference state' more desk' desk'' state'') :
    Forwarded reference state (chunks ++ more) desk desk'' state'' := by
  refine ⟨?_, ?_, ?_⟩
  · rw [h'.result, h.result]
    simp
  · rw [h'.memory, h.memory, modify_modify]
    rfl
  · rw [h'.seen, h.seen, List.append_assoc, List.map_append]

end Forwarded

/-- A payload became the next part of a session. -/
structure Extends (P : Platform) (session : MultipartSession) (reference : Nat) (state : MultipartState)
    (chunks : List Bytes) (part : MultipartPart) (desk desk' : Desk) (state' : MultipartState) : Prop where
  live : Live desk.memory session.sessionId reference state
  number : part.partNumber = state.nextPart
  identity : part.identity = identityOf P chunks.flatten
  bounded : chunks.flatten.length ≤ session.partSize
  result : state' = { state with hashed := state.hashed ++ chunks.flatten, upload := state'.upload }
  memory : desk'.memory = desk.memory.modify reference fun _ => state'.acknowledge part
  seen : desk'.seen = desk.seen ++ .delivered chunks :: chunks.map .patched

section Calls

variable {adapter : OciDistributionAdapter} {reference : Nat} {state : MultipartState}

theorem abortMultipart_desk (session : MultipartSession) (desk : Desk) :
    (adapter.abortMultipart P session).Ensures (env P) (fun _ _ => True) desk fun _ desk' =>
      Closed session.sessionId desk.memory desk'.memory := by
  have hS := fun reference => compositional_touching P reference
  refine remembers.memory_bind desk ?_
  rintro desk₁ rfl
  cases hentry : desk.memory.lookup session.sessionId with
  | none => exact Closed.pop _ _
  | some reference =>
    have htouching : Touching P reference (do
        let state ← OciDistributionAdapter.readState reference
        adapter.transport.abortSafely P state.upload
        let state ← OciDistributionAdapter.readState reference
        if state.machine = .uploading then OciDistributionAdapter.transitionState P reference .aborted
        else return ()) := by
      refine (hS reference).bind touching_readState fun state => ?_
      refine (hS reference).bind (touching_abortSafely _) fun _ => ?_
      refine (hS reference).bind touching_readState fun state => ?_
      split
      · exact touching_transitionState _
      · exact (hS reference).ret _
    refine (htouching _).mono ?_
    rintro outcome desk' ⟨update, hmemory⟩
    rw [hmemory]
    exact (Closed.pop _ _).modify hentry update

theorem sendChunk_desk {desk : Desk} (hobject : desk.memory.heap[reference]? = some state) (chunk : Bytes) :
    (adapter.sendChunk P reference chunk).Ensures (env P) (fun _ _ => True) desk fun outcome desk' =>
      outcome = .ok () → ∃ state', Forwarded reference state [chunk] desk desk' state' := by
  refine (remembers.updateState desk hobject _).bind ?_ (by rintro _ _ ⟨heq, -⟩; cases heq)
  rintro before desk₁ ⟨heq, rfl⟩
  obtain rfl := Except.ok.inj heq
  refine (patchUpload_desk before.upload chunk _).bind ?_ (by rintro _ _ - ⟨⟩)
  rintro upload desk₂ (⟨-, error, heq⟩ | rfl)
  · cases heq
  have hhashed : (desk.memory.modify reference fun state => { state with hashed := state.hashed ++ chunk }).heap[reference]? =
      some { before with hashed := before.hashed ++ chunk } := by
    rw [get?_modify, if_pos rfl, hobject]
    rfl
  refine (remembers.updateState _ hhashed _).bind ?_ (by rintro _ _ ⟨heq, -⟩; cases heq)
  rintro _ desk₃ ⟨-, rfl⟩ -
  refine ⟨{ before with hashed := before.hashed ++ chunk, upload }, by simp, ?_, rfl⟩
  rw [modify_modify]
  exact modify_congr hobject rfl

theorem sendPart_desk (session : MultipartSession) (chunks : List Bytes) {desk : Desk}
    (hobject : desk.memory.heap[reference]? = some state) (hashed : Bytes) {length : Nat}
    (hlength : length ≤ session.partSize) :
    (adapter.sendPart P session reference chunks hashed length).Ensures (env P) (fun _ _ => True) desk
      fun outcome desk' => ∀ result, outcome = .ok result → result.1 = hashed ++ chunks.flatten ∧
        result.2 = length + chunks.flatten.length ∧ result.2 ≤ session.partSize ∧
        ∃ state', Forwarded reference state chunks desk desk' state' := by
  induction chunks generalizing desk state hashed length with
  | nil =>
    rintro _ ⟨⟩
    exact ⟨by simp, rfl, hlength, state, .nil hobject⟩
  | cons chunk rest ih =>
    unfold OciDistributionAdapter.sendPart
    dsimp only
    split
    · rintro _ ⟨⟩
    rename_i hfits
    refine (remembers.readState desk hobject).bind ?_ (by rintro _ _ ⟨heq, -⟩; cases heq)
    rintro found desk₁ ⟨-, rfl⟩
    split
    · rintro _ ⟨⟩
    refine (sendChunk_desk hobject chunk).bind ?_ (by rintro _ _ - _ ⟨⟩)
    intro done desk₂ hsent
    obtain ⟨state₂, hforwarded⟩ := hsent rfl
    refine (ih (hforwarded.object hobject) (hashed ++ chunk) (Nat.le_of_not_lt hfits)).mono ?_
    intro outcome desk' hrest result heq
    obtain ⟨hbytes, htotal, hbound, state', hforwarded'⟩ := hrest result heq
    refine ⟨by rw [hbytes]; simp, ?_, hbound, state', hforwarded.trans hforwarded'⟩
    rw [htotal, List.flatten_cons, List.length_append]
    omega

theorem transferPart_desk (session : MultipartSession) {desk : Desk}
    (hobject : desk.memory.heap[reference]? = some state) (payload : PayloadReference) :
    (adapter.transferPart P session reference payload).Ensures (env P) (fun _ _ => True) desk
      fun outcome desk' => ∀ identity, outcome = .ok identity → ∃ chunks state',
        identity = identityOf P chunks.flatten ∧ chunks.flatten.length ≤ session.partSize ∧
        state' = { state with hashed := state.hashed ++ chunks.flatten, upload := state'.upload } ∧
        desk' = ⟨desk.memory.modify reference fun _ => state', desk.seen ++ .delivered chunks :: chunks.map .patched⟩ := by
  have hopen : (Action.openPayload payload session.partSize).Ensures (env P) (fun _ _ => True) desk
      fun outcome desk' => ∀ stream, outcome = .ok stream →
        desk' = { desk with seen := desk.seen ++ [.delivered stream.chunks] } := by
    refine Prog.Ensures.perform fun answer desk' henv => ⟨trivial, ?_⟩
    rintro stream rfl
    exact henv
  refine hopen.bind ?_ (by rintro _ _ - _ ⟨⟩)
  intro stream desk₁ hstream
  obtain rfl := hstream stream rfl
  have hobject₁ : ({ desk with seen := desk.seen ++ [.delivered stream.chunks] } : Desk).memory.heap[reference]? =
      some state := hobject
  refine (sendPart_desk session stream.chunks hobject₁ [] (Nat.zero_le _)).bind ?_ (by rintro _ _ - _ ⟨⟩)
  rintro ⟨hashed, length⟩ desk₂ hsent
  obtain ⟨hbytes, htotal, hbound, state', hforwarded⟩ := hsent _ rfl
  dsimp only at hbytes htotal hbound ⊢
  cases stream.failure with
  | some failure => rintro _ ⟨⟩
  | none =>
    dsimp only
    split
    · rintro _ ⟨⟩
    cases verifyIdentity payload ⟨sha256Digest P hashed, length⟩ with
    | error error => rintro _ ⟨⟩
    | ok _ =>
      rintro _ ⟨⟩
      rw [List.nil_append] at hbytes
      rw [Nat.zero_add] at htotal
      refine ⟨stream.chunks, state', ?_, htotal ▸ hbound, hforwarded.result, ?_⟩
      · rw [hbytes, htotal, identityOf]
      · obtain ⟨memory, seen⟩ := desk₂
        have hmemory := hforwarded.memory
        have hseen := hforwarded.seen
        rw [List.append_assoc] at hseen
        simp only [Desk.mk.injEq]
        exact ⟨hmemory, hseen⟩

/-- An acknowledged part extends its session; a part that fails leaves everything alone or closes the session. -/
theorem uploadPart_desk (session : MultipartSession) (partNumber : Nat) (payload : PayloadReference) (desk : Desk) :
    (adapter.uploadPart P session partNumber payload).Ensures (env P) (fun _ _ => True) desk fun outcome desk' =>
      match outcome with
      | .ok part => ∃ reference state chunks state',
          Extends P session reference state chunks part desk desk' state'
      | .error _ => desk' = desk ∨ Closed session.sessionId desk.memory desk'.memory := by
  refine (remembers.stateOf desk session).bind ?_ fun error desk' h => .inl h.1
  rintro reference desk₁ ⟨rfl, state, hlive, -⟩
  refine (remembers.readState desk hlive.object).bind ?_ (by rintro _ _ ⟨heq, -⟩; cases heq)
  rintro found desk₁ ⟨heq, rfl⟩
  obtain rfl := Except.ok.inj heq
  split
  · exact .inl rfl
  rename_i hnumber
  split
  · exact .inl rfl
  -- a failed transfer aborts the session and raises again
  have hdesk := @transferPart_desk P adapter reference found session desk hlive.object payload
  have htransfer := hdesk.and (touching_transferPart session payload desk)
  refine Prog.Ensures.bind (R := Prog.Exits
    (fun _ desk' => Closed session.sessionId desk.memory desk'.memory)
    fun identity desk' => ∃ chunks state', identity = identityOf P chunks.flatten ∧
      chunks.flatten.length ≤ session.partSize ∧
      state' = { found with hashed := found.hashed ++ chunks.flatten, upload := state'.upload } ∧
      desk' = ⟨desk.memory.modify reference fun _ => state', desk.seen ++ .delivered chunks :: chunks.map .patched⟩)
    ?_ ?_ ?_
  · refine (htransfer.weaken (fun _ _ _ _ h => h) (fun _ _ _ => trivial) fun _ _ h => h).handle ?_
    rintro (error | identity) desk₁ ⟨htransferred, update, hmemory⟩
    · have hclosed : ∀ desk' : Desk, Closed session.sessionId desk₁.memory desk'.memory →
          Closed session.sessionId desk.memory desk'.memory := by
        intro desk' h
        rw [hmemory] at h
        exact .of_modify hlive.entry h
      refine (abortMultipart_desk session desk₁).bind ?_ ?_
      · exact fun _ desk₂ h => hclosed desk₂ h
      · exact fun _ desk₂ h => hclosed desk₂ h
    · exact htransferred identity rfl
  · rintro identity desk₁ ⟨chunks, state', rfl, hbound, hresult, rfl⟩
    have hobject' : (desk.memory.modify reference fun _ => state').heap[reference]? = some state' := by
      rw [get?_modify, if_pos rfl, hlive.object]
      rfl
    refine (remembers.updateState _ hobject' _).bind ?_ (by rintro _ _ ⟨heq, -⟩; cases heq)
    rintro _ desk₂ ⟨-, rfl⟩
    refine ⟨reference, found, chunks, state', hlive, not_not.mp hnumber, rfl, hbound, hresult, ?_, rfl⟩
    rw [modify_modify]
    rfl
  · exact fun error desk' h => .inr h

/-- A completion leaves everything alone or closes its session; if it returns, the parts and the digest are those
of the session. -/
theorem completeMultipart_desk (laws : P.Lawful) (session : MultipartSession) (supplied : List MultipartPart)
    (desk : Desk) :
    (adapter.completeMultipart P session supplied).Ensures (env P) (fun _ _ => True) desk fun outcome desk' =>
      (desk' = desk ∧ ∃ error, outcome = .error error) ∨
        ∃ reference state, Live desk.memory session.sessionId reference state ∧ supplied = state.parts ∧
          Closed session.sessionId desk.memory desk'.memory ∧
          ∀ metadata, outcome = .ok metadata → metadata.digest = sha256Digest P state.hashed := by
  refine (remembers.stateOf desk session).bind ?_ fun error desk' h => .inl ⟨h.1, error, rfl⟩
  rintro reference desk₁ ⟨rfl, state, hlive, -⟩
  refine (remembers.readState desk hlive.object).bind ?_ (by rintro _ _ ⟨heq, -⟩; cases heq)
  rintro found desk₁ ⟨heq, rfl⟩
  obtain rfl := Except.ok.inj heq
  split
  · exact .inl ⟨rfl, _, rfl⟩
  rename_i hsupplied
  rw [not_not] at hsupplied
  split
  · exact .inl ⟨rfl, _, rfl⟩
  have habort : ∀ error : Err, (do
      adapter.abortMultipart P session
      throw error : Action ObjectMetadata).Ensures (env P) (fun _ _ => True) desk fun outcome desk' =>
        (desk' = desk ∧ ∃ error, outcome = .error error) ∨
          ∃ reference state, Live desk.memory session.sessionId reference state ∧ supplied = state.parts ∧
            Closed session.sessionId desk.memory desk'.memory ∧
            ∀ metadata, outcome = .ok metadata → metadata.digest = sha256Digest P state.hashed := by
    intro error
    refine (abortMultipart_desk session desk).bind ?_ ?_
    · exact fun _ desk' h => .inr ⟨reference, found, hlive, hsupplied, h, fun _ heq => by cases heq⟩
    · exact fun _ desk' h => .inr ⟨reference, found, hlive, hsupplied, h, fun _ heq => by cases heq⟩
  dsimp only
  cases P.multipartCompletion supplied ⟨sha256Digest P found.hashed, found.length⟩ with
  | error error => exact .inl ⟨rfl, error, rfl⟩
  | ok _ =>
    simp only [Action.lift_ok, Prog.ret_bind]
    split
    · exact habort _
    split
    · exact habort _
    cases immutabilityOf P found.input with
    | error error => exact .inl ⟨rfl, error, rfl⟩
    | ok immutability =>
      cases retentionOf P found.input with
      | error error => exact .inl ⟨rfl, error, rfl⟩
      | ok retention =>
        simp only [Action.lift_ok, Prog.ret_bind]
        have hS := compositional_touching P reference
        have hcommit : Touching P reference (tryCatch
            (Action.locked (adapter.commitMultipart P reference found.input ⟨sha256Digest P found.hashed, found.length⟩
              immutability retention)) (adapter.abandonMultipart P reference)) := by
          refine hS.handle (hS.locked (touching_commitMultipart _ _ _ _)) ?_
          rintro (error | metadata)
          · exact touching_abandonMultipart error
          · exact hS.ret metadata
        have hreturns : (tryCatch (Action.locked (adapter.commitMultipart P reference found.input
            ⟨sha256Digest P found.hashed, found.length⟩ immutability retention))
            (adapter.abandonMultipart P reference)).Returns fun metadata =>
              metadata.digest = sha256Digest P found.hashed :=
          Prog.Returns.tryCatch (Prog.returns_bind fun _ =>
              (commitMultipart_digest laws _ _ ⟨sha256Digest P found.hashed, found.length⟩ _ _).finally_)
            fun error => (abandonMultipart_returns reference error).mono fun _ h => h.elim
        refine Prog.Ensures.finally_ (hreturns.and_ensures (hcommit desk)) ?_
        rintro outcome desk₁ ⟨⟨update, hmemory⟩, hdigest⟩
        refine remembers.memory_bind desk₁ ?_
        rintro desk₂ rfl
        refine .inr ⟨reference, found, hlive, hsupplied, ?_, ?_⟩
        · rw [hmemory]
          exact (Closed.pop _ _).modify hlive.entry update
        · exact hdigest

/-- The lock shows nothing; taking or releasing it may raise. -/
theorem locked_desk {α : Type} {action : Action α} {desk : Desk} {Q : Except Err α → Desk → Prop}
    (h : action.Ensures (env P) (fun _ _ => True) desk Q) (hacquire : ∀ error, Q (.error error) desk)
    (hrelease : ∀ outcome desk' error, Q outcome desk' → Q (.error error) desk') :
    (Action.locked action).Ensures (env P) (fun _ _ => True) desk Q := by
  have hstill : ∀ {desk desk' : Desk}, desk' = { desk with seen := desk.seen ++ [] } → desk' = desk := by
    rintro desk desk' rfl
    rw [List.append_nil]
  have hlock : (Action.acquire).Ensures (env P) (fun _ _ => True) desk fun _ desk' => desk' = desk :=
    Prog.Ensures.perform fun answer desk' henv => ⟨trivial, hstill henv⟩
  refine hlock.bind ?_ ?_
  · rintro _ desk₁ rfl
    refine h.finally_ fun outcome desk₂ hq => Prog.Ensures.perform fun answer desk₃ henv => ⟨trivial, ?_⟩
    obtain rfl := hstill henv
    cases answer with
    | ok _ => exact hq
    | error error => exact hrelease outcome _ error hq
  · rintro error desk₁ rfl
    exact hacquire error

/-- A begin that returns leaves a fresh session of the binding's part size; otherwise the memory is as before. -/
theorem beginMultipart_desk (operation : Operation) (desk : Desk) :
    (adapter.beginMultipart P operation).Ensures (env P) (fun _ _ => True) desk fun outcome desk' =>
      match outcome with
      | .ok session => ∃ value upload machine reading, operation.input = .put value ∧
          P.transition .initial .uploading = .ok machine ∧
          session.objectRef = adapter.objectReferenceOf value ∧ session.partSize = adapter.binding.chunkSize ∧
          session.expiresAt = P.timestamp (reading + 3600 * 1000000) ∧
          desk' = ⟨desk.memory.insert session.sessionId (.start value upload machine),
            desk.seen ++ [.opened upload.minimumChunkBytes, .told (.aware reading)]⟩
      | .error _ => desk'.memory = desk.memory := by
  unfold OciDistributionAdapter.beginMultipart
  cases adapter.validateOperation operation with
  | error error => rfl
  | ok method =>
    simp only [Action.lift_ok, Prog.ret_bind]
    split
    · rfl
    cases P.requireObjectCapabilities adapter.binding operation.requirements with
    | error error => rfl
    | ok _ =>
      simp only [Action.lift_ok, Prog.ret_bind]
      cases hinput : operation.input with
      | put value =>
        dsimp only
        cases immutabilityOf P value with
        | error error => rfl
        | ok immutability =>
          simp only [Action.lift_ok, Prog.ret_bind]
          refine Prog.Ensures.bind (R := fun outcome desk' => desk'.memory = desk.memory ∧
            ∀ upload, outcome = .ok upload →
              desk' = { desk with seen := desk.seen ++ [.opened upload.minimumChunkBytes] }) ?_ ?_ fun _ _ h => h.1
          · refine locked_desk ?_ (fun error => ⟨rfl, by rintro _ ⟨⟩⟩) fun outcome desk' error h => ⟨h.1, by rintro _ ⟨⟩⟩
            refine (reads_ensures (reads_requireCreateAvailable P adapter _ _ _) desk).bind ?_ ?_
            · rintro _ desk₁ rfl
              refine (startUpload_desk desk₁).mono ?_
              rintro outcome desk₂ ⟨minimum, rfl, hminimum⟩
              refine ⟨rfl, fun upload heq => ?_⟩
              rw [hminimum upload heq]
            · rintro error desk₁ rfl
              exact ⟨rfl, by rintro _ ⟨⟩⟩
          · rintro upload desk₁ ⟨-, hopened⟩
            obtain rfl := hopened upload rfl
            cases htransition : P.transition .initial .uploading with
            | error error => rfl
            | ok machine =>
              simp only [Action.lift_ok, Prog.ret_bind]
              -- the token and the clock may raise before there is a session
              intro token desk₂ htoken
              obtain rfl : desk₂ = { desk with seen := desk.seen ++ [.opened upload.minimumChunkBytes] } := by
                rw [show desk₂ = _ from htoken]
                simp [observe]
              refine ⟨trivial, ?_⟩
              cases token with
              | error error => rfl
              | ok token =>
                intro reading desk₃ hclock
                refine ⟨trivial, ?_⟩
                cases reading with
                | error error =>
                  rw [show desk₃ = _ from hclock]
                  rfl
                | ok reading =>
                  cases reading with
                  | naive wallClock =>
                    rw [show desk₃ = _ from hclock]
                    rfl
                  | aware createdAt =>
                    have hdesk₃ : desk₃ = _ := hclock
                    show Prog.Ensures _ _ (Action.lift (adapter.newSession P ("u" ++ token) value createdAt) >>= _) _ _
                    cases hsession : adapter.newSession P ("u" ++ token) value createdAt with
                    | error error =>
                      rw [hdesk₃]
                      rfl
                    | ok session => ?_
                    obtain ⟨-, hbelongs, hsize, hexpires⟩ := OciDistributionAdapter.newSession_ok hsession
                    refine remembers.memory_bind desk₃ ?_
                    rintro desk₄ rfl
                    refine ⟨value, upload, machine, createdAt, rfl, rfl, hbelongs, hsize, hexpires, ?_⟩
                    rw [hdesk₃]
                    simp [observe]
      | _ => rfl

end Calls

end Desk

end MeridianOci.Service
