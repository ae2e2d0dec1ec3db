import MeridianOci.Service.Closure
import MeridianOci.Service.Lost
import MeridianOci.Service.Shared

/-!
# What a conflict leaves behind

A put or a completion that raises a conflict has put no version manifest, unless the
registry refused the very last PUT, the one of the latest tag. This holds beside anything
that others do, because it is read off the operation's own requests.
-/
namespace MeridianOci.Service

open MeridianOci.Data MeridianOci.Effect MeridianOci.Model

set_option autoImplicit false

variable {P : Platform} {σ : Type} {env : Environment Op Op.Res Err σ} {s s' : σ}

/-! ## Errors that are conflicts -/

theorem conflict_not_raw {error : Err} (h : ErrorKind.IsConflict error.kind) : ¬Err.Raw error := by
  intro hraw
  rcases h with hkind | hkind <;> simp [Err.Raw, hkind] at hraw

theorem conflict_statusError {status : Nat} {code : String} (h : ErrorKind.IsConflict (statusError status code).kind) :
    status = 409 := by
  by_contra hne
  unfold statusError at h
  simp only [hne, if_false] at h
  repeat' split at h
  all_goals
    rcases h with hkind | hkind
    all_goals cases hkind

theorem conflict_responseError (hlimits : Platform.LimitsRaw P) {response : BoundedResponse}
    (h : ErrorKind.IsConflict (responseError P response).kind) : response.status = 409 := by
  unfold responseError at h
  cases hcode : providerCode P response with
  | ok code =>
    rw [hcode] at h
    exact conflict_statusError h
  | error error =>
    -- only the limits of `json` leave the client here
    rw [hcode] at h
    have hraw : Err.Raw error := by
      unfold providerCode loadJson at hcode
      cases hlimit : P.jsonLimit response.content with
      | none =>
        rw [hlimit] at hcode
        cases hcode
      | some limit =>
        rw [hlimit] at hcode
        cases hcode
        exact hlimits _ _ hlimit
    exact absurd hraw (conflict_not_raw h)

/-- An unsafe response URL is no conflict. -/
theorem conflict_requireSafe {binding : OciDistributionBinding} {url : String} {error : Err}
    (h : requireSafeResponseUrl P binding url = .error error) : ¬ErrorKind.IsConflict error.kind := by
  intro hconflict
  unfold requireSafeResponseUrl at h
  cases hsplit : splitUrl P url with
  | error other =>
    rw [hsplit] at h
    obtain rfl := Except.error.inj h
    exact conflict_not_raw hconflict (raw_splitUrl hsplit)
  | ok parsed =>
    rw [hsplit] at h
    simp only [bind, Except.bind] at h
    cases hallowed : allowedHttp P binding url with
    | error other =>
      rw [hallowed] at h
      obtain rfl := Except.error.inj h
      exact conflict_not_raw hconflict (raw_allowedHttp hallowed)
    | ok allowed =>
      rw [hallowed] at h
      simp only at h
      split at h
      · rw [← Except.error.inj h] at hconflict
        revert hconflict
        decide
      · cases h

/-- A body that cannot be read is no conflict, unless its connection fails with one. -/
theorem conflict_boundedResponse {response : Response} {maximumBytes : Nat} {error : Err}
    (hcredible : Credible (.ok response)) (h : boundedResponse P response maximumBytes = .error error) :
    ¬ErrorKind.IsConflict error.kind := by
  unfold boundedResponse at h
  split at h
  · rename_i other hread
    obtain rfl := Except.error.inj h
    rcases readBounded_error hread with hkind | hfailure
    · rw [hkind]
      decide
    · exact hcredible other hfailure
  · split at h
    · rw [← Except.error.inj h]
      decide
    · cases h

/-! ## Requests -/

section Requests

variable {client : RegistryHttpClient}

/-- A request that is sent once raises a conflict only where the answer has status 409. -/
theorem judge_conflict (hlimits : Platform.LimitsRaw P) {expected : List Nat} {maximumBytes : Nat}
    {answer : Except Err Response} {error other : Err} (hcredible : Credible answer)
    (hother : ¬ErrorKind.IsConflict other.kind)
    (h : client.judge P expected maximumBytes 0 (.raise other) answer = .raise error)
    (hconflict : ErrorKind.IsConflict error.kind) : Conflicts answer := by
  unfold RegistryHttpClient.judge at h
  cases answer with
  | error failure =>
    dsimp only at h
    split at h
    · obtain rfl := Prog.raise.inj h
      exact absurd hconflict hother
    · obtain rfl := Prog.raise.inj h
      exact absurd hconflict hcredible
  | ok response =>
    dsimp only at h
    split at h
    · rename_i failure hsafe
      obtain rfl := Prog.raise.inj h
      exact absurd hconflict (conflict_requireSafe hsafe)
    · rw [if_neg fun hboth => Nat.lt_irrefl 0 hboth.2] at h
      split at h
      · rename_i failure hbounded
        have hnot := conflict_boundedResponse hcredible hbounded
        split at h
        · split at h
          · obtain rfl := Prog.raise.inj h
            exact absurd hconflict hnot
          · obtain rfl := Prog.raise.inj h
            exact conflict_responseError hlimits hconflict
        · split at h
          · obtain rfl := Prog.raise.inj h
            exact absurd hconflict hother
          · obtain rfl := Prog.raise.inj h
            exact absurd hconflict hnot
      · rename_i bounded hbounded
        split at h
        · cases h
        · obtain rfl := Prog.raise.inj h
          have hstatus := conflict_responseError hlimits hconflict
          exact (boundedResponse_ok hbounded).1.symm.trans hstatus

/-- The request was refused. -/
def Refusal (exchange : Effect.Exchange Op Op.Res Err) : Prop :=
  ∃ request answer, exchange = ⟨.send request, answer⟩ ∧ Conflicts answer

/-- No exception on the way looks like a refusal, and the lock can be released. -/
def Sober : Effect.Exchange Op Op.Res Err → Prop
  | ⟨.send _, answer⟩ => Credible answer
  | ⟨.release, answer⟩ => ∃ value, answer = .ok value
  | _ => True

variable {trace : List (Effect.Exchange Op Op.Res Err)} {error : Err}

theorem request_conflict (hlimits : Platform.LimitsRaw P) {request : Request} {expected : List Nat}
    {maximumBytes : Nat}
    (h : Traces env (client.request P request expected false maximumBytes) s trace (.error error) s')
    (hsober : ∀ exchange ∈ trace, Sober exchange) (hconflict : ErrorKind.IsConflict error.kind) :
    ∀ exchange ∈ trace, Refusal exchange := by
  unfold RegistryHttpClient.request at h
  split at h
  · cases h
    simp
  · rw [if_neg Bool.false_ne_true] at h
    unfold RegistryHttpClient.attempt at h
    cases h with
    | call _ _ _ s₁ _ answer rest _ _ hrest =>
      have hcredible : Credible answer := hsober _ List.mem_cons_self
      unfold RegistryHttpClient.attempt at hrest
      have hraise : rest = [] ∧ client.judge P expected maximumBytes 0
          (.raise (.of .objectUnavailable "OCI registry request failed")) answer = .raise error := by
        rcases judge_cases client expected maximumBytes 0 (.raise (.of .objectUnavailable
          "OCI registry request failed")) answer with heq | ⟨other, heq⟩ | ⟨bounded, response, heq, -⟩
        all_goals
          rw [heq] at hrest ⊢
          cases hrest
        · exact ⟨rfl, rfl⟩
        · exact ⟨rfl, rfl⟩
      obtain ⟨rfl, hjudge⟩ := hraise
      have hrefused := judge_conflict hlimits hcredible (by decide) hjudge hconflict
      intro exchange hmem
      rw [List.mem_singleton.mp hmem]
      exact ⟨request, answer, rfl, hrefused⟩

theorem descriptor_conflict {mediaType digest : String} {size : Nat}
    (h : OciDescriptor.new P mediaType digest size = .error error) : ¬ErrorKind.IsConflict error.kind := by
  unfold OciDescriptor.new at h
  split at h
  · split at h
    · cases h
    · rw [← Except.error.inj h]
      decide
  · rw [← Except.error.inj h]
    decide

/-- A manifest PUT that raises a conflict was refused, or not sent at all. -/
theorem putManifest_conflict (hlimits : Platform.LimitsRaw P) {reference : String} {body : Bytes}
    (h : Traces env (client.putManifest P reference body) s trace (.error error) s')
    (hsober : ∀ exchange ∈ trace, Sober exchange) (hconflict : ErrorKind.IsConflict error.kind) :
    ∀ exchange ∈ trace, Refusal exchange := by
  rcases h.of_bind with ⟨other, hparse, -⟩ | ⟨document, front, s₁, rest, rfl, hparse, hrest⟩
  · rw [hparse.of_except.1]
    simp
  · obtain rfl := hparse.of_except.1
    rw [List.nil_append] at hsober ⊢
    rcases hrest.of_bind with ⟨other, hsend, heq⟩ | ⟨response, send, s₂, last, rfl, -, hlast⟩
    · obtain rfl := Except.error.inj heq
      exact request_conflict hlimits hsend hsober hconflict
    · split at hlast
      · cases hlast
        exact absurd hconflict (by decide)
      · obtain ⟨-, heq, -⟩ := hlast.of_except
        exact absurd hconflict (descriptor_conflict heq.symm)

/-- A manifest that was put once is sent when it is put again. -/
theorem putManifest_again {reference other : String} {body : Bytes} {descriptor : OciDescriptor P} {s₁ s₂ : σ}
    {again : List (Effect.Exchange Op Op.Res Err)} {outcome : Except Err (OciDescriptor P)}
    (h : Traces env (client.putManifest P reference body) s trace (.ok descriptor) s')
    (h' : Traces env (client.putManifest P other body) s₁ again outcome s₂) : again ≠ [] := by
  rcases h.of_bind with ⟨error, -, heq⟩ | ⟨document, front, s₃, rest, rfl, hparse, -⟩
  · cases heq
  · have hdocument := hparse.of_except.2.1
    unfold RegistryHttpClient.putManifest at h'
    rw [← hdocument, Action.lift_ok, Prog.ret_bind] at h'
    cases h'
    exact List.cons_ne_nil _ _

end Requests

/-! ## Operations that concern no manifest -/

/-- An operation that sends nothing to a manifest. -/
def Op.OffManifests (op : Op) : Prop :=
  ∀ request, op = .send request → ∀ reference, request.target ≠ .manifest reference

section OffManifests

variable {α : Type} {client : RegistryHttpClient} {adapter : OciDistributionAdapter} {reference : Nat}

theorem off_lift (outcome : Except Err α) : (Action.lift outcome).Uses Op.OffManifests := uses_lift outcome

theorem off_request {request : Request} (h : ∀ reference, request.target ≠ .manifest reference)
    (expected : List Nat) (retry : Bool) (maximumBytes : Nat) :
    (client.request P request expected retry maximumBytes).Uses Op.OffManifests := by
  refine (uses_request client request expected retry maximumBytes).mono fun op hop other heq => ?_
  rw [hop] at heq
  obtain rfl := Op.send.inj heq
  exact h

theorem off_failing (machine : PutState) (physicalCommit : Bool) {action : Action α}
    (h : action.Uses Op.OffManifests) : (failing P machine physicalCommit action).Uses Op.OffManifests := by
  refine h.tryCatch fun error => ?_
  split
  · exact (off_lift _).bind fun _ => trivial
  · trivial

theorem off_now : (OciDistributionAdapter.now).Uses Op.OffManifests := by
  refine (Prog.uses_perform (by rintro request ⟨⟩)).bind fun reading => ?_
  cases reading <;> trivial

theorem off_headBlob (digest : String) : (client.headBlob P digest).Uses Op.OffManifests := by
  refine (off_request (by rintro _ ⟨⟩) _ _ _).bind fun response => ?_
  split
  · trivial
  · refine (off_lift _).bind fun size => ?_
    split
    · trivial
    · exact (off_lift _).bind fun _ => trivial

theorem off_startUpload : (client.startUpload P).Uses Op.OffManifests := by
  refine (off_request (by rintro _ ⟨⟩) _ _ _).bind fun response => (off_lift _).bind fun url => ?_
  dsimp only
  repeat' split
  all_goals trivial

theorem off_patchUpload (upload : UploadLocation) (chunk : Bytes) :
    (client.patchUpload P upload chunk).Uses Op.OffManifests := by
  unfold RegistryHttpClient.patchUpload
  split
  · trivial
  · refine (off_request (by rintro _ ⟨⟩) _ _ _).bind fun response => ?_
    split
    · trivial
    · exact (off_lift _).bind fun location => trivial

theorem off_finishUpload (upload : UploadLocation) (digest : String) :
    (client.finishUpload P upload digest).Uses Op.OffManifests := by
  refine (off_request (by rintro _ ⟨⟩) _ _ _).bind fun response => ?_
  split
  · trivial
  · exact off_lift _

theorem off_abortSafely (upload : UploadLocation) : (client.abortSafely P upload).Uses Op.OffManifests :=
  Prog.Uses.handle ((off_request (by rintro _ ⟨⟩) _ _ _).bind fun _ => trivial) fun outcome => by
    cases outcome <;> trivial

theorem off_uploadBlobBytes (value : Bytes) (mediaType : String) :
    (client.uploadBlobBytes P value mediaType).Uses Op.OffManifests := by
  refine (off_headBlob _).bind fun existing => ?_
  cases existing with
  | some existing =>
    dsimp only
    split
    · trivial
    · exact off_lift _
  | none =>
    refine off_startUpload.bind fun upload => Prog.Uses.bind (Prog.Uses.tryCatch ?_ fun error => ?_) fun _ => off_lift _
    · refine (off_request (by rintro _ ⟨⟩) _ _ _).bind fun response => ?_
      split <;> trivial
    · exact (off_abortSafely upload).bind fun _ => trivial

theorem off_abandon (upload : Option UploadLocation) (error : Err) :
    (adapter.abandon P upload error : Action α).Uses Op.OffManifests := by
  cases upload with
  | none => trivial
  | some upload => exact (off_abortSafely upload).bind fun _ => trivial

theorem off_orAbandon (upload : Option UploadLocation) {action : Action α} (h : action.Uses Op.OffManifests) :
    (adapter.orAbandon P upload action).Uses Op.OffManifests := h.tryCatch fun error => off_abandon upload error

theorem off_openPayload (payload : PayloadReference) (chunkSize : Nat) :
    (Action.openPayload payload chunkSize).Uses Op.OffManifests := Prog.uses_perform (by rintro request ⟨⟩)

theorem off_sendChunks (payload : PayloadReference) (chunks : List Bytes) (upload : Option UploadLocation)
    (hashed : Bytes) (length : Nat) :
    (adapter.sendChunks P payload chunks upload hashed length).Uses Op.OffManifests := by
  induction chunks generalizing upload hashed length with
  | nil => trivial
  | cons chunk rest ih =>
    unfold OciDistributionAdapter.sendChunks
    dsimp only
    split
    · exact off_abandon upload _
    · split
      · exact off_abandon upload _
      · cases upload with
        | none => exact ih none _ _
        | some location => exact (off_orAbandon _ (off_patchUpload location chunk)).bind fun next => ih (some next) _ _

theorem off_transferTo (payload : PayloadReference) (existing : Option (OciDescriptor P))
    (upload : Option UploadLocation) : (adapter.transferTo P payload existing upload).Uses Op.OffManifests := by
  refine (off_orAbandon _ (off_openPayload _ _)).bind fun stream => ?_
  refine (off_sendChunks payload stream.chunks upload [] 0).bind fun sent => ?_
  obtain ⟨upload, hashed, length⟩ := sent
  dsimp only
  split
  · exact off_abandon upload _
  · refine (off_orAbandon _ (off_lift _)).bind fun _ => ?_
    split
    · split
      · exact off_abandon upload _
      · trivial
    · exact (off_orAbandon _ (off_finishUpload _ _)).bind fun _ => trivial
    · trivial

theorem off_uploadAttempt (payload : PayloadReference) (left : Nat) :
    (adapter.uploadAttempt P payload left).Uses Op.OffManifests := by
  induction left with
  | zero => trivial
  | succ left ih =>
    rw [uploadAttempt_succ]
    have htransfer : ∀ existing, (adapter.transfer P payload existing).Uses Op.OffManifests := by
      intro existing
      cases existing with
      | some existing =>
        show (adapter.transferTo P payload (some existing) none).Uses _
        exact off_transferTo payload _ _
      | none => exact off_startUpload.bind fun upload => off_transferTo payload _ _
    refine Prog.Uses.bind ?_ fun existing => ?_
    · unfold lookBefore
      cases payload.expectedDigest with
      | none => trivial
      | some digest => exact off_headBlob digest
    · refine (htransfer existing).handle fun outcome => ?_
      cases outcome with
      | ok identity => trivial
      | error error =>
        dsimp only [afterTransfer]
        split
        · exact ih
        · trivial

theorem off_uploadPayload (payload : PayloadReference) :
    (adapter.uploadPayload P payload).Uses Op.OffManifests := off_uploadAttempt payload _

end OffManifests

/-! ## Manifests that a trace puts -/

/-- An operation that puts no manifest but the anchor of an object id. -/
def Op.Anchors (P : Platform) (objectId : String) (op : Op) : Prop :=
  ∀ tag body, op = .send (.putManifest tag body) → tag = anchorName P objectId

theorem Op.Reads.anchors {op : Op} (h : Op.Reads op) (objectId : String) : Op.Anchors P objectId op := by
  intro tag body heq
  obtain ⟨request, rfl, hreads⟩ := h
  obtain rfl := Op.send.inj heq
  obtain ⟨digest, range, hrequest | hrequest | hrequest | hrequest | ⟨limit, last, hrequest⟩⟩ := hreads
  all_goals cases hrequest

theorem Op.OffManifests.anchors {op : Op} (h : Op.OffManifests op) (objectId : String) : Op.Anchors P objectId op :=
  fun tag _ heq => absurd rfl (h _ heq tag)

variable {adapter : OciDistributionAdapter} {objectId : String}
variable {trace front back : List (Effect.Exchange Op Op.Res Err)}

/-- No manifest was put but the anchor, or the registry refused it. -/
def Withheld (P : Platform) (objectId : String) (exchange : Effect.Exchange Op Op.Res Err) : Prop :=
  Op.Anchors P objectId exchange.1 ∨ Refusal exchange

/-- No version was put and no tag of one was moved. -/
def Versionless (P : Platform) (objectId : String) (trace : List (Effect.Exchange Op Op.Res Err)) : Prop :=
  ∀ exchange ∈ trace, Withheld P objectId exchange

/-- One version was put under its exact tag, and the registry refused to point the latest tag at it. -/
structure HalfPublished (P : Platform) (objectId digest : String) (body : Bytes)
    (trace : List (Effect.Exchange Op Op.Res Err)) : Prop where
  refused : ∃ exchange ∈ trace, exchange.1 = .send (.putManifest (latestName P objectId) body) ∧ Refusal exchange
  only : ∀ exchange ∈ trace, Withheld P objectId exchange ∨
    exchange.1 = .send (.putManifest (versionName P objectId digest) body)

/-- What a conflict may have left. -/
def Reserved (P : Platform) (objectId : String) (trace : List (Effect.Exchange Op Op.Res Err)) : Prop :=
  Versionless P objectId trace ∨ ∃ digest body, HalfPublished P objectId digest body trace

theorem versionless_of_anchors (h : ∀ exchange ∈ trace, Op.Anchors P objectId exchange.1) :
    Versionless P objectId trace := fun exchange hmem => .inl (h exchange hmem)

theorem versionless_of_refused (h : ∀ exchange ∈ trace, Refusal exchange) : Versionless P objectId trace :=
  fun exchange hmem => .inr (h exchange hmem)

theorem Versionless.append (h : Versionless P objectId front) (h' : Versionless P objectId back) :
    Versionless P objectId (front ++ back) := by
  intro exchange hmem
  rcases List.mem_append.mp hmem with hfront | hback
  · exact h exchange hfront
  · exact h' exchange hback

/-- What comes before and puts no version changes nothing. -/
theorem Reserved.after (hfront : Versionless P objectId front) (h : Reserved P objectId back) :
    Reserved P objectId (front ++ back) := by
  rcases h with hback | ⟨digest, body, ⟨exchange, hmem, hlatest, hrefused⟩, honly⟩
  · exact .inl (hfront.append hback)
  · refine .inr ⟨digest, body, ⟨exchange, List.mem_append_right _ hmem, hlatest, hrefused⟩, ?_⟩
    intro other hother
    rcases List.mem_append.mp hother with hin | hin
    · exact .inl (hfront other hin)
    · exact honly other hin

theorem Reserved.before (h : Reserved P objectId front) (hback : Versionless P objectId back) :
    Reserved P objectId (front ++ back) := by
  rcases h with hfront | ⟨digest, body, ⟨exchange, hmem, hlatest, hrefused⟩, honly⟩
  · exact .inl (hfront.append hback)
  · refine .inr ⟨digest, body, ⟨exchange, List.mem_append_left _ hmem, hlatest, hrefused⟩, ?_⟩
    intro other hother
    rcases List.mem_append.mp hother with hin | hin
    · exact honly other hin
    · exact .inl (hback other hin)

/-- A conflict of the program has left at most what a conflict may leave. -/
def Reserves (P : Platform) (objectId : String) (trace : List (Effect.Exchange Op Op.Res Err)) {α : Type}
    (outcome : Except Err α) : Prop :=
  ∀ error, outcome = .error error → (∀ exchange ∈ trace, Sober exchange) → ErrorKind.IsConflict error.kind →
    Reserved P objectId trace

section Parts

variable (objectId)

/-- Putting the manifest of one tag. -/
theorem uses_putManifest (client : RegistryHttpClient) (reference : String) (body : Bytes) :
    (client.putManifest P reference body).Uses (· = .send (.putManifest reference body)) := by
  refine (uses_lift _).bind fun document => (uses_request client _ _ _ _).bind fun response => ?_
  split
  · trivial
  · exact uses_lift _

theorem anchors_ensureAnchor (laws : P.Lawful) :
    (adapter.ensureAnchor P objectId).Uses (Op.Anchors P objectId) := by
  unfold OciDistributionAdapter.ensureAnchor
  rw [anchorTag_eq laws, Action.lift_ok, Prog.ret_bind]
  refine ((reads_manifestExists P adapter.transport _).mono fun _ h => h.anchors objectId).bind fun found => ?_
  split
  · refine ((reads_getManifest P adapter.transport _).mono fun _ h => h.anchors objectId).bind fun document => ?_
    split
    · trivial
    · exact (off_lift _).mono fun _ h => h.anchors objectId
  · refine ((off_uploadBlobBytes _ _).mono fun _ h => h.anchors objectId).bind fun _ => ?_
    refine (uses_putManifest adapter.transport _ _).mono fun op hop tag body heq => ?_
    rw [hop] at heq
    cases heq
    rfl

end Parts

/-- A part that puts no version, and then the rest. -/
theorem reserves_bind {α β : Type} {program : Action α} {next : α → Action β} {outcome : Except Err β}
    (huses : program.Uses (Op.Anchors P objectId)) (h : Traces env (program >>= next) s trace outcome s')
    (hnext : ∀ value s₁ front rest, Traces env program s front (.ok value) s₁ →
      Traces env (next value) s₁ rest outcome s' → Reserves P objectId rest outcome) :
    Reserves P objectId trace outcome := by
  intro error herror hsober hconflict
  rcases h.of_bind with ⟨other, hfirst, -⟩ | ⟨value, front, s₁, rest, rfl, hfirst, hrest⟩
  · exact .inl (versionless_of_anchors (hfirst.uses huses))
  · have hback := hnext value s₁ front rest hfirst hrest error herror
      (fun exchange hmem => hsober exchange (List.mem_append_right _ hmem)) hconflict
    exact hback.after (versionless_of_anchors (hfirst.uses huses))

/-- A part that concerns no manifest, and then the rest. -/
theorem reserves_off {α β : Type} {program : Action α} {next : α → Action β} {outcome : Except Err β}
    (huses : program.Uses Op.OffManifests) (h : Traces env (program >>= next) s trace outcome s')
    (hnext : ∀ value s₁ front rest, Traces env program s front (.ok value) s₁ →
      Traces env (next value) s₁ rest outcome s' → Reserves P objectId rest outcome) :
    Reserves P objectId trace outcome :=
  reserves_bind (huses.mono fun _ hop => hop.anchors objectId) h hnext

/-- A part that only reads, and then the rest. -/
theorem reserves_reads {α β : Type} {program : Action α} {next : α → Action β} {outcome : Except Err β}
    (huses : program.Uses Op.Reads) (h : Traces env (program >>= next) s trace outcome s')
    (hnext : ∀ value s₁ front rest, Traces env program s front (.ok value) s₁ →
      Traces env (next value) s₁ rest outcome s' → Reserves P objectId rest outcome) :
    Reserves P objectId trace outcome :=
  reserves_bind (huses.mono fun _ hop => hop.anchors objectId) h hnext

/-- A program that concerns no manifest. -/
theorem reserves_of_off {α : Type} {program : Action α} {outcome : Except Err α}
    (huses : program.Uses Op.OffManifests) (h : Traces env program s trace outcome s') :
    Reserves P objectId trace outcome := fun _ _ _ _ =>
  .inl (versionless_of_anchors fun exchange hmem => (h.uses huses exchange hmem).anchors objectId)

/-- A cleanup that concerns no manifest and raises nothing. -/
theorem reserves_finally {α : Type} {program : Action α} {cleanup : Action Unit} {outcome : Except Err α}
    (huses : cleanup.Uses Op.OffManifests)
    (hclean : ∀ s₁ last answer s₂, Traces env cleanup s₁ last answer s₂ → (∀ exchange ∈ last, Sober exchange) →
      answer = .ok ())
    (h : Traces env (program.finally_ cleanup) s trace outcome s')
    (hprogram : ∀ inner s₁, Traces env program s inner outcome s₁ → Reserves P objectId inner outcome) :
    Reserves P objectId trace outcome := by
  intro error herror hsober hconflict
  obtain ⟨inner, first, s₁, back, rfl, hinner, hback⟩ := h.of_handle
  obtain ⟨last, answer, s₂, rest, rfl, hlast, hrest⟩ := hback.of_handle
  have hsober' : ∀ exchange ∈ last, Sober exchange := fun exchange hmem =>
    hsober exchange (List.mem_append_right _ (List.mem_append_left _ hmem))
  obtain rfl := hclean s₁ last answer s₂ hlast hsober'
  obtain ⟨rfl, rfl, -⟩ := hrest.of_except
  rw [List.append_nil] at hsober ⊢
  have hfront := hprogram inner s₁ hinner error herror
    (fun exchange hmem => hsober exchange (List.mem_append_left _ hmem)) hconflict
  exact hfront.before (versionless_of_anchors fun exchange hmem => (hlast.uses huses exchange hmem).anchors _)

/-- Inside the lock. -/
theorem reserves_locked {α : Type} {action : Action α} {outcome : Except Err α}
    (h : Traces env (Action.locked action) s trace outcome s')
    (haction : ∀ s₁ front inner s₂, Traces env Action.acquire s front (.ok ()) s₁ →
      Traces env action s₁ inner outcome s₂ → Reserves P objectId inner outcome) :
    Reserves P objectId trace outcome := by
  have hacquire : (Action.acquire).Uses Op.OffManifests := Prog.uses_perform (by rintro request ⟨⟩)
  have hrelease : (Action.release).Uses Op.OffManifests := Prog.uses_perform (by rintro request ⟨⟩)
  refine reserves_off hacquire h fun _ s₁ front rest hfront h => ?_
  refine reserves_finally hrelease (fun s₁ last answer s₂ hlast hsober => ?_) h fun inner s₂ hinner =>
    haction s₁ front inner s₂ hfront hinner
  cases hlast with
  | call _ _ _ s₄ _ given back _ _ hend =>
    obtain ⟨value, rfl⟩ := hsober ⟨.release, given⟩ List.mem_cons_self
    cases hend
    rfl

/-- Marking a put as failed adds nothing. -/
theorem traces_failing (hfails : Platform.Fails P) {α : Type} {machine : PutState} {physicalCommit : Bool}
    {action : Action α} {outcome : Except Err α}
    (h : Traces env (failing P machine physicalCommit action) s trace outcome s') :
    Traces env action s trace outcome s' := by
  obtain ⟨front, first, s₁, rest, rfl, hfront, hrest⟩ := h.of_handle
  have hquiet : rest = [] ∧ outcome = first ∧ s' = s₁ := by
    cases first with
    | ok value =>
      cases hrest
      exact ⟨rfl, rfl, rfl⟩
    | error error =>
      dsimp only [Prog.onError] at hrest
      split at hrest
      · rename_i hmachine
        obtain ⟨next, hnext⟩ := hfails.fail machine physicalCommit hmachine
        rw [hnext] at hrest
        cases hrest
        exact ⟨rfl, rfl, rfl⟩
      · cases hrest
        exact ⟨rfl, rfl, rfl⟩
  obtain ⟨rfl, rfl, rfl⟩ := hquiet
  rw [List.append_nil]
  exact hfront

/-- The last manifest PUT of an operation. -/
theorem reserves_putManifest (hlimits : Platform.LimitsRaw P) {client : RegistryHttpClient} {reference : String}
    {body : Bytes} {α : Type} {value : α} {outcome : Except Err α}
    (h : Traces env (client.putManifest P reference body >>= fun _ => pure value) s trace outcome s') :
    Reserves P objectId trace outcome := by
  intro error herror hsober hconflict
  rcases h.of_bind with ⟨other, hput, heq⟩ | ⟨descriptor, front, s₁, rest, rfl, hput, hrest⟩
  · obtain rfl := Except.error.inj (heq.symm.trans herror)
    exact .inl (versionless_of_refused (putManifest_conflict hlimits hput hsober hconflict))
  · cases hrest
    cases herror

section Commit

variable (laws : P.Lawful) (hlimits : Platform.LimitsRaw P)

include laws hlimits

theorem publishVersion_reserves {identity : ContentIdentity} {anchor : OciDescriptor P} {stored : StoredObject}
    {digest : String} {outcome : Except Err ObjectMetadata}
    (h : Traces env (adapter.publishVersion P objectId identity anchor stored (versionName P objectId digest)) s trace
      outcome s') : Reserves P objectId trace outcome := by
  unfold OciDistributionAdapter.publishVersion at h
  dsimp only at h
  split at h
  · cases h
    exact fun _ _ _ _ => .inl (by simp [Versionless])
  · refine reserves_off (off_uploadBlobBytes _ _) h fun config s₁ _ trace _ h => ?_
    refine reserves_off (off_lift _) h fun payload s₂ _ trace _ h => ?_
    -- the exact tag, then the latest one
    intro error herror hsober hconflict
    rcases h.of_bind with ⟨other, hput, heq⟩ | ⟨descriptor, front, s₁, rest, rfl, hput, hrest⟩
    · obtain rfl := Except.error.inj (heq.symm.trans herror)
      exact .inl (versionless_of_refused (putManifest_conflict hlimits hput hsober hconflict))
    · rw [latestTag_eq laws, Action.lift_ok, Prog.ret_bind] at hrest
      rcases hrest.of_bind with ⟨other, hlast, heq⟩ | ⟨descriptor', last, s₄, rest', rfl, hlast, hreturn⟩
      · obtain rfl := Except.error.inj (heq.symm.trans herror)
        have hsober' : ∀ exchange ∈ rest, Sober exchange := fun exchange hmem =>
          hsober exchange (List.mem_append_right _ hmem)
        have hrefused := putManifest_conflict hlimits hlast hsober' hconflict
        have hops := hlast.uses (uses_putManifest _ _ _)
        have hfront := hput.uses (uses_putManifest _ _ _)
        obtain ⟨exchange, rest, rfl⟩ := List.exists_cons_of_ne_nil (putManifest_again hput hlast)
        refine .inr ⟨digest, _, ⟨exchange, by simp, hops exchange (by simp), hrefused exchange (by simp)⟩, ?_⟩
        intro other hmem
        rcases List.mem_append.mp hmem with hin | hin
        · exact .inr (hfront other hin)
        · exact .inl (.inr (hrefused other hin))
      · cases hreturn
        cases herror

theorem commitFresh_reserves {value : PutInput} {identity : ContentIdentity} {immutability : ImmutabilityRequest}
    {retention : Option RetentionRequest} {digest : String} {outcome : Except Err ObjectMetadata}
    (h : Traces env (adapter.commitFresh P value identity immutability retention
      (versionName P value.objectId digest)) s trace outcome s') : Reserves P value.objectId trace outcome := by
  refine reserves_bind (anchors_ensureAnchor value.objectId laws) h fun anchor s₁ _ trace _ h => ?_
  refine reserves_off (off_lift _) h fun provenance s₂ _ trace _ h => ?_
  refine reserves_off off_now h fun createdAt s₃ _ trace _ h => ?_
  exact reserves_off (off_lift _) h fun metadata s₄ _ trace _ h => publishVersion_reserves laws hlimits h

omit laws in
theorem commitExisting_reserves {identity : ContentIdentity} {immutability : ImmutabilityRequest} {createOnly : Bool}
    {outcome : Except Err ObjectMetadata}
    (h : Traces env (adapter.commitExisting P objectId identity immutability createOnly) s trace outcome s') :
    Reserves P objectId trace outcome := by
  unfold OciDistributionAdapter.commitExisting at h
  split at h
  · cases h
    exact fun _ _ _ _ => .inl (by simp [Versionless])
  · refine reserves_reads (reads_storedForReference P adapter _) h fun existing s₁ _ trace _ h => ?_
    exact reserves_off (off_lift _) h fun latest s₂ _ trace _ h => reserves_putManifest hlimits h

/-- A commit that raises a conflict has put no version, or all but the latest tag of one. -/
theorem commitObject_reserves {value : PutInput} {identity : ContentIdentity} {immutability : ImmutabilityRequest}
    {retention : Option RetentionRequest} {createOnly : Bool} {outcome : Except Err ObjectMetadata}
    (h : Traces env (adapter.commitObject P value identity immutability retention createOnly) s trace outcome s') :
    Reserves P value.objectId trace outcome := by
  refine reserves_reads (reads_requireCreateAvailable P adapter _ _ _) h fun _ s₁ _ trace _ h => ?_
  cases htag : versionTag P value.objectId identity.digest with
  | error error =>
    rw [htag] at h
    cases h
    exact fun _ _ _ _ => .inl (by simp [Versionless])
  | ok tag =>
    rw [htag, Action.lift_ok, Prog.ret_bind] at h
    refine reserves_reads (reads_manifestExists P adapter.transport tag) h fun found s₂ _ trace _ h => ?_
    split at h
    · exact commitExisting_reserves hlimits h
    · rw [versionTag_ok htag] at h
      exact commitFresh_reserves laws hlimits h

/-- The same of a put. -/
theorem put_reserves (hfails : Platform.Fails P) {value : PutInput} {outcome : Except Err Result}
    (h : Traces env (adapter.put P value) s trace outcome s') : Reserves P value.objectId trace outcome := by
  refine reserves_off (off_lift _) h fun payload s₁ _ trace _ h => ?_
  refine reserves_off (off_lift _) h fun immutability s₁ _ trace _ h => ?_
  refine reserves_off (off_lift _) h fun retention s₁ _ trace _ h => ?_
  refine reserves_locked h fun s₁ _ trace s₂ _ h => ?_
  refine reserves_reads (reads_requireCreateAvailable P adapter _ _ _) h fun _ s₁ _ trace _ h => ?_
  rw [laws.transition_uploading, Action.lift_ok, Prog.ret_bind] at h
  refine reserves_off (off_failing _ _ (off_uploadPayload payload)) h fun identity s₃ _ trace _ h => ?_
  refine reserves_off (off_failing _ _ (off_lift _)) h fun machine s₄ _ trace hmachine h => ?_
  have hverifying := (traces_failing hfails hmachine).of_except.2.1
  rw [laws.transition_verifying] at hverifying
  obtain rfl := Except.ok.inj hverifying
  intro error herror hsober hconflict
  rcases h.of_bind with ⟨other, hcommit, heq⟩ | ⟨metadata, front, s₅, rest, rfl, -, hrest⟩
  · obtain rfl := Except.error.inj (heq.symm.trans herror)
    exact commitObject_reserves laws hlimits (traces_failing hfails hcommit) other rfl hsober hconflict
  · -- after a commit nothing raises
    rw [laws.transition_committed] at hrest
    cases hrest
    cases herror

end Commit

/-! ## Completions -/

section Completion

variable {desk desk' : Desk} {reference : Nat} {state : MultipartState}

/-- An operation that leaves the session objects alone. -/
def Op.Forgets (op : Op) : Prop := ∀ update, op ≠ .memory update

theorem forgets_commitObject (value : PutInput) (identity : ContentIdentity) (immutability : ImmutabilityRequest)
    (retention : Option RetentionRequest) (createOnly : Bool) :
    (adapter.commitObject P value identity immutability retention createOnly).Uses Op.Forgets := by
  have hsequential : Sequential P fun _ program => program.Uses Op.Forgets :=
    { aside := fun h => h.mono fun _ hop => hop.2
      bind := fun h hnext => h.bind hnext
      locked := fun h => (aside_acquire.mono fun _ hop => hop.2).bind fun _ => h.finally_
        (aside_release.mono fun _ hop => hop.2)
      failing := fun machine physicalCommit _ h => h.tryCatch fun error => by
        split
        · exact (uses_lift _).bind fun _ => trivial
        · trivial }
  refine hsequential.commitObject (fun bytes mediaType => ?_) value identity immutability retention createOnly
  refine (sends_uploadBlobBytes P adapter.transport bytes mediaType).mono fun op hop update heq => ?_
  obtain ⟨request, hsend⟩ := hop
  cases hsend.symm.trans heq

/-- What leaves the session objects alone. -/
theorem memory_kept {α : Type} {program : Action α} {outcome : Except Err α} (huses : program.Uses Op.Forgets)
    (h : Traces (Desk.env P) program desk trace outcome desk') : desk'.memory = desk.memory := by
  let Kept : Desk → Desk → Prop := fun a b => b.memory = a.memory
  have hrefl : ∀ a, Kept a a := fun _ => rfl
  have htrans : ∀ a b c, Kept a b → Kept b c → Kept a c := fun _ _ _ hab hbc => hbc.trans hab
  have hsteps : program.Ensures (Desk.env P) Kept desk fun _ _ => True := by
    refine huses.ensures (fun op a answer b hop hstep => ?_) desk
    rw [Desk.env_other hstep hop]
  exact (h.ensures (hsteps.reach hrefl htrans)).2

theorem off_memory {α : Type} {update : Memory → Memory} {next : Memory → Action α}
    (hnext : ∀ memory, (next memory).Uses Op.OffManifests) :
    (Action.memory update >>= next).Uses Op.OffManifests :=
  (Prog.uses_perform (by rintro request ⟨⟩)).bind hnext

theorem off_readState : (OciDistributionAdapter.readState reference).Uses Op.OffManifests := by
  refine off_memory fun memory => ?_
  split <;> trivial

theorem off_updateState (update : MultipartState → MultipartState) :
    (OciDistributionAdapter.updateState reference update).Uses Op.OffManifests := by
  refine off_memory fun memory => ?_
  split <;> trivial

theorem off_transitionState (target : PutState) :
    (OciDistributionAdapter.transitionState P reference target).Uses Op.OffManifests :=
  (off_updateState _).bind fun _ => (off_lift _).bind fun _ => trivial

theorem off_failState (physicalCommit : Bool) :
    (OciDistributionAdapter.failState P reference physicalCommit).Uses Op.OffManifests :=
  (off_updateState _).bind fun _ => (off_lift _).bind fun _ => trivial

theorem off_stateOf (session : MultipartSession) : (adapter.stateOf session).Uses Op.OffManifests := by
  refine off_memory fun memory => ?_
  repeat' split
  all_goals trivial

theorem off_abortMultipart (session : MultipartSession) :
    (adapter.abortMultipart P session).Uses Op.OffManifests := by
  refine off_memory fun memory => ?_
  split
  · trivial
  · refine off_readState.bind fun state => (off_abortSafely _).bind fun _ => off_readState.bind fun state => ?_
    split
    · exact off_transitionState _
    · trivial

theorem off_abandonMultipart (error : Err) : (adapter.abandonMultipart P reference error).Uses Op.OffManifests := by
  refine off_readState.bind fun state => ?_
  split
  · exact (off_abortSafely _).bind fun _ => (off_failState _).bind fun _ => trivial
  · split
    · exact (off_failState _).bind fun _ => trivial
    · trivial

variable (laws : P.Lawful) (hlimits : Platform.LimitsRaw P)

include laws hlimits

theorem commitMultipart_reserves {value : PutInput} {identity : ContentIdentity} {immutability : ImmutabilityRequest}
    {retention : Option RetentionRequest} {outcome : Except Err ObjectMetadata}
    (hobject : desk.memory.heap[reference]? = some state) (hmachine : state.machine = .uploading)
    (h : Traces (Desk.env P) (adapter.commitMultipart P reference value identity immutability retention) desk trace
      outcome desk') : Reserves P value.objectId trace outcome := by
  have hchecks := reads_requireCreateAvailable P adapter value.objectId immutability
    (value.createOnly || immutability.publishOnce)
  refine reserves_reads hchecks h fun _ desk₁ _ trace₁ hfirst h₁ => ?_
  obtain rfl := hfirst.ensures (Desk.reads_ensures hchecks desk)
  refine reserves_off off_readState h₁ fun found desk₂ _ trace₂ hread h₂ => ?_
  obtain ⟨heq, rfl⟩ := hread.ensures (Desk.remembers.readState _ hobject)
  obtain rfl := Except.ok.inj heq
  refine reserves_off (off_finishUpload _ _) h₂ fun descriptor desk₃ _ trace₃ hfinish h₃ => ?_
  have hobject₃ : desk₃.memory.heap[reference]? = some found := by
    rcases hfinish.ensures (Desk.finishUpload_desk _ _ _) with heq | heq
    all_goals
      rw [heq]
      exact hobject
  refine reserves_off (off_transitionState _) h₃ fun _ desk₄ _ trace₄ hmove h₄ => ?_
  obtain ⟨-, machine, hverifying, rfl⟩ := hmove.ensures (Desk.remembers.transitionState desk₃ hobject₃ .verifying)
  rw [hmachine, laws.transition_verifying] at hverifying
  obtain rfl := Except.ok.inj hverifying
  intro error herror hsober hconflict
  rcases h₄.of_bind with ⟨other, hcommit, heq⟩ | ⟨metadata, front, desk₅, rest, rfl, hcommit, hrest⟩
  · obtain rfl := Except.error.inj (heq.symm.trans herror)
    exact commitObject_reserves laws hlimits hcommit other rfl hsober hconflict
  · -- after a commit nothing raises
    have hmemory := memory_kept (forgets_commitObject _ _ _ _ _) hcommit
    have hobject₅ : desk₅.memory.heap[reference]? = some { found with machine := .verifying } := by
      rw [hmemory]
      show (desk₃.memory.heap.modify reference _)[reference]? = _
      rw [List.getElem?_modify_eq, hobject₃]
      rfl
    rcases hrest.of_bind with ⟨other, hlast, -⟩ | ⟨_, front, desk₆, last, rfl, -, hlast⟩
    · have hbad := (hlast.ensures (Desk.remembers.transitionState desk₅ hobject₅ .committed)).2
      rw [laws.transition_committed] at hbad
      cases hbad
    · cases hlast
      cases herror

/-- The same of a completion, where the sessions are sound. -/
theorem completeMultipart_reserves (hfails : Platform.Fails P) {session : MultipartSession}
    {supplied : List MultipartPart} {outcome : Except Err ObjectMetadata} (hsound : SoundMemory desk.memory)
    (h : Traces (Desk.env P) (adapter.completeMultipart P session supplied) desk trace outcome desk') :
    Reserves P session.objectRef.objectId trace outcome := by
  unfold OciDistributionAdapter.completeMultipart at h
  refine reserves_off (off_stateOf session) h fun reference desk₁ _ trace₁ hstate h₁ => ?_
  obtain ⟨rfl, state, hlive, hbelongs⟩ := hstate.ensures (Desk.remembers.stateOf desk session)
  refine reserves_off off_readState h₁ fun found desk₂ _ trace₂ hread h₂ => ?_
  obtain ⟨heq, rfl⟩ := hread.ensures (Desk.remembers.readState _ hlive.object)
  obtain rfl := Except.ok.inj heq
  have hnothing : ∀ {error : Err} {trace : List (Effect.Exchange Op Op.Res Err)} {desk₃ : Desk},
      Traces (Desk.env P) (throw error : Action ObjectMetadata) desk₃ trace outcome desk' →
        Reserves P session.objectRef.objectId trace outcome := fun h =>
    reserves_of_off (Prog.uses_raise _) h
  have habort : ∀ error, (adapter.abortMultipart P session >>= fun _ => (throw error : Action ObjectMetadata)).Uses
      Op.OffManifests := fun error => (off_abortMultipart session).bind fun _ => Prog.uses_raise error
  split at h₂
  · exact hnothing h₂
  split at h₂
  · exact hnothing h₂
  refine reserves_off (off_lift _) h₂ fun _ desk₃ _ trace₃ hchecked h₃ => ?_
  obtain rfl := hchecked.of_except.2.2
  dsimp only at h₃
  split at h₃
  · exact reserves_of_off (habort _) h₃
  split at h₃
  · exact reserves_of_off (habort _) h₃
  refine reserves_off (off_lift _) h₃ fun immutability desk₄ _ trace₄ himmutability h₄ => ?_
  obtain rfl := himmutability.of_except.2.2
  refine reserves_off (off_lift _) h₄ fun retention desk₅ _ trace₅ hretention h₅ => ?_
  obtain rfl := hretention.of_except.2.2
  have hpop : (Action.memory (fun memory => memory.pop session.sessionId) >>= fun _ =>
      (return () : Action Unit)).Uses Op.OffManifests := off_memory fun _ => Prog.uses_ret ()
  refine reserves_finally hpop (fun desk₆ _ answer _ hpopped _ => ?_) h₅ fun inner desk₆ hinner => ?_
  · have hdone : (Action.memory (fun memory => memory.pop session.sessionId) >>= fun _ =>
        (return () : Action Unit)).Ensures (Desk.env P) (fun _ _ => True) desk₆ fun answer _ => answer = .ok () :=
      Desk.remembers.memory_bind desk₆ fun _ _ => rfl
    exact hpopped.ensures hdone
  -- giving up raises the error of the commit again
  intro error herror hsober hconflict
  obtain ⟨front, first, desk₇, rest, rfl, hfirst, hrest⟩ := hinner.of_handle
  cases first with
  | ok metadata =>
    cases hrest
    cases herror
  | error other =>
    have htouching := (Desk.compositional_touching P reference).locked
      (@Desk.touching_commitMultipart _ reference adapter found.input ⟨sha256Digest P found.hashed, found.length⟩
        immutability retention)
    obtain ⟨update, hmemory⟩ := hfirst.ensures (htouching _)
    have hobject : desk₇.memory.heap[reference]? = some (update found) := by
      rw [hmemory, get?_modify, if_pos rfl]
      show (desk.memory.heap[reference]?).map update = _
      rw [hlive.object, Option.map_some]
    obtain rfl := hrest.ensures (abandonMultipart_rethrows hfails hobject other)
    obtain rfl := Except.error.inj herror
    have hlocked : Reserves P session.objectRef.objectId front (.error other : Except Err ObjectMetadata) := by
      refine reserves_locked hfirst fun desk₈ _ inner desk₉ hacquire hcommit => ?_
      have hsame := memory_kept (aside_acquire.mono fun _ hop => hop.2) hacquire
      have hobject₈ : desk₈.memory.heap[reference]? = some found := by
        rw [hsame]
        exact hlive.object
      have hcommitted := commitMultipart_reserves laws hlimits hobject₈ (hsound.live hlive).machine hcommit
      rw [hbelongs]
      exact hcommitted
    have hfront := hlocked other rfl (fun exchange hmem => hsober exchange (List.mem_append_left _ hmem)) hconflict
    exact hfront.before (versionless_of_anchors fun exchange hmem =>
      (hrest.uses (off_abandonMultipart other) exchange hmem).anchors _)

end Completion

/-! ## Calls that publish -/

/-- The object id that a put or a completion publishes. -/
def Call.published : Call → Option String
  | .execute operation =>
    match operation.input with
    | .put value => some value.objectId
    | _ => none
  | .completeMultipart session _ => some session.objectRef.objectId
  | _ => none

/-- A value that is only wrapped raises the same errors. -/
theorem reserves_wrap {α β : Type} {program : Action α} {wrap : α → β} {outcome : Except Err β}
    (h : Traces env (program >>= fun value => pure (wrap value)) s trace outcome s')
    (hprogram : ∀ trace inner s₁, Traces env program s trace inner s₁ → Reserves P objectId trace inner) :
    Reserves P objectId trace outcome := by
  intro error herror hsober hconflict
  rcases h.of_bind with ⟨other, hfirst, heq⟩ | ⟨value, front, s₁, rest, rfl, -, hrest⟩
  · obtain rfl := Except.error.inj (heq.symm.trans herror)
    exact hprogram trace _ s' hfirst other rfl hsober hconflict
  · cases hrest
    cases herror

/-- A put or a completion that raises a conflict has put no version, or all but the latest tag of one. -/
theorem call_reserves (laws : P.Lawful) (hlimits : Platform.LimitsRaw P) (hfails : Platform.Fails P) {call : Call}
    (hcall : call.published = some objectId) {desk desk' : Desk} {outcome : Except Err Answer}
    (hsound : SoundMemory desk.memory) (h : Traces (Desk.env P) (call.program P adapter) desk trace outcome desk') :
    Reserves P objectId trace outcome := by
  cases call with
  | execute operation =>
    refine reserves_wrap h fun trace inner desk₁ h => ?_
    unfold OciDistributionAdapter.execute at h
    refine reserves_off (off_lift _) h fun method s₁ _ trace _ h => ?_
    refine reserves_off (off_lift _) h fun _ s₁ _ trace _ h => ?_
    cases hinput : operation.input with
    | put value =>
      rw [Call.published, hinput] at hcall
      obtain rfl := Option.some.inj hcall
      rw [hinput] at h
      dsimp only at h
      split at h
      · exact put_reserves laws hlimits hfails h
      · exact reserves_of_off (Prog.uses_raise _) h
    | get | stat | readRange | list | delete =>
      rw [Call.published, hinput] at hcall
      cases hcall
  | completeMultipart session supplied =>
    obtain rfl := Option.some.inj hcall
    exact reserves_wrap h fun trace inner desk₁ h => completeMultipart_reserves laws hlimits hfails hsound h
  | beginMultipart operation => cases hcall
  | uploadPart session partNumber payload => cases hcall
  | abortMultipart session => cases hcall

/-- An operation that deletes no manifest: it concerns none, reads one or puts one. -/
def Op.Publishes (op : Op) : Prop :=
  Op.OffManifests op ∨ Op.Reads op ∨ ∃ tag body, op = .send (.putManifest tag body)

section Publishes

variable {α : Type}

theorem publishes_off {program : Action α} (h : program.Uses Op.OffManifests) : program.Uses Op.Publishes :=
  h.mono fun _ => .inl

theorem publishes_reads {program : Action α} (h : program.Uses Op.Reads) : program.Uses Op.Publishes :=
  h.mono fun _ hop => .inr (.inl hop)

theorem publishes_lift (outcome : Except Err α) : (Action.lift outcome).Uses Op.Publishes := uses_lift outcome

theorem publishes_putManifest (client : RegistryHttpClient) (reference : String) (body : Bytes) :
    (client.putManifest P reference body).Uses Op.Publishes :=
  (uses_putManifest client reference body).mono fun _ hop => .inr (.inr ⟨reference, body, hop⟩)

theorem publishes_ensureAnchor : (adapter.ensureAnchor P objectId).Uses Op.Publishes := by
  refine (publishes_lift _).bind fun tag => (publishes_reads (reads_manifestExists P _ _)).bind fun found => ?_
  split
  · refine (publishes_reads (reads_getManifest P _ _)).bind fun document => ?_
    split
    · trivial
    · exact publishes_lift _
  · exact (publishes_off (off_uploadBlobBytes _ _)).bind fun _ => publishes_putManifest _ _ _

theorem publishes_publishVersion (identity : ContentIdentity) (anchor : OciDescriptor P) (stored : StoredObject)
    (exactTag : String) : (adapter.publishVersion P objectId identity anchor stored exactTag).Uses Op.Publishes := by
  unfold OciDistributionAdapter.publishVersion
  dsimp only
  split
  · trivial
  · refine (publishes_off (off_uploadBlobBytes _ _)).bind fun config => (publishes_lift _).bind fun payload => ?_
    refine (publishes_putManifest _ _ _).bind fun _ => (publishes_lift _).bind fun latest => ?_
    exact (publishes_putManifest _ _ _).bind fun _ => trivial

theorem publishes_commitObject (value : PutInput) (identity : ContentIdentity) (immutability : ImmutabilityRequest)
    (retention : Option RetentionRequest) (createOnly : Bool) :
    (adapter.commitObject P value identity immutability retention createOnly).Uses Op.Publishes := by
  refine (publishes_reads (reads_requireCreateAvailable P adapter _ _ _)).bind fun _ => ?_
  refine (publishes_lift _).bind fun tag => (publishes_reads (reads_manifestExists P _ _)).bind fun found => ?_
  split
  · unfold OciDistributionAdapter.commitExisting
    split
    · trivial
    · refine (publishes_reads (reads_storedForReference P adapter _)).bind fun existing => ?_
      exact (publishes_lift _).bind fun latest => (publishes_putManifest _ _ _).bind fun _ => trivial
  · refine publishes_ensureAnchor.bind fun anchor => (publishes_lift _).bind fun provenance => ?_
    refine (publishes_off off_now).bind fun createdAt => (publishes_lift _).bind fun metadata => ?_
    exact publishes_publishVersion _ _ _ _

theorem publishes_locked {action : Action α} (h : action.Uses Op.Publishes) :
    (Action.locked action).Uses Op.Publishes :=
  (publishes_off (Prog.uses_perform (by rintro request ⟨⟩))).bind fun _ =>
    h.finally_ (publishes_off (Prog.uses_perform (by rintro request ⟨⟩)))

theorem publishes_failing (machine : PutState) (physicalCommit : Bool) {action : Action α}
    (h : action.Uses Op.Publishes) : (failing P machine physicalCommit action).Uses Op.Publishes := by
  refine h.tryCatch fun error => ?_
  split
  · exact (publishes_lift _).bind fun _ => trivial
  · trivial

theorem publishes_put (value : PutInput) : (adapter.put P value).Uses Op.Publishes := by
  refine (publishes_lift _).bind fun payload => (publishes_lift _).bind fun immutability => ?_
  refine (publishes_lift _).bind fun retention => publishes_locked ?_
  refine (publishes_reads (reads_requireCreateAvailable P adapter _ _ _)).bind fun _ => ?_
  refine (publishes_lift _).bind fun machine => ?_
  refine (publishes_failing _ _ (publishes_off (off_uploadPayload payload))).bind fun identity => ?_
  refine (publishes_failing _ _ (publishes_lift _)).bind fun machine => ?_
  refine (publishes_failing _ _ (publishes_commitObject _ _ _ _ _)).bind fun metadata => ?_
  exact (publishes_failing _ _ (publishes_lift _)).bind fun _ => trivial

theorem publishes_completeMultipart (session : MultipartSession) (supplied : List MultipartPart) :
    (adapter.completeMultipart P session supplied).Uses Op.Publishes := by
  have hcommit : ∀ reference value identity immutability retention,
      (adapter.commitMultipart P reference value identity immutability retention).Uses Op.Publishes := by
    intro reference value identity immutability retention
    refine (publishes_reads (reads_requireCreateAvailable P adapter _ _ _)).bind fun _ => ?_
    refine (publishes_off off_readState).bind fun state => (publishes_off (off_finishUpload _ _)).bind fun _ => ?_
    refine (publishes_off (off_transitionState _)).bind fun _ => ?_
    exact (publishes_commitObject _ _ _ _ _).bind fun _ => (publishes_off (off_transitionState _)).bind fun _ => trivial
  refine (publishes_off (off_stateOf session)).bind fun reference => (publishes_off off_readState).bind fun state => ?_
  split
  · trivial
  split
  · trivial
  refine (publishes_lift _).bind fun _ => ?_
  dsimp only
  split
  · exact (publishes_off (off_abortMultipart session)).bind fun _ => trivial
  split
  · exact (publishes_off (off_abortMultipart session)).bind fun _ => trivial
  refine (publishes_lift _).bind fun immutability => (publishes_lift _).bind fun retention => ?_
  refine Prog.Uses.finally_ ((publishes_locked (hcommit _ _ _ _ _)).tryCatch fun error =>
    publishes_off (off_abandonMultipart error)) ?_
  exact publishes_off (off_memory fun _ => Prog.uses_ret ())

theorem publishes_call {call : Call} (hcall : call.published = some objectId) :
    (call.program P adapter).Uses Op.Publishes := by
  cases call with
  | execute operation =>
    refine Prog.Uses.bind ((publishes_lift _).bind fun method => (publishes_lift _).bind fun _ => ?_) fun _ => trivial
    cases hinput : operation.input with
    | put value =>
      dsimp only
      split
      · exact publishes_put value
      · trivial
    | get | stat | readRange | list | delete =>
      rw [Call.published, hinput] at hcall
      cases hcall
  | completeMultipart session supplied => exact (publishes_completeMultipart session supplied).bind fun _ => trivial
  | beginMultipart operation => cases hcall
  | uploadPart session partNumber payload => cases hcall
  | abortMultipart session => cases hcall

end Publishes

end MeridianOci.Service
