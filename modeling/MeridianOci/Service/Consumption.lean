import MeridianOci.Service.Methods
import MeridianOci.Service.Sample

/-!
# How much of a body is taken into memory

The two loops over the chunks of a response, with the number of chunks they take from
the stream. The buffered requests stop at the first chunk beyond their bound, and what
follows it has no influence; the error branch of `open_blob` takes every chunk, and so
does `httpx` of every redirect it follows.
-/
namespace MeridianOci.Service

open MeridianOci.Data MeridianOci.Effect MeridianOci.Model

set_option autoImplicit false

variable {P : Platform}

/-! ## The loops -/

def overBound : Err := .of .objectUnavailable "OCI registry response exceeded its configured bound"

/-- The loop of `_bounded_response`, with the number of chunks it takes. -/
def takeBounded (maximumBytes : Nat) : List Bytes → Bytes → Option Err → Except Err Bytes × Nat
  | [], body, none => (.ok body, 0)
  | [], _, some failure => (.error failure, 0)
  | chunk :: rest, body, failure =>
    if maximumBytes < (body ++ chunk).length then (.error overBound, 1)
    else
      let more := takeBounded maximumBytes rest (body ++ chunk) failure
      (more.1, more.2 + 1)

/-- `response.read()`, with the number of chunks it takes. -/
def takeAll : List Bytes → Bytes → Option Err → Except Err Bytes × Nat
  | [], body, none => (.ok body, 0)
  | [], _, some failure => (.error failure, 0)
  | chunk :: rest, body, failure =>
    let more := takeAll rest (body ++ chunk) failure
    (more.1, more.2 + 1)

/-- Nothing is taken after the first chunk that exceeds the bound. -/
def Bounded (maximumBytes : Nat) (chunks : List Bytes) (taken : Nat) : Prop :=
  taken ≤ chunks.length ∧ (chunks.take (taken - 1)).flatten.length ≤ maximumBytes

theorem takeBounded_result (maximumBytes : Nat) (chunks : List Bytes) (body : Bytes) (failure : Option Err) :
    (takeBounded maximumBytes chunks body failure).1 = readBounded maximumBytes chunks body failure := by
  induction chunks generalizing body with
  | nil => cases failure <;> rfl
  | cons chunk rest ih =>
    rw [takeBounded, readBounded]
    split
    · rfl
    · exact ih (body ++ chunk)

theorem takeAll_eq (chunks : List Bytes) (body : Bytes) (failure : Option Err) :
    takeAll chunks body failure =
      (match failure with
        | some failure => .error failure
        | none => .ok (body ++ chunks.flatten), chunks.length) := by
  induction chunks generalizing body with
  | nil => cases failure <;> simp [takeAll]
  | cons chunk rest ih =>
    rw [takeAll, ih]
    cases failure <;> simp

/-- What the bounded loop takes, apart from the last chunk, is within the bound. -/
theorem takeBounded_bounded (maximumBytes : Nat) (chunks : List Bytes) (body : Bytes) (failure : Option Err)
    (hbody : body.length ≤ maximumBytes) :
    (takeBounded maximumBytes chunks body failure).2 ≤ chunks.length ∧
      (body ++ (chunks.take ((takeBounded maximumBytes chunks body failure).2 - 1)).flatten).length ≤ maximumBytes := by
  induction chunks generalizing body with
  | nil => cases failure <;> simpa [takeBounded] using hbody
  | cons chunk rest ih =>
    rw [takeBounded]
    split
    · simpa using hbody
    · rename_i hfits
      obtain ⟨hle, hlength⟩ := ih (body ++ chunk) (Nat.not_lt.mp hfits)
      refine ⟨Nat.succ_le_succ hle, ?_⟩
      show (body ++ ((chunk :: rest).take (_ + 1 - 1)).flatten).length ≤ maximumBytes
      cases htaken : (takeBounded maximumBytes rest (body ++ chunk) failure).2 with
      | zero => simpa using hbody
      | succ taken =>
        rw [htaken] at hlength
        simpa [List.append_assoc] using hlength

/-- If more than the bound is taken, the loop raises, whatever follows. -/
theorem takeBounded_exceeded {maximumBytes : Nat} {chunks : List Bytes} {body : Bytes} {failure : Option Err}
    (hbody : body.length ≤ maximumBytes)
    (hexceeds : maximumBytes < (body ++ (chunks.take (takeBounded maximumBytes chunks body failure).2).flatten).length)
    (rest : List Bytes) (failure' : Option Err) :
    (takeBounded maximumBytes (chunks.take (takeBounded maximumBytes chunks body failure).2 ++ rest) body failure').1 =
      .error overBound := by
  induction chunks generalizing body with
  | nil =>
    rw [List.take_nil, List.flatten_nil, List.append_nil] at hexceeds
    exact absurd hexceeds (Nat.not_lt.mpr hbody)
  | cons chunk others ih =>
    rw [takeBounded] at hexceeds ⊢
    by_cases hlong : maximumBytes < (body ++ chunk).length
    · rw [if_pos hlong, List.take_succ_cons, List.cons_append, takeBounded, if_pos hlong]
    · rw [if_neg hlong] at hexceeds ⊢
      rw [List.take_succ_cons, List.cons_append, takeBounded, if_neg hlong]
      refine ih (Nat.not_lt.mp hlong) ?_
      simpa [List.append_assoc] using hexceeds

/-! ## Receiving a response -/

/-- What one request brings: the bodies of the redirects that `httpx` follows, each read completely
before the next request goes out, and the response at their end or what was raised. -/
structure Delivery where
  redirects : List (List Bytes)
  answer : Except Err Response

/-- The places where the transport receives a response: the loop of `_request`, with the
attempts it has left, and `open_blob`. -/
inductive Receiver where
  | request (expected : List Nat) (maximumBytes left : Nat)
  | openBlob (source : RegistryBlobSource)

namespace Receiver

variable (P) (client : RegistryHttpClient)

/-- The bound of a request is its own; the one of `open_blob` is a constant. -/
def bound (constant : Nat) : Receiver → Nat
  | request _ maximumBytes _ => maximumBytes
  | openBlob _ => constant

/-- The chunks that are taken into memory before the response is returned, refused or passed on as a stream. -/
def taken (receiver : Receiver) (response : Response) : Nat :=
  match requireSafeResponseUrl P client.binding response.url with
  | .error _ => 0
  | .ok () =>
    match receiver with
    | request _ maximumBytes left =>
      if response.status ∈ retriableStatus ∧ 0 < left then 0
      else (takeBounded maximumBytes response.chunks [] response.failure).2
    | openBlob source =>
      if response.status ≠ (if source.range.isSome then 206 else 200) then
        (takeAll response.chunks [] response.failure).2
      else 0

/-- The response makes the transport raise: for a request, by its status if that was not
expected, and as unavailable otherwise. -/
def Raises (response : Response) : Receiver → Prop
  | request expected maximumBytes left => ∀ again, client.judge P expected maximumBytes left again (.ok response) =
      .raise (if response.status ∈ expected then overBound else responseError P ⟨response.status, response.headers, []⟩)
  | openBlob source => ∃ error, client.blobStream P source (.ok response) = .error error

/-- A body is taken up to the first chunk that exceeds the bound, and then the transport raises. -/
structure Contained (constant : Nat) (receiver : Receiver) (response : Response) : Prop where
  bounded : Bounded (receiver.bound constant) response.chunks (receiver.taken P client response)
  raises : receiver.bound constant < (response.chunks.take (receiver.taken P client response)).flatten.length →
    receiver.Raises P client response

/-- `open_blob` reads the body of a response it refuses, and all of it but the last chunk is beyond the constant. -/
def Drained (constant : Nat) (receiver : Receiver) (response : Response) : Prop :=
  ∃ source, receiver = openBlob source ∧ requireSafeResponseUrl P client.binding response.url = .ok () ∧
    response.status ≠ (if source.range.isSome then 206 else 200) ∧ constant < response.chunks.dropLast.flatten.length

/-- Every body is taken up to the first chunk that exceeds the bound, where the transport raises. It
does not after a redirect, which is followed whatever its body was, so that none may exceed it. -/
structure Contains (constant : Nat) (receiver : Receiver) (delivery : Delivery) : Prop where
  redirects : ∀ body ∈ delivery.redirects, Bounded (receiver.bound constant) body (takeAll body [] none).2 ∧
    ¬ receiver.bound constant < (body.take (takeAll body [] none).2).flatten.length
  answer : ∀ response, delivery.answer = .ok response → receiver.Contained P client constant response

/-- A redirect with a body beyond the bound, or a response that `open_blob` drains. -/
def Overrun (constant : Nat) (receiver : Receiver) (delivery : Delivery) : Prop :=
  (∃ body ∈ delivery.redirects, receiver.bound constant < body.flatten.length) ∨
    ∃ response, delivery.answer = .ok response ∧ receiver.Drained P client constant response

end Receiver

section Receive

variable {client : RegistryHttpClient}

/-- A buffered request contains every response. -/
theorem contained_request (constant : Nat) (expected : List Nat) (maximumBytes left : Nat) (response : Response) :
    (Receiver.request expected maximumBytes left).Contained P client constant response := by
  have hnothing : ∀ chunks : List Bytes, Bounded maximumBytes chunks 0 := fun chunks => ⟨Nat.zero_le _, by simp⟩
  cases hsafe : requireSafeResponseUrl P client.binding response.url with
  | error error =>
    have htaken : (Receiver.request expected maximumBytes left).taken P client response = 0 := by
      rw [Receiver.taken, hsafe]
    refine ⟨by rw [htaken]; exact hnothing _, fun hexceeds => ?_⟩
    rw [htaken] at hexceeds
    exact absurd hexceeds (Nat.not_lt_zero _)
  | ok safe =>
    by_cases hretry : response.status ∈ retriableStatus ∧ 0 < left
    · have htaken : (Receiver.request expected maximumBytes left).taken P client response = 0 := by
        rw [Receiver.taken, hsafe]
        exact if_pos hretry
      refine ⟨by rw [htaken]; exact hnothing _, fun hexceeds => ?_⟩
      rw [htaken] at hexceeds
      exact absurd hexceeds (Nat.not_lt_zero _)
    · have htaken : (Receiver.request expected maximumBytes left).taken P client response =
          (takeBounded maximumBytes response.chunks [] response.failure).2 := by
        rw [Receiver.taken, hsafe]
        exact if_neg hretry
      refine ⟨by rw [htaken]; exact takeBounded_bounded _ _ [] _ (Nat.zero_le _), fun hexceeds again => ?_⟩
      rw [htaken] at hexceeds
      have hread := takeBounded_exceeded (show ([] : Bytes).length ≤ maximumBytes from Nat.zero_le _) hexceeds
        (response.chunks.drop (takeBounded maximumBytes response.chunks [] response.failure).2) response.failure
      rw [List.take_append_drop, takeBounded_result] at hread
      simp only [RegistryHttpClient.judge, hsafe, if_neg hretry, boundedResponse, hread]
      split
      · split
        · rfl
        · rfl
      · rename_i hkind
        exact absurd rfl hkind

/-- `open_blob` contains a response if and only if it does not drain it. -/
theorem contained_openBlob (constant : Nat) (source : RegistryBlobSource) (response : Response) :
    (Receiver.openBlob source).Contained P client constant response ↔
      ¬ (Receiver.openBlob source).Drained P client constant response := by
  have hidle : (Receiver.openBlob source).taken P client response = 0 →
      (Receiver.openBlob source).Contained P client constant response := by
    intro htaken
    refine ⟨by rw [htaken]; exact ⟨Nat.zero_le _, by simp⟩, fun hexceeds => ?_⟩
    rw [htaken] at hexceeds
    exact absurd hexceeds (Nat.not_lt_zero _)
  cases hsafe : requireSafeResponseUrl P client.binding response.url with
  | error error =>
    refine iff_of_true (hidle (by rw [Receiver.taken, hsafe])) ?_
    rintro ⟨_, -, hother, -⟩
    cases hsafe.symm.trans hother
  | ok safe =>
    by_cases hstatus : response.status ≠ (if source.range.isSome then 206 else 200)
    · have htaken : (Receiver.openBlob source).taken P client response = response.chunks.length := by
        rw [Receiver.taken, hsafe]
        exact (if_pos hstatus).trans (congrArg Prod.snd (takeAll_eq _ _ _))
      have hraises : (Receiver.openBlob source).Raises P client response := by
        simp only [Receiver.Raises, RegistryHttpClient.blobStream, hsafe, bind, Except.bind, if_pos hstatus]
        cases response.failure with
        | none => exact ⟨_, rfl⟩
        | some failure => exact ⟨_, rfl⟩
      have hbounded : Bounded constant response.chunks response.chunks.length ↔
          response.chunks.dropLast.flatten.length ≤ constant := by
        rw [Bounded, List.dropLast_eq_take]
        exact ⟨fun h => h.2, fun h => ⟨Nat.le_refl _, h⟩⟩
      constructor
      · rintro hcontained ⟨_, -, -, -, hlong⟩
        have := hcontained.bounded
        rw [htaken] at this
        exact absurd hlong (Nat.not_lt.mpr (hbounded.mp this))
      · intro hdrained
        refine ⟨?_, fun _ => hraises⟩
        rw [htaken]
        refine hbounded.mpr (Nat.not_lt.mp fun hlong => hdrained ⟨source, rfl, hsafe, hstatus, hlong⟩)
    · refine iff_of_true (hidle ?_) ?_
      · rw [Receiver.taken, hsafe]
        exact if_neg hstatus
      · rintro ⟨_, heq, -, hother, -⟩
        cases heq
        exact hstatus hother

/-- Every response is contained, by every receiver and for every constant, unless `open_blob` drains it. -/
theorem contained_iff (constant : Nat) (receiver : Receiver) (response : Response) :
    receiver.Contained P client constant response ↔ ¬ receiver.Drained P client constant response := by
  cases receiver with
  | request expected maximumBytes left =>
    refine iff_of_true (contained_request constant expected maximumBytes left response) ?_
    rintro ⟨_, heq, -⟩
    cases heq
  | openBlob source => exact contained_openBlob constant source response

/-- The body of a redirect is taken completely. -/
theorem redirect_contained (bound : Nat) (body : List Bytes) :
    (Bounded bound body (takeAll body [] none).2 ∧
      ¬ bound < (body.take (takeAll body [] none).2).flatten.length) ↔ body.flatten.length ≤ bound := by
  have htaken : (takeAll body [] none).2 = body.length := congrArg Prod.snd (takeAll_eq body [] none)
  rw [htaken, List.take_length, Nat.not_lt]
  refine ⟨And.right, fun hfits => ⟨⟨Nat.le_refl _, ?_⟩, hfits⟩⟩
  calc (body.take (body.length - 1)).flatten.length
      ≤ (body.take (body.length - 1)).flatten.length + (body.drop (body.length - 1)).flatten.length :=
        Nat.le_add_right _ _
    _ = body.flatten.length := by
        rw [← List.length_append, ← List.flatten_append, List.take_append_drop]
    _ ≤ bound := hfits

theorem contains_iff (constant : Nat) (receiver : Receiver) (delivery : Delivery) :
    receiver.Contains P client constant delivery ↔ ¬ receiver.Overrun P client constant delivery := by
  constructor
  · rintro hcontains (⟨body, hbody, hlong⟩ | ⟨response, hanswer, hdrained⟩)
    · exact absurd hlong (Nat.not_lt.mpr ((redirect_contained _ body).mp (hcontains.redirects body hbody)))
    · exact (contained_iff constant receiver response).mp (hcontains.answer response hanswer) hdrained
  · intro hfits
    refine ⟨fun body hbody => (redirect_contained _ body).mpr (Nat.not_lt.mp fun hlong => ?_), fun response hanswer => ?_⟩
    · exact hfits (.inl ⟨body, hbody, hlong⟩)
    · exact (contained_iff constant receiver response).mpr fun hdrained => hfits (.inr ⟨response, hanswer, hdrained⟩)

end Receive

/-! ## The receivers of the methods -/

section Methods

variable (client : RegistryHttpClient) {A B : Receiver → Prop} {α β : Type}

/-- Every answer of a program goes to one of the receivers, and what the receiver makes of it is all
that the program goes on with. -/
inductive Receives (P : Platform) (client : RegistryHttpClient) (A : Receiver → Prop) {α : Type} : Action α → Prop
  | ret (value : α) : Receives P client A (.ret value)
  | raise (error : Err) : Receives P client A (.raise error)
  | authorize (next : Except Err Unit → Action α) (hnext : ∀ outcome, Receives P client A (next outcome)) :
      Receives P client A (.call .authorize next)
  | request (request : Request) (expected : List Nat) (maximumBytes left : Nat) (again : Action BoundedResponse)
      (next : Except Err BoundedResponse → Action α) (hallowed : A (.request expected maximumBytes left))
      (hagain : Receives P client A (again.handle next)) (hnext : ∀ outcome, Receives P client A (next outcome)) :
      Receives P client A (.call (.send request) fun answer =>
        (client.judge P expected maximumBytes left again answer).handle next)
  | openBlob (source : RegistryBlobSource) (next : Except Err Model.Stream → Action α) (hallowed : A (.openBlob source))
      (hnext : ∀ outcome, Receives P client A (next outcome)) :
      Receives P client A (.call (.send (.getBlob source.digest source.range)) fun answer =>
        next (client.blobStream P source answer))

variable {client}

theorem Receives.handle {program : Action α} {next : Except Err α → Action β} (h : Receives P client A program)
    (hnext : ∀ outcome, Receives P client A (next outcome)) : Receives P client A (program.handle next) := by
  induction h with
  | ret value => exact hnext _
  | raise error => exact hnext _
  | authorize inner _ ihnext => exact .authorize (fun outcome => (inner outcome).handle next) ihnext
  | request request expected maximumBytes left again inner hallowed _ _ ihagain ihnext =>
    rw [Prog.handle_handle] at ihagain
    have heq : (Prog.call (.send request) fun answer =>
        (client.judge P expected maximumBytes left again answer).handle inner : Action α).handle next =
        .call (.send request) fun answer =>
          (client.judge P expected maximumBytes left again answer).handle fun outcome => (inner outcome).handle next := by
      simp only [Prog.handle, Prog.handle_handle]
    rw [heq]
    exact .request request expected maximumBytes left again _ hallowed ihagain ihnext
  | openBlob source inner hallowed _ ihnext =>
    exact .openBlob source (fun outcome => (inner outcome).handle next) hallowed ihnext

theorem Receives.mono {program : Action α} (h : Receives P client A program)
    (himp : ∀ receiver, A receiver → B receiver) : Receives P client B program := by
  induction h with
  | ret value => exact .ret value
  | raise error => exact .raise error
  | authorize next _ ihnext => exact .authorize next ihnext
  | request request expected maximumBytes left again next hallowed _ _ ihagain ihnext =>
    exact .request request expected maximumBytes left again next (himp _ hallowed) ihagain ihnext
  | openBlob source next hallowed _ ihnext => exact .openBlob source next (himp _ hallowed) ihnext

theorem Receives.bind {program : Action α} {next : α → Action β} (h : Receives P client A program)
    (hnext : ∀ value, Receives P client A (next value)) : Receives P client A (program >>= next) := by
  refine h.handle ?_
  rintro (error | value)
  · exact .raise error
  · exact hnext value

theorem receives_lift (outcome : Except Err α) : Receives P client A (Action.lift outcome) := by
  cases outcome with
  | ok value => exact .ret value
  | error error => exact .raise error

/-- The answers of a request go to `_request`, with the bound the request was given. -/
theorem receives_request (request : Request) (expected : List Nat) (retry : Bool) (maximumBytes : Nat)
    (hallowed : ∀ left, A (.request expected maximumBytes left)) :
    Receives P client A (client.request P request expected retry maximumBytes) := by
  have hattempt : ∀ left, Receives P client A (client.attempt P request expected maximumBytes left) := by
    intro left
    induction left with
    | zero => exact .raise _
    | succ left ih =>
      have hreturn : ∀ program : Action BoundedResponse, program.handle Prog.ofExcept = program := by
        intro program
        induction program with
        | ret value => rfl
        | raise error => rfl
        | call op rest ihrest =>
          rw [Prog.handle]
          exact congrArg _ (funext ihrest)
      have hjudge : client.attempt P request expected maximumBytes (left + 1) = .call (.send request) fun answer =>
          (client.judge P expected maximumBytes left (client.attempt P request expected maximumBytes left)
            answer).handle Prog.ofExcept := by
        simp only [hreturn]
        rfl
      rw [hjudge]
      refine .request request expected maximumBytes left _ _ (hallowed left) ?_ receives_lift
      rw [hreturn]
      exact ih
  cases hbuild : request.target.build P with
  | error error =>
    rw [request_unbuilt hbuild]
    exact .raise error
  | ok built =>
    rw [request_attempt hbuild]
    exact hattempt _

/-- The bound that is configured for the requests of a method. -/
def ClientCall.maximumBytes (client : RegistryHttpClient) : ClientCall P → Nat
  | .getBlobBytes _ maximumBytes => maximumBytes
  | .getManifest _ | .getReferrers _ _ => client.binding.maxManifestBytes
  | .listTags limit _ => max defaultResponseBytes (limit * 192 + 1024)
  | _ => defaultResponseBytes

/-- A receiver of a method: a request with the configured bound, or the method is `open_blob`. -/
def ClientCall.Configured (client : RegistryHttpClient) (call : ClientCall P) : Receiver → Prop
  | .request _ maximumBytes _ => maximumBytes = call.maximumBytes client
  | .openBlob source => call = .openBlob source

/-- A request with the default bound, and what is made of its response. -/
theorem receives_default (hdefault : ∀ expected left, A (.request expected defaultResponseBytes left))
    (request : Request) (expected : List Nat) (retry : Bool) {next : BoundedResponse → Action α}
    (hnext : ∀ response, Receives P client A (next response)) :
    Receives P client A (client.request P request expected retry defaultResponseBytes >>= next) :=
  (receives_request request expected retry _ (hdefault expected)).bind hnext

section Default

variable (hdefault : ∀ expected left, A (.request expected defaultResponseBytes left))
include hdefault

theorem receives_headBlob (digest : String) : Receives P client A (client.headBlob P digest) := by
  refine receives_default hdefault _ _ _ fun response => ?_
  split
  · exact .ret none
  · refine (receives_lift _).bind fun size => ?_
    split
    · exact .raise _
    · exact (receives_lift _).bind fun descriptor => .ret _

theorem receives_startUpload : Receives P client A (client.startUpload P) := by
  refine receives_default hdefault _ _ _ fun response => (receives_lift _).bind fun url => ?_
  dsimp only
  repeat' split
  all_goals first | exact .ret _ | exact .raise _

theorem receives_patchUpload (upload : UploadLocation) (chunk : Bytes) :
    Receives P client A (client.patchUpload P upload chunk) := by
  unfold RegistryHttpClient.patchUpload
  split
  · exact .raise _
  · refine receives_default hdefault _ _ _ fun response => ?_
    split
    · exact .raise _
    · exact (receives_lift _).bind fun url => .ret _

theorem receives_finishUpload (upload : UploadLocation) (digest : String) :
    Receives P client A (client.finishUpload P upload digest) := by
  refine receives_default hdefault _ _ _ fun response => ?_
  split
  · exact .raise _
  · exact receives_lift _

theorem receives_abortUpload (upload : UploadLocation) : Receives P client A (client.abortUpload P upload) :=
  receives_default hdefault _ _ _ fun _ => .ret ()

theorem receives_uploadStatus (upload : UploadLocation) : Receives P client A (client.uploadStatus P upload) := by
  refine receives_default hdefault _ _ _ fun response => ?_
  dsimp only
  split
  · split
    · exact .raise _
    · exact (receives_lift _).bind fun url => .ret _
  · exact (receives_lift _).bind fun url => .ret _

theorem receives_uploadBlobBytes (value : Bytes) (mediaType : String) :
    Receives P client A (client.uploadBlobBytes P value mediaType) := by
  refine (receives_headBlob hdefault _).bind fun existing => ?_
  cases existing with
  | some existing =>
    dsimp only
    split
    · exact .raise _
    · exact receives_lift _
  | none =>
    refine (receives_startUpload hdefault).bind fun upload => Receives.bind (Receives.handle ?_ ?_) fun _ => receives_lift _
    · refine receives_default hdefault _ _ _ fun response => ?_
      split
      · exact .raise _
      · exact .ret ()
    · rintro (error | value)
      · exact ((receives_abortUpload hdefault upload).handle fun _ => .ret ()).bind fun _ => .raise error
      · exact .ret ()

theorem receives_putManifest (reference : String) (body : Bytes) :
    Receives P client A (client.putManifest P reference body) := by
  refine (receives_lift _).bind fun document => receives_default hdefault _ _ _ fun response => ?_
  split
  · exact .raise _
  · exact receives_lift _

end Default

/-- Every method receives all of its responses through `_request`, with the bound configured for
it, or is `open_blob`. -/
theorem ClientCall.receives (call : ClientCall P) (client : RegistryHttpClient) :
    Receives P client (call.Configured client) (call.program client) := by
  cases call with
  | ping => exact (receives_default (fun _ _ => rfl) _ _ _ fun _ => .ret _).bind fun _ => .ret _
  | headBlob digest => exact (receives_headBlob (fun _ _ => rfl) digest).bind fun _ => .ret _
  | startUpload => exact (receives_startUpload fun _ _ => rfl).bind fun _ => .ret _
  | patchUpload upload chunk => exact (receives_patchUpload (fun _ _ => rfl) upload chunk).bind fun _ => .ret _
  | finishUpload upload digest => exact (receives_finishUpload (fun _ _ => rfl) upload digest).bind fun _ => .ret _
  | abortUpload upload => exact (receives_abortUpload (fun _ _ => rfl) upload).bind fun _ => .ret _
  | uploadStatus upload => exact (receives_uploadStatus (fun _ _ => rfl) upload).bind fun _ => .ret _
  | uploadBlobBytes value mediaType =>
    exact (receives_uploadBlobBytes (fun _ _ => rfl) value mediaType).bind fun _ => .ret _
  | getBlobBytes descriptor maximumBytes =>
    refine Receives.bind ?_ fun _ => .ret _
    unfold RegistryHttpClient.getBlobBytes
    split
    · exact .raise _
    · refine (receives_request _ _ _ _ fun _ => rfl).bind fun response => ?_
      dsimp only
      repeat' split
      all_goals first | exact .raise _ | exact .ret _
  | openBlob source =>
    refine Receives.bind ?_ fun _ => .ret _
    refine Receives.bind (.authorize Prog.ofExcept fun outcome => receives_lift outcome) fun _ => ?_
    exact .openBlob source Action.lift rfl fun _ => receives_lift _
  | getManifest reference =>
    refine Receives.bind ((receives_request _ _ _ _ fun _ => rfl).bind fun response => ?_) fun _ => .ret _
    dsimp only
    repeat' split
    all_goals first | exact .raise _ | exact .ret _
  | manifestExists reference =>
    exact (receives_default (fun _ _ => rfl) _ _ _ fun _ => .ret _).bind fun _ => .ret _
  | putManifest reference body => exact (receives_putManifest (fun _ _ => rfl) reference body).bind fun _ => .ret _
  | deleteManifest digest =>
    exact (receives_default (fun _ _ => rfl) _ _ _ fun _ => .ret _).bind fun _ => .ret _
  | listTags limit last =>
    refine Receives.bind ((receives_request _ _ _ _ fun _ => rfl).bind fun response => ?_) fun _ => .ret _
    split
    · exact .ret _
    · refine (receives_lift _).bind fun value => ?_
      repeat' split
      all_goals first | exact .raise _ | exact .ret _
  | getReferrers subjectDigest artifactType =>
    refine Receives.bind ((receives_request _ _ _ _ fun _ => rfl).bind fun response => ?_) fun _ => .ret _
    split
    · exact .ret _
    · refine (receives_lift _).bind fun value => ?_
      split
      · exact .raise _
      · exact receives_lift _

/-- Whatever a method is delivered goes to `_request`, with the bound configured for it, or to
`open_blob`, and is contained unless it overruns that bound. -/
theorem body_contained (client : RegistryHttpClient) (constant : Nat) (call : ClientCall P) :
    Receives P client (fun receiver => call.Configured client receiver ∧ ∀ delivery : Delivery,
      (receiver.Contains P client constant delivery ↔ ¬ receiver.Overrun P client constant delivery))
      (call.program client) :=
  (call.receives client).mono fun receiver hconfigured => ⟨hconfigured, contains_iff constant receiver⟩

end Methods

/-! ## A refused response of any length -/

namespace Sample

open MeridianOci.Model.Sample

/-- The whole object in answer to a range request, in two chunks. -/
def whole (length : Nat) : Response :=
  ⟨200, [], "https://registry/", [List.replicate length 0, [0]], none⟩

/-- No constant bounds what `open_blob` takes before it refuses a response. -/
theorem openBlob_drains : ¬ ∃ constant, (Receiver.openBlob ⟨"sha256:00", some (0, 0)⟩).Contains platform
    (adapter 0).transport constant ⟨[], .ok (whole (constant + 1))⟩ := by
  rintro ⟨constant, hcontains⟩
  refine (contains_iff constant _ _).mp hcontains (.inr ⟨_, rfl, _, rfl, ?_, by simp [whole], ?_⟩)
  · exact (policy 0).responseUrl_safe .ping
  · simp [whole]

end Sample

end MeridianOci.Service
