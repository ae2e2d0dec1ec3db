import MeridianOci.Effect.Trace
import MeridianOci.Service.Declared

/-!
# Passes over a source

What an upload opens and in which order. One attempt opens its payload at most once, and
an identity that it returns is that of everything the payload then delivered. A second
attempt starts from nothing, after the first one has raised a transient error.
-/
namespace MeridianOci.Service

open MeridianOci.Data MeridianOci.Effect MeridianOci.Model

set_option autoImplicit false

variable {P : Platform} {adapter : OciDistributionAdapter} {payload : PayloadReference}

/-- Opening a payload. -/
def opening : Op → Bool
  | .openPayload _ _ => true
  | _ => false

theorem opening_of_sends {op : Op} (h : Op.Sends op) : opening op = false := by
  obtain ⟨request, rfl⟩ := h
  rfl

/-- How often payloads were opened. -/
def opens (trace : List (Exchange Op Op.Res Err)) : Nat := trace.countP fun exchange => opening exchange.1

/-- An identity of one complete pass over the payload: of all that was delivered by one of the
openings, which did not break off. -/
def Passed (P : Platform) (adapter : OciDistributionAdapter) (payload : PayloadReference)
    (trace : List (Exchange Op Op.Res Err)) (identity : ContentIdentity) (content : Bytes) : Prop :=
  ∃ stream : Stream, ⟨.openPayload payload adapter.binding.chunkSize, .ok stream⟩ ∈ trace ∧ stream.failure = none ∧
    stream.chunks.flatten = content ∧ identity = ⟨sha256Digest P content, content.length⟩

/-! ## One attempt -/

section Attempt

variable {σ : Type} {env : Environment Op Op.Res Err σ} {s s' : σ} {trace : List (Exchange Op Op.Res Err)}

theorem opens_of_sends {α : Type} {program : Action α} {outcome : Except Err α} (h : Traces env program s trace outcome s')
    (hsends : program.Uses Op.Sends) : opens trace = 0 := by
  refine List.countP_eq_zero.mpr fun exchange hmem => ?_
  rw [opening_of_sends (h.uses hsends exchange hmem)]
  exact Bool.false_ne_true

theorem sends_abandon {α : Type} (upload : Option UploadLocation) (error : Err) :
    (adapter.abandon P upload error : Action α).Uses Op.Sends := by
  cases upload with
  | none => trivial
  | some location => exact (sends_abortSafely P adapter.transport location).bind fun _ => trivial

theorem sends_orAbandon {α : Type} (upload : Option UploadLocation) {action : Action α} (h : action.Uses Op.Sends) :
    (adapter.orAbandon P upload action).Uses Op.Sends := h.tryCatch fun error => sends_abandon upload error

theorem sends_sendChunks (chunks : List Bytes) (upload : Option UploadLocation) (hashed : Bytes) (length : Nat) :
    (adapter.sendChunks P payload chunks upload hashed length).Uses Op.Sends := by
  induction chunks generalizing upload hashed length with
  | nil => trivial
  | cons chunk rest ih =>
    unfold OciDistributionAdapter.sendChunks
    dsimp only
    split
    · exact sends_abandon upload _
    split
    · exact sends_abandon upload _
    cases upload with
    | none => exact ih _ _ _
    | some location =>
      exact (sends_orAbandon _ (sends_patchUpload P adapter.transport location chunk)).bind fun next => ih _ _ _

/-- What the chunk loop returns: all of the chunks, within the bound. -/
theorem sendChunks_returns (chunks : List Bytes) (upload : Option UploadLocation) (hashed : Bytes)
    (hbound : hashed.length ≤ adapter.binding.maxObjectBytes) :
    (adapter.sendChunks P payload chunks upload hashed hashed.length).Returns fun sent =>
      sent.2.1 = hashed ++ chunks.flatten ∧ sent.2.2 = sent.2.1.length ∧
        sent.2.2 ≤ adapter.binding.maxObjectBytes := by
  induction chunks generalizing upload hashed with
  | nil => exact ⟨(List.append_nil hashed).symm, rfl, hbound⟩
  | cons chunk rest ih =>
    have hlength : hashed.length + chunk.length = (hashed ++ chunk).length := List.length_append.symm
    have hflatten : hashed ++ (chunk :: rest).flatten = hashed ++ chunk ++ rest.flatten := by
      rw [List.flatten_cons, List.append_assoc]
    unfold OciDistributionAdapter.sendChunks
    simp only [hlength, hflatten]
    split
    · exact abandon_returns upload _
    rename_i hshort
    split
    · exact abandon_returns upload _
    cases upload with
    | none => exact ih _ _ (Nat.not_lt.mp hshort)
    | some location => exact Prog.returns_bind fun next => ih _ _ (Nat.not_lt.mp hshort)

/-- A payload is opened once, whether it can be opened or not. -/
theorem orAbandon_openPayload {upload : Option UploadLocation} {chunkSize : Nat} {outcome : Except Err Stream}
    (h : Traces env (adapter.orAbandon P upload (Action.openPayload payload chunkSize)) s trace outcome s') :
    opens trace = 1 ∧ ∀ stream, outcome = .ok stream → ⟨.openPayload payload chunkSize, .ok stream⟩ ∈ trace := by
  obtain ⟨front, first, s₁, rest, rfl, hfront, hrest⟩ := h.of_handle
  cases hfront with
  | call _ _ _ s₂ _ answer front _ hanswer hlast =>
    obtain ⟨rfl, rfl, rfl⟩ := hlast.of_except
    cases first with
    | error error =>
      have hquiet := opens_of_sends hrest (sends_abandon upload error)
      refine ⟨by rw [opens, List.cons_append, List.countP_cons_of_pos rfl]; exact congrArg (· + 1) hquiet, ?_⟩
      rintro stream rfl
      have hraises : (adapter.abandon P upload error : Action Stream).Returns fun _ => False :=
        abandon_returns upload error
      exact (hrest.returns hraises).elim
    | ok stream =>
      cases hrest
      refine ⟨rfl, ?_⟩
      rintro _ ⟨⟩
      exact List.mem_cons_self

/-- An attempt opens its payload once at most, and returns the identity of all that it delivered. -/
theorem transferTo_passed {existing : Option (OciDescriptor P)} {upload : Option UploadLocation}
    {outcome : Except Err ContentIdentity} (h : Traces env (adapter.transferTo P payload existing upload) s trace outcome s') :
    opens trace = 1 ∧ ∀ identity, outcome = .ok identity → ∃ content, Passed P adapter payload trace identity content ∧
      content.length ≤ adapter.binding.maxObjectBytes := by
  unfold OciDistributionAdapter.transferTo at h
  rcases h.of_bind with ⟨error, hopen, rfl⟩ | ⟨stream, front, s₁, rest, rfl, hopen, hrest⟩
  · exact ⟨(orAbandon_openPayload hopen).1, fun identity h => by cases h⟩
  obtain ⟨honce, hopened⟩ := orAbandon_openPayload hopen
  have hquiet : opens rest = 0 := by
    refine opens_of_sends hrest ((sends_sendChunks _ _ _ _).bind ?_)
    rintro ⟨upload', hashed, length⟩
    cases stream.failure with
    | some failure => exact sends_abandon upload' failure
    | none =>
      refine (sends_orAbandon upload' (uses_lift _)).bind fun _ => ?_
      cases existing with
      | some descriptor =>
        dsimp only
        split
        · exact sends_abandon upload' _
        · trivial
      | none =>
        cases upload' with
        | none => trivial
        | some location =>
          exact (sends_orAbandon _ (sends_finishUpload P adapter.transport location _)).bind fun _ => trivial
  refine ⟨by rw [opens, List.countP_append]; exact congrArg₂ (· + ·) honce hquiet, ?_⟩
  rintro identity rfl
  refine ⟨stream.chunks.flatten, ?_⟩
  have hidentity : stream.failure = none ∧
      identity = ⟨sha256Digest P stream.chunks.flatten, stream.chunks.flatten.length⟩ ∧
      stream.chunks.flatten.length ≤ adapter.binding.maxObjectBytes := by
    suffices hreturns : Prog.Returns (fun identity : ContentIdentity => stream.failure = none ∧
        identity = ⟨sha256Digest P stream.chunks.flatten, stream.chunks.flatten.length⟩ ∧
        stream.chunks.flatten.length ≤ adapter.binding.maxObjectBytes) _ from hrest.returns hreturns
    refine (sendChunks_returns stream.chunks upload [] (Nat.zero_le _)).bind ?_
    rintro ⟨upload', hashed, length⟩ ⟨hhashed, hlength, hbound⟩
    obtain rfl : hashed = stream.chunks.flatten := hhashed
    obtain rfl : length = stream.chunks.flatten.length := hlength
    cases hfailure : stream.failure with
    | some failure => exact abandon_returns upload' failure
    | none =>
      refine Prog.returns_bind fun _ => ?_
      cases existing with
      | some descriptor =>
        dsimp only
        split
        · exact abandon_returns upload' _
        · exact ⟨rfl, rfl, hbound⟩
      | none =>
        cases upload' with
        | none => trivial
        | some location => exact Prog.returns_bind fun _ => ⟨rfl, rfl, hbound⟩
  obtain ⟨hfailure, hidentity, hbound⟩ := hidentity
  exact ⟨⟨stream, List.mem_append_left _ (hopened stream rfl), hfailure, rfl, hidentity⟩, hbound⟩

/-- One turn of the loop opens its payload once at most. -/
theorem transfer_passed {existing : Option (OciDescriptor P)} {outcome : Except Err ContentIdentity}
    (h : Traces env (adapter.transfer P payload existing) s trace outcome s') :
    opens trace ≤ 1 ∧ ∀ identity, outcome = .ok identity → ∃ content, Passed P adapter payload trace identity content ∧
      content.length ≤ adapter.binding.maxObjectBytes := by
  cases existing with
  | some descriptor =>
    have h : Traces env (adapter.transferTo P payload (some descriptor) none) s trace outcome s' := h
    obtain ⟨honce, hpassed⟩ := transferTo_passed h
    exact ⟨honce.le, hpassed⟩
  | none =>
    rcases h.of_bind with ⟨error, hstart, rfl⟩ | ⟨upload, front, s₁, rest, rfl, hstart, hrest⟩
    · exact ⟨(opens_of_sends hstart (sends_startUpload P adapter.transport)).trans_le (Nat.zero_le 1),
        fun identity h => by cases h⟩
    · obtain ⟨honce, hpassed⟩ := transferTo_passed hrest
      have hquiet := opens_of_sends hstart (sends_startUpload P adapter.transport)
      refine ⟨?_, fun identity hidentity => ?_⟩
      · rw [opens, List.countP_append]
        exact (congrArg₂ (· + ·) hquiet honce).le
      · obtain ⟨content, ⟨stream, hmem, hstream⟩, hbound⟩ := hpassed identity hidentity
        exact ⟨content, ⟨stream, List.mem_append_right _ hmem, hstream⟩, hbound⟩

/-- An error after which `_upload_payload` may try again. -/
def Err.Retryable (error : Err) : Prop := error.kind = .objectUnavailable ∨ error.kind = .objectRateLimited

theorem sends_lookBefore : (lookBefore P adapter payload).Uses Op.Sends := by
  unfold lookBefore
  split
  · trivial
  · exact (reads_headBlob P adapter.transport _).mono fun _ h => h.sends

/-- The loop is one attempt by itself, or an attempt with a transient error and the rest of the loop. -/
theorem uploadAttempt_traces {left : Nat} {outcome : Except Err ContentIdentity}
    (h : Traces env (adapter.uploadAttempt P payload (left + 1)) s trace outcome s') :
    Traces env (adapter.uploadAttempt P payload 1) s trace outcome s' ∨
      0 < left ∧ ∃ front error s₁ rest, trace = front ++ rest ∧ Err.Retryable error ∧
        Traces env (adapter.uploadAttempt P payload 1) s front (.error error) s₁ ∧
        Traces env (adapter.uploadAttempt P payload left) s₁ rest outcome s' := by
  rw [uploadAttempt_succ] at h ⊢
  rcases h.of_bind with ⟨error, hlook, rfl⟩ | ⟨existing, front, s₁, rest, rfl, hlook, hrest⟩
  · exact .inl hlook.bind_error
  obtain ⟨sent, first, s₂, last, rfl, htransfer, hlast⟩ := hrest.of_handle
  cases first with
  | ok identity =>
    cases hlast
    exact .inl (hlook.bind_ok (htransfer.handle (.ret identity _)))
  | error error =>
    have halone : Traces env (lookBefore P adapter payload >>= fun existing =>
        (adapter.transfer P payload existing).handle (afterTransfer P adapter payload 0))
        s (front ++ sent) (.error error) s₂ := by
      refine hlook.bind_ok ?_
      rw [← List.append_nil sent]
      refine htransfer.handle ?_
      dsimp only [afterTransfer]
      rw [if_neg fun h => absurd h.2 (lt_irrefl 0)]
      exact .raise error s₂
    dsimp only [afterTransfer] at hlast
    split at hlast
    · rename_i hretry
      exact .inr ⟨hretry.2, front ++ sent, error, s₂, last, (List.append_assoc ..).symm, hretry.1, halone, hlast⟩
    · cases hlast
      rw [List.append_nil]
      exact .inl halone

/-- An attempt by itself opens its payload once at most. -/
theorem uploadAttempt_one_passed {outcome : Except Err ContentIdentity}
    (h : Traces env (adapter.uploadAttempt P payload 1) s trace outcome s') :
    opens trace ≤ 1 ∧ ∀ identity, outcome = .ok identity → ∃ content, Passed P adapter payload trace identity content ∧
      content.length ≤ adapter.binding.maxObjectBytes := by
  rw [uploadAttempt_succ] at h
  rcases h.of_bind with ⟨error, hlook, rfl⟩ | ⟨existing, front, s₁, rest, rfl, hlook, hrest⟩
  · exact ⟨(opens_of_sends hlook sends_lookBefore).trans_le (Nat.zero_le 1), fun identity h => by cases h⟩
  have hquiet := opens_of_sends hlook sends_lookBefore
  obtain ⟨sent, first, s₂, last, rfl, htransfer, hlast⟩ := hrest.of_handle
  obtain ⟨honce, hpassed⟩ := transfer_passed htransfer
  have hsame : last = [] ∧ outcome = first := by
    cases first with
    | ok identity =>
      cases hlast
      exact ⟨rfl, rfl⟩
    | error error =>
      dsimp only [afterTransfer] at hlast
      rw [if_neg fun h => absurd h.2 (lt_irrefl 0)] at hlast
      cases hlast
      exact ⟨rfl, rfl⟩
  obtain ⟨rfl, rfl⟩ := hsame
  rw [List.append_nil]
  refine ⟨?_, fun identity hidentity => ?_⟩
  · have htotal : opens (front ++ sent) = opens front + opens sent := List.countP_append
    omega
  · obtain ⟨content, ⟨stream, hmem, hstream⟩, hbound⟩ := hpassed identity hidentity
    exact ⟨content, ⟨stream, List.mem_append_right _ hmem, hstream⟩, hbound⟩

end Attempt

/-! ## The whole upload -/

section Upload

variable {setting : Setting P adapter.transport.binding} {w w' : World setting.policy}
variable {trace : List (Exchange Op Op.Res Err)} {outcome : Except Err ContentIdentity}

/-- The attempts of an upload: one, or for a payload that can be replayed two, of which the first
has raised a transient error. -/
inductive Attempts (setting : Setting P adapter.transport.binding) (payload : PayloadReference) (w : World setting.policy) :
    List (Exchange Op Op.Res Err) → Except Err ContentIdentity → World setting.policy → Prop where
  | once (trace : List (Exchange Op Op.Res Err)) (outcome : Except Err ContentIdentity) (w' : World setting.policy) : Traces setting.env (adapter.uploadAttempt P payload 1) w trace outcome w' →
      Attempts setting payload w trace outcome w'
  | again (front rest : List (Exchange Op Op.Res Err)) (error : Err) (outcome : Except Err ContentIdentity) (w₁ w' : World setting.policy) : payload.replayable = true → Err.Retryable error →
      Traces setting.env (adapter.uploadAttempt P payload 1) w front (.error error) w₁ →
      Traces setting.env (adapter.uploadAttempt P payload 1) w₁ rest outcome w' →
      Attempts setting payload w (front ++ rest) outcome w'

/-- What an upload of a payload is: its attempts; how often they open it; and, if it returns an
identity, what that identity is of and where its bytes are. -/
structure Uploaded (setting : Setting P adapter.transport.binding) (payload : PayloadReference) (w : World setting.policy)
    (trace : List (Exchange Op Op.Res Err)) (outcome : Except Err ContentIdentity) (w' : World setting.policy) : Prop where
  attempts : Attempts setting payload w trace outcome w'
  opens : opens trace ≤ if payload.replayable then 2 else 1
  identity : ∀ identity, outcome = .ok identity → ∃ content, Passed P adapter payload trace identity content ∧
    content.length ≤ adapter.binding.maxObjectBytes ∧
    Honours P payload.expectedDigest payload.expectedLength content ∧ w'.registry.blobs[identity.digest]? = some content

theorem attempts_of_traces (h : Traces setting.env (adapter.uploadPayload P payload) w trace outcome w') :
    Attempts setting payload w trace outcome w' := by
  unfold OciDistributionAdapter.uploadPayload at h
  by_cases hreplay : payload.replayable = true
  · rw [if_pos hreplay] at h
    rcases uploadAttempt_traces h with honce | ⟨-, front, error, w₁, rest, rfl, herror, hfront, hrest⟩
    · exact .once _ _ _ honce
    · exact .again _ _ _ _ _ _ hreplay herror hfront hrest
  · rw [if_neg hreplay] at h
    exact .once _ _ _ h

theorem Attempts.passed (h : Attempts setting payload w trace outcome w') :
    opens trace ≤ (if payload.replayable then 2 else 1) ∧ ∀ identity, outcome = .ok identity →
      ∃ content, Passed P adapter payload trace identity content ∧ content.length ≤ adapter.binding.maxObjectBytes := by
  cases h with
  | once _ _ _ h =>
    obtain ⟨honce, hpassed⟩ := uploadAttempt_one_passed h
    exact ⟨honce.trans (by split <;> omega), hpassed⟩
  | again front rest error _ w₁ _ hreplay _ hfront hrest =>
    obtain ⟨honce, -⟩ := uploadAttempt_one_passed hfront
    obtain ⟨hagain, hpassed⟩ := uploadAttempt_one_passed hrest
    refine ⟨?_, fun identity hidentity => ?_⟩
    · have htotal : opens (front ++ rest) = opens front + opens rest := List.countP_append
      rw [if_pos hreplay]
      omega
    · obtain ⟨content, ⟨stream, hmem, hstream⟩, hbound⟩ := hpassed identity hidentity
      exact ⟨content, ⟨stream, List.mem_append_right _ hmem, hstream⟩, hbound⟩

/-- An upload of any payload, whatever fails on the way and whether or not it was carried out. -/
theorem upload_identity (laws : P.Lawful) (h : Traces setting.env (adapter.uploadPayload P payload) w trace outcome w') :
    Uploaded setting payload w trace outcome w' := by
  have hattempts := attempts_of_traces h
  obtain ⟨hopens, hpassed⟩ := hattempts.passed
  refine ⟨hattempts, hopens, ?_⟩
  rintro identity rfl
  obtain ⟨content, hpass, hbound⟩ := hpassed identity rfl
  have hidentity : identity = ⟨sha256Digest P content, content.length⟩ := by
    obtain ⟨stream, -, -, -, hidentity⟩ := hpass
    exact hidentity
  have hverified : verifyIdentity payload identity = .ok () := h.returns uploadPayload_returns
  obtain ⟨stored, -, hstored, hblob, -⟩ := h.ensures (uploadPayload_ensures laws quiet_true w payload)
  obtain rfl : stored = content := sha256Digest_injective laws (congrArg ContentIdentity.digest (hstored.symm.trans hidentity))
  rw [hidentity] at hverified ⊢
  exact ⟨stored, hidentity ▸ hpass, hbound, verifyIdentity_iff.mp hverified, hblob⟩

end Upload

namespace Sample

open MeridianOci.Model.Sample

/-- A payload of one letter is uploaded to an empty registry. -/
theorem upload_identity_letter : ∃ trace identity w', Uploaded (Sample.setting 0 False)
    ⟨"a", true, none, some 1⟩ (World.empty (Sample.setting 0 False).policy (.aware 0)) trace (.ok identity) w' := by
  obtain ⟨outcome, w', hperforms⟩ := (responsive 0 False).performs
    ((Sample.adapter 0).uploadPayload platform ⟨"a", true, none, some 1⟩) (World.empty _ (.aware 0))
  obtain ⟨trace, htrace⟩ := hperforms.traces
  cases outcome with
  | ok identity => exact ⟨trace, identity, w', upload_identity lawful htrace⟩
  | error error =>
    obtain ⟨-, hwhy⟩ := hperforms.ensures (uploadPayload_ensures lawful quiet_true _ _)
    refine absurd ?_ ((hwhy.resolve_left id) [97])
    refine ⟨fun answer h => ⟨⟨[[97]], none⟩, ?_, rfl, ?_, rfl⟩, ?_, ?_, ?_⟩
    · exact h
    · simp
    · show 1 ≤ 1048576
      omega
    · rfl
    · rfl

end Sample

end MeridianOci.Service
