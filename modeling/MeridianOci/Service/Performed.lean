import MeridianOci.Service.Declared

/-!
# Multipart calls that can be performed

Without faults a session can be begun, its parts can be sent one after the other while they
fit, and it can be completed, wherever what the repository and the session hold allows it.
-/
namespace MeridianOci.Service

open MeridianOci.Data MeridianOci.Effect MeridianOci.Model

set_option autoImplicit false

variable {P : Platform} {adapter : OciDistributionAdapter}
variable {setting : Setting P adapter.transport.binding}

/-- Every opening of the payload as a part of the session delivers this content. -/
def PartDelivers (setting : Setting P adapter.transport.binding) (session : MultipartSession)
    (payload : PayloadReference) (content : Bytes) : Prop :=
  ∀ bytes, PartContent setting session payload bytes → bytes = content

/-- Parts that were sent one after the other, and were all acknowledged. -/
inductive Sent (setting : Setting P adapter.transport.binding) (session : MultipartSession) :
    World setting.policy → List Bytes → World setting.policy → Prop where
  | done (w : World setting.policy) : Sent setting session w [] w
  | part (w w₁ w' : World setting.policy) (partNumber : Nat) (payload : PayloadReference) (part : MultipartPart)
      (content : Bytes) (rest : List Bytes) : PartDelivers setting session payload content →
      Performs setting.env (adapter.uploadPart P session partNumber payload) w (.ok part) w₁ →
      Sent setting session w₁ rest w' → Sent setting session w (content :: rest) w'

/-- A live state object that is replaced. -/
theorem Live.replaced {memory : Memory} {sessionId : String} {reference : Nat} {state : MultipartState}
    (h : Live memory sessionId reference state) (state' : MultipartState) :
    Live (memory.modify reference fun _ => state') sessionId reference state' := by
  refine ⟨?_, ?_⟩
  · rw [lookup_modify]
    exact h.entry
  · rw [get?_modify, if_pos rfl, h.object]
    rfl

section Performed

variable {w : World setting.policy}

theorem memory_performs (update : Memory → Memory) :
    Performs setting.env (Action.memory update) w (.ok w.memory) { w with memory := update w.memory } :=
  .call _ _ _ _ _ (.ok w.memory) _ ⟨rfl, rfl⟩ (.ret _ _)

theorem updateState_performs {reference : Nat} {state : MultipartState}
    (hobject : w.memory.heap[reference]? = some state) (update : MultipartState → MultipartState) :
    Performs setting.env (OciDistributionAdapter.updateState reference update) w (.ok state)
      { w with memory := w.memory.modify reference update } := by
  refine (memory_performs _).bind ?_
  rw [hobject]
  exact .ret _ _

theorem readState_performs {reference : Nat} {state : MultipartState}
    (hobject : w.memory.heap[reference]? = some state) :
    Performs setting.env (OciDistributionAdapter.readState reference) w (.ok state) w := by
  refine (memory_performs _).bind ?_
  rw [hobject]
  exact .ret _ _

theorem transitionState_performs {reference : Nat} {state : MultipartState} {target machine : PutState}
    (hobject : w.memory.heap[reference]? = some state) (htarget : P.transition state.machine target = .ok machine) :
    ∃ w', Performs setting.env (OciDistributionAdapter.transitionState P reference target) w (.ok ()) w' ∧
      w'.registry = w.registry ∧ w'.memory.heap[reference]? = some { state with machine } := by
  have hlast : ∀ w' : World setting.policy, Performs setting.env
      (do let _ ← Action.lift (P.transition state.machine target)) w' (.ok ()) w' := by
    intro w'
    rw [htarget]
    exact .ret _ _
  refine ⟨_, (updateState_performs hobject _).bind (hlast _), rfl, ?_⟩
  show (w.memory.modify reference _).heap[reference]? = _
  rw [get?_modify, if_pos rfl, hobject, Option.map_some, htarget]

theorem stateOf_performs {session : MultipartSession} {reference : Nat} {state : MultipartState}
    (hlive : Live w.memory session.sessionId reference state)
    (hbelongs : session.objectRef = adapter.objectReferenceOf state.input) :
    Performs setting.env (adapter.stateOf session) w (.ok reference) w := by
  refine (memory_performs _).bind ?_
  rw [hlive.entry]
  dsimp only
  rw [hlive.object]
  dsimp only
  rw [if_neg (not_not.mpr hbelongs)]
  exact .ret _ _

theorem locked_performs {α : Type} {action : Action α} {value : α} {w' : World setting.policy}
    (h : Performs setting.env action w (.ok value) w') :
    Performs setting.env (Action.locked action) w (.ok value) w' := by
  refine Performs.bind (.call _ _ _ w _ (.ok ()) _ ⟨rfl, rfl⟩ (.ret _ _)) ?_
  exact h.handle (.call _ _ _ w' _ (.ok ()) _ ⟨rfl, rfl⟩ (.ret _ _))

variable (laws : P.Lawful) (hfaults : ¬setting.faults) (hresponsive : Responsive setting)

include laws hfaults hresponsive

/-- A multipart upload can be begun where its put is open. -/
theorem beginMultipart_performs {operation : Operation} {value : PutInput} {immutability : ImmutabilityRequest}
    (haccepted : Accepted P adapter operation "put") (hinput : operation.input = .put value)
    (himmutability : immutabilityOf P value = .ok immutability)
    (havailable : Available w.registry value.objectId immutability (value.createOnly || immutability.publishOnce))
    {instant : Int} (hclock : setting.tick w.now (.aware instant)) (token : String)
    (hdate : instant + 3600 * 1000000 ≤ maxInstant)
    (hsession : P.newMultipartSession ⟨"u" ++ token, adapter.objectReferenceOf value, adapter.binding.chunkSize,
      P.timestamp (instant + 3600 * 1000000)⟩ = .ok ()) :
    ∃ session w', Performs setting.env (adapter.beginMultipart P operation) w (.ok session) w' := by
  obtain ⟨outcome, w₀, hcheck⟩ := hresponsive.performs (adapter.requireCreateAvailable P value.objectId immutability
    (value.createOnly || immutability.publishOnce)) w
  obtain ⟨rfl, hpasses⟩ := hcheck.ensures (requireCreateAvailable_ensures laws w _ _ _)
  cases outcome with
  | error error => exact (hpasses.elim hfaults fun hnot => hnot havailable).elim
  | ok _ => ?_
  obtain ⟨outcome, w₁, hstart⟩ := hresponsive.performs (adapter.transport.startUpload P) w₀
  have hdone := hstart.ensures (startUpload_ensures laws quiet_true w₀)
  cases outcome with
  | error error => exact absurd hdone.2 hfaults
  | ok upload => ?_
  have hnow : w₁.now = w₀.now := by
    rw [hdone.1, World.apply_startUpload]
  let session : MultipartSession := ⟨"u" ++ token, adapter.objectReferenceOf value, adapter.binding.chunkSize,
    P.timestamp (instant + 3600 * 1000000)⟩
  let read : World setting.policy := { w₁ with now := .aware instant }
  refine ⟨session, { read with memory := read.memory.insert session.sessionId (.start value upload .uploading) }, ?_⟩
  unfold OciDistributionAdapter.beginMultipart
  rw [haccepted.validated, Action.lift_ok, Prog.ret_bind, if_neg (by simp), haccepted.capable, Action.lift_ok,
    Prog.ret_bind, hinput]
  dsimp only
  rw [himmutability, Action.lift_ok, Prog.ret_bind]
  refine (locked_performs (hcheck.bind hstart)).bind ?_
  rw [laws.transition_uploading, Action.lift_ok, Prog.ret_bind]
  refine Performs.bind (.call _ _ _ w₁ _ (.ok token) _ ⟨.inl ⟨token, rfl⟩, rfl⟩ (.ret _ _)) ?_
  refine Performs.bind (Performs.bind (.call _ _ _ read _ (.ok (.aware instant)) _
    (.inl ⟨.aware instant, hnow ▸ hclock, rfl, rfl⟩) (.ret _ _)) (.ret _ _)) ?_
  rw [OciDistributionAdapter.newSession_eq hdate hsession, Action.lift_ok, Prog.ret_bind]
  exact (memory_performs _).bind (.ret _ _)

/-- A part that comes in one chunk is acknowledged if it is the next one and fits. -/
theorem uploadPart_performs {session : MultipartSession} {reference : Nat} {state : MultipartState}
    {payload : PayloadReference} {chunk received : Bytes} (hlive : Live w.memory session.sessionId reference state)
    (hbelongs : session.objectRef = adapter.objectReferenceOf state.input)
    (hcount : state.nextPart ≤ adapter.binding.maxMultipartParts)
    (hstream : setting.streams payload session.partSize (.ok ⟨[chunk], none⟩)) (hne : chunk ≠ [])
    (hshort : chunk.length ≤ session.partSize) (hfits : state.length + chunk.length ≤ adapter.binding.maxObjectBytes)
    (hverified : verifyIdentity payload (identityOf P chunk) = .ok ())
    (hreceived : w.registry.uploads[state.upload.url]? = some received)
    (hoffset : received.length = state.upload.offset) :
    ∃ part w', Performs setting.env (adapter.uploadPart P session state.nextPart payload) w (.ok part) w' := by
  let hashing : World setting.policy :=
    { w with memory := w.memory.modify reference fun state => { state with hashed := state.hashed ++ chunk } }
  obtain ⟨outcome, w₁, hpatch⟩ := hresponsive.performs (adapter.transport.patchUpload P state.upload chunk) hashing
  have hdone := hpatch.ensures (patchUpload_ensures laws quiet_true hashing state.upload chunk)
  cases outcome with
  | error error =>
    obtain ⟨-, hfalse | hempty | hbad⟩ := hdone
    · exact absurd hfalse hfaults
    · exact absurd hempty hne
    · exact absurd hoffset (hbad received hreceived)
  | ok upload => ?_
  obtain ⟨_, -, -, hw₁, -⟩ := hdone
  have hobject₁ : w₁.memory.heap[reference]? = some { state with hashed := state.hashed ++ chunk } := by
    rw [hw₁]
    show (w.memory.modify reference _).heap[reference]? = _
    rw [get?_modify, if_pos rfl, hlive.object]
    rfl
  let appended : World setting.policy :=
    { w₁ with memory := w₁.memory.modify reference fun state => { state with upload } }
  have hobject₂ : appended.memory.heap[reference]? = some { state with hashed := state.hashed ++ chunk, upload } := by
    show (w₁.memory.modify reference _).heap[reference]? = _
    rw [get?_modify, if_pos rfl, hobject₁]
    rfl
  have hchunk : Performs setting.env (adapter.sendChunk P reference chunk) w (.ok ()) appended :=
    (updateState_performs hlive.object _).bind (hpatch.bind ((updateState_performs hobject₁ _).bind (.ret _ _)))
  have hpart : Performs setting.env (adapter.sendPart P session reference [chunk] [] 0) w (.ok (chunk, chunk.length))
      appended := by
    unfold OciDistributionAdapter.sendPart
    rw [Nat.zero_add, if_neg (by omega)]
    refine (readState_performs hlive.object).bind ?_
    rw [if_neg (by omega)]
    exact hchunk.bind (.ret _ _)
  have htransfer : Performs setting.env (adapter.transferPart P session reference payload) w
      (.ok (identityOf P chunk)) appended := by
    refine Performs.bind (.call _ _ _ w _ (.ok ⟨[chunk], none⟩) _ ⟨hstream, rfl⟩ (.ret _ _)) ?_
    refine hpart.bind ?_
    have hpos : chunk.length ≠ 0 := fun h => hne (List.length_eq_zero_iff.mp h)
    dsimp only
    rw [if_neg hpos]
    have hverified' : verifyIdentity payload ⟨sha256Digest P chunk, chunk.length⟩ = .ok () := hverified
    rw [hverified']
    exact .ret _ _
  let part : MultipartPart := ⟨state.nextPart, identityOf P chunk, verificationToken P adapter.binding.cursorSigningKey
    session.sessionId state.nextPart (identityOf P chunk)⟩
  refine ⟨part, { appended with memory := appended.memory.modify reference (·.acknowledge part) },
    (stateOf_performs hlive hbelongs).bind ((readState_performs hlive.object).bind ?_)⟩
  rw [if_neg (not_not.mpr rfl), if_neg (by omega)]
  refine Performs.bind (htransfer.handle (.ret _ _)) ?_
  exact (updateState_performs hobject₂ _).bind (.ret _ _)

/-- A payload that comes in one chunk, which is not empty and fits into a part. -/
structure Chunked (setting : Setting P adapter.transport.binding) (session : MultipartSession)
    (payload : PayloadReference) (chunk : Bytes) : Prop where
  stream : setting.streams payload session.partSize (.ok ⟨[chunk], none⟩)
  delivers : PartDelivers setting session payload chunk
  nonempty : chunk ≠ []
  short : chunk.length ≤ session.partSize
  verified : verifyIdentity payload (identityOf P chunk) = .ok ()

/-- What a session has after parts that were all acknowledged. -/
structure Conveyed (session : MultipartSession) (reference : Nat) (state : MultipartState) (w : World setting.policy)
    (received : Bytes) (contents : List Bytes) (state' : MultipartState) (w' : World setting.policy) : Prop where
  sent : Sent setting session w contents w'
  live : Live w'.memory session.sessionId reference state'
  input : state'.input = state.input
  machine : state'.machine = state.machine
  hashed : state'.hashed = state.hashed ++ contents.flatten
  length : state'.length = state.length + contents.flatten.length
  identities : state'.parts.map (·.identity) = state.parts.map (·.identity) ++ contents.map (identityOf P)
  grows : w.registry.Grows w'.registry
  uploads : w'.registry.uploads[state'.upload.url]? = some (received ++ contents.flatten)

/-- Parts that come in one chunk each can be sent one after the other while they fit. -/
theorem exists_sent {session : MultipartSession} {reference : Nat} (parts : List (PayloadReference × Bytes))
    {state : MultipartState} {received : Bytes} (hlive : Live w.memory session.sessionId reference state)
    (hbelongs : session.objectRef = adapter.objectReferenceOf state.input)
    (hchunked : ∀ part ∈ parts, Chunked setting session part.1 part.2)
    (hcount : state.nextPart + parts.length ≤ adapter.binding.maxMultipartParts + 1)
    (hfits : state.length + (parts.map (·.2)).flatten.length ≤ adapter.binding.maxObjectBytes)
    (hreceived : w.registry.uploads[state.upload.url]? = some received)
    (hoffset : received.length = state.upload.offset) :
    ∃ state' w', Conveyed session reference state w received (parts.map (·.2)) state' w' := by
  induction parts generalizing w state received with
  | nil =>
    refine ⟨state, w, .done w, hlive, rfl, rfl, ?_, rfl, ?_, .refl _, ?_⟩
    · simp
    · simp
    · simp [hreceived]
  | cons first rest ih =>
    obtain ⟨payload, chunk⟩ := first
    obtain ⟨hstream, hdelivers, hne, hshort, hverified⟩ : Chunked setting session payload chunk :=
      hchunked _ List.mem_cons_self
    simp only [List.map_cons, List.flatten_cons, List.length_cons, List.length_append] at hcount hfits
    obtain ⟨part, w₁, hpart⟩ := uploadPart_performs laws hfaults hresponsive hlive hbelongs (by omega) hstream hne
      hshort (by omega) hverified hreceived hoffset
    obtain ⟨_, found, bytes, w₂, state₁, hother, -, -, hcontent, -, -, hidentity, -, -, happended, hw₁⟩ :=
      hpart.ensures (uploadPart_ensures laws w session _ _)
    obtain rfl := Option.some.inj (hlive.entry.symm.trans hother.entry)
    obtain rfl := Option.some.inj (hlive.object.symm.trans hother.object)
    obtain rfl := hdelivers bytes hcontent
    have hstate : state₁.acknowledge part = ⟨state.input, state₁.upload, state.machine, state.hashed ++ bytes,
        state.length + bytes.length, state.nextPart + 1, state.parts ++ [part]⟩ := by
      rw [MultipartState.acknowledge, happended.result, hidentity]
      rfl
    have hlive₁ : Live w₁.memory session.sessionId reference (state₁.acknowledge part) := by
      rw [hw₁]
      exact hlive.replaced _
    have hregistry₁ : w₁.registry = w₂.registry := by rw [hw₁]
    have hreceived₁ : w₁.registry.uploads[(state₁.acknowledge part).upload.url]? = some (received ++ bytes) := by
      rw [hregistry₁, happended.uploads received hreceived hoffset, hstate]
      show (w.registry.uploads.insert _ _)[state₁.upload.url]? = _
      rw [happended.url, Table.get?_insert, if_pos rfl]
    have hoffset₁ : (received ++ bytes).length = (state₁.acknowledge part).upload.offset := by
      rw [List.length_append, hoffset, hstate]
      exact happended.offset.symm
    obtain ⟨state', w', hrest⟩ := ih hlive₁ (by rw [hstate]; exact hbelongs)
      (fun other hmem => hchunked other (List.mem_cons_of_mem _ hmem)) (by rw [hstate]; dsimp only; omega)
      (by rw [hstate]; dsimp only; omega) hreceived₁ hoffset₁
    rw [hstate] at hrest
    refine ⟨state', w', .part _ _ _ _ _ part _ _ hdelivers hpart hrest.sent, hrest.live, hrest.input, hrest.machine, ?_, ?_,
      ?_, ?_, ?_⟩
    · rw [hrest.hashed, List.map_cons, List.flatten_cons, List.append_assoc]
    · rw [hrest.length, List.map_cons, List.flatten_cons, List.length_append, Nat.add_assoc]
    · rw [hrest.identities]
      simp [hidentity]
    · exact (hregistry₁ ▸ happended.grows).trans hrest.grows
    · rw [hrest.uploads, List.map_cons, List.flatten_cons, List.append_assoc]

/-- A completion returns if its session is settled and what it commits can be committed. -/
theorem completeMultipart_performs {session : MultipartSession} {reference : Nat} {state : MultipartState}
    {immutability : ImmutabilityRequest} {retention : Option RetentionRequest}
    (hlive : Live w.memory session.sessionId reference state)
    (hbelongs : session.objectRef = adapter.objectReferenceOf state.input) (hsettled : Settled state)
    (hminimum : state.parts.dropLast.any (fun part => part.identity.byteLength < minPartBytes) = false)
    (hcompletion : P.multipartCompletion state.parts (identityOf P state.hashed) = .ok ())
    (hdeclared : Honours P state.input.expectedDigest state.input.expectedLength state.hashed)
    (himmutability : immutabilityOf P state.input = .ok immutability)
    (hretention : retentionOf P state.input = .ok retention)
    (havailable : Available w.registry state.input.objectId immutability
      (state.input.createOnly || immutability.publishOnce))
    (hreceived : w.registry.uploads[state.upload.url]? = some state.hashed)
    (hcommit : ∀ w₁ : World setting.policy,
      w₁.registry = (w.registry.addBlob state.hashed).dropUpload state.upload.url →
      ∃ metadata w₂, w₂.memory = w₁.memory ∧ Performs setting.env (adapter.commitObject P state.input
        (identityOf P state.hashed) immutability retention (state.input.createOnly || immutability.publishOnce)) w₁
        (.ok metadata) w₂) :
    ∃ metadata w', Performs setting.env (adapter.completeMultipart P session state.parts) w (.ok metadata) w' := by
  obtain ⟨hdigest, hlength⟩ := honours_iff.mp hdeclared
  obtain ⟨outcome, w₀, hcheck⟩ := hresponsive.performs (adapter.requireCreateAvailable P state.input.objectId
    immutability (state.input.createOnly || immutability.publishOnce)) w
  obtain ⟨rfl, hpasses⟩ := hcheck.ensures (requireCreateAvailable_ensures laws w _ _ _)
  cases outcome with
  | error error => exact (hpasses.elim hfaults fun hnot => hnot havailable).elim
  | ok _ => ?_
  obtain ⟨outcome, w₁, hfinish⟩ := hresponsive.performs
    (adapter.transport.finishUpload P state.upload (sha256Digest P state.hashed)) w₀
  have hdone := hfinish.ensures (finishUpload_ensures laws quiet_true w₀ state.upload _)
  cases outcome with
  | error error =>
    obtain ⟨-, hfalse | hbad⟩ := hdone
    · exact absurd hfalse hfaults
    · exact absurd rfl (hbad state.hashed hreceived)
  | ok descriptor => ?_
  obtain ⟨received, hother, -, hw₁⟩ := hdone
  obtain rfl := Option.some.inj (hreceived.symm.trans hother)
  have hobject₁ : w₁.memory.heap[reference]? = some state := by
    rw [hw₁]
    exact hlive.object
  have hverify : P.transition state.machine .verifying = .ok .verifying := by
    rw [hsettled.machine]
    exact laws.transition_verifying
  obtain ⟨w₂, hverifying, hregistry₂, hobject₂⟩ :=
    @transitionState_performs _ adapter setting _ _ _ _ _ hobject₁ hverify
  obtain ⟨metadata, w₃, hmemory₃, hcommitted⟩ := hcommit w₂ (by rw [hregistry₂, hw₁])
  obtain ⟨w₄, hfinal, -, -⟩ := @transitionState_performs _ adapter setting _ _ _ _ _ (hmemory₃ ▸ hobject₂)
    laws.transition_committed
  have hinner : Performs setting.env (adapter.commitMultipart P reference state.input (identityOf P state.hashed)
      immutability retention) w₀ (.ok metadata) w₄ := by
    refine hcheck.bind ((readState_performs hlive.object).bind ?_)
    exact hfinish.bind (hverifying.bind (hcommitted.bind (hfinal.bind (.ret _ _))))
  refine ⟨metadata, { w₄ with memory := w₄.memory.pop session.sessionId },
    (stateOf_performs hlive hbelongs).bind ((readState_performs hlive.object).bind ?_)⟩
  have hcompletion' : P.multipartCompletion state.parts ⟨sha256Digest P state.hashed, state.hashed.length⟩ = .ok () :=
    hcompletion
  rw [if_neg (not_not.mpr rfl), hminimum, if_neg Bool.false_ne_true, hsettled.length]
  dsimp only
  rw [hcompletion', Action.lift_ok, Prog.ret_bind, if_neg (not_not.mpr hdigest), if_neg (not_not.mpr hlength),
    himmutability, Action.lift_ok, Prog.ret_bind, hretention, Action.lift_ok, Prog.ret_bind]
  refine Performs.handle ((locked_performs hinner).handle (.ret _ _)) ?_
  exact Performs.handle ((memory_performs _).bind (.ret _ _)) (.ret _ _)

end Performed

end MeridianOci.Service
