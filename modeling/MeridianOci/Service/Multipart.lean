import MeridianOci.Service.Sessions

/-!
# The multipart calls

Begin, part upload, abort and completion over an intact repository, one call at a time. A
part that is acknowledged was appended to the upload and to what the session has hashed;
a completion that returns has stored and committed exactly what was hashed.
-/
namespace MeridianOci.Service

open MeridianOci.Data MeridianOci.Effect MeridianOci.Model

set_option autoImplicit false

variable {P : Platform} {adapter : OciDistributionAdapter}
variable {setting : Setting P adapter.transport.binding}

/-- A call that only touched uploads and one session, which it closed. -/
structure Abandoned (sessionId : String) (w w' : World setting.policy) : Prop where
  registry : w.registry.Grows w'.registry
  memory : Closed sessionId w.memory w'.memory
  now : w'.now = w.now
  payloads : w'.payloads = w.payloads

/-- Bytes were appended to the upload and to the hash of a session object. -/
structure Appended (reference : Nat) (state : MultipartState) (bytes : Bytes)
    (w w' : World setting.policy) (state' : MultipartState) : Prop where
  result : state' = { state with hashed := state.hashed ++ bytes, upload := state'.upload }
  memory : w'.memory = w.memory.modify reference fun _ => state'
  url : state'.upload.url = state.upload.url
  offset : state'.upload.offset = state.upload.offset + bytes.length
  blobs : w'.registry.blobs = w.registry.blobs
  manifests : w'.registry.manifests = w.registry.manifests
  tags : w'.registry.tags = w.registry.tags
  uploads : ∀ received, w.registry.uploads[state.upload.url]? = some received →
    received.length = state.upload.offset →
    w'.registry.uploads = w.registry.uploads.insert state.upload.url (received ++ bytes)
  now : w'.now = w.now
  payloads : w'.payloads = w.payloads

/-- A session object was changed in a call that failed. -/
structure Spoiled (reference : Nat) (w w' : World setting.policy) : Prop where
  registry : w.registry.Grows w'.registry
  memory : ∃ update, w'.memory = w.memory.modify reference update
  now : w'.now = w.now
  payloads : w'.payloads = w.payloads

/-- A payload delivers these bytes as a part of the session. -/
def PartContent (setting : Setting P adapter.transport.binding) (session : MultipartSession)
    (payload : PayloadReference) (bytes : Bytes) : Prop :=
  ∃ stream, setting.streams payload session.partSize (.ok stream) ∧ stream.failure = none ∧
    stream.chunks.flatten = bytes

/-- The session is live and the part is its next one. -/
def Takes (adapter : OciDistributionAdapter) (memory : Memory) (session : MultipartSession) (partNumber : Nat) : Prop :=
  ∃ reference state, Live memory session.sessionId reference state ∧
    session.objectRef = adapter.objectReferenceOf state.input ∧ partNumber = state.nextPart ∧
    partNumber ≤ adapter.binding.maxMultipartParts

namespace Appended

variable {reference : Nat} {state state' state'' : MultipartState} {bytes more : Bytes}
variable {w w' w'' : World setting.policy}

theorem nil (hobject : w.memory.heap[reference]? = some state) :
    Appended reference state [] w w state := by
  refine ⟨by simp, ?_, rfl, by simp, rfl, rfl, rfl, ?_, rfl, rfl⟩
  · have hheap : w.memory.heap.modify reference (fun _ => state) = w.memory.heap := by
      refine List.ext_getElem? fun other => ?_
      rw [List.getElem?_modify]
      by_cases hsame : reference = other
      · rw [← hsame, hobject]
        simp
      · simp [hsame]
    simp only [Memory.modify, hheap]
  · intro received hreceived _
    rw [List.append_nil, Table.insert_self hreceived]

theorem object (h : Appended reference state bytes w w' state')
    (hobject : w.memory.heap[reference]? = some state) : w'.memory.heap[reference]? = some state' := by
  rw [h.memory, get?_modify, if_pos rfl, hobject]
  rfl

theorem grows (h : Appended reference state bytes w w' state') : w.registry.Grows w'.registry :=
  ⟨h.manifests, h.tags, fun digest body hbody => by rw [h.blobs]; exact hbody⟩

theorem trans (h : Appended reference state bytes w w' state')
    (h' : Appended reference state' more w' w'' state'') :
    Appended reference state (bytes ++ more) w w'' state'' := by
  have hhashed : state'.hashed = state.hashed ++ bytes := by rw [h.result]
  refine ⟨?_, ?_, h'.url.trans h.url, ?_, h'.blobs.trans h.blobs, h'.manifests.trans h.manifests,
    h'.tags.trans h.tags, ?_, h'.now.trans h.now, h'.payloads.trans h.payloads⟩
  · rw [h'.result, h.result]
    simp
  · rw [h'.memory, h.memory, modify_modify]
    rfl
  · rw [h'.offset, h.offset, List.length_append]
    omega
  · intro received hreceived hlength
    have hfirst := h.uploads received hreceived hlength
    have hnext : w'.registry.uploads[state'.upload.url]? = some (received ++ bytes) := by
      rw [h.url, hfirst, Table.get?_insert, if_pos rfl]
    rw [h'.uploads _ hnext (by rw [List.length_append, h.offset, hlength]), h.url, hfirst,
      Table.insert_insert, List.append_assoc]

theorem spoiled (h : Appended reference state bytes w w' state') (hspoiled : Spoiled reference w' w'') :
    Spoiled reference w w'' := by
  obtain ⟨update, hmemory⟩ := hspoiled.memory
  refine ⟨h.grows.trans hspoiled.registry, ⟨update ∘ fun _ => state', ?_⟩, hspoiled.now.trans h.now,
    hspoiled.payloads.trans h.payloads⟩
  rw [hmemory, h.memory, modify_modify]

end Appended

theorem Spoiled.abandoned {reference : Nat} {sessionId : String} {w w' w'' : World setting.policy}
    (h : Spoiled reference w w') (hentry : w.memory.lookup sessionId = some reference)
    (habandoned : Abandoned sessionId w' w'') : Abandoned sessionId w w'' := by
  obtain ⟨update, hmemory⟩ := h.memory
  have hclosed := habandoned.memory
  rw [hmemory] at hclosed
  exact ⟨h.registry.trans habandoned.registry, .of_modify hentry hclosed, habandoned.now.trans h.now,
    habandoned.payloads.trans h.payloads⟩

section Parts

variable (laws : P.Lawful) (w : World setting.policy)

include laws

/-- One chunk goes to the hash and then to the upload. -/
theorem sendChunk_ensures {reference : Nat} {state : MultipartState}
    (hobject : w.memory.heap[reference]? = some state) (chunk : Bytes) :
    (adapter.sendChunk P reference chunk).Ensures setting.env World.Change w fun outcome w' =>
          match outcome with
          | .ok _ => ∃ state', Appended reference state chunk w w' state'
          | .error _ => Spoiled reference w w' := by
  have hquiet := quiet_change laws setting
  refine (updateState_ensures hquiet w hobject _).bind ?_ ?_
  · rintro before w₁ ⟨heq, hw₁⟩
    obtain rfl := Except.ok.inj heq
    have hmemory₁ : w₁.memory = w.memory.modify reference fun state =>
        { state with hashed := state.hashed ++ chunk } := by rw [hw₁]
    have hregistry₁ : w₁.registry = w.registry := by rw [hw₁]
    have hnow₁ : w₁.now = w.now := by rw [hw₁]
    have hpayloads₁ : w₁.payloads = w.payloads := by rw [hw₁]
    have hobject₁ : w₁.memory.heap[reference]? =
        some { before with hashed := before.hashed ++ chunk } := by
      rw [hmemory₁, get?_modify, if_pos rfl, hobject]
      rfl
    refine (patchUpload_ensures laws hquiet w₁ before.upload chunk).bind ?_ ?_
    · rintro upload w₂ ⟨received, hreceived, hlength, hw₂, hurl, hoffset, -⟩
      have hmemory₂ : w₂.memory = w₁.memory := by rw [hw₂]
      refine (updateState_ensures hquiet w₂ (hmemory₂ ▸ hobject₁) _).bind ?_ (by rintro _ _ ⟨heq, -⟩; cases heq)
      rintro _ w₃ ⟨-, hw₃⟩
      rw [hregistry₁] at hreceived hw₂
      have hissued : (w.registry.uploads[before.upload.url]?).isSome := by rw [hreceived]; rfl
      simp only [Registry.setUpload, dif_pos hissued] at hw₂
      have hmemory₃ : w₃.memory = w.memory.modify reference fun _ =>
          { before with hashed := before.hashed ++ chunk, upload } := by
        rw [hw₃, hmemory₂, hmemory₁, modify_modify]
        exact modify_congr hobject rfl
      have hregistry₃ : w₃.registry = w₂.registry := by rw [hw₃]
      have huploads : w₃.registry.uploads =
          w.registry.uploads.insert before.upload.url (received ++ chunk) := by rw [hregistry₃, hw₂]
      refine ⟨_, rfl, hmemory₃, hurl, hoffset, ?_, ?_, ?_, ?_, ?_, ?_⟩
      · rw [hregistry₃, hw₂]
      · rw [hregistry₃, hw₂]
      · rw [hregistry₃, hw₂]
      · intro other hother _
        rw [huploads, Option.some.inj (hreceived.symm.trans hother)]
      · rw [hw₃, hw₂, hnow₁]
      · rw [hw₃, hw₂, hpayloads₁]
    · rintro error w₂ ⟨hw₂, -⟩
      have hsilent : w₁.Silent w₂ := by
        rcases hw₂ with rfl | ⟨-, rfl⟩
        · exact .refl _
        · exact World.silent_apply laws _ rfl
      refine ⟨hregistry₁ ▸ hsilent.registry, ⟨_, hsilent.memory.trans hmemory₁⟩, hsilent.now.trans hnow₁,
        hsilent.payloads.trans hpayloads₁⟩
  · rintro error w₁ ⟨heq, -⟩
    cases heq

theorem sendPart_ensures (session : MultipartSession) {reference : Nat} (chunks : List Bytes)
    {w : World setting.policy} {state : MultipartState}
    (hobject : w.memory.heap[reference]? = some state) (hashed : Bytes) :
    (adapter.sendPart P session reference chunks hashed hashed.length).Ensures setting.env World.Change w
      fun outcome w' =>
        match outcome with
        | .ok (hashed', length) => hashed' = hashed ++ chunks.flatten ∧ length = hashed'.length ∧
            (chunks ≠ [] → state.length + length ≤ adapter.binding.maxObjectBytes) ∧
            ∃ state', Appended reference state chunks.flatten w w' state'
        | .error _ => Spoiled reference w w' := by
  have hquiet := quiet_change laws setting
  induction chunks generalizing w state hashed with
  | nil => exact ⟨by simp, rfl, fun h => absurd rfl h, state, .nil hobject⟩
  | cons chunk rest ih =>
    unfold OciDistributionAdapter.sendPart
    have hlength : hashed.length + chunk.length = (hashed ++ chunk).length := by simp
    have hnothing : Spoiled reference w w := ⟨.refl _, ⟨_, (Appended.nil hobject).memory⟩, rfl, rfl⟩
    simp only [hlength]
    split
    · exact hnothing
    · refine (readState_ensures hquiet w hobject).bind ?_ (by rintro _ _ ⟨heq, -⟩; cases heq)
      rintro _ w ⟨heq, rfl⟩
      obtain rfl := Except.ok.inj heq
      split
      · exact hnothing
      · rename_i hsize
        refine (sendChunk_ensures laws w hobject chunk).bind ?_ fun error w' h => h
        rintro _ w₁ ⟨state₁, happended⟩
        refine (ih (happended.object hobject) (hashed ++ chunk)).mono ?_
        rintro (error | ⟨hashed', length⟩) w' h
        · exact happended.spoiled h
        · obtain ⟨hhashed, hlength, hbound, state', hrest⟩ := h
          refine ⟨by rw [hhashed]; simp, hlength, fun _ => ?_, state', ?_⟩
          · -- the last chunk was checked against the length that is returned
            by_cases hlast : rest = []
            · rw [hlength, hhashed, hlast, List.flatten_nil, List.append_nil]
              exact not_lt.mp hsize
            · have hkept := hbound hlast
              rwa [happended.result] at hkept
          · rw [List.flatten_cons]
            exact happended.trans hrest

theorem transferPart_ensures (session : MultipartSession) {reference : Nat} {state : MultipartState}
    (hobject : w.memory.heap[reference]? = some state) (payload : PayloadReference) :
    (adapter.transferPart P session reference payload).Ensures setting.env World.Change w
      fun outcome w' =>
        match outcome with
        | .ok identity => ∃ bytes state', PartContent setting session payload bytes ∧ bytes ≠ [] ∧
            identity = identityOf P bytes ∧ state.length + bytes.length ≤ adapter.binding.maxObjectBytes ∧
            Appended reference state bytes w w' state'
        | .error _ => Spoiled reference w w' := by
  have hquiet := quiet_change laws setting
  have hnothing : ∀ {w' : World setting.policy} {state' : MultipartState} {bytes : Bytes},
      Appended reference state bytes w w' state' → Spoiled reference w w' := fun h =>
    ⟨h.grows, ⟨_, h.memory⟩, h.now, h.payloads⟩
  unfold OciDistributionAdapter.transferPart
  refine (Prog.Ensures.perform (Q := fun outcome w' => w' = w ∧
    setting.streams payload session.partSize outcome) ?_).bind ?_ ?_
  · rintro answer w' ⟨hstream, rfl⟩
    exact ⟨hquiet.refl _, rfl, hstream⟩
  · rintro stream w ⟨rfl, hstream⟩
    refine (sendPart_ensures laws session stream.chunks hobject []).bind ?_ fun error w' h => h
    rintro ⟨hashed, length⟩ w₁ ⟨hhashed, hlength, hbound, state', happended⟩
    rw [List.nil_append] at hhashed
    cases hfailure : stream.failure with
    | some failure => exact hnothing happended
    | none =>
      simp only
      split
      · exact hnothing happended
      · rename_i hpositive
        cases hverify : verifyIdentity payload ⟨sha256Digest P hashed, length⟩ with
        | error error => exact hnothing happended
        | ok _ =>
          have hne : stream.chunks.flatten ≠ [] := by
            intro hempty
            rw [hlength, hhashed, hempty] at hpositive
            exact hpositive rfl
          refine ⟨stream.chunks.flatten, state', ⟨stream, hstream, hfailure, rfl⟩, hne, ?_, ?_, happended⟩
          · rw [identityOf, hlength, hhashed]
          · rw [← hhashed, ← hlength]
            refine hbound fun hnil => hne ?_
            rw [hnil, List.flatten_nil]
  · rintro error w' ⟨rfl, -⟩
    exact hnothing (.nil hobject)

/-- Aborting closes the session, whatever its state object is. -/
theorem abortMultipart_ensures (session : MultipartSession) :
    (adapter.abortMultipart P session).Ensures setting.env World.Change w fun _ w' =>
      Abandoned session.sessionId w w' := by
  have hquiet := quiet_change laws setting
  unfold OciDistributionAdapter.abortMultipart
  refine (memory_ensures hquiet w _).bind ?_ (by rintro _ _ ⟨heq, -⟩; cases heq)
  rintro _ w₁ ⟨heq, hw₁⟩
  obtain rfl := Except.ok.inj heq
  have hclosed : Closed session.sessionId w.memory w₁.memory := hw₁ ▸ .pop _ _
  have hpopped : Abandoned session.sessionId w w₁ := by
    rw [hw₁]
    exact ⟨.refl _, .pop _ _, rfl, rfl⟩
  cases hentry : w.memory.lookup session.sessionId with
  | none => exact hpopped
  | some reference =>
    cases hobject : w₁.memory.heap[reference]? with
    | none =>
      refine (readState_absent_ensures hquiet w₁ hobject).bind (by rintro _ _ ⟨heq, -⟩; cases heq) ?_
      rintro error w₂ ⟨-, rfl⟩
      exact hpopped
    | some state =>
      refine (readState_ensures hquiet w₁ hobject).bind ?_ (by rintro _ _ ⟨heq, -⟩; cases heq)
      rintro _ w₁' ⟨heq, rfl⟩
      obtain rfl := Except.ok.inj heq
      refine (abortSafely_ensures laws hquiet w₁' _).bind ?_ (by rintro _ _ ⟨heq, -⟩; cases heq)
      rintro _ w₂ ⟨-, hw₂, -⟩
      have hsilent : w₁'.Silent w₂ := by
        rcases hw₂ with rfl | rfl
        · exact .refl _
        · exact World.silent_apply laws _ rfl
      have haborted : Abandoned session.sessionId w w₂ :=
        ⟨hpopped.registry.trans hsilent.registry, hsilent.memory ▸ hpopped.memory,
          hsilent.now.trans hpopped.now, hsilent.payloads.trans hpopped.payloads⟩
      have hobject₂ := hsilent.memory ▸ hobject
      refine (readState_ensures hquiet w₂ hobject₂).bind ?_ (by rintro _ _ ⟨heq, -⟩; cases heq)
      rintro _ w₂' ⟨heq, rfl⟩
      obtain rfl := Except.ok.inj heq
      split
      · refine (transitionState_ensures hquiet w₂' hobject₂ .aborted).mono ?_
        rintro outcome w₃ ⟨⟨update, rfl⟩, -⟩
        exact ⟨haborted.registry, haborted.memory.modify hentry update, haborted.now, haborted.payloads⟩
      · exact haborted

/-- An acknowledged part was appended to its session. A part that is not taken changes nothing, and a
part that is taken and fails closes the session. -/
theorem uploadPart_ensures (session : MultipartSession) (partNumber : Nat) (payload : PayloadReference) :
    (adapter.uploadPart P session partNumber payload).Ensures setting.env World.Change w
      fun outcome w' =>
        match outcome with
        | .ok part => ∃ reference state bytes w₁ state₁, Live w.memory session.sessionId reference state ∧
            session.objectRef = adapter.objectReferenceOf state.input ∧ partNumber = state.nextPart ∧
            PartContent setting session payload bytes ∧ bytes ≠ [] ∧
            part.partNumber = partNumber ∧ part.identity = identityOf P bytes ∧
            partNumber ≤ adapter.binding.maxMultipartParts ∧
            state.length + bytes.length ≤ adapter.binding.maxObjectBytes ∧
            Appended reference state bytes w w₁ state₁ ∧
            w' = { w₁ with memory := w.memory.modify reference fun _ => state₁.acknowledge part }
        | .error _ => (¬Takes adapter w.memory session partNumber ∧ w' = w) ∨
            (Takes adapter w.memory session partNumber ∧ Abandoned session.sessionId w w') := by
  have hquiet := quiet_change laws setting
  unfold OciDistributionAdapter.uploadPart
  refine (stateOf_ensures hquiet w session).bind ?_ ?_
  swap
  · rintro error w' ⟨rfl, hunknown⟩
    refine .inl ⟨?_, rfl⟩
    rintro ⟨reference, state, hlive, hbelongs, -⟩
    exact hunknown reference state hlive hbelongs
  rintro reference w ⟨rfl, state, hlive, hbelongs⟩
  have htakes : Takes adapter w.memory session partNumber ↔
      partNumber = state.nextPart ∧ partNumber ≤ adapter.binding.maxMultipartParts := by
    constructor
    · rintro ⟨other, found, hfound, -, hnumber⟩
      obtain rfl := Option.some.inj (hlive.entry.symm.trans hfound.entry)
      rwa [Option.some.inj (hlive.object.symm.trans hfound.object)]
    · exact fun hnumber => ⟨reference, state, hlive, hbelongs, hnumber⟩
  refine (readState_ensures hquiet w hlive.object).bind ?_ (by rintro _ _ ⟨heq, -⟩; cases heq)
  rintro _ w ⟨heq, rfl⟩
  obtain rfl := (Except.ok.inj heq).symm
  split
  · rename_i hnumber
    exact .inl ⟨fun h => hnumber (htakes.mp h).1, rfl⟩
  rename_i hnumber
  split
  · rename_i hcount
    exact .inl ⟨fun h => absurd (htakes.mp h).2 (not_le.mpr hcount), rfl⟩
  rename_i hcount
  -- a failed transfer aborts the session and raises again
  refine Prog.Ensures.bind (R := fun outcome w' =>
    match outcome with
    | .ok identity => ∃ bytes state', PartContent setting session payload bytes ∧ bytes ≠ [] ∧
        identity = identityOf P bytes ∧ state.length + bytes.length ≤ adapter.binding.maxObjectBytes ∧
        Appended reference state bytes w w' state'
    | .error _ => Abandoned session.sessionId w w') ?_ ?_
    fun error w' h => .inr ⟨htakes.mpr ⟨not_not.mp hnumber, not_lt.mp hcount⟩, h⟩
  · refine (transferPart_ensures laws w session hlive.object payload).handle ?_
    rintro (error | identity) w₁ h
    · refine (abortMultipart_ensures laws w₁ session).bind ?_ ?_
      · rintro _ w₂ habandoned
        exact h.abandoned hlive.entry habandoned
      · rintro _ w₂ habandoned
        exact h.abandoned hlive.entry habandoned
    · exact h
  · rintro _ w₁ ⟨bytes, state₁, hcontent, hne, rfl, hsize, happended⟩
    refine (updateState_ensures hquiet w₁ (happended.object hlive.object) _).bind ?_
      (by rintro _ _ ⟨heq, -⟩; cases heq)
    rintro _ w₂ ⟨-, rfl⟩
    refine ⟨reference, state, bytes, w₁, state₁, hlive, hbelongs, not_not.mp hnumber, hcontent, hne, rfl, rfl,
      not_lt.mp hcount, hsize, happended, ?_⟩
    rw [happended.memory, modify_modify]
    rfl

theorem beginMultipart_ensures (operation : Operation) :
    (adapter.beginMultipart P operation).Ensures setting.env World.Change w fun outcome w' =>
      (w.registry.Grows w'.registry ∧ w'.payloads = w.payloads) ∧
        match outcome with
        | .ok session => ∃ value immutability upload, operation.input = .put value ∧
            immutabilityOf P value = .ok immutability ∧
            session.objectRef = adapter.objectReferenceOf value ∧
            session.partSize = adapter.binding.chunkSize ∧
            w'.memory = w.memory.insert session.sessionId (.start value upload .uploading) ∧
            upload.url = setting.policy.uploadUrl w.registry.issued ∧ upload.offset = 0 ∧
            w'.registry = w.registry.openUpload
        | .error _ => w'.memory = w.memory := by
  have hquiet := quiet_change laws setting
  unfold OciDistributionAdapter.beginMultipart
  cases adapter.validateOperation operation with
  | error error => exact ⟨⟨.refl _, rfl⟩, rfl⟩
  | ok method =>
    simp only [Action.lift_ok, Prog.ret_bind]
    split
    · exact ⟨⟨.refl _, rfl⟩, rfl⟩
    cases P.requireObjectCapabilities adapter.binding operation.requirements with
    | error error => exact ⟨⟨.refl _, rfl⟩, rfl⟩
    | ok _ =>
      simp only [Action.lift_ok, Prog.ret_bind]
      cases hinput : operation.input with
      | put value =>
        dsimp only
        cases himmutability : immutabilityOf P value with
        | error error => exact ⟨⟨.refl _, rfl⟩, rfl⟩
        | ok immutability =>
          simp only [Action.lift_ok, Prog.ret_bind, laws.transition_uploading]
          refine Prog.Ensures.bind (R := Prog.Exits
            (fun _ w' => w' = w ∨ w' = w.apply .startUpload)
            fun upload w' => w' = w.apply .startUpload ∧
              upload.url = setting.policy.uploadUrl w.registry.issued ∧ upload.offset = 0) ?_ ?_ ?_
          · refine locked_ensures hquiet.refl ?_
            refine (requireCreateAvailable_ensures laws w value.objectId immutability _).bind ?_ ?_
            · rintro _ w ⟨rfl, -⟩
              refine (startUpload_ensures laws hquiet w).mono ?_
              rintro (error | upload) w' h
              · exact h.1
              · exact h
            · rintro error w ⟨rfl, -⟩
              exact .inl rfl
          · rintro upload w₁ ⟨hw₁, hurl, hoffset⟩
            have hgrows : w.registry.Grows w₁.registry := hw₁ ▸ (World.silent_apply laws w rfl).registry
            have hmemory₁ : w₁.memory = w.memory := by rw [hw₁]; rfl
            have hpayloads₁ : w₁.payloads = w.payloads := by rw [hw₁]; rfl
            refine (Prog.Ensures.perform (Q := fun _ w' => w' = w₁) ?_).bind ?_ ?_
            · rintro answer w' ⟨-, rfl⟩
              exact ⟨hquiet.refl _, rfl⟩
            · rintro token w₁' rfl
              refine (now_ensures laws w₁').bind ?_ ?_
              · rintro createdAt w₂ ⟨hw₂, -⟩
                cases hsession : adapter.newSession P ("u" ++ token) value createdAt with
                | error error =>
                  rw [hw₂]
                  exact ⟨⟨hgrows, hpayloads₁⟩, hmemory₁⟩
                | ok session => ?_
                obtain ⟨-, hbelongs, hsize, -⟩ := OciDistributionAdapter.newSession_ok hsession
                refine (memory_ensures hquiet w₂ _).bind ?_ (by rintro _ _ ⟨heq, -⟩; cases heq)
                rintro _ w₃ ⟨-, rfl⟩
                refine ⟨⟨?_, ?_⟩, value, immutability, upload, rfl, himmutability, hbelongs, hsize, ?_, hurl,
                  hoffset, ?_⟩
                · rw [hw₂]
                  exact hgrows
                · rw [hw₂]
                  exact hpayloads₁
                · rw [hw₂]
                  simp only [hmemory₁]
                · rw [hw₂, hw₁]
                  rfl
              · rintro error w₂ ⟨hw₂, -⟩
                rw [hw₂]
                exact ⟨⟨hgrows, hpayloads₁⟩, hmemory₁⟩
            · rintro error w₁' rfl
              exact ⟨⟨hgrows, hpayloads₁⟩, hmemory₁⟩
          · rintro error w₁ (rfl | rfl)
            · exact ⟨⟨.refl _, rfl⟩, rfl⟩
            · exact ⟨⟨(World.silent_apply laws w rfl).registry, rfl⟩, rfl⟩
      | _ => exact ⟨⟨.refl _, rfl⟩, rfl⟩

end Parts

/-! ## Completion -/

theorem Interrupted.grows {value : PutInput} {source : Bytes → Prop} {w w' w'' : World setting.policy}
    (h : Interrupted setting value source w w') (hgrows : w'.registry.Grows w''.registry) :
    Interrupted setting value source w w'' := by
  have hcatalog := catalogOf_grows hgrows
  refine ⟨?_, fun immutability hparsed hnot => hcatalog.trans (h.refused immutability hparsed hnot)⟩
  rw [hcatalog]
  exact h.commits

/-- What a completion may leave in a world in which it raised. -/
structure Broken (setting : Setting P adapter.transport.binding) (reference : Nat) (state : MultipartState)
    (w w' : World setting.policy) : Prop where
  interrupted : Interrupted setting state.input (· = state.hashed) w w'
  memory : ∃ update, w'.memory = w.memory.modify reference update
  payloads : w'.payloads = w.payloads

theorem Broken.of_silent {reference : Nat} {state : MultipartState} {w w' : World setting.policy}
    (hobject : w.memory.heap[reference]? = some state) (h : w.Silent w') :
    Broken setting reference state w w' :=
  ⟨.of_grows h.registry, ⟨_, h.memory.trans (Appended.nil hobject).memory⟩, h.payloads⟩

/-- The `except` block changes uploads and the session object only. -/
theorem abandonMultipart_ensures (laws : P.Lawful) {w w' : World setting.policy} {reference : Nat}
    {state : MultipartState} (hobject : w.memory.heap[reference]? = some state) (h : Broken setting reference state w w')
    (error : Err) :
    (adapter.abandonMultipart P reference error).Ensures setting.env World.Change w' fun outcome w'' =>
      match outcome with
      | .ok _ => False
      | .error _ => Broken setting reference state w w'' := by
  have hquiet := quiet_change laws setting
  obtain ⟨hinterrupted, ⟨update, hmemory⟩, hpayloads⟩ := h
  have hobject' : w'.memory.heap[reference]? = some (update state) := by
    rw [hmemory, get?_modify, if_pos rfl, hobject]
    rfl
  have hfailed : ∀ {w₁ : World setting.policy} (physicalCommit : Bool),
      Broken setting reference state w w₁ →
      (do
        OciDistributionAdapter.failState P reference physicalCommit
        throw error : Action ObjectMetadata).Ensures setting.env World.Change w₁ fun outcome w'' =>
          match outcome with
          | .ok _ => False
          | .error _ => Broken setting reference state w w'' := by
    intro w₁ physicalCommit hbroken
    obtain ⟨hinterrupted, ⟨update, hmemory⟩, hpayloads⟩ := hbroken
    have hobject₁ : w₁.memory.heap[reference]? = some (update state) := by
      rw [hmemory, get?_modify, if_pos rfl, hobject]
      rfl
    have hbroken : ∀ other, Broken setting reference state w
        { w₁ with memory := w₁.memory.modify reference other } := fun other =>
      ⟨hinterrupted.grows (.refl _), ⟨other ∘ update, by simp only [hmemory, modify_modify]⟩, hpayloads⟩
    refine (failState_ensures hquiet w₁ hobject₁ physicalCommit).bind ?_ ?_
    · rintro _ w₂ ⟨other, rfl⟩
      exact hbroken other
    · rintro _ w₂ ⟨other, rfl⟩
      exact hbroken other
  unfold OciDistributionAdapter.abandonMultipart
  refine (readState_ensures hquiet w' hobject').bind ?_ (by rintro _ _ ⟨heq, -⟩; cases heq)
  rintro _ w' ⟨heq, rfl⟩
  obtain rfl := (Except.ok.inj heq).symm
  split
  · refine (abortSafely_ensures laws hquiet w' _).bind ?_ (by rintro _ _ ⟨heq, -⟩; cases heq)
    rintro _ w₁ ⟨-, hw₁, -⟩
    have hsilent : w'.Silent w₁ := by
      rcases hw₁ with rfl | rfl
      · exact .refl _
      · exact World.silent_apply laws _ rfl
    exact hfailed false ⟨hinterrupted.grows hsilent.registry, ⟨update, hsilent.memory.trans hmemory⟩,
      hsilent.payloads.trans hpayloads⟩
  · split
    · exact hfailed true ⟨hinterrupted, ⟨update, hmemory⟩, hpayloads⟩
    · exact ⟨hinterrupted, ⟨update, hmemory⟩, hpayloads⟩

section Completion

variable (laws : P.Lawful) {w : World setting.policy} (hintact : Intact w.registry)
variable {reference : Nat} {state : MultipartState} (hobject : w.memory.heap[reference]? = some state)
variable (hsettled : Settled state) {immutability : ImmutabilityRequest}
variable {retention : Option RetentionRequest}
variable (himmutability : immutabilityOf P state.input = .ok immutability)
variable (hretention : retentionOf P state.input = .ok retention)

include laws hintact hobject hsettled himmutability hretention

/-- Inside the lock, what was hashed becomes a blob and is then committed. -/
theorem commitMultipart_ensures :
    (adapter.commitMultipart P reference state.input ⟨sha256Digest P state.hashed, state.length⟩
      immutability retention).Ensures setting.env World.Change w fun outcome w' =>
        match outcome with
        | .ok metadata => Succeeded setting state.input state.hashed immutability retention w w' metadata ∧
            w'.registry.uploads = w.registry.uploads.erase state.upload.url ∧
            (∃ update, w'.memory = w.memory.modify reference update) ∧ w'.payloads = w.payloads
        | .error _ => Broken setting reference state w w' := by
  have hquiet := quiet_change laws setting
  unfold OciDistributionAdapter.commitMultipart
  simp only
  refine (requireCreateAvailable_ensures laws w state.input.objectId immutability _).bind ?_ ?_
  · rintro _ w ⟨rfl, havailable⟩
    refine (readState_ensures hquiet w hobject).bind ?_ (by rintro _ _ ⟨heq, -⟩; cases heq)
    rintro _ w ⟨heq, rfl⟩
    obtain rfl := (Except.ok.inj heq).symm
    refine (finishUpload_ensures laws hquiet w state.upload _).bind ?_ ?_
    · rintro descriptor w₁ ⟨received, hreceived, hdigest, hw₁⟩
      obtain rfl := sha256Digest_injective laws hdigest
      have hsilent : w.Silent w₁ := by
        have hgrows := (World.silent_apply laws w
          (show Target.isUpload (Request.putUpload state.upload.url (sha256Digest P state.hashed) []).target =
            true from rfl)).registry
        rw [hw₁]
        refine ⟨?_, rfl, rfl, rfl⟩
        have hrespond := w.respond_putUpload state.upload.url (sha256Digest P state.hashed) []
        rw [hreceived] at hrespond
        simp only [List.append_nil, if_true] at hrespond
        simpa only [World.apply, hrespond] using hgrows
      have hintact₁ : Intact w₁.registry := (Move.quiet _ _ hsilent.registry).intact laws hintact
      have hobject₁ : w₁.memory.heap[reference]? = some state := hsilent.memory ▸ hobject
      have hblob : w₁.registry.blobs[sha256Digest P state.hashed]? = some state.hashed := by
        rw [hw₁]
        simp only [Registry.dropUpload, Registry.addBlob]
        rw [Table.get?_insert, if_pos rfl]
      refine (transitionState_ensures hquiet w₁ hobject₁ .verifying).bind ?_ ?_
      · rintro _ w₂ ⟨-, machine, hmachine, hw₂⟩
        rw [hsettled.machine, laws.transition_verifying] at hmachine
        obtain rfl := Except.ok.inj hmachine
        generalize hupdate : (fun state : MultipartState => { state with machine := .verifying }) = update at hw₂
        have hregistry₂ : w₂.registry = w₁.registry := by rw [hw₂]
        have hnow₂ : w₂.now = w₁.now := by rw [hw₂]
        have hpayloads₂ : w₂.payloads = w₁.payloads := by rw [hw₂]
        have hmemory₂ : w₂.memory = w.memory.modify reference update := by rw [hw₂, ← hsilent.memory]
        have hobject₂ : w₂.memory.heap[reference]? = some (update state) := by
          rw [hmemory₂, get?_modify, if_pos rfl, hobject]
          rfl
        rw [hsettled.length]
        refine (commitObject_ensures laws w₂ (hregistry₂ ▸ hintact₁) state.input (hregistry₂ ▸ hblob)
          (immutabilityOf_valid himmutability) (retentionOf_valid hretention) _).bind ?_ ?_
        · rintro metadata w₃ ⟨-, hcommitted⟩
          have hmemory₃ := hcommitted.frame.1.trans hmemory₂
          have hsucceeded : ∀ w' : World setting.policy, w'.registry = w₃.registry → w'.now = w₃.now →
              Succeeded setting state.input state.hashed immutability retention w w' metadata := by
            intro w' hregistry hnow
            refine ⟨himmutability, hretention, havailable, w₂, w₃, ?_, ?_, hregistry₂ ▸ hblob, fun _ => ?_,
              hcommitted, hregistry.symm, hnow.symm⟩
            · rw [hregistry₂]
              exact hsilent.registry
            · rw [hnow₂, hsilent.now]
            · rw [hregistry₂, hw₁]
              rfl
          have huploads : w₃.registry.uploads = w.registry.uploads.erase state.upload.url := by
            rw [hcommitted.uploads, hregistry₂, hw₁]
            rfl
          have hpayloads₃ := hcommitted.frame.2.trans (hpayloads₂.trans hsilent.payloads)
          have hobject₃ : w₃.memory.heap[reference]? = some (update state) :=
            hcommitted.frame.1 ▸ hobject₂
          refine (transitionState_ensures hquiet w₃ hobject₃ .committed).bind ?_ ?_
          · rintro _ w₄ ⟨⟨final, hw₄⟩, -⟩
            rw [hw₄]
            refine ⟨hsucceeded _ rfl rfl, huploads, ⟨final ∘ update, ?_⟩, hpayloads₃⟩
            simp only [hmemory₃, modify_modify]
          · rintro error w₄ ⟨-, herror⟩
            have hverifying : (update state).machine = .verifying := by rw [← hupdate]
            rw [hverifying, laws.transition_committed] at herror
            cases herror
        · rintro error w₃ ⟨⟨hmemory₃, hpayloads₃⟩, hcommits, hrefused, -⟩
          have hcatalog : catalogOf w₂.registry = catalogOf w.registry := by
            rw [hregistry₂, catalogOf_grows hsilent.registry]
          refine ⟨⟨.inr ⟨_, rfl, hcatalog ▸ hcommits⟩, fun other hother hnot => ?_⟩,
            ⟨update, hmemory₃.trans hmemory₂⟩, hpayloads₃.trans (hpayloads₂.trans hsilent.payloads)⟩
          obtain rfl := Except.ok.inj (himmutability.symm.trans hother)
          exact absurd havailable hnot
      · rintro error w₂ ⟨⟨update, hw₂⟩, -⟩
        rw [hw₂]
        refine ⟨.of_grows hsilent.registry, ⟨update, ?_⟩, hsilent.payloads⟩
        simp only [hsilent.memory]
    · rintro error w₁ ⟨hw₁, -⟩
      refine .of_silent hobject ?_
      rcases hw₁ with rfl | rfl
      · exact .refl _
      · exact World.silent_apply laws _ rfl
  · rintro error w ⟨rfl, -⟩
    exact .of_silent hobject (.refl _)

end Completion

/-- A completion that returns has committed what its live session hashed; one that raises
has left its session alone or closed it. -/
theorem completeMultipart_ensures (laws : P.Lawful) (w : World setting.policy)
    (hintact : Intact w.registry) (hsound : SoundMemory w.memory) (session : MultipartSession)
    (supplied : List MultipartPart) :
    (adapter.completeMultipart P session supplied).Ensures setting.env World.Change w fun outcome w' =>
      w'.payloads = w.payloads ∧
        match outcome with
        | .ok metadata => ∃ reference state immutability retention,
            Live w.memory session.sessionId reference state ∧ supplied = state.parts ∧
            state.input.expectedDigest.getD (sha256Digest P state.hashed) = sha256Digest P state.hashed ∧
            state.input.expectedLength.getD state.hashed.length = state.hashed.length ∧
            Succeeded setting state.input state.hashed immutability retention w w' metadata ∧
            w'.registry.uploads = w.registry.uploads.erase state.upload.url ∧
            Closed session.sessionId w.memory w'.memory
        | .error _ => w' = w ∨ ∃ reference state, Live w.memory session.sessionId reference state ∧
            Interrupted setting state.input (· = state.hashed) w w' ∧
            Closed session.sessionId w.memory w'.memory ∧
            (catalogOf w'.registry = catalogOf w.registry ∨
              (state.input.expectedDigest.getD (sha256Digest P state.hashed) = sha256Digest P state.hashed ∧
                state.input.expectedLength.getD state.hashed.length = state.hashed.length)) := by
  have hquiet := quiet_change laws setting
  unfold OciDistributionAdapter.completeMultipart
  refine (stateOf_ensures hquiet w session).bind ?_ (by rintro _ _ ⟨rfl, -⟩; exact ⟨rfl, .inl rfl⟩)
  rintro reference w ⟨rfl, state, hlive, -⟩
  have hsettled := hsound.live hlive
  refine (readState_ensures hquiet w hlive.object).bind ?_ (by rintro _ _ ⟨heq, -⟩; cases heq)
  rintro _ w ⟨heq, rfl⟩
  obtain rfl := (Except.ok.inj heq).symm
  split
  · exact ⟨rfl, .inl rfl⟩
  rename_i hsupplied
  split
  · exact ⟨rfl, .inl rfl⟩
  -- a mismatch with the declarations aborts the session
  have habort : ∀ error : Err, (do
      adapter.abortMultipart P session
      throw error : Action ObjectMetadata).Ensures setting.env World.Change w fun outcome w' =>
        w'.payloads = w.payloads ∧
          match outcome with
          | .ok _ => False
          | .error _ => Interrupted setting state.input (· = state.hashed) w w' ∧
              Closed session.sessionId w.memory w'.memory ∧ catalogOf w'.registry = catalogOf w.registry := by
    intro error
    refine (abortMultipart_ensures laws w session).bind ?_ ?_
    · rintro _ w' h
      exact ⟨h.payloads, .of_grows h.registry, h.memory, catalogOf_grows h.registry⟩
    · rintro _ w' h
      exact ⟨h.payloads, .of_grows h.registry, h.memory, catalogOf_grows h.registry⟩
  have hraised : ∀ {outcome : Except Err ObjectMetadata} {w' : World setting.policy},
      (w'.payloads = w.payloads ∧
        match outcome with
        | .ok _ => False
        | .error _ => Interrupted setting state.input (· = state.hashed) w w' ∧
            Closed session.sessionId w.memory w'.memory ∧ catalogOf w'.registry = catalogOf w.registry) →
      ∃ error, outcome = .error error ∧ w'.payloads = w.payloads ∧
        Interrupted setting state.input (· = state.hashed) w w' ∧
        Closed session.sessionId w.memory w'.memory ∧ catalogOf w'.registry = catalogOf w.registry := by
    rintro (error | metadata) w' ⟨hpayloads, h⟩
    · exact ⟨error, rfl, hpayloads, h⟩
    · exact h.elim
  dsimp only
  cases P.multipartCompletion supplied ⟨sha256Digest P state.hashed, state.length⟩ with
  | error error => exact ⟨rfl, .inl rfl⟩
  | ok _ =>
    simp only [Action.lift_ok, Prog.ret_bind]
    split
    · refine (habort _).mono fun outcome w' h => ?_
      obtain ⟨error, rfl, hpayloads, hinterrupted, hclosed, hsame⟩ := hraised h
      exact ⟨hpayloads, .inr ⟨reference, state, hlive, hinterrupted, hclosed, .inl hsame⟩⟩
    rename_i hdigest
    split
    · refine (habort _).mono fun outcome w' h => ?_
      obtain ⟨error, rfl, hpayloads, hinterrupted, hclosed, hsame⟩ := hraised h
      exact ⟨hpayloads, .inr ⟨reference, state, hlive, hinterrupted, hclosed, .inl hsame⟩⟩
    rename_i hlength
    rw [not_not, hsettled.length] at hlength
    cases himmutability : immutabilityOf P state.input with
    | error error => exact ⟨rfl, .inl rfl⟩
    | ok immutability =>
      cases hretention : retentionOf P state.input with
      | error error => exact ⟨rfl, .inl rfl⟩
      | ok retention =>
        simp only [Action.lift_ok, Prog.ret_bind]
        have hpop : ∀ {w₁ : World setting.policy},
            (∃ update, w₁.memory = w.memory.modify reference update) →
            Closed session.sessionId w.memory (w₁.memory.pop session.sessionId) := by
          rintro w₁ ⟨update, hmemory⟩
          rw [hmemory]
          exact (Closed.pop session.sessionId w.memory).modify hlive.entry update
        refine Prog.Ensures.finally_ (R := fun outcome w₁ =>
          match outcome with
          | .ok metadata => Succeeded setting state.input state.hashed immutability retention w w₁ metadata ∧
              w₁.registry.uploads = w.registry.uploads.erase state.upload.url ∧
              (∃ update, w₁.memory = w.memory.modify reference update) ∧ w₁.payloads = w.payloads
          | .error _ => Broken setting reference state w w₁) ?_ ?_
        · refine (locked_ensures hquiet.refl (commitMultipart_ensures laws hintact hlive.object hsettled
            himmutability hretention)).handle ?_
          rintro (error | metadata) w₁ h
          · refine (abandonMultipart_ensures laws hlive.object h error).mono ?_
            rintro (error | metadata) w₂ h₂
            · exact h₂
            · exact h₂.elim
          · exact h
        · rintro (error | metadata) w₁ h
          · refine (memory_ensures hquiet w₁ _).bind ?_ (by rintro _ _ ⟨heq, -⟩; cases heq)
            rintro _ w₂ ⟨-, rfl⟩
            exact ⟨h.payloads, .inr ⟨reference, state, hlive, h.interrupted.grows (.refl _), hpop h.memory,
              .inr ⟨not_not.mp hdigest, hlength⟩⟩⟩
          · obtain ⟨hsucceeded, huploads, hmemory, hpayloads⟩ := h
            refine (memory_ensures hquiet w₁ _).bind ?_ (by rintro _ _ ⟨heq, -⟩; cases heq)
            rintro _ w₂ ⟨-, rfl⟩
            refine ⟨hpayloads, reference, state, immutability, retention, hlive, not_not.mp hsupplied,
              not_not.mp hdigest, hlength, ?_, huploads, hpop hmemory⟩
            obtain ⟨hparsed, hkept, havailable, w₃, w₄, hgrows, hnow, hblob, hblobs, hcommitted, hregistry,
              hnow'⟩ := hsucceeded
            exact ⟨hparsed, hkept, havailable, w₃, w₄, hgrows, hnow, hblob, hblobs, hcommitted, hregistry,
              hnow'⟩

end MeridianOci.Service
