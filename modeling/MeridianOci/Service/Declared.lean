import MeridianOci.Service.PublishOnce
import MeridianOci.Service.Recovery

/-!
# Declared digests and lengths

The operation of a put, its payload and the payloads of multipart parts may declare a digest
and a length. A payload is compared with what it delivered, before anything is published; a
completion is compared with the declarations of the operation, a single put is not.
-/
namespace MeridianOci.Service

open MeridianOci.Data MeridianOci.Effect MeridianOci.Model

set_option autoImplicit false

variable {P : Platform} {adapter : OciDistributionAdapter}
variable {setting : Setting P adapter.transport.binding}

/-! ## Declarations -/

variable (P) in
/-- The declared digest and length, where there are any, are those of the content. -/
structure Honours (digest : Option String) (length : Option Nat) (content : Bytes) : Prop where
  digest : ∀ declared, digest = some declared → declared = sha256Digest P content
  length : ∀ declared, length = some declared → declared = content.length

theorem honours_iff {digest : Option String} {length : Option Nat} {content : Bytes} :
    Honours P digest length content ↔
      digest.getD (sha256Digest P content) = sha256Digest P content ∧ length.getD content.length = content.length := by
  constructor
  · rintro ⟨hdigest, hlength⟩
    constructor
    · cases digest with
      | none => rfl
      | some declared => exact hdigest declared rfl
    · cases length with
      | none => rfl
      | some declared => exact hlength declared rfl
  · rintro ⟨hdigest, hlength⟩
    refine ⟨?_, ?_⟩
    · rintro declared rfl
      exact hdigest
    · rintro declared rfl
      exact hlength

/-- The identity of a content is verified if the payload declares it so. -/
theorem verifyIdentity_iff {payload : PayloadReference} {content : Bytes} :
    verifyIdentity payload (identityOf P content) = .ok () ↔
      Honours P payload.expectedDigest payload.expectedLength content := by
  rw [honours_iff, verifyIdentity, identityOf]
  by_cases hlength : payload.expectedLength.getD content.length = content.length
  · by_cases hdigest : payload.expectedDigest.getD (sha256Digest P content) = sha256Digest P content
    · simp [hlength, hdigest]
    · simp [hlength, hdigest]
  · simp [hlength]

section Verified

variable {payload : PayloadReference}

theorem abandon_returns {α : Type} (upload : Option UploadLocation) (error : Err) {R : α → Prop} :
    (adapter.abandon P upload error : Action α).Returns R := by
  cases upload with
  | none => trivial
  | some location => exact Prog.returns_bind fun _ => trivial

theorem orAbandon_returns {α : Type} {upload : Option UploadLocation} {action : Action α} {R : α → Prop}
    (h : action.Returns R) : (adapter.orAbandon P upload action).Returns R :=
  h.tryCatch fun error => abandon_returns upload error

/-- An upload returns an identity that its payload has verified. -/
theorem transferTo_returns (existing : Option (OciDescriptor P)) (upload : Option UploadLocation) :
    (adapter.transferTo P payload existing upload).Returns fun identity =>
      verifyIdentity payload identity = .ok () := by
  unfold OciDistributionAdapter.transferTo
  refine Prog.returns_bind fun stream => Prog.returns_bind ?_
  rintro ⟨upload', hashed, length⟩
  cases stream.failure with
  | some failure => exact abandon_returns upload' failure
  | none =>
    have hverified : (adapter.orAbandon P upload'
        (Action.lift (verifyIdentity payload ⟨sha256Digest P hashed, length⟩))).Returns fun _ =>
          verifyIdentity payload ⟨sha256Digest P hashed, length⟩ = .ok () :=
      orAbandon_returns (Prog.returns_ofExcept fun _ h => h)
    refine hverified.bind fun _ h => ?_
    cases existing with
    | some descriptor =>
      dsimp only
      split
      · exact abandon_returns upload' _
      · exact h
    | none =>
      cases upload' with
      | none => trivial
      | some location => exact Prog.returns_bind fun _ => h

theorem uploadPayload_returns :
    (adapter.uploadPayload P payload).Returns fun identity => verifyIdentity payload identity = .ok () := by
  have htransfer : ∀ existing, (adapter.transfer P payload existing).Returns fun identity =>
      verifyIdentity payload identity = .ok () := by
    intro existing
    cases existing with
    | some descriptor => exact transferTo_returns (some descriptor) none
    | none => exact Prog.returns_bind fun upload => transferTo_returns none (some upload)
  have hattempt : ∀ left, (adapter.uploadAttempt P payload left).Returns fun identity =>
      verifyIdentity payload identity = .ok () := by
    intro left
    induction left with
    | zero => trivial
    | succ left ih =>
      rw [uploadAttempt_succ]
      refine Prog.returns_bind fun existing => ?_
      refine (htransfer existing).handle (fun _ h => h) fun error => ?_
      dsimp only [afterTransfer]
      split
      · exact ih
      · trivial
  exact hattempt _

/-- An acknowledged part has the identity that its payload has verified. -/
theorem uploadPart_returns (session : MultipartSession) (partNumber : Nat) :
    (adapter.uploadPart P session partNumber payload).Returns fun part =>
      verifyIdentity payload part.identity = .ok () := by
  have htransfer : ∀ reference, (adapter.transferPart P session reference payload).Returns fun identity =>
      verifyIdentity payload identity = .ok () := by
    intro reference
    refine Prog.returns_bind fun stream => Prog.returns_bind ?_
    rintro ⟨hashed, length⟩
    cases stream.failure with
    | some failure => trivial
    | none =>
      dsimp only
      split
      · trivial
      · have hverified : (Action.lift (verifyIdentity payload ⟨sha256Digest P hashed, length⟩)).Returns fun _ =>
            verifyIdentity payload ⟨sha256Digest P hashed, length⟩ = .ok () := Prog.returns_ofExcept fun _ h => h
        exact hverified.bind fun _ h => h
  unfold OciDistributionAdapter.uploadPart
  refine Prog.returns_bind fun reference => Prog.returns_bind fun state => ?_
  split
  · trivial
  split
  · trivial
  · have hguarded : (tryCatch (adapter.transferPart P session reference payload) fun error => do
        adapter.abortMultipart P session
        throw error).Returns fun identity => verifyIdentity payload identity = .ok () :=
      (htransfer reference).tryCatch fun error => Prog.returns_bind fun _ => Prog.returns_raise error
    exact hguarded.bind fun identity h => Prog.returns_bind fun _ => h

end Verified

/-! ## Version tags -/

/-- No version tag and no latest tag differs. -/
structure SameVersions {policy : Policy P adapter.transport.binding} (registry registry' : Registry policy) :
    Prop where
  exact : ∀ objectId digest, registry'.tagged (versionName P objectId digest) =
    registry.tagged (versionName P objectId digest)
  latest : ∀ objectId, registry'.tagged (latestName P objectId) = registry.tagged (latestName P objectId)

section Tags

variable {policy : Policy P adapter.transport.binding} {registry registry' : Registry policy}

/-- In intact repositories the live and the latest versions determine their tags. -/
theorem Intact.tagged_of_catalog (hintact : Intact registry)
    (hcatalog : catalogOf registry' = catalogOf registry) {tag : String} {body : Bytes}
    (hanchor : ∀ objectId, tag ≠ anchorName P objectId) (h : registry.tagged tag = some body) :
    registry'.tagged tag = some body := by
  cases hintact.tags tag body h with
  | anchor objectId hbody => exact absurd rfl (hanchor objectId)
  | exact stored hpublished =>
    have hlive : stored ∈ (catalogOf registry').live := by
      rw [hcatalog]
      exact ⟨body, hpublished, h⟩
    obtain ⟨body', hpublished', htagged⟩ := hlive
    rw [hpublished.unique hpublished']
    exact htagged
  | latest stored hpublished hexact =>
    have hlatest : stored ∈ (catalogOf registry').latest := by
      rw [hcatalog]
      exact ⟨body, hpublished, h⟩
    obtain ⟨body', hpublished', htagged⟩ := hlatest
    rw [hpublished.unique hpublished']
    exact htagged

theorem SameVersions.of_catalog (hintact : Intact registry) (hintact' : Intact registry')
    (hcatalog : catalogOf registry' = catalogOf registry) : SameVersions registry registry' := by
  have hsame : ∀ tag, (∀ objectId, tag ≠ anchorName P objectId) →
      registry'.tagged tag = registry.tagged tag := by
    intro tag hanchor
    refine Option.ext fun body => ⟨?_, ?_⟩
    · exact hintact'.tagged_of_catalog hcatalog.symm hanchor
    · exact hintact.tagged_of_catalog hcatalog hanchor
  constructor
  · exact fun objectId digest => hsame _ fun other => (anchorName_ne_versionName other objectId digest).symm
  · exact fun objectId => hsame _ fun other => (anchorName_ne_latestName other objectId).symm

end Tags

/-! ## Puts -/

/-- A put that changed the catalog has published what its payload delivered as declared. -/
theorem put_declared_ensures (laws : P.Lawful) (w : World setting.policy) (hintact : Intact w.registry)
    (value : PutInput) :
    (adapter.put P value).Ensures setting.env World.Change w fun outcome w' =>
      ((∃ error, outcome = .error error) ∧ catalogOf w'.registry = catalogOf w.registry) ∨
        ∃ payload content, payloadOf P value = .ok payload ∧ Delivers setting payload content ∧
          Honours P payload.expectedDigest payload.expectedLength content ∧
          ∀ result, outcome = .ok result → ∃ metadata, result = .put metadata ∧
            metadata.digest = sha256Digest P content := by
  have hquiet := quiet_change laws setting
  unfold OciDistributionAdapter.put
  cases hpayload : payloadOf P value with
  | error error => exact .inl ⟨⟨_, rfl⟩, rfl⟩
  | ok payload =>
    cases himmutability : immutabilityOf P value with
    | error error => exact .inl ⟨⟨_, rfl⟩, rfl⟩
    | ok immutability =>
      cases hretention : retentionOf P value with
      | error error => exact .inl ⟨⟨_, rfl⟩, rfl⟩
      | ok retention =>
        simp only [Action.lift_ok, Prog.ret_bind]
        refine locked_ensures hquiet.refl ?_
        refine (requireCreateAvailable_ensures laws w value.objectId immutability _).bind ?_
          fun error w' h => .inl ⟨⟨_, rfl⟩, by rw [h.1]⟩
        rintro _ w ⟨rfl, -⟩
        simp only [laws.transition_uploading, Action.lift_ok, Prog.ret_bind]
        refine (failing_ensures .uploading false (uploadPayload_returns.and_ensures
          (uploadPayload_ensures laws hquiet w payload))).bind ?_ ?_
        · rintro _ w₁ ⟨⟨content, hdelivers, rfl, hblob, hsilent, -⟩, hverified⟩
          have hintact₁ : Intact w₁.registry := (Move.quiet _ _ hsilent.registry).intact laws hintact
          have hhonours := verifyIdentity_iff.mp (hverified _ rfl)
          simp only [laws.transition_verifying]
          refine (failing_ensures .verifying true (commitObject_ensures laws w₁ hintact₁ value hblob
            (immutabilityOf_valid himmutability) (retentionOf_valid hretention) _)).bind ?_ ?_
          · rintro metadata w₂ ⟨-, hcommitted⟩
            simp only [laws.transition_committed]
            obtain ⟨-, -, -, hdigest, -⟩ := hcommitted.advances laws hintact₁
            refine .inr ⟨payload, content, rfl, hdelivers, hhonours, fun result h => ⟨metadata, ?_, hdigest⟩⟩
            exact (Except.ok.inj h).symm
          · rintro error w₂ -
            exact .inr ⟨payload, content, rfl, hdelivers, hhonours, fun result h => by cases h⟩
        · rintro error w₁ ⟨_, ⟨⟨hsilent, -⟩, -⟩, -⟩
          exact .inl ⟨⟨_, rfl⟩, catalogOf_grows hsilent.registry⟩

theorem execute_declared_ensures (laws : P.Lawful) (w : World setting.policy) (hintact : Intact w.registry)
    {operation : Operation} {value : PutInput} (hinput : operation.input = .put value) :
    (adapter.execute P operation).Ensures setting.env World.Change w fun outcome w' =>
      ((∃ error, outcome = .error error) ∧ catalogOf w'.registry = catalogOf w.registry) ∨
        ∃ payload content, payloadOf P value = .ok payload ∧ Delivers setting payload content ∧
          Honours P payload.expectedDigest payload.expectedLength content ∧
          ∀ result, outcome = .ok result → ∃ metadata, result = .put metadata ∧
            metadata.digest = sha256Digest P content := by
  unfold OciDistributionAdapter.execute
  cases adapter.validateOperation operation with
  | error error => exact .inl ⟨⟨_, rfl⟩, rfl⟩
  | ok method =>
    simp only [Action.lift_ok, Prog.ret_bind]
    cases P.requireObjectCapabilities adapter.binding operation.requirements with
    | error error => exact .inl ⟨⟨_, rfl⟩, rfl⟩
    | ok _ =>
      simp only [Action.lift_ok, Prog.ret_bind, hinput]
      split
      · exact put_declared_ensures laws w hintact value
      · exact .inl ⟨⟨_, rfl⟩, rfl⟩

/-! ## Runs -/

/-- A call that raised without touching a version tag or a latest tag. -/
structure Unpublished (event : Event Call Err Answer (World setting.policy)) : Prop where
  raised : ∃ error, event.outcome = .error error
  versions : SameVersions event.before.registry event.after.registry

variable (P) in
/-- Every declaration of an operation is also made by its payload, or true of the content. -/
structure Repeated (value : PutInput) (payload : PayloadReference) (content : Bytes) : Prop where
  digest : ∀ declared, value.expectedDigest = some declared →
    payload.expectedDigest = some declared ∨ declared = sha256Digest P content
  length : ∀ declared, value.expectedLength = some declared →
    payload.expectedLength = some declared ∨ declared = content.length

/-- For what a payload delivered as declared, the operation's declarations are true if they are
repeated. -/
theorem Honours.iff_repeated {value : PutInput} {payload : PayloadReference} {content : Bytes}
    (h : Honours P payload.expectedDigest payload.expectedLength content) :
    Honours P value.expectedDigest value.expectedLength content ↔ Repeated P value payload content := by
  constructor
  · intro hvalue
    exact ⟨fun declared hdeclared => .inr (hvalue.digest declared hdeclared),
      fun declared hdeclared => .inr (hvalue.length declared hdeclared)⟩
  · intro hrepeated
    constructor
    · intro declared hdeclared
      rcases hrepeated.digest declared hdeclared with hpayload | htrue
      · exact h.digest declared hpayload
      · exact htrue
    · intro declared hdeclared
      rcases hrepeated.length declared hdeclared with hpayload | htrue
      · exact h.length declared hpayload
      · exact htrue

/-- A session that is not live stays so until it is begun. -/
theorem call_lookup_ensures (laws : P.Lawful) (w : World setting.policy) (hintact : Intact w.registry)
    (hsound : SoundMemory w.memory) (call : Call) :
    (call.program P adapter).Ensures setting.env World.Change w fun outcome w' =>
      ∀ sessionId, w.memory.lookup sessionId = none → w'.memory.lookup sessionId = none ∨
        ∃ session, outcome = .ok (.session session) ∧ session.sessionId = sessionId := by
  have hclosed : ∀ {other sessionId : String} {w' : World setting.policy}, Closed other w.memory w'.memory →
      w.memory.lookup sessionId = none → w'.memory.lookup sessionId = none := by
    intro other sessionId w' h hnone
    rw [h.lookup, hnone, ite_self]
  cases call with
  | execute operation =>
    refine (execute_ensures laws w hintact hsound operation).bind ?_ ?_
    · rintro result w' ⟨hmemory, -⟩ sessionId hnone
      exact .inl (hmemory ▸ hnone)
    · rintro error w' ⟨hmemory, -⟩ sessionId hnone
      exact .inl (hmemory ▸ hnone)
  | beginMultipart operation =>
    refine (beginMultipart_ensures laws w operation).bind ?_ ?_
    · rintro session w' ⟨-, value, immutability, upload, -, -, -, -, hmemory, -⟩ sessionId hnone
      by_cases heq : session.sessionId = sessionId
      · exact .inr ⟨session, rfl, heq⟩
      · left
        rw [hmemory, lookup_insert_ne _ (Ne.symm heq), hnone]
    · rintro error w' ⟨-, hmemory⟩ sessionId hnone
      exact .inl (hmemory ▸ hnone)
  | uploadPart session partNumber payload =>
    refine (uploadPart_ensures laws w session partNumber payload).bind ?_ ?_
    · rintro part w' ⟨reference, state, bytes, w₁, state₁, -, -, -, -, -, -, -, -, -, -, rfl⟩ sessionId hnone
      left
      rw [lookup_modify, hnone]
    · rintro error w' (⟨-, rfl⟩ | ⟨-, habandoned⟩) sessionId hnone
      · exact .inl hnone
      · exact .inl (hclosed habandoned.memory hnone)
  | completeMultipart session parts =>
    refine (completeMultipart_ensures laws w hintact hsound session parts).bind ?_ ?_
    · rintro metadata w' ⟨-, reference, state, immutability, retention, -, -, -, -, -, -, h⟩ sessionId hnone
      exact .inl (hclosed h hnone)
    · rintro error w' ⟨-, rfl | ⟨reference, state, -, -, h, -⟩⟩ sessionId hnone
      · exact .inl hnone
      · exact .inl (hclosed h hnone)
  | abortMultipart session =>
    refine (abortMultipart_ensures laws w session).bind ?_ ?_
    · rintro _ w' habandoned sessionId hnone
      exact .inl (hclosed habandoned.memory hnone)
    · rintro error w' habandoned sessionId hnone
      exact .inl (hclosed habandoned.memory hnone)

/-- What a finished call has made of the declarations it met. -/
structure Accountable (event : Event Call Err Answer (World setting.policy)) : Prop where
  put : ∀ operation value, event.call = .execute operation → operation.input = .put value →
    Unpublished event ∨ ∃ payload content, payloadOf P value = .ok payload ∧ Delivers setting payload content ∧
      Honours P payload.expectedDigest payload.expectedLength content ∧
      ∀ answer, event.outcome = .ok answer → ∃ metadata, answer = .result (.put metadata) ∧
        metadata.digest = sha256Digest P content
  completion : ∀ session parts, event.call = .completeMultipart session parts →
    Unpublished event ∨ ∃ reference state, Live event.before.memory session.sessionId reference state ∧
      Honours P state.input.expectedDigest state.input.expectedLength state.hashed ∧
      ∀ answer, event.outcome = .ok answer → ∃ metadata, answer = .metadata metadata ∧
        metadata.digest = sha256Digest P state.hashed
  part : ∀ session partNumber payload, event.call = .uploadPart session partNumber payload →
    ((∃ error, event.outcome = .error error) ∧ event.after = event.before) ∨
      event.after.memory.lookup session.sessionId = none ∨ ∃ acknowledged bytes,
        event.outcome = .ok (.part acknowledged) ∧ PartContent setting session payload bytes ∧
        acknowledged.identity = identityOf P bytes ∧
        Honours P payload.expectedDigest payload.expectedLength bytes
  absent : ∀ sessionId, event.before.memory.lookup sessionId = none →
    event.after.memory.lookup sessionId = none ∨
      ∃ session, event.outcome = .ok (.session session) ∧ session.sessionId = sessionId

section Calls

variable (laws : P.Lawful) (w : World setting.policy) (hintact : Intact w.registry)
include laws hintact

/-- The repository is intact before and after a call that keeps it so. -/
theorem intact_after {α : Type} {program : Action α} {Q : Except Err α → World setting.policy → Prop}
    (h : program.Ensures setting.env World.Change w Q) :
    program.Ensures setting.env World.Change w fun outcome w' => Q outcome w' ∧ Intact w'.registry :=
  (h.invariant (fun _ _ hs hmove => Move.intact laws hmove hs) hintact).weaken (fun _ _ _ _ h => h)
    (fun _ _ hg => hg.1) fun _ _ h => h

/-- An operation with a put input, as a call. -/
theorem call_put_ensures {operation : Operation} {value : PutInput} (hinput : operation.input = .put value) :
    (Call.program P adapter (.execute operation)).Ensures setting.env World.Change w fun outcome w' =>
      ((∃ error, outcome = .error error) ∧ SameVersions w.registry w'.registry) ∨
        ∃ payload content, payloadOf P value = .ok payload ∧ Delivers setting payload content ∧
          Honours P payload.expectedDigest payload.expectedLength content ∧
          ∀ answer, outcome = .ok answer → ∃ metadata, answer = .result (.put metadata) ∧
            metadata.digest = sha256Digest P content := by
  refine (intact_after laws w hintact (execute_declared_ensures laws w hintact hinput)).bind ?_ ?_
  · rintro result w' ⟨⟨⟨error, heq⟩, -⟩ | ⟨payload, content, hpayload, hdelivers, hhonours, hresult⟩, hintact'⟩
    · cases heq
    · obtain ⟨metadata, rfl, hdigest⟩ := hresult result rfl
      exact .inr ⟨payload, content, hpayload, hdelivers, hhonours, fun answer h =>
        ⟨metadata, (Except.ok.inj h).symm, hdigest⟩⟩
  · rintro error w' ⟨⟨-, hcatalog⟩ | ⟨payload, content, hpayload, hdelivers, hhonours, -⟩, hintact'⟩
    · exact .inl ⟨⟨error, rfl⟩, .of_catalog hintact hintact' hcatalog⟩
    · exact .inr ⟨payload, content, hpayload, hdelivers, hhonours, fun answer h => by cases h⟩

theorem call_completion_ensures (hsound : SoundMemory w.memory) (session : MultipartSession)
    (parts : List MultipartPart) :
    (Call.program P adapter (.completeMultipart session parts)).Ensures setting.env World.Change w
      fun outcome w' => ((∃ error, outcome = .error error) ∧ SameVersions w.registry w'.registry) ∨
        ∃ reference state, Live w.memory session.sessionId reference state ∧
          Honours P state.input.expectedDigest state.input.expectedLength state.hashed ∧
          ∀ answer, outcome = .ok answer → ∃ metadata, answer = .metadata metadata ∧
            metadata.digest = sha256Digest P state.hashed := by
  refine (intact_after laws w hintact (completeMultipart_ensures laws w hintact hsound session parts)).bind
    ?_ ?_
  · rintro metadata w' ⟨⟨-, reference, state, immutability, retention, hlive, -, hdigest, hlength, hsucceeded, -⟩,
      -⟩
    obtain ⟨-, -, -, hcontent, -⟩ := hsucceeded.advances laws hintact
    exact .inr ⟨reference, state, hlive, honours_iff.mpr ⟨hdigest, hlength⟩, fun answer h =>
      ⟨metadata, (Except.ok.inj h).symm, hcontent⟩⟩
  · rintro error w' ⟨⟨-, h⟩, hintact'⟩
    have hraised : ∃ raised : Err, (.error error : Except Err Answer) = .error raised := ⟨error, rfl⟩
    rcases h with rfl | ⟨reference, state, hlive, -, -, hcatalog | hdeclared⟩
    · exact .inl ⟨hraised, .of_catalog hintact hintact rfl⟩
    · exact .inl ⟨hraised, .of_catalog hintact hintact' hcatalog⟩
    · exact .inr ⟨reference, state, hlive, honours_iff.mpr hdeclared, fun answer h => by cases h⟩

omit hintact in
theorem call_part_ensures (session : MultipartSession) (partNumber : Nat) (payload : PayloadReference) :
    (Call.program P adapter (.uploadPart session partNumber payload)).Ensures setting.env World.Change w
      fun outcome w' => ((∃ error, outcome = .error error) ∧ w' = w) ∨
        w'.memory.lookup session.sessionId = none ∨ ∃ acknowledged bytes, outcome = .ok (.part acknowledged) ∧
          PartContent setting session payload bytes ∧ acknowledged.identity = identityOf P bytes ∧
          Honours P payload.expectedDigest payload.expectedLength bytes := by
  refine ((uploadPart_returns session partNumber).and_ensures
    (uploadPart_ensures laws w session partNumber payload)).bind ?_ ?_
  · rintro part w' ⟨⟨reference, state, bytes, w₁, state₁, -, -, -, hcontent, -, -, hidentity, -⟩, hverified⟩
    have hpart := hverified part rfl
    rw [hidentity] at hpart
    exact .inr (.inr ⟨part, bytes, rfl, hcontent, hidentity, verifyIdentity_iff.mp hpart⟩)
  · rintro error w' ⟨⟨-, heq⟩ | ⟨-, habandoned⟩, -⟩
    · exact .inl ⟨⟨error, rfl⟩, heq⟩
    · right
      left
      rw [habandoned.memory.lookup, if_pos rfl]

/-- Every call is accountable. -/
theorem accountable_ensures (hsound : SoundMemory w.memory) (call : Call) :
    (call.program P adapter).Ensures setting.env World.Change w fun outcome w' =>
      Accountable ⟨call, outcome, w, w'⟩ := by
  have habsent := @call_lookup_ensures P adapter setting laws w hintact hsound call
  cases call with
  | execute operation =>
    cases hinput : operation.input with
    | put value =>
      refine ((call_put_ensures laws w hintact hinput).and habsent).weaken (fun _ _ _ _ h => h)
        (fun _ _ hg => hg.1) ?_
      rintro outcome w' ⟨hput, habsent⟩
      refine ⟨?_, (fun _ _ h => by cases h), (fun _ _ _ h => by cases h), habsent⟩
      rintro operation' value' ⟨⟩ hinput'
      obtain rfl := OperationInput.put.inj (hinput.symm.trans hinput')
      exact hput.imp_left fun h => ⟨h.1, h.2⟩
    | _ =>
      refine habsent.mono fun outcome w' habsent =>
        ⟨?_, (fun _ _ h => by cases h), (fun _ _ _ h => by cases h), habsent⟩
      rintro operation' value' ⟨⟩ hinput'
      cases hinput.symm.trans hinput'
  | beginMultipart operation =>
    exact habsent.mono fun outcome w' habsent =>
      ⟨(fun _ _ h => by cases h), (fun _ _ h => by cases h), (fun _ _ _ h => by cases h), habsent⟩
  | uploadPart session partNumber payload =>
    refine ((call_part_ensures laws w session partNumber payload).and habsent).weaken (fun _ _ _ _ h => h)
      (fun _ _ hg => hg.1) ?_
    rintro outcome w' ⟨hpart, habsent⟩
    refine ⟨(fun _ _ h => by cases h), (fun _ _ h => by cases h), ?_, habsent⟩
    rintro session' partNumber' payload' ⟨⟩
    exact hpart
  | completeMultipart session parts =>
    refine ((call_completion_ensures laws w hintact hsound session parts).and habsent).weaken
      (fun _ _ _ _ h => h) (fun _ _ hg => hg.1) ?_
    rintro outcome w' ⟨hcompletion, habsent⟩
    refine ⟨(fun _ _ h => by cases h), ?_, (fun _ _ _ h => by cases h), habsent⟩
    rintro session' parts' ⟨⟩
    exact hcompletion.imp_left fun h => ⟨h.1, h.2⟩
  | abortMultipart session =>
    exact habsent.mono fun outcome w' habsent =>
      ⟨(fun _ _ h => by cases h), (fun _ _ h => by cases h), (fun _ _ _ h => by cases h), habsent⟩

end Calls

/-- While a session is not begun again, it stays closed over a part of a log. -/
theorem Log.closed {first w : World setting.policy} {sessionId : String}
    {history : List (Event Call Err Answer (World setting.policy))} (h : Log setting first history w)
    (haccountable : ∀ event ∈ history, Accountable event)
    (hbegun : ∀ event ∈ history, ∀ session, event.outcome = .ok (.session session) →
      session.sessionId ≠ sessionId) (hnone : first.memory.lookup sessionId = none) :
    w.memory.lookup sessionId = none := by
  induction h with
  | nil => exact hnone
  | snoc history event _ _ ih =>
    have hmem : event ∈ history ++ [event] := List.mem_append_right _ List.mem_cons_self
    have hbefore := ih (fun other hother => haccountable other (List.mem_append_left _ hother))
      fun other hother => hbegun other (List.mem_append_left _ hother)
    rcases (haccountable event hmem).absent sessionId hbefore with hafter | ⟨session, houtcome, hid⟩
    · exact hafter
    · exact absurd hid (hbegun event hmem session houtcome)

/-- In every run, what a put or a completion publishes is as its payloads and, for a completion,
as its operation declare it; for a put the operation's declarations are true exactly if they are
repeated by the payload or true of what it delivers. -/
theorem declarations_honoured (laws : P.Lawful) {now : DateTime}
    {config : Config Op Op.Res Err Answer (World setting.policy) Call} (hrun : Runs setting now config) :
    (∀ event ∈ config.history, ∀ operation value, event.call = .execute operation →
      operation.input = .put value → Unpublished event ∨ ∃ payload content, payloadOf P value = .ok payload ∧
        Delivers setting payload content ∧
        (∀ answer, event.outcome = .ok answer → ∃ metadata, answer = .result (.put metadata) ∧
          metadata.digest = sha256Digest P content) ∧
        Honours P payload.expectedDigest payload.expectedLength content ∧
        (Honours P value.expectedDigest value.expectedLength content ↔ Repeated P value payload content)) ∧
    (∀ event ∈ config.history, ∀ session parts, event.call = .completeMultipart session parts →
      Unpublished event ∨ ∃ reference state, Live event.before.memory session.sessionId reference state ∧
        (∀ answer, event.outcome = .ok answer → ∃ metadata, answer = .metadata metadata ∧
          metadata.digest = sha256Digest P state.hashed) ∧
        Honours P state.input.expectedDigest state.input.expectedLength state.hashed) ∧
    (∀ front part between completion rest session partNumber payload session' parts,
      config.history = front ++ part :: (between ++ completion :: rest) →
      part.call = .uploadPart session partNumber payload → completion.call = .completeMultipart session' parts →
      session'.sessionId = session.sessionId →
      (∀ event ∈ between, ∀ begun, event.outcome = .ok (.session begun) → begun.sessionId ≠ session.sessionId) →
      Unpublished completion ∨ ((∃ error, part.outcome = .error error) ∧ part.after = part.before) ∨
        ∃ acknowledged bytes, part.outcome = .ok (.part acknowledged) ∧
          PartContent setting session payload bytes ∧ acknowledged.identity = identityOf P bytes ∧
          Honours P payload.expectedDigest payload.expectedLength bytes) ∧
    ∀ value payload content immutability retention,
      ValidPut setting.faultless value config.state payload content immutability retention →
      ∀ outcome w', Performs setting.faultless.env (adapter.put P value) config.state outcome w' →
        (((∃ result, outcome = .ok result) → Honours P value.expectedDigest value.expectedLength content) ↔
          Repeated P value payload content) := by
  have hevery : ∀ event ∈ config.history, Accountable event :=
    hrun.every laws fun w call hintact hsound => accountable_ensures laws w hintact hsound call
  refine ⟨?_, ?_, ?_, ?_⟩
  · intro event hevent operation value hcall hinput
    refine ((hevery event hevent).put operation value hcall hinput).imp_right ?_
    rintro ⟨payload, content, hpayload, hdelivers, hhonours, hanswer⟩
    exact ⟨payload, content, hpayload, hdelivers, hanswer, hhonours, hhonours.iff_repeated⟩
  · intro event hevent session parts hcall
    refine ((hevery event hevent).completion session parts hcall).imp_right ?_
    rintro ⟨reference, state, hlive, hhonours, hanswer⟩
    exact ⟨reference, state, hlive, hanswer, hhonours⟩
  · intro front part between completion rest session partNumber payload session' parts hhistory hpart
      hcompletion hid hbegun
    have hmem : ∀ event ∈ part :: (between ++ completion :: rest), event ∈ config.history := by
      intro event hevent
      rw [hhistory]
      exact List.mem_append_right _ hevent
    have hcompletionMem : completion ∈ part :: (between ++ completion :: rest) :=
      List.mem_cons_of_mem _ (List.mem_append_right _ List.mem_cons_self)
    rcases (hevery part (hmem part List.mem_cons_self)).part session partNumber payload hpart with
      hsame | hclosed | hpublished
    · exact .inr (.inl hsame)
    · left
      obtain ⟨w, hlog, -⟩ := hrun.log laws
      rw [hhistory] at hlog
      obtain ⟨-, -, hrest⟩ := hlog.split
      obtain ⟨hbetween, -, -⟩ := hrest.split
      have hnone := hbetween.closed (fun event hevent => hevery event (hmem event
        (List.mem_cons_of_mem _ (List.mem_append_left _ hevent)))) hbegun hclosed
      rcases (hevery completion (hmem completion hcompletionMem)).completion session' parts hcompletion with
        hunpublished | ⟨reference, state, hlive, -⟩
      · exact hunpublished
      · rw [← hid, hlive.entry] at hnone
        cases hnone
    · exact .inr (.inr hpublished)
  · intro value payload content immutability retention hvalid outcome w' hperforms
    have hput := hperforms.ensures (@put_valid_ensures _ _ setting.faultless laws _ (hrun.intact laws) id _ _ _ _ _
      hvalid)
    obtain ⟨-, metadata, rfl, -⟩ := hput
    rw [← (honours_iff.mpr ⟨hvalid.deliverable.digest, hvalid.deliverable.length⟩ :
      Honours P payload.expectedDigest payload.expectedLength content).iff_repeated]
    exact ⟨fun h => h ⟨_, rfl⟩, fun h _ => h⟩

namespace Sample

open MeridianOci.Model.Sample

/-- A plain put whose operation declares a digest and a length. -/
def declaring (put : Plain) (digest : String) (length : Nat) : PutInput :=
  { put.input with expectedDigest := some digest, expectedLength := some length }

def declaringOperation (put : Plain) (digest : String) (length : Nat) : Operation :=
  { put.operation with input := .put (declaring put digest length) }

theorem accepted_declaring {limit : Nat} {put : Plain} {digest : String} {length : Nat} :
    Accepted platform (Sample.adapter limit) (declaringOperation put digest length) "put" :=
  ⟨(@accepted_put limit put).validated, rfl⟩

/-- Whatever the operation declares, the first put of a run succeeds. -/
theorem run_declaring {limit : Nat} {put : Plain} (hfits : put.Fits limit) (digest : String) (length : Nat) :
    ∃ (w : World (Sample.setting limit False).policy) (metadata : ObjectMetadata),
      Runs (Sample.setting limit False) (.aware 0) ⟨w, .idle,
        [⟨.execute (declaringOperation put digest length), .ok (.result (.put metadata)),
          World.empty _ (.aware 0), w⟩]⟩ ∧ metadata.digest = sha256Digest platform put.content := by
  have hvalid : ValidPut (Sample.setting limit False) (declaring put digest length)
      (World.empty _ (.aware 0)) ⟨put.text, true, none, none⟩ put.content put.immutabilityRequest
      put.retention := by
    refine ⟨@payloadOf_input put, @immutabilityOf_input put, @retentionOf_input put,
      deliverable hfits.content, fun _ => empty_tagged _ _, ?_,
      fun _ => ⟨hfits.anchor, (@acceptable limit False put hfits (.aware 0)).mediaType,
        (@acceptable limit False put hfits (.aware 0)).metadata⟩⟩
    rintro ⟨stored, body, -, htagged, -⟩
    rw [empty_tagged] at htagged
    cases htagged
  obtain ⟨w, metadata, hrun, hsucceeded⟩ := run_put lawful intact_empty id (responsive limit False) .refl
    (@accepted_declaring limit put digest length) rfl hvalid
  obtain ⟨-, -, -, hdigest, -⟩ := hsucceeded.advances lawful intact_empty
  exact ⟨w, metadata, hrun, hdigest⟩

/-- A put whose operation declares what its payload delivers. -/
theorem declarations_honoured_first : ∃ limit, ∃ (w : World (Sample.setting limit False).policy)
    (metadata : ObjectMetadata) (payload : PayloadReference) (content : Bytes),
    Runs (Sample.setting limit False) (.aware 0) ⟨w, .idle,
      [⟨.execute (declaringOperation { objectId := "a", text := "x" } (sha256Digest platform (utf8 ['x'])) 1),
        .ok (.result (.put metadata)), World.empty _ (.aware 0), w⟩]⟩ ∧
    Delivers (Sample.setting limit False) payload content ∧ metadata.digest = sha256Digest platform content ∧
    Honours platform (some (sha256Digest platform (utf8 ['x']))) (some 1) content := by
  obtain ⟨limit, hfits⟩ := Plain.exists_fits { objectId := "a", text := "x" } (by decide)
  obtain ⟨w, metadata, hrun, -⟩ := run_declaring hfits (sha256Digest platform (utf8 ['x'])) 1
  have hhonoured := @declarations_honoured _ _ _ lawful _ _ hrun
  rcases hhonoured.1 _ List.mem_cons_self _ _ rfl rfl with hunpublished | h
  · obtain ⟨error, heq⟩ := hunpublished.raised
    cases heq
  · obtain ⟨payload, content, hpayload, hdelivers, hanswer, -, hiff⟩ := h
    obtain ⟨metadata', heq, hdigest⟩ := hanswer _ rfl
    cases heq
    obtain rfl := Except.ok.inj ((@payloadOf_input { objectId := "a", text := "x" }).symm.trans hpayload)
    have hcontent := (@deliverable limit False { objectId := "a", text := "x" } hfits.content).unique hdelivers
    refine ⟨limit, w, metadata, _, content, hrun, hdelivers, hdigest, hiff.mpr ⟨?_, ?_⟩⟩
    · rintro declared ⟨⟩
      rw [hcontent]
      exact .inr rfl
    · rintro declared ⟨⟩
      rw [hcontent]
      exact .inr (by decide)

/-- A put succeeds although its operation declares another digest and another length. -/
theorem declaration_ignored : ∃ limit, ∃ (w : World (Sample.setting limit False).policy)
    (metadata : ObjectMetadata),
    Runs (Sample.setting limit False) (.aware 0) ⟨w, .idle,
      [⟨.execute (declaringOperation { objectId := "a", text := "x" } (sha256Digest platform (utf8 ['y'])) 7),
        .ok (.result (.put metadata)), World.empty _ (.aware 0), w⟩]⟩ ∧
    metadata.digest = sha256Digest platform (utf8 ['x']) ∧ (utf8 ['x']).length ≠ 7 ∧
    metadata.digest ≠ sha256Digest platform (utf8 ['y']) := by
  obtain ⟨limit, hfits⟩ := Plain.exists_fits { objectId := "a", text := "x" } (by decide)
  obtain ⟨w, metadata, hrun, hdigest⟩ := run_declaring hfits (sha256Digest platform (utf8 ['y'])) 7
  refine ⟨limit, w, metadata, hrun, hdigest, by decide, ?_⟩
  rw [hdigest]
  exact @digest_ne { objectId := "a", text := "x" } { objectId := "a", text := "y" } (by decide)

end Sample

end MeridianOci.Service
