import Mathlib.Data.List.Induction
import MeridianOci.Service.Frames

/-!
# Runs of one adapter

What every call does to the catalog of the repository, and the rule that turns a fact
about calls into a fact about every run. A lookup is the code's own resolution of a
reference, over the registry of one world.
-/
namespace MeridianOci.Service

open MeridianOci.Data MeridianOci.Effect MeridianOci.Model

set_option autoImplicit false

variable {P : Platform} {adapter : OciDistributionAdapter}

/-! ## Lookups -/

section Lookup

variable {policy : Policy P adapter.transport.binding}

/-- The registry's answers, for programs that only send requests. -/
def World.answer : (op : Op) → World policy → Except Err op.Res × World policy
  | .send request, w => (.ok (deliver policy request (w.reply request)), w.apply request)
  | .openPayload _ _, w => (.error { kind := .other }, w)
  | .register _ _ _, w => (.error { kind := .other }, w)
  | .authorize, w => (.ok (), w)
  | .clock, w => (.error { kind := .other }, w)
  | .token, w => (.error { kind := .other }, w)
  | .acquire, w => (.ok (), w)
  | .release, w => (.ok (), w)
  | .memory update, w => (.ok w.memory, { w with memory := update w.memory })

/-- What `_stored_for_reference` makes of a reference in a world. -/
def World.lookup (w : World policy) (reference : ObjectReference) : Except Err (ResolvedObject P) :=
  ((adapter.storedForReference P reference).run World.answer w).1

/-- Without faults a request is sent once. -/
theorem request_run (laws : P.Lawful) (w : World policy) {request : Request} (hbuild : request.target.build P = .ok ()) (expected : List Nat) (retry : Bool)
    (maximumBytes : Nat) : (adapter.transport.request P request expected retry maximumBytes).run World.answer w =
      (verdict P expected maximumBytes (w.reply request), w.apply request) := by
  obtain ⟨left, hleft⟩ : ∃ left, (if retry then adapter.transport.maxReadAttempts else 1) = left + 1 :=
    Nat.exists_eq_succ_of_ne_zero (by
      have hpos := adapter.transport.maxReadAttempts_pos
      split <;> omega)
  rw [request_attempt hbuild, hleft, RegistryHttpClient.attempt, Prog.run]
  simp only [World.answer]
  rw [judge_deliver laws policy (w.plain_reply request)]
  cases verdict P expected maximumBytes (w.reply request) <;> rfl

theorem reading_answer : Reading (Environment.ofFunction World.answer) (Eq : World policy → _) False where
  refl _ := rfl
  trans _ _ _ := Eq.trans
  send request w answer w' hread h := by
    obtain ⟨rfl, rfl⟩ := Prod.mk.inj h
    exact ⟨(hread w).symm, .inl (by rw [hread w])⟩

variable (laws : P.Lawful) {w : World policy} (hintact : Intact w.registry) {reference : ObjectReference}

include laws hintact

/-- A lookup finds what the reference is tagged with. -/
theorem lookup_ok {resolved : ResolvedObject P} :
    w.lookup reference = .ok resolved ↔ Found w.registry reference resolved := by
  have hrun := (storedForReference_ensures laws reading_answer (G := Eq) (fun _ _ h => h)
    (by rintro a _ rfl; exact .refl) w hintact reference).run
  change w = _ ∧ _ at hrun
  obtain ⟨-, hrun⟩ := hrun
  have hresult : w.lookup reference = ((adapter.storedForReference P reference).run World.answer w).1 := rfl
  rw [← hresult] at hrun
  constructor
  · intro h
    rw [h] at hrun
    obtain ⟨_, rfl, hfound, -⟩ := hrun
    exact hfound
  · intro hfound
    cases h : w.lookup reference with
    | ok other =>
      rw [h] at hrun
      obtain ⟨_, rfl, hother, -⟩ := hrun
      rw [hother.unique laws hfound]
    | error error =>
      rw [h] at hrun
      rcases hrun with hfalse | ⟨digest, hsome, herror⟩ | ⟨-, _, rfl, hnone⟩
      · exact hfalse.elim
      · obtain ⟨content, hcontent, -⟩ := hfound.published.content
        rw [← hfound.digest digest hsome, hcontent, versionTag_eq laws] at herror
        cases herror
      · exact absurd hfound (hnone resolved)

/-- What remains of a failed lookup: nothing is found, or the digest has no tag. -/
theorem lookup_error {error : Err} (h : w.lookup reference = .error error) :
    (∀ resolved, ¬Found w.registry reference resolved) ∧ (error.kind = .objectNotFound ∨
      ∃ digest, reference.digest = some digest ∧ versionTag P reference.objectId digest = .error error) := by
  have hnone : ∀ resolved, ¬Found w.registry reference resolved := by
    intro resolved hfound
    rw [(lookup_ok laws hintact).mpr hfound] at h
    cases h
  have hrun := (storedForReference_ensures laws reading_answer (G := Eq) (fun _ _ h => h)
    (by rintro a _ rfl; exact .refl) w hintact reference).run
  have hresult : w.lookup reference = ((adapter.storedForReference P reference).run World.answer w).1 := rfl
  rw [← hresult, h] at hrun
  obtain ⟨-, hfalse | hdigest | ⟨hkind, -⟩⟩ := hrun
  · exact hfalse.elim
  · exact ⟨hnone, .inr hdigest⟩
  · exact ⟨hnone, .inl hkind⟩

end Lookup

variable (adapter) in
/-- The exact reference of a version. -/
def exactReference (objectId digest : String) : ObjectReference :=
  ⟨adapter.semanticResource, objectId, some digest⟩

variable (adapter) in
/-- The reference of an object id without a digest. -/
def latestReference (objectId : String) : ObjectReference := ⟨adapter.semanticResource, objectId, none⟩

section Resolution

variable {policy : Policy P adapter.transport.binding}
variable (laws : P.Lawful) {w : World policy} (hintact : Intact w.registry) {stored : StoredObject}

include laws hintact

/-- The live entries of the catalog are the versions that exact lookups resolve. -/
theorem mem_live_iff : stored ∈ (catalogOf w.registry).live ↔ ∃ resolved,
    w.lookup (exactReference adapter stored.objectId stored.metadata.digest) = .ok resolved ∧
      resolved.stored = stored := by
  constructor
  · rintro ⟨body, hpublished, htagged⟩
    obtain ⟨resolved, hfound, hstored⟩ : ∃ resolved, Found w.registry
        (exactReference adapter stored.objectId stored.metadata.digest) resolved ∧ resolved.stored = stored :=
      Found.of_published hpublished htagged rfl fun digest h => Option.some.inj h
    exact ⟨resolved, (lookup_ok laws hintact).mpr hfound, hstored⟩
  · rintro ⟨resolved, hlookup, rfl⟩
    have hfound := (lookup_ok laws hintact).mp hlookup
    exact ⟨resolved.manifest.body, hfound.published, hfound.tagged⟩

/-- The latest entries of the catalog are what lookups without a digest resolve. -/
theorem mem_latest_iff : stored ∈ (catalogOf w.registry).latest ↔ ∃ resolved,
    w.lookup (latestReference adapter stored.objectId) = .ok resolved ∧ resolved.stored = stored := by
  constructor
  · rintro ⟨body, hpublished, htagged⟩
    obtain ⟨resolved, hfound, hstored⟩ : ∃ resolved, Found w.registry
        (latestReference adapter stored.objectId) resolved ∧ resolved.stored = stored :=
      Found.of_published hpublished htagged rfl fun digest h => by cases h
    exact ⟨resolved, (lookup_ok laws hintact).mpr hfound, hstored⟩
  · rintro ⟨resolved, hlookup, rfl⟩
    have hfound := (lookup_ok laws hintact).mp hlookup
    exact ⟨resolved.manifest.body, hfound.published, hfound.tagged⟩

theorem lookup_exact {objectId digest : String} {resolved : ResolvedObject P}
    (h : w.lookup (exactReference adapter objectId digest) = .ok resolved) :
    resolved.stored ∈ (catalogOf w.registry).live ∧ resolved.stored.objectId = objectId ∧
      resolved.stored.metadata.digest = digest := by
  have hfound := (lookup_ok laws hintact).mp h
  have hid : resolved.stored.objectId = objectId := hfound.objectId
  have hdigest : resolved.stored.metadata.digest = digest := hfound.digest digest rfl
  refine ⟨(mem_live_iff laws hintact).mpr ⟨resolved, ?_, rfl⟩, hid, hdigest⟩
  rw [hid, hdigest]
  exact h

theorem lookup_latest {objectId : String} {resolved : ResolvedObject P}
    (h : w.lookup (latestReference adapter objectId) = .ok resolved) :
    resolved.stored ∈ (catalogOf w.registry).latest ∧ resolved.stored.objectId = objectId := by
  have hid : resolved.stored.objectId = objectId := ((lookup_ok laws hintact).mp h).objectId
  refine ⟨(mem_latest_iff laws hintact).mpr ⟨resolved, ?_, rfl⟩, hid⟩
  rw [hid]
  exact h

/-- A version that is still live resolves as before. -/
theorem lookup_live {w' : World policy} (hintact' : Intact w'.registry) {objectId digest : String}
    {resolved : ResolvedObject P} (h : w.lookup (exactReference adapter objectId digest) = .ok resolved)
    (hlive : resolved.stored ∈ (catalogOf w'.registry).live) :
    w'.lookup (exactReference adapter objectId digest) = .ok resolved := by
  have hfound := (lookup_ok laws hintact).mp h
  obtain ⟨body, hpublished, htagged⟩ := hlive
  obtain rfl := hfound.published.unique hpublished
  refine (lookup_ok laws hintact').mpr ⟨hpublished, ?_, hfound.objectId, hfound.digest, hfound.payload⟩
  rw [StoredObject.exactName, hfound.objectId, hfound.digest digest rfl] at htagged
  exact htagged

/-- A version that is still the latest one resolves as before. -/
theorem lookup_same {w' : World policy} (hintact' : Intact w'.registry) {objectId : String}
    {resolved : ResolvedObject P} (h : w.lookup (latestReference adapter objectId) = .ok resolved)
    (hlatest : resolved.stored ∈ (catalogOf w'.registry).latest) :
    w'.lookup (latestReference adapter objectId) = .ok resolved := by
  have hfound := (lookup_ok laws hintact).mp h
  obtain ⟨body, hpublished, htagged⟩ := hlatest
  obtain rfl := hfound.published.unique hpublished
  refine (lookup_ok laws hintact').mpr ⟨hpublished, ?_, hfound.objectId, hfound.digest, hfound.payload⟩
  rw [StoredObject.movingName, hfound.objectId] at htagged
  exact htagged

/-- The latest version resolves to the same object under its exact reference, if it is live. -/
theorem lookup_latest_exact {objectId : String} {resolved : ResolvedObject P}
    (h : w.lookup (latestReference adapter objectId) = .ok resolved)
    (hlive : resolved.stored ∈ (catalogOf w.registry).live) :
    w.lookup (exactReference adapter objectId resolved.stored.metadata.digest) = .ok resolved := by
  have hfound := (lookup_ok laws hintact).mp h
  obtain ⟨body, hpublished, htagged⟩ := hlive
  obtain rfl := hfound.published.unique hpublished
  refine (lookup_ok laws hintact).mpr ⟨hpublished, ?_, hfound.objectId, ?_, hfound.payload⟩
  · rw [StoredObject.exactName, hfound.objectId] at htagged
    exact htagged
  · exact fun digest heq => Option.some.inj heq

end Resolution

/-! ## Calls -/

/-- The put input that a call publishes if it succeeds. -/
def requestOf (memory : Memory) : Call → Option PutInput
  | .execute operation =>
    match operation.input with
    | .put value => some value
    | _ => none
  | .completeMultipart session _ => do
    let reference ← memory.lookup session.sessionId
    let state ← memory.heap[reference]?
    return state.input
  | _ => none

/-- The reference that a call deletes if it succeeds. -/
def deletionOf : Call → Option Json
  | .execute operation =>
    match operation.input with
    | .delete raw => some raw
    | _ => none
  | _ => none

/-- The metadata that a put or a completion returns. -/
def publishedBy : Answer → Option ObjectMetadata
  | .result (.put metadata) => some metadata
  | .metadata metadata => some metadata
  | _ => none

variable {setting : Setting P adapter.transport.binding}

/-- The contents a call may publish. -/
def sourceOf (setting : Setting P adapter.transport.binding) (w : World setting.policy) (call : Call)
    (content : Bytes) : Prop :=
  match call with
  | .execute operation =>
    match operation.input with
    | .put value => payloadSource setting value content
    | _ => False
  | .completeMultipart session _ => ∃ reference state,
      Live w.memory session.sessionId reference state ∧ content = state.hashed
  | _ => False

/-- What a finished call has done to the catalog. -/
inductive Effected (setting : Setting P adapter.transport.binding) (w w' : World setting.policy)
    (call : Call) : Except Err Answer → Prop where
  | published (value : PutInput) (content : Bytes) (immutability : ImmutabilityRequest)
      (retention : Option RetentionRequest) (metadata : ObjectMetadata) (answer : Answer) :
      requestOf w.memory call = some value → sourceOf setting w call content →
      Succeeded setting value content immutability retention w w' metadata →
      publishedBy answer = some metadata → Effected setting w w' call (.ok answer)
  | interrupted (value : PutInput) (error : Err) : requestOf w.memory call = some value →
      Interrupted setting value (sourceOf setting w call) w w' → Effected setting w w' call (.error error)
  | removed (raw : Json) (reference : ObjectReference) (stored : StoredObject) (outcome : Except Err Answer) :
      deletionOf call = some raw → adapter.reference P raw true = .ok reference →
      Targets w reference stored → Removed w w' stored → Effected setting w w' call outcome
  | unchanged (outcome : Except Err Answer) : requestOf w.memory call = none →
      catalogOf w'.registry = catalogOf w.registry →
      (deletionOf call = none ∨ ∃ error, outcome = .error error) → Effected setting w w' call outcome

theorem requestOf_live {memory : Memory} {session : MultipartSession} {parts : List MultipartPart}
    {reference : Nat} {state : MultipartState} (h : Live memory session.sessionId reference state) :
    requestOf memory (.completeMultipart session parts) = some state.input := by
  simp [requestOf, h.entry, h.object]

/-- A call that failed and left the world as it was. -/
theorem Effected.refused {w : World setting.policy} {call : Call} {error : Err}
    {w' : World setting.policy} (h : w.registry.Grows w'.registry) :
    Effected setting w w' call (.error error) := by
  cases hrequest : requestOf w.memory call with
  | none => exact .unchanged _ hrequest (catalogOf_grows h) (.inr ⟨error, rfl⟩)
  | some value => exact .interrupted value error hrequest (.of_grows h)

section Calls

variable (laws : P.Lawful) (w : World setting.policy) (hintact : Intact w.registry)
variable (hsound : SoundMemory w.memory)

include laws hintact hsound

theorem execute_ensures (operation : Operation) :
    (adapter.execute P operation).Ensures setting.env World.Change w fun outcome w' =>
      w'.memory = w.memory ∧ Effected setting w w' (.execute operation) (outcome.map .result) := by
  have hquiet := quiet_change laws setting
  unfold OciDistributionAdapter.execute
  cases adapter.validateOperation operation with
  | error error => exact ⟨rfl, .refused (.refl _)⟩
  | ok method =>
    cases P.requireObjectCapabilities adapter.binding operation.requirements with
    | error error => exact ⟨rfl, .refused (.refl _)⟩
    | ok _ =>
      simp only [Action.lift_ok, Prog.ret_bind]
      cases hinput : operation.input with
      | put value =>
        have hrequest : requestOf w.memory (.execute operation) = some value := by simp [requestOf, hinput]
        have hsource : sourceOf setting w (.execute operation) = payloadSource setting value := by
          funext content
          simp [sourceOf, hinput]
        dsimp only
        split
        · refine (put_ensures laws w hintact value).mono ?_
          rintro (error | result) w' h
          · obtain ⟨⟨hmemory, -⟩, hinterrupted, -⟩ := h
            exact ⟨hmemory, .interrupted value error hrequest (by rw [hsource]; exact hinterrupted)⟩
          · obtain ⟨⟨hmemory, -⟩, content, immutability, retention, metadata, hcontent, hsucceeded, -,
              rfl⟩ := h
            exact ⟨hmemory, .published value content immutability retention metadata _ hrequest
              (by rw [hsource]; exact hcontent) hsucceeded rfl⟩
        · exact ⟨rfl, .refused (.refl _)⟩
      | delete raw =>
        have hrequest : requestOf w.memory (.execute operation) = none := by simp [requestOf, hinput]
        have hdeletion : deletionOf (.execute operation) = some raw := by simp [deletionOf, hinput]
        dsimp only
        split
        · refine (delete_ensures laws w hintact raw).mono ?_
          rintro (error | result) w' h
          · obtain ⟨⟨hmemory, -⟩, hcatalog, -⟩ := h
            refine ⟨hmemory, ?_⟩
            rcases hcatalog with hsame | ⟨reference, stored, href, htargets, hremoved⟩
            · exact .unchanged _ hrequest hsame (.inr ⟨error, rfl⟩)
            · exact .removed raw reference stored _ hdeletion href htargets hremoved
          · obtain ⟨⟨hmemory, -⟩, rfl, reference, stored, href, htargets, hremoved⟩ := h
            exact ⟨hmemory, .removed raw reference stored _ hdeletion href htargets hremoved⟩
        · exact ⟨rfl, .refused (.refl _)⟩
      | stat raw =>
        have hrequest : requestOf w.memory (.execute operation) = none := by simp [requestOf, hinput]
        have hdeletion : deletionOf (.execute operation) = none := by simp [deletionOf, hinput]
        dsimp only
        split
        · refine (stat_ensures laws w hintact raw).mono ?_
          rintro outcome w ⟨rfl, -⟩
          exact ⟨rfl, .unchanged _ hrequest rfl (.inl hdeletion)⟩
        · exact ⟨rfl, .refused (.refl _)⟩
      | get raw =>
        have hrequest : requestOf w.memory (.execute operation) = none := by simp [requestOf, hinput]
        have hdeletion : deletionOf (.execute operation) = none := by simp [deletionOf, hinput]
        dsimp only
        split
        · refine (get_ensures laws w hintact raw).mono ?_
          rintro outcome w' ⟨hreads, -⟩
          exact ⟨hreads.memory, .unchanged _ hrequest (by rw [hreads.registry]) (.inl hdeletion)⟩
        · exact ⟨rfl, .refused (.refl _)⟩
      | readRange raw range =>
        have hrequest : requestOf w.memory (.execute operation) = none := by simp [requestOf, hinput]
        have hdeletion : deletionOf (.execute operation) = none := by simp [deletionOf, hinput]
        dsimp only
        split
        · refine (readRange_ensures laws w hintact raw range).mono ?_
          rintro outcome w' ⟨hreads, -⟩
          exact ⟨hreads.memory, .unchanged _ hrequest (by rw [hreads.registry]) (.inl hdeletion)⟩
        · exact ⟨rfl, .refused (.refl _)⟩
      | list prefixText limit cursor =>
        have hrequest : requestOf w.memory (.execute operation) = none := by simp [requestOf, hinput]
        have hdeletion : deletionOf (.execute operation) = none := by simp [deletionOf, hinput]
        dsimp only
        split
        · refine (reads_ensures (reads_list P adapter prefixText limit cursor) hquiet.refl w).mono ?_
          rintro outcome w rfl
          exact ⟨rfl, .unchanged _ hrequest rfl (.inl hdeletion)⟩
        · exact ⟨rfl, .refused (.refl _)⟩

/-- Every call keeps the sessions sound and has one of four effects. -/
theorem call_ensures (call : Call) :
    (call.program P adapter).Ensures setting.env World.Change w fun outcome w' =>
      SoundMemory w'.memory ∧ Effected setting w w' call outcome := by
  cases call with
  | execute operation =>
    refine (execute_ensures laws w hintact hsound operation).bind ?_ ?_
    · rintro result w' ⟨hmemory, heffected⟩
      exact ⟨hmemory ▸ hsound, heffected⟩
    · rintro error w' ⟨hmemory, heffected⟩
      exact ⟨hmemory ▸ hsound, heffected⟩
  | beginMultipart operation =>
    refine (beginMultipart_ensures laws w operation).bind ?_ ?_
    · rintro session w' ⟨⟨hgrows, -⟩, value, immutability, upload, -, -, -, -, hmemory, -⟩
      exact ⟨hmemory ▸ hsound.insert ⟨rfl, rfl⟩, .unchanged _ rfl (catalogOf_grows hgrows) (.inl rfl)⟩
    · rintro error w' ⟨⟨hgrows, -⟩, hmemory⟩
      exact ⟨hmemory ▸ hsound, .refused hgrows⟩
  | uploadPart session partNumber payload =>
    refine (uploadPart_ensures laws w session partNumber payload).bind ?_ ?_
    · rintro part w' ⟨reference, state, bytes, w₁, state₁, hlive, -, -, -, -, -, hidentity, -, -, happended, rfl⟩
      have hsettled := hsound.live hlive
      refine ⟨hsound.modify fun other hother => ⟨?_, ?_⟩,
        .unchanged _ rfl (catalogOf_grows happended.grows) (.inl rfl)⟩
      · rw [MultipartState.acknowledge, happended.result, hidentity]
        simp only [identityOf, hsettled.length, List.length_append]
      · rw [MultipartState.acknowledge, happended.result]
        exact hsettled.machine
    · rintro error w' (⟨-, rfl⟩ | ⟨-, habandoned⟩)
      · exact ⟨hsound, .refused (.refl _)⟩
      · exact ⟨hsound.closed habandoned.memory, .refused habandoned.registry⟩
  | completeMultipart session parts =>
    refine (completeMultipart_ensures laws w hintact hsound session parts).bind ?_ ?_
    · rintro metadata w' ⟨-, reference, state, immutability, retention, hlive, -, -, -, hsucceeded, -, hclosed⟩
      exact ⟨hsound.closed hclosed, .published state.input state.hashed immutability retention metadata _
        (requestOf_live hlive) ⟨reference, state, hlive, rfl⟩ hsucceeded rfl⟩
    · rintro error w' ⟨-, rfl | ⟨reference, state, hlive, hinterrupted, hclosed, -⟩⟩
      · exact ⟨hsound, .refused (.refl _)⟩
      · refine ⟨hsound.closed hclosed, .interrupted state.input error (requestOf_live hlive) ?_⟩
        refine ⟨hinterrupted.commits.imp_right ?_, hinterrupted.refused⟩
        rintro ⟨content, rfl, hcommits⟩
        exact ⟨_, ⟨reference, state, hlive, rfl⟩, hcommits⟩
  | abortMultipart session =>
    refine (abortMultipart_ensures laws w session).bind ?_ ?_
    · rintro _ w' habandoned
      exact ⟨hsound.closed habandoned.memory, .unchanged _ rfl (catalogOf_grows habandoned.registry) (.inl rfl)⟩
    · rintro error w' habandoned
      exact ⟨hsound.closed habandoned.memory, .refused habandoned.registry⟩

end Calls

/-! ## Runs -/

/-- Runs of the adapter from an empty repository. -/
abbrev Runs (setting : Setting P adapter.transport.binding) (now : DateTime) :
    Config Op Op.Res Err Answer (World setting.policy) Call → Prop :=
  Reachable setting.env (Call.program P adapter) (World.empty setting.policy now)

/-- The clock only moves by ticks. -/
def Ticks (setting : Setting P adapter.transport.binding) (w w' : World setting.policy) : Prop :=
  w'.now = w.now ∨ setting.tick w.now w'.now

theorem env_ticks {op : Op} {w w' : World setting.policy} {answer : Except Err op.Res}
    (h : setting.env op w answer w') : Ticks setting w w' := by
  cases op with
  | send request => rcases h with ⟨-, rfl⟩ | ⟨-, -, rfl | rfl⟩ <;> exact .inl rfl
  | openPayload payload chunkSize => exact .inl (by rw [h.2])
  | register source length digest =>
    obtain ⟨id, -, rfl⟩ := h
    exact .inl rfl
  | clock =>
    rcases h with ⟨now, htick, -, rfl⟩ | ⟨-, -, rfl⟩
    · exact .inr htick
    · exact .inl rfl
  | authorize => exact .inl (by rw [h.2])
  | token => exact .inl (by rw [h.2])
  | acquire => exact .inl (by rw [h.2])
  | release => exact .inl (by rw [h.2])
  | memory update => exact .inl (by rw [h.2])

/-- A fact about finished calls holds of every run if every effect keeps it. -/
theorem Runs.holds (laws : P.Lawful) {now : DateTime}
    {I : World setting.policy → List (Event Call Err Answer (World setting.policy)) → Prop}
    (hfirst : I (World.empty setting.policy now) [])
    (hcalls : ∀ w history call outcome w', Intact w.registry → SoundMemory w.memory → I w history →
      Effected setting w w' call outcome → Relation.ReflTransGen (Ticks setting) w w' →
      I w' (history ++ [⟨call, outcome, w, w'⟩]))
    {config : Config Op Op.Res Err Answer (World setting.policy) Call} (h : Runs setting now config) :
    config.Holds setting.env (fun w w' => World.Change w w' ∧ Ticks setting w w')
      fun w history => Intact w.registry ∧ SoundMemory w.memory ∧ I w history := by
  refine Reachable.holds ⟨intact_empty, .empty, hfirst⟩ ?_ h
  rintro w history call ⟨hintact, hsound, hI⟩
  have hticks : ∀ (op : Op) (a : World setting.policy) (r : Except Err op.Res) (b : World setting.policy),
      True → setting.env op a r b → Ticks setting a b := fun _ _ _ _ _ => env_ticks
  have hclock := ((call.program P adapter).uses_anything.ensures hticks w).weaken (fun _ _ _ _ h => h)
    (fun _ _ h => Relation.ReflTransGen.single h) fun _ _ h => h
  have hclock := hclock.reach (fun _ => .refl) fun _ _ _ => .trans
  have hwhole := ((call_ensures laws w hintact hsound call).invariant
    (fun _ _ hs hmove => Move.intact laws hmove hs) hintact).and
      (((call.program P adapter).uses_anything.ensures hticks w).and hclock)
  refine hwhole.weaken (fun _ _ _ _ h => h) (fun _ _ hg => ⟨hg.1.1, hg.2.1⟩) ?_
  rintro outcome w' ⟨⟨⟨hsound', heffected⟩, hintact'⟩, -, -, hreach⟩
  exact ⟨hintact', hsound', hcalls w history call outcome w' hintact hsound hI heffected hreach⟩

/-- In every state of a run, also in the middle of a call, the repository is intact. -/
theorem Runs.intact (laws : P.Lawful) {now : DateTime}
    {config : Config Op Op.Res Err Answer (World setting.policy) Call} (h : Runs setting now config) :
    Intact config.state.registry := by
  have hpath : ∀ {a b : World setting.policy},
      Relation.ReflTransGen (fun w w' => World.Change w w' ∧ Ticks setting w w') a b →
      Intact a.registry → Intact b.registry := by
    intro a b hreach ha
    induction hreach with
    | refl => exact ha
    | tail _ hstep ih => exact Move.intact laws hstep.1 ih
  have hholds := Runs.holds laws (I := fun _ _ => True) trivial (fun _ _ _ _ _ _ _ _ _ _ => trivial) h
  obtain ⟨state, phase, history⟩ := config
  cases phase with
  | idle => exact hholds.1
  | running call start rest => exact hpath hholds.2.1 hholds.1.1

/-- What every call ensures from a sound state holds of every finished call of a run. -/
theorem Runs.every (laws : P.Lawful) {now : DateTime}
    {Q : World setting.policy → Call → Except Err Answer → World setting.policy → Prop}
    (hcalls : ∀ (w : World setting.policy) (call : Call), Intact w.registry → SoundMemory w.memory →
      (call.program P adapter).Ensures setting.env World.Change w (Q w call))
    {config : Config Op Op.Res Err Answer (World setting.policy) Call} (h : Runs setting now config) :
    ∀ event ∈ config.history, Q event.before event.call event.outcome event.after := by
  let good : List (Event Call Err Answer (World setting.policy)) → Prop := fun history =>
    ∀ event ∈ history, Q event.before event.call event.outcome event.after
  have hholds : config.Holds setting.env World.Change
      fun w history => Intact w.registry ∧ SoundMemory w.memory ∧ good history := by
    refine Reachable.holds ⟨intact_empty, .empty, fun event h => by cases h⟩ ?_ h
    rintro w history call ⟨hintact, hsound, hgood⟩
    have hwhole := ((call_ensures laws w hintact hsound call).invariant
      (fun _ _ hs hmove => Move.intact laws hmove hs) hintact).and (hcalls w call hintact hsound)
    refine hwhole.weaken (fun _ _ _ _ h => h) (fun _ _ hg => hg.2) ?_
    rintro outcome w' ⟨⟨⟨hsound', -⟩, hintact'⟩, hq⟩
    refine ⟨hintact', hsound', fun event hevent => ?_⟩
    rcases List.mem_append.mp hevent with hold | hlast
    · exact hgood event hold
    · obtain rfl := List.mem_singleton.mp hlast
      exact hq
  obtain ⟨state, phase, history⟩ := config
  cases phase with
  | idle => exact hholds.2.2
  | running call start rest => exact hholds.1.2.2

/-! ## Logs -/

/-- A finished call, as every run has it. -/
structure Done (setting : Setting P adapter.transport.binding)
    (event : Event Call Err Answer (World setting.policy)) : Prop where
  intact : Intact event.before.registry
  sound : SoundMemory event.before.memory
  effected : Effected setting event.before event.after event.call event.outcome
  ticks : Relation.ReflTransGen (Ticks setting) event.before event.after

/-- Something has failed in the call: without faults it does not end so. -/
def Excused (setting : Setting P adapter.transport.binding) (event : Event Call Err Answer (World setting.policy)) :
    Prop :=
  ¬Performs setting.faultless.env (event.call.program P adapter) event.before event.outcome event.after

/-- The finished calls of a run, each begun where the one before it ended. -/
inductive Log (setting : Setting P adapter.transport.binding) (first : World setting.policy) :
    List (Event Call Err Answer (World setting.policy)) → World setting.policy → Prop where
  | nil : Log setting first [] first
  | snoc (history) (event) : Log setting first history event.before → Done setting event →
      Log setting first (history ++ [event]) event.after

namespace Log

variable {first w : World setting.policy}
variable {front rest : List (Event Call Err Answer (World setting.policy))}
variable {event : Event Call Err Answer (World setting.policy)}

theorem of_snoc (h : Log setting first (front ++ [event]) w) :
    Log setting first front event.before ∧ Done setting event ∧ w = event.after := by
  generalize hhistory : front ++ [event] = history at h
  cases h with
  | nil => simp at hhistory
  | snoc history other hlog hdone =>
    obtain ⟨rfl, heq⟩ := List.append_inj' hhistory rfl
    obtain rfl := (List.cons.inj heq).1
    exact ⟨hlog, hdone, rfl⟩

/-- A log is cut at any of its calls. -/
theorem split (h : Log setting first (front ++ event :: rest) w) :
    Log setting first front event.before ∧ Done setting event ∧ Log setting event.after rest w := by
  induction rest using List.reverseRecOn generalizing w with
  | nil =>
    obtain ⟨hfront, hdone, rfl⟩ := h.of_snoc
    exact ⟨hfront, hdone, .nil⟩
  | append_singleton rest last ih =>
    rw [← List.cons_append, ← List.append_assoc] at h
    obtain ⟨hlog, hlast, rfl⟩ := h.of_snoc
    obtain ⟨hfront, hdone, hrest⟩ := ih hlog
    exact ⟨hfront, hdone, .snoc rest last hrest hlast⟩

theorem ticks (h : Log setting first front w) : Relation.ReflTransGen (Ticks setting) first w := by
  induction h with
  | nil => exact .refl
  | snoc history event _ hdone ih => exact ih.trans hdone.ticks

end Log

/-- The calls of a run that have finished, and where the call in progress began. -/
theorem Runs.log (laws : P.Lawful) {now : DateTime}
    {config : Config Op Op.Res Err Answer (World setting.policy) Call} (h : Runs setting now config) :
    ∃ w, Log setting (World.empty setting.policy now) config.history w ∧
      (config.phase = .idle → w = config.state) := by
  have hholds := Runs.holds laws (I := fun w history => Log setting (World.empty setting.policy now) history w)
    .nil (fun w history call outcome w' hintact hsound hlog heffected hticks =>
      .snoc history ⟨call, outcome, w, w'⟩ hlog ⟨hintact, hsound, heffected, hticks⟩) h
  obtain ⟨state, phase, history⟩ := config
  cases phase with
  | idle => exact ⟨state, hholds.2.2, fun _ => rfl⟩
  | running call start rest => exact ⟨start, hholds.1.2.2, fun hphase => by cases hphase⟩

/-- The state after a finished call is a state of the run. -/
theorem Runs.after (laws : P.Lawful) {now : DateTime} {w : World setting.policy}
    {front rest : List (Event Call Err Answer (World setting.policy))}
    {event : Event Call Err Answer (World setting.policy)}
    (h : Runs setting now ⟨w, .idle, front ++ event :: rest⟩) :
    Runs setting now ⟨event.after, .idle, front ++ [event]⟩ := by
  have hlast : ∀ {w : World setting.policy}, Runs setting now ⟨w, .idle, front ++ [event]⟩ → w = event.after := by
    intro w hrun
    obtain ⟨last, hlog, hsame⟩ := hrun.log laws
    obtain ⟨-, -, heq⟩ := hlog.of_snoc
    rw [← heq, hsame rfl]
  cases rest with
  | nil =>
    rw [← hlast h]
    exact h
  | cons next rest =>
    have hsplit : front ++ event :: next :: rest = (front ++ [event]) ++ next :: rest := by simp
    have hnext : Runs setting now ⟨next.before, .idle, front ++ [event]⟩ := h.before hsplit
    rw [← hlast hnext]
    exact hnext

/-- The registry of a run only ever changes by moves. -/
theorem Runs.moves (laws : P.Lawful) {now : DateTime}
    {earlier later : Config Op Op.Res Err Answer (World setting.policy) Call} (h : Runs setting now earlier)
    (hpath : Relation.ReflTransGen (Step setting.env (Call.program P adapter)) earlier later) :
    Moves earlier.state.registry later.state.registry :=
  Reachable.guarantee (R := fun w w' => Moves w.registry w'.registry) (fun _ => .refl)
    (fun _ _ _ => .trans) (fun _ _ hstep => .single hstep.1)
    (fun hrun => Runs.holds laws (I := fun _ _ => True) trivial (fun _ _ _ _ _ _ _ _ _ _ => trivial) hrun)
    h hpath

end MeridianOci.Service
