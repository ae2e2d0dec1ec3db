import MeridianOci.Service.History

/-!
# Successful calls and their place in a run

The effect of a successful put on the catalog, and settings in which calls always end:
there a put or a delete without a reason to fail succeeds and extends the run.
-/
namespace MeridianOci.Service

open MeridianOci.Data MeridianOci.Effect MeridianOci.Model

set_option autoImplicit false

variable {P : Platform} {adapter : OciDistributionAdapter}
variable {setting : Setting P adapter.transport.binding}

/-! ## The effect of a success -/

variable (P) in
/-- How a success for an object id changes the catalog: the version was live and becomes the
latest, or it is published and becomes the latest. -/
inductive Advances (value : PutInput) (immutability : ImmutabilityRequest)
    (retention : Option RetentionRequest) (c c' : Catalog String StoredObject) (stored : StoredObject) :
    Prop where
  | existing : (value.createOnly || immutability.publishOnce) = false → stored ∈ c.live →
      c' = Catalog.point (storedNames P) c stored →
      Advances value immutability retention c c' stored
  | fresh : stored.immutability = immutability → stored.retention = retention →
      (∀ other ∈ c.live, (storedNames P).slotOf other ≠ (storedNames P).slotOf stored) →
      c' = Catalog.point (storedNames P) ((c.anchor stored.objectId).publish stored) stored →
      Advances value immutability retention c c' stored

theorem Committed.advances (laws : P.Lawful) {value : PutInput} {content : Bytes}
    {immutability : ImmutabilityRequest} {retention : Option RetentionRequest}
    {w w' : World setting.policy} {metadata : ObjectMetadata} (hintact : Intact w.registry)
    (h : Committed setting value (identityOf P content) immutability retention
      (value.createOnly || immutability.publishOnce) w w' metadata) :
    ∃ stored, stored.metadata = metadata ∧ stored.objectId = value.objectId ∧
      metadata.digest = sha256Digest P content ∧
      Advances P value immutability retention (catalogOf w.registry) (catalogOf w'.registry) stored := by
  cases h with
  | existing stored body hpublished htagged hid hdigest honly hw' =>
    refine ⟨stored, rfl, hid, hdigest, .existing honly ⟨body, hpublished, htagged⟩ ?_⟩
    rw [hw', catalogOf_point laws hpublished]
  | fresh _ provenance createdAt body hfree hprovenance hnew hpublished _ _ _ _ hagrees =>
    obtain ⟨hobjectRef, hdigest, -⟩ := laws.metadata_fields _ _ hnew
    have hid : StoredObject.objectId ⟨metadata, immutability, retention⟩ = value.objectId := by
      rw [StoredObject.objectId, hobjectRef]
      rfl
    have hdigest : metadata.digest = sha256Digest P content := hdigest
    have hexact : StoredObject.exactName P ⟨metadata, immutability, retention⟩ =
        versionName P value.objectId (sha256Digest P content) := by
      rw [StoredObject.exactName, hid, hdigest]
    have hfree : w.registry.tagged (StoredObject.exactName P ⟨metadata, immutability, retention⟩) = none := by
      rw [hexact]
      exact hfree
    refine ⟨⟨metadata, immutability, retention⟩, rfl, hid, hdigest, .fresh rfl rfl ?_ ?_⟩
    · rintro other ⟨other_body, -, hother⟩ hslot
      have hslot : other.exactName P = StoredObject.exactName P ⟨metadata, immutability, retention⟩ := hslot
      rw [hslot, hfree] at hother
      cases hother
    · have hadded : ((w.registry.withAnchor value.objectId).addBlob
          (StoredObject.toBytes P ⟨metadata, immutability, retention⟩)).tagged
            (StoredObject.exactName P ⟨metadata, immutability, retention⟩) = none := by
        rw [((w.registry.withAnchor value.objectId).grows_addBlob laws _).tagged,
          Registry.tagged_withAnchor_ne laws (StoredObject.anchorName_ne_exactName _ _), hfree]
      rw [catalogOf_grows hagrees.grows, catalogOf_point laws hpublished, catalogOf_publish laws hpublished hadded,
        catalogOf_grows ((w.registry.withAnchor value.objectId).grows_addBlob laws _),
        catalogOf_withAnchor laws hintact, hid]

theorem Succeeded.advances (laws : P.Lawful) {value : PutInput} {content : Bytes}
    {immutability : ImmutabilityRequest} {retention : Option RetentionRequest}
    {w w' : World setting.policy} {metadata : ObjectMetadata} (hintact : Intact w.registry)
    (h : Succeeded setting value content immutability retention w w' metadata) :
    ∃ stored, stored.metadata = metadata ∧ stored.objectId = value.objectId ∧
      metadata.digest = sha256Digest P content ∧
      Advances P value immutability retention (catalogOf w.registry) (catalogOf w'.registry) stored := by
  obtain ⟨w₁, w₂, hgrows, -, -, -, hcommitted, hregistry, -⟩ := h.committed
  have hintact₁ : Intact w₁.registry := (Move.quiet _ _ hgrows).intact laws hintact
  rw [← hregistry, ← catalogOf_grows hgrows]
  exact hcommitted.advances laws hintact₁

theorem Advances.anchored {value : PutInput} {immutability : ImmutabilityRequest}
    {retention : Option RetentionRequest} {c c' : Catalog String StoredObject} {stored : StoredObject}
    (h : Advances P value immutability retention c c' stored) (hlive : ∀ e ∈ c.live, e.objectId ∈ c.anchored) :
    c.anchored ⊆ c'.anchored ∧ stored.objectId ∈ c'.anchored := by
  cases h with
  | existing _ hstored heq =>
    rw [heq]
    exact ⟨fun _ h => h, hlive stored hstored⟩
  | fresh _ _ _ heq =>
    rw [heq]
    exact ⟨fun _ h => .inr h, .inl rfl⟩

/-- The latest version of an object id after a success, and of the others. -/
theorem Advances.latest {value : PutInput} {immutability : ImmutabilityRequest}
    {retention : Option RetentionRequest} {c c' : Catalog String StoredObject} {stored other : StoredObject}
    (h : Advances P value immutability retention c c' stored) :
    other ∈ c'.latest ↔ other = stored ∨ (other ∈ c.latest ∧ other.objectId ≠ stored.objectId) := by
  cases h with
  | existing _ _ heq => rw [heq, Catalog.mem_point]; rfl
  | fresh _ _ _ heq => rw [heq, Catalog.mem_point]; rfl

theorem Advances.live {value : PutInput} {immutability : ImmutabilityRequest}
    {retention : Option RetentionRequest} {c c' : Catalog String StoredObject} {stored other : StoredObject}
    (h : Advances P value immutability retention c c' stored) :
    other ∈ c'.live ↔ other = stored ∨ other ∈ c.live := by
  cases h with
  | existing _ hstored heq =>
    rw [heq]
    constructor
    · exact .inr
    · rintro (rfl | hlive)
      · exact hstored
      · exact hlive
  | fresh _ _ _ heq =>
    rw [heq]
    exact Set.mem_insert_iff

/-- A live version belongs to an anchored object id. -/
theorem Intact.live_anchored {policy : Policy P adapter.transport.binding} {registry : Registry policy}
    (h : Intact registry) : ∀ e ∈ (catalogOf registry).live, e.objectId ∈ (catalogOf registry).anchored := by
  rintro stored ⟨body, hpublished, htagged⟩
  exact (h.complete _ _ _ htagged hpublished).anchor

/-- No call forgets an object id. -/
theorem Done.anchored (laws : P.Lawful) {event : Event Call Err Answer (World setting.policy)}
    (h : Done setting event) :
    (catalogOf event.before.registry).anchored ⊆ (catalogOf event.after.registry).anchored := by
  have heffected := h.effected
  generalize event.outcome = outcome at heffected
  rcases heffected with ⟨value, content, immutability, retention, metadata, answer, -, -, hsucceeded, -⟩ |
    ⟨value, error, -, hinterrupted⟩ | ⟨raw, reference, stored, -, -, -, -, hremoved⟩ | ⟨-, -, hsame, -⟩
  · obtain ⟨stored, -, -, -, hadvances⟩ := hsucceeded.advances laws h.intact
    exact (hadvances.anchored h.intact.live_anchored).1
  · rcases hinterrupted.commits with hsame | ⟨content, -, hcommits⟩
    · rw [hsame]
    · exact hcommits.anchored_subset
  · rw [hremoved.2.1]
    exact fun _ h => h
  · rw [hsame]

theorem Log.anchored (laws : P.Lawful) {first w : World setting.policy}
    {history : List (Event Call Err Answer (World setting.policy))} (h : Log setting first history w) :
    (catalogOf first.registry).anchored ⊆ (catalogOf w.registry).anchored := by
  induction h with
  | nil => exact fun _ h => h
  | snoc history event _ hdone ih => exact ih.trans (hdone.anchored laws)

/-- No call is both a request and a delete. -/
theorem deletionOf_request {memory : Memory} {call : Call} {value : PutInput}
    (h : requestOf memory call = some value) : deletionOf call = none := by
  cases call with
  | execute operation =>
    simp only [requestOf, deletionOf] at h ⊢
    cases hinput : operation.input with
    | delete raw =>
      rw [hinput] at h
      cases h
    | _ => rfl
  | _ => rfl

/-- A request that returned has succeeded. -/
theorem Effected.succeeded {w w' : World setting.policy} {call : Call} {value : PutInput} {answer : Answer}
    (h : Effected setting w w' call (.ok answer)) (hrequest : requestOf w.memory call = some value) :
    ∃ content immutability retention metadata, sourceOf setting w call content ∧
      Succeeded setting value content immutability retention w w' metadata ∧
      publishedBy answer = some metadata := by
  cases h with
  | published other content immutability retention metadata _ hother hsource hsucceeded hanswer =>
    obtain rfl := Option.some.inj (hrequest.symm.trans hother)
    exact ⟨content, immutability, retention, metadata, hsource, hsucceeded, hanswer⟩
  | removed raw reference stored _ hdeletion =>
    rw [deletionOf_request hrequest] at hdeletion
    cases hdeletion
  | unchanged _ hnone =>
    rw [hrequest] at hnone
    cases hnone

/-- A request that raised was interrupted. -/
theorem Effected.failed {w w' : World setting.policy} {call : Call} {value : PutInput} {error : Err}
    (h : Effected setting w w' call (.error error)) (hrequest : requestOf w.memory call = some value) :
    Interrupted setting value (sourceOf setting w call) w w' := by
  cases h with
  | interrupted other _ hother hinterrupted =>
    obtain rfl := Option.some.inj (hrequest.symm.trans hother)
    exact hinterrupted
  | removed raw reference stored _ hdeletion =>
    rw [deletionOf_request hrequest] at hdeletion
    cases hdeletion
  | unchanged _ hnone =>
    rw [hrequest] at hnone
    cases hnone

/-! ## What a request meets -/

section Requests

variable {policy : Policy P adapter.transport.binding} {registry : Registry policy}
variable (laws : P.Lawful) (hintact : Intact registry) {objectId : String}

include laws hintact

/-- A latest tag leads to a version of its object id. -/
theorem Intact.latest {body : Bytes} (h : registry.tagged (latestName P objectId) = some body) :
    ∃ stored ∈ (catalogOf registry).latest, stored.objectId = objectId ∧ adapter.Published P stored body := by
  have htagged : Tagged registry body (nameOf P (latestReference adapter objectId)) := hintact.tags _ _ h
  obtain ⟨stored, hpublished, ⟨-, hid⟩ | hdigest⟩ := stored_of_tagged laws (fun digest h => by cases h) htagged
  · have hid : stored.objectId = objectId := hid
    refine ⟨stored, ⟨body, hpublished, ?_⟩, hid, hpublished⟩
    rw [StoredObject.movingName, hid]
    exact h
  · cases hdigest

/-- A latest version is live. -/
theorem Intact.latest_live : (catalogOf registry).latest ⊆ (catalogOf registry).live := by
  rintro stored ⟨body, hpublished, htagged⟩
  generalize hname : stored.movingName P = name at htagged
  have hfamily := hintact.tags _ _ htagged
  cases hfamily with
  | anchor objectId hbody => exact absurd hname (StoredObject.anchorName_ne_movingName _ _).symm
  | exact other hother => exact absurd hname (StoredObject.movingName_ne_exactName _ _)
  | latest other hother hexact =>
    obtain rfl := hpublished.injective laws hother
    exact ⟨body, hpublished, hexact⟩

/-- A publish-once request is open while the object id is unknown, and a create-only one
while there is no latest version. -/
theorem available_iff {immutability : ImmutabilityRequest} {createOnly : Bool} :
    Available registry objectId immutability createOnly ↔ (createOnly = true →
      (immutability.publishOnce = true → objectId ∉ (catalogOf registry).anchored) ∧
      (immutability.publishOnce = false → ∀ stored ∈ (catalogOf registry).latest,
        stored.objectId ≠ objectId)) := by
  refine imp_congr_right fun _ => ?_
  cases hmode : immutability.publishOnce with
  | true =>
    simp only [if_true, forall_const, Bool.true_eq_false, false_imp_iff, and_true]
    constructor
    · intro h hanchored
      rw [show registry.tagged (anchorName P objectId) = some _ from hanchored] at h
      cases h
    · intro h
      cases htagged : registry.tagged (anchorName P objectId) with
      | none => rfl
      | some body =>
        refine absurd ?_ h
        obtain rfl := hintact.anchored laws htagged
        exact htagged
  | false =>
    simp only [Bool.false_eq_true, if_false, false_imp_iff, true_and, forall_const]
    constructor
    · rintro h stored ⟨body, hpublished, htagged⟩ rfl
      rw [StoredObject.movingName, h] at htagged
      cases htagged
    · intro h
      cases htagged : registry.tagged (latestName P objectId) with
      | none => rfl
      | some body =>
        obtain ⟨stored, hlatest, hid, -⟩ := hintact.latest laws htagged
        exact absurd hid (h stored hlatest)

/-- A content is not blocked if every live version with it is of the object id, and the
request is not create-only. -/
theorem not_blocked {content : Bytes} {createOnly : Bool}
    (h : ∀ stored ∈ (catalogOf registry).live, stored.metadata.digest = sha256Digest P content →
      shortHash P stored.objectId = shortHash P objectId →
      createOnly = false ∧ stored.objectId = objectId) :
    ¬Blocked registry objectId (sha256Digest P content) createOnly := by
  rintro ⟨stored, body, hpublished, htagged, hwhy⟩
  have hfamily := hintact.tags _ _ htagged
  have hmatch : (matchDigest P (sha256Digest P content)).isSome := by
    rw [matchDigest_sha256Digest laws]
    rfl
  have hexact : Tagged registry body
      (nameOf P (exactReference adapter objectId (sha256Digest P content))) := hfamily
  obtain ⟨other, hother, ⟨hnone, -⟩ | hdigest⟩ := stored_of_tagged laws
    (fun digest (h : some (sha256Digest P content) = some digest) => Option.some.inj h ▸ hmatch) hexact
  · cases hnone
  obtain rfl := hpublished.injective laws hother
  have hdigest := Option.some.inj hdigest
  have hname : versionName P objectId (sha256Digest P content) = stored.exactName P := by
    generalize hname : versionName P objectId (sha256Digest P content) = name at hfamily
    cases hfamily with
    | anchor other hbody => exact absurd hname (anchorName_ne_versionName _ _ _).symm
    | exact found hfound => rw [hpublished.injective laws hfound]
    | latest found => exact absurd hname (latestName_ne_versionName _ _ _).symm
  have hlive : stored ∈ (catalogOf registry).live := ⟨body, hpublished, hname ▸ htagged⟩
  have hhash := (exactName_eq laws hpublished hmatch hname).1
  obtain ⟨honly, hid⟩ := h stored hlive hdigest.symm hhash.symm
  rcases hwhy with hcreate | hne
  · rw [honly] at hcreate
    cases hcreate
  · exact hne hid

end Requests

/-! ## Operations that are accepted -/

variable (P adapter) in
/-- An operation that `execute` hands to the method it names. -/
structure Accepted (operation : Operation) (method : String) : Prop where
  validated : adapter.validateOperation operation = .ok method
  capable : P.requireObjectCapabilities adapter.binding operation.requirements = .ok ()

theorem execute_put {operation : Operation} {value : PutInput} (h : Accepted P adapter operation "put")
    (hinput : operation.input = .put value) : adapter.execute P operation = adapter.put P value := by
  unfold OciDistributionAdapter.execute
  simp only [h.validated, h.capable, Action.lift_ok, Prog.ret_bind, hinput, if_true]

theorem execute_delete {operation : Operation} {raw : Json} (h : Accepted P adapter operation "delete")
    (hinput : operation.input = .delete raw) : adapter.execute P operation = adapter.delete P raw := by
  unfold OciDistributionAdapter.execute
  simp only [h.validated, h.capable, Action.lift_ok, Prog.ret_bind, hinput, if_true]

/-! ## Calls that end -/

/-- Payloads and the clock always answer. -/
structure Responsive (setting : Setting P adapter.transport.binding) : Prop where
  streams : ∀ payload chunkSize, ∃ answer, setting.streams payload chunkSize answer
  tick : ∀ before, ∃ now, setting.tick before now

theorem Responsive.answers (h : Responsive setting) (op : Op) (w : World setting.policy) :
    ∃ answer w', setting.env op w answer w' := by
  cases op with
  | send request => exact ⟨_, _, .inl ⟨rfl, rfl⟩⟩
  | openPayload payload chunkSize =>
    obtain ⟨answer, hanswer⟩ := h.streams payload chunkSize
    exact ⟨answer, w, hanswer, rfl⟩
  | register source length digest => exact ⟨_, _, "", rfl, rfl⟩
  | clock =>
    obtain ⟨now, htick⟩ := h.tick w.now
    exact ⟨_, _, .inl ⟨now, htick, rfl, rfl⟩⟩
  | authorize => exact ⟨.ok (), w, .inl rfl, rfl⟩
  | token => exact ⟨.ok "", w, .inl ⟨"", rfl⟩, rfl⟩
  | acquire => exact ⟨_, _, rfl, rfl⟩
  | release => exact ⟨_, _, rfl, rfl⟩
  | memory update => exact ⟨_, _, rfl, rfl⟩

theorem Responsive.performs (h : Responsive setting) {α : Type} (program : Action α)
    (w : World setting.policy) : ∃ outcome w', Performs setting.env program w outcome w' :=
  exists_performs (fun op w _ => h.answers op w) program.uses_anything w

/-- With faults, a program can be performed without any request being carried out. -/
theorem Responsive.performs_down (h : Responsive setting) (hfaults : setting.faults) {α : Type}
    (program : Action α) (w : World setting.policy) :
    ∃ outcome w', Performs setting.env program w outcome w' ∧ w'.registry = w.registry := by
  let down : Environment Op Op.Res Err (World setting.policy) := fun op w answer w' =>
    setting.env op w answer w' ∧ w'.registry = w.registry
  have hanswer : ∀ (op : Op) (w : World setting.policy), True → ∃ answer w', down op w answer w' := by
    intro op w _
    cases op with
    | send request => exact ⟨.error { kind := .httpError }, w, .inr ⟨hfaults, trivial, .inl rfl⟩, rfl⟩
    | openPayload payload chunkSize =>
      obtain ⟨answer, hanswer⟩ := h.streams payload chunkSize
      exact ⟨answer, w, ⟨hanswer, rfl⟩, rfl⟩
    | register source length digest => exact ⟨_, _, ⟨"", rfl, rfl⟩, rfl⟩
    | clock =>
      obtain ⟨now, htick⟩ := h.tick w.now
      exact ⟨_, _, .inl ⟨now, htick, rfl, rfl⟩, rfl⟩
    | authorize => exact ⟨.ok (), w, ⟨.inl rfl, rfl⟩, rfl⟩
    | token => exact ⟨.ok "", w, ⟨.inl ⟨"", rfl⟩, rfl⟩, rfl⟩
    | acquire => exact ⟨_, _, ⟨rfl, rfl⟩, rfl⟩
    | release => exact ⟨_, _, ⟨rfl, rfl⟩, rfl⟩
    | memory update => exact ⟨_, _, ⟨rfl, rfl⟩, rfl⟩
  obtain ⟨outcome, w', hperforms⟩ := exists_performs hanswer program.uses_anything w
  refine ⟨outcome, w', hperforms.mono fun _ _ _ _ h => h.1, ?_⟩
  have hsteps : program.Ensures down (fun a b => b.registry = a.registry) w fun _ _ => True :=
    program.uses_anything.ensures (fun op w r w' _ hdown => hdown.2) w
  have hreach := Prog.Ensures.reach (G := fun a b : World setting.policy => b.registry = a.registry)
    (fun _ => rfl) (fun _ _ _ hab hbc => hbc.trans hab) hsteps
  exact hperforms.ensures (hreach.mono fun _ _ h => h.2)

/-- A payload delivers one content only. -/
theorem Deliverable.unique {payload : PayloadReference} {content other : Bytes}
    (h : Deliverable setting payload content) (hother : Delivers setting payload other) : other = content := by
  obtain ⟨stream, hstream, -, rfl⟩ := hother
  obtain ⟨stream', heq, -, -, hcontent⟩ := h.streams _ hstream
  rw [Except.ok.inj heq, hcontent]

section Puts

variable (laws : P.Lawful) {w : World setting.policy} (hintact : Intact w.registry) (hfaults : ¬setting.faults)
variable {value : PutInput} {payload : PayloadReference} {content : Bytes}
variable {immutability : ImmutabilityRequest} {retention : Option RetentionRequest}

include laws hintact hfaults

/-- Without faults a put that has no reason to raise succeeds. -/
theorem put_valid_ensures
    (hvalid : ValidPut setting value w payload content immutability retention) :
    (adapter.put P value).Ensures setting.env World.Change w fun outcome w' =>
      w'.memory = w.memory ∧ ∃ metadata, outcome = .ok (.put metadata) ∧
        Succeeded setting value content immutability retention w w' metadata := by
  refine (put_ensures laws w hintact value).mono ?_
  rintro (error | result) w' ⟨⟨hmemory, -⟩, h⟩
  · exact absurd hvalid (h.2.resolve_left hfaults payload content immutability retention)
  · obtain ⟨other, immutability', retention', metadata, ⟨payload', hread, hdelivers⟩, hsucceeded, -, rfl⟩ := h
    obtain rfl := Except.ok.inj (hvalid.read.symm.trans hread)
    obtain rfl := hvalid.deliverable.unique hdelivers
    obtain rfl := Except.ok.inj (hvalid.parsed.symm.trans hsucceeded.parsed)
    obtain rfl := Except.ok.inj (hvalid.kept.symm.trans hsucceeded.kept)
    exact ⟨hmemory, metadata, rfl, hsucceeded⟩

variable (hresponsive : Responsive setting) {now : DateTime}
variable {history : List (Event Call Err Answer (World setting.policy))} {operation : Operation}

include hresponsive

/-- A put that has no reason to raise can be performed. -/
theorem exists_performs_put (haccepted : Accepted P adapter operation "put") (hinput : operation.input = .put value)
    (hvalid : ValidPut setting value w payload content immutability retention) :
    ∃ w' metadata, Performs setting.env (Call.program P adapter (.execute operation)) w
        (.ok (.result (.put metadata))) w' ∧
      Succeeded setting value content immutability retention w w' metadata := by
  obtain ⟨outcome, w', hperforms⟩ := hresponsive.performs (Call.program P adapter (.execute operation)) w
  have hput := put_valid_ensures laws hintact hfaults hvalid
  rw [← execute_put haccepted hinput] at hput
  have hcall : (Call.program P adapter (.execute operation)).Ensures setting.env World.Change w
      fun outcome w' => ∃ metadata, outcome = .ok (.result (.put metadata)) ∧
        Succeeded setting value content immutability retention w w' metadata := by
    refine hput.bind ?_ ?_
    · rintro result w' ⟨-, metadata, heq, hsucceeded⟩
      obtain rfl := Except.ok.inj heq
      exact ⟨metadata, rfl, hsucceeded⟩
    · rintro error w' ⟨-, metadata, heq, -⟩
      cases heq
  obtain ⟨metadata, rfl, hsucceeded⟩ := hperforms.ensures hcall
  exact ⟨w', metadata, hperforms, hsucceeded⟩

/-- A run goes on with a put that has no reason to raise. -/
theorem run_put (hrun : Runs setting now ⟨w, .idle, history⟩) (haccepted : Accepted P adapter operation "put")
    (hinput : operation.input = .put value)
    (hvalid : ValidPut setting value w payload content immutability retention) :
    ∃ w' metadata, Runs setting now
        ⟨w', .idle, history ++ [⟨.execute operation, .ok (.result (.put metadata)), w, w'⟩]⟩ ∧
      Succeeded setting value content immutability retention w w' metadata := by
  obtain ⟨w', metadata, hperforms, hsucceeded⟩ :=
    exists_performs_put laws hintact hfaults hresponsive haccepted hinput hvalid
  exact ⟨w', metadata, hrun.performs hperforms, hsucceeded⟩

/-- Without faults a delete of a version whose retention allows it can be performed. -/
theorem performs_delete {raw : Json} {reference : ObjectReference} {stored : StoredObject}
    (haccepted : Accepted P adapter operation "delete") (hinput : operation.input = .delete raw)
    (hreference : adapter.reference P raw true = .ok reference) (htargets : Targets w reference stored)
    (hclock : ∀ next, setting.tick w.now next → ∃ instant, next = .aware instant ∧
      requireDeletePermitted P stored.retention instant = .ok ()) :
    ∃ w', Performs setting.env (Call.program P adapter (.execute operation)) w (.ok (.result .delete)) w' ∧
      Removed w w' stored := by
  have hsame : ∀ {other : StoredObject}, Targets w reference other → other = stored := by
    rintro other ⟨body, hpublished, htagged, -⟩
    obtain ⟨body', hpublished', htagged', -⟩ := htargets
    obtain rfl := Option.some.inj (htagged.symm.trans htagged')
    exact hpublished.injective laws hpublished'
  obtain ⟨outcome, w', hperforms⟩ := hresponsive.performs (Call.program P adapter (.execute operation)) w
  have hdelete := delete_ensures laws w hintact raw
  rw [← execute_delete haccepted hinput] at hdelete
  have hcall : (Call.program P adapter (.execute operation)).Ensures setting.env World.Change w
      fun outcome w' => outcome = .ok (.result .delete) ∧ Removed w w' stored := by
    refine hdelete.bind ?_ ?_
    · rintro result w' ⟨-, rfl, other, found, hother, hfound, hremoved⟩
      obtain rfl := Except.ok.inj (hreference.symm.trans hother)
      rw [hsame hfound] at hremoved
      exact ⟨rfl, hremoved⟩
    · rintro error w' ⟨-, -, -, hwhy⟩
      exfalso
      cases hwhy.resolve_left hfaults with
      | reference reason herror =>
        rw [hreference] at herror
        cases herror
      | missing other hother hnone =>
        obtain rfl := Except.ok.inj (hreference.symm.trans hother)
        exact hnone stored htargets
      | clock wall htick hnow =>
        obtain ⟨instant, heq, -⟩ := hclock _ htick
        cases heq
      | retained other found instant hother hfound htick hnow herror =>
        obtain rfl := Except.ok.inj (hreference.symm.trans hother)
        rw [hsame hfound] at herror
        obtain ⟨instant', heq, hok⟩ := hclock _ htick
        cases heq
        rw [hok] at herror
        cases herror
  obtain ⟨rfl, hremoved⟩ := hperforms.ensures hcall
  exact ⟨w', hperforms, hremoved⟩

end Puts

end MeridianOci.Service
