import MeridianOci.Data.Versions
import MeridianOci.Service.Integrity
import MeridianOci.Service.Listing
import MeridianOci.Service.Sample

/-!
# The adapter as a store of versions

Callers of the adapter cannot tell it from a store of versions: whatever fails in a run, every call
shows what such a store shows, and does to the catalog what such a store does.
-/
namespace MeridianOci.Service

open MeridianOci.Data MeridianOci.Effect MeridianOci.Model

set_option autoImplicit false

variable {P : Platform} {adapter : OciDistributionAdapter}

/-! ## What callers see -/

variable (P) in
/-- Versions of objects as callers see them: by object id and digest, as metadata. -/
def objectShape : Shape String String String StoredObject ObjectMetadata where
  viewOf := StoredObject.metadata
  idOf metadata := metadata.objectRef.objectId
  keyOf metadata := metadata.digest
  slotOf := versionName P

variable (P) in
/-- What the object id of a put must not have. -/
def modeOf (value : PutInput) : Mode :=
  match immutabilityOf P value with
  | .ok immutability => if immutability.publishOnce then .once else if value.createOnly then .create else .any
  | .error _ => .any

/-- The version that a put or a completion is for. -/
def wishOf (setting : Setting P adapter.transport.binding) (w : World setting.policy) (call : Call)
    (value : PutInput) : Wish String String where
  id := value.objectId
  keys := {digest | ∃ content, sourceOf setting w call content ∧ digest = sha256Digest P content}
  mode := modeOf P value

variable (P adapter) in
/-- The object and the digest that a reference is for, if it is one. -/
def referenceShowing (raw : Json) (requireDigest : Bool)
    (showing : String → Option String → Showing String String ObjectMetadata) : Showing String String ObjectMetadata :=
  match adapter.reference P raw requireDigest with
  | .ok reference => showing reference.objectId reference.digest
  | .error _ => .nothing

variable (P adapter) in
/-- An operation that `execute` hands to the method of this name. -/
def admits (operation : Operation) (method : String) : Bool :=
  match adapter.validateOperation operation, P.requireObjectCapabilities adapter.binding operation.requirements with
  | .ok found, .ok _ => found == method
  | _, _ => false

variable (P adapter) in
/-- What an operation that returned shows, unless it published something. -/
def resultShowing : OperationInput → Result → Showing String String ObjectMetadata
  | .stat raw, .stat metadata => referenceShowing P adapter raw false fun i key => .found i key metadata
  | .get raw, .get metadata _ => referenceShowing P adapter raw false fun i key => .found i key metadata
  | .readRange raw _, .readRange metadata _ _ => referenceShowing P adapter raw false fun i key => .found i key metadata
  | .list prefixText _ _, .list items _ => .listed (fun i => prefixText.toList.isPrefixOf i.toList = true) items
  | .delete raw, .delete => referenceShowing P adapter raw true .dropped
  | _, _ => .nothing

variable (P adapter) in
/-- What an operation that raised shows, unless it was to publish something. -/
def errorShowing (operation : Operation) (excused : Prop) : Showing String String ObjectMetadata :=
  match operation.input with
  | .stat raw =>
    if admits P adapter operation "stat" then referenceShowing P adapter raw false fun i key => .missed i key excused
    else .nothing
  | .get raw =>
    if admits P adapter operation "get" then referenceShowing P adapter raw false fun i key => .missed i key excused
    else .nothing
  | .delete raw => referenceShowing P adapter raw true .undropped
  | _ => .nothing

/-- What a finished call shows to its caller. -/
def showingOf (setting : Setting P adapter.transport.binding) (event : Event Call Err Answer (World setting.policy)) :
    Showing String String ObjectMetadata :=
  match requestOf event.before.memory event.call with
  | some value =>
    match event.outcome.toOption.bind publishedBy with
    | some metadata => .stored (wishOf setting event.before event.call value) metadata
    | none => .unstored (wishOf setting event.before event.call value)
  | none =>
    match event.call, event.outcome with
    | .execute operation, .ok (.result result) => resultShowing P adapter operation.input result
    | .execute operation, .error _ => errorShowing P adapter operation (Excused setting event)
    | _, _ => .nothing

/-! ## References -/

section References

variable {policy : Policy P adapter.transport.binding} {registry : Registry policy} {reference : ObjectReference}

/-- What a reference is tagged with is the version that it names. -/
theorem resolves_of_tagged {stored : StoredObject} {body : Bytes} (hpublished : adapter.Published P stored body)
    (htagged : registry.tagged (nameOf P reference) = some body) (hid : stored.objectId = reference.objectId)
    (hdigest : ∀ digest, reference.digest = some digest → stored.metadata.digest = digest) :
    (catalogOf registry).Resolves (objectShape P) reference.objectId reference.digest stored := by
  refine ⟨hid, ?_⟩
  obtain ⟨resourceRef, objectId, digest⟩ := reference
  obtain rfl : stored.objectId = objectId := hid
  cases digest with
  | none => exact ⟨body, hpublished, htagged⟩
  | some digest =>
    obtain rfl := hdigest digest rfl
    exact ⟨⟨body, hpublished, htagged⟩, rfl⟩

theorem tagged_of_resolves {stored : StoredObject}
    (h : (catalogOf registry).Resolves (objectShape P) reference.objectId reference.digest stored) :
    ∃ resolved, Found registry reference resolved ∧ resolved.stored = stored := by
  obtain ⟨resourceRef, objectId, digest⟩ := reference
  obtain ⟨hid, h⟩ := h
  obtain rfl : stored.objectId = objectId := hid
  cases digest with
  | none =>
    obtain ⟨body, hpublished, htagged⟩ := h
    exact Found.of_published hpublished htagged rfl fun digest heq => by cases heq
  | some digest =>
    obtain ⟨⟨body, hpublished, htagged⟩, rfl⟩ := h
    exact Found.of_published hpublished htagged rfl fun digest heq => Option.some.inj heq

theorem Found.resolves {resolved : ResolvedObject P} (h : Found registry reference resolved) :
    (catalogOf registry).Resolves (objectShape P) reference.objectId reference.digest resolved.stored :=
  resolves_of_tagged h.published h.tagged h.objectId h.digest

theorem Targets.resolves {setting : Setting P adapter.transport.binding} {w : World setting.policy}
    {stored : StoredObject} (h : Targets w reference stored) :
    (catalogOf w.registry).Resolves (objectShape P) reference.objectId reference.digest stored := by
  obtain ⟨body, hpublished, htagged, hid, hdigest⟩ := h
  exact resolves_of_tagged hpublished htagged hid hdigest

theorem Unresolved.not_resolves {setting : Setting P adapter.transport.binding} {w : World setting.policy}
    (h : Unresolved w reference) (stored : StoredObject) :
    ¬(catalogOf w.registry).Resolves (objectShape P) reference.objectId reference.digest stored := by
  intro hresolves
  obtain ⟨resolved, hfound, -⟩ := tagged_of_resolves hresolves
  exact h resolved hfound

end References

/-! ## Operations -/

variable (P adapter) in
/-- The method that an operation is for. -/
def methodFor : OperationInput → String × Action Result
  | .put value => ("put", adapter.put P value)
  | .get raw => ("get", adapter.get P raw)
  | .stat raw => ("stat", adapter.stat P raw)
  | .readRange raw range => ("read_range", adapter.readRange P raw range)
  | .list prefixText limit cursor => ("list", adapter.list P prefixText limit cursor)
  | .delete raw => ("delete", adapter.delete P raw)

/-- An operation that is admitted runs its method; any other raises at once. -/
theorem execute_cases (operation : Operation) :
    (admits P adapter operation (methodFor P adapter operation.input).1 = true ∧
      adapter.execute P operation = (methodFor P adapter operation.input).2) ∨
    (admits P adapter operation (methodFor P adapter operation.input).1 = false ∧
      ∃ error, adapter.execute P operation = throw error) := by
  unfold OciDistributionAdapter.execute admits
  cases adapter.validateOperation operation with
  | error error => exact .inr ⟨rfl, error, rfl⟩
  | ok method =>
    cases P.requireObjectCapabilities adapter.binding operation.requirements with
    | error error => exact .inr ⟨rfl, error, rfl⟩
    | ok _ =>
      simp only [Action.lift_ok, Prog.ret_bind, beq_eq_false_iff_ne, beq_iff_eq]
      by_cases hmethod : method = (methodFor P adapter operation.input).1
      · refine .inl ⟨hmethod, ?_⟩
        cases hinput : operation.input with
        | _ =>
          rw [hinput] at hmethod
          exact if_pos hmethod
      · refine .inr ⟨hmethod, { kind := .other }, ?_⟩
        cases hinput : operation.input with
        | _ =>
          rw [hinput] at hmethod
          exact if_neg hmethod

variable (P adapter) in
/-- What an operation shows when it ends, unless it was to publish something. -/
def operationShowing (operation : Operation) (excused : Prop) :
    Except Err Result → Showing String String ObjectMetadata
  | .ok result => resultShowing P adapter operation.input result
  | .error _ => errorShowing P adapter operation excused

section Operations

variable {setting : Setting P adapter.transport.binding} {c c' : Catalog String StoredObject}

theorem serves_reference {raw : Json} {requireDigest : Bool}
    {showing : String → Option String → Showing String String ObjectMetadata}
    (hok : ∀ reference, adapter.reference P raw requireDigest = .ok reference →
      Catalog.Serves (objectShape P) c (showing reference.objectId reference.digest) c')
    (herror : ∀ error, adapter.reference P raw requireDigest = .error error → c' = c) :
    Catalog.Serves (objectShape P) c (referenceShowing P adapter raw requireDigest showing) c' := by
  unfold referenceShowing
  cases hreference : adapter.reference P raw requireDigest with
  | ok reference => exact hok reference hreference
  | error error =>
    rw [herror error hreference]
    exact .nothing

variable (laws : P.Lawful) (w : World setting.policy)

include laws in
/-- A list call that returns has looked at some tags, whatever its cursor. -/
theorem list_items_ensures (prefixText : String) (limit : Nat) (cursor : Option String) :
    (adapter.list P prefixText limit cursor).Ensures setting.env (fun _ _ => True) w fun outcome _ =>
      ∀ result, outcome = .ok result → ∃ (tags : List String) (next : Option String),
        result = .list (tags.filterMap (w.entry prefixText)) next := by
  have hfailed : ∀ (error : Err) (result : Result), Except.error error = .ok result →
      ∃ (tags : List String) (next : Option String), result = .list (tags.filterMap (w.entry prefixText)) next :=
    fun _ _ heq => by cases heq
  unfold OciDistributionAdapter.list
  refine (reads_ensures (uses_lift _) (fun _ => trivial) w).bind ?_ fun error _ _ => hfailed error
  rintro last w rfl
  refine (listTags_ensures laws (fun _ => trivial) w adapter.binding.maxScanTags last).bind ?_ ?_
  · rintro page w ⟨rfl, -⟩
    refine (scanTags_ensures laws w prefixText limit page.tags [] none).bind ?_ ?_
    · rintro ⟨items, scanned, stopped⟩ w ⟨rfl, front, rest, h⟩
      have hitems := h.items
      simp only [List.nil_append] at hitems
      cases scanned with
      | none =>
        rintro result heq
        obtain rfl := Except.ok.inj heq
        exact ⟨front, none, by rw [hitems]⟩
      | some tag =>
        dsimp only
        split
        · rintro result heq
          obtain rfl := Except.ok.inj heq
          exact ⟨front, _, by rw [hitems]⟩
        · rintro result heq
          obtain rfl := Except.ok.inj heq
          exact ⟨front, none, by rw [hitems]⟩
    · exact fun error _ _ => hfailed error
  · exact fun error _ _ => hfailed error

omit w

variable {w : World setting.policy}

theorem serves_found {raw : Json} {reference : ObjectReference} {resolved : ResolvedObject P}
    (hreference : adapter.reference P raw false = .ok reference) (hfound : Found w.registry reference resolved) :
    Catalog.Serves (objectShape P) (catalogOf w.registry)
      (referenceShowing P adapter raw false fun i key => .found i key resolved.stored.metadata)
      (catalogOf w.registry) := by
  refine serves_reference (fun other hother => ?_) fun _ _ => rfl
  obtain rfl := Except.ok.inj (hreference.symm.trans hother)
  exact .found _ _ _ hfound.resolves

theorem serves_missed {raw : Json} {excused : Prop} (hwhy : excused ∨ ∀ reference, adapter.reference P raw false = .ok reference →
    Unresolved w reference) : Catalog.Serves (objectShape P) (catalogOf w.registry)
      (referenceShowing P adapter raw false fun i key => .missed i key excused) (catalogOf w.registry) := by
  refine serves_reference (fun reference hreference => ?_) fun _ _ => rfl
  exact .missed _ _ _ (hwhy.imp_right fun hnone => (hnone reference hreference).not_resolves)

/-- An operation that raises at once shows nothing that is not so. -/
theorem serves_raised {operation : Operation} {excused : Prop}
    (hadmits : admits P adapter operation (methodFor P adapter operation.input).1 = false) :
    Catalog.Serves (objectShape P) c (errorShowing P adapter operation excused) c := by
  unfold errorShowing
  cases hinput : operation.input with
  | stat raw =>
    rw [hinput] at hadmits
    have hnot : admits P adapter operation "stat" = false := hadmits
    simp only [hnot, Bool.false_eq_true, if_false]
    exact .nothing
  | get raw =>
    rw [hinput] at hadmits
    have hnot : admits P adapter operation "get" = false := hadmits
    simp only [hnot, Bool.false_eq_true, if_false]
    exact .nothing
  | delete raw => exact serves_reference (fun _ _ => .undropped _ _) fun _ _ => rfl
  | _ => exact .nothing

theorem operation_serves (laws : P.Lawful) (hintact : Intact w.registry) {operation : Operation}
    (hput : ∀ value, operation.input ≠ .put value) :
    (adapter.execute P operation).Ensures setting.env World.Change w fun outcome w' =>
      Catalog.Serves (objectShape P) (catalogOf w.registry)
        (operationShowing P adapter operation setting.faults outcome) (catalogOf w'.registry) := by
  have hquiet := quiet_change laws setting
  rcases execute_cases operation with ⟨hadmits, heq⟩ | ⟨hadmits, error, heq⟩
  · rw [heq]
    cases hinput : operation.input with
    | put value => exact absurd hinput (hput value)
    | stat raw =>
      rw [hinput] at hadmits
      have hadmits : admits P adapter operation "stat" = true := hadmits
      refine (stat_ensures laws w hintact raw).mono ?_
      rintro (error | result) w' ⟨rfl, h⟩
      · simp only [operationShowing, errorShowing, hinput, hadmits, if_true]
        exact serves_missed h
      · obtain ⟨reference, resolved, hreference, hfound, rfl⟩ := h
        simp only [operationShowing, hinput, resultShowing]
        exact serves_found hreference hfound
    | get raw =>
      rw [hinput] at hadmits
      have hadmits : admits P adapter operation "get" = true := hadmits
      refine (get_ensures laws w hintact raw).mono ?_
      rintro (error | result) w' ⟨hreads, h⟩
      · simp only [operationShowing, errorShowing, hinput, hadmits, if_true, hreads.registry]
        exact serves_missed h
      · obtain ⟨reference, resolved, payload, hreference, hfound, rfl, -⟩ := h
        simp only [operationShowing, hinput, resultShowing, hreads.registry]
        exact serves_found hreference hfound
    | readRange raw range =>
      refine (readRange_ensures laws w hintact raw range).mono ?_
      rintro (error | result) w' ⟨hreads, h⟩
      · simp only [operationShowing, errorShowing, hinput, hreads.registry]
        exact .nothing
      · obtain ⟨reference, resolved, byteRange, selected, payload, hreference, hfound, -, -, -, rfl, -⟩ := h
        simp only [operationShowing, hinput, resultShowing, hreads.registry]
        exact serves_found hreference hfound
    | list prefixText limit cursor =>
      refine ((reads_ensures (reads_list P adapter prefixText limit cursor) hquiet.refl w).and
        (list_items_ensures laws w prefixText limit cursor)).weaken (fun _ _ _ _ h => h) (fun _ _ h => h.1) ?_
      rintro (error | result) w' ⟨rfl, h⟩
      · simp only [operationShowing, errorShowing, hinput]
        exact .nothing
      · obtain ⟨tags, next, rfl⟩ := h result rfl
        simp only [operationShowing, hinput, resultShowing]
        refine .listed _ _ fun metadata hmem => ?_
        obtain ⟨tag, -, hentry⟩ := List.mem_filterMap.mp hmem
        obtain ⟨stored, hlive, -, rfl, hmatch⟩ := (hintact.entry_iff laws).mp hentry
        exact ⟨hmatch, stored, hlive, rfl⟩
    | delete raw =>
      refine (delete_ensures laws w hintact raw).mono ?_
      rintro (error | result) w' ⟨-, h⟩
      · simp only [operationShowing, errorShowing, hinput]
        rcases h.1 with hsame | ⟨reference, stored, hreference, htargets, hremoved⟩
        · rw [hsame]
          exact serves_reference (fun _ _ => .undropped _ _) fun _ _ => rfl
        · rw [hremoved.2.1]
          refine serves_reference (fun other hother => ?_) fun error herror => ?_
          · obtain rfl := Except.ok.inj (hreference.symm.trans hother)
            exact .lost _ _ _ htargets.resolves
          · rw [hreference] at herror
            cases herror
      · obtain ⟨rfl, reference, stored, hreference, htargets, hremoved⟩ := h
        simp only [operationShowing, hinput, resultShowing]
        rw [hremoved.2.1]
        refine serves_reference (fun other hother => ?_) fun error herror => ?_
        · obtain rfl := Except.ok.inj (hreference.symm.trans hother)
          exact .dropped _ _ _ htargets.resolves
        · rw [hreference] at herror
          cases herror
  · rw [heq]
    exact serves_raised hadmits

/-- A better excuse does as well. -/
theorem serves_excused {operation : Operation} {excused excused' : Prop} {outcome : Except Err Result}
    (h : Catalog.Serves (objectShape P) c (operationShowing P adapter operation excused outcome) c')
    (hexcused : excused → excused') :
    Catalog.Serves (objectShape P) c (operationShowing P adapter operation excused' outcome) c' := by
  have hreference : ∀ {raw : Json}, Catalog.Serves (objectShape P) c
      (referenceShowing P adapter raw false fun i key => .missed i key excused) c' → Catalog.Serves (objectShape P) c
      (referenceShowing P adapter raw false fun i key => .missed i key excused') c' := by
    intro raw hserves
    unfold referenceShowing at hserves ⊢
    cases hreference : adapter.reference P raw false with
    | error error =>
      rw [hreference] at hserves
      exact hserves
    | ok reference =>
      rw [hreference] at hserves
      cases hserves with
      | missed _ _ _ hwhy => exact .missed _ _ _ (hwhy.imp_left hexcused)
  cases outcome with
  | ok result => exact h
  | error error =>
    simp only [operationShowing, errorShowing] at h ⊢
    cases hinput : operation.input with
    | stat raw =>
      simp only [hinput] at h ⊢
      split at h
      · rename_i hadmits
        rw [if_pos hadmits]
        exact hreference h
      · rename_i hadmits
        rw [if_neg hadmits]
        exact h
    | get raw =>
      simp only [hinput] at h ⊢
      split at h
      · rename_i hadmits
        rw [if_pos hadmits]
        exact hreference h
      · rename_i hadmits
        rw [if_neg hadmits]
        exact h
    | _ =>
      rw [hinput] at h
      exact h

end Operations

/-! ## Calls -/

section Calls

variable {setting : Setting P adapter.transport.binding} {w w' : World setting.policy} {call : Call} {value : PutInput}

/-- A call that is neither a request nor a delete leaves the catalog. -/
theorem Effected.same {outcome : Except Err Answer} (h : Effected setting w w' call outcome)
    (hrequest : requestOf w.memory call = none) (hdeletion : deletionOf call = none) :
    catalogOf w'.registry = catalogOf w.registry := by
  cases h with
  | published other content immutability retention metadata answer hother =>
    rw [hrequest] at hother
    cases hother
  | interrupted other error hother =>
    rw [hrequest] at hother
    cases hother
  | removed raw reference stored _ hother =>
    rw [hdeletion] at hother
    cases hother
  | unchanged _ _ hsame _ => exact hsame

variable (laws : P.Lawful) (hintact : Intact w.registry)

include laws hintact

theorem open_iff {immutability : ImmutabilityRequest} (hparsed : immutabilityOf P value = .ok immutability) :
    (catalogOf w.registry).Open (storedNames P) value.objectId (modeOf P value) ↔
      Available w.registry value.objectId immutability (value.createOnly || immutability.publishOnce) := by
  rw [available_iff laws hintact, modeOf, hparsed]
  dsimp only
  cases immutability.publishOnce with
  | true => simp [Catalog.Open]
  | false =>
    cases value.createOnly with
    | true =>
      simp only [Bool.or_false, forall_const, Bool.false_eq_true, if_false, if_true, false_imp_iff, true_and]
      exact Iff.rfl
    | false => simp [Catalog.Open]

/-- A request that returned has stored a version. -/
theorem serves_published {content : Bytes} {immutability : ImmutabilityRequest} {retention : Option RetentionRequest}
    {metadata : ObjectMetadata} (hsource : sourceOf setting w call content)
    (h : Succeeded setting value content immutability retention w w' metadata) :
    Catalog.Serves (objectShape P) (catalogOf w.registry)
      (.stored (wishOf setting w call value) metadata) (catalogOf w'.registry) := by
  obtain ⟨stored, rfl, hid, hdigest, hadvances⟩ := h.advances laws hintact
  have hfits : Catalog.Fits (objectShape P) (wishOf setting w call value) stored := ⟨content, hsource, hdigest⟩
  cases hadvances with
  | existing honly hlive hcatalog =>
    rw [hcatalog]
    refine .refreshed _ stored ?_ hfits hid hlive
    obtain ⟨hcreate, honce⟩ := Bool.or_eq_false_iff.mp honly
    simp [wishOf, modeOf, h.parsed, hcreate, honce]
  | fresh _ _ hslot hcatalog =>
    rw [hcatalog, hid]
    exact .stored _ stored ((open_iff laws hintact h.parsed).mpr h.available) hfits hid hslot

/-- A request that raised has stopped on the way, and did nothing if its mode is against it. -/
theorem serves_interrupted (h : Interrupted setting value (sourceOf setting w call) w w') :
    Catalog.Serves (objectShape P) (catalogOf w.registry) (.unstored (wishOf setting w call value))
      (catalogOf w'.registry) := by
  refine .unstored _ _ ?_ fun hclosed => ?_
  · rcases h.commits with hsame | ⟨content, hsource, hcommits⟩
    · rw [hsame]
      exact .untouched
    · exact hcommits.mono fun stored hfits => ⟨content, hsource, hfits⟩
  · cases hparsed : immutabilityOf P value with
    | error error =>
      refine absurd ?_ hclosed
      simp [wishOf, modeOf, hparsed, Catalog.Open]
    | ok immutability =>
      exact h.refused immutability hparsed fun havailable => hclosed ((open_iff laws hintact hparsed).mpr havailable)

theorem execute_serves {operation : Operation} (hput : ∀ value, operation.input ≠ .put value) :
    (Call.program P adapter (.execute operation)).Ensures setting.env World.Change w fun outcome w' =>
      ∃ result : Except Err Result, outcome = result.map .result ∧ Catalog.Serves (objectShape P) (catalogOf w.registry)
        (operationShowing P adapter operation setting.faults result) (catalogOf w'.registry) :=
  (operation_serves laws hintact hput).bind (fun result _ hserves => ⟨.ok result, rfl, hserves⟩)
    fun error _ hserves => ⟨.error error, rfl, hserves⟩

/-- Every call shows what a store of versions shows, and does what it does. -/
theorem call_serves (hsound : SoundMemory w.memory) (call : Call) :
    (call.program P adapter).Ensures setting.env World.Change w fun outcome w' =>
      Catalog.Serves (objectShape P) (catalogOf w.registry) (showingOf setting ⟨call, outcome, w, w'⟩)
        (catalogOf w'.registry) := by
  cases hrequest : requestOf w.memory call with
  | some value =>
    refine (call_ensures laws w hintact hsound call).mono ?_
    rintro (error | answer) w' ⟨-, heffected⟩
    · simp only [showingOf, hrequest]
      exact serves_interrupted laws hintact (heffected.failed hrequest)
    · obtain ⟨content, immutability, retention, metadata, hsource, hsucceeded, hanswer⟩ := heffected.succeeded hrequest
      simp only [showingOf, hrequest, Except.toOption, Option.bind_some, hanswer]
      exact serves_published laws hintact hsource hsucceeded
  | none =>
    cases call with
    | execute operation =>
      have hput : ∀ value, operation.input ≠ .put value := by
        intro value hinput
        simp [requestOf, hinput] at hrequest
      refine (execute_serves laws hintact hput).mono ?_
      rintro outcome w' ⟨result, rfl, hserves⟩
      have hshowing : showingOf setting ⟨.execute operation, result.map .result, w, w'⟩ =
          operationShowing P adapter operation (Excused setting ⟨.execute operation, result.map .result, w, w'⟩)
            result := by
        unfold showingOf
        rw [hrequest]
        cases result <;> rfl
      rw [hshowing]
      by_cases hperforms : Performs setting.faultless.env ((Call.execute operation).program P adapter) w
          (result.map .result) w'
      · obtain ⟨other, heq, hother⟩ := hperforms.ensures (@execute_serves P adapter setting.faultless w laws hintact
          operation hput)
        have hsame : other = result := by
          cases other with
          | error error =>
            cases result with
            | error raised =>
              obtain rfl := Except.error.inj heq
              rfl
            | ok value => cases heq
          | ok other =>
            cases result with
            | error raised => cases heq
            | ok value =>
              obtain rfl := Answer.result.inj (Except.ok.inj heq)
              rfl
        rw [hsame] at hother
        exact serves_excused hother False.elim
      · exact serves_excused hserves fun _ => hperforms
    | _ =>
      refine (call_ensures laws w hintact hsound _).mono ?_
      rintro outcome w' ⟨-, heffected⟩
      simp only [showingOf, hrequest]
      rw [heffected.same hrequest rfl]
      exact .nothing

end Calls

/-! ## Runs -/

section Runs

variable {setting : Setting P adapter.transport.binding} {now : DateTime}
variable {first w : World setting.policy} {history : List (Event Call Err Answer (World setting.policy))}

theorem Log.execution (h : Log setting first history w)
    (hserves : ∀ event ∈ history, Catalog.Serves (objectShape P) (catalogOf event.before.registry)
      (showingOf setting event) (catalogOf event.after.registry)) :
    Catalog.Execution (objectShape P) (catalogOf first.registry) (history.map (showingOf setting))
      (catalogOf w.registry) := by
  induction h with
  | nil => exact .nil
  | snoc history event _ _ ih =>
    rw [List.map_append, List.map_singleton]
    refine .snoc _ _ _ _ (ih fun other hother => hserves other (List.mem_append_left _ hother)) ?_
    exact hserves event (List.mem_append_right _ (List.mem_singleton_self _))

theorem catalogOf_start (policy : Policy P adapter.transport.binding) (now : DateTime) :
    catalogOf (World.empty policy now).registry = ⟨∅, ∅, ∅⟩ := by
  have hnone : ∀ tag, (World.empty policy now).registry.tagged tag = none := by
    intro tag
    rw [Registry.tagged_eq_none]
    simp [World.empty, Registry.empty]
  simp only [catalogOf, hnone, reduceCtorEq, and_false, exists_const, Set.ofPred_false]

/-- Every run of the adapter is a run of a store of versions: each finished call shows and does what the store does. -/
theorem run_refines (laws : P.Lawful) {config : Config Op Op.Res Err Answer (World setting.policy) Call}
    (h : Runs setting now config) : ∃ w, (config.phase = .idle → w = config.state) ∧
      Catalog.Execution (objectShape P) ⟨∅, ∅, ∅⟩ (config.history.map (showingOf setting))
        (catalogOf w.registry) := by
  obtain ⟨w, hlog, hidle⟩ := h.log laws
  refine ⟨w, hidle, ?_⟩
  have hserves := h.every laws fun w call hintact hsound => call_serves laws hintact hsound call
  rw [← catalogOf_start setting.policy now]
  exact hlog.execution hserves

/-- What callers see of a run is consistent in itself. -/
theorem run_consistent (laws : P.Lawful) {config : Config Op Op.Res Err Answer (World setting.policy) Call}
    (h : Runs setting now config) :
    Consistent (objectShape P) (config.history.map (showingOf setting)) := by
  obtain ⟨w, -, hexecution⟩ := run_refines laws h
  exact hexecution.consistent

end Runs

namespace Sample

open Model.Sample (platform lawful)

/-- A version is stored, another put fails, and the version is dropped again. -/
def dropped {limit : Nat} (error : Err) (w w₁ w₂ : World (setting limit True).policy) :
    List (Event Call Err Answer (World (setting limit True).policy)) :=
  [⟨.execute (once "a" "x").operation, .ok (.result (.put (once "a" "x").stored.metadata)), World.empty _ (.aware 0), w⟩,
    ⟨.execute (Plain.operation { objectId := "a", text := "y" }), .error error, w, w₁⟩,
    ⟨.execute (once "a" "x").deletion, .ok (.result .delete), w₁, w₂⟩]

def droppedShowings {limit : Nat} (w : World (setting limit True).policy) :
    List (Showing String String ObjectMetadata) :=
  [.stored (wishOf (setting limit True) (World.empty _ (.aware 0)) (.execute (once "a" "x").operation)
      (once "a" "x").input) (once "a" "x").stored.metadata,
    .unstored (wishOf (setting limit True) w (.execute (Plain.operation { objectId := "a", text := "y" }))
      (Plain.input { objectId := "a", text := "y" })),
    .dropped "a" (some (sha256Digest platform (once "a" "x").content))]

theorem run_dropped : ∃ limit error, ∃ w w₁ w₂ : World (setting limit True).policy,
    Runs (setting limit True) (.aware 0) ⟨w₂, .idle, dropped error w w₁ w₂⟩ ∧
    (dropped error w w₁ w₂).map (showingOf (setting limit True)) = droppedShowings w := by
  obtain ⟨limit, hfits⟩ := exists_limit [once "a" "x", { objectId := "a", text := "y" }] (by decide)
  obtain ⟨w, hrun, hcatalog⟩ := @run_new limit True (once "a" "x") (hfits _ List.mem_cons_self) (.aware 0) _ [] .refl
    (fun _ => empty_tagged _ _) (by
      rw [catalogOf_empty]
      exact fun other h => h.elim)
  have hlive : (once "a" "x").stored ∈ (catalogOf w.registry).live := by
    rw [hcatalog]
    exact .inl rfl
  obtain ⟨w₁, error, hrun₁, hsame⟩ := @run_down limit { objectId := "a", text := "y" }
    (hfits _ (List.mem_cons_of_mem _ List.mem_cons_self)).content (.aware 0) _ _ hrun (by
      rw [hcatalog, catalogOf_empty]
      rintro stored (rfl | hold)
      · exact @digest_ne (once "a" "x") { objectId := "a", text := "y" } (by decide)
      · exact hold.elim)
  rw [← hsame] at hlive
  obtain ⟨w₂, hperforms, -⟩ := @performs_deletion limit (once "a" "x") w₁ (Runs.intact lawful hrun₁) _ hlive rfl rfl rfl
  refine ⟨limit, error, w, w₁, w₂, run_performs hrun₁ hperforms, ?_⟩
  have hdropped : showingOf (setting limit True) ⟨.execute (once "a" "x").deletion, .ok (.result .delete), w₁, w₂⟩ =
      .dropped "a" (some (sha256Digest platform (once "a" "x").content)) := by
    simp only [showingOf, requestOf, Plain.deletion, resultShowing, referenceShowing, reference_plain]
    rfl
  simp only [dropped, List.map_cons, List.map_nil, hdropped]
  rfl

theorem run_refines_dropped : ∃ limit error, ∃ w w₁ w₂ : World (setting limit True).policy,
    Runs (setting limit True) (.aware 0) ⟨w₂, .idle, dropped error w w₁ w₂⟩ ∧
    Catalog.Execution (objectShape platform) ⟨∅, ∅, ∅⟩ (droppedShowings w) (catalogOf w₂.registry) := by
  obtain ⟨limit, error, w, w₁, w₂, hrun, hshown⟩ := run_dropped
  obtain ⟨last, hidle, hexecution⟩ := run_refines lawful hrun
  obtain rfl := hidle rfl
  rw [hshown] at hexecution
  exact ⟨limit, error, w, w₁, _, hrun, hexecution⟩

theorem run_consistent_dropped : ∃ limit error, ∃ w w₁ w₂ : World (setting limit True).policy,
    Runs (setting limit True) (.aware 0) ⟨w₂, .idle, dropped error w w₁ w₂⟩ ∧
    Consistent (objectShape platform) (droppedShowings w) := by
  obtain ⟨limit, error, w, w₁, w₂, hrun, hshown⟩ := run_dropped
  have hconsistent := run_consistent lawful hrun
  rw [hshown] at hconsistent
  exact ⟨limit, error, w, w₁, w₂, hrun, hconsistent⟩

end Sample

end MeridianOci.Service
