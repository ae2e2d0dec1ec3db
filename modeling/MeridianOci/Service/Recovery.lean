import MeridianOci.Service.Carried
import MeridianOci.Service.Integrity

/-!
# Recovery of a request

A put or a completion that raised has stopped somewhere on the way of its commit. What
could be found before is still found, what is new is complete, and a later put of the same
content repairs the latest tag.
-/
namespace MeridianOci.Service

open MeridianOci.Data MeridianOci.Effect MeridianOci.Model

set_option autoImplicit false

variable {P : Platform} {adapter : OciDistributionAdapter}
variable {setting : Setting P adapter.transport.binding}

/-! ## What a failure leaves -/

section Failure

variable (laws : P.Lawful) {w w' : World setting.policy} (hintact : Intact w.registry)
variable (hintact' : Intact w'.registry) {value : PutInput} {source : Bytes → Prop}
variable (h : Interrupted setting value source w w')

include laws hintact hintact' h

theorem Interrupted.lookup_exact {objectId digest : String} {resolved : ResolvedObject P}
    (hlookup : w.lookup (exactReference adapter objectId digest) = .ok resolved) :
    w'.lookup (exactReference adapter objectId digest) = .ok resolved := by
  refine lookup_live laws hintact hintact' hlookup ?_
  have hlive := (Service.lookup_exact laws hintact hlookup).1
  rcases h.commits with hsame | ⟨content, -, hcommits⟩
  · rw [hsame]
    exact hlive
  · exact hcommits.live.1 hlive

/-- The latest version of an object id that was not requested. -/
theorem Interrupted.lookup_other {objectId : String} (hne : objectId ≠ value.objectId)
    (resolved : ResolvedObject P) : w'.lookup (latestReference adapter objectId) = .ok resolved ↔
      w.lookup (latestReference adapter objectId) = .ok resolved := by
  have hsame : ∀ stored : StoredObject, stored.objectId = objectId →
      (stored ∈ (catalogOf w'.registry).latest ↔ stored ∈ (catalogOf w.registry).latest) := by
    rintro stored rfl
    rcases h.commits with hsame | ⟨content, -, hcommits⟩
    · rw [hsame]
    · exact hcommits.latest_other hne
  constructor
  · intro hlookup
    obtain ⟨hlatest, hid⟩ := lookup_latest laws hintact' hlookup
    exact lookup_same laws hintact' hintact hlookup ((hsame _ hid).mp hlatest)
  · intro hlookup
    obtain ⟨hlatest, hid⟩ := lookup_latest laws hintact hlookup
    exact lookup_same laws hintact hintact' hlookup ((hsame _ hid).mpr hlatest)

/-- The latest version of the requested object id is the previous one or a new one. -/
theorem Interrupted.lookup_requested :
    (∀ resolved, w'.lookup (latestReference adapter value.objectId) = .ok resolved ↔
      w.lookup (latestReference adapter value.objectId) = .ok resolved) ∨
    ∃ content resolved, source content ∧ resolved.stored.metadata.digest = sha256Digest P content ∧
      w'.lookup (latestReference adapter value.objectId) = .ok resolved ∧
      w'.lookup (exactReference adapter value.objectId (sha256Digest P content)) = .ok resolved := by
  have hunchanged : (catalogOf w'.registry).latest = (catalogOf w.registry).latest →
      ∀ resolved, w'.lookup (latestReference adapter value.objectId) = .ok resolved ↔
        w.lookup (latestReference adapter value.objectId) = .ok resolved := by
    intro hsame resolved
    constructor
    · intro hlookup
      exact lookup_same laws hintact' hintact hlookup (hsame ▸ (lookup_latest laws hintact' hlookup).1)
    · intro hlookup
      exact lookup_same laws hintact hintact' hlookup (hsame ▸ (lookup_latest laws hintact hlookup).1)
  rcases h.commits with hsame | ⟨content, hsource, hcommits⟩
  · exact .inl (hunchanged (by rw [hsame]))
  · rcases hcommits.latest_same with hsame | ⟨stored, hgood, hid, hlive, hpoint⟩
    · exact .inl (hunchanged hsame)
    · have hid : stored.objectId = value.objectId := hid
      have hdigest : stored.metadata.digest = sha256Digest P content := hgood
      have hlatest : stored ∈ (catalogOf w'.registry).latest := hpoint ▸ .inl rfl
      obtain ⟨resolved, hlookup, rfl⟩ := (mem_latest_iff laws hintact').mp hlatest
      rw [hid] at hlookup
      have hexact := lookup_latest_exact laws hintact' hlookup hlive
      rw [hdigest] at hexact
      exact .inr ⟨content, resolved, hsource, hdigest, hlookup, hexact⟩

end Failure

/-! ## Repair -/

/-- A put of a content that has no reason to raise, apart from the registry. -/
structure Ready (setting : Setting P adapter.transport.binding) (again : PutInput) (content : Bytes)
    (immutability : ImmutabilityRequest) (now : DateTime) : Prop where
  parsed : immutabilityOf P again = .ok immutability
  valid : ∃ payload retention, payloadOf P again = .ok payload ∧ retentionOf P again = .ok retention ∧
    Deliverable setting payload content ∧
    Acceptable setting again (identityOf P content) immutability retention now

/-- A put that may replace the latest version and has no reason to raise, apart from the registry. -/
structure Repairs (setting : Setting P adapter.transport.binding) (again : PutInput) (objectId : String)
    (content : Bytes) (now : DateTime) : Prop where
  objectId : again.objectId = objectId
  createOnly : again.createOnly = false
  ready : ∃ immutability, immutability.publishOnce = false ∧ Ready setting again content immutability now

/-- No other object id with a live version shares the short hash. -/
def Unshared (w : World setting.policy) (objectId : String) : Prop :=
  ∀ other digest resolved, w.lookup (exactReference adapter other digest) = .ok resolved →
    shortHash P other = shortHash P objectId → other = objectId

theorem Ready.faultless {again : PutInput} {content : Bytes} {immutability : ImmutabilityRequest}
    {now : DateTime} (h : Ready setting again content immutability now) :
    Ready setting.faultless again content immutability now := by
  obtain ⟨hparsed, payload, retention, hpayload, hretention, hdeliverable, hacceptable⟩ := h
  exact ⟨hparsed, payload, retention, hpayload, hretention,
    ⟨hdeliverable.streams, hdeliverable.short, hdeliverable.length, hdeliverable.digest⟩,
    ⟨hacceptable.anchorFits, hacceptable.mediaType, hacceptable.metadata⟩⟩

theorem Repairs.faultless {again : PutInput} {objectId : String} {content : Bytes} {now : DateTime}
    (h : Repairs setting again objectId content now) : Repairs setting.faultless again objectId content now :=
  ⟨h.objectId, h.createOnly, h.ready.imp fun _ hready => ⟨hready.1, hready.2.faultless⟩⟩

/-- Without faults a repairing put leaves both tags at its content. -/
theorem put_repairs (laws : P.Lawful) (hfaults : ¬setting.faults) {w : World setting.policy}
    (hintact : Intact w.registry) {again : PutInput} {objectId : String} {content : Bytes}
    (hrepairs : Repairs setting again objectId content w.now) (hunshared : Unshared w objectId) :
    (adapter.put P again).Ensures setting.env World.Change w fun outcome w' =>
      ∃ metadata resolved, outcome = .ok (.put metadata) ∧ resolved.stored.metadata = metadata ∧
        metadata.digest = sha256Digest P content ∧
        w'.lookup (exactReference adapter objectId (sha256Digest P content)) = .ok resolved ∧
        w'.lookup (latestReference adapter objectId) = .ok resolved := by
  obtain ⟨immutability, honce, himmutability, payload, retention, hpayload, hretention, hdeliverable,
    hacceptable⟩ := hrepairs.ready
  obtain rfl := hrepairs.objectId
  have hflags : (again.createOnly || immutability.publishOnce) = false := by
    rw [hrepairs.createOnly, honce]
    rfl
  have hvalid : ValidPut setting again w payload content immutability retention := by
    refine ⟨hpayload, himmutability, hretention, hdeliverable, ?_, not_blocked laws hintact ?_,
      fun _ => hacceptable⟩
    · rw [hflags]
      exact fun h => by cases h
    · intro stored hlive hdigest hhash
      refine ⟨hflags, ?_⟩
      obtain ⟨resolved, hlookup, -⟩ := (mem_live_iff laws hintact).mp hlive
      exact hunshared _ _ resolved hlookup hhash
  refine ((put_valid_ensures laws hintact hfaults hvalid).invariant
    (fun _ _ hs hmove => Move.intact laws hmove hs) hintact).weaken (fun _ _ _ _ h => h) (fun _ _ h => h.1) ?_
  rintro outcome w' ⟨⟨-, metadata, rfl, hsucceeded⟩, hintact'⟩
  obtain ⟨stored, rfl, hid, hdigest, hadvances⟩ := hsucceeded.advances laws hintact
  obtain ⟨resolved, hlookup, rfl⟩ := (mem_latest_iff laws hintact').mp (hadvances.latest.mpr (.inl rfl))
  rw [hid] at hlookup
  have hexact := lookup_latest_exact laws hintact' hlookup (hadvances.live.mpr (.inl rfl))
  rw [hdigest] at hexact
  exact ⟨_, resolved, rfl, rfl, hdigest, hexact, hlookup⟩

/-- After a put or a completion raised: older versions resolve as before, the exact tags of the
object id resolve completely, its latest version is the previous one or a new one, and any
later put of a content of the request repairs both tags. -/
theorem crash_consistent (laws : P.Lawful) (hresponsive : Responsive setting) {now : DateTime}
    {w : World setting.policy} {front rest : List (Event Call Err Answer (World setting.policy))}
    {event : Event Call Err Answer (World setting.policy)} {value : PutInput} {error : Err}
    (hrun : Runs setting now ⟨w, .idle, front ++ event :: rest⟩)
    (hrequest : requestOf event.before.memory event.call = some value) (herror : event.outcome = .error error) :
    (∀ objectId digest resolved, event.before.lookup (exactReference adapter objectId digest) = .ok resolved →
      event.after.lookup (exactReference adapter objectId digest) = .ok resolved) ∧
    (∀ objectId resolved, objectId ≠ value.objectId →
      (event.after.lookup (latestReference adapter objectId) = .ok resolved ↔
        event.before.lookup (latestReference adapter objectId) = .ok resolved)) ∧
    (∀ digest body, event.after.registry.tagged (versionName P value.objectId digest) = some body →
      ResolvesCompletely event.after.registry body) ∧
    ((∀ resolved, event.after.lookup (latestReference adapter value.objectId) = .ok resolved ↔
        event.before.lookup (latestReference adapter value.objectId) = .ok resolved) ∨
      ∃ content resolved, sourceOf setting event.before event.call content ∧
        resolved.stored.metadata.digest = sha256Digest P content ∧
        event.after.lookup (latestReference adapter value.objectId) = .ok resolved ∧
        event.after.lookup (exactReference adapter value.objectId (sha256Digest P content)) = .ok resolved) ∧
    ∀ again content, sourceOf setting event.before event.call content →
      Repairs setting again value.objectId content w.now → Unshared w value.objectId →
      (∃ outcome w', Performs setting.faultless.env (adapter.put P again) w outcome w') ∧
      ∀ outcome w', Performs setting.faultless.env (adapter.put P again) w outcome w' →
        ∃ metadata resolved, outcome = .ok (.put metadata) ∧ resolved.stored.metadata = metadata ∧
          metadata.digest = sha256Digest P content ∧
          w'.lookup (exactReference adapter value.objectId (sha256Digest P content)) = .ok resolved ∧
          w'.lookup (latestReference adapter value.objectId) = .ok resolved := by
  have hintact := hrun.intact laws
  obtain ⟨last, hlog, -⟩ := hrun.log laws
  obtain ⟨-, hdone, -⟩ := hlog.split
  have hintact' := (hrun.after laws).intact laws
  have heffected := hdone.effected
  rw [herror] at heffected
  have hinterrupted := heffected.failed hrequest
  refine ⟨fun objectId digest resolved => hinterrupted.lookup_exact laws hdone.intact hintact',
    fun objectId resolved hne => hinterrupted.lookup_other laws hdone.intact hintact' hne resolved, ?_,
    hinterrupted.lookup_requested laws hdone.intact hintact', ?_⟩
  · intro digest body htagged
    refine hintact'.resolves laws htagged (.inl ?_)
    simp [versionTagPrefix, versionName, List.isPrefixOf]
  · intro again content _ hrepairs hunshared
    have hresponsive' : Responsive setting.faultless := ⟨hresponsive.streams, hresponsive.tick⟩
    refine ⟨hresponsive'.performs _ w, fun outcome w' hperforms => ?_⟩
    exact hperforms.ensures (@put_repairs P adapter setting.faultless laws id w hintact again _ _
      hrepairs.faultless hunshared)

/-! ## Publish-once after a failure -/

/-- A live version of another object id with the same short hash has the content. -/
def Collides (w : World setting.policy) (objectId : String) (content : Bytes) : Prop :=
  ∃ other resolved, other ≠ objectId ∧ shortHash P other = shortHash P objectId ∧
    w.lookup (exactReference adapter other (sha256Digest P content)) = .ok resolved

/-- Without faults a publish-once put that has no other reason to raise succeeds if and only if
the object id is unknown and no other one has taken the tag. -/
theorem put_once_ensures (laws : P.Lawful) (hfaults : ¬setting.faults) {w : World setting.policy}
    (hintact : Intact w.registry) {again : PutInput} {content : Bytes} {immutability : ImmutabilityRequest}
    (hready : Ready setting again content immutability w.now) (honce : immutability.publishOnce = true) :
    (adapter.put P again).Ensures setting.env World.Change w fun outcome _ =>
      (∃ metadata, outcome = .ok (.put metadata)) ↔
        again.objectId ∉ (catalogOf w.registry).anchored ∧ ¬Collides w again.objectId content := by
  obtain ⟨himmutability, payload, retention, hpayload, hretention, hdeliverable, hacceptable⟩ := hready
  have hflags : (again.createOnly || immutability.publishOnce) = true := by
    rw [honce, Bool.or_true]
  by_cases hopen : again.objectId ∉ (catalogOf w.registry).anchored ∧ ¬Collides w again.objectId content
  · obtain ⟨hunknown, hapart⟩ := hopen
    have hvalid : ValidPut setting again w payload content immutability retention := by
      refine ⟨hpayload, himmutability, hretention, hdeliverable, ?_, not_blocked laws hintact ?_,
        fun _ => hacceptable⟩
      · refine (available_iff laws hintact).mpr fun _ => ⟨fun _ => hunknown, fun hplain => ?_⟩
        rw [honce] at hplain
        cases hplain
      · intro stored hlive hdigest hhash
        obtain ⟨resolved, hlookup, -⟩ := (mem_live_iff laws hintact).mp hlive
        rw [hdigest] at hlookup
        by_cases hid : stored.objectId = again.objectId
        · exact absurd (hid ▸ hintact.live_anchored stored hlive) hunknown
        · exact absurd ⟨stored.objectId, resolved, hid, hhash, hlookup⟩ hapart
    refine (put_valid_ensures laws hintact hfaults hvalid).mono ?_
    rintro outcome w' ⟨-, metadata, rfl, -⟩
    exact ⟨fun _ => ⟨hunknown, hapart⟩, fun _ => ⟨metadata, rfl⟩⟩
  · refine (put_ensures laws w hintact again).mono ?_
    rintro outcome w' ⟨-, houtcome⟩
    refine ⟨?_, fun h => absurd h hopen⟩
    rintro ⟨metadata, rfl⟩
    obtain ⟨delivered, found, retention', metadata', ⟨payload', hread, hdelivers⟩, hsucceeded, -⟩ := houtcome
    obtain rfl := Except.ok.inj (hpayload.symm.trans hread)
    obtain rfl := hdeliverable.unique hdelivers
    obtain rfl := Except.ok.inj (himmutability.symm.trans hsucceeded.parsed)
    refine ⟨((available_iff laws hintact).mp hsucceeded.available hflags).1 honce, ?_⟩
    rintro ⟨other, resolved, -, hhash, hlookup⟩
    obtain ⟨⟨body, -, htagged⟩, hid, hdigest⟩ := lookup_exact laws hintact hlookup
    have hname : resolved.stored.exactName P = versionName P again.objectId (sha256Digest P delivered) := by
      rw [StoredObject.exactName, hid, hdigest, versionName, versionName, hhash]
    obtain ⟨w₁, w₂, hgrows, -, -, -, hcommitted, -⟩ := hsucceeded.committed
    -- a create-only commit finds its exact tag free
    cases hcommitted with
    | existing _ _ _ _ _ _ hplain =>
      rw [hflags] at hplain
      cases hplain
    | fresh _ _ _ _ hfree =>
      rw [hgrows.tagged] at hfree
      rw [hname] at htagged
      cases hfree.symm.trans htagged

/-- A request that is not available raises a conflict. -/
theorem put_conflict_ensures (laws : P.Lawful) (hfaults : ¬setting.faults) {w : World setting.policy}
    {value : PutInput} {payload : PayloadReference} {immutability : ImmutabilityRequest}
    {retention : Option RetentionRequest} (hpayload : payloadOf P value = .ok payload)
    (himmutability : immutabilityOf P value = .ok immutability)
    (hretention : retentionOf P value = .ok retention)
    (hclosed : ¬Available w.registry value.objectId immutability
      (value.createOnly || immutability.publishOnce)) :
    (adapter.put P value).Ensures setting.env World.Change w fun outcome w' => w' = w ∧
      ∃ error, outcome = .error error ∧
        error.kind = if immutability.publishOnce then .immutableObjectConflict else .conditionalConflict := by
  have hquiet := quiet_change laws setting
  have hcheck : (adapter.requireCreateAvailable P value.objectId immutability
      (value.createOnly || immutability.publishOnce)).Ensures setting.env World.Change w
      fun outcome w' => w' = w ∧ ∃ error, outcome = .error error ∧
        error.kind = if immutability.publishOnce then .immutableObjectConflict else .conditionalConflict := by
    rw [Available, Classical.not_imp] at hclosed
    obtain ⟨honly, htagged⟩ := hclosed
    simp only [OciDistributionAdapter.requireCreateAvailable, honly, Bool.not_true, Bool.false_eq_true, if_false,
      availabilityTag_eq laws, Action.lift_ok, Prog.ret_bind]
    refine (manifestExists_ensures laws setting.reading hquiet.of_eq w _).bind ?_ ?_
    · rintro found w ⟨rfl, rfl⟩
      rw [Registry.resolve_tag (isPrefixOf_availabilityName _ _), Option.isSome_iff_ne_none.mpr htagged]
      exact ⟨rfl, _, rfl, rfl⟩
    · rintro error w ⟨rfl, hwhy⟩
      exact absurd hwhy hfaults
  unfold OciDistributionAdapter.put
  simp only [hpayload, himmutability, hretention, Action.lift_ok, Prog.ret_bind]
  refine locked_ensures hquiet.refl (hcheck.bind ?_ ?_)
  · rintro value w' ⟨-, error, herror, -⟩
    cases herror
  · rintro error w' h
    obtain ⟨rfl, other, heq, hkind⟩ := h
    obtain rfl := Except.error.inj heq
    exact ⟨rfl, _, rfl, hkind⟩

/-- A request that raised without leaving an anchor has changed no manifest and no tag. -/
theorem Interrupted.unanchored {w w' : World setting.policy} (hintact : Intact w.registry) {value : PutInput}
    {source : Bytes → Prop} (h : Interrupted setting value source w w')
    (hunknown : value.objectId ∉ (catalogOf w'.registry).anchored) :
    catalogOf w'.registry = catalogOf w.registry := by
  rcases h.commits with hsame | ⟨content, -, hcommits⟩
  · exact hsame
  have hbefore : value.objectId ∉ (catalogOf w.registry).anchored := fun hknown =>
    hunknown (hcommits.anchored_subset hknown)
  generalize catalogOf w'.registry = after at hcommits hunknown ⊢
  cases hcommits with
  | untouched => rfl
  | repointed stored _ hid hlive =>
    have hid : stored.objectId = value.objectId := hid
    exact absurd (hid ▸ hintact.live_anchored stored hlive) hbefore
  | _ => exact absurd (Set.mem_insert _ _) hunknown

/-- The registry has carried out no PUT of the anchor of the object id. -/
def Unanchored (P : Platform) (objectId : String) (carried : List Request) : Prop :=
  ∀ request ∈ carried, ¬Request.Puts (anchorName P objectId) request

/-- A finished publish-once request for the object id. -/
def RequestsOnce (P : Platform) {σ : Type} (memoryOf : σ → Memory) (objectId : String)
    (event : Event Call Err Answer σ) : Prop :=
  ∃ value immutability, requestOf (memoryOf event.before) event.call = some value ∧ value.objectId = objectId ∧
    immutabilityOf P value = .ok immutability ∧ immutability.publishOnce = true

/-- A publish-once request for the object id has raised, and no version of it was ever published. -/
structure Failed (setting : Setting P adapter.transport.binding) (objectId : String)
    (history : List (Event Call Err Answer (World setting.policy × List Request))) : Prop where
  raised : ∃ event ∈ history, RequestsOnce P (·.1.memory) objectId event ∧ ∃ error, event.outcome = .error error
  unpublished : ∀ event ∈ history, ∀ digest resolved,
    event.after.1.lookup (exactReference adapter objectId digest) ≠ .ok resolved

/-- After a publish-once request that raised without a version, a publish-once put that has no other
reason to raise succeeds if and only if the registry has carried out no PUT of the anchor, and no other
object id has taken the tag; otherwise it is a conflict. As long as no anchor was put, the requests that
raised have changed no manifest and no tag. -/
theorem publish_once_retry (laws : P.Lawful) (hresponsive : Responsive setting) {now : DateTime}
    {w : World setting.policy} {carried : List Request}
    {history : List (Event Call Err Answer (World setting.policy × List Request))} {objectId : String}
    {again : PutInput} {content : Bytes} {immutability : ImmutabilityRequest}
    (hrun : Records setting now ⟨(w, carried), .idle, history⟩) (hfailed : Failed setting objectId history)
    (hobject : again.objectId = objectId) (hready : Ready setting again content immutability w.now)
    (honce : immutability.publishOnce = true) :
    (((∃ outcome w', Performs setting.faultless.env (adapter.put P again) w outcome w') ∧
      ∀ outcome w', Performs setting.faultless.env (adapter.put P again) w outcome w' →
        ∃ metadata, outcome = .ok (.put metadata)) ↔ Unanchored P objectId carried ∧ ¬Collides w objectId content) ∧
    (¬Unanchored P objectId carried → ∀ outcome w',
      Performs setting.faultless.env (adapter.put P again) w outcome w' →
      ∃ error, outcome = .error error ∧ error.kind = .immutableObjectConflict) ∧
    (Unanchored P objectId carried → ∃ event ∈ history, RequestsOnce P (·.1.memory) objectId event ∧
      (∃ error, event.outcome = .error error) ∧
      catalogOf event.after.1.registry = catalogOf event.before.1.registry) := by
  obtain rfl := hobject
  have hruns := hrun.runs
  have hintact : Intact w.registry := hruns.intact laws
  have hanchor : again.objectId ∉ (catalogOf w.registry).anchored ↔ Unanchored P again.objectId carried := by
    rw [hrun.anchored_iff laws]
    simp only [Unanchored, not_exists, not_and]
  refine ⟨?_, fun hnot outcome w' hperforms => ?_, fun hunanchored => ?_⟩
  · have hput := @put_once_ensures P adapter setting.faultless laws id w hintact again content immutability
      hready.faultless honce
    have hresponsive' : Responsive setting.faultless := ⟨hresponsive.streams, hresponsive.tick⟩
    rw [← hanchor]
    constructor
    · rintro ⟨⟨outcome, w', hperforms⟩, hall⟩
      exact (hperforms.ensures hput).mp (hall outcome w' hperforms)
    · intro hopen
      exact ⟨hresponsive'.performs _ w, fun outcome w' hperforms => (hperforms.ensures hput).mpr hopen⟩
  · obtain ⟨himmutability, payload, retention, hpayload, hretention, -⟩ := hready
    have hclosed : ¬Available w.registry again.objectId immutability
        (again.createOnly || immutability.publishOnce) := by
      intro havailable
      refine hnot (hanchor.mp (((available_iff laws hintact).mp havailable ?_).1 honce))
      rw [honce, Bool.or_true]
    obtain ⟨-, error, rfl, hkind⟩ := hperforms.ensures (@put_conflict_ensures P adapter setting.faultless laws id w
      again payload immutability retention hpayload himmutability hretention hclosed)
    rw [honce, if_pos rfl] at hkind
    exact ⟨error, rfl, hkind⟩
  · obtain ⟨event, hmem, hrequests, error, herror⟩ := hfailed.raised
    refine ⟨event, hmem, hrequests, ⟨error, herror⟩, ?_⟩
    obtain ⟨value, immutability', hrequest, hid, -, -⟩ := hrequests
    obtain ⟨front, rest, rfl⟩ := List.append_of_mem hmem
    obtain ⟨last, hlog, hlast⟩ := hruns.log laws
    rw [show last = w from hlast rfl] at hlog
    simp only [Config.map, List.map_append, List.map_cons] at hlog
    obtain ⟨-, hdone, hrest⟩ := hlog.split
    have heffected := hdone.effected
    rw [show (Event.map Prod.fst event).outcome = .error error from herror] at heffected
    refine (heffected.failed hrequest).unanchored hdone.intact fun hknown => ?_
    rw [hid] at hknown
    exact hanchor.mpr hunanchored (hrest.anchored laws hknown)

section Rejected

variable (laws : P.Lawful) (hfaults : ¬setting.faults) {w : World setting.policy} (hintact : Intact w.registry)
variable {value : PutInput} {content : Bytes} {immutability : ImmutabilityRequest}
variable {retention : Option RetentionRequest} {reason : Err}
variable (hfits : (anchorBody P value.objectId).length ≤ adapter.transport.binding.maxManifestBytes)
variable (hprovenance : adapter.provenanceOf P value.provenance = .error reason)
variable (hfree : w.registry.tagged (versionName P value.objectId (sha256Digest P content)) = none)

include laws hfaults hintact hfits hprovenance hfree

/-- A commit whose provenance is rejected has written the anchor. -/
theorem commit_rejected_ensures {createOnly : Bool}
    (havailable : Available w.registry value.objectId immutability createOnly) :
    (adapter.commitObject P value (identityOf P content) immutability retention createOnly).Ensures setting.env
      World.Change w fun outcome w' => (∃ error, outcome = .error error) ∧
        catalogOf w'.registry = (catalogOf w.registry).anchor value.objectId := by
  have hquiet := quiet_change laws setting
  refine (requireCreateAvailable_ensures laws w value.objectId immutability createOnly).bind ?_ ?_
  · rintro _ w ⟨rfl, -⟩
    simp only [identityOf, versionTag_eq laws, Action.lift_ok, Prog.ret_bind]
    refine (manifestExists_ensures laws setting.reading hquiet.of_eq w _).bind ?_ ?_
    · rintro found w ⟨rfl, rfl⟩
      rw [Registry.resolve_tag (isPrefixOf_versionName _ _), hfree]
      simp only [Option.isSome_none, Bool.false_eq_true, if_false]
      refine (ensureAnchor_ensures laws w hintact value.objectId).bind ?_ ?_
      · rintro anchor w₁ ⟨-, -, -, -, -, hagrees⟩
        simp only [hprovenance, Action.lift_error, Prog.raise_bind]
        refine ⟨⟨reason, rfl⟩, ?_⟩
        rw [catalogOf_grows hagrees.grows, catalogOf_withAnchor laws hintact]
      · rintro error w₁ ⟨-, -, hwhy⟩
        exact absurd hfits (hwhy.resolve_left hfaults)
    · rintro error w ⟨rfl, hwhy⟩
      exact absurd hwhy hfaults
  · rintro error w ⟨rfl, hwhy⟩
    exact absurd havailable (hwhy.resolve_left hfaults)

/-- Without faults a put of a new content whose provenance is rejected leaves the anchor. -/
theorem put_rejected_ensures {payload : PayloadReference} (hpayload : payloadOf P value = .ok payload)
    (himmutability : immutabilityOf P value = .ok immutability)
    (hretention : retentionOf P value = .ok retention) (hdeliverable : Deliverable setting payload content)
    (havailable : Available w.registry value.objectId immutability
      (value.createOnly || immutability.publishOnce)) :
    (adapter.put P value).Ensures setting.env World.Change w fun outcome w' =>
      (∃ error, outcome = .error error) ∧
        catalogOf w'.registry = (catalogOf w.registry).anchor value.objectId := by
  have hquiet := quiet_change laws setting
  unfold OciDistributionAdapter.put
  simp only [hpayload, himmutability, hretention, Action.lift_ok, Prog.ret_bind]
  refine locked_ensures hquiet.refl ?_
  refine (requireCreateAvailable_ensures laws w value.objectId immutability _).bind ?_ ?_
  · rintro _ w ⟨rfl, -⟩
    simp only [laws.transition_uploading, Action.lift_ok, Prog.ret_bind]
    refine (failing_ensures .uploading false (uploadPayload_ensures laws hquiet w payload)).bind ?_ ?_
    · rintro identity w₁ ⟨other, hdelivers, rfl, -, hsilent, -⟩
      obtain rfl := hdeliverable.unique hdelivers
      have hintact₁ : Intact w₁.registry := (Move.quiet _ _ hsilent.registry).intact laws hintact
      have hfree₁ : w₁.registry.tagged (versionName P value.objectId (sha256Digest P other)) = none := by
        rw [hsilent.registry.tagged]
        exact hfree
      have hcommit := @commit_rejected_ensures P adapter setting laws hfaults w₁ hintact₁ value other immutability
        retention reason hfits hprovenance hfree₁ _ ((available_grows hsilent.registry).mpr havailable)
      simp only [laws.transition_verifying]
      refine (failing_ensures .verifying true hcommit).bind ?_ ?_
      · rintro metadata w₂ ⟨⟨error, herror⟩, -⟩
        cases herror
      · rintro error w₂ ⟨_, -, hcatalog⟩
        rw [catalogOf_grows hsilent.registry] at hcatalog
        exact ⟨⟨error, rfl⟩, hcatalog⟩
    · rintro error w₁ ⟨_, -, hwhy⟩
      exact absurd hdeliverable (hwhy.resolve_left hfaults content)
  · rintro error w ⟨rfl, hwhy⟩
    exact absurd havailable (hwhy.resolve_left hfaults)

end Rejected

namespace Sample

open MeridianOci.Model.Sample

/-- Between two puts a put of a second version fails; its repetition publishes that. -/
theorem crash_consistent_amid : ∃ limit error kept metadata resolved, ∃ w w₁ w₂ w' : World (Sample.setting limit True).policy,
    Runs (Sample.setting limit True) (.aware 0) ⟨w₂, .idle,
      [⟨.execute (Plain.operation { objectId := "a", text := "x" }),
          .ok (.result (.put (Plain.stored { objectId := "a", text := "x" }).metadata)), World.empty _ (.aware 0), w⟩,
        ⟨.execute (Plain.operation { objectId := "a", text := "y" }), .error error, w, w₁⟩,
        ⟨.execute (Plain.operation { objectId := "b", text := "z" }),
          .ok (.result (.put (Plain.stored { objectId := "b", text := "z" }).metadata)), w₁, w₂⟩]⟩ ∧
    w₁.lookup (exactReference (Sample.adapter limit) "a" (sha256Digest platform
      (Plain.content { objectId := "a", text := "x" }))) = .ok kept ∧
    Performs (Sample.setting limit True).faultless.env
      ((Sample.adapter limit).put platform (Plain.input { objectId := "a", text := "y" })) w₂ (.ok (.put metadata)) w' ∧
    w'.lookup (latestReference (Sample.adapter limit) "a") = .ok resolved ∧ resolved.stored.metadata = metadata ∧
    metadata.digest = sha256Digest platform (Plain.content { objectId := "a", text := "y" }) := by
  obtain ⟨limit, hall⟩ := exists_limit
    [{ objectId := "a", text := "x" }, { objectId := "a", text := "y" }, { objectId := "b", text := "z" }] (by decide)
  have hfits := hall _ (List.mem_cons_of_mem _ List.mem_cons_self)
  obtain ⟨w, hrun, hcatalog⟩ := @run_new limit True { objectId := "a", text := "x" } (hall _ List.mem_cons_self)
    (.aware 0) _ [] .refl (fun h => by cases h) (by
      rw [catalogOf_empty]
      exact fun other h => h.elim)
  rw [catalogOf_empty] at hcatalog
  have hlive : ∀ stored, stored ∈ (catalogOf w.registry).live ↔ stored = Plain.stored { objectId := "a", text := "x" } := by
    intro stored
    rw [hcatalog]
    simp [Catalog.point, Catalog.publish, Catalog.anchor]
  obtain ⟨w₁, error, hrun₁, hsame⟩ := @run_down limit { objectId := "a", text := "y" } hfits.content (.aware 0) _ _ hrun (by
    intro stored hmem
    rw [(hlive stored).mp hmem]
    exact @digest_ne { objectId := "a", text := "x" } { objectId := "a", text := "y" } (by decide))
  obtain ⟨w₂, hrun₂, hcatalog₂⟩ := @run_new limit True { objectId := "b", text := "z" }
    (hall _ (List.mem_cons_of_mem _ (List.mem_cons_of_mem _ List.mem_cons_self))) (.aware 0) _ _ hrun₁
    (fun h => by cases h) (by
      intro stored hmem
      rw [hsame] at hmem
      rw [(hlive stored).mp hmem]
      exact @digest_ne { objectId := "a", text := "x" } { objectId := "b", text := "z" } (by decide))
  have hintact := Runs.intact lawful hrun
  obtain ⟨kept, hkept, -⟩ := (mem_live_iff lawful hintact).mp ((hlive _).mpr rfl)
  have hdelivers := @delivers_plain limit True { objectId := "a", text := "y" } hfits.content w
  have hrun' : Runs (Sample.setting limit True) (.aware 0) ⟨w₂, .idle,
      [⟨.execute (Plain.operation { objectId := "a", text := "x" }),
          .ok (.result (.put (Plain.stored { objectId := "a", text := "x" }).metadata)), World.empty _ (.aware 0), w⟩] ++
        ⟨.execute (Plain.operation { objectId := "a", text := "y" }), .error error, w, w₁⟩ ::
        [⟨.execute (Plain.operation { objectId := "b", text := "z" }),
          .ok (.result (.put (Plain.stored { objectId := "b", text := "z" }).metadata)), w₁, w₂⟩]⟩ := hrun₂
  obtain ⟨hexact, -, -, -, hrepair⟩ := crash_consistent lawful (responsive limit True) hrun' rfl rfl
  have hunshared : Unshared w₂ "a" := by
    intro other digest resolved hlookup hshort
    obtain ⟨hmem, hid, -⟩ := lookup_exact lawful (Runs.intact lawful hrun₂) hlookup
    rw [hcatalog₂, hsame] at hmem
    rw [← hid] at hshort ⊢
    rcases hmem with heq | hold
    · rw [heq] at hshort
      exact absurd hshort (by decide)
    · rw [(hlive _).mp hold]
      rfl
  obtain ⟨⟨outcome, w', hperforms⟩, hagain⟩ := hrepair (Plain.input { objectId := "a", text := "y" }) _ hdelivers
    ⟨rfl, rfl, _, rfl, immutabilityOf_input, _, _, payloadOf_input, retentionOf_input,
      deliverable hfits.content, acceptable hfits w₂.now⟩ hunshared
  obtain ⟨metadata, resolved, rfl, hmetadata, hdigest, -, hlatest⟩ := hagain outcome w' hperforms
  exact ⟨limit, error, kept, metadata, resolved, w, w₁, w₂, w', hrun₂, hexact _ _ _ hkept, hperforms, hlatest, hmetadata,
    hdigest⟩

/-- A publish-once put whose provenance uses the reserved field. -/
def reserved (objectId text : String) : PutInput :=
  { (once objectId text).input with provenance := .obj [("meridianAdapter", .null)] }

def reservedOperation (objectId text : String) : Operation :=
  { (once objectId text).operation with input := .put (reserved objectId text) }

theorem accepted_reserved {limit : Nat} {objectId text : String} :
    Accepted platform (Sample.adapter limit) (reservedOperation objectId text) "put" :=
  ⟨(@accepted_put limit (once objectId text)).validated, rfl⟩

theorem ready_once {limit : Nat} {objectId text : String} (hfits : (once objectId text).Fits limit) (now : DateTime) :
    Ready (Sample.setting limit False) (once objectId text).input (once objectId text).content
      ⟨"immutable", true⟩ now :=
  ⟨immutabilityOf_input, _, _, payloadOf_input, retentionOf_input, deliverable hfits.content,
    acceptable hfits now⟩

/-- A publish-once put fails before any of its requests is carried out, and the same put again succeeds. -/
theorem publish_once_retry_down : ∃ limit error history carried, ∃ w : World (Sample.setting limit True).policy,
    Records (Sample.setting limit True) (.aware 0) ⟨(w, carried), .idle, history⟩ ∧
    history.map (Event.map Prod.fst) =
      [⟨.execute (once "a" "x").operation, .error error, World.empty _ (.aware 0), w⟩] ∧
    ∃ metadata w', Performs (Sample.setting limit True).faultless.env
      ((Sample.adapter limit).put platform (once "a" "x").input) w (.ok (.put metadata)) w' := by
  obtain ⟨limit, hall⟩ := exists_limit [once "a" "x"] (by decide)
  have hfits := hall _ List.mem_cons_self
  obtain ⟨w, error, hrun, hsame⟩ := @run_down limit (once "a" "x") hfits.content (.aware 0) _ [] .refl
    (by rw [catalogOf_empty]; exact fun other h => h.elim)
  have hnone : ∀ objectId digest resolved,
      w.lookup (exactReference (Sample.adapter limit) objectId digest) ≠ .ok resolved := by
    intro objectId digest resolved hlookup
    have hlive := (lookup_exact lawful (Runs.intact lawful hrun) hlookup).1
    rw [hsame, catalogOf_empty] at hlive
    exact hlive.elim
  obtain ⟨⟨⟨v, carried⟩, phase, history⟩, hrecords, hmap⟩ := Runs.recorded hrun
  obtain ⟨rfl, hphase, hhistory⟩ := Config.mk.inj hmap
  cases phase with
  | running call start rest => cases hphase
  | idle =>
    obtain ⟨event, rest, rfl, hevent, hrest⟩ := List.map_eq_cons_iff.mp hhistory
    obtain rfl := List.map_eq_nil_iff.mp hrest
    have hcall : (Event.map Prod.fst event).call = .execute (once "a" "x").operation := by rw [hevent]
    have houtcome : (Event.map Prod.fst event).outcome = .error error := by rw [hevent]
    have hafter : (Event.map Prod.fst event).after = v := by rw [hevent]
    have hfailed : Failed (Sample.setting limit True) "a" [event] := by
      refine ⟨⟨event, List.mem_cons_self, ?_, error, houtcome⟩, fun other hother => ?_⟩
      · refine ⟨(once "a" "x").input, ⟨"immutable", true⟩, ?_, rfl, immutabilityOf_input, rfl⟩
        rw [show event.call = _ from hcall]
        rfl
      · rw [List.mem_singleton.mp hother, show event.after.1 = v from hafter]
        exact hnone "a"
    obtain ⟨hiff, -⟩ := @publish_once_retry _ _ _ lawful (responsive limit True) _ _ _ _ _
      (once "a" "x").input (once "a" "x").content ⟨"immutable", true⟩ hrecords hfailed rfl
      ⟨immutabilityOf_input, _, _, payloadOf_input, retentionOf_input, deliverable hfits.content,
        acceptable hfits v.now⟩ rfl
    obtain ⟨⟨outcome, w', hperforms⟩, hsucceeds⟩ := hiff.mpr ⟨fun request hmem hputs => by
      have hknown := hrecords.anchored lawful hmem hputs
      rw [hsame, catalogOf_empty] at hknown
      exact hknown.elim, fun ⟨other, resolved, _, _, hlookup⟩ => hnone _ _ _ hlookup⟩
    obtain ⟨metadata, rfl⟩ := hsucceeds outcome w' hperforms
    exact ⟨limit, error, [event], carried, v, hrecords, hhistory, metadata, w', hperforms⟩

/-- A publish-once put whose provenance is rejected publishes nothing, but the valid put after
it is refused. -/
theorem publish_once_burned : ∃ limit error, ∃ w : World (Sample.setting limit False).policy,
    Runs (Sample.setting limit False) (.aware 0) ⟨w, .idle,
      [⟨.execute (reservedOperation "a" "x"), .error error, World.empty _ (.aware 0), w⟩]⟩ ∧
    (∀ objectId digest resolved,
      w.lookup (exactReference (Sample.adapter limit) objectId digest) ≠ .ok resolved) ∧
    Ready (Sample.setting limit False) (once "a" "x").input (once "a" "x").content ⟨"immutable", true⟩ w.now ∧
    ∃ outcome w', Performs (Sample.setting limit False).faultless.env
        ((Sample.adapter limit).put platform (once "a" "x").input) w outcome w' ∧
      ∃ error, outcome = .error error ∧ error.kind = .immutableObjectConflict := by
  obtain ⟨limit, hall⟩ := exists_limit [once "a" "x"] (by decide)
  have hfits := hall _ List.mem_cons_self
  obtain ⟨outcome, w, hperforms⟩ := (responsive limit False).performs
    (Call.program platform (Sample.adapter limit) (.execute (reservedOperation "a" "x"))) (World.empty _ (.aware 0))
  have hrun : Runs (Sample.setting limit False) (.aware 0) ⟨w, .idle,
      [] ++ [⟨.execute (reservedOperation "a" "x"), outcome, World.empty _ (.aware 0), w⟩]⟩ :=
    Reachable.performs .refl hperforms
  have hrejected := @put_rejected_ensures platform (Sample.adapter limit) (Sample.setting limit False) lawful id
    (World.empty _ (.aware 0)) intact_empty (reserved "a" "x") (once "a" "x").content ⟨"immutable", true⟩ none _
    hfits.anchor rfl (empty_tagged _ _) _ (@payloadOf_input (once "a" "x")) (@immutabilityOf_input (once "a" "x"))
    (@retentionOf_input (once "a" "x")) (deliverable hfits.content) (fun _ => empty_tagged _ _)
  rw [← execute_put accepted_reserved rfl] at hrejected
  have hcall : (Call.program platform (Sample.adapter limit) (.execute (reservedOperation "a" "x"))).Ensures
      (Sample.setting limit False).env World.Change (World.empty _ (.aware 0)) fun outcome w' =>
        (∃ error, outcome = .error error) ∧ catalogOf w'.registry = ⟨{"a"}, ∅, ∅⟩ := by
    refine hrejected.bind ?_ ?_
    · rintro result w' ⟨⟨error, herror⟩, -⟩
      cases herror
    · rintro error w' ⟨-, hcatalog⟩
      rw [hcatalog, catalogOf_empty]
      exact ⟨⟨error, rfl⟩, by simp [Catalog.anchor, reserved, Plain.input, once]⟩
  obtain ⟨⟨error, rfl⟩, hcatalog⟩ := hperforms.ensures hcall
  have hclosed : ¬Available w.registry "a" ⟨"immutable", true⟩ true := by
    intro havailable
    refine ((available_iff lawful (hrun.intact lawful)).mp havailable rfl).1 rfl ?_
    rw [hcatalog]
    rfl
  obtain ⟨outcome, w', hretry⟩ := (responsive limit False).performs
    ((Sample.adapter limit).put platform (once "a" "x").input) w
  obtain ⟨-, error', rfl, hkind⟩ := hretry.ensures (put_conflict_ensures lawful id payloadOf_input
    immutabilityOf_input retentionOf_input hclosed)
  refine ⟨limit, error, w, hrun, ?_, ready_once hfits w.now, _, w', hretry, error', rfl, hkind⟩
  intro objectId digest resolved hlookup
  have hlive := (lookup_exact lawful (hrun.intact lawful) hlookup).1
  rw [hcatalog] at hlive
  exact hlive.elim

end Sample

end MeridianOci.Service
