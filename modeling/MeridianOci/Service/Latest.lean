import MeridianOci.Service.PublishOnce
import MeridianOci.Service.Recovery
import MeridianOci.Service.Retention

/-!
# The latest tag

A create-only request looks at the latest tag alone, and a delete removes that tag with the
version it leads to. So the tag is there while nobody deletes the version it leads to, and
a create-only request meets no version exactly when the tag is there for those it meets.
-/
namespace MeridianOci.Service

open MeridianOci.Data MeridianOci.Effect MeridianOci.Model

set_option autoImplicit false

variable {P : Platform} {adapter : OciDistributionAdapter}
variable {setting : Setting P adapter.transport.binding}

/-- Some exact reference of the object id resolves. -/
def HasVersion (w : World setting.policy) (objectId : String) : Prop :=
  ∃ digest resolved, w.lookup (exactReference adapter objectId digest) = .ok resolved

/-- The reference without a digest resolves. -/
def HasLatest (w : World setting.policy) (objectId : String) : Prop :=
  ∃ resolved, w.lookup (latestReference adapter objectId) = .ok resolved

theorem hasLatest_iff (laws : P.Lawful) {w : World setting.policy} (hintact : Intact w.registry)
    {objectId : String} : HasLatest w objectId ↔
      ∃ stored ∈ (catalogOf w.registry).latest, stored.objectId = objectId := by
  constructor
  · rintro ⟨resolved, hlookup⟩
    exact ⟨resolved.stored, lookup_latest laws hintact hlookup⟩
  · rintro ⟨stored, hlatest, rfl⟩
    obtain ⟨resolved, hlookup, -⟩ := (mem_latest_iff laws hintact).mp hlatest
    exact ⟨resolved, hlookup⟩

/-! ## Create-only requests -/

/-- A create-only request that is not publish-once. -/
structure CreatesOnly (P : Platform) (value : PutInput) (immutability : ImmutabilityRequest) : Prop where
  parsed : immutabilityOf P value = .ok immutability
  createOnly : value.createOnly = true
  publishOnce : immutability.publishOnce = false

/-- A create-only request is available while there is no latest version. -/
theorem CreatesOnly.available_iff (laws : P.Lawful) {w : World setting.policy} (hintact : Intact w.registry)
    {value : PutInput} {immutability : ImmutabilityRequest} (h : CreatesOnly P value immutability) :
    Available w.registry value.objectId immutability (value.createOnly || immutability.publishOnce) ↔
      ¬HasLatest w value.objectId := by
  rw [Service.available_iff laws hintact, hasLatest_iff laws hintact, h.createOnly, h.publishOnce]
  simp

/-- Without faults a create-only put of a new content that has no other reason to raise succeeds
if and only if there is no latest version. -/
theorem put_create_ensures (laws : P.Lawful) (hfaults : ¬setting.faults) {w : World setting.policy}
    (hintact : Intact w.registry) {value : PutInput} {content : Bytes} {immutability : ImmutabilityRequest}
    (hcreates : CreatesOnly P value immutability) (hready : Ready setting value content immutability w.now)
    (hnew : ∀ stored ∈ (catalogOf w.registry).live, stored.metadata.digest ≠ sha256Digest P content) :
    (adapter.put P value).Ensures setting.env World.Change w fun outcome _ =>
      (∃ metadata, outcome = .ok (.put metadata)) ↔ ¬HasLatest w value.objectId := by
  by_cases hlatest : HasLatest w value.objectId
  · refine (put_ensures laws w hintact value).mono ?_
    rintro outcome w' ⟨-, houtcome⟩
    refine ⟨?_, fun h => absurd hlatest h⟩
    rintro ⟨metadata, rfl⟩
    obtain ⟨other, found, retention, metadata', -, hsucceeded, -⟩ := houtcome
    obtain rfl := Except.ok.inj (hcreates.parsed.symm.trans hsucceeded.parsed)
    exact (hcreates.available_iff laws hintact).mp hsucceeded.available
  · obtain ⟨hparsed, payload, retention, hpayload, hretention, hdeliverable, hacceptable⟩ := hready
    have hvalid : ValidPut setting value w payload content immutability retention :=
      ⟨hpayload, hparsed, hretention, hdeliverable, (hcreates.available_iff laws hintact).mpr hlatest,
        not_blocked laws hintact fun stored hlive hdigest _ => absurd hdigest (hnew stored hlive),
        fun _ => hacceptable⟩
    refine (put_valid_ensures laws hintact hfaults hvalid).mono ?_
    rintro outcome w' ⟨-, metadata, rfl, -⟩
    exact ⟨fun _ => hlatest, fun _ => ⟨metadata, rfl⟩⟩

/-- A create-only request that returned has met no version, if the latest tag was there for those
it could meet; and a put that has no other reason to raise meets none only then. -/
theorem create_only_sound (laws : P.Lawful) (hresponsive : Responsive setting) {now : DateTime}
    {w : World setting.policy} {history : List (Event Call Err Answer (World setting.policy))}
    (hrun : Runs setting now ⟨w, .idle, history⟩) {objectId : String} :
    (∀ event ∈ history, ∀ value immutability answer,
      requestOf event.before.memory event.call = some value → value.objectId = objectId →
      CreatesOnly P value immutability → event.outcome = .ok answer →
      (HasVersion event.before objectId → HasLatest event.before objectId) →
      ¬HasVersion event.before objectId) ∧
    ∀ value content immutability, value.objectId = objectId → CreatesOnly P value immutability →
      Ready setting value content immutability w.now →
      (∀ other resolved, w.lookup (exactReference adapter other (sha256Digest P content)) ≠ .ok resolved) →
      ((∀ outcome w', Performs setting.faultless.env (adapter.put P value) w outcome w' →
          (∃ metadata, outcome = .ok (.put metadata)) → ¬HasVersion w objectId) ↔
        (HasVersion w objectId → HasLatest w objectId)) := by
  constructor
  · rintro event hmem value immutability answer hrequest rfl hcreates houtcome hcondition hversion
    obtain ⟨front, rest, rfl⟩ := List.append_of_mem hmem
    obtain ⟨last, hlog, -⟩ := hrun.log laws
    obtain ⟨-, hdone, -⟩ := hlog.split
    have heffected := hdone.effected
    rw [houtcome] at heffected
    obtain ⟨content, found, retention, metadata, -, hsucceeded, -⟩ := heffected.succeeded hrequest
    obtain rfl := Except.ok.inj (hcreates.parsed.symm.trans hsucceeded.parsed)
    exact (hcreates.available_iff laws hdone.intact).mp hsucceeded.available (hcondition hversion)
  · rintro value content immutability rfl hcreates hready hnew
    have hintact := hrun.intact laws
    have hput := @put_create_ensures P adapter setting.faultless laws id w hintact value content immutability
      hcreates hready.faultless (by
        intro stored hlive hdigest
        obtain ⟨resolved, hlookup, -⟩ := (mem_live_iff laws hintact).mp hlive
        rw [hdigest] at hlookup
        exact hnew _ resolved hlookup)
    have hresponsive' : Responsive setting.faultless := ⟨hresponsive.streams, hresponsive.tick⟩
    constructor
    · intro hsound hversion
      by_contra hlatest
      obtain ⟨outcome, w', hperforms⟩ := hresponsive'.performs (adapter.put P value) w
      exact hsound outcome w' hperforms ((hperforms.ensures hput).mpr hlatest) hversion
    · intro hcondition outcome w' hperforms hsuccess hversion
      exact (hperforms.ensures hput).mp hsuccess (hcondition hversion)

/-! ## Deletes of the latest version -/

/-- A call asks to delete the version that the latest tag leads to, and afterwards that is gone. A
delete that was refused, or that the registry did not carry out, is none. -/
def DeletesLatest (event : Event Call Err Answer (World setting.policy)) (objectId : String) : Prop :=
  ∃ raw reference resolved, deletionOf event.call = some raw ∧ adapter.reference P raw true = .ok reference ∧
    reference.objectId = objectId ∧ event.before.lookup (latestReference adapter objectId) = .ok resolved ∧
    (∀ digest, reference.digest = some digest → digest = resolved.stored.metadata.digest) ∧
    ∀ found, event.after.lookup (exactReference adapter objectId resolved.stored.metadata.digest) ≠ .ok found

/-- A removed version does not resolve any more. -/
theorem Removed.gone (laws : P.Lawful) {w w' : World setting.policy} {stored : StoredObject}
    (h : Removed w w' stored) (hintact' : Intact w'.registry) (found : ResolvedObject P) :
    w'.lookup (exactReference adapter stored.objectId stored.metadata.digest) ≠ .ok found := by
  intro hlookup
  obtain ⟨hlive, hcatalog, -⟩ := h
  obtain ⟨hfound, hid, hdigest⟩ := lookup_exact laws hintact' hlookup
  rw [hcatalog] at hfound
  obtain ⟨⟨body, hpublished, htagged⟩, hother⟩ := hfound
  obtain ⟨body', hpublished', htagged'⟩ := hlive
  rw [StoredObject.exactName, hid, hdigest] at htagged
  obtain rfl := Option.some.inj (htagged.symm.trans htagged')
  exact hother (hpublished.injective laws hpublished')

/-- Any other call leaves a latest version if there is one. -/
theorem Done.hasLatest (laws : P.Lawful) {event : Event Call Err Answer (World setting.policy)}
    {objectId : String} (hdone : Done setting event) (hintact' : Intact event.after.registry)
    (hkeeps : ¬DeletesLatest event objectId) (h : HasLatest event.before objectId) :
    HasLatest event.after objectId := by
  obtain ⟨resolved, hlookup⟩ := h
  obtain ⟨hlatest, hid⟩ := lookup_latest laws hdone.intact hlookup
  rw [hasLatest_iff laws hintact']
  have heffected := hdone.effected
  generalize event.outcome = outcome at heffected
  rcases heffected with ⟨value, content, immutability, retention, metadata, answer, -, -, hsucceeded, -⟩ |
    ⟨value, error, -, hinterrupted⟩ | ⟨raw, reference, stored, -, hdeletion, hreference, htargets, hremoved⟩ |
    ⟨-, -, hsame, -⟩
  · obtain ⟨stored, -, -, -, hadvances⟩ := hsucceeded.advances laws hdone.intact
    by_cases hsame : stored.objectId = objectId
    · exact ⟨stored, hadvances.latest.mpr (.inl rfl), hsame⟩
    · refine ⟨resolved.stored, hadvances.latest.mpr (.inr ⟨hlatest, ?_⟩), hid⟩
      rw [hid]
      exact Ne.symm hsame
  · rcases hinterrupted.commits with hsame | ⟨content, -, hcommits⟩
    · rw [hsame]
      exact ⟨_, hlatest, hid⟩
    · rcases hcommits.latest_same with hsame | ⟨stored, -, -, -, hpoint⟩
      · rw [hsame]
        exact ⟨_, hlatest, hid⟩
      · rw [hpoint]
        by_cases hsame : stored.objectId = objectId
        · exact ⟨stored, .inl rfl, hsame⟩
        · refine ⟨resolved.stored, .inr ⟨hlatest, ?_⟩, hid⟩
          exact fun heq => hsame (heq.symm.trans hid)
  · rw [hremoved.2.1]
    refine ⟨resolved.stored, ⟨hlatest, ?_⟩, hid⟩
    rintro rfl
    obtain ⟨-, -, -, htarget, hdigest⟩ := htargets
    refine hkeeps ⟨raw, reference, resolved, hdeletion, hreference, htarget.symm.trans hid, hlookup,
      fun digest heq => (hdigest digest heq).symm, ?_⟩
    rw [← hid]
    exact hremoved.gone laws hintact'
  · rw [hsame]
    exact ⟨_, hlatest, hid⟩

theorem Log.hasLatest (laws : P.Lawful) {first w : World setting.policy} {objectId : String}
    {history : List (Event Call Err Answer (World setting.policy))} (h : Log setting first history w)
    (hintact : Intact w.registry) (hkeeps : ∀ event ∈ history, ¬DeletesLatest event objectId)
    (hfirst : HasLatest first objectId) : HasLatest w objectId := by
  induction h with
  | nil => exact hfirst
  | snoc history event _ hdone ih =>
    have hbefore := ih hdone.intact fun other hmem => hkeeps other (List.mem_append_left _ hmem)
    exact hdone.hasLatest laws hintact (hkeeps event (List.mem_append_right _ List.mem_cons_self)) hbefore

/-- After a request for an object id returned, and while no call deletes the version that the latest
tag leads to, a lookup without a digest finds a version that its exact reference
finds too. -/
theorem latest_survives (laws : P.Lawful) {now : DateTime} {w : World setting.policy}
    {front rest : List (Event Call Err Answer (World setting.policy))}
    {event : Event Call Err Answer (World setting.policy)} {value : PutInput} {answer : Answer}
    (hrun : Runs setting now ⟨w, .idle, front ++ event :: rest⟩)
    (hrequest : requestOf event.before.memory event.call = some value) (houtcome : event.outcome = .ok answer)
    (hkeeps : ∀ later ∈ rest, ¬DeletesLatest later value.objectId) :
    ∃ resolved, w.lookup (latestReference adapter value.objectId) = .ok resolved ∧
      w.lookup (exactReference adapter value.objectId resolved.stored.metadata.digest) = .ok resolved := by
  have hintact := hrun.intact laws
  have hafter := (hrun.after laws).intact laws
  obtain ⟨last, hlog, hlast⟩ := hrun.log laws
  rw [show last = w from hlast rfl] at hlog
  obtain ⟨-, hdone, hrest⟩ := hlog.split
  have heffected := hdone.effected
  rw [houtcome] at heffected
  obtain ⟨content, immutability, retention, metadata, -, hsucceeded, -⟩ := heffected.succeeded hrequest
  obtain ⟨stored, -, hid, -, hadvances⟩ := hsucceeded.advances laws hdone.intact
  have hfirst : HasLatest event.after value.objectId :=
    (hasLatest_iff laws hafter).mpr ⟨stored, hadvances.latest.mpr (.inl rfl), hid⟩
  obtain ⟨resolved, hlookup⟩ := hrest.hasLatest laws hintact hkeeps hfirst
  exact ⟨resolved, hlookup, lookup_latest_exact laws hintact hlookup
    (hintact.latest_live laws (lookup_latest laws hintact hlookup).1)⟩

/-! ## Latest tags of the sample service -/

namespace Sample

open MeridianOci.Model.Sample

/-- A create-only put of a text. -/
def create (objectId text : String) : Plain where
  objectId := objectId
  text := text
  createOnly := true

theorem createsOnly_create {objectId text : String} :
    CreatesOnly platform (create objectId text).input ⟨"immutable", false⟩ :=
  ⟨immutabilityOf_input, rfl, rfl⟩

theorem ready_create {limit : Nat} {objectId text : String} (hfits : (create objectId text).Fits limit)
    (now : DateTime) : Ready (Sample.setting limit False) (create objectId text).input
      (create objectId text).content ⟨"immutable", false⟩ now :=
  ⟨immutabilityOf_input, _, _, payloadOf_input, retentionOf_input, deliverable hfits.content,
    acceptable hfits now⟩

/-- Two puts of one object id, and a delete of the second version. -/
theorem run_orphaned {limit : Nat} (hfirst : (Plain.mk "a" "x" false none none).Fits limit)
    (hsecond : (Plain.mk "a" "y" false none none).Fits limit) :
    ∃ w w' w'' : World (Sample.setting limit False).policy,
      Runs (Sample.setting limit False) (.aware 0) ⟨w'', .idle,
        [eventOf { objectId := "a", text := "x" } (Plain.stored { objectId := "a", text := "x" }).metadata
            (World.empty _ (.aware 0)) w,
          eventOf { objectId := "a", text := "y" } (Plain.stored { objectId := "a", text := "y" }).metadata w w',
          ⟨.execute (Plain.deletion { objectId := "a", text := "y" }), .ok (.result .delete), w', w''⟩]⟩ ∧
      Plain.stored { objectId := "a", text := "x" } ∈ (catalogOf w''.registry).live ∧
      (∀ stored ∈ (catalogOf w''.registry).live, stored = Plain.stored { objectId := "a", text := "x" }) ∧
      (catalogOf w''.registry).latest = ∅ := by
  obtain ⟨w, hrun, hcatalog⟩ := run_start hfirst (.aware 0)
  have hne := @digest_ne { objectId := "a", text := "x" } { objectId := "a", text := "y" } (by decide)
  have hstored : Plain.stored { objectId := "a", text := "x" } ≠ Plain.stored { objectId := "a", text := "y" } :=
    fun heq => hne (congrArg (fun stored => stored.metadata.digest) heq)
  obtain ⟨w', hrun', hcatalog'⟩ := run_new hsecond hrun (fun h => by cases h) (by
    rw [hcatalog]
    rintro stored rfl
    exact hne)
  have hlive : Plain.stored { objectId := "a", text := "y" } ∈ (catalogOf w'.registry).live := by
    rw [hcatalog']
    exact .inl rfl
  obtain ⟨w'', hrun'', hcatalog'', -⟩ := @run_deletion limit { objectId := "a", text := "y" } _ _ _ hrun' _ hlive
    rfl rfl rfl
  refine ⟨w, w', w'', hrun'', ?_, ?_, ?_⟩
  · rw [hcatalog'', hcatalog', hcatalog]
    exact ⟨.inr rfl, hstored⟩
  · rw [hcatalog'', hcatalog', hcatalog]
    rintro stored ⟨rfl | rfl, hother⟩
    · exact absurd rfl hother
    · rfl
  · rw [hcatalog'', hcatalog', hcatalog]
    refine Set.eq_empty_of_forall_notMem ?_
    rintro stored ⟨rfl | ⟨rfl, hid⟩, hother⟩
    · exact hother rfl
    · exact hid rfl

/-- A create-only put, and the same put again. -/
theorem create_only_sound_first : ∃ limit, ∃ w : World (Sample.setting limit False).policy,
    Runs (Sample.setting limit False) (.aware 0) ⟨w, .idle,
      [eventOf (create "a" "x") (create "a" "x").stored.metadata (World.empty _ (.aware 0)) w]⟩ ∧
    ¬@HasVersion _ (Sample.adapter limit) (Sample.setting limit False) (World.empty _ (.aware 0)) "a" ∧
    ∀ outcome w', Performs (Sample.setting limit False).faultless.env
        ((Sample.adapter limit).put platform (create "a" "y").input) w outcome w' →
      (∃ metadata, outcome = .ok (.put metadata)) →
        ¬@HasVersion _ (Sample.adapter limit) (Sample.setting limit False) w "a" := by
  obtain ⟨limit, hfits⟩ := exists_limit [create "a" "x", create "a" "y"] (by decide)
  obtain ⟨w, hrun, hcatalog⟩ := run_start (hfits _ List.mem_cons_self) (.aware 0)
  have hintact := hrun.intact lawful
  have hsound := @create_only_sound _ _ _ lawful (responsive limit False) _ _ _ hrun "a"
  refine ⟨limit, w, hrun, ?_, ?_⟩
  · refine hsound.1 _ List.mem_cons_self _ _ _ rfl rfl createsOnly_create rfl ?_
    rintro ⟨digest, resolved, hlookup⟩
    have hlive := (lookup_exact lawful intact_empty hlookup).1
    rw [catalogOf_empty] at hlive
    exact hlive.elim
  · have hsecond := hfits _ (List.mem_cons_of_mem _ List.mem_cons_self)
    refine (hsound.2 _ _ _ rfl createsOnly_create (ready_create hsecond w.now) ?_).mpr fun _ => ?_
    · intro other resolved hlookup
      obtain ⟨hlive, -, hdigest⟩ := lookup_exact lawful hintact hlookup
      rw [hcatalog] at hlive
      rw [show resolved.stored = (create "a" "x").stored from hlive] at hdigest
      exact @digest_ne (create "a" "x") (create "a" "y") (by decide) hdigest
    · refine (hasLatest_iff lawful hintact).mpr ⟨(create "a" "x").stored, ?_, rfl⟩
      rw [hcatalog]
      exact rfl

/-- A create-only put succeeds beside a version that its exact reference finds. -/
theorem create_only_beside : ∃ limit, ∃ w w₁ w₂ w₃ : World (Sample.setting limit False).policy,
    Runs (Sample.setting limit False) (.aware 0) ⟨w₃, .idle,
      [eventOf { objectId := "a", text := "x" } (Plain.stored { objectId := "a", text := "x" }).metadata
          (World.empty _ (.aware 0)) w,
        eventOf { objectId := "a", text := "y" } (Plain.stored { objectId := "a", text := "y" }).metadata w w₁,
        ⟨.execute (Plain.deletion { objectId := "a", text := "y" }), .ok (.result .delete), w₁, w₂⟩,
        eventOf (create "a" "z") (create "a" "z").stored.metadata w₂ w₃]⟩ ∧
      CreatesOnly platform (create "a" "z").input ⟨"immutable", false⟩ ∧
      ∃ resolved, w₂.lookup (exactReference (Sample.adapter limit) "a" (sha256Digest platform
        (Plain.content { objectId := "a", text := "x" }))) = .ok resolved := by
  obtain ⟨limit, hfits⟩ := exists_limit
    [create "a" "z", { objectId := "a", text := "x" }, { objectId := "a", text := "y" }] (by decide)
  obtain ⟨w, w₁, w₂, hrun, hlive, honly, hlatest⟩ := run_orphaned
    (hfits _ (List.mem_cons_of_mem _ List.mem_cons_self))
    (hfits _ (List.mem_cons_of_mem _ (List.mem_cons_of_mem _ List.mem_cons_self)))
  have hintact : Intact w₂.registry := hrun.intact lawful
  have havailable : Available w₂.registry "a" ⟨"immutable", false⟩ true := by
    refine ((@createsOnly_create "a" "z").available_iff lawful hintact).mpr fun hhas => ?_
    obtain ⟨stored, hmem, -⟩ := (hasLatest_iff lawful hintact).mp hhas
    rw [hlatest] at hmem
    exact hmem
  obtain ⟨w₃, hrun', -⟩ := run_new (hfits _ List.mem_cons_self) hrun havailable (by
    intro stored hmem
    rw [honly stored hmem]
    exact @digest_ne { objectId := "a", text := "x" } (create "a" "z") (by decide))
  obtain ⟨resolved, hlookup, -⟩ := (mem_live_iff lawful hintact).mp hlive
  exact ⟨limit, w, w₁, w₂, w₃, hrun', createsOnly_create, resolved, hlookup⟩

/-- A delete that the retention of its version denies. -/
theorem run_denied {limit : Nat} {put : Plain} {now : DateTime} {w : World (Sample.setting limit False).policy}
    {history : List (Event Call Err Answer (World (Sample.setting limit False).policy))}
    (hrun : Runs (Sample.setting limit False) now ⟨w, .idle, history⟩)
    (hlive : put.stored ∈ (catalogOf w.registry).live) (hdenies : Denies platform put.stored.retention 0) :
    ∃ error w', Runs (Sample.setting limit False) now ⟨w', .idle,
        history ++ [⟨.execute put.deletion, .error error, w, w'⟩]⟩ ∧
      catalogOf w'.registry = catalogOf w.registry := by
  obtain ⟨outcome, w', hperforms⟩ := (responsive limit False).performs
    (Call.program platform (Sample.adapter limit) (.execute put.deletion)) w
  have hrun' := Reachable.performs hrun hperforms
  obtain ⟨_, hlog, -⟩ := Runs.log lawful hrun'
  obtain ⟨-, hdone, -⟩ := hlog.of_snoc
  have heffected := hdone.effected
  dsimp only at heffected
  cases heffected with
  | published value content immutability retention metadata answer hrequest => cases hrequest
  | interrupted value error hrequest => cases hrequest
  | removed raw reference stored outcome hdeletion hreference htargets hremoved =>
    -- the version that it names is the one whose retention denies
    obtain rfl := Option.some.inj hdeletion
    obtain rfl := Except.ok.inj ((reference_plain true).symm.trans hreference)
    obtain ⟨body, hpublished, htagged, -⟩ := htargets
    obtain ⟨body', hpublished', htagged'⟩ := hlive
    obtain rfl := Option.some.inj (htagged.symm.trans htagged')
    obtain rfl := hpublished.injective lawful hpublished'
    obtain ⟨-, -, instant, htick, -, hpermitted⟩ := hremoved
    obtain rfl : instant = 0 := DateTime.aware.inj htick
    exact absurd hpermitted hdenies
  | unchanged _ _ hsame hfailed =>
    rcases hfailed with hnone | ⟨error, rfl⟩
    · cases hnone
    · exact ⟨error, w', hrun', hsame⟩

/-- Two versions; a delete of the newest is denied, and the older one is deleted. -/
theorem latest_survives_deletes : ∃ limit error, ∃ w w₁ w₂ w₃ : World (Sample.setting limit False).policy,
    Runs (Sample.setting limit False) (.aware 0) ⟨w₃, .idle,
      [eventOf { objectId := "a", text := "x" } (Plain.stored { objectId := "a", text := "x" }).metadata
          (World.empty _ (.aware 0)) w,
        eventOf (held "a" "y") (held "a" "y").stored.metadata w w₁,
        ⟨.execute (held "a" "y").deletion, .error error, w₁, w₂⟩,
        ⟨.execute (Plain.deletion { objectId := "a", text := "x" }), .ok (.result .delete), w₂, w₃⟩]⟩ ∧
    ∃ resolved, w₃.lookup (latestReference (Sample.adapter limit) "a") = .ok resolved ∧
      w₃.lookup (exactReference (Sample.adapter limit) "a" resolved.stored.metadata.digest) = .ok resolved := by
  obtain ⟨limit, hfits⟩ := exists_limit [{ objectId := "a", text := "x" }, held "a" "y"] (by decide)
  obtain ⟨w, hrun, hcatalog⟩ := run_start (hfits _ List.mem_cons_self) (.aware 0)
  have hne := @digest_ne { objectId := "a", text := "x" } (held "a" "y") (by decide)
  obtain ⟨w₁, hrun₁, hcatalog₁⟩ := run_new (hfits _ (List.mem_cons_of_mem _ List.mem_cons_self)) hrun
    (fun h => by cases h) (by
      rw [hcatalog]
      rintro stored rfl
      exact hne)
  have hintact₁ := Runs.intact lawful hrun₁
  have hlive₁ : (held "a" "y").stored ∈ (catalogOf w₁.registry).live := by
    rw [hcatalog₁]
    exact .inl rfl
  obtain ⟨error, w₂, hrun₂, hcatalog₂⟩ := run_denied hrun₁ hlive₁ (denies_held 0)
  have hintact₂ := Runs.intact lawful hrun₂
  have hlive₂ : Plain.stored { objectId := "a", text := "x" } ∈ (catalogOf w₂.registry).live := by
    rw [hcatalog₂, hcatalog₁, hcatalog]
    exact .inr rfl
  obtain ⟨w₃, hrun₃, -, -⟩ := @run_deletion limit { objectId := "a", text := "x" } _ _ _ hrun₂ _ hlive₂ rfl rfl rfl
  have honly : ∀ {v : World (Sample.setting limit False).policy} {resolved : ResolvedObject platform},
      Intact v.registry → catalogOf v.registry = catalogOf w₁.registry →
      v.lookup (latestReference (Sample.adapter limit) "a") = .ok resolved → resolved.stored = (held "a" "y").stored := by
    intro v resolved hintact hsame hlookup
    obtain ⟨hlatest, hid⟩ := lookup_latest lawful hintact hlookup
    rw [hsame, hcatalog₁] at hlatest
    rcases hlatest with heq | ⟨-, hother⟩
    · exact heq
    · exact absurd hid hother
  refine ⟨limit, error, w, w₁, w₂, w₃, hrun₃, ?_⟩
  have hrun' : Runs (Sample.setting limit False) (.aware 0) ⟨w₃, .idle,
      [eventOf { objectId := "a", text := "x" } (Plain.stored { objectId := "a", text := "x" }).metadata
          (World.empty _ (.aware 0)) w] ++
        eventOf (held "a" "y") (held "a" "y").stored.metadata w w₁ ::
        [⟨.execute (held "a" "y").deletion, .error error, w₁, w₂⟩,
          ⟨.execute (Plain.deletion { objectId := "a", text := "x" }), .ok (.result .delete), w₂, w₃⟩]⟩ := hrun₃
  refine @latest_survives _ _ _ lawful _ _ _ _ _ (held "a" "y").input _ hrun' rfl rfl ?_
  intro later hmem
  rcases List.mem_cons.mp hmem with rfl | hlast
  · rintro ⟨raw, reference, resolved, -, -, -, hlookup, -, hgone⟩
    have hstored := honly hintact₁ rfl hlookup
    obtain ⟨found, hfound, -⟩ := (mem_live_iff lawful hintact₂).mp (hcatalog₂.symm ▸ hlive₁)
    rw [hstored] at hgone
    exact hgone found hfound
  · obtain rfl := List.mem_singleton.mp hlast
    rintro ⟨raw, reference, resolved, hdeletion, hreference, -, hlookup, hdigest, -⟩
    have hstored := honly hintact₂ hcatalog₂ hlookup
    obtain rfl := Option.some.inj hdeletion
    obtain rfl := Except.ok.inj ((reference_plain true).symm.trans hreference)
    have hsame := hdigest _ rfl
    rw [hstored] at hsame
    exact hne hsame

/-- After a delete of the newest of two versions no latest version is found. -/
theorem latest_lost : ∃ limit, ∃ w w' w'' : World (Sample.setting limit False).policy,
    Runs (Sample.setting limit False) (.aware 0) ⟨w'', .idle,
      [eventOf { objectId := "a", text := "x" } (Plain.stored { objectId := "a", text := "x" }).metadata
          (World.empty _ (.aware 0)) w,
        eventOf { objectId := "a", text := "y" } (Plain.stored { objectId := "a", text := "y" }).metadata w w',
        ⟨.execute (Plain.deletion { objectId := "a", text := "y" }), .ok (.result .delete), w', w''⟩]⟩ ∧
      (∃ resolved, w''.lookup (exactReference (Sample.adapter limit) "a" (sha256Digest platform
        (Plain.content { objectId := "a", text := "x" }))) = .ok resolved) ∧
      ∃ error, w''.lookup (latestReference (Sample.adapter limit) "a") = .error error := by
  obtain ⟨limit, hfits⟩ := exists_limit
    [{ objectId := "a", text := "x" }, { objectId := "a", text := "y" }] (by decide)
  obtain ⟨w, w', w'', hrun, hlive, -, hlatest⟩ := run_orphaned (hfits _ List.mem_cons_self)
    (hfits _ (List.mem_cons_of_mem _ List.mem_cons_self))
  have hintact := hrun.intact lawful
  obtain ⟨resolved, hlookup, -⟩ := (mem_live_iff lawful hintact).mp hlive
  refine ⟨limit, w, w', w'', hrun, ⟨resolved, hlookup⟩, ?_⟩
  cases hlookup' : w''.lookup (latestReference (Sample.adapter limit) "a") with
  | error error => exact ⟨error, rfl⟩
  | ok other =>
    have hmem := (lookup_latest lawful hintact hlookup').1
    rw [hlatest] at hmem
    exact hmem.elim

end Sample

end MeridianOci.Service
