import MeridianOci.Service.Sample

/-!
# Publish-once requests

A publish-once request is accepted only while the anchor of its object id is absent, and
an anchor that exists is never removed. So at most one such request succeeds in a run, and
none after any version of the object id could be found.
-/
namespace MeridianOci.Service

open MeridianOci.Data MeridianOci.Effect MeridianOci.Model

set_option autoImplicit false

variable {P : Platform} {adapter : OciDistributionAdapter}
variable {setting : Setting P adapter.transport.binding}

/-- A finished call is a publish-once request for an object id that returned. -/
def PublishesOnce (event : Event Call Err Answer (World setting.policy)) (objectId : String) : Prop :=
  ∃ value immutability answer, requestOf event.before.memory event.call = some value ∧
    value.objectId = objectId ∧ immutabilityOf P value = .ok immutability ∧
    immutability.publishOnce = true ∧ event.outcome = .ok answer

/-- The object id was unknown before a publish-once request that returned, and is known after it. -/
theorem Done.publishes_once (laws : P.Lawful) {event : Event Call Err Answer (World setting.policy)}
    {objectId : String} (hdone : Done setting event) (h : PublishesOnce event objectId) :
    objectId ∉ (catalogOf event.before.registry).anchored ∧
      objectId ∈ (catalogOf event.after.registry).anchored := by
  obtain ⟨value, immutability, answer, hrequest, rfl, hparsed, honce, houtcome⟩ := h
  have heffected := hdone.effected
  rw [houtcome] at heffected
  obtain ⟨content, other, retention, metadata, -, hsucceeded, -⟩ := heffected.succeeded hrequest
  obtain rfl := Except.ok.inj (hparsed.symm.trans hsucceeded.parsed)
  have havailable := (available_iff laws hdone.intact).mp hsucceeded.available (by simp [honce])
  obtain ⟨stored, -, hid, -, hadvances⟩ := hsucceeded.advances laws hdone.intact
  refine ⟨havailable.1 honce, ?_⟩
  rw [← hid]
  exact (hadvances.anchored hdone.intact.live_anchored).2

/-- A publish-once request that returned is the first one of its object id to do so, and no
exact reference of that object id resolved in any state before it. -/
theorem publish_once_exclusive (laws : P.Lawful) {now : DateTime}
    {config : Config Op Op.Res Err Answer (World setting.policy) Call} (hrun : Runs setting now config)
    {front rest : List (Event Call Err Answer (World setting.policy))}
    {event : Event Call Err Answer (World setting.policy)} {objectId : String}
    (hhistory : config.history = front ++ event :: rest) (hpublished : PublishesOnce event objectId) :
    (∀ other ∈ front, ¬PublishesOnce other objectId) ∧
      ∀ earlier, Runs setting now earlier →
        Relation.ReflTransGen (Step setting.env (Call.program P adapter)) earlier
          ⟨event.before, .idle, front⟩ →
        ∀ digest resolved, earlier.state.lookup (exactReference adapter objectId digest) ≠ .ok resolved := by
  obtain ⟨w, hlog, -⟩ := hrun.log laws
  rw [hhistory] at hlog
  obtain ⟨hfront, hdone, -⟩ := hlog.split
  have hunknown := (hdone.publishes_once laws hpublished).1
  constructor
  · intro other hmem hother
    obtain ⟨before, between, rfl⟩ := List.append_of_mem hmem
    obtain ⟨-, hearlier, hbetween⟩ := hfront.split
    exact hunknown (hbetween.anchored laws (hearlier.publishes_once laws hother).2)
  · intro earlier hearlier hpath digest resolved hlookup
    have hintact := hearlier.intact laws
    obtain ⟨hlive, hid, -⟩ := lookup_exact laws hintact hlookup
    have hanchored := hintact.live_anchored _ hlive
    rw [hid] at hanchored
    exact hunknown ((hearlier.moves laws hpath).anchored laws hanchored)

/-! ## Finality -/

/-- The object id is known, and its latest version has the given digest if there is one. -/
structure Final (c : Catalog String StoredObject) (objectId digest : String) : Prop where
  anchored : objectId ∈ c.anchored
  latest : ∀ stored ∈ c.latest, stored.objectId = objectId → stored.metadata.digest = digest

/-- A request for the object id asks publish-once, or asks create-only while there is a latest
version, or only delivers content with the digest, or is refused without an effect. -/
def Respects (event : Event Call Err Answer (World setting.policy)) (objectId digest : String) : Prop :=
  ∀ value, requestOf event.before.memory event.call = some value → value.objectId = objectId →
    (∃ immutability, immutabilityOf P value = .ok immutability ∧ (immutability.publishOnce = true ∨
      (value.createOnly = true ∧
        ∃ resolved, event.before.lookup (latestReference adapter objectId) = .ok resolved))) ∨
    (∀ content, sourceOf setting event.before event.call content → sha256Digest P content = digest) ∨
    ((∃ error, event.outcome = .error error) ∧
      ∀ resolved, event.after.lookup (latestReference adapter objectId) = .ok resolved →
        event.before.lookup (latestReference adapter objectId) = .ok resolved)

/-- A request that respects finality is not available, or has the digest, or has no effect. -/
theorem Respects.refused (laws : P.Lawful) {event : Event Call Err Answer (World setting.policy)}
    {objectId digest : String} {value : PutInput} (h : Respects event objectId digest)
    (hintact : Intact event.before.registry) (hfinal : Final (catalogOf event.before.registry) objectId digest)
    (hrequest : requestOf event.before.memory event.call = some value) (hid : value.objectId = objectId) :
    (∃ immutability, immutabilityOf P value = .ok immutability ∧
      ¬Available event.before.registry value.objectId immutability
        (value.createOnly || immutability.publishOnce)) ∨
    (∀ content, sourceOf setting event.before event.call content → sha256Digest P content = digest) ∨
    ((∃ error, event.outcome = .error error) ∧
      ∀ resolved, event.after.lookup (latestReference adapter objectId) = .ok resolved →
        event.before.lookup (latestReference adapter objectId) = .ok resolved) := by
  refine (h value hrequest hid).imp_left ?_
  rintro ⟨immutability, hparsed, hwhy⟩
  refine ⟨immutability, hparsed, fun havailable => ?_⟩
  rw [available_iff laws hintact, hid] at havailable
  cases honce : immutability.publishOnce with
  | true => exact (havailable (by simp [honce])).1 honce hfinal.anchored
  | false =>
    rw [honce] at hwhy
    obtain ⟨honly, resolved, hlookup⟩ := hwhy.resolve_left (by decide)
    obtain ⟨hlatest, hfound⟩ := lookup_latest laws hintact hlookup
    exact (havailable (by simp [honly])).2 honce _ hlatest hfound

theorem Done.final (laws : P.Lawful) {event : Event Call Err Answer (World setting.policy)}
    {objectId digest : String} (hdone : Done setting event) (hintact' : Intact event.after.registry)
    (hrespects : Respects event objectId digest) (hfinal : Final (catalogOf event.before.registry) objectId digest) :
    Final (catalogOf event.after.registry) objectId digest := by
  refine ⟨hdone.anchored laws hfinal.anchored, ?_⟩
  have heffected := hdone.effected
  generalize houtcome : event.outcome = outcome at heffected
  intro other hother hid
  rcases heffected with ⟨value, content, immutability, retention, metadata, answer, hrequest, hsource,
      hsucceeded, -⟩ | ⟨value, error, hrequest, hinterrupted⟩ |
    ⟨raw, reference, stored, -, -, -, -, hremoved⟩ | ⟨-, -, hsame, -⟩
  · obtain ⟨stored, hmetadata, hstored, hdigest, hadvances⟩ := hsucceeded.advances laws hdone.intact
    rcases hadvances.latest.mp hother with rfl | ⟨hlatest, -⟩
    · have hvalue : value.objectId = objectId := hstored.symm.trans hid
      rcases hrespects.refused laws hdone.intact hfinal hrequest hvalue with
        ⟨found, hparsed, hclosed⟩ | hdelivers | ⟨⟨error, herror⟩, -⟩
      · obtain rfl := Except.ok.inj (hparsed.symm.trans hsucceeded.parsed)
        exact absurd hsucceeded.available hclosed
      · rw [hmetadata, hdigest]
        exact hdelivers content hsource
      · cases houtcome.symm.trans herror
    · exact hfinal.latest other hlatest hid
  · rcases hinterrupted.commits with hsame | ⟨content, hsource, hcommits⟩
    · rw [hsame] at hother
      exact hfinal.latest other hother hid
    · by_cases hvalue : value.objectId = objectId
      · rcases hrespects.refused laws hdone.intact hfinal hrequest hvalue with
          ⟨found, hparsed, hclosed⟩ | hdelivers | ⟨-, hsame⟩
        · rw [hinterrupted.refused found hparsed hclosed] at hother
          exact hfinal.latest other hother hid
        · rcases hcommits.latest_same with hsame | ⟨stored, hgood, -, -, hpoint⟩
          · rw [hsame] at hother
            exact hfinal.latest other hother hid
          · rw [hpoint, Catalog.mem_point] at hother
            rcases hother with rfl | ⟨hlatest, -⟩
            · exact hgood.trans (hdelivers content hsource)
            · exact hfinal.latest other hlatest hid
        · obtain ⟨resolved, hlookup, rfl⟩ := (mem_latest_iff laws hintact').mp hother
          rw [show resolved.stored.objectId = objectId from hid] at hlookup
          exact hfinal.latest _ (lookup_latest laws hdone.intact (hsame resolved hlookup)).1 hid
      · have hne : (storedNames P).idOf other ≠ value.objectId := fun heq => hvalue (heq.symm.trans hid)
        exact hfinal.latest other ((hcommits.latest_other hne).mp hother) hid
  · rw [hremoved.2.1] at hother
    exact hfinal.latest other hother.1 hid
  · rw [hsame] at hother
    exact hfinal.latest other hother hid

theorem Log.final (laws : P.Lawful) {first w : World setting.policy} {objectId digest : String}
    {history : List (Event Call Err Answer (World setting.policy))} (h : Log setting first history w)
    (hintact : Intact w.registry) (hrespects : ∀ event ∈ history, Respects event objectId digest)
    (hfinal : Final (catalogOf first.registry) objectId digest) :
    Final (catalogOf w.registry) objectId digest := by
  induction h with
  | nil => exact hfinal
  | snoc history event _ hdone ih =>
    have hbefore := ih hdone.intact fun other hother => hrespects other (List.mem_append_left _ hother)
    exact hdone.final laws hintact (hrespects event (List.mem_append_right _ List.mem_cons_self)) hbefore

/-- After a publish-once request that returned, and while all later requests respect it, a
lookup without a digest finds its content or nothing. -/
theorem publish_once_final (laws : P.Lawful) {now : DateTime} {w : World setting.policy}
    {front rest : List (Event Call Err Answer (World setting.policy))}
    {event : Event Call Err Answer (World setting.policy)} {objectId : String} {answer : Answer}
    {metadata : ObjectMetadata} (hrun : Runs setting now ⟨w, .idle, front ++ event :: rest⟩)
    (hpublished : PublishesOnce event objectId) (houtcome : event.outcome = .ok answer)
    (hanswer : publishedBy answer = some metadata)
    (hrespects : ∀ later ∈ rest, Respects later objectId metadata.digest) :
    (∀ resolved, w.lookup (latestReference adapter objectId) = .ok resolved →
        resolved.stored.metadata.digest = metadata.digest) ∧
      ∀ error, w.lookup (latestReference adapter objectId) = .error error → error.kind = .objectNotFound := by
  obtain ⟨last, hlog, hlast⟩ := hrun.log laws
  obtain rfl := hlast rfl
  obtain ⟨-, hdone, hrest⟩ := hlog.split
  have hintact := hrun.intact laws
  constructor
  · intro resolved hlookup
    have hknown := (hdone.publishes_once laws hpublished).2
    obtain ⟨value, -, -, hrequest, hid, -⟩ := hpublished
    have heffected := hdone.effected
    rw [houtcome] at heffected
    obtain ⟨content, immutability, retention, other, -, hsucceeded, hother⟩ := heffected.succeeded hrequest
    obtain rfl := Option.some.inj (hanswer.symm.trans hother)
    obtain ⟨stored, hmetadata, hstored, -, hadvances⟩ := hsucceeded.advances laws hdone.intact
    have hfinal : Final (catalogOf event.after.registry) objectId metadata.digest := by
      refine ⟨hknown, fun found hfound hfoundId => ?_⟩
      rcases hadvances.latest.mp hfound with rfl | ⟨-, hne⟩
      · rw [hmetadata]
      · exact absurd (hfoundId.trans (hid.symm.trans hstored.symm)) hne
    obtain ⟨hlatest, hid⟩ := lookup_latest laws hintact hlookup
    exact (hrest.final laws hintact hrespects hfinal).latest _ hlatest hid
  · intro error hlookup
    obtain ⟨-, hkind | ⟨digest, hdigest, -⟩⟩ := lookup_error laws hintact hlookup
    · exact hkind
    · cases hdigest

/-! ## Publish-once puts of the sample service -/

namespace Sample

open MeridianOci.Model.Sample

/-- The event of a plain put. -/
def eventOf {limit : Nat} {faults : Prop} (put : Plain) (metadata : ObjectMetadata)
    (w w' : World (Sample.setting limit faults).policy) :
    Event Call Err Answer (World (Sample.setting limit faults).policy) :=
  ⟨.execute put.operation, .ok (.result (.put metadata)), w, w'⟩

theorem publishesOnce_once {limit : Nat} {faults : Prop} {objectId text : String} {metadata : ObjectMetadata}
    {w w' : World (Sample.setting limit faults).policy} :
    PublishesOnce (eventOf (once objectId text) metadata w w') objectId :=
  ⟨_, _, _, rfl, rfl, immutabilityOf_input, rfl, rfl⟩

/-- A put of another object, a publish-once put that fails, and one that returns. -/
theorem publish_once_exclusive_retry : ∃ limit error, ∃ w w₁ w₂ : World (Sample.setting limit True).policy,
    Runs (Sample.setting limit True) (.aware 0) ⟨w₂, .idle,
      [eventOf { objectId := "b", text := "z" } (Plain.stored { objectId := "b", text := "z" }).metadata
          (World.empty _ (.aware 0)) w,
        ⟨.execute (once "a" "x").operation, .error error, w, w₁⟩,
        eventOf (once "a" "y") (once "a" "y").stored.metadata w₁ w₂]⟩ ∧
    PublishesOnce (eventOf (once "a" "y") (once "a" "y").stored.metadata w₁ w₂) "a" ∧
    ∀ digest resolved, w₁.lookup (exactReference (Sample.adapter limit) "a" digest) ≠ .ok resolved := by
  obtain ⟨limit, hfits⟩ := exists_limit [{ objectId := "b", text := "z" }, once "a" "x", once "a" "y"] (by decide)
  have hfits' := hfits _ (List.mem_cons_of_mem _ (List.mem_cons_of_mem _ List.mem_cons_self))
  obtain ⟨w, hrun, hcatalog⟩ := @run_new limit True { objectId := "b", text := "z" } (hfits _ List.mem_cons_self)
    (.aware 0) _ [] .refl (fun h => by cases h) (by
      rw [catalogOf_empty]
      exact fun other h => h.elim)
  rw [catalogOf_empty] at hcatalog
  have hlive : ∀ stored ∈ (catalogOf w.registry).live, stored = Plain.stored { objectId := "b", text := "z" } := by
    rw [hcatalog]
    rintro stored (rfl | hold)
    · rfl
    · exact hold.elim
  obtain ⟨w₁, error, hrun₁, hsame⟩ := @run_down limit (once "a" "x")
    (hfits _ (List.mem_cons_of_mem _ List.mem_cons_self)).content (.aware 0) _ _ hrun (by
      intro stored hmem
      rw [hlive stored hmem]
      exact @digest_ne { objectId := "b", text := "z" } (once "a" "x") (by decide))
  obtain ⟨w₂, hrun₂, -⟩ := @run_new limit True (once "a" "y") hfits' (.aware 0) _ _ hrun₁ (by
      rw [available_iff lawful (Runs.intact lawful hrun₁), hsame, hcatalog]
      rintro -
      refine ⟨fun _ hanchored => ?_, fun h => by cases h⟩
      rcases hanchored with heq | hold
      · exact absurd heq (by decide)
      · exact hold) (by
      intro stored hmem
      rw [hsame] at hmem
      rw [hlive stored hmem]
      exact @digest_ne { objectId := "b", text := "z" } (once "a" "y") (by decide))
  have hhistory : [eventOf { objectId := "b", text := "z" } (Plain.stored { objectId := "b", text := "z" }).metadata
          (World.empty _ (.aware 0)) w,
        ⟨.execute (once "a" "x").operation, .error error, w, w₁⟩,
        eventOf (once "a" "y") (once "a" "y").stored.metadata w₁ w₂] =
      [eventOf { objectId := "b", text := "z" } (Plain.stored { objectId := "b", text := "z" }).metadata
          (World.empty _ (.aware 0)) w,
        ⟨.execute (once "a" "x").operation, .error error, w, w₁⟩] ++
        eventOf (once "a" "y") (once "a" "y").stored.metadata w₁ w₂ :: [] := rfl
  have hexclusive := publish_once_exclusive lawful hrun₂ hhistory publishesOnce_once
  exact ⟨limit, error, w, w₁, w₂, hrun₂, publishesOnce_once, hexclusive.2 _ hrun₁ .refl⟩

/-- An ordinary put of the same text after a publish-once put. -/
theorem publish_once_final_again : ∃ limit metadata,
    ∃ w w' : World (Sample.setting limit False).policy,
      Runs (Sample.setting limit False) (.aware 0) ⟨w', .idle,
        eventOf (once "a" "x") (once "a" "x").stored.metadata (World.empty _ (.aware 0)) w ::
          [eventOf { objectId := "a", text := "x" } metadata w w']⟩ ∧
        ∀ resolved, w'.lookup (latestReference (Sample.adapter limit) "a") = .ok resolved →
          resolved.stored.metadata.digest = (once "a" "x").stored.metadata.digest := by
  obtain ⟨limit, hfits⟩ := exists_limit [once "a" "x", { objectId := "a", text := "x" }] (by decide)
  obtain ⟨w, hrun, hcatalog⟩ := run_start (hfits _ List.mem_cons_self) (.aware 0)
  have hfits' := hfits _ (List.mem_cons_of_mem _ List.mem_cons_self)
  obtain ⟨w', metadata, hrun', -⟩ := run_plain hfits' hrun (fun h => by cases h)
    (not_blocked lawful (hrun.intact lawful) (by
      rw [hcatalog]
      rintro stored rfl - -
      exact ⟨rfl, rfl⟩))
  have hfinal := @publish_once_final _ _ _ lawful _ _ [] _ _ _ _ _ hrun' publishesOnce_once rfl rfl (by
    intro later hlater
    obtain rfl := List.mem_singleton.mp hlater
    refine fun value _ _ => .inr (.inl fun content hsource => ?_)
    rw [source_plain hfits'.content hsource]
    rfl)
  exact ⟨limit, metadata, w, w', hrun', hfinal.1⟩

/-- An ordinary put of another text after a publish-once put becomes the latest version. -/
theorem publish_once_overtaken : ∃ limit, ∃ w w' : World (Sample.setting limit False).policy,
    Runs (Sample.setting limit False) (.aware 0) ⟨w', .idle,
      [eventOf (once "a" "x") (once "a" "x").stored.metadata (World.empty _ (.aware 0)) w,
        eventOf { objectId := "a", text := "y" } (Plain.stored { objectId := "a", text := "y" }).metadata
          w w']⟩ ∧
      PublishesOnce (eventOf (once "a" "x") (once "a" "x").stored.metadata (World.empty _ (.aware 0)) w) "a" ∧
      ∃ resolved, w'.lookup (latestReference (Sample.adapter limit) "a") = .ok resolved ∧
        resolved.stored.metadata.digest ≠ (once "a" "x").stored.metadata.digest := by
  obtain ⟨limit, hfits⟩ := exists_limit [once "a" "x", { objectId := "a", text := "y" }] (by decide)
  obtain ⟨w, hrun, hcatalog⟩ := run_start (hfits _ List.mem_cons_self) (.aware 0)
  have hne := @digest_ne (once "a" "x") { objectId := "a", text := "y" } (by decide)
  obtain ⟨w', hrun', hcatalog'⟩ := run_new (hfits _ (List.mem_cons_of_mem _ List.mem_cons_self)) hrun
    (fun h => by cases h) (by
      rw [hcatalog]
      rintro stored rfl
      exact hne)
  have hlatest : Plain.stored { objectId := "a", text := "y" } ∈ (catalogOf w'.registry).latest := by
    rw [hcatalog', Catalog.mem_point]
    exact .inl rfl
  obtain ⟨resolved, hlookup, hstored⟩ := (mem_latest_iff lawful (hrun'.intact lawful)).mp hlatest
  refine ⟨limit, w, w', hrun', publishesOnce_once, resolved, hlookup, ?_⟩
  rw [hstored]
  exact hne.symm

end Sample

end MeridianOci.Service
