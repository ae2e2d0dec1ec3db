import MeridianOci.Service.Sample

/-!
# Granted retention

A put records its retention only when it publishes the version. While the clock moves
forward, a recorded retention denies every delete of its version for as long as it lasts;
a request that finds the version published with a weaker retention is not recorded.
-/
namespace MeridianOci.Service

open MeridianOci.Data MeridianOci.Effect MeridianOci.Model

set_option autoImplicit false

variable {P : Platform} {adapter : OciDistributionAdapter}
variable {setting : Setting P adapter.transport.binding}

/-! ## What a retention denies -/

/-- The retention does not permit a delete at this time. -/
def Denies (P : Platform) (retention : Option RetentionRequest) (now : Int) : Prop :=
  requireDeletePermitted P retention now ≠ .ok ()

theorem Denies.error (laws : P.Lawful) {retention : Option RetentionRequest} {now : Int}
    (h : Denies P retention now) {error : Err} (herror : requireDeletePermitted P retention now = .error error) :
    error.kind = .retentionDenied := by
  unfold requireDeletePermitted at herror
  cases retention with
  | none => cases herror
  | some request =>
    cases huntil : request.retainUntil with
    | none =>
      simp only [huntil] at herror
      obtain rfl := Except.error.inj herror
      rfl
    | some limit =>
      simp only [huntil] at herror
      by_cases hlt : now < limit
      · obtain ⟨denied, hdenied, hkind⟩ := laws.requireDeleteAllowed_before request limit now huntil hlt
        obtain rfl := Except.error.inj (hdenied.symm.trans herror)
        exact hkind
      · rw [laws.requireDeleteAllowed_after request limit now huntil (by omega)] at herror
        cases herror

/-- A retention that denies at one time has denied at all times before. -/
theorem Denies.earlier (laws : P.Lawful) {retention : Option RetentionRequest} {earlier now : Int}
    (h : Denies P retention now) (hle : earlier ≤ now) : Denies P retention earlier := by
  unfold Denies requireDeletePermitted at h ⊢
  cases retention with
  | none => exact absurd rfl h
  | some request =>
    cases huntil : request.retainUntil with
    | none => simp [huntil]
    | some limit =>
      simp only [huntil] at h ⊢
      have hlt : now < limit := by
        by_contra hge
        exact h (laws.requireDeleteAllowed_after request limit now huntil (by omega))
      obtain ⟨error, herror, -⟩ := laws.requireDeleteAllowed_before request limit earlier huntil (by omega)
      rw [herror]
      intro heq
      cases heq

/-- The recorded retention denies whatever the request denies. -/
def Covers (P : Platform) (recorded : Option RetentionRequest) (request : RetentionRequest) : Prop :=
  ∀ now, Denies P (some request) now → Denies P recorded now

/-! ## Clocks -/

/-- From its first reading on, the clock moves forward along an order in which an aware
reading shows its instant. -/
structure Forward (setting : Setting P adapter.transport.binding) (first : DateTime)
    (instant : DateTime → Int) : Prop where
  aware : ∀ t, instant (.aware t) = t
  tick : ∀ before after, Relation.ReflTransGen setting.tick first before → setting.tick before after →
    instant before ≤ instant after

/-- The readings of a path of worlds are a path of the clock. -/
theorem ticks_readings {w w' : World setting.policy} (h : Relation.ReflTransGen (Ticks setting) w w') :
    Relation.ReflTransGen setting.tick w.now w'.now := by
  induction h with
  | refl => exact .refl
  | tail _ hstep ih =>
    rcases hstep with hsame | htick
    · rw [hsame]
      exact ih
    · exact ih.tail htick

theorem Forward.ticks {first : DateTime} {instant : DateTime → Int} (h : Forward setting first instant)
    {w w' : World setting.policy} (hw : Relation.ReflTransGen setting.tick first w.now)
    (hticks : Relation.ReflTransGen (Ticks setting) w w') : instant w.now ≤ instant w'.now := by
  have hreadings := ticks_readings hticks
  generalize w'.now = last at hreadings
  induction hreadings with
  | refl => exact le_rfl
  | tail hearlier htick ih => exact ih.trans (h.tick _ _ (hw.trans hearlier) htick)

/-! ## Granted retentions -/

/-- A finished call is a request with a retention that returned a version. -/
def Grants (event : Event Call Err Answer (World setting.policy)) (objectId digest : String)
    (retention : RetentionRequest) : Prop :=
  ∃ value answer metadata, requestOf event.before.memory event.call = some value ∧
    value.objectId = objectId ∧ retentionOf P value = .ok (some retention) ∧
    event.outcome = .ok answer ∧ publishedBy answer = some metadata ∧ metadata.digest = digest

/-- While the request denies, a version with the digest is live under a retention that covers it. -/
def Kept (instant : DateTime → Int) (w : World setting.policy) (objectId digest : String)
    (request : RetentionRequest) : Prop :=
  Denies P (some request) (instant w.now) → ∃ stored ∈ (catalogOf w.registry).live,
    stored.objectId = objectId ∧ stored.metadata.digest = digest ∧ Covers P stored.retention request

section Kept

variable (laws : P.Lawful) {now : DateTime} {instant : DateTime → Int} (hforward : Forward setting now instant)
variable {objectId digest : String} {request : RetentionRequest}

include laws hforward

/-- No call removes a version while a covered request denies. -/
theorem Done.kept {event : Event Call Err Answer (World setting.policy)} (hdone : Done setting event)
    (hnow : Relation.ReflTransGen setting.tick now event.before.now) (h : Kept instant event.before objectId digest request) :
    Kept instant event.after objectId digest request := by
  intro hdenies
  obtain ⟨stored, hlive, hid, hdigest, hcovers⟩ := h (hdenies.earlier laws (hforward.ticks hnow hdone.ticks))
  refine ⟨stored, ?_, hid, hdigest, hcovers⟩
  have heffected := hdone.effected
  generalize event.outcome = outcome at heffected
  rcases heffected with ⟨value, content, immutability, retention, metadata, answer, -, -, hsucceeded, -⟩ |
    ⟨value, error, -, hinterrupted⟩ | ⟨raw, reference, other, -, -, -, -, hremoved⟩ | ⟨-, -, hsame, -⟩
  · obtain ⟨new, -, -, -, hadvances⟩ := hsucceeded.advances laws hdone.intact
    exact hadvances.live.mpr (.inr hlive)
  · rcases hinterrupted.commits with hsame | ⟨content, -, hcommits⟩
    · rw [hsame]
      exact hlive
    · exact hcommits.live.1 hlive
  · obtain ⟨-, hcatalog, t, -, hnow, hpermitted⟩ := hremoved
    rw [hcatalog]
    refine ⟨hlive, ?_⟩
    rintro rfl
    rw [hnow, hforward.aware] at hdenies
    exact hcovers t hdenies hpermitted
  · rw [hsame]
    exact hlive

theorem Log.kept {first w : World setting.policy}
    {history : List (Event Call Err Answer (World setting.policy))} (h : Log setting first history w)
    (hnow : Relation.ReflTransGen setting.tick now first.now)
    (hfirst : Kept instant first objectId digest request) : Kept instant w objectId digest request := by
  induction h with
  | nil => exact hfirst
  | snoc history event hlog hdone ih =>
    exact hdone.kept laws hforward (hnow.trans (ticks_readings hlog.ticks)) ih

end Kept

/-- A request whose version was not live, or was live under a covering retention, is kept. -/
theorem Grants.kept (laws : P.Lawful) (instant : DateTime → Int)
    {event : Event Call Err Answer (World setting.policy)} {objectId digest : String}
    {request : RetentionRequest} (hdone : Done setting event) (h : Grants event objectId digest request)
    (hcovered : ∀ resolved, event.before.lookup (exactReference adapter objectId digest) = .ok resolved →
      Covers P resolved.stored.retention request) :
    Kept instant event.after objectId digest request := by
  intro _
  obtain ⟨value, answer, metadata, hrequest, rfl, hretention, houtcome, hanswer, rfl⟩ := h
  have heffected := hdone.effected
  rw [houtcome] at heffected
  obtain ⟨content, immutability, retention, other, -, hsucceeded, hother⟩ := heffected.succeeded hrequest
  obtain rfl := Option.some.inj (hanswer.symm.trans hother)
  obtain rfl := Except.ok.inj (hretention.symm.trans hsucceeded.kept)
  obtain ⟨stored, rfl, hid, hdigest, hadvances⟩ := hsucceeded.advances laws hdone.intact
  refine ⟨stored, hadvances.live.mpr (.inl rfl), hid, rfl, ?_⟩
  cases hadvances with
  | existing _ hlive =>
    obtain ⟨resolved, hlookup, hstored⟩ := (mem_live_iff laws hdone.intact).mp hlive
    rw [hid] at hlookup
    rw [← hstored]
    exact hcovered resolved hlookup
  | fresh _ hrecorded =>
    rw [hrecorded]
    exact fun _ h => h

/-! ## Deletes -/

/-- What a delete of a reference ensures. -/
def Deleted (setting : Setting P adapter.transport.binding) (w : World setting.policy) (call : Call)
    (outcome : Except Err Answer) (w' : World setting.policy) : Prop :=
  ∀ operation raw, call = .execute operation → Accepted P adapter operation "delete" →
    operation.input = .delete raw →
    match outcome with
    | .ok _ => ∃ reference stored, adapter.reference P raw true = .ok reference ∧
        Targets w reference stored ∧ Removed w w' stored
    | .error error => setting.faults ∨ Undeletable w w' raw error

theorem call_deleted (laws : P.Lawful) (w : World setting.policy) (call : Call) (hintact : Intact w.registry)
    (hsound : SoundMemory w.memory) :
    (call.program P adapter).Ensures setting.env World.Change w (Deleted setting w call) := by
  by_cases hdelete : ∃ operation raw, call = .execute operation ∧ Accepted P adapter operation "delete" ∧
      operation.input = .delete raw
  · obtain ⟨operation, raw, rfl, haccepted, hinput⟩ := hdelete
    have hprogram := delete_ensures laws w hintact raw
    rw [← execute_delete haccepted hinput] at hprogram
    refine hprogram.bind ?_ ?_
    · rintro result w' ⟨-, -, hremoved⟩ other raw' heq - hinput'
      obtain rfl := Call.execute.inj heq
      obtain rfl := OperationInput.delete.inj (hinput.symm.trans hinput')
      exact hremoved
    · rintro error w' ⟨-, -, -, hwhy⟩ other raw' heq - hinput'
      obtain rfl := Call.execute.inj heq
      obtain rfl := OperationInput.delete.inj (hinput.symm.trans hinput')
      exact hwhy
  · refine (call_ensures laws w hintact hsound call).mono fun outcome w' _ operation raw heq haccepted hinput => ?_
    exact absurd ⟨operation, raw, heq, haccepted, hinput⟩ hdelete

/-- A granted retention denies every later delete of its version for as long as it lasts, if the
version was not live before with a retention that does not cover the request. -/
theorem retention_binding (laws : P.Lawful) {now : DateTime} {instant : DateTime → Int}
    (hforward : Forward setting now instant) {w : World setting.policy}
    {front between rest : List (Event Call Err Answer (World setting.policy))}
    {grant deletion : Event Call Err Answer (World setting.policy)} {objectId digest : String}
    {request : RetentionRequest} {operation : Operation} {raw : Json} {t : Int}
    (hrun : Runs setting now ⟨w, .idle, front ++ grant :: (between ++ deletion :: rest)⟩)
    (hgrants : Grants grant objectId digest request)
    (hcovered : ∀ resolved, grant.before.lookup (exactReference adapter objectId digest) = .ok resolved →
      Covers P resolved.stored.retention request)
    (hcall : deletion.call = .execute operation) (haccepted : Accepted P adapter operation "delete")
    (hinput : operation.input = .delete raw)
    (hreference : adapter.reference P raw true = .ok (exactReference adapter objectId digest))
    (hnow : deletion.after.now = .aware t) (hdenies : Denies P (some request) t) :
    (∃ error, deletion.outcome = .error error ∧ (Excused setting deletion ∨ error.kind = .retentionDenied)) ∧
      ∃ resolved, deletion.after.lookup (exactReference adapter objectId digest) = .ok resolved := by
  obtain ⟨last, hlog, -⟩ := hrun.log laws
  obtain ⟨hfront, hgrant, hlater⟩ := hlog.split
  obtain ⟨hbetween, hdeletion, -⟩ := hlater.split
  have hgranted := ticks_readings (hfront.ticks.trans hgrant.ticks)
  have hread := hgranted.trans (ticks_readings hbetween.ticks)
  have hbefore : Kept instant deletion.before objectId digest request :=
    hbetween.kept laws hforward hgranted (hgrants.kept laws instant hgrant hcovered)
  have hsplit : front ++ grant :: (between ++ deletion :: rest) =
      (front ++ grant :: between) ++ deletion :: rest := by simp
  have hintact' : Intact deletion.after.registry := (Runs.after laws (hsplit ▸ hrun)).intact laws
  have hdenies' : Denies P (some request) (instant deletion.after.now) := by
    rw [hnow, hforward.aware]
    exact hdenies
  obtain ⟨stored, hlive, hid, hdigest, hcovers⟩ :=
    hbefore (hdenies'.earlier laws (hforward.ticks hread hdeletion.ticks))
  obtain ⟨stored', hlive', hid', hdigest', -⟩ := hdeletion.kept laws hforward hread hbefore hdenies'
  constructor
  · -- the reference finds the covered version only
    have htarget : ∃ body, adapter.Published P stored body ∧ deletion.before.registry.tagged
        (nameOf P (exactReference adapter objectId digest)) = some body := by
      obtain ⟨body, hpublished, htagged⟩ := hlive
      rw [StoredObject.exactName, hid, hdigest] at htagged
      exact ⟨body, hpublished, htagged⟩
    have hsame : ∀ other, Targets deletion.before (exactReference adapter objectId digest) other →
        other = stored := by
      rintro other ⟨body, hpublished, htagged, -⟩
      obtain ⟨body', hpublished', htagged'⟩ := htarget
      obtain rfl := Option.some.inj (htagged.symm.trans htagged')
      exact hpublished.injective laws hpublished'
    have hpost := Runs.every laws (fun w call => call_deleted laws w call) hrun deletion (by simp)
      operation raw hcall haccepted hinput
    cases houtcome : deletion.outcome with
    | ok answer =>
      rw [houtcome] at hpost
      obtain ⟨reference, other, hother, htargets, -, -, t', -, hnow', hpermitted⟩ := hpost
      obtain rfl := Except.ok.inj (hreference.symm.trans hother)
      rw [hsame other htargets] at hpermitted
      obtain rfl := DateTime.aware.inj (hnow.symm.trans hnow')
      exact absurd hpermitted (hcovers t hdenies)
    | error error =>
      refine ⟨error, rfl, Classical.or_iff_not_imp_left.mpr fun hexcuse => ?_⟩
      have hperforms := not_not.mp hexcuse
      have hwhy := hperforms.ensures (@call_deleted _ _ setting.faultless laws deletion.before deletion.call
        hdeletion.intact hdeletion.sound) operation raw hcall haccepted hinput
      rw [houtcome] at hwhy
      cases hwhy.resolve_left id with
      | reference reason hreason =>
        rw [hreference] at hreason
        cases hreason
      | missing reference hother hnone =>
        obtain rfl := Except.ok.inj (hreference.symm.trans hother)
        obtain ⟨body, hpublished, htagged⟩ := htarget
        refine absurd ⟨body, hpublished, htagged, hid, ?_⟩ (hnone stored)
        intro other heq
        rw [hdigest]
        exact Option.some.inj heq
      | clock wall htick hnaive =>
        rw [hnow] at hnaive
        cases hnaive
      | retained reference other t' hother htargets htick hnow' herror =>
        obtain rfl := Except.ok.inj (hreference.symm.trans hother)
        rw [hsame other htargets] at herror
        obtain rfl := DateTime.aware.inj (hnow.symm.trans hnow')
        exact (hcovers t hdenies).error laws herror
  · obtain ⟨resolved, hlookup, -⟩ := (mem_live_iff laws hintact').mp hlive'
    rw [hid', hdigest'] at hlookup
    exact ⟨resolved, hlookup⟩

/-! ## Retention of the sample service -/

namespace Sample

open MeridianOci.Model.Sample

/-- A put with a retention that only an external decision releases. -/
def held (objectId text : String) : Plain where
  objectId := objectId
  text := text
  retention := some ⟨none, "hold", false⟩

theorem denies_held (now : Int) : Denies platform (some ⟨none, "hold", false⟩) now := by
  simp [Denies, requireDeletePermitted]

/-- The instant that a reading shows. -/
def instantOf : DateTime → Int
  | .aware t => t
  | .naive t => t

theorem forward (limit : Nat) (faults : Prop) : Forward (Sample.setting limit faults) (.aware 0) instantOf where
  aware _ := rfl
  tick before after hreach htick := by
    obtain rfl : after = .aware 0 := htick
    rcases Relation.ReflTransGen.cases_tail hreach with rfl | ⟨_, -, hlast⟩
    · exact le_rfl
    · obtain rfl : before = .aware 0 := hlast
      exact le_rfl

/-- A version that was published with a retention, and a delete of it. -/
theorem retention_binding_held : ∃ limit error, ∃ w w' : World (Sample.setting limit False).policy,
    Runs (Sample.setting limit False) (.aware 0) ⟨w', .idle,
      [⟨.execute (held "a" "x").operation, .ok (.result (.put (held "a" "x").stored.metadata)),
          World.empty _ (.aware 0), w⟩,
        ⟨.execute (held "a" "x").deletion, .error error, w, w'⟩]⟩ ∧ error.kind = .retentionDenied := by
  obtain ⟨limit, hfits⟩ := exists_limit [held "a" "x"] (by decide)
  obtain ⟨w, hrun, -⟩ := run_start (hfits _ List.mem_cons_self) (.aware 0)
  obtain ⟨outcome, w', hperforms⟩ := (responsive limit False).performs
    (Call.program platform (Sample.adapter limit) (.execute (held "a" "x").deletion)) w
  have hrun' := Reachable.performs hrun hperforms
  obtain ⟨_, hlog, -⟩ := Runs.log lawful hrun'
  obtain ⟨hfront, hdone, -⟩ := hlog.of_snoc
  have hstill := now_still (hfront.ticks.trans hdone.ticks) rfl
  have hbinding := @retention_binding _ _ _ lawful _ _ (forward limit False) _ [] [] [] _ _ "a" _ _ _ _ 0 hrun'
    ⟨_, _, _, rfl, rfl, retentionOf_input, rfl, rfl, rfl⟩ (by
      intro resolved hlookup
      have hlive := (lookup_exact lawful intact_empty hlookup).1
      rw [catalogOf_empty] at hlive
      exact hlive.elim) rfl accepted_delete rfl (reference_plain true) hstill (denies_held 0)
  obtain ⟨error, rfl, hkind⟩ := hbinding.1
  exact ⟨limit, error, w, w', hrun', hkind.resolve_left (not_not.mpr hperforms)⟩

/-- A put with a retention that finds the version published without one, and a delete that
removes it. -/
theorem retention_ignored : ∃ limit metadata, ∃ w w' w'' : World (Sample.setting limit False).policy,
    Runs (Sample.setting limit False) (.aware 0) ⟨w'', .idle,
      [⟨.execute (Plain.operation { objectId := "a", text := "x" }),
          .ok (.result (.put (Plain.stored { objectId := "a", text := "x" }).metadata)),
          World.empty _ (.aware 0), w⟩,
        ⟨.execute (held "a" "x").operation, .ok (.result (.put metadata)), w, w'⟩,
        ⟨.execute (held "a" "x").deletion, .ok (.result .delete), w', w''⟩]⟩ ∧
      retentionOf platform (held "a" "x").input = .ok (some ⟨none, "hold", false⟩) ∧
      metadata.digest = sha256Digest platform (held "a" "x").content ∧
      w''.now = .aware 0 ∧ Denies platform (some ⟨none, "hold", false⟩) 0 := by
  obtain ⟨limit, hfits⟩ := exists_limit [held "a" "x", { objectId := "a", text := "x" }] (by decide)
  obtain ⟨w, hrun, hcatalog⟩ := run_start (hfits _ (List.mem_cons_of_mem _ List.mem_cons_self)) (.aware 0)
  have hintact := hrun.intact lawful
  obtain ⟨w', metadata, hrun', hsucceeded⟩ := run_plain (hfits _ List.mem_cons_self) hrun (fun h => by cases h)
    (not_blocked lawful hintact (by
      rw [hcatalog]
      rintro stored rfl - -
      exact ⟨rfl, rfl⟩))
  obtain ⟨stored, rfl, -, hdigest, hadvances⟩ := hsucceeded.advances lawful hintact
  have hlive : Plain.stored { objectId := "a", text := "x" } ∈ (catalogOf w'.registry).live := by
    rw [hadvances.live, hcatalog]
    exact .inr rfl
  obtain ⟨w'', hrun'', -, hnow⟩ := @run_deletion limit (held "a" "x") _ _ _ hrun' _ hlive rfl rfl rfl
  exact ⟨limit, _, w, w', w'', hrun'', retentionOf_input, hdigest, hnow, denies_held 0⟩

end Sample

end MeridianOci.Service
