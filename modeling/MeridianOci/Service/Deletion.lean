import MeridianOci.Service.Agreement

/-!
# What a delete leaves

A delete removes a manifest by its digest, and with it every tag that points there. In an
intact repository no other version and no anchor has that manifest, so every other
reference resolves as before.
-/
namespace MeridianOci.Service

open MeridianOci.Data MeridianOci.Effect MeridianOci.Model

set_option autoImplicit false

variable {P : Platform} {adapter : OciDistributionAdapter}

/-! ## Answers that tell the same -/

/-- Both returned the same, or both raised an error of the same kind. -/
inductive Alike {α : Type} : Except Err α → Except Err α → Prop where
  | returned (value : α) : Alike (.ok value) (.ok value)
  | raised (error error' : Err) : error.kind = error'.kind → Alike (.error error) (.error error')

theorem Alike.refl {α : Type} (outcome : Except Err α) : Alike outcome outcome := by
  cases outcome with
  | ok value => exact .returned value
  | error error => exact .raised error error rfl

theorem Alike.symm {α : Type} {outcome outcome' : Except Err α} (h : Alike outcome outcome') :
    Alike outcome' outcome := by
  cases h with
  | returned value => exact .returned value
  | raised error error' hkind => exact .raised error' error hkind.symm

section Replies

variable {setting : Setting P adapter.transport.binding}

/-- An outcome of an operation in a world, if no request fails. -/
def Replies (setting : Setting P adapter.transport.binding) (w : World setting.policy) (operation : Operation)
    (outcome : Except Err Result) : Prop :=
  ∃ w', Performs setting.faultless.env (adapter.execute P operation) w outcome w'

/-- An operation has the same replies in two worlds. -/
def RepliesAlike (setting : Setting P adapter.transport.binding) (w w' : World setting.policy)
    (operation : Operation) : Prop :=
  (∀ outcome, Replies setting w operation outcome →
    ∃ outcome', Replies setting w' operation outcome' ∧ Alike outcome outcome') ∧
  ∀ outcome, Replies setting w' operation outcome →
    ∃ outcome', Replies setting w operation outcome' ∧ Alike outcome outcome'

/-- Without faults a program that only reads has the outcome of its run. -/
theorem performs_reads {α : Type} {program : Action α} (hreads : program.Uses Op.Reads) {w w' : World setting.policy}
    {outcome : Except Err α} :
    Performs setting.faultless.env program w outcome w' ↔ program.run World.answer w = (outcome, w') := by
  have hanswer : ∀ op (v : World setting.policy) r v', Op.Reads op → setting.faultless.env op v r v' →
      World.answer op v = (r, v') := by
    rintro op v r v' ⟨request, rfl, -⟩ (⟨rfl, rfl⟩ | ⟨hfalse, -⟩)
    · rfl
    · exact hfalse.elim
  constructor
  · intro h
    exact h.run_eq hanswer hreads
  · intro hrun
    have hsend : ∀ op (v : World setting.policy), Op.Reads op → ∃ r v', setting.faultless.env op v r v' := by
      rintro op v ⟨request, rfl, -⟩
      exact ⟨_, _, .inl ⟨rfl, rfl⟩⟩
    obtain ⟨outcome', v, hperforms⟩ := exists_performs hsend hreads w
    have heq := (hperforms.run_eq hanswer hreads).symm.trans hrun
    cases heq
    exact hperforms

theorem performs_lookup {w w' : World setting.policy} {reference : ObjectReference}
    {outcome : Except Err (ResolvedObject P)} :
    Performs setting.faultless.env (adapter.storedForReference P reference) w outcome w' ↔
      outcome = w.lookup reference ∧ w' = w := by
  have hreads := reads_storedForReference P adapter reference
  rw [performs_reads hreads]
  constructor
  · intro h
    have hworld := run_reads w hreads
    rw [h] at hworld
    exact ⟨(congrArg Prod.fst h).symm, hworld⟩
  · rintro ⟨rfl, rfl⟩
    exact Prod.ext rfl (run_reads w' hreads)

variable {w w' w₁ : World setting.policy} {raw : Json} {reference : ObjectReference} {outcome : Except Err Result}

/-- Where a reference resolves alike, what only looks at the resolved object has the same outcomes. -/
theorem alike_of_lookup {next : ResolvedObject P → Action Result}
    (hnext : ∀ resolved outcome (v v' : World setting.policy),
      Performs setting.faultless.env (next resolved) v outcome v' →
      ∀ u : World setting.policy, ∃ u', Performs setting.faultless.env (next resolved) u outcome u')
    (hlookup : Alike (w.lookup reference) (w'.lookup reference))
    (h : Performs setting.faultless.env (adapter.storedForReference P reference >>= next) w outcome w₁) :
    ∃ outcome' w₂, Alike outcome outcome' ∧
      Performs setting.faultless.env (adapter.storedForReference P reference >>= next) w' outcome' w₂ := by
  obtain ⟨found, w₂, hfound, hrest⟩ := h.of_handle
  obtain ⟨hsame, rfl⟩ := performs_lookup.mp hfound
  rw [← hsame] at hlookup
  obtain ⟨after, hafter⟩ : ∃ after, after = w'.lookup reference := ⟨_, rfl⟩
  have hfound' := performs_lookup.mpr ⟨hafter, (rfl : w' = w')⟩
  rw [← hafter] at hlookup
  cases hlookup with
  | returned resolved =>
    obtain ⟨u, hlast⟩ := hnext resolved outcome w₂ w₁ hrest w'
    exact ⟨outcome, u, .refl _, hfound'.bind hlast⟩
  | raised error error' hkind =>
    cases hrest
    exact ⟨_, w', .raised _ _ hkind, hfound'.handle (.raise error' w')⟩

theorem stat_alike (hreference : adapter.reference P raw false = .ok reference)
    (hlookup : Alike (w.lookup reference) (w'.lookup reference))
    (h : Performs setting.faultless.env (adapter.stat P raw) w outcome w₁) :
    ∃ outcome' w₂, Alike outcome outcome' ∧
      Performs setting.faultless.env (adapter.stat P raw) w' outcome' w₂ := by
  unfold OciDistributionAdapter.stat at h ⊢
  rw [hreference, Action.lift_ok, Prog.ret_bind] at h ⊢
  refine alike_of_lookup (fun resolved outcome v v' hv u => ?_) hlookup h
  cases hv
  exact ⟨u, .ret _ u⟩

/-- The same of get, under the same payload id. -/
theorem get_alike (hreference : adapter.reference P raw false = .ok reference)
    (hlookup : Alike (w.lookup reference) (w'.lookup reference))
    (h : Performs setting.faultless.env (adapter.get P raw) w outcome w₁) :
    ∃ outcome' w₂, Alike outcome outcome' ∧
      Performs setting.faultless.env (adapter.get P raw) w' outcome' w₂ := by
  unfold OciDistributionAdapter.get at h ⊢
  rw [hreference, Action.lift_ok, Prog.ret_bind] at h ⊢
  refine alike_of_lookup (fun resolved outcome v v' hv u => ?_) hlookup h
  cases hv with
  | call _ _ _ v₁ _ answer _ hanswer hreturn =>
    obtain ⟨id, rfl, rfl⟩ := hanswer
    cases hreturn
    exact ⟨_, .call _ _ _ _ _ _ _ ⟨id, rfl, rfl⟩ (.ret _ _)⟩

/-- An operation that is a stat or a get of a reference. -/
def Operation.Names (operation : Operation) (raw : Json) : Prop :=
  operation.input = .stat raw ∨ operation.input = .get raw

theorem replies_alike {operation : Operation} (hinput : Operation.Names operation raw)
    (hreference : adapter.reference P raw false = .ok reference)
    (hlookup : Alike (w.lookup reference) (w'.lookup reference)) (h : Replies setting w operation outcome) :
    ∃ outcome', Replies setting w' operation outcome' ∧ Alike outcome outcome' := by
  obtain ⟨w₁, h⟩ := h
  unfold Replies
  unfold OciDistributionAdapter.execute at h ⊢
  cases hvalid : adapter.validateOperation operation with
  | error error =>
    rw [hvalid] at h
    cases h
    exact ⟨_, ⟨w', .raise error w'⟩, .refl _⟩
  | ok method =>
    rw [hvalid] at h
    cases hcapable : P.requireObjectCapabilities adapter.binding operation.requirements with
    | error error =>
      rw [hcapable] at h
      cases h
      exact ⟨_, ⟨w', .raise error w'⟩, .refl _⟩
    | ok _ =>
      rw [hcapable] at h
      simp only [Action.lift_ok, Prog.ret_bind] at h ⊢
      rcases hinput with hinput | hinput
      · simp only [hinput] at h ⊢
        by_cases hmethod : method = "stat"
        · rw [if_pos hmethod] at h ⊢
          obtain ⟨outcome', w₂, halike, hafter⟩ := stat_alike hreference hlookup h
          exact ⟨outcome', ⟨w₂, hafter⟩, halike⟩
        · rw [if_neg hmethod] at h ⊢
          cases h
          exact ⟨_, ⟨w', .raise _ w'⟩, .refl _⟩
      · simp only [hinput] at h ⊢
        by_cases hmethod : method = "get"
        · rw [if_pos hmethod] at h ⊢
          obtain ⟨outcome', w₂, halike, hafter⟩ := get_alike hreference hlookup h
          exact ⟨outcome', ⟨w₂, hafter⟩, halike⟩
        · rw [if_neg hmethod] at h ⊢
          cases h
          exact ⟨_, ⟨w', .raise _ w'⟩, .refl _⟩

theorem repliesAlike_of_lookup {operation : Operation} (hinput : Operation.Names operation raw)
    (hreference : adapter.reference P raw false = .ok reference)
    (hlookup : Alike (w.lookup reference) (w'.lookup reference)) : RepliesAlike setting w w' operation :=
  ⟨fun _ h => replies_alike hinput hreference hlookup h, fun _ h => replies_alike hinput hreference hlookup.symm h⟩

end Replies

/-! ## The registry after a delete -/

section Frame

variable (laws : P.Lawful) {policy : Policy P adapter.transport.binding} {registry : Registry policy}
variable {removed : ObjectReference} {target : ResolvedObject P} (hfound : Found registry removed target)

include laws hfound

/-- A reference to another object or another digest does not meet the removed manifest. -/
theorem found_deleteManifest {other : ObjectReference} {resolved : ResolvedObject P}
    (hother : other.objectId ≠ target.stored.objectId ∨
      ∃ digest, other.digest = some digest ∧ digest ≠ target.stored.metadata.digest) :
    Found (registry.deleteManifest target.manifest.digest) other resolved ↔ Found registry other resolved := by
  rw [target.manifest.digest_eq]
  have htagged : ∀ tag, (registry.deleteManifest (sha256Digest P target.manifest.body)).tagged tag =
      if registry.tagged tag = some target.manifest.body then none else registry.tagged tag :=
    registry.tagged_deleteManifest laws target.manifest.body
  constructor
  · intro h
    have htag := h.tagged
    rw [htagged] at htag
    split at htag
    · cases htag
    · exact ⟨h.published, htag, h.objectId, h.digest, h.payload⟩
  · intro h
    refine ⟨h.published, ?_, h.objectId, h.digest, h.payload⟩
    rw [htagged, if_neg, h.tagged]
    intro hsame
    have hbody : resolved.manifest.body = target.manifest.body := Option.some.inj (h.tagged.symm.trans hsame)
    have hstored : resolved.stored = target.stored := (hbody ▸ h.published).injective laws hfound.published
    rcases hother with hid | ⟨digest, hdigest, hne⟩
    · exact hid (h.objectId.symm.trans (congrArg StoredObject.objectId hstored))
    · exact hne ((h.digest digest hdigest).symm.trans (congrArg (·.metadata.digest) hstored))

theorem not_found_deleteManifest {resolved : ResolvedObject P} :
    ¬Found (registry.deleteManifest target.manifest.digest) removed resolved := by
  intro h
  have htag := h.tagged
  rw [target.manifest.digest_eq, registry.tagged_deleteManifest laws, if_pos hfound.tagged] at htag
  cases htag

/-- No anchor has the manifest of a version. -/
theorem anchor_deleteManifest (hintact : Intact registry) (objectId : String) :
    (registry.deleteManifest target.manifest.digest).tagged (anchorName P objectId) =
      registry.tagged (anchorName P objectId) := by
  rw [target.manifest.digest_eq, registry.tagged_deleteManifest laws, if_neg]
  intro hsame
  exact hfound.published.manifest.ne_anchorBody objectId (hintact.anchored laws hsame)

end Frame

/-! ## Lookups after a delete -/

section Lookups

variable (laws : P.Lawful) {policy : Policy P adapter.transport.binding} {w w' : World policy}
variable (hintact : Intact w.registry) (hintact' : Intact w'.registry) {reference : ObjectReference}

theorem lookup_referenceTag {error : Err} (h : OciDistributionAdapter.referenceTag P reference = .error error) :
    w.lookup reference = .error error := by
  unfold World.lookup OciDistributionAdapter.storedForReference
  rw [h]
  rfl

include laws hintact

/-- What is not found raises a missing object, if its digest has a tag. -/
theorem lookup_missing (hnone : ∀ resolved, ¬Found w.registry reference resolved) {tag : String}
    (htag : OciDistributionAdapter.referenceTag P reference = .ok tag) :
    ∃ error, w.lookup reference = .error error ∧ error.kind = .objectNotFound := by
  cases hlookup : w.lookup reference with
  | ok resolved => exact absurd ((lookup_ok laws hintact).mp hlookup) (hnone resolved)
  | error error =>
    obtain ⟨-, hkind | ⟨digest, hdigest, hversion⟩⟩ := lookup_error laws hintact hlookup
    · exact ⟨error, rfl, hkind⟩
    · obtain ⟨resourceRef, objectId, _⟩ := reference
      obtain rfl := hdigest
      cases hversion.symm.trans htag

include hintact'

/-- References that find the same resolve alike. -/
theorem lookup_alike (h : ∀ resolved, Found w'.registry reference resolved ↔ Found w.registry reference resolved) :
    Alike (w.lookup reference) (w'.lookup reference) := by
  cases htag : OciDistributionAdapter.referenceTag P reference with
  | error error =>
    rw [lookup_referenceTag htag, lookup_referenceTag htag]
    exact .refl _
  | ok tag =>
    by_cases hsome : ∃ resolved, Found w.registry reference resolved
    · obtain ⟨resolved, hfound⟩ := hsome
      rw [(lookup_ok laws hintact).mpr hfound, (lookup_ok laws hintact').mpr ((h resolved).mpr hfound)]
      exact .returned resolved
    · have hnone : ∀ resolved, ¬Found w.registry reference resolved :=
        fun resolved hfound => hsome ⟨resolved, hfound⟩
      obtain ⟨error, hbefore, hkind⟩ := lookup_missing laws hintact hnone htag
      obtain ⟨error', hafter, hkind'⟩ := lookup_missing laws hintact'
        (fun resolved hfound => hnone resolved ((h resolved).mp hfound)) htag
      rw [hbefore, hafter]
      exact .raised error error' (hkind.trans hkind'.symm)

end Lookups

/-! ## One delete -/

section Delete

variable {setting : Setting P adapter.transport.binding} (laws : P.Lawful) {w w' : World setting.policy}
variable (hintact : Intact w.registry)

include laws hintact

/-- A delete that returns has removed the manifest that its reference resolved to, and nothing else. -/
theorem delete_registry_ensures (raw : Json) :
    (adapter.delete P raw).Ensures setting.env (fun _ _ => True) w fun outcome w' =>
      ∀ result, outcome = .ok result → ∃ reference resolved, adapter.reference P raw true = .ok reference ∧
        Found w.registry reference resolved ∧ w'.registry = w.registry.deleteManifest resolved.manifest.digest := by
  unfold OciDistributionAdapter.delete
  cases hreference : adapter.reference P raw true with
  | error error =>
    intro result h
    cases h
  | ok reference =>
    simp only [Action.lift_ok, Prog.ret_bind]
    refine locked_ensures (fun _ => trivial) ?_
    refine (resolve_ensures laws w hintact (fun _ => trivial) reference).bind ?_ (fun error w' _ result h => by cases h)
    rintro resolved w ⟨rfl, hfound⟩
    have hnow : (OciDistributionAdapter.now).Ensures setting.env (fun _ _ => True) w
        fun _ v => v.registry = w.registry :=
      (now_ensures laws w).weaken (fun _ _ _ _ h => h) (fun _ _ _ => trivial) fun _ v h => by rw [h.1]
    refine hnow.bind ?_ (fun error w' _ result h => by cases h)
    intro now w₁ hregistry
    cases requireDeletePermitted P resolved.stored.retention now with
    | error error =>
      intro result h
      cases h
    | ok _ =>
      simp only [Action.lift_ok, Prog.ret_bind]
      rw [resolved.manifest.digest_eq]
      refine (deleteManifest_ensures laws w₁ (fun _ => trivial) resolved.manifest.body trivial).bind ?_
        (fun error w' _ result h => by cases h)
      rintro (_ | _) w' hdeleted
      · intro result h
        cases h
      · intro result _
        obtain ⟨rfl, hsome⟩ := hdeleted
        refine ⟨reference, resolved, rfl, hfound, ?_⟩
        rw [w₁.apply_deleteManifest]
        obtain ⟨found, hresolve⟩ := Option.isSome_iff_exists.mp hsome
        rw [hresolve, hregistry, resolved.manifest.digest_eq]

/-- The same of an operation. -/
theorem execute_registry_ensures {operation : Operation} {raw : Json} (hinput : operation.input = .delete raw) :
    (adapter.execute P operation).Ensures setting.env (fun _ _ => True) w fun outcome w' =>
      ∀ result, outcome = .ok result → ∃ reference resolved, adapter.reference P raw true = .ok reference ∧
        Found w.registry reference resolved ∧ w'.registry = w.registry.deleteManifest resolved.manifest.digest := by
  unfold OciDistributionAdapter.execute
  cases adapter.validateOperation operation with
  | error error =>
    intro result h
    cases h
  | ok method =>
    cases P.requireObjectCapabilities adapter.binding operation.requirements with
    | error error =>
      intro result h
      cases h
    | ok _ =>
      simp only [Action.lift_ok, Prog.ret_bind, hinput]
      split
      · exact delete_registry_ensures laws hintact raw
      · intro result h
        cases h

end Delete

/-- Of everything that references resolve to, one version is gone and the rest is as before. -/
structure OnlyRemoved (setting : Setting P adapter.transport.binding) (w w' : World setting.policy)
    (objectId digest : String) : Prop where
  gone : ∀ operation raw, Accepted P adapter operation "stat" → operation.input = .stat raw →
    adapter.reference P raw false = .ok (exactReference adapter objectId digest) →
    ∃ error : Err, error.kind = .objectNotFound ∧
      ∀ outcome, Replies setting w' operation outcome ↔ outcome = .error error
  exact : ∀ operation raw objectId' digest', Operation.Names operation raw →
    adapter.reference P raw false = .ok (exactReference adapter objectId' digest') →
    (objectId', digest') ≠ (objectId, digest) → RepliesAlike setting w w' operation
  latest : ∀ operation raw objectId', Operation.Names operation raw →
    adapter.reference P raw false = .ok (latestReference adapter objectId') → objectId' ≠ objectId →
    RepliesAlike setting w w' operation
  blobs : ∀ digest range, w'.reply (.getBlob digest range) = w.reply (.getBlob digest range)
  anchors : ∀ objectId', w'.registry.tagged (anchorName P objectId') = w.registry.tagged (anchorName P objectId')

section Frame

variable {setting : Setting P adapter.transport.binding} (laws : P.Lawful) {w w' : World setting.policy}

include laws

theorem onlyRemoved_of_registry (hintact : Intact w.registry) (hintact' : Intact w'.registry) {objectId digest : String}
    {resolved : ResolvedObject P} (hfound : Found w.registry (exactReference adapter objectId digest) resolved)
    (hregistry : w'.registry = w.registry.deleteManifest resolved.manifest.digest) :
    OnlyRemoved setting w w' objectId digest := by
  have hid : resolved.stored.objectId = objectId := hfound.objectId
  have hdigest : resolved.stored.metadata.digest = digest := hfound.digest digest rfl
  have hother : ∀ other : ObjectReference,
      (other.objectId ≠ objectId ∨ ∃ digest', other.digest = some digest' ∧ digest' ≠ digest) →
      Alike (w.lookup other) (w'.lookup other) := by
    intro other hne
    refine lookup_alike laws hintact hintact' fun found => ?_
    rw [hregistry]
    refine found_deleteManifest laws hfound ?_
    rw [hid, hdigest]
    exact hne
  constructor
  · intro operation raw haccepted hinput hreference
    have hnone : ∀ found, ¬Found w'.registry (exactReference adapter objectId digest) found := by
      intro found h
      rw [hregistry] at h
      exact not_found_deleteManifest laws hfound h
    obtain ⟨content, hcontent, -⟩ := hfound.published.content
    have htag : OciDistributionAdapter.referenceTag P (exactReference adapter objectId digest) =
        .ok (versionName P objectId digest) := by
      rw [← hdigest, hcontent]
      exact versionTag_eq laws objectId content
    obtain ⟨error, hlookup, hkind⟩ := lookup_missing laws hintact' hnone htag
    refine ⟨error, hkind, fun outcome => ?_⟩
    have hexecute : adapter.execute P operation =
        adapter.storedForReference P (exactReference adapter objectId digest) >>=
          fun resolved => pure (.stat resolved.stored.metadata) := by
      unfold OciDistributionAdapter.execute OciDistributionAdapter.stat
      simp only [haccepted.validated, haccepted.capable, Action.lift_ok, Prog.ret_bind, hinput, if_true, hreference]
    unfold Replies
    rw [hexecute]
    constructor
    · rintro ⟨w₁, hperforms⟩
      obtain ⟨found, w₂, hfirst, hrest⟩ := hperforms.of_handle
      obtain ⟨rfl, -⟩ := performs_lookup.mp hfirst
      rw [show w'.lookup (exactReference adapter objectId digest) = .error error from hlookup] at hrest
      cases hrest
      rfl
    · rintro rfl
      exact ⟨w', (performs_lookup.mpr ⟨hlookup.symm, rfl⟩).handle (.raise error w')⟩
  · intro operation raw objectId' digest' hnames hreference hne
    refine repliesAlike_of_lookup hnames hreference (hother _ ?_)
    by_cases hsame : objectId' = objectId
    · refine .inr ⟨digest', rfl, fun heq => hne ?_⟩
      rw [hsame, heq]
    · exact .inl hsame
  · intro operation raw objectId' hnames hreference hne
    exact repliesAlike_of_lookup hnames hreference (hother _ (.inl hne))
  · intro digest range
    unfold World.reply
    rw [hregistry]
    rfl
  · intro objectId'
    rw [hregistry]
    exact anchor_deleteManifest laws hfound hintact objectId'

/-- After a delete that returned, in any run of one adapter: the version is not found, every other
reference replies as before, and the anchors are those from before. -/
theorem delete_frame {now : DateTime} {history : List (Event Call Err Answer (World setting.policy))}
    (hrun : Runs setting now ⟨w, .idle, history⟩) {operation : Operation} {raw : Json} {objectId digest : String}
    (hinput : operation.input = .delete raw)
    (hreference : adapter.reference P raw true = .ok (exactReference adapter objectId digest))
    (h : Performs setting.env (Call.program P adapter (.execute operation)) w (.ok (.result .delete)) w') :
    OnlyRemoved setting w w' objectId digest := by
  have hintact : Intact w.registry := hrun.intact laws
  have hafter : Runs setting now ⟨w', .idle, history ++ [⟨.execute operation, .ok (.result .delete), w, w'⟩]⟩ :=
    Reachable.performs hrun h
  obtain ⟨inner, hexecute, heq⟩ := h.of_wrap
  cases inner with
  | error error => cases heq
  | ok result =>
    obtain ⟨reference, resolved, hparsed, hfound, hregistry⟩ :=
      hexecute.ensures (execute_registry_ensures laws hintact hinput) result rfl
    obtain rfl := Except.ok.inj (hparsed.symm.trans hreference)
    exact onlyRemoved_of_registry laws hintact (hafter.intact laws) hfound hregistry

end Frame

namespace Sample

open MeridianOci.Model.Sample

/-- After two puts under different object ids, the delete of one leaves the other. -/
theorem delete_frame_second : ∃ limit, ∃ w w' : World (Sample.setting limit False).policy,
    OnlyRemoved (Sample.setting limit False) w w' "a" (sha256Digest platform (utf8 "x".toList)) ∧
    Plain.stored { objectId := "a", text := "x" } ∈ (catalogOf w.registry).live ∧
    (catalogOf w'.registry).live = {Plain.stored { objectId := "b", text := "y" }} := by
  obtain ⟨limit, hfits⟩ := exists_limit
    [{ objectId := "a", text := "x" }, { objectId := "b", text := "y" }] (by decide)
  obtain ⟨w, hrun, hcatalog⟩ := run_start (hfits _ List.mem_cons_self) (.aware 0)
  have hne := @digest_ne { objectId := "a", text := "x" } { objectId := "b", text := "y" } (by decide)
  obtain ⟨w', hrun', hcatalog'⟩ := run_new (hfits _ (List.mem_cons_of_mem _ List.mem_cons_self)) hrun
    (fun h => by cases h) (by
      rw [hcatalog]
      rintro stored rfl
      exact hne)
  have hlive : Plain.stored { objectId := "a", text := "x" } ∈ (catalogOf w'.registry).live := by
    rw [hcatalog', hcatalog]
    exact .inr rfl
  obtain ⟨w'', hperforms, hcatalog'', -⟩ := @performs_deletion limit { objectId := "a", text := "x" } _
    (hrun'.intact lawful) _ hlive rfl rfl rfl
  refine ⟨limit, w', w'', delete_frame lawful hrun' rfl (reference_plain true) hperforms, hlive, ?_⟩
  rw [hcatalog'', hcatalog', hcatalog]
  ext stored
  constructor
  · rintro ⟨rfl | rfl, hother⟩
    · rfl
    · exact absurd rfl hother
  · rintro rfl
    exact ⟨.inl rfl, fun heq => hne (congrArg (fun stored => stored.metadata.digest) heq).symm⟩

end Sample

end MeridianOci.Service
