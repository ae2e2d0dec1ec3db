import MeridianOci.Data.Catalog
import MeridianOci.Model.Layout
import MeridianOci.Service.Contents

/-!
# The repository of one adapter

What holds of a registry that only one adapter writes to, and the five ways in which the
adapter changes it. Each of them keeps the repository intact and is a step of the catalog
of its stored objects.
-/
namespace MeridianOci.Service

open MeridianOci.Data MeridianOci.Effect MeridianOci.Model

set_option autoImplicit false

variable {P : Platform} {binding : OciDistributionBinding} {policy : Policy P binding}

/-! ## Tagged manifests -/

namespace Registry

variable {registry : Registry policy} {tag other : String} {body : Bytes}

theorem tagged_eq_some : registry.tagged tag = some body ↔
    registry.tags[tag]? = some (sha256Digest P body) ∧
      registry.manifests[sha256Digest P body]? = some body := by
  constructor
  · intro h
    obtain ⟨digest, htag, hbody⟩ := Option.bind_eq_some_iff.mp h
    rw [registry.manifests_addressed _ _ hbody]
    exact ⟨htag, hbody⟩
  · rintro ⟨htag, hbody⟩
    rw [tagged, htag, Option.bind_some, hbody]

theorem tagged_eq_none : registry.tagged tag = none ↔ registry.tags[tag]? = none := by
  constructor
  · intro h
    cases htag : registry.tags[tag]? with
    | none => rfl
    | some digest =>
      obtain ⟨body, hbody⟩ := Option.isSome_iff_exists.mp (registry.tags_stored _ _ htag)
      rw [tagged, htag, Option.bind_some, hbody] at h
      cases h
  · intro h
    rw [tagged, h, Option.bind_none]

theorem resolve_tag (htag : ['s', 'h', 'a', '2', '5', '6', ':'].isPrefixOf tag.toList = false) :
    registry.resolve tag = registry.tagged tag := by
  rw [resolve, registry.select_tag htag, tagged]

@[simp]
theorem tagged_putTag (laws : P.Lawful) (registry : Registry policy) (tag other : String) (body : Bytes) :
    (registry.putTag tag body).tagged other = if tag = other then some body else registry.tagged other := by
  by_cases heq : tag = other
  · simp [putTag, tagged, Table.get?_insert, heq]
  · rw [if_neg heq]
    cases hother : registry.tagged other with
    | none =>
      rw [tagged_eq_none] at hother ⊢
      simp [putTag, Table.get?_insert, heq, hother]
    | some found =>
      rw [tagged_eq_some] at hother ⊢
      simp only [putTag, Table.get?_insert, heq, hother, if_false, true_and]
      split
      · rename_i hdigest
        rw [sha256Digest_injective laws hdigest]
      · rfl

/-- Every tag of a deleted manifest is gone. -/
theorem tagged_deleteManifest (laws : P.Lawful) (registry : Registry policy) (body : Bytes) (other : String) :
    (registry.deleteManifest (sha256Digest P body)).tagged other =
      if registry.tagged other = some body then none else registry.tagged other := by
  split
  · rename_i hother
    rw [tagged_eq_none]
    cases hfound : (registry.deleteManifest (sha256Digest P body)).tags[other]? with
    | none => rfl
    | some digest =>
      obtain ⟨htag, hne⟩ := Table.get?_filter.mp hfound
      rw [(tagged_eq_some.mp hother).1] at htag
      exact absurd (Option.some.inj htag).symm (of_decide_eq_true hne)
  · rename_i hother
    cases hfound : registry.tagged other with
    | none =>
      rw [tagged_eq_none] at hfound ⊢
      cases hgone : (registry.deleteManifest (sha256Digest P body)).tags[other]? with
      | none => rfl
      | some digest =>
        rw [(Table.get?_filter.mp hgone).1] at hfound
        cases hfound
    | some found =>
      have hne : sha256Digest P found ≠ sha256Digest P body := fun hdigest =>
        hother (by rw [hfound, sha256Digest_injective laws hdigest])
      rw [tagged_eq_some] at hfound ⊢
      refine ⟨Table.get?_filter.mpr ⟨hfound.1, decide_eq_true hne⟩, ?_⟩
      simp [deleteManifest, Table.get?_erase, hfound.2, Ne.symm hne]

theorem Grows.tagged {registry' : Registry policy} (h : registry.Grows registry') :
    registry'.tagged tag = registry.tagged tag := by
  rw [Registry.tagged, Registry.tagged, h.tags, h.manifests]

end Registry

/-- A request that neither puts nor deletes a manifest. -/
def Request.Untagging (request : Request) : Prop :=
  ∀ reference, request.target = .manifest reference → request.method ≠ .put ∧ request.method ≠ .delete

theorem tagged_respond (registry : Registry policy) {request : Request}
    (h : Request.Untagging request) (tag : String) : (respond registry request).2.tagged tag = registry.tagged tag := by
  have hset : ∀ url content, (registry.setUpload url content).tagged tag = registry.tagged tag := by
    intro url content
    unfold Registry.setUpload
    split <;> rfl
  unfold respond
  split
  · split <;> rfl
  · split <;> rfl
  · unfold respondUpload
    split
    · rfl
    · split
      · split
        · exact hset _ _
        · rfl
      · dsimp only
        split
        · rfl
        · exact hset _ _
      · rfl
      · rfl
      · rfl
  · rfl
  · rename_i reference htarget
    obtain ⟨hput, hdelete⟩ := h reference htarget
    unfold respondManifest
    cases hmethod : request.method with
    | put => exact absurd hmethod hput
    | delete => exact absurd hmethod hdelete
    | get | head | post | patch =>
      dsimp only
      split <;> rfl
  · split <;> rfl
  · split <;> rfl

/-- A request that puts a manifest under a tag. -/
def Request.Puts (tag : String) (request : Request) : Prop :=
  request.method = .put ∧ request.target = .manifest tag

/-- A tag comes with the manifest that is put under it. -/
theorem puts_of_tagged (laws : P.Lawful) {registry : Registry policy} {request : Request} {tag : String} {body : Bytes}
    (h : (respond registry request).2.tagged tag = some body) :
    (registry.tagged tag).isSome ∨ Request.Puts tag request := by
  by_cases huntagging : Request.Untagging request
  · rw [tagged_respond registry huntagging tag] at h
    exact .inl (by rw [h]; rfl)
  · simp only [Request.Untagging, not_forall] at huntagging
    obtain ⟨reference, htarget, hmethod⟩ := huntagging
    unfold respond at h
    rw [htarget] at h
    unfold respondManifest at h
    cases hkind : request.method with
    | put =>
      simp only [hkind] at h
      by_cases hsame : reference = tag
      · exact .inr ⟨hkind, hsame ▸ htarget⟩
      · rw [Registry.tagged_putTag laws, if_neg hsame] at h
        exact .inl (by rw [h]; rfl)
    | delete =>
      simp only [hkind] at h
      cases hselect : registry.select reference with
      | none =>
        simp only [hselect] at h
        exact .inl (by rw [h]; rfl)
      | some digest =>
        cases hresolve : registry.resolve reference with
        | none =>
          simp only [hselect, hresolve] at h
          exact .inl (by rw [h]; rfl)
        | some found =>
          simp only [hselect, hresolve] at h
          refine .inl (Option.isSome_iff_ne_none.mpr fun hnone => ?_)
          obtain ⟨htag, -⟩ := Registry.tagged_eq_some.mp h
          rw [Registry.tagged_eq_none] at hnone
          rw [(Table.get?_filter.mp htag).1] at hnone
          cases hnone
    | get | head | post | patch => exact absurd ⟨by simp [hkind], by simp [hkind]⟩ hmethod

/-- A manifest that is put under a tag is there. -/
theorem tagged_of_puts (laws : P.Lawful) (registry : Registry policy) {request : Request} {tag : String}
    (h : Request.Puts tag request) : (respond registry request).2.tagged tag = some request.content := by
  unfold respond
  rw [h.2]
  unfold respondManifest
  simp [h.1, Registry.tagged_putTag laws]

theorem isPrefixOf_anchorName (objectId : String) :
    ['s', 'h', 'a', '2', '5', '6', ':'].isPrefixOf (anchorName P objectId).toList = false := by
  simp [anchorName, List.isPrefixOf]

theorem isPrefixOf_latestName (objectId : String) :
    ['s', 'h', 'a', '2', '5', '6', ':'].isPrefixOf (latestName P objectId).toList = false := by
  simp [latestName, List.isPrefixOf]

theorem isPrefixOf_versionName (objectId digest : String) :
    ['s', 'h', 'a', '2', '5', '6', ':'].isPrefixOf (versionName P objectId digest).toList = false := by
  simp [versionName, List.isPrefixOf]

/-! ## Intact repositories -/

variable {adapter : OciDistributionAdapter} {policy : Policy P adapter.transport.binding}

/-- Everything that a stored object refers to is there. -/
structure Complete (registry : Registry policy) (stored : StoredObject) : Prop where
  config : registry.blobs[sha256Digest P (stored.toBytes P)]? = some (stored.toBytes P)
  payload : (registry.blobs[stored.metadata.digest]?).isSome
  anchor : registry.tagged (anchorName P stored.objectId) = some (anchorBody P stored.objectId)

/-- A tag is the anchor of an object id, the exact tag of a stored object, or a latest tag
beside the exact one. -/
inductive Tagged (registry : Registry policy) (body : Bytes) : String → Prop where
  | anchor (objectId : String) : body = anchorBody P objectId →
      Tagged registry body (anchorName P objectId)
  | exact (stored : StoredObject) : adapter.Published P stored body →
      Tagged registry body (stored.exactName P)
  | latest (stored : StoredObject) : adapter.Published P stored body →
      registry.tagged (stored.exactName P) = some body → Tagged registry body (stored.movingName P)

structure Intact (registry : Registry policy) : Prop where
  tags : ∀ tag body, registry.tagged tag = some body → Tagged registry body tag
  complete : ∀ tag stored body, registry.tagged tag = some body → adapter.Published P stored body →
    Complete registry stored

/-- The five ways in which the adapter changes the registry. -/
inductive Move : Registry policy → Registry policy → Prop where
  | quiet (registry registry') : registry.Grows registry' → Move registry registry'
  | anchor (registry) (objectId : String) :
      Move registry (registry.putTag (anchorName P objectId) (anchorBody P objectId))
  | publish (registry) (stored : StoredObject) (body) : adapter.Published P stored body →
      Complete registry stored → registry.tagged (stored.exactName P) = none →
      Move registry (registry.putTag (stored.exactName P) body)
  | point (registry) (stored : StoredObject) (body) : adapter.Published P stored body →
      registry.tagged (stored.exactName P) = some body →
      Move registry (registry.putTag (stored.movingName P) body)
  | remove (registry) (stored : StoredObject) (body) : adapter.Published P stored body →
      registry.tagged (stored.exactName P) = some body →
      Move registry (registry.deleteManifest (sha256Digest P body))

namespace Complete

variable {registry registry' : Registry policy} {stored : StoredObject}

theorem mono (h : Complete registry stored)
    (hblobs : ∀ (digest : String) (body : Bytes), registry.blobs[digest]? = some body →
      registry'.blobs[digest]? = some body)
    (hanchor : registry'.tagged (anchorName P stored.objectId) = some (anchorBody P stored.objectId)) :
    Complete registry' stored := by
  obtain ⟨content, hcontent⟩ := Option.isSome_iff_exists.mp h.payload
  refine ⟨hblobs _ _ h.config, ?_, hanchor⟩
  rw [hblobs _ _ hcontent]
  rfl

end Complete

namespace Move

variable {registry registry' : Registry policy}

theorem blobs (h : Move registry registry') {digest : String} {body : Bytes}
    (hblob : registry.blobs[digest]? = some body) : registry'.blobs[digest]? = some body := by
  cases h with
  | quiet _ hgrows => exact hgrows.blobs _ _ hblob
  | _ => exact hblob

/-- An anchor is never removed and never points anywhere else. -/
theorem anchored (laws : P.Lawful) (h : Move registry registry') {objectId : String}
    (hanchor : registry.tagged (anchorName P objectId) = some (anchorBody P objectId)) :
    registry'.tagged (anchorName P objectId) = some (anchorBody P objectId) := by
  cases h with
  | quiet _ hgrows => rw [hgrows.tagged, hanchor]
  | anchor other =>
    rw [Registry.tagged_putTag laws, hanchor]
    split
    · rename_i heq
      rw [anchorName_injective laws heq]
    · rfl
  | publish stored body =>
    rw [Registry.tagged_putTag laws, if_neg (StoredObject.anchorName_ne_exactName _ _).symm, hanchor]
  | point stored body =>
    rw [Registry.tagged_putTag laws, if_neg (StoredObject.anchorName_ne_movingName _ _).symm, hanchor]
  | remove stored body hpublished =>
    rw [Registry.tagged_deleteManifest laws, hanchor, if_neg]
    exact fun heq => hpublished.manifest.ne_anchorBody objectId (Option.some.inj heq).symm

theorem complete (laws : P.Lawful) (h : Move registry registry') {stored : StoredObject}
    (hcomplete : Complete registry stored) : Complete registry' stored :=
  hcomplete.mono (fun _ _ => h.blobs) (h.anchored laws hcomplete.anchor)

theorem intact (laws : P.Lawful) (h : Move registry registry') (hintact : Intact registry) :
    Intact registry' := by
  -- a manifest that was tagged before stays complete, and only its tags need a look
  have hold : ∀ tag stored body, registry.tagged tag = some body → adapter.Published P stored body →
      Complete registry' stored := fun tag stored body htag hpublished =>
    h.complete laws (hintact.complete tag stored body htag hpublished)
  cases h with
  | quiet _ hgrows =>
    refine ⟨fun tag body htag => ?_, fun tag stored body htag => ?_⟩
    · rw [hgrows.tagged] at htag
      cases hintact.tags tag body htag with
      | anchor objectId hbody => exact .anchor objectId hbody
      | exact stored hpublished => exact .exact stored hpublished
      | latest stored hpublished hexact =>
        exact .latest stored hpublished (hgrows.tagged.trans hexact)
    · rw [hgrows.tagged] at htag
      exact hold tag stored body htag
  | anchor objectId =>
    refine ⟨fun tag body htag => ?_, fun tag stored body htag hpublished => ?_⟩
    · rw [Registry.tagged_putTag laws] at htag
      split at htag
      · rename_i heq
        rw [← heq]
        exact .anchor objectId (Option.some.inj htag).symm
      · cases hintact.tags tag body htag with
        | anchor objectId hbody => exact .anchor objectId hbody
        | exact stored hpublished => exact .exact stored hpublished
        | latest stored hpublished hexact =>
          refine .latest stored hpublished ?_
          rw [Registry.tagged_putTag laws, if_neg (StoredObject.anchorName_ne_exactName _ _), hexact]
    · rw [Registry.tagged_putTag laws] at htag
      split at htag
      · exact absurd (Option.some.inj htag).symm (hpublished.manifest.ne_anchorBody objectId)
      · exact hold tag stored body htag hpublished
  | publish stored body hpublished hcomplete hfree =>
    refine ⟨fun tag found htag => ?_, fun tag other found htag hother => ?_⟩
    · rw [Registry.tagged_putTag laws] at htag
      split at htag
      · rename_i heq
        obtain rfl := Option.some.inj htag
        rw [← heq]
        exact .exact stored hpublished
      · cases hintact.tags tag found htag with
        | anchor objectId hbody => exact .anchor objectId hbody
        | exact other hother => exact .exact other hother
        | latest other hother hexact =>
          refine .latest other hother ?_
          rw [Registry.tagged_putTag laws, hexact, if_neg]
          intro heq
          rw [heq, hexact] at hfree
          cases hfree
    · rw [Registry.tagged_putTag laws] at htag
      split at htag
      · obtain rfl := Option.some.inj htag
        rw [← hpublished.injective laws hother]
        exact (Move.publish registry stored body hpublished hcomplete hfree).complete laws hcomplete
      · exact hold tag other found htag hother
  | point stored body hpublished hexact =>
    refine ⟨fun tag found htag => ?_, fun tag other found htag hother => ?_⟩
    · rw [Registry.tagged_putTag laws] at htag
      split at htag
      · rename_i heq
        obtain rfl := Option.some.inj htag
        rw [← heq]
        refine .latest stored hpublished ?_
        rw [Registry.tagged_putTag laws, if_neg (StoredObject.movingName_ne_exactName _ _), hexact]
      · cases hintact.tags tag found htag with
        | anchor objectId hbody => exact .anchor objectId hbody
        | exact other hother => exact .exact other hother
        | latest other hother hother' =>
          refine .latest other hother ?_
          rw [Registry.tagged_putTag laws, if_neg (StoredObject.movingName_ne_exactName _ _), hother']
    · rw [Registry.tagged_putTag laws] at htag
      split at htag
      · obtain rfl := Option.some.inj htag
        exact hold _ other _ hexact hother
      · exact hold tag other found htag hother
  | remove stored body hpublished hexact =>
    refine ⟨fun tag found htag => ?_, fun tag other found htag hother => ?_⟩
    · rw [Registry.tagged_deleteManifest laws] at htag
      split at htag
      · cases htag
      · rename_i hne
        cases hintact.tags tag found htag with
        | anchor objectId hbody => exact .anchor objectId hbody
        | exact other hother => exact .exact other hother
        | latest other hother hother' =>
          refine .latest other hother ?_
          rw [Registry.tagged_deleteManifest laws, hother', if_neg]
          rwa [htag] at hne
    · rw [Registry.tagged_deleteManifest laws] at htag
      split at htag
      · cases htag
      · exact hold tag other found htag hother

end Move

/-- Any number of changes. -/
abbrev Moves : Registry policy → Registry policy → Prop := Relation.ReflTransGen Move

namespace Moves

variable {registry registry' : Registry policy}

theorem blobs (h : Moves registry registry') {digest : String} {body : Bytes}
    (hblob : registry.blobs[digest]? = some body) : registry'.blobs[digest]? = some body := by
  induction h with
  | refl => exact hblob
  | tail _ hmove ih => exact hmove.blobs ih

theorem anchored (laws : P.Lawful) (h : Moves registry registry') {objectId : String}
    (hanchor : registry.tagged (anchorName P objectId) = some (anchorBody P objectId)) :
    registry'.tagged (anchorName P objectId) = some (anchorBody P objectId) := by
  induction h with
  | refl => exact hanchor
  | tail _ hmove ih => exact hmove.anchored laws ih

theorem intact (laws : P.Lawful) (h : Moves registry registry') (hintact : Intact registry) :
    Intact registry' := by
  induction h with
  | refl => exact hintact
  | tail _ hmove ih => exact hmove.intact laws ih

end Moves

/-- A repository without content is intact. -/
theorem intact_empty : Intact (Registry.empty policy) := by
  have hnone : ∀ tag, (Registry.empty policy).tagged tag = none := by
    intro tag
    rw [Registry.tagged_eq_none]
    simp [Registry.empty]
  refine ⟨fun tag body h => ?_, fun tag stored body h => ?_⟩
  · rw [hnone] at h
    cases h
  · rw [hnone] at h
    cases h

/-! ## The catalog of a repository -/

/-- Stored objects belong to their object id and occupy their exact tag. -/
def storedNames (P : Platform) : Naming String String StoredObject :=
  ⟨StoredObject.objectId, StoredObject.exactName P⟩

def catalogOf (registry : Registry policy) : Catalog String StoredObject where
  anchored := {objectId | registry.tagged (anchorName P objectId) = some (anchorBody P objectId)}
  live := {stored | ∃ body, adapter.Published P stored body ∧
    registry.tagged (stored.exactName P) = some body}
  latest := {stored | ∃ body, adapter.Published P stored body ∧
    registry.tagged (stored.movingName P) = some body}

section Catalog

variable (laws : P.Lawful) {registry registry' : Registry policy}

theorem catalogOf_grows (h : registry.Grows registry') : catalogOf registry' = catalogOf registry := by
  simp only [catalogOf, h.tagged]

include laws

theorem catalogOf_anchor (objectId : String) :
    catalogOf (registry.putTag (anchorName P objectId) (anchorBody P objectId)) =
      (catalogOf registry).anchor objectId := by
  ext other
  · simp only [catalogOf, Catalog.anchor, Registry.tagged_putTag laws, Set.mem_ofPred_eq, Set.mem_insert_iff]
    by_cases heq : other = objectId
    · simp [heq]
    · have hne : anchorName P objectId ≠ anchorName P other :=
        fun h => heq (anchorName_injective laws h).symm
      simp [heq, hne]
  · simp only [catalogOf, Catalog.anchor, Registry.tagged_putTag laws, Set.mem_ofPred_eq,
      if_neg (StoredObject.anchorName_ne_exactName _ _)]
  · simp only [catalogOf, Catalog.anchor, Registry.tagged_putTag laws, Set.mem_ofPred_eq,
      if_neg (StoredObject.anchorName_ne_movingName _ _)]

theorem catalogOf_publish {stored : StoredObject} {body : Bytes}
    (hpublished : adapter.Published P stored body)
    (hfree : registry.tagged (stored.exactName P) = none) :
    catalogOf (registry.putTag (stored.exactName P) body) = (catalogOf registry).publish stored := by
  ext other
  · simp only [catalogOf, Catalog.publish, Registry.tagged_putTag laws, Set.mem_ofPred_eq,
      if_neg (StoredObject.anchorName_ne_exactName _ _).symm]
  · simp only [catalogOf, Catalog.publish, Registry.tagged_putTag laws, Set.mem_ofPred_eq,
      Set.mem_insert_iff]
    constructor
    · rintro ⟨found, hother, htag⟩
      split at htag
      · obtain rfl := Option.some.inj htag
        exact .inl (hother.injective laws hpublished)
      · exact .inr ⟨found, hother, htag⟩
    · rintro (rfl | ⟨found, hother, htag⟩)
      · exact ⟨body, hpublished, if_pos rfl⟩
      · refine ⟨found, hother, ?_⟩
        rw [if_neg]
        · exact htag
        · intro heq
          rw [heq, htag] at hfree
          cases hfree
  · simp only [catalogOf, Catalog.publish, Registry.tagged_putTag laws, Set.mem_ofPred_eq,
      if_neg (StoredObject.movingName_ne_exactName _ _).symm]

theorem catalogOf_point {stored : StoredObject} {body : Bytes}
    (hpublished : adapter.Published P stored body) :
    catalogOf (registry.putTag (stored.movingName P) body) =
      Catalog.point (storedNames P) (catalogOf registry) stored := by
  ext other
  · simp only [catalogOf, Catalog.point, Registry.tagged_putTag laws, Set.mem_ofPred_eq,
      if_neg (StoredObject.anchorName_ne_movingName _ _).symm]
  · simp only [catalogOf, Catalog.point, Registry.tagged_putTag laws, Set.mem_ofPred_eq,
      if_neg (StoredObject.movingName_ne_exactName _ _)]
  · simp only [catalogOf, Catalog.point, Registry.tagged_putTag laws, Set.mem_ofPred_eq,
      Set.mem_insert_iff, storedNames]
    constructor
    · rintro ⟨found, hother, htag⟩
      split at htag
      · obtain rfl := Option.some.inj htag
        exact .inl (hother.injective laws hpublished)
      · rename_i hne
        refine .inr ⟨⟨found, hother, htag⟩, fun heq => hne ?_⟩
        rw [StoredObject.movingName, StoredObject.movingName, heq]
    · rintro (rfl | ⟨⟨found, hother, htag⟩, hne⟩)
      · exact ⟨body, hpublished, if_pos rfl⟩
      · refine ⟨found, hother, ?_⟩
        rw [if_neg]
        · exact htag
        · exact fun heq => hne (latestName_injective laws heq).symm

theorem catalogOf_remove {stored : StoredObject} {body : Bytes}
    (hpublished : adapter.Published P stored body) :
    catalogOf (registry.deleteManifest (sha256Digest P body)) = (catalogOf registry).remove stored := by
  have hmem : ∀ other tag, (∃ found, adapter.Published P other found ∧
      (registry.deleteManifest (sha256Digest P body)).tagged tag = some found) ↔
      (∃ found, adapter.Published P other found ∧ registry.tagged tag = some found) ∧ other ≠ stored := by
    intro other tag
    simp only [Registry.tagged_deleteManifest laws]
    constructor
    · rintro ⟨found, hother, htag⟩
      split at htag
      · cases htag
      · rename_i hne
        refine ⟨⟨found, hother, htag⟩, ?_⟩
        rintro rfl
        exact hne (by rw [htag, hother.unique hpublished])
    · rintro ⟨⟨found, hother, htag⟩, hne⟩
      refine ⟨found, hother, ?_⟩
      rw [htag, if_neg]
      intro heq
      obtain rfl := Option.some.inj heq
      exact hne (hother.injective laws hpublished)
  ext other
  · simp only [catalogOf, Catalog.remove, Registry.tagged_deleteManifest laws, Set.mem_ofPred_eq]
    constructor
    · intro h
      split at h
      · cases h
      · exact h
    · intro h
      rw [h, if_neg]
      exact fun heq => hpublished.manifest.ne_anchorBody other (Option.some.inj heq).symm
  · exact hmem other _
  · exact hmem other _

/-- Every change of the repository is a step of its catalog. -/
theorem Move.refines (h : Move registry registry') :
    Catalog.Step (storedNames P) (catalogOf registry) (catalogOf registry') := by
  cases h with
  | quiet _ hgrows =>
    rw [catalogOf_grows hgrows]
    exact .stay _
  | anchor objectId =>
    rw [catalogOf_anchor laws]
    exact .anchor _ objectId
  | publish stored body hpublished hcomplete hfree =>
    rw [catalogOf_publish laws hpublished hfree]
    refine .publish _ stored hcomplete.anchor ?_
    rintro other ⟨found, hother, htag⟩ heq
    have heq : other.exactName P = stored.exactName P := heq
    rw [heq, hfree] at htag
    cases htag
  | point stored body hpublished hexact =>
    rw [catalogOf_point laws hpublished]
    exact .point _ stored ⟨body, hpublished, hexact⟩
  | remove stored body hpublished hexact =>
    rw [catalogOf_remove laws hpublished]
    exact .remove _ stored ⟨body, hpublished, hexact⟩

end Catalog

end MeridianOci.Service
