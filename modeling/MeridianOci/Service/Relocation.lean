import MeridianOci.Service.Agreement
import MeridianOci.Service.Migration

/-!
# Migrating a repository

A source is listed, every listed version is exported, and each export is imported into an
empty target with the default arguments. An import looks at its object id, so of two versions
of one object id only the one that comes first is accepted.
-/
namespace MeridianOci.Service

open MeridianOci.Data MeridianOci.Effect MeridianOci.Model

set_option autoImplicit false

variable {P : Platform} {adapter : OciDistributionAdapter}
variable {setting : Setting P adapter.transport.binding}

/-! ## The inventory -/

section Inventory

variable {w : World setting.policy}

/-- Two live versions with the same exact tag are the same. -/
theorem Intact.live_exact (laws : P.Lawful) {stored other : StoredObject}
    (h : stored ∈ (catalogOf w.registry).live) (h' : other ∈ (catalogOf w.registry).live)
    (hname : stored.exactName P = other.exactName P) : stored = other := by
  obtain ⟨body, hpublished, htagged⟩ := h
  obtain ⟨body', hpublished', htagged'⟩ := h'
  rw [hname, htagged'] at htagged
  obtain rfl := Option.some.inj htagged
  exact hpublished.injective laws hpublished'

/-- The object ids and digests of the live versions are those that exact lookups resolve. -/
theorem exists_lookup_iff (laws : P.Lawful) (hintact : Intact w.registry) {objectId digest : String} :
    (∃ resolved, w.lookup (exactReference adapter objectId digest) = .ok resolved) ↔
      ∃ stored ∈ (catalogOf w.registry).live, stored.objectId = objectId ∧ stored.metadata.digest = digest := by
  constructor
  · intro h
    obtain ⟨resolved, hlookup⟩ := h
    exact ⟨resolved.stored, lookup_exact laws hintact hlookup⟩
  · intro h
    obtain ⟨stored, hlive, rfl, rfl⟩ := h
    obtain ⟨resolved, hlookup, -⟩ := (mem_live_iff laws hintact).mp hlive
    exact ⟨resolved, hlookup⟩

/-- A walk to its end over an intact repository lists every live version once. -/
theorem ListWalk.inventory (laws : P.Lawful) (hintact : Intact w.registry) (hnamed : w.registry.WellNamed)
    (hadvances : ∀ bound, w.registry.Advances adapter.binding.maxScanTags bound) {steps : List (Listed setting)} (hwalk : ListWalk setting "" none steps none) (hne : steps ≠ [])
    (hworld : ∀ step ∈ steps, step.world = w) : (steps.flatMap (·.items)).Nodup ∧
      ∀ metadata, metadata ∈ steps.flatMap (·.items) ↔
        ∃ stored ∈ (catalogOf w.registry).live, stored.metadata = metadata := by
  have hsteps : ∀ step ∈ steps, step.world.registry.WellNamed ∧ Intact step.world.registry := by
    intro step hstep
    rw [hworld step hstep]
    exact ⟨hnamed, hintact⟩
  constructor
  · obtain ⟨pages, last, hpages, -, hshows⟩ := hwalk.paged laws (show Cursor adapter P none none from
      ⟨rfl, fun tag h => by cases h⟩) (fun step hstep => (hsteps step hstep).1)
        fun step hstep bound _ => hworld step hstep ▸ hadvances bound
    obtain ⟨tags, hsources, hsub, -⟩ := exists_sources hshows
    exact nodup_items laws hsources (hpages.nodup.sublist hsub) fun step hstep => (hsteps step hstep).2
  · intro metadata
    obtain ⟨scanned, hseen⟩ := hwalk.seen laws hnamed hadvances hworld
    rw [hseen.items, List.mem_filterMap]
    constructor
    · intro h
      obtain ⟨tag, -, hentry⟩ := h
      obtain ⟨stored, hlive, -, hmetadata, -⟩ := (hintact.entry_iff laws).mp hentry
      exact ⟨stored, hlive, hmetadata⟩
    · intro h
      obtain ⟨stored, hlive, hmetadata⟩ := h
      obtain ⟨body, hpublished, htagged⟩ := hlive
      exact ⟨stored.exactName P, hseen.finished rfl hne _ (mem_tagSet.mpr ⟨body, htagged⟩),
        (hintact.entry_iff laws).mpr ⟨stored, ⟨body, hpublished, htagged⟩, rfl, hmetadata, rfl⟩⟩

/-- The export of a listed version has its metadata. -/
theorem export_listed (laws : P.Lawful) (hintact : Intact w.registry) {stored : StoredObject}
    (hlive : stored ∈ (catalogOf w.registry).live) {raw : JsonObject} {exported : LogicalObjectExport}
    {w' : World setting.policy} (hexports : Exports P adapter raw stored.metadata.objectRef)
    (h : Performs setting.env (exportLogical P adapter raw) w (.ok exported) w') :
    exported.metadata = stored.metadata := by
  obtain ⟨-, reference, resolved, id, hother, hfound, rfl⟩ := h.ensures (exportLogical_ensures laws w hintact raw)
  obtain rfl := Except.ok.inj (hexports.parsed.symm.trans hother.parsed)
  obtain ⟨body, hpublished, htagged⟩ := hlive
  have hnamed := hpublished.named
  rw [hnamed] at hfound
  have htag : resolved.manifest.body = body := by
    have hfoundTag := hfound.tagged
    exact Option.some.inj (hfoundTag.symm.trans htagged)
  have hsame := hfound.published
  rw [htag] at hsame
  rw [hsame.injective laws hpublished]

/-- Without faults every listed version can be exported. -/
theorem export_succeeds (laws : P.Lawful) (hintact : Intact w.registry) (hfaults : ¬setting.faults)
    {stored : StoredObject} (hlive : stored ∈ (catalogOf w.registry).live) {raw : JsonObject}
    (hexports : Exports P adapter raw stored.metadata.objectRef) {outcome : Except Err LogicalObjectExport}
    {w' : World setting.policy} (h : Performs setting.env (exportLogical P adapter raw) w outcome w') :
    ∃ exported, outcome = .ok exported := by
  have hexport := h.ensures (exportLogical_ensures laws w hintact raw)
  cases outcome with
  | ok exported => exact ⟨exported, rfl⟩
  | error error =>
    obtain ⟨resolved, hlookup, -⟩ := (mem_live_iff laws hintact).mp hlive
    obtain ⟨body, hpublished, -⟩ := hlive
    have hnone := hexport.2.resolve_left hfaults _ hexports
    rw [hpublished.named] at hnone
    exact absurd ((lookup_ok laws hintact).mp hlookup) (hnone resolved)

end Inventory

/-! ## Imports -/

variable (setting) in
/-- Imports with the default arguments, one after the other, with what each of them gave. -/
inductive Imports (normalize : PutArguments → Except Err Operation) :
    World setting.policy → List (LogicalObjectExport × Except Err Result) → World setting.policy → Prop where
  | nil (w : World setting.policy) : Imports normalize w [] w
  | cons (w w₁ w' : World setting.policy) (exported : LogicalObjectExport) (outcome : Except Err Result) (rest) :
      Performs setting.env (importLogical P adapter normalize exported) w outcome w₁ →
      Imports normalize w₁ rest w' → Imports normalize w ((exported, outcome) :: rest) w'

variable (setting) in
/-- A target accepts an export, as far as it does not depend on what it holds. -/
structure Portable (normalize : PutArguments → Except Err Operation) (exported : LogicalObjectExport)
    (operation : Operation) (value : PutInput) (content : Bytes) : Prop where
  normalized : normalize (importArguments adapter exported true) = .ok operation
  accepted : Accepted P adapter operation "put"
  input : operation.input = .put value
  deliverable : Deliverable setting exported.payload content
  acceptable : ∀ before, Acceptable setting value (identityOf P content) exported.immutability exported.retention before

variable (P) in
/-- Of different object ids and different exact tags. -/
def Separate (exported other : LogicalObjectExport) : Prop :=
  exported.metadata.objectRef.objectId ≠ other.metadata.objectRef.objectId ∧
    (exported.metadata.digest = other.metadata.digest →
      shortHash P exported.metadata.objectRef.objectId ≠ shortHash P other.metadata.objectRef.objectId)

section Target

variable {w w' : World setting.policy} {normalize : PutArguments → Except Err Operation}

/-- What an import with the default arguments adds. -/
structure Added (w w' : World setting.policy) (exported : LogicalObjectExport) (stored : StoredObject) : Prop where
  objectId : stored.objectId = exported.metadata.objectRef.objectId
  digest : stored.metadata.digest = exported.metadata.digest
  absent : ∀ other ∈ (catalogOf w.registry).latest, other.objectId ≠ stored.objectId
  anchored : ∀ objectId, objectId ∈ (catalogOf w'.registry).anchored ↔
    objectId = stored.objectId ∨ objectId ∈ (catalogOf w.registry).anchored
  live : ∀ other, other ∈ (catalogOf w'.registry).live ↔ other = stored ∨ other ∈ (catalogOf w.registry).live
  latest : ∀ other, other ∈ (catalogOf w'.registry).latest ↔
    other = stored ∨ (other ∈ (catalogOf w.registry).latest ∧ other.objectId ≠ stored.objectId)

/-- An import that succeeds adds one version, of an object id that had none. -/
theorem import_added (laws : P.Lawful) (hcarries : Carries P normalize) {exported : LogicalObjectExport}
    (hexported : Exported P exported) (hintact : Intact w.registry) {result : Result}
    (h : Performs setting.env (importLogical P adapter normalize exported) w (.ok result) w') :
    Intact w'.registry ∧ ∃ stored, Added w w' exported stored := by
  obtain ⟨value, content, metadata, hcarried, hsucceeded, hdeclared, -, hintact'⟩ :=
    import_succeeded laws hcarries hexported hintact h
  obtain ⟨stored, hstored, hid, hdigest, hadvances⟩ := hsucceeded.advances laws hintact
  have honly : value.createOnly = true := hcarried.createOnly
  have hobjectId : value.objectId = exported.metadata.objectRef.objectId := hcarried.objectId
  have havailable := (available_iff laws hintact).mp hsucceeded.available (by rw [honly, Bool.true_or])
  refine ⟨hintact', stored, hid.trans hobjectId, ?_, ?_, ?_, fun _ => hadvances.live, fun _ => hadvances.latest⟩
  · rw [hstored, hdigest, hdeclared]
  · intro other hlatest
    rw [hid]
    cases honce : exported.immutability.publishOnce with
    | false => exact havailable.2 honce other hlatest
    | true =>
      intro heq
      have hanchored := hintact.live_anchored other (hintact.latest_live laws hlatest)
      rw [heq] at hanchored
      exact havailable.1 honce hanchored
  · intro objectId
    cases hadvances with
    | existing hfalse =>
      rw [honly] at hfalse
      cases hfalse
    | fresh _ _ _ hcatalog =>
      rw [hcatalog]
      exact Iff.rfl

/-- Imports that all succeed have different object ids, and add the versions that they name. -/
theorem Imports.added (laws : P.Lawful) (hcarries : Carries P normalize)
    {results : List (LogicalObjectExport × Except Err Result)} (h : Imports setting normalize w results w')
    (hexported : ∀ pair ∈ results, Exported P pair.1) (hok : ∀ pair ∈ results, ∃ result, pair.2 = .ok result)
    (hintact : Intact w.registry) : Intact w'.registry ∧
      (∀ other ∈ (catalogOf w.registry).latest, ∀ pair ∈ results,
        pair.1.metadata.objectRef.objectId ≠ other.objectId) ∧
      (results.map fun pair => pair.1.metadata.objectRef.objectId).Nodup ∧
      ∀ objectId digest, (∃ stored ∈ (catalogOf w'.registry).live, stored.objectId = objectId ∧
          stored.metadata.digest = digest) ↔
        (∃ stored ∈ (catalogOf w.registry).live, stored.objectId = objectId ∧ stored.metadata.digest = digest) ∨
          ∃ pair ∈ results, pair.1.metadata.objectRef.objectId = objectId ∧ pair.1.metadata.digest = digest := by
  induction h with
  | nil w =>
    refine ⟨hintact, fun _ _ pair hmem => (by cases hmem), List.nodup_nil, fun objectId digest => ⟨.inl, ?_⟩⟩
    intro h
    obtain hold | ⟨pair, hmem, -⟩ := h
    · exact hold
    · cases hmem
  | cons w w₁ w' exported outcome rest hperforms _ ih =>
    obtain ⟨result, rfl⟩ : ∃ result, outcome = .ok result := hok _ List.mem_cons_self
    obtain ⟨hintact₁, stored, hadded⟩ := import_added laws hcarries (hexported _ List.mem_cons_self) hintact hperforms
    obtain ⟨hintact', hfree, hnodup, hlive⟩ := ih (fun pair hmem => hexported pair (List.mem_cons_of_mem _ hmem))
      (fun pair hmem => hok pair (List.mem_cons_of_mem _ hmem)) hintact₁
    refine ⟨hintact', ?_, ?_, ?_⟩
    · intro other hlatest pair hmem
      have hother := hadded.absent other hlatest
      rcases List.mem_cons.mp hmem with rfl | hrest
      · rw [← hadded.objectId]
        exact hother.symm
      · exact hfree other ((hadded.latest other).mpr (.inr ⟨hlatest, hother⟩)) pair hrest
    · refine List.nodup_cons.mpr ⟨fun hmem => ?_, hnodup⟩
      obtain ⟨pair, hpair, hsame⟩ := List.mem_map.mp hmem
      exact hfree stored ((hadded.latest stored).mpr (.inl rfl)) pair hpair (hsame.trans hadded.objectId.symm)
    · intro objectId digest
      rw [hlive]
      constructor
      · intro h
        obtain ⟨other, hother, hnames⟩ | ⟨pair, hmem, hnames⟩ := h
        · rcases (hadded.live other).mp hother with rfl | hold
          · refine .inr ⟨_, List.mem_cons_self, ?_⟩
            rw [← hadded.objectId, ← hadded.digest]
            exact hnames
          · exact .inl ⟨other, hold, hnames⟩
        · exact .inr ⟨pair, List.mem_cons_of_mem _ hmem, hnames⟩
      · intro h
        obtain ⟨other, hother, hnames⟩ | ⟨pair, hmem, hnames⟩ := h
        · exact .inl ⟨other, (hadded.live other).mpr (.inr hother), hnames⟩
        · rcases List.mem_cons.mp hmem with rfl | hrest
          · refine .inl ⟨stored, (hadded.live stored).mpr (.inl rfl), ?_⟩
            rw [hadded.objectId, hadded.digest]
            exact hnames
          · exact .inr ⟨pair, hrest, hnames⟩

/-- Imports of different object ids and exact tags that a target accepts all succeed. -/
theorem Imports.succeed (laws : P.Lawful) (hcarries : Carries P normalize) (hfaults : ¬setting.faults)
    {results : List (LogicalObjectExport × Except Err Result)} (h : Imports setting normalize w results w')
    (hexported : ∀ pair ∈ results, Exported P pair.1)
    (hportable : ∀ pair ∈ results, ∃ operation value content, Portable setting normalize pair.1 operation value content)
    (hintact : Intact w.registry) (hseparate : results.Pairwise fun pair other => Separate P pair.1 other.1)
    (hnew : ∀ pair ∈ results, pair.1.metadata.objectRef.objectId ∉ (catalogOf w.registry).anchored ∧
      ∀ stored ∈ (catalogOf w.registry).live, stored.metadata.digest = pair.1.metadata.digest →
        shortHash P stored.objectId ≠ shortHash P pair.1.metadata.objectRef.objectId) :
    ∀ pair ∈ results, ∃ result, pair.2 = .ok result := by
  induction h with
  | nil w => exact fun pair hmem => by cases hmem
  | cons w w₁ w' exported outcome rest hperforms _ ih =>
    have hfirst := hexported _ List.mem_cons_self
    obtain ⟨hrest, hothers⟩ := List.pairwise_cons.mp hseparate
    obtain ⟨hunknown, hslots⟩ := hnew _ List.mem_cons_self
    obtain ⟨result, rfl⟩ : ∃ result, outcome = .ok result := by
      obtain ⟨operation, value, content, hexport⟩ := hportable _ List.mem_cons_self
      obtain ⟨found, hinput, hcarried⟩ := hcarries _ _ hexport.normalized
      obtain rfl := OperationInput.put.inj (hexport.input.symm.trans hinput)
      have hobjectId : value.objectId = exported.metadata.objectRef.objectId := hcarried.objectId
      have honly : value.createOnly = true := hcarried.createOnly
      have hdigest : exported.metadata.digest = sha256Digest P content := by
        have hgetD := hexport.deliverable.digest
        rw [(hfirst.declares laws).1] at hgetD
        exact hgetD
      refine hperforms.ensures (import_valid_ensures laws hintact hfaults hexport.normalized hexport.accepted
        hexport.input ⟨hcarried.payload, hcarried.immutability, hcarried.retention,
          hexport.deliverable, ?_, ?_, fun _ => hexport.acceptable w.now⟩)
      · rw [available_iff laws hintact, hobjectId]
        refine fun _ => ⟨fun _ => hunknown, fun _ stored hlatest heq => ?_⟩
        have hanchored := hintact.live_anchored stored (hintact.latest_live laws hlatest)
        rw [heq] at hanchored
        exact hunknown hanchored
      · refine not_blocked laws hintact fun stored hlive hsame hhash => ?_
        rw [hobjectId] at hhash
        exact absurd hhash (hslots stored hlive (hsame.trans hdigest.symm))
    obtain ⟨hintact₁, stored, hadded⟩ := import_added laws hcarries hfirst hintact hperforms
    have hlater := ih (fun pair hmem => hexported pair (List.mem_cons_of_mem _ hmem))
      (fun pair hmem => hportable pair (List.mem_cons_of_mem _ hmem)) hintact₁ hothers (by
        intro pair hmem
        obtain ⟨hid, hexact⟩ := hrest pair hmem
        obtain ⟨hold, holdSlots⟩ := hnew pair (List.mem_cons_of_mem _ hmem)
        refine ⟨fun hanchored => ?_, fun other hlive hsame => ?_⟩
        · rcases (hadded.anchored _).mp hanchored with heq | hbefore
          · exact hid ((heq.trans hadded.objectId).symm)
          · exact hold hbefore
        · rcases (hadded.live other).mp hlive with rfl | hbefore
          · rw [hadded.objectId]
            exact hexact (hadded.digest.symm.trans hsame)
          · exact holdSlots other hbefore hsame)
    intro pair hmem
    rcases List.mem_cons.mp hmem with rfl | hlast
    · exact ⟨result, rfl⟩
    · exact hlater pair hlast

/-- Every list of exports can be imported, whatever comes of it. -/
theorem exists_imports (hresponsive : Responsive setting) (normalize : PutArguments → Except Err Operation)
    (exports : List LogicalObjectExport) (w : World setting.policy) :
    ∃ results w', Imports setting normalize w results w' ∧ results.map (·.1) = exports := by
  induction exports generalizing w with
  | nil => exact ⟨[], w, .nil w, rfl⟩
  | cons exported rest ih =>
    obtain ⟨outcome, w₁, hperforms⟩ := hresponsive.performs (importLogical P adapter normalize exported) w
    obtain ⟨results, w', himports, hsame⟩ := ih w₁
    refine ⟨(exported, outcome) :: results, w', .cons w w₁ w' exported outcome results hperforms himports, ?_⟩
    rw [List.map_cons, hsame]

end Target

/-! ## Whole repositories -/

/-- The versions of a source that were listed, each with its export; in any order. -/
structure Inventory {source : OciDistributionAdapter} (origin : Setting P source.transport.binding)
    (w : World origin.policy) (exports : List (ObjectMetadata × LogicalObjectExport)) : Prop where
  run : ∃ now history, Runs origin now ⟨w, .idle, history⟩
  named : w.registry.WellNamed
  advances : ∀ bound, w.registry.Advances source.binding.maxScanTags bound
  listed : ∃ steps, ListWalk origin "" none steps none ∧ steps ≠ [] ∧ (∀ step ∈ steps, step.world = w) ∧
    (exports.map (·.1)).Perm (steps.flatMap (·.items))
  exported : ∀ pair ∈ exports, ∃ raw w', Exports P source raw pair.1.objectRef ∧
    Performs origin.env (exportLogical P source raw) w (.ok pair.2) w'

/-- No object id has two versions. -/
def SingleVersions {source : OciDistributionAdapter} {origin : Setting P source.transport.binding}
    (w : World origin.policy) : Prop :=
  ∀ objectId digest digest' resolved resolved', w.lookup (exactReference source objectId digest) = .ok resolved →
    w.lookup (exactReference source objectId digest') = .ok resolved' → digest = digest'

/-- Every import succeeded, and the target resolves exactly what the source resolves. -/
structure Migrated {source target : OciDistributionAdapter} {origin : Setting P source.transport.binding}
    {setting : Setting P target.transport.binding} (w : World origin.policy)
    (results : List (LogicalObjectExport × Except Err Result)) (w' : World setting.policy) : Prop where
  succeeded : ∀ pair ∈ results, ∃ result, pair.2 = .ok result
  resolves : ∀ objectId digest,
    (∃ resolved, w'.lookup (exactReference target objectId digest) = .ok resolved) ↔
      ∃ resolved, w.lookup (exactReference source objectId digest) = .ok resolved

namespace Inventory

variable {source : OciDistributionAdapter} {origin : Setting P source.transport.binding} {w : World origin.policy}
variable {exports : List (ObjectMetadata × LogicalObjectExport)}

theorem intact (laws : P.Lawful) (h : Inventory origin w exports) : Intact w.registry := by
  obtain ⟨now, history, hrun⟩ := h.run
  exact hrun.intact laws

/-- Each listed version is live, and its export has its metadata. -/
theorem stored (laws : P.Lawful) (h : Inventory origin w exports) {pair : ObjectMetadata × LogicalObjectExport}
    (hmem : pair ∈ exports) :
    ∃ stored ∈ (catalogOf w.registry).live, stored.metadata = pair.1 ∧ pair.2.metadata = stored.metadata ∧
      pair.2.metadata.objectRef.objectId = stored.objectId := by
  have hintact := h.intact laws
  obtain ⟨steps, hwalk, hne, hworld, hperm⟩ := h.listed
  obtain ⟨raw, w', hexports, hperforms⟩ := h.exported pair hmem
  obtain ⟨stored, hlive, hmetadata⟩ := ((hwalk.inventory laws hintact h.named h.advances hne hworld).2 pair.1).mp
    (hperm.mem_iff.mp (List.mem_map_of_mem hmem))
  rw [← hmetadata] at hexports
  have hsame := export_listed laws hintact hlive hexports hperforms
  exact ⟨stored, hlive, hmetadata, hsame, by rw [hsame]; rfl⟩

/-- Every live version was exported. -/
theorem complete (laws : P.Lawful) (h : Inventory origin w exports) {stored : StoredObject}
    (hlive : stored ∈ (catalogOf w.registry).live) : ∃ pair ∈ exports, pair.2.metadata = stored.metadata := by
  have hintact := h.intact laws
  obtain ⟨steps, hwalk, hne, hworld, hperm⟩ := h.listed
  obtain ⟨pair, hmem, hfirst⟩ := List.mem_map.mp (hperm.mem_iff.mpr
    (((hwalk.inventory laws hintact h.named h.advances hne hworld).2 stored.metadata).mpr ⟨stored, hlive, rfl⟩))
  obtain ⟨found, -, hmetadata, hsame, -⟩ := h.stored laws hmem
  exact ⟨pair, hmem, hsame.trans (hmetadata.trans hfirst)⟩

theorem exported_of_run (h : Inventory origin w exports) {pair : ObjectMetadata × LogicalObjectExport}
    (hmem : pair ∈ exports) : Exported P pair.2 := by
  obtain ⟨now, history, hrun⟩ := h.run
  obtain ⟨raw, w', -, hperforms⟩ := h.exported pair hmem
  exact ⟨source, origin, now, w, w', history, raw, hrun, hperforms⟩

/-- Without two versions of one object id, the exports have different object ids and exact tags. -/
theorem separate (laws : P.Lawful) (h : Inventory origin w exports) (hsingle : SingleVersions w) :
    exports.Pairwise fun pair other => Separate P pair.2 other.2 := by
  have hintact := h.intact laws
  have hnodup : (exports.map (·.1)).Nodup := by
    obtain ⟨steps, hwalk, hne, hworld, hperm⟩ := h.listed
    exact hperm.nodup_iff.mpr (hwalk.inventory laws hintact h.named h.advances hne hworld).1
  refine (List.pairwise_map.mp hnodup).imp_of_mem fun {pair other} hpair hother hne => ?_
  obtain ⟨stored, hlive, hmetadata, hsame, hid⟩ := h.stored laws hpair
  obtain ⟨stored', hlive', hmetadata', hsame', hid'⟩ := h.stored laws hother
  have hdifferent : stored.exactName P ≠ stored'.exactName P := by
    intro hname
    rw [Intact.live_exact laws hlive hlive' hname] at hmetadata
    exact hne (hmetadata.symm.trans hmetadata')
  constructor
  · intro heq
    rw [hid, hid'] at heq
    obtain ⟨resolved, hlookup, -⟩ := (mem_live_iff laws hintact).mp hlive
    obtain ⟨resolved', hlookup', -⟩ := (mem_live_iff laws hintact).mp hlive'
    rw [← heq] at hlookup'
    refine hdifferent ?_
    rw [StoredObject.exactName, StoredObject.exactName, heq, hsingle _ _ _ _ _ hlookup hlookup']
  · intro hdigest hhash
    rw [hid, hid'] at hhash
    rw [hsame, hsame'] at hdigest
    refine hdifferent ?_
    rw [StoredObject.exactName, StoredObject.exactName, hdigest, versionName, versionName, hhash]

end Inventory

/-- Migrating a repository with the default arguments, in any order, into an empty target that accepts
each version by itself: every export succeeds, and every import succeeds and the target resolves the
same versions if and only if no object id has two versions. -/
theorem repository_migrates (laws : P.Lawful) {source target : OciDistributionAdapter}
    {origin : Setting P source.transport.binding} {w : World origin.policy}
    {exports : List (ObjectMetadata × LogicalObjectExport)} (hinventory : Inventory origin w exports)
    {setting : Setting P target.transport.binding} (hfaults : ¬setting.faults) (hresponsive : Responsive setting)
    {normalize : PutArguments → Except Err Operation} (hcarries : Carries P normalize)
    (hportable : ∀ pair ∈ exports, ∃ operation value content, Portable setting normalize pair.2 operation value content)
    (now : DateTime) :
    (¬origin.faults → ∀ pair ∈ exports, ∀ raw outcome w', Exports P source raw pair.1.objectRef →
      Performs origin.env (exportLogical P source raw) w outcome w' → ∃ exported, outcome = .ok exported) ∧
    ((∀ results w', Imports setting normalize (World.empty setting.policy now) results w' →
        results.map (·.1) = exports.map (·.2) → Migrated w results w') ↔ SingleVersions w) := by
  have hintact := hinventory.intact laws
  have hempty : ∀ tag, (World.empty setting.policy now).registry.tagged tag = none := by
    intro tag
    rw [Registry.tagged_eq_none]
    simp [World.empty, Registry.empty]
  have hnone : ∀ stored, stored ∉ (catalogOf (World.empty setting.policy now).registry).live := by
    intro stored h
    obtain ⟨body, -, htagged⟩ := h
    cases (hempty _).symm.trans htagged
  have hmember : ∀ {results : List (LogicalObjectExport × Except Err Result)},
      results.map (·.1) = exports.map (·.2) → ∀ pair ∈ results, ∃ listed ∈ exports, listed.2 = pair.1 := by
    intro results hsame pair hmem
    have hfirst : pair.1 ∈ results.map (·.1) := List.mem_map.mpr ⟨pair, hmem, rfl⟩
    rw [hsame] at hfirst
    exact List.mem_map.mp hfirst
  have hexported : ∀ {results : List (LogicalObjectExport × Except Err Result)},
      results.map (·.1) = exports.map (·.2) → ∀ pair ∈ results, Exported P pair.1 := by
    intro results hsame pair hmem
    obtain ⟨listed, hlisted, heq⟩ := hmember hsame pair hmem
    rw [← heq]
    exact hinventory.exported_of_run hlisted
  refine ⟨fun hreliable pair hmem raw outcome w' hexports hperforms => ?_, ?_, ?_⟩
  · obtain ⟨stored, hlive, hmetadata, -⟩ := hinventory.stored laws hmem
    rw [← hmetadata] at hexports
    exact export_succeeds laws hintact hreliable hlive hexports hperforms
  · intro hall objectId digest digest' resolved resolved' hlookup hlookup'
    obtain ⟨results, w', himports, hsame⟩ := exists_imports hresponsive normalize (exports.map (·.2))
      (World.empty setting.policy now)
    obtain ⟨-, -, hnodup, -⟩ := himports.added laws hcarries (hexported hsame)
      (hall results w' himports hsame).succeeded intact_empty
    have hids : (exports.map fun pair => pair.2.metadata.objectRef.objectId).Nodup := by
      have hmap : (results.map fun pair => pair.1.metadata.objectRef.objectId) =
          (results.map (·.1)).map (·.metadata.objectRef.objectId) := by
        rw [List.map_map]
        rfl
      rw [hmap, hsame, List.map_map] at hnodup
      exact hnodup
    obtain ⟨hlive, hid, hdigest⟩ := lookup_exact laws hintact hlookup
    obtain ⟨hlive', hid', hdigest'⟩ := lookup_exact laws hintact hlookup'
    obtain ⟨pair, hmem, hmetadata⟩ := hinventory.complete laws hlive
    obtain ⟨other, hother, hmetadata'⟩ := hinventory.complete laws hlive'
    have heq : pair = other := by
      refine List.inj_on_of_nodup_map hids hmem hother ?_
      rw [hmetadata, hmetadata']
      exact hid.trans hid'.symm
    rw [← hdigest, ← hdigest', ← hmetadata, ← hmetadata', heq]
  · intro hsingle results w' himports hsame
    have hseparate : results.Pairwise fun pair other => Separate P pair.1 other.1 := by
      have hexports : (exports.map (·.2)).Pairwise (Separate P) := List.pairwise_map.mpr (hinventory.separate laws hsingle)
      rw [← hsame] at hexports
      exact List.pairwise_map.mp hexports
    have hok := himports.succeed laws hcarries hfaults (hexported hsame) (fun pair hmem => by
      obtain ⟨listed, hlisted, heq⟩ := hmember hsame pair hmem
      rw [← heq]
      exact hportable listed hlisted) intact_empty hseparate fun pair hmem => by
        refine ⟨fun hanchored => ?_, fun stored hlive => absurd hlive (hnone stored)⟩
        cases (hempty _).symm.trans hanchored
    obtain ⟨hintact', -, -, hlive⟩ := himports.added laws hcarries (hexported hsame) hok intact_empty
    refine ⟨hok, fun objectId digest => ?_⟩
    rw [exists_lookup_iff laws hintact', exists_lookup_iff laws hintact, hlive]
    constructor
    · intro h
      obtain ⟨stored, hstored, -⟩ | ⟨pair, hmem, hid, hdigest⟩ := h
      · exact absurd hstored (hnone stored)
      · obtain ⟨listed, hlisted, heq⟩ := hmember hsame pair hmem
        obtain ⟨stored, hstored, -, hmetadata, hobjectId⟩ := hinventory.stored laws hlisted
        rw [heq] at hmetadata hobjectId
        exact ⟨stored, hstored, hobjectId.symm.trans hid, by rw [← hmetadata, hdigest]⟩
    · intro h
      obtain ⟨stored, hstored, hid, hdigest⟩ := h
      obtain ⟨listed, hlisted, hmetadata⟩ := hinventory.complete laws hstored
      have hsecond : listed.2 ∈ exports.map (·.2) := List.mem_map.mpr ⟨listed, hlisted, rfl⟩
      rw [← hsame] at hsecond
      obtain ⟨pair, hmem, heq⟩ := List.mem_map.mp hsecond
      refine .inr ⟨pair, hmem, ?_⟩
      rw [heq, hmetadata]
      exact ⟨hid, hdigest⟩

namespace Sample

open MeridianOci.Model.Sample

section Plain

variable {limit : Nat} {w : World (Sample.setting limit False).policy}

/-- The export of a plain put's version is accepted where the put fits. -/
theorem portable_plain {put : Plain} (hfits : put.Fits limit) : ∃ operation value content,
    Portable (Sample.setting limit False) normalize (exportOf put) operation value content :=
  ⟨_, _, put.content, rfl, accepted_import true, rfl, deliverable_import hfits, acceptable_import hfits rfl⟩

/-- Exports of plain puts are an inventory of a run whose live versions they are. -/
theorem inventory_plain {now : DateTime}
    {history : List (Event Call Err Answer (World (Sample.setting limit False).policy))}
    (hrun : Runs (Sample.setting limit False) now ⟨w, .idle, history⟩) (hnamed : w.registry.WellNamed)
    {puts : List Plain} (hnodup : (puts.map fun put => put.stored.metadata).Nodup)
    (hlive : ∀ stored, stored ∈ (catalogOf w.registry).live ↔ ∃ put ∈ puts, put.stored = stored) :
    Inventory (Sample.setting limit False) w (puts.map fun put => (put.stored.metadata, exportOf put)) := by
  have hintact : Intact w.registry := hrun.intact lawful
  obtain ⟨steps, hwalk, hne, hworld⟩ := exists_listWalk lawful hnamed
    (goesOn_of_listable lawful (listable_start hintact hnamed) "") 1
  obtain ⟨hunique, hmem⟩ := hwalk.inventory lawful hintact hnamed (advances_policy w.registry) hne hworld
  refine ⟨⟨now, history, hrun⟩, hnamed, advances_policy w.registry, ⟨steps, hwalk, hne, hworld, ?_⟩, ?_⟩
  · rw [List.map_map]
    refine (List.perm_ext_iff_of_nodup hnodup hunique).mpr fun metadata => ?_
    rw [hmem, List.mem_map]
    constructor
    · intro h
      obtain ⟨put, hput, hmetadata⟩ := h
      exact ⟨put.stored, (hlive _).mpr ⟨put, hput, rfl⟩, hmetadata⟩
    · intro h
      obtain ⟨stored, hstored, hmetadata⟩ := h
      obtain ⟨put, hput, rfl⟩ := (hlive _).mp hstored
      exact ⟨put, hput, hmetadata⟩
  · intro pair hpair
    obtain ⟨put, hput, rfl⟩ := List.mem_map.mp hpair
    exact performs_export_plain hintact ((hlive _).mpr ⟨put, hput, rfl⟩)

end Plain

/-- Three objects, one of them empty. -/
def moved : List Plain := [⟨"a", "x", false, none, none⟩, ⟨"b", "yy", false, none, none⟩, ⟨"c", "", false, none, none⟩]

/-- A source with three objects is migrated, the last one first. -/
theorem repository_migrates_three : ∃ limit history, ∃ w : World (Sample.setting limit False).policy,
    Runs (Sample.setting limit False) (.aware 0) ⟨w, .idle, history⟩ ∧
    history.map (·.call) = moved.map (.execute ·.operation) ∧
    Inventory (Sample.setting limit False) w (moved.reverse.map fun put => (put.stored.metadata, exportOf put)) ∧
    ∀ results (w' : World (Sample.setting limit False).policy),
      Imports (Sample.setting limit False) normalize (World.empty _ (.aware 0)) results w' →
      results.map (·.1) = moved.reverse.map exportOf → Migrated w results w' := by
  obtain ⟨limit, hfits⟩ := exists_limit moved (by decide)
  obtain ⟨w, history, hrun, hcalls, -, hanchored, hlive⟩ := run_puts hfits (by decide) (by decide) (.aware 0)
  have hintact : Intact w.registry := hrun.intact lawful
  have hnamed := wellNamed_puts hintact (fun _ => (hanchored _).mp) (fun _ => (hlive _).mp) (by decide)
  have hcontents : moved.reverse.Pairwise (·.content ≠ ·.content) := by decide
  have hnodup : (moved.reverse.map fun put => put.stored.metadata).Nodup := by
    refine List.pairwise_map.mpr (hcontents.imp fun hne heq => ?_)
    exact digest_ne hne (congrArg ObjectMetadata.digest heq)
  have hinventory := inventory_plain hrun hnamed hnodup fun stored => by
    rw [hlive, List.mem_map]
    simp only [List.mem_reverse]
  refine ⟨limit, history, w, hrun, hcalls, hinventory, fun results w' himports hsame => ?_⟩
  refine (repository_migrates lawful hinventory id (responsive limit False) carries (fun pair hpair => ?_)
    (.aware 0)).2.mpr ?_ results w' himports (hsame.trans (by rw [List.map_map]; rfl))
  · obtain ⟨put, hput, rfl⟩ := List.mem_map.mp hpair
    exact portable_plain (hfits put (List.mem_reverse.mp hput))
  · -- the three object ids are different
    intro objectId digest digest' resolved resolved' hlookup hlookup'
    obtain ⟨hstored, hid, hdigest⟩ := lookup_exact lawful hintact hlookup
    obtain ⟨hstored', hid', hdigest'⟩ := lookup_exact lawful hintact hlookup'
    obtain ⟨put, hput, heq⟩ := List.mem_map.mp ((hlive _).mp hstored)
    obtain ⟨other, hother, heq'⟩ := List.mem_map.mp ((hlive _).mp hstored')
    have hids : (moved.map (·.objectId)).Nodup := by decide
    have hsameId : put.objectId = other.objectId := by
      rw [← heq] at hid
      rw [← heq'] at hid'
      exact Eq.trans hid hid'.symm
    obtain rfl := List.inj_on_of_nodup_map hids hput hother hsameId
    rw [← hdigest, ← hdigest', ← heq, ← heq']

/-- A source with two versions of one object id is not. -/
theorem repository_stuck : ∃ limit, ∃ (w : World (Sample.setting limit False).policy)
    (exports : List (ObjectMetadata × LogicalObjectExport)),
    Inventory (Sample.setting limit False) w exports ∧
    (∀ pair ∈ exports, ∃ operation value content,
      Portable (Sample.setting limit False) normalize pair.2 operation value content) ∧
    ∃ results, ∃ w' : World (Sample.setting limit False).policy,
      Imports (Sample.setting limit False) normalize (World.empty _ (.aware 0)) results w' ∧
      results.map (·.1) = exports.map (·.2) ∧ ¬Migrated w results w' := by
  let first : Plain := { objectId := "a", text := "x" }
  let second : Plain := { objectId := "a", text := "y" }
  obtain ⟨limit, hfits⟩ := exists_limit [first, second] (by decide)
  have hfirst := hfits first List.mem_cons_self
  have hsecond := hfits second (List.mem_cons_of_mem _ List.mem_cons_self)
  have hne := @digest_ne first second (by decide)
  obtain ⟨w, hrun, hcatalog⟩ := run_start hfirst (.aware 0)
  obtain ⟨w', hrun', hcatalog'⟩ := run_new hsecond hrun (fun h => by cases h) (by
    rw [hcatalog]
    intro stored hstored
    obtain rfl : stored = first.stored := hstored
    exact hne)
  rw [hcatalog] at hcatalog'
  have hintact : Intact w'.registry := hrun'.intact lawful
  have hnamed : w'.registry.WellNamed := by
    refine wellNamed_intact hintact ?_ ?_ ?_
    · intro objectId hmem
      rw [hcatalog'] at hmem
      obtain rfl | hmem := hmem
      · decide
      · obtain rfl : objectId = "a" := hmem
        decide
    · intro stored hmem
      rw [hcatalog'] at hmem
      obtain rfl | hmem := hmem
      · decide
      · obtain rfl : stored = first.stored := hmem
        decide
    · intro stored hmem
      rw [hcatalog'] at hmem
      obtain rfl | hmem := hmem
      · decide
      · obtain rfl : stored = first.stored := hmem.1
        decide
  have hdifferent : first.stored.metadata ≠ second.stored.metadata := fun heq => hne (congrArg (·.digest) heq)
  have hinventory := @inventory_plain limit w' _ _ hrun' hnamed [first, second] (by
    rw [List.map_cons, List.map_singleton, List.nodup_cons, List.mem_singleton]
    exact ⟨hdifferent, List.nodup_singleton _⟩) (by
    intro stored
    rw [hcatalog']
    constructor
    · intro h
      obtain rfl | h := h
      · exact ⟨second, List.mem_cons_of_mem _ List.mem_cons_self, rfl⟩
      · exact ⟨first, List.mem_cons_self, Eq.symm h⟩
    · intro h
      obtain ⟨put, hput, rfl⟩ := h
      rcases List.mem_cons.mp hput with rfl | hput
      · exact .inr rfl
      · obtain rfl := List.mem_singleton.mp hput
        exact .inl rfl)
  refine ⟨limit, w', _, hinventory, ?_, ?_⟩
  · intro pair hpair
    obtain ⟨put, hput, rfl⟩ := List.mem_map.mp hpair
    exact portable_plain (hfits put hput)
  · obtain ⟨results, w'', himports, hsame⟩ := exists_imports (responsive limit False) normalize
      [exportOf first, exportOf second] (World.empty _ (.aware 0))
    refine ⟨results, w'', himports, hsame, fun hmigrated => ?_⟩
    obtain ⟨-, -, hnodup, -⟩ := himports.added lawful carries (fun pair hmem => by
      have hpair : pair.1 ∈ results.map (·.1) := List.mem_map.mpr ⟨pair, hmem, rfl⟩
      rw [hsame] at hpair
      rcases List.mem_cons.mp hpair with heq | hpair
      · rw [heq]
        exact exported_start hfirst
      · rw [List.mem_singleton.mp hpair]
        exact exported_start hsecond) hmigrated.succeeded intact_empty
    have hmap : (results.map fun pair => pair.1.metadata.objectRef.objectId) =
        (results.map (·.1)).map (·.metadata.objectRef.objectId) := by
      rw [List.map_map]
      rfl
    rw [hmap, hsame] at hnodup
    exact absurd hnodup (by decide)

end Sample

end MeridianOci.Service
