import Mathlib.Data.List.Forall2
import MeridianOci.Effect.System
import MeridianOci.Model.Lifetime
import MeridianOci.Service.Verification

/-!
# What open and close leave behind

Between two calls a runtime holds what its fields name and nothing else, in every run in
which the adapter's constructor does not raise once it has created its client. The close
path goes by the fields, so a client that no field names yet is never closed.
-/
namespace MeridianOci.Service

open MeridianOci.Data MeridianOci.Effect MeridianOci.Model

set_option autoImplicit false

/-- The resources of one process: for every client whether `close` was called on it, and for
every CA directory whether it was removed. -/
structure Holdings where
  fields : RuntimeFields
  clients : List Bool
  directories : List Bool

namespace Holdings

/-- A runtime as the factory creates it. -/
def create (binding : OciDistributionBinding) (repository : String) (tlsCa : Option Bytes) : Holdings :=
  ⟨⟨.create binding repository, tlsCa, none, none⟩, [], []⟩

/-- Every operation may raise; of the steps that acquire nothing, those that `faulty` allows. -/
def env (faulty : OpenStep → Prop) : Environment LifeOp LifeOp.Res Err Holdings
  | .temporaryDirectory, h, answer, h' =>
    (answer = .ok h.directories.length ∧ h' = { h with directories := h.directories ++ [false] }) ∨
      ((∃ error, answer = .error error) ∧ h' = h)
  | .httpClient, h, answer, h' =>
    (answer = .ok h.clients.length ∧ h' = { h with clients := h.clients ++ [false] }) ∨
      ((∃ error, answer = .error error) ∧ h' = h)
  | .step step, h, answer, h' => (answer = .ok () ∨ (faulty step ∧ ∃ error, answer = .error error)) ∧ h' = h
  | .authenticated, h, _, h' => h' = h
  | .closeClient client, h, _, h' => h' = { h with clients := h.clients.set client true }
  | .cleanup directory, h, answer, h' =>
    answer = .ok () ∧ h' = { h with directories := h.directories.set directory true }
  | .fields update, h, answer, h' => answer = .ok h.fields ∧ h' = { h with fields := update h.fields }

/-- The closed state, with nothing left open. -/
structure Released (h : Holdings) : Prop where
  adapter : h.fields.runtime.adapter = none
  probe : h.fields.runtime.probe = none
  verified : h.fields.runtime.verified = false
  clients : ∀ i : Nat, h.clients[i]? ≠ some false
  directories : ∀ i : Nat, h.directories[i]? ≠ some false

/-- At most one client is open, and at most one directory exists. -/
structure Single (h : Holdings) : Prop where
  clients : ∀ i j : Nat, h.clients[i]? = some false → h.clients[j]? = some false → i = j
  directories : ∀ i j : Nat, h.directories[i]? = some false → h.directories[j]? = some false → i = j

/-- What is held is what the fields name. -/
structure Kept (h : Holdings) : Prop where
  clients : ∀ i : Nat, h.clients[i]? = some false → h.fields.client = some i
  directories : ∀ i : Nat, h.directories[i]? = some false → h.fields.caDirectory = some i
  adapter : h.fields.client.isSome = h.fields.runtime.adapter.isSome

/-- Between two calls. -/
structure Settled (h : Holdings) : Prop extends Kept h where
  closed : h.fields.runtime.adapter = none → Released h ∧ h.fields.caDirectory = none

theorem Kept.single {h : Holdings} (hkept : h.Kept) : h.Single := by
  refine ⟨fun i j hi hj => ?_, fun i j hi hj => ?_⟩
  · exact Option.some.inj ((hkept.clients i hi).symm.trans (hkept.clients j hj))
  · exact Option.some.inj ((hkept.directories i hi).symm.trans (hkept.directories j hj))

/-- Marking an entry leaves the other entries. -/
theorem set_eq_false {flags : List Bool} {i j : Nat} (h : (flags.set i true)[j]? = some false) :
    j ≠ i ∧ flags[j]? = some false := by
  rw [List.getElem?_set] at h
  split at h
  · split at h <;> cases h
  · rename_i hne
    exact ⟨Ne.symm hne, h⟩

/-- An entry that was added is the last one. -/
theorem append_eq_false {flags : List Bool} {j : Nat} (h : (flags ++ [false])[j]? = some false) :
    flags[j]? = some false ∨ j = flags.length := by
  rw [List.getElem?_append] at h
  split at h
  · exact .inl h
  · rename_i hlong
    refine .inr ?_
    have hlast : j - flags.length < 1 := (List.getElem?_eq_some_iff.mp h).1
    omega

/-! ## Closing -/

section Closing

variable {faulty : OpenStep → Prop} {h : Holdings}

/-- An operation with an answer that is known. -/
theorem fields_ensures {α : Type} {update : RuntimeFields → RuntimeFields} {next : RuntimeFields → LifeAction α}
    {Q : Except Err α → Holdings → Prop}
    (hnext : (next h.fields).Ensures (env faulty) (fun _ _ => True) { h with fields := update h.fields } Q) :
    (LifeAction.fields update >>= next).Ensures (env faulty) (fun _ _ => True) h Q := by
  intro answer h' hanswer
  obtain ⟨rfl, rfl⟩ := hanswer
  exact ⟨trivial, hnext⟩

/-- Whatever `close` finds named in the fields is released, also if closing the adapter raises. -/
theorem close_ensures (hkept : h.Kept) :
    LifeAction.close.Ensures (env faulty) (fun _ _ => True) h fun _ h' =>
      h'.Settled ∧ h'.Released := by
  unfold LifeAction.close
  refine fields_ensures ?_
  refine Prog.Ensures.finally_ (R := fun _ h₁ => (∀ i : Nat, h₁.clients[i]? ≠ some false) ∧
    h₁.directories = h.directories ∧ h₁.fields = { h.fields with runtime := h.fields.runtime.reset, client := none })
    ?_ ?_
  · cases hclient : h.fields.client with
    | none =>
      refine ⟨fun i hi => ?_, rfl, rfl⟩
      cases hclient.symm.trans (hkept.clients i hi)
    | some client =>
      intro answer h₁ hanswer
      obtain rfl := hanswer
      refine ⟨trivial, Prog.ensures_ofExcept.mpr ⟨fun i hi => ?_, rfl, rfl⟩⟩
      obtain ⟨hne, hopen⟩ := set_eq_false hi
      exact hne (Option.some.inj ((hkept.clients i hopen).symm.trans hclient))
  · intro outcome h₁ hfirst
    obtain ⟨hclients, hdirectories, hfields⟩ := hfirst
    have hdone : ∀ h₂ : Holdings, h₂.clients = h₁.clients → (∀ i : Nat, h₂.directories[i]? ≠ some false) →
        h₂.fields = { h₁.fields with caDirectory := none } → h₂.Settled ∧ h₂.Released := by
      intro h₂ hsame hnone hlast
      have hreleased : h₂.Released := by
        rw [hfields] at hlast
        refine ⟨?_, ?_, ?_, fun i => ?_, hnone⟩
        · rw [hlast]
          rfl
        · rw [hlast]
          rfl
        · rw [hlast]
          rfl
        · rw [hsame]
          exact hclients i
      refine ⟨⟨⟨fun i hi => absurd hi (hreleased.clients i), fun i hi => absurd hi (hnone i), ?_⟩, fun _ => ?_⟩,
        hreleased⟩
      · rw [hlast, hfields]
        rfl
      · exact ⟨hreleased, by rw [hlast]⟩
    refine fields_ensures ?_
    have hnamed : ∀ i : Nat, h₁.directories[i]? = some false → h₁.fields.caDirectory = some i := by
      intro i hi
      rw [hdirectories] at hi
      rw [hfields]
      exact hkept.directories i hi
    cases hdirectory : h₁.fields.caDirectory with
    | none =>
      refine hdone _ rfl (fun i hi => ?_) ?_
      · cases hdirectory.symm.trans (hnamed i hi)
      · rw [← hdirectory]
        rfl
    | some directory =>
      intro answer h₂ hanswer
      obtain ⟨rfl, rfl⟩ := hanswer
      refine ⟨trivial, fields_ensures ?_⟩
      refine hdone _ rfl (fun i hi => ?_) rfl
      obtain ⟨hne, hexists⟩ := set_eq_false hi
      exact hne (Option.some.inj ((hnamed i hexists).symm.trans hdirectory))

end Closing

/-! ## Opening -/

section Opening

variable {faulty : OpenStep → Prop} {h : Holdings}

/-- A step that acquires nothing. -/
theorem step_ensures (step : OpenStep) :
    (LifeAction.step step).Ensures (env faulty) (fun _ _ => True) h fun outcome h' =>
      h' = h ∧ ∀ error, outcome = .error error → faulty step := by
  intro answer h' hanswer
  obtain ⟨hanswer, rfl⟩ := hanswer
  refine ⟨trivial, Prog.ensures_ofExcept.mpr ⟨rfl, fun error herror => ?_⟩⟩
  obtain rfl | ⟨hfaulty, -⟩ := hanswer
  · cases herror
  · exact hfaulty

/-- What follows a step, and what is left where the step raises. -/
theorem step_then {α : Type} {step : OpenStep} {next : Unit → LifeAction α} {Q : Except Err α → Holdings → Prop}
    (hnext : (next ()).Ensures (env faulty) (fun _ _ => True) h Q)
    (hraise : ∀ error, faulty step → Q (.error error) h) :
    (LifeAction.step step >>= next).Ensures (env faulty) (fun _ _ => True) h Q := by
  refine (step_ensures step).bind ?_ ?_
  · intro _ h' hsame
    obtain ⟨rfl, -⟩ := hsame
    exact hnext
  · intro error h' hsame
    obtain ⟨rfl, hfaulty⟩ := hsame
    exact hraise error (hfaulty error rfl)

/-- The directory is named by the fields before anything else can raise. -/
theorem provideCa_ensures (hkept : h.Kept) (hnone : ∀ i : Nat, h.directories[i]? ≠ some false) :
    LifeAction.provideCa.Ensures (env faulty) (fun _ _ => True) h fun _ h' =>
      h'.Kept ∧ h'.fields.runtime = h.fields.runtime := by
  intro answer h₁ hanswer
  refine ⟨trivial, ?_⟩
  obtain ⟨rfl, rfl⟩ | ⟨⟨error, rfl⟩, rfl⟩ := hanswer
  · refine fields_ensures ?_
    have hnamed : Kept ⟨{ h.fields with caDirectory := some h.directories.length }, h.clients,
        h.directories ++ [false]⟩ := by
      refine ⟨hkept.clients, fun i hi => ?_, hkept.adapter⟩
      obtain hold | rfl := append_eq_false hi
      · exact absurd hold (hnone i)
      · rfl
    refine step_then ?_ fun _ _ => ⟨hnamed, rfl⟩
    refine step_then ?_ fun _ _ => ⟨hnamed, rfl⟩
    refine (step_ensures _).mono fun _ h' hsame => ?_
    rw [hsame.1]
    exact ⟨hnamed, rfl⟩
  · exact ⟨hkept, rfl⟩

/-- The constructor returns with the client that it created, or has not created one. -/
theorem construct_ensures (hsteady : ∀ step, faulty step → step.constructing = false)
    (binding : OciDistributionBinding) :
    (LifeAction.construct binding).Ensures (env faulty) (fun _ _ => True) h fun outcome h' =>
      match outcome with
      | .ok (_, client) => client = h.clients.length ∧ h' = { h with clients := h.clients ++ [false] }
      | .error _ => h' = h := by
  intro answer h₁ hanswer
  refine ⟨trivial, ?_⟩
  obtain ⟨rfl, rfl⟩ | ⟨⟨error, rfl⟩, rfl⟩ := hanswer
  · refine step_then ?_ fun _ hfaulty => by cases hsteady _ hfaulty
    refine step_then ?_ fun _ hfaulty => by cases hsteady _ hfaulty
    refine step_then ?_ fun _ hfaulty => by cases hsteady _ hfaulty
    refine step_then ?_ fun _ hfaulty => by cases hsteady _ hfaulty
    exact ⟨rfl, rfl⟩
  · rfl

/-- From the constructor on, whether the block returns or raises, what is held is what the fields name. -/
theorem openAdapter_ensures (hsteady : ∀ step, faulty step → step.constructing = false) (hkept : h.Kept)
    (hadapter : h.fields.runtime.adapter = none) (before : RuntimeFields) :
    (LifeAction.openAdapter before).Ensures (env faulty) (fun _ _ => True) h fun outcome h' =>
      h'.Kept ∧ ∀ value, outcome = .ok value → h'.fields.runtime.adapter.isSome = true := by
  have hclient : h.fields.client = none := by
    have hnone := hkept.adapter
    rw [hadapter] at hnone
    exact Option.isNone_iff_eq_none.mp (by simpa using hnone)
  refine (construct_ensures hsteady _).bind ?_ ?_
  · intro built h₁ hbuilt
    obtain ⟨adapter, client⟩ := built
    obtain ⟨rfl, rfl⟩ := hbuilt
    refine fields_ensures ?_
    have hheld : Kept ⟨⟨{ h.fields.runtime with adapter := some adapter }, h.fields.tlsCa, h.fields.caDirectory,
        some h.clients.length⟩, h.clients ++ [false], h.directories⟩ := by
      refine ⟨fun i hi => ?_, hkept.directories, rfl⟩
      obtain hold | rfl := append_eq_false hi
      · cases hclient.symm.trans (hkept.clients i hold)
      · rfl
    intro answer h₂ hanswer
    obtain rfl := hanswer
    refine ⟨trivial, ?_⟩
    cases answer with
    | error error => exact ⟨hheld, fun _ h => by cases h⟩
    | ok report =>
      show Prog.Ensures _ _ (if _ then _ else _) _ _
      split
      · exact ⟨hheld, fun _ h => by cases h⟩
      · refine step_then (fields_ensures ?_) fun _ _ => ⟨hheld, fun _ h => by cases h⟩
        exact ⟨⟨hheld.clients, hheld.directories, hheld.adapter⟩, fun _ _ => rfl⟩
  · intro error h₁ hsame
    obtain rfl : h₁ = h := hsame
    exact ⟨hkept, fun _ h => by cases h⟩

/-- Whether the block returns or raises, what is held is what the fields name. -/
theorem openTry_ensures (hsteady : ∀ step, faulty step → step.constructing = false) (hsettled : h.Settled)
    (hadapter : h.fields.runtime.adapter = none) (before : RuntimeFields) :
    (LifeAction.openTry before).Ensures (env faulty) (fun _ _ => True) h fun outcome h' =>
      h'.Kept ∧ ∀ value, outcome = .ok value → h'.fields.runtime.adapter.isSome = true := by
  obtain ⟨hreleased, -⟩ := hsettled.closed hadapter
  unfold LifeAction.openTry
  split
  · refine (provideCa_ensures hsettled.toKept hreleased.directories).bind ?_ ?_
    · intro _ h₁ hcreated
      obtain ⟨hkept, hsame⟩ := hcreated
      exact openAdapter_ensures hsteady hkept (by rw [hsame, hadapter]) before
    · intro error h₁ hcreated
      exact ⟨hcreated.1, fun _ h => by cases h⟩
  · exact openAdapter_ensures hsteady hsettled.toKept hadapter before

/-- An `open` that raises has released everything. -/
theorem open_ensures (hsteady : ∀ step, faulty step → step.constructing = false) (hsettled : h.Settled) :
    LifeAction.open.Ensures (env faulty) (fun _ _ => True) h fun outcome h' =>
      h'.Settled ∧ ∀ error, outcome = .error error → h'.Released := by
  refine fields_ensures ?_
  split
  · exact ⟨hsettled, fun _ h => by cases h⟩
  · rename_i hclosed
    have hadapter : h.fields.runtime.adapter = none := by simpa using hclosed
    refine (openTry_ensures hsteady hsettled hadapter _).handle fun outcome h₁ hblock => ?_
    cases outcome with
    | ok value =>
      refine ⟨⟨hblock.1, fun hnone => ?_⟩, fun _ h => by cases h⟩
      have hsome := hblock.2 value rfl
      rw [hnone] at hsome
      cases hsome
    | error error =>
      refine (close_ensures hblock.1).bind ?_ ?_
      · intro _ h₂ hdone
        exact ⟨hdone.1, fun _ _ => hdone.2⟩
      · intro _ h₂ hdone
        exact ⟨hdone.1, fun _ _ => hdone.2⟩

end Opening

/-! ## The fields as a runtime -/

section Refinement

variable {faulty : OpenStep → Prop} {h : Holdings}

/-- `close` is the close of the runtime, with what closing its adapter gave. -/
theorem close_refines (hclient : h.fields.client.isSome = h.fields.runtime.adapter.isSome) :
    LifeAction.close.Ensures (env faulty) (fun _ _ => True) h fun outcome h' =>
      h'.fields.client.isSome = h'.fields.runtime.adapter.isSome ∧
        ∃ released, h.fields.runtime.close released = (outcome, h'.fields.runtime) := by
  have hreset : ∀ released, (h.fields.client = none → released = .ok ()) →
      h.fields.runtime.close released = (released, h.fields.runtime.reset) := by
    intro released hnone
    unfold Runtime.close
    cases hadapter : h.fields.runtime.adapter with
    | some adapter => rfl
    | none =>
      rw [hadapter] at hclient
      rw [hnone (Option.isNone_iff_eq_none.mp (by simpa using hclient))]
  unfold LifeAction.close
  refine fields_ensures ?_
  refine Prog.Ensures.finally_ (R := fun outcome h₁ => (h.fields.client = none → outcome = .ok ()) ∧
    h₁.fields.client = none ∧ h₁.fields.runtime = h.fields.runtime.reset) ?_ ?_
  · cases hfound : h.fields.client with
    | none => exact ⟨fun _ => rfl, rfl, rfl⟩
    | some client =>
      intro answer h₁ hanswer
      obtain rfl := hanswer
      exact ⟨trivial, Prog.ensures_ofExcept.mpr ⟨fun hnone => (by cases hnone), rfl, rfl⟩⟩
  · intro outcome h₁ hfirst
    obtain ⟨hnone, hclient₁, hruntime⟩ := hfirst
    have hclosed : h₁.fields.client.isSome = h₁.fields.runtime.adapter.isSome := by
      rw [hclient₁, hruntime]
      rfl
    have hclose : h.fields.runtime.close outcome = (outcome, h₁.fields.runtime) := by
      rw [hreset outcome hnone, hruntime]
    refine fields_ensures ?_
    cases h₁.fields.caDirectory with
    | none => exact ⟨hclosed, outcome, hclose⟩
    | some directory =>
      intro answer h₂ hanswer
      obtain ⟨rfl, rfl⟩ := hanswer
      exact ⟨trivial, fields_ensures ⟨hclosed, outcome, hclose⟩⟩

theorem provideCa_fields :
    LifeAction.provideCa.Ensures (env faulty) (fun _ _ => True) h fun _ h' =>
      h'.fields.runtime = h.fields.runtime ∧ h'.fields.client = h.fields.client := by
  intro answer h₁ hanswer
  refine ⟨trivial, ?_⟩
  obtain ⟨rfl, rfl⟩ | ⟨⟨error, rfl⟩, rfl⟩ := hanswer
  · refine fields_ensures ?_
    refine step_then ?_ fun _ _ => ⟨rfl, rfl⟩
    refine step_then ?_ fun _ _ => ⟨rfl, rfl⟩
    refine (step_ensures _).mono fun _ h' hsame => ?_
    rw [hsame.1]
    exact ⟨rfl, rfl⟩
  · exact ⟨rfl, rfl⟩

/-- The constructor does not touch the fields. -/
theorem construct_fields (binding : OciDistributionBinding) :
    (LifeAction.construct binding).Ensures (env faulty) (fun _ _ => True) h fun _ h' => h'.fields = h.fields := by
  intro answer h₁ hanswer
  refine ⟨trivial, ?_⟩
  obtain ⟨rfl, rfl⟩ | ⟨⟨error, rfl⟩, rfl⟩ := hanswer
  · refine step_then ?_ fun _ _ => rfl
    refine step_then ?_ fun _ _ => rfl
    refine step_then ?_ fun _ _ => rfl
    refine step_then ?_ fun _ _ => rfl
    rfl
  · rfl

/-- What the block may have set when it ends: the adapter with its client, and the probe of a passed report. -/
def Opened (runtime : Runtime) (outcome : Except Err Unit) (h' : Holdings) : Prop :=
  h'.fields.client.isSome = h'.fields.runtime.adapter.isSome ∧
    match outcome with
    | .ok _ => ∃ (adapter : OciDistributionAdapter) (report : ProbeReport), report.passed = true ∧
        h'.fields.runtime =
          { runtime with adapter := some adapter, probe := some ⟨report.manifest, report.apiVersion⟩ }
    | .error _ => h'.fields.runtime.reset = runtime.reset

theorem openAdapter_fields (hclient : h.fields.client.isSome = h.fields.runtime.adapter.isSome)
    (before : RuntimeFields) :
    (LifeAction.openAdapter before).Ensures (env faulty) (fun _ _ => True) h (Opened h.fields.runtime) := by
  refine (construct_fields _).bind ?_ ?_
  · intro built h₁ hsame
    refine fields_ensures ?_
    intro answer h₂ hanswer
    obtain rfl := hanswer
    refine ⟨trivial, ?_⟩
    rw [hsame]
    cases answer with
    | error error => exact ⟨rfl, rfl⟩
    | ok report =>
      show Prog.Ensures _ _ (if _ then _ else _) _ _
      split
      · exact ⟨rfl, rfl⟩
      · rename_i hpassed
        refine step_then (fields_ensures ?_) fun _ _ => ⟨rfl, rfl⟩
        exact ⟨rfl, built.1, report, by simpa using hpassed, rfl⟩
  · intro error h₁ hsame
    show _ ∧ _
    rw [hsame]
    exact ⟨hclient, rfl⟩

theorem openTry_fields (hclient : h.fields.client.isSome = h.fields.runtime.adapter.isSome)
    (before : RuntimeFields) :
    (LifeAction.openTry before).Ensures (env faulty) (fun _ _ => True) h (Opened h.fields.runtime) := by
  unfold LifeAction.openTry
  split
  · refine provideCa_fields.bind ?_ ?_
    · intro _ h₁ hcreated
      obtain ⟨hruntime, hsame⟩ := hcreated
      rw [← hruntime]
      refine openAdapter_fields ?_ before
      rw [hruntime, hsame]
      exact hclient
    · intro error h₁ hcreated
      obtain ⟨hruntime, hsame⟩ := hcreated
      show _ ∧ _
      rw [hruntime, hsame]
      exact ⟨hclient, rfl⟩
  · exact openAdapter_fields hclient before

/-- `open` is the open of the runtime, with what the block gave. -/
theorem open_refines (hclient : h.fields.client.isSome = h.fields.runtime.adapter.isSome) :
    LifeAction.open.Ensures (env faulty) (fun _ _ => True) h fun outcome h' =>
      h'.fields.client.isSome = h'.fields.runtime.adapter.isSome ∧
        ∃ startup, h.fields.runtime.open startup = (outcome, h'.fields.runtime) := by
  refine fields_ensures ?_
  split
  · rename_i hsome
    obtain ⟨adapter, hadapter⟩ := Option.isSome_iff_exists.mp hsome
    refine ⟨hclient, .error (.of .objectUnavailable ""), ?_⟩
    show h.fields.runtime.open _ = (.ok (), h.fields.runtime)
    simp only [Runtime.open, hadapter]
  · rename_i hclosed
    have hnone : h.fields.runtime.adapter = none := by simpa using hclosed
    refine (openTry_fields hclient _).handle fun outcome h₁ hblock => ?_
    obtain ⟨hsome, hblock⟩ := hblock
    cases outcome with
    | ok _ =>
      obtain ⟨adapter, report, hpassed, hruntime⟩ := hblock
      refine ⟨hsome, .ok (adapter, .ok report), ?_⟩
      simp only [Runtime.open, hnone, hpassed, if_true]
      exact congrArg (Prod.mk _) hruntime.symm
    | error error =>
      -- whatever closing raises replaces the exception of the block
      have hlast : ∀ {last : Err} {h₂ : Holdings} {released : Except Err Unit} {outcome : Except Err Unit},
          h₁.fields.runtime.close released = (outcome, h₂.fields.runtime) →
          h.fields.runtime.open (.error last) = (.error last, h₂.fields.runtime) := by
        intro last h₂ released outcome hclose
        have hreset : h₂.fields.runtime = h₁.fields.runtime.reset := by
          have hsecond := congrArg Prod.snd hclose
          unfold Runtime.close at hsecond
          split at hsecond <;> exact hsecond.symm
        rw [hreset, hblock]
        simp only [Runtime.open, hnone]
      refine (close_refines hsome).bind ?_ ?_
      · intro _ h₂ hdone
        obtain ⟨hclosed, released, hclose⟩ := hdone
        exact ⟨hclosed, .error error, hlast hclose⟩
      · intro last h₂ hdone
        obtain ⟨hclosed, released, hclose⟩ := hdone
        exact ⟨hclosed, .error last, hlast hclose⟩

end Refinement

/-! ## Runs -/

/-- The calls that change the fields of a runtime. -/
inductive LifeCall where
  | «open»
  | close
  | verifyPhysical (sha256Fingerprint : JsonObject → String) (resources : List PhysicalResource)
    (contact : Except Err Unit)

def LifeCall.program : LifeCall → LifeAction Unit
  | .open => LifeAction.open
  | .close => LifeAction.close
  | .verifyPhysical sha256Fingerprint resources contact => do
    let before ← LifeAction.fields fun fields =>
      { fields with runtime := (fields.runtime.verifyPhysical sha256Fingerprint resources contact).2 }
    Prog.ofExcept ((before.runtime.verifyPhysical sha256Fingerprint resources contact).1.map fun _ => ())

/-- What a finished call leaves. -/
structure Tidy (event : Event LifeCall Err Unit Holdings) : Prop where
  raised : event.call = .open → ∀ error, event.outcome = .error error → event.after.Released
  closed : event.call = .close → event.after.Released
  single : event.after.Single

theorem settled_create (binding : OciDistributionBinding) (repository : String) (tlsCa : Option Bytes) :
    (create binding repository tlsCa).Settled := by
  have hnone : ∀ i : Nat, ([] : List Bool)[i]? ≠ some false := fun i hi => by cases hi
  refine ⟨⟨fun i hi => absurd hi (hnone i), fun i hi => absurd hi (hnone i), rfl⟩, fun _ => ?_⟩
  exact ⟨⟨rfl, rfl, rfl, hnone, hnone⟩, rfl⟩

/-- A verification changes a flag of an open runtime, and of another one nothing. -/
theorem verifyPhysical_fields (runtime : Runtime) (sha256Fingerprint : JsonObject → String)
    (resources : List PhysicalResource) (contact : Except Err Unit) :
    (runtime.verifyPhysical sha256Fingerprint resources contact).2.adapter = runtime.adapter ∧
      (runtime.adapter = none → (runtime.verifyPhysical sha256Fingerprint resources contact).2 = runtime) := by
  cases hadapter : runtime.adapter with
  | none =>
    have hsame : (runtime.verifyPhysical sha256Fingerprint resources contact).2 = runtime := by
      simp only [Runtime.verifyPhysical, Runtime.requireOpen, hadapter]
    exact ⟨by rw [hsame, hadapter], fun _ => hsame⟩
  | some adapter =>
    refine ⟨?_, fun h => by cases h⟩
    unfold Runtime.verifyPhysical
    split
    · exact hadapter
    · split
      · split
        · exact hadapter
        · split <;> exact hadapter
      · exact hadapter

/-- In every run whose constructor steps never raise, `close` and an `open` that raises leave nothing
behind, and no call leaves more than one client or directory. -/
theorem lifetime {faulty : OpenStep → Prop} (hsteady : ∀ step, faulty step → step.constructing = false)
    {binding : OciDistributionBinding} {repository : String} {tlsCa : Option Bytes}
    {config : Config LifeOp LifeOp.Res Err Unit Holdings LifeCall}
    (h : Reachable (env faulty) LifeCall.program (create binding repository tlsCa) config) :
    ∀ event ∈ config.history, Tidy event := by
  have hholds : config.Holds (env faulty) (fun _ _ => True) fun s history =>
      s.Settled ∧ ∀ event ∈ history, Tidy event := by
    refine h.holds ⟨settled_create binding repository tlsCa, fun _ hmem => by cases hmem⟩ ?_
    intro s history call hinv
    obtain ⟨hsettled, htidy⟩ := hinv
    have hsnoc : ∀ last : Event LifeCall Err Unit Holdings, Tidy last →
        ∀ event ∈ history ++ [last], Tidy event := by
      intro last hlast event hmem
      rcases List.mem_append.mp hmem with hold | hnew
      · exact htidy event hold
      · rw [List.mem_singleton.mp hnew]
        exact hlast
    cases call with
    | «open» =>
      refine (open_ensures hsteady hsettled).mono fun outcome s' hdone => ?_
      exact ⟨hdone.1, hsnoc _ ⟨fun _ => hdone.2, (fun h => by cases h), hdone.1.toKept.single⟩⟩
    | close =>
      refine (close_ensures hsettled.toKept).mono fun outcome s' hdone => ?_
      exact ⟨hdone.1, hsnoc _ ⟨(fun h => by cases h), fun _ => hdone.2, hdone.1.toKept.single⟩⟩
    | verifyPhysical sha256Fingerprint resources contact =>
      obtain ⟨hadapter, hsame⟩ := verifyPhysical_fields s.fields.runtime sha256Fingerprint resources contact
      refine fields_ensures (Prog.ensures_ofExcept.mpr ?_)
      have hafter : Settled { s with fields := { s.fields with
          runtime := (s.fields.runtime.verifyPhysical sha256Fingerprint resources contact).2 } } := by
        refine ⟨⟨hsettled.clients, hsettled.directories, ?_⟩, fun hnone => ?_⟩
        · rw [hadapter]
          exact hsettled.adapter
        · have hbefore : s.fields.runtime.adapter = none := hadapter.symm.trans hnone
          rw [hsame hbefore]
          exact hsettled.closed hbefore
      exact ⟨hafter, hsnoc _ ⟨(fun h => by cases h), (fun h => by cases h), hafter.toKept.single⟩⟩
  obtain ⟨s, phase, history⟩ := config
  cases phase with
  | idle => exact hholds.2
  | running call start rest => exact hholds.1.2

/-! ## The runtime of a run -/

section Played

variable {faulty : OpenStep → Prop} {sha256Fingerprint : JsonObject → String}

/-- The call on the runtime alone, with what the file system and the registry gave. -/
def LifeCall.Shows (sha256Fingerprint : JsonObject → String) : LifeCall → HostCall → Prop
  | .open, .open _ => True
  | .close, .close _ => True
  | .verifyPhysical fingerprint resources contact, .verifyPhysical shown given =>
    fingerprint = sha256Fingerprint ∧ shown = resources ∧ given = contact
  | _, _ => False

/-- If it verifies, a call computes its fingerprints with the function. -/
def LifeCall.Prints (sha256Fingerprint : JsonObject → String) (call : LifeCall) : Prop :=
  ∀ fingerprint resources contact, call = .verifyPhysical fingerprint resources contact → fingerprint = sha256Fingerprint

/-- What a call leaves of the runtime is what the call on the runtime alone leaves. -/
theorem call_shows {h : Holdings} (hclient : h.fields.client.isSome = h.fields.runtime.adapter.isSome) (call : LifeCall) :
    call.program.Ensures (env faulty) (fun _ _ => True) h fun outcome h' =>
      h'.fields.client.isSome = h'.fields.runtime.adapter.isSome ∧ (call.Prints sha256Fingerprint →
        ∃ shown, call.Shows sha256Fingerprint shown ∧ (⟨h.fields.runtime, []⟩ : Host).Accepts shown ∧
          (⟨h.fields.runtime, []⟩ : Host).next sha256Fingerprint shown = ⟨h'.fields.runtime, []⟩ ∧
          (⟨h.fields.runtime, []⟩ : Host).passes sha256Fingerprint shown = outcome.isOk) := by
  cases call with
  | «open» =>
    refine (open_refines hclient).mono fun outcome h' hdone => ?_
    obtain ⟨hopened, startup, heq⟩ := hdone
    refine ⟨hopened, fun _ => ⟨.open startup, trivial, trivial, ?_, ?_⟩⟩
    · rw [Host.next, heq]
    · rw [Host.passes, heq]
  | close =>
    refine (close_refines hclient).mono fun outcome h' hdone => ?_
    obtain ⟨hclosed, released, heq⟩ := hdone
    refine ⟨hclosed, fun _ => ⟨.close released, trivial, trivial, ?_, ?_⟩⟩
    · rw [Host.next, heq]
    · rw [Host.passes, heq]
  | verifyPhysical fingerprint resources contact =>
    obtain ⟨hadapter, -⟩ := verifyPhysical_fields h.fields.runtime fingerprint resources contact
    refine fields_ensures (Prog.ensures_ofExcept.mpr ⟨?_, fun hprints => ?_⟩)
    · exact hclient.trans (congrArg Option.isSome hadapter.symm)
    · obtain rfl := hprints fingerprint resources contact rfl
      refine ⟨.verifyPhysical resources contact, ⟨rfl, rfl, rfl⟩, trivial, rfl, ?_⟩
      rw [Host.passes]
      cases (h.fields.runtime.verifyPhysical fingerprint resources contact).1 <;> rfl

/-- A finished call and the one on the runtime alone. -/
def Mirrors (sha256Fingerprint : JsonObject → String) (event : Event LifeCall Err Unit Holdings) (shown : HostEvent) :
    Prop :=
  event.call.Shows sha256Fingerprint shown.call ∧ shown.passed = event.outcome.isOk

/-- Every run of what a runtime holds, whatever raises in it, is a run of the runtime alone: between two calls
the runtime is what its own history makes of it. -/
theorem lifetime_played {binding : OciDistributionBinding} {repository : String} {tlsCa : Option Bytes}
    {config : Config LifeOp LifeOp.Res Err Unit Holdings LifeCall}
    (h : Reachable (env faulty) LifeCall.program (create binding repository tlsCa) config)
    (hprints : ∀ event ∈ config.history, event.call.Prints sha256Fingerprint) (hidle : config.phase = .idle) :
    ∃ events, List.Forall₂ (Mirrors sha256Fingerprint) config.history events ∧
      Played sha256Fingerprint binding repository events ⟨config.state.fields.runtime, []⟩ ∧
      Traced events ⟨config.state.fields.runtime, []⟩ := by
  let I : Holdings → List (Event LifeCall Err Unit Holdings) → Prop := fun s history =>
    s.fields.client.isSome = s.fields.runtime.adapter.isSome ∧
      ((∀ event ∈ history, event.call.Prints sha256Fingerprint) → ∃ events,
        List.Forall₂ (Mirrors sha256Fingerprint) history events ∧
        Played sha256Fingerprint binding repository events ⟨s.fields.runtime, []⟩)
  have hholds : config.Holds (env faulty) (fun _ _ => True) I := by
    refine h.holds ⟨rfl, fun _ => ⟨[], .nil, .create⟩⟩ fun s history call hinv => ?_
    obtain ⟨hclient, hplays⟩ := hinv
    have hcall := @call_shows faulty sha256Fingerprint s hclient call
    refine hcall.mono fun outcome s' hdone => ⟨hdone.1, fun hprinted => ?_⟩
    obtain ⟨events, hshows, hplayed⟩ := hplays fun event hmem => hprinted event (List.mem_append_left _ hmem)
    obtain ⟨shown, hshown, haccepts, hnext, hpasses⟩ := hdone.2 (hprinted _ (List.mem_append_right _ List.mem_cons_self))
    have hlast := Played.call events _ shown hplayed haccepts
    rw [hnext] at hlast
    exact ⟨_, List.rel_append hshows (.cons ⟨hshown, hpasses⟩ .nil), hlast⟩
  obtain ⟨s, phase, history⟩ := config
  obtain rfl : phase = .idle := hidle
  obtain ⟨events, hshows, hplayed⟩ := hholds.2 hprints
  exact ⟨events, hshows, hplayed, hplayed.traced⟩

end Played

/-! ## A constructor that raises -/

namespace Sample

/-- Outside where one step raises and the registry cannot be reached. -/
def outside (broken : Option OpenStep) : (op : LifeOp) → Holdings → Except Err op.Res × Holdings
  | .temporaryDirectory, h => (.ok h.directories.length, { h with directories := h.directories ++ [false] })
  | .httpClient, h => (.ok h.clients.length, { h with clients := h.clients ++ [false] })
  | .step step, h => (if broken = some step then .error (.of .other "MemoryError") else .ok (), h)
  | .authenticated, h => (.error (.of .objectUnavailable "OCI registry is unavailable"), h)
  | .closeClient client, h => (.ok (), { h with clients := h.clients.set client true })
  | .cleanup directory, h => (.ok (), { h with directories := h.directories.set directory true })
  | .fields update, h => (.ok h.fields, { h with fields := update h.fields })

theorem outside_env {faulty : OpenStep → Prop} {broken : Option OpenStep}
    (hfaulty : ∀ step, broken = some step → faulty step) (op : LifeOp) (h : Holdings) (answer : Except Err op.Res)
    (h' : Holdings) (hanswer : Environment.ofFunction (outside broken) op h answer h') :
    env faulty op h answer h' := by
  obtain ⟨rfl, rfl⟩ := Prod.mk.inj (show (_, _) = (answer, h') from hanswer)
  cases op with
  | temporaryDirectory => exact .inl ⟨rfl, rfl⟩
  | httpClient => exact .inl ⟨rfl, rfl⟩
  | step step =>
    refine ⟨?_, rfl⟩
    by_cases hbroken : broken = some step
    · exact .inr ⟨hfaulty step hbroken, _, if_pos hbroken⟩
    · exact .inl (if_neg hbroken)
  | authenticated => rfl
  | closeClient client => rfl
  | cleanup directory => exact ⟨rfl, rfl⟩
  | fields update => exact ⟨rfl, rfl⟩

/-- A runtime with a CA. -/
def start : Holdings := create (Sample.binding 0) "r" (some [])

/-- One `open` from there. -/
def after (broken : Option OpenStep) : Except Err Unit × Holdings :=
  LifeAction.open.run (outside broken) start

theorem after_reachable {faulty : OpenStep → Prop} (broken : Option OpenStep)
    (hfaulty : ∀ step, broken = some step → faulty step) :
    Reachable (env faulty) LifeCall.program start
      ⟨(after broken).2, .idle, [⟨.open, (after broken).1, start, (after broken).2⟩]⟩ :=
  Reachable.performs .refl ((Performs.run LifeAction.open start).mono (outside_env hfaulty))

/-- A constructor step that raises leaves the client that the constructor has created, and `close` does not
find it. -/
theorem constructor_leaks :
    Reachable (env fun _ => True) LifeCall.program start
      ⟨(after (some .configuredCapabilityManifest)).2, .idle, [⟨.open, .error (.of .other "MemoryError"), start,
        (after (some .configuredCapabilityManifest)).2⟩]⟩ ∧
    (after (some .configuredCapabilityManifest)).2.clients = [false] ∧
    ¬Tidy ⟨.open, .error (.of .other "MemoryError"), start, (after (some .configuredCapabilityManifest)).2⟩ := by
  refine ⟨after_reachable (some .configuredCapabilityManifest) fun _ _ => trivial, rfl, fun htidy => ?_⟩
  exact (htidy.raised rfl _ rfl).clients 0 rfl

/-- A startup probe that raises leaves nothing behind. -/
theorem lifetime_probe :
    (after none).1 = .error (.of .objectUnavailable "OCI registry is unavailable") ∧
      (after none).2.clients = [true] ∧ (after none).2.directories = [true] ∧
      Tidy ⟨.open, (after none).1, start, (after none).2⟩ :=
  ⟨rfl, rfl, rfl, lifetime (fun step (hsteady : step.constructing = false) => hsteady)
    (after_reachable none fun _ hbroken => by cases hbroken) _ (List.mem_singleton.mpr rfl)⟩

end Sample

end Holdings

end MeridianOci.Service
