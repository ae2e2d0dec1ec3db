import MeridianOci.Effect.Turns
import MeridianOci.Service.Composed

/-!
# Several processes on one repository

Calls of one or more adapters share a repository; each runs in a process, and processes
share nothing else. The registry may protect its tags: a manifest PUT that would point a
tag somewhere else is then refused with status 409 and changes nothing.
-/
namespace MeridianOci.Service

open MeridianOci.Data MeridianOci.Effect MeridianOci.Model

set_option autoImplicit false

variable {P : Platform} {binding : OciDistributionBinding}

/-- What belongs to one process of an adapter. -/
structure Process where
  memory : Memory
  now : DateTime
  payloads : List (String × RegistryBlobSource)

/-- A repository and the processes that use it. -/
structure Site (policy : Policy P binding) (κ : Type) where
  registry : Registry policy
  process : κ → Process

/-- The world of one process. -/
def Site.world {policy : Policy P binding} {κ : Type} (site : Site policy κ) (home : κ) : World policy :=
  ⟨site.registry, (site.process home).memory, (site.process home).now, (site.process home).payloads⟩

/-- An operation in one process leaves the others alone. -/
def Site.env {policy : Policy P binding} {κ : Type} (env : Environment Op Op.Res Err (World policy)) (home : κ) :
    Environment Op Op.Res Err (Site policy κ) := fun op site answer site' =>
  env op (site.world home) answer (site'.world home) ∧ ∀ other, other ≠ home → site'.process other = site.process other

/-- An adapter on the repository that a binding names, with limits and retries of its own. -/
structure Peer (binding : OciDistributionBinding) where
  own : OciDistributionBinding
  maxReadAttempts : Nat
  maxReadAttempts_pos : 1 ≤ maxReadAttempts

abbrev Peer.adapter (peer : Peer binding) : OciDistributionAdapter :=
  ⟨peer.own, ⟨binding, peer.maxReadAttempts, peer.maxReadAttempts_pos⟩⟩

/-! ## Protected tags -/

/-- A manifest PUT that would point an existing tag at another manifest. -/
def Registry.Repoints {policy : Policy P binding} (registry : Registry policy) (request : Request) : Prop :=
  ∃ tag body digest, request = .putManifest tag body ∧ registry.tags[tag]? = some digest ∧
    digest ≠ sha256Digest P body

def ErrorKind.IsConflict (kind : ErrorKind) : Prop := kind = .conditionalConflict ∨ kind = .immutableObjectConflict

instance (kind : ErrorKind) : Decidable (ErrorKind.IsConflict kind) := inferInstanceAs (Decidable (_ ∨ _))

/-- The answer says that the request was refused. -/
def Conflicts : Except Err Response → Prop
  | .error _ => False
  | .ok response => response.status = 409

/-- No exception on the way of an answer looks like a refusal. -/
def Credible : Except Err Response → Prop
  | .error error => ¬ErrorKind.IsConflict error.kind
  | .ok response => ∀ failure, response.failure = some failure → ¬ErrorKind.IsConflict failure.kind

/-- A send to a registry that may refuse to move tags, and does so if tags are protected. -/
inductive Served (setting : Setting P binding) (tagsProtected : Prop) (request : Request) (w : World setting.policy) :
    Except Err Response → World setting.policy → Prop where
  | answered : (tagsProtected → ¬w.registry.Repoints request) →
      Served setting tagsProtected request w (.ok (deliver setting.policy request (w.reply request))) (w.apply request)
  | refused (answer) : w.registry.Repoints request → Conflicts answer → Credible answer →
      Served setting tagsProtected request w answer w
  | lost (answer) : setting.faults → Failure answer → ¬Conflicts answer → Credible answer →
      Served setting tagsProtected request w answer w
  | lostAfter (answer) : setting.faults → Failure answer → ¬Conflicts answer → Credible answer →
      (tagsProtected → ¬w.registry.Repoints request) → Served setting tagsProtected request w answer (w.apply request)

/-- A process whose registry may refuse to move tags. -/
def Setting.guarded (setting : Setting P binding) (tagsProtected : Prop) :
    Environment Op Op.Res Err (World setting.policy)
  | .send request, w, answer, w' => Served setting tagsProtected request w answer w'
  | op, w, answer, w' => setting.env op w answer w'

/-- The registry is the only thing that others change. -/
def World.Apart {policy : Policy P binding} (w w' : World policy) : Prop :=
  w'.memory = w.memory ∧ w'.now = w.now ∧ w'.payloads = w.payloads

theorem World.Apart.refl {policy : Policy P binding} (w : World policy) : w.Apart w := ⟨rfl, rfl, rfl⟩

theorem World.Apart.trans {policy : Policy P binding} {w w' w'' : World policy} (h : w.Apart w') (h' : w'.Apart w'') :
    w.Apart w'' := ⟨h'.1.trans h.1, h'.2.1.trans h.2.1, h'.2.2.trans h.2.2⟩

/-- What happens in another process leaves this one alone. -/
theorem Site.apart {policy : Policy P binding} {κ : Type} {env : Environment Op Op.Res Err (World policy)}
    {home other : κ} {op : Op} {site site' : Site policy κ} {answer : Except Err op.Res}
    (h : Site.env env other op site answer site') (hne : home ≠ other) :
    (site.world home).Apart (site'.world home) := by
  have hsame := h.2 home hne
  unfold World.Apart Site.world
  rw [hsame]
  exact ⟨rfl, rfl, rfl⟩

end MeridianOci.Service
