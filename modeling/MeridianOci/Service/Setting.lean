import MeridianOci.Effect.System
import MeridianOci.Model.Multipart
import MeridianOci.Service.Registry

/-!
# One adapter over a conforming registry

The world of one adapter (registry, process memory, clock, registered payloads), the
environment that answers its operations, and its calls. With faults, any send may fail
before or after the registry carried it out; without, every send gets its one answer.
-/
namespace MeridianOci.Service

open MeridianOci.Data MeridianOci.Effect MeridianOci.Model

set_option autoImplicit false

variable {P : Platform}

structure World {binding : OciDistributionBinding} (policy : Policy P binding) where
  registry : Registry policy
  memory : Memory
  now : DateTime
  payloads : List (String × RegistryBlobSource)

/-- A repository, a process and a payload table without content. -/
def World.empty {binding : OciDistributionBinding} (policy : Policy P binding) (now : DateTime) :
    World policy :=
  ⟨.empty policy, ⟨[], []⟩, now, []⟩

/-- A send that did not get the registry's answer: an exception, an error status other
than a truthful 404, or a body that breaks off. -/
def Failure : Except Err Response → Prop
  | .error _ => True
  | .ok response => response.failure.isSome ∨ (400 ≤ response.status ∧ response.status ≠ 404)

/-- What is left open about a run: the registry's policy, what payloads deliver, how the
clock moves, and whether sends may fail. -/
structure Setting (P : Platform) (binding : OciDistributionBinding) where
  policy : Policy P binding
  streams : PayloadReference → Nat → Except Err Stream → Prop
  tick : DateTime → DateTime → Prop
  faults : Prop

variable {binding : OciDistributionBinding}

/-- The registry's reply to a request in a world. -/
def World.reply {policy : Policy P binding} (w : World policy) (request : Request) : Reply :=
  (respond w.registry request).1

/-- The world after the registry carried out a request. -/
def World.apply {policy : Policy P binding} (w : World policy) (request : Request) : World policy :=
  { w with registry := (respond w.registry request).2 }

namespace Setting

variable (setting : Setting P binding)

def env : Environment Op Op.Res Err (World setting.policy)
  | .send request, w, answer, w' =>
    (answer = .ok (deliver setting.policy request (w.reply request)) ∧ w' = w.apply request) ∨
      (setting.faults ∧ Failure answer ∧ (w' = w ∨ w' = w.apply request))
  | .authorize, w, answer, w' => (answer = .ok () ∨ (setting.faults ∧ ∃ error, answer = .error error)) ∧ w' = w
  | .openPayload payload chunkSize, w, answer, w' => setting.streams payload chunkSize answer ∧ w' = w
  | .register source expectedLength expectedDigest, w, answer, w' =>
    ∃ id, answer = .ok ⟨id, true, expectedDigest, some expectedLength⟩ ∧
      w' = { w with payloads := (id, source) :: w.payloads }
  | .clock, w, answer, w' =>
    (∃ now, setting.tick w.now now ∧ answer = .ok now ∧ w' = { w with now }) ∨
      (setting.faults ∧ (∃ error, answer = .error error) ∧ w' = w)
  | .token, w, answer, w' =>
    ((∃ token, answer = .ok token) ∨ (setting.faults ∧ ∃ error, answer = .error error)) ∧ w' = w
  | .acquire, w, answer, w' => answer = .ok () ∧ w' = w
  | .release, w, answer, w' => answer = .ok () ∧ w' = w
  | .memory update, w, answer, w' =>
    answer = .ok w.memory ∧ w' = { w with memory := update w.memory }

/-- The same setting in which every send gets its answer. -/
def faultless : Setting P binding := { setting with faults := False }

variable {setting}

/-- What happens without faults may happen with them. -/
theorem env_faultless {op : Op} {w w' : World setting.policy} {answer : Except Err op.Res}
    (h : setting.faultless.env op w answer w') : setting.env op w answer w' := by
  cases op with
  | send request => exact h.imp_right fun hfault => hfault.1.elim
  | authorize => exact ⟨h.1.imp_right fun hfault => hfault.1.elim, h.2⟩
  | clock => exact h.imp_right fun hfault => hfault.1.elim
  | token => exact ⟨h.1.imp_right fun hfault => hfault.1.elim, h.2⟩
  | _ => exact h

end Setting

/-! ## Calls -/

inductive Call where
  | execute (operation : Operation)
  | beginMultipart (operation : Operation)
  | uploadPart (session : MultipartSession) (partNumber : Nat) (payload : PayloadReference)
  | completeMultipart (session : MultipartSession) (parts : List MultipartPart)
  | abortMultipart (session : MultipartSession)

inductive Answer where
  | result (result : Result)
  | session (session : MultipartSession)
  | part (part : MultipartPart)
  | metadata (metadata : ObjectMetadata)
  | done

/-- The public methods of the adapter. -/
def Call.program (P : Platform) (adapter : OciDistributionAdapter) : Call → Action Answer
  | .execute operation => do return .result (← adapter.execute P operation)
  | .beginMultipart operation => do return .session (← adapter.beginMultipart P operation)
  | .uploadPart session partNumber payload => do
    return .part (← adapter.uploadPart P session partNumber payload)
  | .completeMultipart session parts => do
    return .metadata (← adapter.completeMultipart P session parts)
  | .abortMultipart session => do
    adapter.abortMultipart P session
    return .done

end MeridianOci.Service
