import MeridianOci.Effect.Prog
import MeridianOci.Model.Runtime

/-!
# What a runtime holds

`_Runtime.open` and `_Runtime.close` with the resources they acquire: the directory of the CA file
and the HTTP client. The client exists from the middle of the adapter's constructor on, and the
runtime knows of it once the constructor has returned.
-/
namespace MeridianOci.Model

open MeridianOci.Data MeridianOci.Effect

set_option autoImplicit false

/-- The steps inside `open` that may raise and acquire nothing. -/
inductive OpenStep where
  | touch
  | writeBytes
  | replaceBinding
  | configuredCapabilityManifest
  | cursorCodec
  | writeLock
  | multipartManager
  | adapterProbe
  deriving DecidableEq, Repr

/-- The steps of the adapter's constructor that come after its client was created. -/
def OpenStep.constructing : OpenStep → Bool
  | .configuredCapabilityManifest | .cursorCodec | .writeLock | .multipartManager => true
  | _ => false

/-- `_Runtime` with its resources; `client` is the one of the adapter's transport. -/
structure RuntimeFields where
  runtime : Runtime
  tlsCa : Option Bytes
  caDirectory : Option Nat
  client : Option Nat

inductive LifeOp where
  /-- `tempfile.TemporaryDirectory(...)`. -/
  | temporaryDirectory
  /-- `httpx.Client(...)`. -/
  | httpClient
  | step (step : OpenStep)
  /-- The startup probe. -/
  | authenticated
  | closeClient (client : Nat)
  | cleanup (directory : Nat)
  /-- An assignment to the fields; the answer is what they were before. -/
  | fields (update : RuntimeFields → RuntimeFields)

@[reducible] def LifeOp.Res : LifeOp → Type
  | .temporaryDirectory => Nat
  | .httpClient => Nat
  | .step _ => Unit
  | .authenticated => ProbeReport
  | .closeClient _ => Unit
  | .cleanup _ => Unit
  | .fields _ => RuntimeFields

abbrev LifeAction (α : Type) := Prog LifeOp LifeOp.Res Err α

namespace LifeAction

def step (step : OpenStep) : LifeAction Unit := Prog.perform (LifeOp.step step)

def fields (update : RuntimeFields → RuntimeFields) : LifeAction RuntimeFields :=
  Prog.perform (LifeOp.fields update)

/-- The CA file and the binding that names it. -/
def provideCa : LifeAction Unit := do
  let directory ← Prog.perform LifeOp.temporaryDirectory
  let _ ← fields fun fields => { fields with caDirectory := some directory }
  step .touch
  step .writeBytes
  step .replaceBinding

/-- `OciDistributionAdapter(binding)`: the adapter and the client of its transport. -/
def construct (binding : OciDistributionBinding) : LifeAction (OciDistributionAdapter × Nat) := do
  let client ← Prog.perform LifeOp.httpClient
  step .configuredCapabilityManifest
  step .cursorCodec
  step .writeLock
  step .multipartManager
  return (⟨binding, ⟨binding, 3, readAttempts_pos⟩⟩, client)

/-- `close`; the adapter is let go of first, and the directory is removed whatever its `close` does. -/
def close : LifeAction Unit := do
  let before ← fields fun fields => { fields with runtime := fields.runtime.reset, client := none }
  Prog.finally_
    (match before.client with
      | none => .ret ()
      | some client => Prog.perform (LifeOp.closeClient client))
    (do
      let now ← fields id
      match now.caDirectory with
      | none => return ()
      | some directory => do
        Prog.perform (LifeOp.cleanup directory)
        let _ ← fields fun fields => { fields with caDirectory := none }
        return ())

/-- The `try` block of `open` from the adapter's constructor on. -/
def openAdapter (before : RuntimeFields) : LifeAction Unit := do
  let (adapter, client) ← construct before.runtime.binding
  let _ ← fields fun fields =>
    { fields with runtime := { fields.runtime with adapter := some adapter }, client := some client }
  let report ← Prog.perform LifeOp.authenticated
  if !report.passed then throw (.of .objectUnavailable "OCI authenticated startup probe failed")
  else
    step .adapterProbe
    let _ ← fields fun fields =>
      { fields with runtime := { fields.runtime with probe := some ⟨report.manifest, report.apiVersion⟩ } }
    return ()

/-- The `try` block of `open`. -/
def openTry (before : RuntimeFields) : LifeAction Unit := do
  if before.tlsCa.isSome then provideCa
  openAdapter before

def «open» : LifeAction Unit := do
  let before ← fields id
  if before.runtime.adapter.isSome then return ()
  else
    tryCatch (openTry before) fun error => do
      close
      throw error

end LifeAction

end MeridianOci.Model
