import MeridianOci.Model.Adapter

/-!
# The runtime of a binding

`_factory.py`: what Core drives. A runtime owns one adapter while it is open and
remembers whether its physical binding was verified; a session points to its runtime and
stays usable until it is closed itself. What the registry and the file system contribute
to a call is an argument of it.
-/
namespace MeridianOci.Model

open MeridianOci.Data MeridianOci.Effect

set_option autoImplicit false

/-- `__version__`. -/
def adapterVersion : String := "1.1.0"

def ociDistributionVersion : String := "1.1.1"

structure PhysicalResource where
  resourceRef : ResourceRef
  resourceFingerprint : String
  schemaFingerprint : String
  profile : String

structure PhysicalVerification where
  fingerprint : String
  resources : List (ResourceRef × String)
  resourceCount : Nat

structure CapabilityManifest where
  fingerprint : String
  engineProfile : String
  engineVersion : String

/-- The report of the authenticated probe. -/
structure ProbeReport where
  passed : Bool
  manifest : CapabilityManifest
  apiVersion : String

structure AdapterProbe where
  manifest : CapabilityManifest
  apiVersion : String

structure ExecutionResult where
  data : Result
  provenance : List (String × String)

/-- `_Runtime`. -/
structure Runtime where
  binding : OciDistributionBinding
  repository : String
  adapter : Option OciDistributionAdapter
  probe : Option AdapterProbe
  verified : Bool

/-- `_Session`. -/
structure RuntimeSession where
  closed : Bool

namespace Runtime

/-- A runtime as the factory creates it. -/
def create (binding : OciDistributionBinding) (repository : String) : Runtime :=
  ⟨binding, repository, none, none, false⟩

variable (runtime : Runtime)

def reset : Runtime := { runtime with adapter := none, probe := none, verified := false }

/-- `close`; the adapter's own `close` may raise, after the runtime has let go of it. -/
def close (released : Except Err Unit) : Except Err Unit × Runtime :=
  match runtime.adapter with
  | none => (.ok (), runtime.reset)
  | some _ => (released, runtime.reset)

/-- `open`, with the adapter that was built and the report of its probe. -/
def «open» (startup : Except Err (OciDistributionAdapter × Except Err ProbeReport)) : Except Err Unit × Runtime :=
  match runtime.adapter with
  | some _ => (.ok (), runtime)
  | none =>
    match startup with
    | .error error => (.error error, runtime.reset)
    | .ok (_, .error error) => (.error error, runtime.reset)
    | .ok (adapter, .ok report) =>
      if report.passed then
        (.ok (), { runtime with adapter := some adapter, probe := some ⟨report.manifest, report.apiVersion⟩ })
      else (.error (.of .objectUnavailable "OCI authenticated startup probe failed"), runtime.reset)

/-- `_require_open`. -/
def requireOpen : Except Err (OciDistributionAdapter × AdapterProbe) :=
  match runtime.adapter, runtime.probe with
  | some adapter, some probe => .ok (adapter, probe)
  | _, _ => .error (.of .objectInvalidRequest "OCI runtime is not open")

/-- `verify_physical`; `contact` is what the ping and the tag page gave. -/
def verifyPhysical (sha256Fingerprint : JsonObject → String) (resources : List PhysicalResource)
    (contact : Except Err Unit) : Except Err PhysicalVerification × Runtime :=
  match runtime.requireOpen with
  | .error error => (.error error, runtime)
  | .ok _ =>
    -- the flag falls before anything is checked
    let unverified := { runtime with verified := false }
    match resources with
    | [resource] =>
      if resource.resourceRef ≠ runtime.binding.resourceRef then
        (.error (.of .objectInvalidRequest "OCI binding must select its single configured Object Resource"), unverified)
      else
        match contact with
        | .error error => (.error error, unverified)
        | .ok () =>
          let location := sha256Fingerprint
            [("endpoint", .str runtime.binding.endpoint), ("repository", .str runtime.repository)]
          let name := resource.resourceRef.catalog ++ ":" ++ resource.resourceRef.namespace ++ "." ++
            resource.resourceRef.name
          let fingerprint := sha256Fingerprint
            [("formatVersion", .str "meridian.oci-physical-verification.v1"), ("namespaceFingerprint", .str location),
              ("resource", .str name), ("resourceFingerprint", .str resource.resourceFingerprint),
              ("schemaFingerprint", .str resource.schemaFingerprint), ("profile", .str resource.profile)]
          (.ok ⟨fingerprint, [(resource.resourceRef, "oci:" ++ fingerprint)], 1⟩, { runtime with verified := true })
    | _ => (.error (.of .objectInvalidRequest "OCI binding must select its single configured Object Resource"), unverified)

def openSession (transactional : Bool) : Except Err RuntimeSession := do
  let _ ← runtime.requireOpen
  if transactional then
    .error (.of .objectCapabilityMismatch "OCI Object Operations are not transactional")
  else if !runtime.verified then
    .error (.of .objectInvalidRequest "OCI physical binding has not been verified")
  else return ⟨false⟩

end Runtime

namespace RuntimeSession

variable (P : Platform) (session : RuntimeSession) (runtime : Runtime)

/-- `_require_open` of the session. -/
def requireOpen : Except Err (OciDistributionAdapter × AdapterProbe) :=
  if session.closed then .error (.of .objectInvalidRequest "OCI session is closed") else runtime.requireOpen

/-- `execute`; a request that is no `ExecutionRequest` is `none`. -/
def execute (request : Option Operation) : Action ExecutionResult := do
  let (adapter, probe) ← Action.lift (session.requireOpen runtime)
  match request with
  | none => throw (.of .typeError "OCI session requires ExecutionRequest")
  | some operation => do
    let data ← adapter.execute P operation
    return ⟨data, [("adapterId", adapterId), ("adapterVersion", adapterVersion),
      ("capabilityFingerprint", probe.manifest.fingerprint), ("engineProfile", probe.manifest.engineProfile),
      ("engineVersion", probe.manifest.engineVersion), ("distributionSpec", ociDistributionVersion), ("registryReleaseObservation", "unavailable")] ++
      (runtime.binding.registryRelease.map fun release => ("selectedRegistryRelease", release)).toList ++
      (runtime.binding.registryImage.map fun image => ("selectedRegistryImage", image)).toList⟩

def close (_ : RuntimeSession) : RuntimeSession := ⟨true⟩

end RuntimeSession

end MeridianOci.Model
