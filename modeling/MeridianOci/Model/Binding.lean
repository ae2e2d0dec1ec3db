import MeridianOci.Model.Values

/-!
# The private binding

The configuration of one adapter, with the bounds that its constructor checks kept
as fields. The transport has a binding of its own: nothing makes the two equal.
-/
namespace MeridianOci.Model

open MeridianOci.Data

set_option autoImplicit false

structure OciDistributionBinding where
  resourceRef : ResourceRef
  endpoint : String
  allowInsecureHttp : Bool
  chunkSize : Nat
  maxObjectBytes : Nat
  maxRangeBytes : Nat
  maxManifestBytes : Nat
  maxMetadataBytes : Nat
  maxListPageSize : Nat
  maxScanTags : Nat
  maxMultipartParts : Nat
  deletionEnabled : Bool
  referrersRequired : Bool
  cursorSigningKey : Bytes
  registryRelease : Option String
  registryImage : Option String
  chunkSize_bounds : 64 * 1024 ≤ chunkSize ∧ chunkSize ≤ 16 * 1024 * 1024
  maxObjectBytes_pos : 1 ≤ maxObjectBytes
  maxRangeBytes_pos : 1 ≤ maxRangeBytes
  maxManifestBytes_bound : 1024 ≤ maxManifestBytes
  maxMetadataBytes_bound : 1024 ≤ maxMetadataBytes
  maxListPageSize_bounds : 1 ≤ maxListPageSize ∧ maxListPageSize ≤ 1000
  maxScanTags_bound : maxListPageSize ≤ maxScanTags
  maxMultipartParts_bounds : 1 ≤ maxMultipartParts ∧ maxMultipartParts ≤ 100000
  cursorSigningKey_bound : 16 ≤ cursorSigningKey.length

def adapterId : String := "oci-distribution"

def operationVersion : String := "1.0.0"

/-- `configured_capability_manifest(binding).available_operation_contracts`. -/
def availableOperationContracts (binding : OciDistributionBinding) : List String :=
  ["meridian.object.put", "meridian.object.get", "meridian.object.stat",
    "meridian.object.read_range", "meridian.object.list"] ++
    if binding.deletionEnabled then ["meridian.object.delete"] else []

/-- The transport: its binding and how often it sends a request that may be repeated. -/
structure RegistryHttpClient where
  binding : OciDistributionBinding
  maxReadAttempts : Nat
  maxReadAttempts_pos : 1 ≤ maxReadAttempts

theorem readAttempts_pos : 1 ≤ 3 := by decide

structure OciDistributionAdapter where
  binding : OciDistributionBinding
  transport : RegistryHttpClient

/-- `_semantic_resource`. -/
def OciDistributionAdapter.semanticResource (adapter : OciDistributionAdapter) : ResourceRef :=
  ⟨"object", adapter.binding.resourceRef.namespace, adapter.binding.resourceRef.name⟩

end MeridianOci.Model
