import MeridianOci.Model.Config
import MeridianOci.Model.Runtime

/-!
# The factory

`_factory.py`: what Core hands to the factory, and the binding that the factory makes of it. The
secrets are revealed for the credentials only; whatever they make the constructors say, Core is
told nothing of it.
-/
namespace MeridianOci.Model

open MeridianOci.Data

set_option autoImplicit false

/-- `ADAPTER_CONTRACT_VERSION`. -/
def adapterContractVersion : String := "1.0.0"

/-- `ENGINE_PROFILE`. -/
def engineProfile : String := "oci-distribution"

/-- Core's `BindingConfig`: the fields that the factory reads. -/
structure DeployedBinding where
  adapterId : String
  adapterContract : String
  engineProfile : String
  engineVersion : String
  endpoint : Option String
  physicalNamespace : String
  tlsMode : String
  operationTimeoutMs : Int
  settings : JsonObject

/-- `AdapterCreateContext`, with its secrets revealed. -/
structure AdapterCreateContext where
  binding : DeployedBinding
  identity : Bytes
  credential : Bytes
  tlsCa : Option Bytes

/-- A setting: the field of a binding that it gives. -/
structure SettingField where
  name : String
  set : Json → BindingArguments → BindingArguments

/-- `_SETTINGS`. -/
def settingFields : List SettingField :=
  [⟨"resource", fun value arguments => { arguments with resource := .json value }⟩,
    ⟨"registryRelease", fun value arguments => { arguments with registryRelease := value }⟩,
    ⟨"registryImage", fun value arguments => { arguments with registryImage := value }⟩,
    ⟨"chunkSize", fun value arguments => { arguments with chunkSize := value }⟩,
    ⟨"maxObjectBytes", fun value arguments => { arguments with maxObjectBytes := value }⟩,
    ⟨"maxRangeBytes", fun value arguments => { arguments with maxRangeBytes := value }⟩,
    ⟨"maxManifestBytes", fun value arguments => { arguments with maxManifestBytes := value }⟩,
    ⟨"maxMetadataBytes", fun value arguments => { arguments with maxMetadataBytes := value }⟩,
    ⟨"maxListPageSize", fun value arguments => { arguments with maxListPageSize := value }⟩,
    ⟨"maxScanTags", fun value arguments => { arguments with maxScanTags := value }⟩,
    ⟨"maxMultipartParts", fun value arguments => { arguments with maxMultipartParts := value }⟩,
    ⟨"conditionalCreateMode", fun value arguments => { arguments with conditionalCreateMode := value }⟩,
    ⟨"deletionEnabled", fun value arguments => { arguments with deletionEnabled := value }⟩,
    ⟨"retentionEnforced", fun value arguments => { arguments with retentionEnforced := value }⟩,
    ⟨"referrersRequired", fun value arguments => { arguments with referrersRequired := value }⟩]

/-- The arguments of a deployment without settings. The resource is always among the settings. -/
def DeployedBinding.defaults (binding : DeployedBinding) (endpoint : String) (credentials : Credentials) :
    BindingArguments where
  resource := .json .null
  endpoint := .str endpoint
  repository := .str binding.physicalNamespace
  credentials := some credentials
  allowInsecureHttp := .bool (binding.tlsMode = "disabled")
  verifyTls := .bool (binding.tlsMode ≠ "disabled")
  timeoutSeconds := .float (binding.operationTimeoutMs / 1000)

/-- A setting of the mapping gives its field. -/
def SettingField.apply (settings : JsonObject) (arguments : BindingArguments) (setting : SettingField) :
    BindingArguments :=
  match Json.get? settings setting.name with
  | none => arguments
  | some value => setting.set value arguments

def DeployedBinding.arguments (binding : DeployedBinding) (endpoint : String) (credentials : Credentials) :
    BindingArguments :=
  settingFields.foldl (SettingField.apply binding.settings) (binding.defaults endpoint credentials)

/-- `SecretValue.reveal().decode("utf-8")`; a `UnicodeDecodeError` is a `ValueError`. -/
def decodeSecret (secret : Bytes) : Except Err String :=
  match utf8Decode secret with
  | none => .error { kind := .valueError }
  | some text => .ok (String.ofList text)

/-- The credentials of an authentication mode. -/
def AdapterCreateContext.credentials (context : AdapterCreateContext) : Except Err Credentials :=
  match (Json.get? context.binding.settings "authMode").getD (.str "basic") with
  | .str "anonymous" => .ok .anonymous
  | .str "basic" => do
    let username ← decodeSecret context.identity
    let password ← decodeSecret context.credential
    return .basic (← BasicCredentials.new username password)
  | .str "bearer" => do
    let token ← decodeSecret context.credential
    return .bearer (← BearerCredentials.new token)
  | _ => .error (.of .valueError "unsupported authentication mode")

def invalidConfiguration : Err :=
  .of .objectInvalidRequest "OCI private binding or credential configuration is invalid"

/-- `except (TypeError, ValueError)`: the cause is suppressed. -/
def concealing {α : Type} : Except Err α → Except Err α
  | .ok value => .ok value
  | .error error => .error (if error.isTypeOrValue then invalidConfiguration else error)

variable (rules : ConfigRules)

/-- The checks of `create` that come before any secret is revealed; they give the endpoint. -/
def AdapterCreateContext.check (context : AdapterCreateContext) : Except Err String :=
  let binding := context.binding
  match binding.endpoint with
  | none => .error (.of .objectInvalidRequest "OCI factory requires an OCI binding with a resolved endpoint")
  | some endpoint =>
    if binding.adapterId ≠ adapterId then
      .error (.of .objectInvalidRequest "OCI factory requires an OCI binding with a resolved endpoint")
    else if binding.adapterContract ≠ adapterContractVersion then
      .error (.of .objectCapabilityMismatch "unsupported OCI Adapter SPI contract")
    else if binding.engineProfile ≠ engineProfile then
      .error (.of .objectCapabilityMismatch "unsupported OCI engine profile")
    else if binding.engineVersion ≠ ociDistributionVersion then
      .error (.of .objectCapabilityMismatch "OCI requires Distribution specification 1.1.1")
    else if (Json.keys binding.settings).any (fun key => key ∉ settingFields.map (·.name) ∧ key ≠ "authMode") ∨
        "resource" ∉ Json.keys binding.settings then
      .error (.of .objectInvalidRequest "OCI binding requires resource and only supported settings")
    else
      match Url.urlsplit rules.url endpoint.toList with
      | none => .error { kind := .valueError }
      | some parsed =>
        if binding.tlsMode = "mutual" ∨ (binding.tlsMode = "disabled" ∧ parsed.scheme ≠ "http".toList) then
          .error (.of .objectInvalidRequest "OCI binding TLS policy is unsupported for this endpoint")
        else if binding.tlsMode ≠ "disabled" ∧ parsed.scheme ≠ "https".toList then
          .error (.of .objectInvalidRequest "OCI TLS requires an HTTPS endpoint")
        else if binding.tlsMode = "server" ∧ context.tlsCa = none then
          .error (.of .objectInvalidRequest "OCI server TLS requires resolved CA material")
        else .ok endpoint

/-- `OciAdapterFactory.create`: the binding of the runtime and the CA it was given. Anything but a
context is `none`. -/
def createConfig (fresh : Bytes) : Option AdapterCreateContext → Except Err (BoundConfig rules × Option Bytes)
  | none => .error (.of .typeError "OCI factory requires AdapterCreateContext")
  | some context => do
    let endpoint ← context.check rules
    let config ← concealing do
      let credentials ← context.credentials
      (context.binding.arguments endpoint credentials).postInit rules fresh
    return (config, context.tlsCa)

/-- `_Runtime(config, ...)`. -/
def createRuntime (fresh : Bytes) (context : Option AdapterCreateContext) : Except Err Runtime := do
  let (config, _) ← createConfig rules fresh context
  return Runtime.create config.binding config.repository

/-- The binding that `_Runtime.open` gives its adapter: with CA material, that of its temporary file. -/
def BoundConfig.opened {rules : ConfigRules} (fresh : Bytes) (config : BoundConfig rules) (caPath : Option String) :
    Except Err (BoundConfig rules) :=
  match caPath with
  | none => .ok config
  | some path => config.replaceVerifyTls fresh (.str path)

/-- `OciDistributionAdapter(binding)`. -/
def BoundConfig.adapter {rules : ConfigRules} (config : BoundConfig rules) : OciDistributionAdapter :=
  ⟨config.binding, ⟨config.binding, 3, readAttempts_pos⟩⟩

end MeridianOci.Model
