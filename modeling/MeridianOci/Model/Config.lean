import Mathlib.Algebra.Group.Int.Defs
import Mathlib.Computability.RegularExpressions
import MeridianOci.Data.Base64
import MeridianOci.Data.Url
import MeridianOci.Model.Binding

/-!
# The configuration of a binding

`descriptor/config.py`. The constructor of a binding takes whatever it is called with, and
either raises or gives the binding that the rest of the adapter works with. A value of a wrong
type is kept as far as the checks look at it.
-/
namespace MeridianOci.Model

open MeridianOci.Data

set_option autoImplicit false

/-! ## Credentials -/

def isLineBreak (c : Char) : Bool := c = '\r' || c = '\n'

/-- Not empty, and on one line. -/
def SingleLine (text : String) : Prop := text ≠ "" ∧ text.toList.any isLineBreak = false

instance (text : String) : Decidable (SingleLine text) := inferInstanceAs (Decidable (_ ∧ _))

structure BasicCredentials where
  username : String
  password : String
  username_line : SingleLine username
  password_line : SingleLine password

structure BearerCredentials where
  token : String
  token_line : SingleLine token

def BasicCredentials.new (username password : String) : Except Err BasicCredentials :=
  if husername : SingleLine username then
    if hpassword : SingleLine password then .ok ⟨username, password, husername, hpassword⟩
    else .error (.of .valueError "basic-auth password must be non-empty and single-line")
  else .error (.of .valueError "basic-auth username must be non-empty and single-line")

def BearerCredentials.new (token : String) : Except Err BearerCredentials :=
  if htoken : SingleLine token then .ok ⟨token, htoken⟩
  else .error (.of .valueError "bearer token must be non-empty and single-line")

inductive Credentials where
  | anonymous
  | basic (credentials : BasicCredentials)
  | bearer (credentials : BearerCredentials)
  | callback

/-- `CallbackCredentials.authorization_header`, with what the resolver returns. -/
def callbackHeader : Json → Except Err (Option String)
  | .null => .ok none
  | .str value =>
    if SingleLine value then .ok (some value)
    else .error (.of .valueError "resolved Authorization header must be non-empty and single-line")
  | _ => .error (.of .valueError "resolved Authorization header must be non-empty and single-line")

/-- `authorization_header`; only a callback has something to resolve. -/
def Credentials.authorizationHeader (resolved : Except Err Json) : Credentials → Except Err (Option String)
  | .anonymous => .ok none
  | .basic credentials => .ok (some ("Basic " ++ String.ofList
      (Base64.standard (utf8 (credentials.username ++ ":" ++ credentials.password).toList))))
  | .bearer credentials => .ok (some ("Bearer " ++ credentials.token))
  | .callback => resolved.bind callbackHeader

/-! ## The grammars -/

section Grammars

open RegularExpression

/-- `[a-z0-9]`. -/
def alphanumeric : RegularExpression Char := ("abcdefghijklmnopqrstuvwxyz0123456789".toList.map char).foldr (· + ·) 0

/-- One or more. -/
def repeated (part : RegularExpression Char) : RegularExpression Char := part * star part

/-- `[a-z0-9]+(?:(?:\.|_|__|-+)[a-z0-9]+)*`. -/
def componentGrammar : RegularExpression Char :=
  repeated alphanumeric *
    star ((char '.' + char '_' + char '_' * char '_' + repeated (char '-')) * repeated alphanumeric)

/-- `_REPOSITORY_RE`. -/
def repositoryGrammar : RegularExpression Char := componentGrammar * star (char '/' * componentGrammar)

end Grammars

def isImageChar (c : Char) : Bool := c.isAlphanum || c = '.' || c = '_' || c = '/' || c = ':' || c = '-'

/-- `[a-zA-Z0-9][a-zA-Z0-9._/:\-]*@sha256:[0-9a-f]{64}`. -/
def isImage (text : List Char) : Bool :=
  let digest := text.dropWhile isImageChar
  (text.head?.any Char.isAlphanum) && "@sha256:".toList.isPrefixOf digest && (digest.drop 8).length = 64 &&
    (digest.drop 8).all fun c => c.isDigit || ('a' ≤ c && c ≤ 'f')

/-- `str.isspace`, of one character. -/
def isSpace (c : Char) : Bool :=
  (9 ≤ c.toNat ∧ c.toNat ≤ 13) || (28 ≤ c.toNat ∧ c.toNat ≤ 32) || c.toNat = 133 || c.toNat = 160 || c.toNat = 5760 ||
    (8192 ≤ c.toNat ∧ c.toNat ≤ 8202) || c.toNat = 8232 || c.toNat = 8233 || c.toNat = 8239 || c.toNat = 8287 ||
    c.toNat = 12288

/-- Whether `registry_release` is admitted. -/
def isRelease (text : List Char) : Bool := !text.all isSpace && text.length ≤ 128 && !text.any (·.toNat < 32)

/-- Whether `registry_image` is admitted. -/
def isImageReference (text : List Char) : Bool :=
  text.length ≤ 512 && !(text.tails.any fun tail => "://".toList.isPrefixOf tail) && isImage text

/-! ## Arguments -/

/-- `ResourceRef | str | Mapping`. -/
inductive ResourceArgument where
  | reference (reference : ResourceRef)
  | json (value : Json)

/-- A flag; of a value that is no `bool` only its truth is looked at. -/
inductive Flag where
  | bool (value : Bool)
  | other (truth : Bool)

def Flag.truth : Flag → Bool
  | .bool value => value
  | .other truth => truth

/-- `timeout_seconds`. -/
inductive Seconds where
  | int (value : Int)
  | float (value : Rat)
  | other

inductive KeyArgument where
  | absent
  | bytes (value : Bytes)
  | other

/-- What the constructor is called with; a provider that has no `authorization_header` is `none`. -/
structure BindingArguments where
  resource : ResourceArgument
  endpoint : Json
  repository : Json
  credentials : Option Credentials := some .anonymous
  verifyTls : Json := .bool true
  allowInsecureHttp : Flag := .bool false
  timeoutSeconds : Seconds := .float 30
  chunkSize : Json := .int (4 * 1024 * 1024)
  maxObjectBytes : Json := .int (5 * 1024 ^ 4)
  maxRangeBytes : Json := .int (256 * 1024 * 1024)
  maxManifestBytes : Json := .int (4 * 1024 * 1024)
  maxMetadataBytes : Json := .int (512 * 1024)
  maxListPageSize : Json := .int 1000
  maxScanTags : Json := .int 2000
  maxMultipartParts : Json := .int 10000
  conditionalCreateMode : Json := .str "single-writer"
  deletionEnabled : Json := .bool false
  retentionEnforced : Json := .bool false
  referrersRequired : Json := .bool false
  cursorSigningKey : KeyArgument := .absent
  registryRelease : Json := .null
  registryImage : Json := .null

/-- `verify_tls`, once it is checked. -/
inductive TlsVerification where
  | flag (value : Bool)
  | bundle (path : String) (path_ne : path ≠ "")

def Seconds.Positive : Seconds → Prop
  | .int value => 0 < value
  | .float value => 0 < value
  | .other => False

instance : DecidablePred Seconds.Positive
  | .int value => inferInstanceAs (Decidable (0 < value))
  | .float value => inferInstanceAs (Decidable (0 < value))
  | .other => inferInstanceAs (Decidable False)

def conditionalModes : List String := ["single-writer", "registry-enforced"]

/-- What depends on code outside the repository: `urllib.parse`, and `ResourceRef.parse(value, catalog="object")`. -/
structure ConfigRules where
  url : Url.Rules
  parseResource : ResourceArgument → Except Err ResourceRef

/-- An endpoint as `_endpoint` leaves it: a scheme and a network location. -/
structure Endpoint (rules : ConfigRules) (allowHttp : Bool) where
  scheme : List Char
  netloc : List Char
  scheme_allowed : scheme = "https".toList ∨ (scheme = "http".toList ∧ allowHttp = true)
  located : Url.Located rules.url netloc
  host : (Url.hostname rules.url netloc).getD [] ≠ []
  anonymous : Url.username netloc = none ∧ Url.password netloc = none
  port : (Url.port netloc).isSome = true

/-- `text.rstrip("/")`. -/
def rstripSlash (text : List Char) : List Char := (text.reverse.dropWhile (· = '/')).reverse

def Endpoint.text {rules : ConfigRules} {allowHttp : Bool} (endpoint : Endpoint rules allowHttp) : String :=
  String.ofList (rstripSlash (Url.urlunsplit endpoint.scheme endpoint.netloc))

/-- A binding that was constructed, with the fields that the rest of the adapter does not read. -/
structure BoundConfig (rules : ConfigRules) where
  binding : OciDistributionBinding
  endpoint : Endpoint rules binding.allowInsecureHttp
  repository : String
  credentials : Credentials
  verifyTls : TlsVerification
  timeoutSeconds : Seconds
  conditionalCreateMode : String
  retentionEnforced : Bool
  endpoint_text : binding.endpoint = endpoint.text
  repository_name : repositoryGrammar.rmatch repository.toList = true
  timeout_positive : timeoutSeconds.Positive
  mode_known : conditionalCreateMode ∈ conditionalModes
  release_valid : ∀ release, binding.registryRelease = some release → isRelease release.toList = true
  image_valid : ∀ image, binding.registryImage = some image → isImageReference image.toList = true

/-! ## The checks -/

section Checks

variable (rules : ConfigRules)

/-- `_endpoint`. -/
def endpointOf (value : Json) (allowHttp : Bool) : Except Err (Endpoint rules allowHttp) :=
  match value with
  | .str text =>
    match hsplit : Url.urlsplit rules.url text.toList with
    | none => .error { kind := .valueError }
    | some parsed =>
      if hport : (Url.port parsed.netloc).isSome = true then
        if hscheme : parsed.scheme = "https".toList ∨ (parsed.scheme = "http".toList ∧ allowHttp = true) then
          if hhost : (Url.hostname rules.url parsed.netloc).getD [] ≠ [] ∧
              Url.username parsed.netloc = none ∧ Url.password parsed.netloc = none then
            if parsed.query ≠ [] ∨ parsed.fragment ≠ [] ∨ (parsed.path ≠ [] ∧ parsed.path ≠ ['/']) then
              .error (.of .valueError "endpoint cannot contain a path, query, or fragment")
            else .ok ⟨parsed.scheme, parsed.netloc, hscheme, Url.located_of_urlsplit hsplit, hhost.1, hhost.2, hport⟩
          else .error (.of .valueError "endpoint must contain a host and no userinfo")
        else .error (.of .valueError "endpoint must use HTTPS unless insecure HTTP is explicitly allowed")
      else .error (.of .valueError "endpoint contains an invalid port")
  | _ => .error (.of .typeError "endpoint must be a string")

/-- A `fullmatch` of the grammar; anything but a string is a `TypeError` of `re`. -/
def repositoryOf : Json → Except Err { name : String // repositoryGrammar.rmatch name.toList = true }
  | .str name =>
    if hname : repositoryGrammar.rmatch name.toList = true then .ok ⟨name, hname⟩
    else .error (.of .valueError "repository does not match the OCI Distribution name grammar")
  | _ => .error { kind := .typeError }

def verifyTlsOf : Json → Except Err TlsVerification
  | .bool value => .ok (.flag value)
  | .str path =>
    if hpath : path ≠ "" then .ok (.bundle path hpath)
    else .error (.of .typeError "verify_tls must be a boolean or non-empty CA-bundle path")
  | _ => .error (.of .typeError "verify_tls must be a boolean or non-empty CA-bundle path")

/-- `_positive_number`. -/
def positiveNumber (value : Seconds) (name : String) : Except Err { value : Seconds // value.Positive } :=
  if hpositive : value.Positive then .ok ⟨value, hpositive⟩
  else .error (.of .valueError (name ++ " must be positive"))

/-- `_bounded_int`. -/
def boundedInt (value : Json) (name : String) (minimum : Nat) (maximum : Option Nat) :
    Except Err { n : Nat // minimum ≤ n ∧ ∀ limit ∈ maximum, n ≤ limit } :=
  let tooSmall := Err.of .valueError (name ++ " must be an integer of at least " ++ toString minimum)
  match value with
  | .int value =>
    if hminimum : minimum ≤ value.toNat ∧ 0 ≤ value then
      if hmaximum : ∀ limit ∈ maximum, value.toNat ≤ limit then .ok ⟨value.toNat, hminimum.1, hmaximum⟩
      else .error (.of .valueError (name ++ " must not exceed " ++ toString (maximum.getD 0)))
    else .error tooSmall
  | _ => .error tooSmall

/-- Membership in a set: a list or a mapping cannot be hashed. -/
def modeOf : Json → Except Err { mode : String // mode ∈ conditionalModes }
  | .str mode =>
    if hmode : mode ∈ conditionalModes then .ok ⟨mode, hmode⟩
    else .error (.of .valueError "conditional_create_mode must be single-writer or registry-enforced")
  | .arr _ => .error { kind := .typeError }
  | .obj _ => .error { kind := .typeError }
  | _ => .error (.of .valueError "conditional_create_mode must be single-writer or registry-enforced")

def booleanOf (value : Json) (name : String) : Except Err Bool :=
  match value with
  | .bool value => .ok value
  | _ => .error (.of .typeError (name ++ " must be boolean"))

def flagOf (value : Flag) (name : String) : Except Err Bool :=
  match value with
  | .bool value => .ok value
  | .other _ => .error (.of .typeError (name ++ " must be boolean"))

/-- `None`, or a string that is admitted. -/
def labelOf (value : Json) (admits : List Char → Bool) (message : String) :
    Except Err { label : Option String // ∀ text, label = some text → admits text.toList = true } :=
  match value with
  | .null => .ok ⟨none, by rintro _ ⟨⟩⟩
  | .str text =>
    if htext : admits text.toList = true then .ok ⟨some text, by rintro _ ⟨⟩; exact htext⟩
    else .error (.of .valueError message)
  | _ => .error (.of .valueError message)

/-- `None` is a fresh key. -/
def keyOf (fresh : Bytes) (value : KeyArgument) : Except Err { key : Bytes // 16 ≤ key.length } :=
  let tooShort := Err.of .valueError "cursor_signing_key must contain at least 16 bytes"
  match value with
  | .absent => if hkey : 16 ≤ fresh.length then .ok ⟨fresh, hkey⟩ else .error tooShort
  | .bytes key => if hkey : 16 ≤ key.length then .ok ⟨key, hkey⟩ else .error tooShort
  | .other => .error tooShort

/-- `__post_init__`; `fresh` is what `secrets.token_bytes(32)` gives. -/
def BindingArguments.postInit (fresh : Bytes) (arguments : BindingArguments) : Except Err (BoundConfig rules) := do
  let resource ← rules.parseResource arguments.resource
  let endpoint ← endpointOf rules arguments.endpoint arguments.allowInsecureHttp.truth
  let repository ← repositoryOf arguments.repository
  match arguments.credentials with
  | none => .error (.of .typeError "credentials must implement CredentialProvider")
  | some credentials =>
    let verifyTls ← verifyTlsOf arguments.verifyTls
    let timeout ← positiveNumber arguments.timeoutSeconds "timeout_seconds"
    let chunkSize ← boundedInt arguments.chunkSize "chunk_size" (64 * 1024) (some (16 * 1024 * 1024))
    let objectBytes ← boundedInt arguments.maxObjectBytes "max_object_bytes" 1 none
    let rangeBytes ← boundedInt arguments.maxRangeBytes "max_range_bytes" 1 none
    let manifestBytes ← boundedInt arguments.maxManifestBytes "max_manifest_bytes" 1024 none
    let metadataBytes ← boundedInt arguments.maxMetadataBytes "max_metadata_bytes" 1024 none
    let pageSize ← boundedInt arguments.maxListPageSize "max_list_page_size" 1 (some 1000)
    let scanTags ← boundedInt arguments.maxScanTags "max_scan_tags" pageSize none
    let parts ← boundedInt arguments.maxMultipartParts "max_multipart_parts" 1 (some 100000)
    let mode ← modeOf arguments.conditionalCreateMode
    let _ ← flagOf arguments.allowInsecureHttp "allow_insecure_http"
    let deletionEnabled ← booleanOf arguments.deletionEnabled "deletion_enabled"
    let retentionEnforced ← booleanOf arguments.retentionEnforced "retention_enforced"
    let referrersRequired ← booleanOf arguments.referrersRequired "referrers_required"
    let release ← labelOf arguments.registryRelease isRelease
      "registry_release must be a non-empty single-line provenance label"
    let image ← labelOf arguments.registryImage isImageReference
      "registry_image must be an immutable image reference with SHA-256"
    let key ← keyOf fresh arguments.cursorSigningKey
    let binding : OciDistributionBinding := {
      resourceRef := resource
      endpoint := endpoint.text
      allowInsecureHttp := arguments.allowInsecureHttp.truth
      chunkSize := chunkSize
      maxObjectBytes := objectBytes
      maxRangeBytes := rangeBytes
      maxManifestBytes := manifestBytes
      maxMetadataBytes := metadataBytes
      maxListPageSize := pageSize
      maxScanTags := scanTags
      maxMultipartParts := parts
      deletionEnabled
      referrersRequired
      cursorSigningKey := key
      registryRelease := release
      registryImage := image
      chunkSize_bounds := ⟨chunkSize.2.1, chunkSize.2.2 _ rfl⟩
      maxObjectBytes_pos := objectBytes.2.1
      maxRangeBytes_pos := rangeBytes.2.1
      maxManifestBytes_bound := manifestBytes.2.1
      maxMetadataBytes_bound := metadataBytes.2.1
      maxListPageSize_bounds := ⟨pageSize.2.1, pageSize.2.2 _ rfl⟩
      maxScanTags_bound := scanTags.2.1
      maxMultipartParts_bounds := ⟨parts.2.1, parts.2.2 _ rfl⟩
      cursorSigningKey_bound := key.2 }
    return {
      binding
      endpoint
      repository := repository
      credentials
      verifyTls
      timeoutSeconds := timeout
      conditionalCreateMode := mode
      retentionEnforced
      endpoint_text := rfl
      repository_name := repository.2
      timeout_positive := timeout.2
      mode_known := mode.2
      release_valid := release.2
      image_valid := image.2 }

end Checks

/-! ## Bindings that are constructed again -/

def TlsVerification.argument : TlsVerification → Json
  | .flag value => .bool value
  | .bundle path _ => .str path

/-- The fields of a binding, as `dataclasses.replace` passes them. -/
def BoundConfig.arguments {rules : ConfigRules} (config : BoundConfig rules) : BindingArguments where
  resource := .reference config.binding.resourceRef
  endpoint := .str config.binding.endpoint
  repository := .str config.repository
  credentials := some config.credentials
  verifyTls := config.verifyTls.argument
  allowInsecureHttp := .bool config.binding.allowInsecureHttp
  timeoutSeconds := config.timeoutSeconds
  chunkSize := .int config.binding.chunkSize
  maxObjectBytes := .int config.binding.maxObjectBytes
  maxRangeBytes := .int config.binding.maxRangeBytes
  maxManifestBytes := .int config.binding.maxManifestBytes
  maxMetadataBytes := .int config.binding.maxMetadataBytes
  maxListPageSize := .int config.binding.maxListPageSize
  maxScanTags := .int config.binding.maxScanTags
  maxMultipartParts := .int config.binding.maxMultipartParts
  conditionalCreateMode := .str config.conditionalCreateMode
  deletionEnabled := .bool config.binding.deletionEnabled
  retentionEnforced := .bool config.retentionEnforced
  referrersRequired := .bool config.binding.referrersRequired
  cursorSigningKey := .bytes config.binding.cursorSigningKey
  registryRelease := (config.binding.registryRelease.map .str).getD .null
  registryImage := (config.binding.registryImage.map .str).getD .null

/-- `replace(binding, verify_tls=...)`. -/
def BoundConfig.replaceVerifyTls {rules : ConfigRules} (fresh : Bytes) (config : BoundConfig rules) (verifyTls : Json) :
    Except Err (BoundConfig rules) := { config.arguments with verifyTls }.postInit rules fresh

end MeridianOci.Model
