import MeridianOci.Model.Stream

/-!
# The deep probe

`probe/__init__.py`: a canary anchor and a canary version are pushed, pulled and deleted. A call that
raises leaves the variables as they were, and the cleanup goes by these.
-/
namespace MeridianOci.Model

open MeridianOci.Data MeridianOci.Effect

set_option autoImplicit false

structure OciProbeReport where
  passed : Bool
  mode : String
  apiVersion : String
  pushPull : Bool
  rangeRead : Bool
  referrers : Bool
  deletion : Bool
  capabilityFingerprint : String
  failure : Option ErrorKind

namespace OciDistributionProbe

/-- The variables of `deep` that its cleanup and its report read. -/
structure Locals (P : Platform) where
  apiVersion : String := "unknown"
  pushPull : Bool := false
  rangeRead : Bool := false
  referrers : Bool := false
  deletion : Bool := false
  anchor : Option (OciDescriptor P) := none
  version : Option (OciDescriptor P) := none

def payloadValue : Bytes := utf8 "meridian-oci-distribution-probe".toList

def anchorReference (token : String) : String := "m-probe-a-" ++ token

def versionReference (token : String) : String := "m-probe-v-" ++ token

/-- `datetime.now(UTC)`, which is always aware. -/
def datetimeNow : Action Int := do
  match ← Action.clock with
  | .aware instant => return instant
  | .naive instant => return instant

section Deep

variable {P : Platform}

/-- A statement of the `try` block: what it raises ends the block. -/
def tried {α : Type} (locals : Locals P) (action : Action α)
    (next : α → Action (Locals P × Option Err)) : Action (Locals P × Option Err) :=
  action.handle fun
    | .ok value => next value
    | .error error => .ret (locals, some error)

variable (P) (client : RegistryHttpClient)

/-- `with open_blob(...) as stream: stream.read()`. -/
def readRange (digest : String) (start finish : Nat) : Action Bytes := do
  let stream ← client.openBlob P ⟨digest, some (start, finish)⟩
  Action.lift ((IteratorReader.new stream).read (-1)).1

/-- The `try` block: the variables it leaves and what it raised. -/
def deepTry (token : String) : Action (Locals P × Option Err) :=
  let locals : Locals P := {}
  tried locals (client.ping P) fun apiVersion =>
  let locals := { locals with apiVersion }
  tried locals (client.uploadBlobBytes P payloadValue "application/octet-stream") fun payload =>
  tried locals (client.uploadBlobBytes P emptyJson "application/vnd.oci.empty.v1+json") fun _ =>
  tried locals (client.putManifest P (anchorReference token)
    (buildAnchorManifest P (objectIdHash P token))) fun anchor =>
  let locals := { locals with anchor := some anchor }
  tried locals (client.uploadBlobBytes P (canonicalJson [("probe", .bool true)])
    meridianObjectConfigMediaType) fun config =>
  tried locals datetimeNow fun now =>
  tried locals (client.putManifest P (versionReference token) (buildObjectManifest anchor config payload
    (objectIdHash P token) (P.timestamp now) "immutable")) fun version =>
  let locals := { locals with version := some version }
  tried locals (client.getManifest P (versionReference token)) fun pulled =>
  let locals := { locals with pushPull := decide (pulled.digest = version.digest) }
  tried locals (readRange P client payload.digest 1 3) fun value =>
  let locals := { locals with rangeRead := decide (value = (payloadValue.take 4).drop 1) }
  tried locals (client.getReferrers P anchor.digest meridianObjectArtifactType) fun discovered =>
  let locals := { locals with referrers := discovered.any fun item => decide (item.digest = version.digest) }
  if client.binding.referrersRequired && !locals.referrers then
    .ret (locals, some (.of .valueError "registry does not provide required OCI referrers discovery"))
  else if client.binding.deletionEnabled then
    tried locals (client.deleteManifest P version.digest) fun deletion =>
    let locals := { locals with deletion, version := none }
    tried locals (client.deleteManifest P anchor.digest) fun removed =>
    .ret ({ locals with deletion := removed && deletion, anchor := none }, none)
  else .ret (locals, none)

/-- `_delete_safely`. -/
def deleteSafely : Option (OciDescriptor P) → Action Unit
  | none => .ret ()
  | some descriptor => Action.safely (client.deleteManifest P descriptor.digest >>= fun _ => .ret ())

/-- The `finally` block. -/
def deepFinally (locals : Locals P) : Action Unit :=
  if client.binding.deletionEnabled then do
    deleteSafely P client locals.version
    deleteSafely P client locals.anchor
  else .ret ()

def deepReport (locals : Locals P) (failure : Option Err) : OciProbeReport where
  passed :=
    match failure with
    | some _ => false
    | none =>
      locals.pushPull && locals.rangeRead && (locals.referrers || !client.binding.referrersRequired) &&
        (!client.binding.deletionEnabled || locals.deletion)
  mode := "deep"
  apiVersion := locals.apiVersion
  pushPull := locals.pushPull
  rangeRead := locals.rangeRead
  referrers := locals.referrers
  deletion := locals.deletion
  capabilityFingerprint := P.capabilityFingerprint client.binding
  failure := failure.map Err.kind

def deep : Action OciProbeReport := do
  let token ← Action.token
  let outcome ← deepTry P client token
  deepFinally P client outcome.1
  return deepReport P client outcome.1 outcome.2

end Deep

end OciDistributionProbe

end MeridianOci.Model
