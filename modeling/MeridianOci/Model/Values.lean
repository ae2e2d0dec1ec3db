import MeridianOci.Data.JsonText

/-!
# Object values and errors

The values that Object Common hands to the adapter and takes back from it, and the
errors that may leave the adapter. A mapping that is only ever compared as a `dict`
(user metadata, creation context, provenance) is the list of its items.
-/
namespace MeridianOci.Model

open MeridianOci.Data

set_option autoImplicit false

inductive ErrorKind where
  | objectInvalidRequest
  | objectCapabilityMismatch
  | objectNotFound
  | objectAuthenticationFailed
  | objectAuthorizationFailed
  | objectQuotaExceeded
  | objectRateLimited
  | objectUnavailable
  | rangeNotSatisfiable
  | digestMismatch
  | incompleteUpload
  | conditionalConflict
  | immutableObjectConflict
  | retentionDenied
  | multipartInvalid
  | valueError
  | typeError
  | httpError
  | other
  deriving DecidableEq, Repr

/-- `adapter_provenance`: what the registry answered. -/
structure Provenance where
  providerCode : String
  httpStatus : Nat
  deriving DecidableEq, Repr

structure Err where
  kind : ErrorKind
  message : Option String := none
  operationContract : Option String := none
  provenance : Option Provenance := none
  deriving DecidableEq, Repr

namespace Err

def of (kind : ErrorKind) (message : String) : Err := { kind, message := some message }

/-- `except (TypeError, ValueError)`. -/
def isTypeOrValue (error : Err) : Bool := error.kind = .typeError || error.kind = .valueError

end Err

/-- A `datetime` in microseconds: an aware one is its instant in UTC, a naive one carries no usable
offset. One that `astimezone(UTC)` cannot take is a reading that fails. -/
inductive DateTime where
  | aware (instant : Int)
  | naive (wallClock : Int)
  deriving DecidableEq, Repr

structure ResourceRef where
  catalog : String
  «namespace» : String
  name : String
  deriving DecidableEq, Repr

structure ObjectReference where
  resourceRef : ResourceRef
  objectId : String
  digest : Option String
  deriving DecidableEq, Repr

structure ContentIdentity where
  digest : String
  byteLength : Nat
  deriving DecidableEq, Repr

structure ImmutabilityRequest where
  mutability : String
  publishOnce : Bool
  deriving DecidableEq, Repr

structure RetentionRequest where
  retainUntil : Option Int
  policy : String
  requireEnforcement : Bool
  deriving DecidableEq, Repr

structure ObjectMetadata where
  objectRef : ObjectReference
  digest : String
  byteLength : Nat
  mediaType : String
  createdAt : String
  creationContext : JsonObject
  userMetadata : JsonObject
  mutability : String
  provenance : JsonObject

structure PayloadReference where
  id : String
  replayable : Bool
  expectedDigest : Option String
  expectedLength : Option Nat
  deriving DecidableEq, Repr

structure MultipartPart where
  partNumber : Nat
  identity : ContentIdentity
  verificationToken : String
  deriving DecidableEq, Repr

structure MultipartSession where
  sessionId : String
  objectRef : ObjectReference
  partSize : Nat
  expiresAt : String
  deriving DecidableEq, Repr

inductive PutState where
  | initial
  | uploading
  | verifying
  | committed
  | aborted
  | failed
  deriving DecidableEq, Repr

structure ResolvedRange where
  start : Nat
  «end» : Nat
  deriving DecidableEq, Repr

def ResolvedRange.length (range : ResolvedRange) : Nat := range.end - range.start + 1

/-- The normalized input of `put`. -/
structure PutInput where
  objectId : String
  payload : Json
  createOnly : Bool
  immutability : Option JsonObject
  retention : Option JsonObject
  expectedDigest : Option String
  expectedLength : Option Nat
  mediaType : String
  creationContext : JsonObject
  userMetadata : JsonObject
  provenance : Json

inductive OperationInput where
  | put (value : PutInput)
  | get (reference : Json)
  | stat (reference : Json)
  | readRange (reference range : Json)
  | list (prefixText : String) (limit : Nat) (cursor : Option String)
  | delete (reference : Json)

structure Operation where
  catalog : String
  operationContract : String
  operationVersion : String
  resources : List ResourceRef
  requirements : List Json
  input : OperationInput

/-- What `execute` returns, by the operation that returns it. -/
inductive Result where
  | put (metadata : ObjectMetadata)
  | get (metadata : ObjectMetadata) (payload : PayloadReference)
  | stat (metadata : ObjectMetadata)
  | readRange (metadata : ObjectMetadata) (payload : PayloadReference) (range : ResolvedRange)
  | list (items : List ObjectMetadata) (cursor : Option String)
  | delete

end MeridianOci.Model
