import MeridianOci.Model.Adapter

/-!
# Logical export and import

`migration.py`: a resolved object with a payload reference that reads its blob, and the put
that publishes it elsewhere. The Object Common surface and its normaliser, which turn the
arguments of a put into an operation, are a parameter.
-/
namespace MeridianOci.Model

open MeridianOci.Data MeridianOci.Effect

set_option autoImplicit false

structure LogicalObjectExport where
  metadata : ObjectMetadata
  payload : PayloadReference
  immutability : ImmutabilityRequest
  retention : Option RetentionRequest

variable (P : Platform) (adapter : OciDistributionAdapter)

/-- `export_logical`; the argument is what `parse_object_reference` reads. -/
def exportLogical (raw : JsonObject) : Action LogicalObjectExport := do
  let parsed ← Action.lift
    (match P.parseObjectReference raw false with
      | .ok parsed => .ok parsed
      | .error error =>
        if error.isTypeOrValue then
          .error (.of .objectInvalidRequest
            ("invalid migration Object reference: " ++ error.message.getD ""))
        else .error error)
  if parsed.resourceRef ≠ adapter.semanticResource then
    throw (.of .objectInvalidRequest "migration Object reference does not match the binding")
  else
    let resolved ← adapter.storedForReference P parsed
    let payload ← Action.register ⟨resolved.payload.digest, none⟩ resolved.payload.size
      (some resolved.payload.digest)
    return ⟨resolved.stored.metadata, payload, resolved.stored.immutability, resolved.stored.retention⟩

/-- The keyword arguments of `surface.put`. -/
structure PutArguments where
  resource : ResourceRef
  objectId : String
  payload : PayloadReference
  mediaType : String
  expectedDigest : String
  expectedLength : Nat
  userMetadata : JsonObject
  creationContext : JsonObject
  provenance : JsonObject
  immutability : ImmutabilityRequest
  retention : Option RetentionRequest
  createOnly : Bool

/-- What `import_logical` hands to the surface. -/
def importArguments (exported : LogicalObjectExport) (createOnly : Bool) : PutArguments where
  resource := adapter.binding.resourceRef
  objectId := exported.metadata.objectRef.objectId
  payload := exported.payload
  mediaType := exported.metadata.mediaType
  expectedDigest := exported.metadata.digest
  expectedLength := exported.metadata.byteLength
  userMetadata := exported.metadata.userMetadata
  creationContext := exported.metadata.creationContext
  provenance := Json.pop exported.metadata.provenance "meridianAdapter"
  immutability := exported.immutability
  retention := exported.retention
  createOnly

/-- `import_logical`. -/
def importLogical (normalize : PutArguments → Except Err Operation) (exported : LogicalObjectExport)
    (createOnly : Bool := true) : Action Result := do
  let operation ← Action.lift (normalize (importArguments adapter exported createOnly))
  adapter.execute P operation

end MeridianOci.Model
