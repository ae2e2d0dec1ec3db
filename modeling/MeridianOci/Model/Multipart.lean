import MeridianOci.Model.Adapter

/-!
# The multipart manager

`multipart/__init__.py`. A session is an entry of a table that points to a mutable
state object; calls read and update that object between their registry calls, and no
lock covers it. Each access to it is an operation of its own.
-/
namespace MeridianOci.Model

open MeridianOci.Data MeridianOci.Effect

set_option autoImplicit false

/-- `limits.min_part_bytes`. -/
def minPartBytes : Nat := 64 * 1024

def unknownSession : Err :=
  .of .multipartInvalid "multipart session is unknown or does not match the Object"

namespace Memory

def lookup (memory : Memory) (sessionId : String) : Option Nat :=
  (memory.sessions.find? fun entry => entry.1 = sessionId).map (·.2)

/-- `_sessions.pop(session_id, None)`. -/
def pop (memory : Memory) (sessionId : String) : Memory :=
  { memory with sessions := memory.sessions.filter fun entry => entry.1 ≠ sessionId }

/-- `_sessions[session_id] = state`, with a new state object. -/
def insert (memory : Memory) (sessionId : String) (state : MultipartState) : Memory where
  heap := memory.heap ++ [state]
  sessions := (sessionId, memory.heap.length) :: (memory.pop sessionId).sessions

def modify (memory : Memory) (reference : Nat) (update : MultipartState → MultipartState) : Memory :=
  { memory with heap := memory.heap.modify reference update }

end Memory

def MultipartState.start (input : PutInput) (upload : UploadLocation) (machine : PutState) :
    MultipartState where
  input := input
  upload := upload
  machine := machine
  hashed := []
  length := 0
  nextPart := 1
  parts := []

/-- A part was stored completely. -/
def MultipartState.acknowledge (part : MultipartPart) (state : MultipartState) : MultipartState :=
  { state with
    length := state.length + part.identity.byteLength
    parts := state.parts ++ [part]
    nextPart := state.nextPart + 1 }

/-- The last instant of the year 9999. -/
def maxInstant : Int := 253402300799999999

/-- `now + timedelta(hours=1)`, or the `OverflowError` beyond the last `datetime`. -/
def hourAfter (now : Int) : Except Err Int :=
  if maxInstant < now + 3600 * 1000000 then .error (.of .other "date value out of range")
  else .ok (now + 3600 * 1000000)

variable (P : Platform)

def hexText (bytes : Bytes) : String :=
  String.ofList (bytes.flatMap fun byte =>
    [Json.hexDigit (byte.toNat / 16), Json.hexDigit (byte.toNat % 16)])

/-- `_verification_token`. -/
def verificationToken (key : Bytes) (sessionId : String) (partNumber : Nat)
    (identity : ContentIdentity) : String :=
  "p_" ++ hexText (P.hmacSha256 key (utf8 (sessionId ++ "|" ++ toString partNumber ++ "|" ++
    identity.digest ++ "|" ++ toString identity.byteLength).toList))

namespace OciDistributionAdapter

variable (adapter : OciDistributionAdapter)

/-- Update a state object and return it as it was before. -/
def updateState (reference : Nat) (update : MultipartState → MultipartState) :
    Action MultipartState := do
  let memory ← Action.memory fun memory => memory.modify reference update
  match memory.heap[reference]? with
  | some state => return state
  | none => throw { kind := .other }

def readState (reference : Nat) : Action MultipartState := do
  let memory ← Action.memory fun memory => memory
  match memory.heap[reference]? with
  | some state => return state
  | none => throw { kind := .other }

/-- `state.machine.transition(target)`. -/
def transitionState (reference : Nat) (target : PutState) : Action Unit := do
  let state ← updateState reference fun state =>
    match P.transition state.machine target with
    | .ok machine => { state with machine }
    | .error _ => state
  let _ ← Action.lift (P.transition state.machine target)
  return ()

/-- `state.machine.fail(physical_commit_possible=...)`. -/
def failState (reference : Nat) (physicalCommit : Bool) : Action Unit := do
  let state ← updateState reference fun state =>
    match P.fail state.machine physicalCommit with
    | .ok machine => { state with machine }
    | .error _ => state
  let _ ← Action.lift (P.fail state.machine physicalCommit)
  return ()

/-- `_object_reference_for_operation`. -/
def objectReferenceOf (value : PutInput) : ObjectReference :=
  ⟨adapter.semanticResource, value.objectId, value.expectedDigest⟩

/-- `_state`: the live state object of a session. -/
def stateOf (session : MultipartSession) : Action Nat := do
  let memory ← Action.memory fun memory => memory
  match memory.lookup session.sessionId with
  | none => throw unknownSession
  | some reference =>
    match memory.heap[reference]? with
    | none => throw unknownSession
    | some state =>
      if session.objectRef ≠ adapter.objectReferenceOf state.input then throw unknownSession
      else return reference

/-- The session of a put that is begun at an instant. -/
def newSession (sessionId : String) (value : PutInput) (createdAt : Int) : Except Err MultipartSession := do
  let expires ← hourAfter createdAt
  let session : MultipartSession :=
    ⟨sessionId, adapter.objectReferenceOf value, adapter.binding.chunkSize, P.timestamp expires⟩
  P.newMultipartSession session
  return session

def beginMultipart (operation : Operation) : Action MultipartSession := do
  let method ← Action.lift (adapter.validateOperation operation)
  if method ≠ "put" then
    throw (.of .multipartInvalid "multipart is available only for Object put")
  else
    Action.lift (P.requireObjectCapabilities adapter.binding operation.requirements)
    match operation.input with
    | .put value => do
      let immutability ← Action.lift (immutabilityOf P value)
      let upload ← Action.locked do
        adapter.requireCreateAvailable P value.objectId immutability
          (value.createOnly || immutability.publishOnce)
        adapter.transport.startUpload P
      let machine ← Action.lift (P.transition .initial .uploading)
      let token ← Action.token
      let createdAt ← now
      let session ← Action.lift (adapter.newSession P ("u" ++ token) value createdAt)
      let _ ← Action.memory fun memory => memory.insert session.sessionId (.start value upload machine)
      return session
    | _ => throw { kind := .other }

variable {P adapter} in
theorem newSession_ok {sessionId : String} {value : PutInput} {createdAt : Int} {session : MultipartSession}
    (h : adapter.newSession P sessionId value createdAt = .ok session) :
    session.sessionId = sessionId ∧ session.objectRef = adapter.objectReferenceOf value ∧
      session.partSize = adapter.binding.chunkSize ∧
      session.expiresAt = P.timestamp (createdAt + 3600 * 1000000) := by
  unfold newSession hourAfter at h
  split at h
  · cases h
  simp only [bind, Except.bind] at h
  split at h
  · cases h
  · obtain rfl := Except.ok.inj h
    exact ⟨rfl, rfl, rfl, rfl⟩

variable {P adapter} in
theorem newSession_eq {sessionId : String} {value : PutInput} {createdAt : Int}
    (hdate : createdAt + 3600 * 1000000 ≤ maxInstant)
    (haccepted : P.newMultipartSession ⟨sessionId, adapter.objectReferenceOf value, adapter.binding.chunkSize,
      P.timestamp (createdAt + 3600 * 1000000)⟩ = .ok ()) :
    adapter.newSession P sessionId value createdAt = .ok ⟨sessionId, adapter.objectReferenceOf value,
      adapter.binding.chunkSize, P.timestamp (createdAt + 3600 * 1000000)⟩ := by
  unfold newSession hourAfter
  rw [if_neg (not_lt.mpr hdate)]
  simp only [bind, Except.bind, haccepted]
  rfl

def abortMultipart (session : MultipartSession) : Action Unit := do
  let memory ← Action.memory fun memory => memory.pop session.sessionId
  match memory.lookup session.sessionId with
  | none => return ()
  | some reference => do
    let state ← readState reference
    adapter.transport.abortSafely P state.upload
    let state ← readState reference
    if state.machine = .uploading then transitionState P reference .aborted
    else return ()

/-- Hash a chunk and append it to the upload. -/
def sendChunk (reference : Nat) (chunk : Bytes) : Action Unit := do
  let state ← updateState reference fun state => { state with hashed := state.hashed ++ chunk }
  let upload ← adapter.transport.patchUpload P state.upload chunk
  let _ ← updateState reference fun state => { state with upload }
  return ()

/-- The chunk loop of `upload_part`: the bytes of the part and their number. -/
def sendPart (session : MultipartSession) (reference : Nat) : List Bytes → Bytes → Nat →
    Action (Bytes × Nat)
  | [], hashed, length => return (hashed, length)
  | chunk :: rest, hashed, length => do
    let length := length + chunk.length
    if session.partSize < length then
      throw (.of .multipartInvalid "multipart part exceeds the session part size")
    else
      let state ← readState reference
      if adapter.binding.maxObjectBytes < state.length + length then
        throw (.of .multipartInvalid "multipart Object exceeds the configured size limit")
      else
        adapter.sendChunk P reference chunk
        sendPart session reference rest (hashed ++ chunk) length

/-- The `try` block of `upload_part`. -/
def transferPart (session : MultipartSession) (reference : Nat) (payload : PayloadReference) :
    Action ContentIdentity := do
  let stream ← Action.openPayload payload session.partSize
  let (hashed, length) ← adapter.sendPart P session reference stream.chunks [] 0
  match stream.failure with
  | some failure => throw failure
  | none =>
    if length = 0 then throw (.of .multipartInvalid "multipart parts cannot be empty")
    else
      let identity : ContentIdentity := ⟨sha256Digest P hashed, length⟩
      Action.lift (verifyIdentity payload identity)
      return identity

def uploadPart (session : MultipartSession) (partNumber : Nat) (payload : PayloadReference) :
    Action MultipartPart := do
  let reference ← adapter.stateOf session
  let state ← readState reference
  if partNumber ≠ state.nextPart then
    throw (.of .multipartInvalid "OCI multipart parts must be uploaded in order")
  else if adapter.binding.maxMultipartParts < partNumber then
    throw (.of .multipartInvalid "OCI multipart part-count limit was exceeded")
  else
    let identity ← tryCatch (adapter.transferPart P session reference payload) fun error => do
      adapter.abortMultipart P session
      throw error
    let token := verificationToken P adapter.binding.cursorSigningKey session.sessionId partNumber
      identity
    let part : MultipartPart := ⟨partNumber, identity, token⟩
    let _ ← updateState reference (·.acknowledge part)
    return part

/-- The `with` block of `complete_multipart`. -/
def commitMultipart (reference : Nat) (value : PutInput) (identity : ContentIdentity)
    (immutability : ImmutabilityRequest) (retention : Option RetentionRequest) :
    Action ObjectMetadata := do
  let createOnly := value.createOnly || immutability.publishOnce
  adapter.requireCreateAvailable P value.objectId immutability createOnly
  let state ← readState reference
  let _ ← adapter.transport.finishUpload P state.upload identity.digest
  transitionState P reference .verifying
  let metadata ← adapter.commitObject P value identity immutability retention createOnly
  transitionState P reference .committed
  return metadata

/-- The `except` block of `complete_multipart`. -/
def abandonMultipart (reference : Nat) (error : Err) : Action ObjectMetadata := do
  let state ← readState reference
  if state.machine = .uploading then
    adapter.transport.abortSafely P state.upload
    failState P reference false
    throw error
  else if state.machine = .verifying then
    failState P reference true
    throw error
  else throw error

def completeMultipart (session : MultipartSession) (supplied : List MultipartPart) :
    Action ObjectMetadata := do
  let reference ← adapter.stateOf session
  let state ← readState reference
  if supplied ≠ state.parts then
    throw (.of .multipartInvalid "multipart completion parts do not match uploaded parts")
  else if supplied.dropLast.any (fun part => part.identity.byteLength < minPartBytes) then
    throw (.of .multipartInvalid "every non-final multipart part must meet the minimum size")
  else
    let identity : ContentIdentity := ⟨sha256Digest P state.hashed, state.length⟩
    Action.lift (P.multipartCompletion supplied identity)
    let value := state.input
    if value.expectedDigest.getD identity.digest ≠ identity.digest then
      adapter.abortMultipart P session
      throw (.of .incompleteUpload "multipart digest does not match the put declaration")
    else if value.expectedLength.getD identity.byteLength ≠ identity.byteLength then
      adapter.abortMultipart P session
      throw (.of .incompleteUpload "multipart length does not match the put declaration")
    else
      let immutability ← Action.lift (immutabilityOf P value)
      let retention ← Action.lift (retentionOf P value)
      (tryCatch
        (Action.locked (adapter.commitMultipart P reference value identity immutability retention))
        (adapter.abandonMultipart P reference)).finally_ do
          let _ ← Action.memory fun memory => memory.pop session.sessionId
          return ()

end OciDistributionAdapter

end MeridianOci.Model
