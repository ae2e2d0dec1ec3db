import MeridianOci.Effect.Prog
import MeridianOci.Model.Models

/-!
# What the adapter does to the outside

The operations of the model: one HTTP send, the credentials, opening and registering
payloads, the clock, the random token, the write lock and the process memory that the
multipart manager keeps. An `Action` is a program over them that raises an `Err`.
-/
namespace MeridianOci.Model

open MeridianOci.Data MeridianOci.Effect

set_option autoImplicit false

inductive Method where
  | get
  | head
  | post
  | put
  | patch
  | delete
  deriving DecidableEq, Repr

/-- The resource a request URL names; an upload is named by the absolute URL it was given. -/
inductive Target where
  | base
  | uploads
  | upload (url : String) (digest : Option String)
  | blob (digest : String)
  | manifest (reference : String)
  | tags (limit : Nat) (last : Option String)
  | referrers (subjectDigest artifactType : String)
  deriving DecidableEq, Repr

structure Request where
  method : Method
  target : Target
  contentRange : Option (Nat × Nat) := none
  range : Option (Nat × Nat) := none
  content : Bytes := []
  deriving DecidableEq, Repr

/-- A response as its stream delivers it: decoded chunks, then possibly a failure. -/
structure Response where
  status : Nat
  headers : Headers
  url : String
  chunks : List Bytes
  failure : Option Err

/-- A payload or blob stream: the chunks it delivers, then possibly a failure. -/
structure Stream where
  chunks : List Bytes
  failure : Option Err

/-- `RegistryBlobSource`: which part of which blob opening it reads. -/
structure RegistryBlobSource where
  digest : String
  range : Option (Nat × Nat)
  deriving DecidableEq, Repr

/-- `_MultipartState`; `hashed` is what the hasher was fed. -/
structure MultipartState where
  input : PutInput
  upload : UploadLocation
  machine : PutState
  hashed : Bytes
  length : Nat
  nextPart : Nat
  parts : List MultipartPart

/-- The manager's objects: every state that was created, and the live sessions among them. -/
structure Memory where
  heap : List MultipartState
  sessions : List (String × Nat)

inductive Op where
  | send (request : Request)
  /-- Building the request of an `open_blob`, which asks the credentials. A buffered request is built
  in the `try` around its send, and what that raises is part of the send's answer. -/
  | authorize
  | openPayload (payload : PayloadReference) (chunkSize : Nat)
  | register (source : RegistryBlobSource) (expectedLength : Nat) (expectedDigest : Option String)
  | clock
  | token
  | acquire
  | release
  /-- One atomic update of the manager's objects; the answer is the memory before it. -/
  | memory (update : Memory → Memory)

@[reducible] def Op.Res : Op → Type
  | .send _ => Response
  | .authorize => Unit
  | .openPayload _ _ => Stream
  | .register _ _ _ => PayloadReference
  | .clock => DateTime
  | .token => String
  | .acquire => Unit
  | .release => Unit
  | .memory _ => Memory

abbrev Action (α : Type) := Prog Op Op.Res Err α

namespace Action

variable {α : Type}

def authorize : Action Unit := Prog.perform Op.authorize

def openPayload (payload : PayloadReference) (chunkSize : Nat) : Action Stream :=
  Prog.perform (Op.openPayload payload chunkSize)

def register (source : RegistryBlobSource) (expectedLength : Nat) (expectedDigest : Option String) :
    Action PayloadReference := Prog.perform (Op.register source expectedLength expectedDigest)

def clock : Action DateTime := Prog.perform Op.clock

def token : Action String := Prog.perform Op.token

def acquire : Action Unit := Prog.perform Op.acquire

def release : Action Unit := Prog.perform Op.release

def memory (update : Memory → Memory) : Action Memory := Prog.perform (Op.memory update)

/-- `try: action except Exception: return`. -/
def safely (action : Action Unit) : Action Unit := action.handle fun _ => .ret ()

/-- `with self._write_lock`. -/
def locked (action : Action α) : Action α :=
  acquire >>= fun _ => action.finally_ release

def lift : Except Err α → Action α := Prog.ofExcept

@[simp] theorem lift_ok (value : α) : lift (.ok value) = .ret value := rfl

@[simp] theorem lift_error (error : Err) : lift (.error error : Except Err α) = .raise error := rfl

end Action

end MeridianOci.Model
