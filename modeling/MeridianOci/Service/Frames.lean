import MeridianOci.Effect.Uses
import MeridianOci.Service.Multipart

/-!
# Programs that only read

The reads of the client, and the lookups and tag scans of the adapter, send requests that
change nothing. Without faults each of them has one result in a world.
-/
namespace MeridianOci.Service

open MeridianOci.Data MeridianOci.Effect MeridianOci.Model

set_option autoImplicit false

variable {P : Platform} {adapter : OciDistributionAdapter}

/-- A request that no registry acts on. -/
def Request.Reads : Request → Prop := fun request =>
  ∃ digest range, request = .getBlob digest range ∨ request = .headBlob digest ∨
    request = .headManifest digest ∨ request = .getManifest digest ∨
    ∃ limit last, request = .listTags limit last

def Op.Reads (op : Op) : Prop := ∃ request, op = .send request ∧ Request.Reads request

theorem apply_reads {binding : OciDistributionBinding} {policy : Policy P binding} {request : Request}
    (h : Request.Reads request) (w : World policy) : w.apply request = w := by
  obtain ⟨digest, range, rfl | rfl | rfl | rfl | ⟨limit, last, rfl⟩⟩ := h
  · exact w.apply_getBlob digest range
  · exact w.apply_headBlob digest
  · exact w.apply_headManifest digest
  · exact w.apply_getManifest digest
  · exact w.apply_listTags limit last

theorem build_reads {request : Request} (h : Request.Reads request) : request.target.build P = .ok () := by
  obtain ⟨digest, range, rfl | rfl | rfl | rfl | ⟨limit, last, rfl⟩⟩ := h <;> rfl

theorem uses_lift {α : Type} {A : Op → Prop} (outcome : Except Err α) : (Action.lift outcome).Uses A :=
  Prog.uses_ofExcept outcome

/-- The retry loop repeats one send. -/
theorem uses_request (client : RegistryHttpClient) (request : Request) (expected : List Nat) (retry : Bool)
    (maximumBytes : Nat) :
    (client.request P request expected retry maximumBytes).Uses (· = .send request) := by
  unfold RegistryHttpClient.request
  cases request.target.build P with
  | error error => trivial
  | ok _ => ?_
  dsimp only
  generalize (if retry then client.maxReadAttempts else 1) = total
  induction total with
  | zero => trivial
  | succ left ih =>
    refine ⟨rfl, fun answer => ?_⟩
    unfold RegistryHttpClient.judge
    repeat' split
    all_goals trivial

section Attempts

/-- The look at the declared digest before an attempt. -/
def lookBefore (P : Platform) (adapter : OciDistributionAdapter) (payload : PayloadReference) :
    Action (Option (OciDescriptor P)) :=
  match payload.expectedDigest with
  | none => pure none
  | some digest => adapter.transport.headBlob P digest

/-- What an attempt does with the outcome of its transfer. -/
def afterTransfer (P : Platform) (adapter : OciDistributionAdapter) (payload : PayloadReference) (left : Nat) :
    Except Err ContentIdentity → Action ContentIdentity
  | .ok identity => return identity
  | .error error =>
    if (error.kind = .objectUnavailable ∨ error.kind = .objectRateLimited) ∧ 0 < left then
      adapter.uploadAttempt P payload left
    else throw error

/-- An attempt is a look, a transfer and a decision about what the transfer gave. -/
theorem uploadAttempt_succ (payload : PayloadReference) (left : Nat) : adapter.uploadAttempt P payload (left + 1) =
    lookBefore P adapter payload >>= fun existing =>
      (adapter.transfer P payload existing).handle (afterTransfer P adapter payload left) := by
  conv_lhs => unfold OciDistributionAdapter.uploadAttempt
  unfold lookBefore
  cases payload.expectedDigest <;> rfl

end Attempts

section Reads

variable (P) (client : RegistryHttpClient)

theorem reads_request {request : Request} (h : Request.Reads request) (expected : List Nat) (retry : Bool)
    (maximumBytes : Nat) : (client.request P request expected retry maximumBytes).Uses Op.Reads :=
  (uses_request client request expected retry maximumBytes).mono fun _ heq => ⟨request, heq, h⟩

theorem reads_headBlob (digest : String) : (client.headBlob P digest).Uses Op.Reads := by
  refine (reads_request P client ⟨digest, none, .inr (.inl rfl)⟩ _ _ _).bind fun response => ?_
  split
  · trivial
  · refine (uses_lift _).bind fun size => ?_
    split
    · trivial
    · exact (uses_lift _).bind fun _ => trivial

theorem reads_manifestExists (reference : String) :
    (client.manifestExists P reference).Uses Op.Reads :=
  (reads_request P client ⟨reference, none, .inr (.inr (.inl rfl))⟩ _ _ _).bind fun _ => trivial

theorem reads_getManifest (reference : String) : (client.getManifest P reference).Uses Op.Reads := by
  refine (reads_request P client ⟨reference, none, .inr (.inr (.inr (.inl rfl)))⟩ _ _ _).bind
    fun response => ?_
  dsimp only
  repeat' split
  all_goals trivial

theorem reads_getBlobBytes (descriptor : OciDescriptor P) (maximumBytes : Nat) :
    (client.getBlobBytes P descriptor maximumBytes).Uses Op.Reads := by
  unfold RegistryHttpClient.getBlobBytes
  split
  · trivial
  · refine (reads_request P client ⟨_, none, .inl rfl⟩ _ _ _).bind fun response => ?_
    dsimp only
    repeat' split
    all_goals trivial

theorem reads_listTags (limit : Nat) (last : Option String) :
    (client.listTags P limit last).Uses Op.Reads := by
  refine (reads_request P client ⟨"", none, .inr (.inr (.inr (.inr ⟨limit, last, rfl⟩)))⟩ _ _ _).bind
    fun response => ?_
  split
  · trivial
  · refine (uses_lift _).bind fun value => ?_
    repeat' split
    all_goals trivial

/-- An operation that sends a request. -/
def Op.Sends (op : Op) : Prop := ∃ request, op = .send request

theorem Op.Reads.sends {op : Op} (h : Op.Reads op) : Op.Sends op := by
  obtain ⟨request, heq, -⟩ := h
  exact ⟨request, heq⟩

theorem sends_request (request : Request) (expected : List Nat) (retry : Bool) (maximumBytes : Nat) :
    (client.request P request expected retry maximumBytes).Uses Op.Sends :=
  (uses_request client request expected retry maximumBytes).mono fun _ heq => ⟨request, heq⟩

theorem sends_startUpload : (client.startUpload P).Uses Op.Sends := by
  refine (sends_request P client _ _ _ _).bind fun response => (uses_lift _).bind fun url => ?_
  dsimp only
  repeat' split
  all_goals trivial

theorem sends_patchUpload (upload : UploadLocation) (chunk : Bytes) :
    (client.patchUpload P upload chunk).Uses Op.Sends := by
  unfold RegistryHttpClient.patchUpload
  split
  · trivial
  · refine (sends_request P client _ _ _ _).bind fun response => ?_
    split
    · trivial
    · exact (uses_lift _).bind fun location => trivial

theorem sends_finishUpload (upload : UploadLocation) (digest : String) :
    (client.finishUpload P upload digest).Uses Op.Sends := by
  refine (sends_request P client _ _ _ _).bind fun response => ?_
  split
  · trivial
  · exact uses_lift _

theorem sends_abortSafely (upload : UploadLocation) : (client.abortSafely P upload).Uses Op.Sends :=
  Prog.Uses.handle ((sends_request P client _ _ _ _).bind fun _ => trivial) fun outcome => by
    cases outcome <;> trivial

theorem sends_uploadBlobBytes (value : Bytes) (mediaType : String) :
    (client.uploadBlobBytes P value mediaType).Uses Op.Sends := by
  unfold RegistryHttpClient.uploadBlobBytes
  dsimp only
  refine ((reads_headBlob P client _).mono fun _ h => h.sends).bind fun existing => ?_
  cases existing with
  | some existing =>
    dsimp only
    split
    · trivial
    · exact uses_lift _
  | none =>
    refine (sends_startUpload P client).bind fun upload => Prog.Uses.bind (Prog.Uses.tryCatch ?_ fun error => ?_)
      fun _ => uses_lift _
    · refine (sends_request P client _ _ _ _).bind fun response => ?_
      split <;> trivial
    · exact (sends_abortSafely P client upload).bind fun _ => trivial

variable (adapter)

theorem reads_storedFromManifest (document : ManifestDocument P) :
    (adapter.storedFromManifest P document).Uses Op.Reads := by
  unfold OciDistributionAdapter.storedFromManifest
  cases manifestDescriptors document with
  | error error =>
    dsimp only
    split <;> trivial
  | ok descriptors =>
    obtain ⟨config, payload, subject⟩ := descriptors
    simp only [Prog.pure_eq, Prog.ret_bind]
    refine (reads_getBlobBytes P adapter.transport _ _).bind fun configBytes => ?_
    cases StoredObject.fromBytes P configBytes adapter.binding.maxMetadataBytes with
    | error error =>
      dsimp only
      split <;> trivial
    | ok stored =>
      dsimp only [Prog.ret_bind]
      split <;> trivial

theorem reads_storedForReference (reference : ObjectReference) :
    (adapter.storedForReference P reference).Uses Op.Reads := by
  unfold OciDistributionAdapter.storedForReference
  refine (uses_lift _).bind fun tag => ?_
  refine (reads_getManifest P adapter.transport tag).bind fun document => ?_
  refine (reads_storedFromManifest P adapter document).bind fun resolved => ?_
  dsimp only
  split
  · trivial
  split
  · trivial
  split
  · trivial
  refine (uses_lift _).bind fun anchorReference => ?_
  refine (reads_getManifest P adapter.transport anchorReference).bind fun anchor => ?_
  refine (uses_lift _).bind fun descriptors => ?_
  split <;> trivial

theorem reads_scanTags (prefixText : String) (limit : Nat) (tags : List String)
    (items : List ObjectMetadata) (scanned : Option String) :
    (adapter.scanTags P prefixText limit tags items scanned).Uses Op.Reads := by
  induction tags generalizing items scanned with
  | nil => trivial
  | cons tag rest ih =>
    unfold OciDistributionAdapter.scanTags
    split
    · exact ih items (some tag)
    · refine (reads_getManifest P adapter.transport tag).bind fun document => ?_
      refine (reads_storedFromManifest P adapter document).bind fun resolved => ?_
      dsimp only
      split
      · split
        · trivial
        · exact ih _ _
      · split
        · trivial
        · exact ih _ _

theorem reads_list (prefixText : String) (limit : Nat) (cursor : Option String) :
    (adapter.list P prefixText limit cursor).Uses Op.Reads := by
  unfold OciDistributionAdapter.list
  refine (uses_lift _).bind fun last => ?_
  refine (reads_listTags P adapter.transport _ _).bind fun page => ?_
  refine (reads_scanTags P adapter prefixText limit page.tags [] none).bind fun found => ?_
  repeat' split
  all_goals trivial

end Reads

variable {setting : Setting P adapter.transport.binding}

theorem env_reads {op : Op} {w w' : World setting.policy} {answer : Except Err op.Res} (h : Op.Reads op)
    (henv : setting.env op w answer w') : w' = w := by
  obtain ⟨request, rfl, hreads⟩ := h
  rcases henv with ⟨-, rfl⟩ | ⟨-, -, rfl | rfl⟩
  · exact apply_reads hreads w
  · rfl
  · exact apply_reads hreads w

/-- A program that only reads leaves the world as it is. -/
theorem reads_ensures {α : Type} {program : Action α} (h : program.Uses Op.Reads)
    {G : World setting.policy → World setting.policy → Prop} (hrefl : ∀ w, G w w) (w : World setting.policy) :
    program.Ensures setting.env G w fun _ w' => w' = w :=
  h.unchanged hrefl (fun _ _ _ _ hop henv => env_reads hop henv) w

end MeridianOci.Service
