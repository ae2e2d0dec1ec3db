import MeridianOci.Service.Frames

/-!
# Composed operations

Put, get, stat, range read, list and delete are sequences of reads, uploads and
publications. A property of programs that sequencing keeps, and that every operation
aside of uploads and memory has, holds of an operation as soon as it holds of its uploads.
-/
namespace MeridianOci.Service

open MeridianOci.Data MeridianOci.Effect MeridianOci.Model

set_option autoImplicit false

variable {P : Platform}

/-! ## Operations that leave uploads and memory alone -/

/-- An operation that concerns neither an upload nor the memory. -/
def Op.Aside (op : Op) : Prop :=
  (∀ request, op = .send request → Target.isUpload request.target = false) ∧ ∀ update, op ≠ .memory update

theorem Op.Reads.aside {op : Op} (h : Op.Reads op) : Op.Aside op := by
  obtain ⟨request, rfl, digest, range, rfl | rfl | rfl | rfl | ⟨limit, last, rfl⟩⟩ := h
  all_goals
    constructor
    · rintro _ ⟨⟩
      rfl
    · rintro update ⟨⟩

theorem aside_lift {α : Type} (outcome : Except Err α) : (Action.lift outcome).Uses Op.Aside := uses_lift outcome

theorem aside_openPayload (payload : PayloadReference) (chunkSize : Nat) :
    (Action.openPayload payload chunkSize).Uses Op.Aside :=
  Prog.uses_perform ⟨(by rintro request ⟨⟩), by rintro update ⟨⟩⟩

theorem aside_register (source : RegistryBlobSource) (length : Nat) (digest : Option String) :
    (Action.register source length digest).Uses Op.Aside :=
  Prog.uses_perform ⟨(by rintro request ⟨⟩), by rintro update ⟨⟩⟩

theorem aside_acquire : (Action.acquire).Uses Op.Aside :=
  Prog.uses_perform ⟨(by rintro request ⟨⟩), by rintro update ⟨⟩⟩

theorem aside_release : (Action.release).Uses Op.Aside :=
  Prog.uses_perform ⟨(by rintro request ⟨⟩), by rintro update ⟨⟩⟩

theorem aside_send {request : Request} (h : Target.isUpload request.target = false) (client : RegistryHttpClient)
    (expected : List Nat) (retry : Bool) (maximumBytes : Nat) :
    (client.request P request expected retry maximumBytes).Uses Op.Aside := by
  refine (uses_request client request expected retry maximumBytes).mono ?_
  rintro _ rfl
  exact ⟨(by rintro _ ⟨⟩; exact h), by rintro update ⟨⟩⟩

theorem aside_now : (OciDistributionAdapter.now).Uses Op.Aside := by
  refine (Prog.uses_perform ⟨(by rintro request ⟨⟩), by rintro update ⟨⟩⟩).bind fun reading => ?_
  cases reading <;> trivial

section Aside

variable (P) (adapter : OciDistributionAdapter)

theorem aside_headBlob (digest : String) : (adapter.transport.headBlob P digest).Uses Op.Aside :=
  (reads_headBlob P adapter.transport digest).mono fun _ => Op.Reads.aside

theorem aside_manifestExists (reference : String) : (adapter.transport.manifestExists P reference).Uses Op.Aside :=
  (reads_manifestExists P adapter.transport reference).mono fun _ => Op.Reads.aside

theorem aside_getManifest (reference : String) : (adapter.transport.getManifest P reference).Uses Op.Aside :=
  (reads_getManifest P adapter.transport reference).mono fun _ => Op.Reads.aside

theorem aside_storedForReference (reference : ObjectReference) :
    (adapter.storedForReference P reference).Uses Op.Aside :=
  (reads_storedForReference P adapter reference).mono fun _ => Op.Reads.aside

theorem aside_putManifest (reference : String) (body : Bytes) :
    (adapter.transport.putManifest P reference body).Uses Op.Aside := by
  refine (aside_lift _).bind fun document => ?_
  refine (aside_send rfl adapter.transport _ _ _).bind fun response => ?_
  split
  · trivial
  · exact aside_lift _

theorem aside_deleteManifest (reference : String) :
    (adapter.transport.deleteManifest P reference).Uses Op.Aside :=
  (aside_send rfl adapter.transport _ _ _).bind fun _ => trivial

theorem reads_requireCreateAvailable (objectId : String) (immutability : ImmutabilityRequest) (createOnly : Bool) :
    (adapter.requireCreateAvailable P objectId immutability createOnly).Uses Op.Reads := by
  unfold OciDistributionAdapter.requireCreateAvailable
  split
  · trivial
  · refine (uses_lift _).bind fun reference => ?_
    refine (reads_manifestExists P adapter.transport reference).bind fun found => ?_
    split <;> trivial

theorem aside_requireCreateAvailable (objectId : String) (immutability : ImmutabilityRequest) (createOnly : Bool) :
    (adapter.requireCreateAvailable P objectId immutability createOnly).Uses Op.Aside :=
  (reads_requireCreateAvailable P adapter objectId immutability createOnly).mono fun _ => Op.Reads.aside

end Aside

/-! ## Sequences -/

/-- A property of programs that operations aside have, and that sequencing, the write lock and
marking a put as failed keep. -/
structure Sequential (P : Platform) (S : (α : Type) → Action α → Prop) : Prop where
  aside : ∀ {α : Type} {program : Action α}, program.Uses Op.Aside → S α program
  bind : ∀ {α β : Type} {program : Action α} {next : α → Action β}, S α program → (∀ value, S β (next value)) →
    S β (program >>= next)
  locked : ∀ {α : Type} {action : Action α}, S α action → S α (Action.locked action)
  failing : ∀ {α : Type} (machine : PutState) (physicalCommit : Bool) {action : Action α}, S α action →
    S α (failing P machine physicalCommit action)

namespace Sequential

variable {S : (α : Type) → Action α → Prop} (hS : Sequential P S)

include hS

theorem ret {α : Type} (value : α) : S α (.ret value) := hS.aside (Prog.uses_ret value)

theorem raise {α : Type} (error : Err) : S α (.raise error) := hS.aside (Prog.uses_raise error)

theorem lift {α : Type} (outcome : Except Err α) : S α (Action.lift outcome) := hS.aside (aside_lift outcome)

variable {adapter : OciDistributionAdapter}
variable (hblob : ∀ value mediaType, S _ (adapter.transport.uploadBlobBytes P value mediaType))

include hblob

theorem ensureAnchor (objectId : String) : S _ (adapter.ensureAnchor P objectId) := by
  refine hS.bind (hS.lift _) fun tag => ?_
  refine hS.bind (hS.aside (aside_manifestExists P adapter tag)) fun found => ?_
  split
  · refine hS.bind (hS.aside (aside_getManifest P adapter tag)) fun document => ?_
    split
    · exact hS.raise _
    · exact hS.lift _
  · refine hS.bind (hblob _ _) fun _ => ?_
    exact hS.aside (aside_putManifest P adapter _ _)

theorem publishVersion (objectId : String) (identity : ContentIdentity) (anchor : OciDescriptor P)
    (stored : StoredObject) (exactTag : String) :
    S _ (adapter.publishVersion P objectId identity anchor stored exactTag) := by
  unfold OciDistributionAdapter.publishVersion
  dsimp only
  split
  · exact hS.raise _
  · refine hS.bind (hblob _ _) fun config => ?_
    refine hS.bind (hS.lift _) fun payload => ?_
    refine hS.bind (hS.aside (aside_putManifest P adapter _ _)) fun _ => ?_
    refine hS.bind (hS.lift _) fun latest => ?_
    exact hS.bind (hS.aside (aside_putManifest P adapter _ _)) fun _ => hS.ret _

theorem commitObject (value : PutInput) (identity : ContentIdentity) (immutability : ImmutabilityRequest)
    (retention : Option RetentionRequest) (createOnly : Bool) :
    S _ (adapter.commitObject P value identity immutability retention createOnly) := by
  refine hS.bind (hS.aside (aside_requireCreateAvailable P adapter _ _ _)) fun _ => ?_
  refine hS.bind (hS.lift _) fun exactTag => ?_
  refine hS.bind (hS.aside (aside_manifestExists P adapter exactTag)) fun found => ?_
  split
  · unfold OciDistributionAdapter.commitExisting
    split
    · exact hS.raise _
    · refine hS.bind (hS.aside (aside_storedForReference P adapter _)) fun existing => ?_
      refine hS.bind (hS.lift _) fun latest => ?_
      exact hS.bind (hS.aside (aside_putManifest P adapter _ _)) fun _ => hS.ret _
  · refine hS.bind (hS.ensureAnchor hblob value.objectId) fun anchor => ?_
    refine hS.bind (hS.lift _) fun provenance => ?_
    refine hS.bind (hS.aside aside_now) fun createdAt => ?_
    refine hS.bind (hS.lift _) fun metadata => ?_
    exact hS.publishVersion hblob value.objectId identity anchor _ exactTag

variable (hpayload : ∀ payload, S _ (adapter.uploadPayload P payload))

include hpayload

theorem put (value : PutInput) : S _ (adapter.put P value) := by
  refine hS.bind (hS.lift _) fun payload => ?_
  refine hS.bind (hS.lift _) fun immutability => ?_
  refine hS.bind (hS.lift _) fun retention => ?_
  refine hS.locked ?_
  refine hS.bind (hS.aside (aside_requireCreateAvailable P adapter _ _ _)) fun _ => ?_
  refine hS.bind (hS.lift _) fun machine => ?_
  refine hS.bind (hS.failing _ _ (hpayload payload)) fun identity => ?_
  refine hS.bind (hS.failing _ _ (hS.lift _)) fun machine => ?_
  refine hS.bind (hS.failing _ _ (hS.commitObject hblob _ _ _ _ _)) fun metadata => ?_
  exact hS.bind (hS.failing _ _ (hS.lift _)) fun _ => hS.ret _

theorem execute (operation : Operation) : S _ (adapter.execute P operation) := by
  have hstored : ∀ reference, S _ (adapter.storedForReference P reference) := fun reference =>
    hS.aside (aside_storedForReference P adapter reference)
  refine hS.bind (hS.lift _) fun method => ?_
  refine hS.bind (hS.lift _) fun _ => ?_
  cases operation.input with
  | put value =>
    dsimp only
    split
    · exact hS.put hblob hpayload value
    · exact hS.raise _
  | get raw =>
    dsimp only
    split
    · refine hS.bind (hS.lift _) fun reference => hS.bind (hstored reference) fun resolved => ?_
      exact hS.bind (hS.aside (aside_register _ _ _)) fun payload => hS.ret _
    · exact hS.raise _
  | stat raw =>
    dsimp only
    split
    · refine hS.bind (hS.lift _) fun reference => hS.bind (hstored reference) fun resolved => ?_
      exact hS.ret _
    · exact hS.raise _
  | readRange raw range =>
    dsimp only
    split
    · refine hS.bind (hS.lift _) fun reference => ?_
      refine hS.bind (hS.lift _) fun byteRange => hS.bind (hstored reference) fun resolved => ?_
      refine hS.bind (hS.lift _) fun selected => ?_
      split
      · exact hS.raise _
      · exact hS.bind (hS.aside (aside_register _ _ _)) fun payload => hS.ret _
    · exact hS.raise _
  | list prefixText limit cursor =>
    dsimp only
    split
    · exact hS.aside ((reads_list P adapter prefixText limit cursor).mono fun _ => Op.Reads.aside)
    · exact hS.raise _
  | delete raw =>
    dsimp only
    split
    · refine hS.bind (hS.lift _) fun reference => hS.locked ?_
      refine hS.bind (hstored reference) fun resolved => hS.bind (hS.aside aside_now) fun now => ?_
      refine hS.bind (hS.lift _) fun _ => ?_
      refine hS.bind (hS.aside (aside_deleteManifest P adapter _)) fun found => ?_
      split
      · exact hS.ret _
      · exact hS.raise _
    · exact hS.raise _

end Sequential

/-- The same where what comes after an exception keeps the property as well. -/
structure Compositional (S : (α : Type) → Action α → Prop) : Prop where
  aside : ∀ {α : Type} {program : Action α}, program.Uses Op.Aside → S α program
  handle : ∀ {α β : Type} {program : Action α} {next : Except Err α → Action β}, S α program →
    (∀ outcome, S β (next outcome)) → S β (program.handle next)

namespace Compositional

variable {S : (α : Type) → Action α → Prop} (hS : Compositional S)

include hS

theorem ret {α : Type} (value : α) : S α (.ret value) := hS.aside (Prog.uses_ret value)

theorem raise {α : Type} (error : Err) : S α (.raise error) := hS.aside (Prog.uses_raise error)

theorem lift {α : Type} (outcome : Except Err α) : S α (Action.lift outcome) := hS.aside (aside_lift outcome)

theorem bind {α β : Type} {program : Action α} {next : α → Action β} (h : S α program)
    (hnext : ∀ value, S β (next value)) : S β (program >>= next) := by
  refine hS.handle h ?_
  rintro (error | value)
  · exact hS.raise error
  · exact hnext value

theorem finally_ {α : Type} {program : Action α} {cleanup : Action Unit} (h : S α program) (hclean : S Unit cleanup) :
    S α (program.finally_ cleanup) :=
  hS.handle h fun outcome => hS.bind hclean fun _ => hS.aside (Prog.uses_ofExcept outcome)

theorem locked {α : Type} {action : Action α} (h : S α action) : S α (Action.locked action) :=
  hS.bind (hS.aside aside_acquire) fun _ => hS.finally_ h (hS.aside aside_release)

theorem failing {α : Type} (machine : PutState) (physicalCommit : Bool) {action : Action α} (h : S α action) :
    S α (failing P machine physicalCommit action) := by
  refine hS.handle h ?_
  rintro (error | value)
  · dsimp only [Prog.onError]
    split
    · exact hS.bind (hS.lift _) fun _ => hS.raise error
    · exact hS.raise error
  · exact hS.ret value

theorem lookBefore (adapter : OciDistributionAdapter) (payload : PayloadReference) :
    S _ (lookBefore P adapter payload) := by
  unfold MeridianOci.Service.lookBefore
  cases payload.expectedDigest with
  | none => exact hS.ret none
  | some digest => exact hS.aside (aside_headBlob P adapter digest)

/-- The loop over attempts has a property that every transfer of the payload has. -/
theorem uploadAttempt {adapter : OciDistributionAdapter} {payload : PayloadReference}
    (htransfer : ∀ existing, S _ (adapter.transfer P payload existing)) (left : Nat) :
    S _ (adapter.uploadAttempt P payload left) := by
  induction left with
  | zero => exact hS.raise _
  | succ left ih =>
    rw [uploadAttempt_succ]
    refine hS.bind (hS.lookBefore adapter payload) fun existing => ?_
    refine hS.handle (htransfer existing) fun outcome => ?_
    cases outcome with
    | ok identity => exact hS.ret identity
    | error error =>
      dsimp only [afterTransfer]
      split
      · exact ih
      · exact hS.raise error

theorem sequential (P : Platform) : Sequential P S :=
  ⟨hS.aside, hS.bind, hS.locked, fun machine physicalCommit _ h => hS.failing machine physicalCommit h⟩

end Compositional

/-! ## What is returned -/

section Returned

variable {adapter : OciDistributionAdapter}

theorem storedForReference_digest (resourceRef : ResourceRef) (objectId digest : String) :
    (adapter.storedForReference P ⟨resourceRef, objectId, some digest⟩).Returns fun resolved =>
      resolved.stored.metadata.digest = digest := by
  refine Prog.returns_bind fun tag => Prog.returns_bind fun document => Prog.returns_bind fun resolved => ?_
  dsimp only
  split
  · trivial
  split
  · trivial
  split
  · trivial
  rename_i hdigest
  refine Prog.returns_bind fun reference => Prog.returns_bind fun anchor => Prog.returns_bind fun descriptors => ?_
  split
  · trivial
  · exact (not_ne_iff.mp hdigest).symm

/-- What a commit returns is metadata of the content that was committed. -/
theorem commitObject_digest (laws : P.Lawful) (value : PutInput) (identity : ContentIdentity) (immutability : ImmutabilityRequest)
    (retention : Option RetentionRequest) (createOnly : Bool) :
    (adapter.commitObject P value identity immutability retention createOnly).Returns fun metadata =>
      metadata.digest = identity.digest := by
  refine Prog.returns_bind fun _ => Prog.returns_bind fun tag => Prog.returns_bind fun found => ?_
  split
  · unfold OciDistributionAdapter.commitExisting
    split
    · trivial
    · refine (storedForReference_digest _ _ _).bind fun existing hdigest => ?_
      exact Prog.returns_bind fun latest => Prog.returns_bind fun _ => hdigest
  · refine Prog.returns_bind fun anchor => Prog.returns_bind fun provenance => Prog.returns_bind fun createdAt => ?_
    refine (Prog.returns_ofExcept fun metadata hnew => (laws.metadata_fields _ _ hnew).2.1).bind fun metadata hdigest => ?_
    unfold OciDistributionAdapter.publishVersion
    dsimp only
    split
    · trivial
    · refine Prog.returns_bind fun config => Prog.returns_bind fun payload => Prog.returns_bind fun _ => ?_
      exact Prog.returns_bind fun latest => Prog.returns_bind fun _ => hdigest

theorem abandonMultipart_returns (reference : Nat) (error : Err) :
    (adapter.abandonMultipart P reference error).Returns fun _ => False := by
  refine Prog.returns_bind fun state => ?_
  split
  · exact Prog.returns_bind fun _ => Prog.returns_bind fun _ => trivial
  · split
    · exact Prog.returns_bind fun _ => trivial
    · trivial

/-- So is what the commit of a session returns. -/
theorem commitMultipart_digest (laws : P.Lawful) (reference : Nat) (value : PutInput) (identity : ContentIdentity)
    (immutability : ImmutabilityRequest) (retention : Option RetentionRequest) :
    (adapter.commitMultipart P reference value identity immutability retention).Returns fun metadata =>
      metadata.digest = identity.digest := by
  refine Prog.returns_bind fun _ => Prog.returns_bind fun state => Prog.returns_bind fun _ => Prog.returns_bind fun _ => ?_
  exact (commitObject_digest laws _ _ _ _ _).bind fun metadata hdigest => Prog.returns_bind fun _ => hdigest

end Returned

end MeridianOci.Service
