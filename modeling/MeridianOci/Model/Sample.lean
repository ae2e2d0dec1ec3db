import Mathlib.Tactic.IntervalCases
import MeridianOci.Data.JsonOrder
import MeridianOci.Model.Layout

/-!
# A platform that keeps the laws

A small platform with everything the adapter relies on: a hexadecimal digest that is
injective, mappings that are read back, a retention check and a put state machine. It
shows that the laws can be met, and it is where results are put to the test.
-/
namespace MeridianOci.Model.Sample

open MeridianOci.Data

set_option autoImplicit false

/-- Two digits a byte, then zeros up to the length of a short hash. -/
def hexdigest (value : Bytes) : String :=
  String.ofList (value.flatMap (fun byte =>
    [Json.hexDigit (byte.toNat / 16), Json.hexDigit (byte.toNat % 16)]) ++ List.replicate 32 '0')

def text? (fields : JsonObject) (key : String) : Except Err String :=
  match Json.get? fields key with
  | some (.str value) => .ok value
  | _ => .error (.of .typeError key)

def object? (fields : JsonObject) (key : String) : Except Err JsonObject :=
  match Json.get? fields key with
  | some (.obj value) => .ok value
  | _ => .error (.of .typeError key)

def optionalText (fields : JsonObject) (key : String) : Option String :=
  match Json.get? fields key with
  | some (.str value) => some value
  | _ => none

def optionalNat (fields : JsonObject) (key : String) : Option Nat :=
  match Json.get? fields key with
  | some (.int value) => some value.toNat
  | _ => none

def textOrNull : Option String → Json
  | none => .null
  | some value => .str value

def payloadReference (fields : JsonObject) : Except Err PayloadReference := do
  return ⟨← text? fields "id", true, optionalText fields "digest", optionalNat fields "length"⟩

def referenceToDict (reference : ObjectReference) : JsonObject :=
  [("catalog", .str reference.resourceRef.catalog), ("digest", textOrNull reference.digest),
    ("name", .str reference.resourceRef.name), ("namespace", .str reference.resourceRef.namespace),
    ("objectId", .str reference.objectId)]

def referenceFromMapping (fields : JsonObject) : Except Err ObjectReference := do
  return ⟨⟨← text? fields "catalog", ← text? fields "namespace", ← text? fields "name"⟩,
    ← text? fields "objectId", optionalText fields "digest"⟩

def parseObjectReference (fields : JsonObject) (requireDigest : Bool) : Except Err ObjectReference := do
  let reference ← referenceFromMapping fields
  if requireDigest && reference.digest.isNone then .error (.of .valueError "digest is required")
  else return reference

def immutabilityToDict (request : ImmutabilityRequest) : JsonObject :=
  [("mutability", .str request.mutability), ("publishOnce", .bool request.publishOnce)]

def immutabilityFromMapping (fields : JsonObject) : Except Err ImmutabilityRequest := do
  let mutability ← text? fields "mutability"
  match Json.get? fields "publishOnce" with
  | some (.bool publishOnce) => return ⟨mutability, publishOnce⟩
  | _ => .error (.of .typeError "publishOnce")

def retentionToDict (request : RetentionRequest) : JsonObject :=
  [("policy", .str request.policy), ("requireEnforcement", .bool request.requireEnforcement),
    ("retainUntil",
      match request.retainUntil with
      | none => .null
      | some limit => .int limit)]

def retentionFromMapping (fields : JsonObject) : Except Err RetentionRequest := do
  let policy ← text? fields "policy"
  match Json.get? fields "requireEnforcement", Json.get? fields "retainUntil" with
  | some (.bool requireEnforcement), some .null => return ⟨none, policy, requireEnforcement⟩
  | some (.bool requireEnforcement), some (.int limit) => return ⟨some limit, policy, requireEnforcement⟩
  | _, _ => .error (.of .typeError "retention")

/-- The mappings of the metadata are texts and are kept in key order. -/
def newObjectMetadata (fields : ObjectMetadata) : Except Err ObjectMetadata :=
  if (Json.obj fields.creationContext).isText && (Json.obj fields.userMetadata).isText &&
      (Json.obj fields.provenance).isText then
    .ok { fields with
      creationContext := Json.sortFields fields.creationContext
      userMetadata := Json.sortFields fields.userMetadata
      provenance := Json.sortFields fields.provenance }
  else .error (.of .typeError "metadata")

def metadataToDict (metadata : ObjectMetadata) : JsonObject :=
  [("byteLength", .int metadata.byteLength), ("createdAt", .str metadata.createdAt),
    ("creationContext", .obj metadata.creationContext), ("digest", .str metadata.digest),
    ("mediaType", .str metadata.mediaType), ("mutability", .str metadata.mutability),
    ("objectRef", .obj (referenceToDict metadata.objectRef)), ("provenance", .obj metadata.provenance),
    ("userMetadata", .obj metadata.userMetadata)]

def parseObjectMetadata (fields : JsonObject) : Except Err ObjectMetadata := do
  return {
    objectRef := ← referenceFromMapping (← object? fields "objectRef")
    digest := ← text? fields "digest"
    byteLength := (optionalNat fields "byteLength").getD 0
    mediaType := ← text? fields "mediaType"
    createdAt := ← text? fields "createdAt"
    creationContext := ← object? fields "creationContext"
    userMetadata := ← object? fields "userMetadata"
    mutability := ← text? fields "mutability"
    provenance := ← object? fields "provenance" }

def requireDeleteAllowed (request : RetentionRequest) (now : Int) : Except Err Unit :=
  match request.retainUntil with
  | none => .ok ()
  | some limit => if now < limit then .error (.of .retentionDenied "retained") else .ok ()

def transition (state target : PutState) : Except Err PutState :=
  match state, target with
  | .initial, .uploading => .ok .uploading
  | .uploading, .verifying => .ok .verifying
  | .verifying, .committed => .ok .committed
  | .uploading, .aborted => .ok .aborted
  | _, _ => .error (.of .valueError "invalid transition")

def multipartCompletion (parts : List MultipartPart) (identity : ContentIdentity) : Except Err Unit :=
  if parts = [] ∨ (parts.map (·.identity.byteLength)).sum ≠ identity.byteLength then
    .error (.of .multipartInvalid "completion is invalid")
  else .ok ()

def byteRangeFromMapping (fields : JsonObject) : Except Err (Nat × Nat) :=
  match optionalNat fields "start", optionalNat fields "end" with
  | some start, some finish => .ok (start, finish)
  | _, _ => .error (.of .typeError "range")

def resolveRange (range : Nat × Nat) (length : Nat) : Except Err ResolvedRange :=
  if range.1 ≤ range.2 ∧ range.2 < length then .ok ⟨range.1, range.2⟩
  else .error (.of .rangeNotSatisfiable "range")

def isDigits (value : String) : Bool := !value.toList.isEmpty && value.toList.all Char.isDigit

def platform : Platform where
  hexdigest := hexdigest
  hmacSha256 key message := key ++ message
  digestWidth length := decide (32 ≤ length)
  tagWidth _ := true
  urljoin _ location := some location
  urlsplit _ := some ⟨"https", some "registry", none, some none⟩
  httpxUrl _ := true
  mergeDigest url _ := some url
  jsonLimit _ := none
  isdigit := isDigits
  int value := if isDigits value then some (Nat.ofDigitChars 10 value.toList 0) else none
  decodeContent _ body := some body
  timestamp instant := toString instant
  payloadReference := payloadReference
  parseObjectReference := parseObjectReference
  immutabilityFromMapping := immutabilityFromMapping
  immutabilityToDict := immutabilityToDict
  retentionFromMapping := retentionFromMapping
  retentionToDict := retentionToDict
  newObjectMetadata := newObjectMetadata
  metadataToDict := metadataToDict
  parseObjectMetadata := parseObjectMetadata
  requireDeleteAllowed := requireDeleteAllowed
  capabilityFingerprint _ := "sample"
  requireObjectCapabilities _ _ := .ok ()
  transition := transition
  fail _ _ := .ok .failed
  multipartCompletion := multipartCompletion
  newMultipartSession _ := .ok ()
  ByteRange := Nat × Nat
  byteRangeFromMapping := byteRangeFromMapping
  resolveRange := resolveRange

/-! ## The laws -/

theorem hexDigit_lower (n : Nat) (hn : n < 16) :
    (Json.hexDigit n).isDigit ∨ ('a' ≤ Json.hexDigit n ∧ Json.hexDigit n ≤ 'f') := by
  interval_cases n <;> decide

theorem hexDigit_injective {m n : Nat} (hm : m < 16) (hn : n < 16) (h : Json.hexDigit m = Json.hexDigit n) :
    m = n := by
  revert h
  interval_cases m <;> interval_cases n <;> decide

theorem byte_digits_injective {a b : UInt8} (hhigh : Json.hexDigit (a.toNat / 16) = Json.hexDigit (b.toNat / 16))
    (hlow : Json.hexDigit (a.toNat % 16) = Json.hexDigit (b.toNat % 16)) : a = b := by
  have ha := a.toNat_lt
  have hb := b.toNat_lt
  have hdiv := hexDigit_injective (by omega) (by omega) hhigh
  have hmod := hexDigit_injective (by omega) (by omega) hlow
  exact UInt8.toNat_inj.mp (by omega)

theorem hexdigest_injective : Function.Injective hexdigest := by
  intro value other h
  have htext := List.append_cancel_right (String.ofList_inj.mp h)
  clear h
  induction value generalizing other with
  | nil =>
    cases other with
    | nil => rfl
    | cons byte rest => simp at htext
  | cons byte rest ih =>
    cases other with
    | nil => simp at htext
    | cons byte' rest' =>
      simp only [List.flatMap_cons, List.cons_append, List.nil_append, List.cons.injEq] at htext
      obtain ⟨hhigh, hlow, hrest⟩ := htext
      rw [byte_digits_injective hhigh hlow, ih hrest]

theorem length_hexdigest (value : Bytes) : 32 ≤ (hexdigest value).toList.length := by
  simp [hexdigest]

theorem hexdigest_chars (value : Bytes) :
    ∀ c ∈ (hexdigest value).toList, c.isDigit ∨ ('a' ≤ c ∧ c ≤ 'f') := by
  intro c hc
  simp only [hexdigest, String.toList_ofList, List.mem_append, List.mem_flatMap, List.mem_cons,
    List.not_mem_nil, or_false, List.mem_replicate] at hc
  rcases hc with ⟨byte, -, rfl | rfl⟩ | ⟨-, rfl⟩
  · have := byte.toNat_lt
    exact hexDigit_lower _ (by omega)
  · exact hexDigit_lower _ (by omega)
  · exact .inl (by decide)

theorem newObjectMetadata_ok {fields metadata : ObjectMetadata}
    (h : newObjectMetadata fields = .ok metadata) :
    ((Json.obj fields.creationContext).isText = true ∧ (Json.obj fields.userMetadata).isText = true ∧
      (Json.obj fields.provenance).isText = true) ∧
    metadata = { fields with
      creationContext := Json.sortFields fields.creationContext
      userMetadata := Json.sortFields fields.userMetadata
      provenance := Json.sortFields fields.provenance } := by
  unfold newObjectMetadata at h
  split at h
  · rename_i htext
    simp only [Bool.and_eq_true] at htext
    exact ⟨⟨htext.1.1, htext.1.2, htext.2⟩, (Except.ok.inj h).symm⟩
  · cases h

theorem normal_referenceToDict (reference : ObjectReference) : Normal (referenceToDict reference) := by
  have hdigest : (textOrNull reference.digest).sortKeys = textOrNull reference.digest ∧
      (textOrNull reference.digest).Writable := by cases reference.digest <;> exact ⟨rfl, trivial⟩
  refine ⟨⟨by simp [referenceToDict, Json.keys], ?_⟩, Json.Ordered.sortFields ⟨?_, ?_⟩⟩
  · exact ⟨trivial, hdigest.2, trivial, trivial, trivial, trivial⟩
  · simp only [referenceToDict, List.pairwise_cons, List.mem_cons, List.not_mem_nil, or_false,
      forall_eq_or_imp, forall_eq, false_imp_iff, implies_true, List.Pairwise.nil, and_true]
    decide
  · simp only [referenceToDict, List.mem_cons, List.not_mem_nil, or_false, forall_eq_or_imp, forall_eq,
      hdigest.1]
    exact ⟨rfl, trivial, rfl, rfl, rfl⟩

/-- An object of texts in key order. -/
theorem normal_sortFields {fields : JsonObject} (h : (Json.obj fields).isText = true) :
    Normal (Json.sortFields fields) :=
  ⟨(Json.writable_of_isText h).sortKeys, (Json.ordered_sortFields fields).sortFields⟩

theorem normal_metadataToDict {metadata : ObjectMetadata} (h : metadata.Valid platform) :
    Normal (metadataToDict metadata) := by
  obtain ⟨fields, hnew⟩ := h
  obtain ⟨⟨hcontext, huser, hprovenance⟩, rfl⟩ := newObjectMetadata_ok hnew
  have hreference := normal_referenceToDict fields.objectRef
  have hcontext := normal_sortFields hcontext
  have huser := normal_sortFields huser
  have hprovenance := normal_sortFields hprovenance
  have hsorted : ∀ {inner : JsonObject}, Normal inner → (Json.obj inner).sortKeys = .obj inner := by
    intro inner hinner
    rw [Json.sortKeys, hinner.2]
  refine ⟨⟨by simp [metadataToDict, Json.keys], ?_⟩, Json.Ordered.sortFields ⟨?_, ?_⟩⟩
  · exact ⟨trivial, trivial, hcontext.1, trivial, trivial, trivial, hreference.1, hprovenance.1, huser.1,
      trivial⟩
  · simp only [metadataToDict, List.pairwise_cons, List.mem_cons, List.not_mem_nil, or_false,
      forall_eq_or_imp, forall_eq, false_imp_iff, implies_true, List.Pairwise.nil, and_true]
    decide
  · simp only [metadataToDict, List.mem_cons, List.not_mem_nil, or_false, forall_eq_or_imp, forall_eq]
    exact ⟨rfl, rfl, hsorted hcontext, rfl, rfl, rfl, hsorted hreference, hsorted hprovenance, hsorted huser⟩

theorem parse_metadataToDict (metadata : ObjectMetadata) :
    parseObjectMetadata (metadataToDict metadata) = .ok metadata := by
  obtain ⟨⟨⟨catalog, space, name⟩, objectId, digest⟩, contentDigest, byteLength, mediaType, createdAt, context,
    user, mutability, provenance⟩ := metadata
  cases digest <;>
    simp [parseObjectMetadata, metadataToDict, referenceFromMapping, referenceToDict, text?, object?, optionalText,
      optionalNat, textOrNull, Json.get?_cons, bind, Except.bind, pure, Except.pure]

theorem toList_toString (n : Nat) : (toString n).toList = Nat.toDigits 10 n := by
  rw [show toString n = n.repr from rfl, Nat.repr, String.toList_ofList]

theorem isDigits_toString (n : Nat) : isDigits (toString n) = true := by
  rw [isDigits, toList_toString, Bool.and_eq_true, List.all_eq_true]
  refine ⟨?_, fun c hc => Json.isDigit_of_mem_toDigits hc⟩
  rw [Bool.not_eq_true', List.isEmpty_eq_false_iff]
  exact Nat.toDigits_ne_nil

/-- The platform keeps every law that results rely on. -/
theorem lawful : platform.Lawful where
  hexdigest_injective := hexdigest_injective
  hexdigest_chars := hexdigest_chars
  hexdigest_width value := decide_eq_true (length_hexdigest value)
  hexdigest_length := length_hexdigest
  tagWidth_short _ := rfl
  tagWidth_long _ := rfl
  jsonLimit_dumps _ _ _ := rfl
  jsonLimit_nil := rfl
  isdigit_toString := isDigits_toString
  int_toString n := by
    simp only [platform, isDigits_toString, if_true, toList_toString, Nat.ofDigitChars_ten_toDigits]
  decodeContent_identity _ _ _ := rfl
  metadata_fields fields metadata h := by
    obtain ⟨-, rfl⟩ := newObjectMetadata_ok h
    exact ⟨rfl, rfl, rfl, rfl, rfl, rfl⟩
  metadata_normal _ h := normal_metadataToDict h
  metadata_parse metadata _ := parse_metadataToDict metadata
  immutability_normal request _ := by
    refine ⟨⟨by simp [platform, immutabilityToDict, Json.keys], trivial, trivial, trivial⟩,
      Json.Ordered.sortFields ⟨?_, ?_⟩⟩
    · simp only [platform, immutabilityToDict, List.pairwise_cons, List.mem_cons, List.not_mem_nil, or_false,
        forall_eq, false_imp_iff, implies_true, List.Pairwise.nil, and_true]
      decide
    · simp only [platform, immutabilityToDict, List.mem_cons, List.not_mem_nil, or_false, forall_eq_or_imp,
        forall_eq]
      exact ⟨rfl, rfl⟩
  immutability_parse request _ := by
    simp [platform, immutabilityFromMapping, immutabilityToDict, text?, Json.get?_cons, bind, Except.bind,
      pure, Except.pure]
  retention_normal request _ := by
    obtain ⟨retainUntil, policy, requireEnforcement⟩ := request
    refine ⟨⟨by simp [platform, retentionToDict, Json.keys], trivial, trivial, ?_, trivial⟩,
      Json.Ordered.sortFields ⟨?_, ?_⟩⟩
    · cases retainUntil <;> trivial
    · simp only [platform, retentionToDict, List.pairwise_cons, List.mem_cons, List.not_mem_nil, or_false,
        forall_eq_or_imp, forall_eq, false_imp_iff, implies_true, List.Pairwise.nil, and_true]
      decide
    · simp only [platform, retentionToDict, List.mem_cons, List.not_mem_nil, or_false, forall_eq_or_imp,
        forall_eq]
      cases retainUntil <;> exact ⟨rfl, rfl, rfl⟩
  retention_parse request _ := by
    obtain ⟨retainUntil, policy, requireEnforcement⟩ := request
    cases retainUntil <;>
      simp [platform, retentionFromMapping, retentionToDict, text?, Json.get?_cons, bind, Except.bind, pure,
        Except.pure]
  requireDeleteAllowed_before request limit now hlimit hlt := by
    refine ⟨.of .retentionDenied "retained", ?_, rfl⟩
    simp only [platform, requireDeleteAllowed, hlimit, if_pos hlt]
  requireDeleteAllowed_after request limit now hlimit hle := by
    simp only [platform, requireDeleteAllowed, hlimit, if_neg (not_lt.mpr hle)]
  transition_uploading := rfl
  transition_verifying := rfl
  transition_committed := rfl

end MeridianOci.Model.Sample
