import MeridianOci.Data.Base64
import MeridianOci.Model.Platform

/-!
# Tags and signed cursors

`_naming.py`: the three private tag families of an object id, and the codec of list
cursors. Tags are injective in what they name, up to the truncated hash of version
tags, and a cursor that was issued is read back as the tag it carries.
-/
namespace MeridianOci.Model

open MeridianOci.Data

set_option autoImplicit false

variable (P : Platform)

def sha256Digest (value : Bytes) : String := "sha256:" ++ P.hexdigest value

def isLowerHex (c : Char) : Bool := c.isDigit || ('a' ≤ c && c ≤ 'f')

/-- `_DIGEST_RE.fullmatch(digest)`, with its group. -/
def matchDigest (digest : String) : Option (List Char) :=
  let digits := digest.toList.drop 7
  if ['s', 'h', 'a', '2', '5', '6', ':'].isPrefixOf digest.toList && digits.all isLowerHex &&
      P.digestWidth digits.length then some digits
  else none

def isTagChar (c : Char) : Bool := c.isAlphanum || c = '_' || c = '.' || c = '-'

/-- `_TAG_RE.fullmatch(value)`. -/
def isTag (value : String) : Bool :=
  match value.toList with
  | [] => false
  | c :: rest => (c.isAlphanum || c = '_') && rest.all isTagChar && P.tagWidth rest.length

def objectIdHash (objectId : String) : String := P.hexdigest (utf8 objectId.toList)

/-- `object_id_hash(object_id)[:32]`. -/
def shortHash (objectId : String) : String := String.ofList ((objectIdHash P objectId).toList.take 32)

def tag (value : String) : Except Err String :=
  if isTag P value then .ok value else .error (.of .valueError "generated OCI tag is invalid")

def anchorTag (objectId : String) : Except Err String := tag P ("m-a1-" ++ objectIdHash P objectId)

def latestTag (objectId : String) : Except Err String := tag P ("m-l1-" ++ objectIdHash P objectId)

def versionTag (objectId digest : String) : Except Err String :=
  match matchDigest P digest with
  | none => .error (.of .valueError "OCI version tags require a SHA-256 digest")
  | some digits => tag P ("m-v1-" ++ shortHash P objectId ++ "-" ++ String.ofList digits)

/-- `version_tag_prefix()`. -/
def versionTagPrefix : String := "m-v1-"

/-! ## Cursors -/

def invalidCursor : Err := .of .objectInvalidRequest "invalid OCI maintenance cursor"

def cursorFormat : String := "meridian.oci.cursor.v1"

def cursorPayload (lastTag : String) : Bytes :=
  Json.dumps true (.obj [("formatVersion", .str cursorFormat), ("last", .str lastTag)])

namespace CursorCodec

def encode (key : Bytes) (lastTag : String) : String :=
  let payload := cursorPayload lastTag
  String.ofList ('v' :: '1' :: '.' :: (Base64.encode payload ++
    '.' :: Base64.encode (P.hmacSha256 key payload)))

/-- The text before and after the first dot. -/
def splitDot (text : List Char) : Option (List Char × List Char) :=
  match text.dropWhile (· ≠ '.') with
  | [] => none
  | _ :: rest => some (text.takeWhile (· ≠ '.'), rest)

/-- `cursor.split(".", 2)`, when it has three parts. -/
def split (cursor : List Char) : Option (List Char × List Char × List Char) := do
  let (version, rest) ← splitDot cursor
  let (payload, signature) ← splitDot rest
  return (version, payload, signature)

def decode (key : Bytes) (cursor : String) : Except Err String :=
  match split cursor.toList with
  | none => .error invalidCursor
  | some (version, payloadValue, signatureValue) =>
    match Base64.decode (Base64.padded payloadValue), Base64.decode (Base64.padded signatureValue) with
    | some payload, some signature =>
      if version ≠ ['v', '1'] ∨ signature ≠ P.hmacSha256 key payload then .error invalidCursor
      else
        match P.jsonLimit payload with
        -- `json.loads` raises something else than the two errors that are caught
        | some error => .error error
        | none =>
          match Json.loads payload with
          | some (.obj value) =>
            if Json.keysAre value ["formatVersion", "last"] then
              match Json.get? value "formatVersion", Json.get? value "last" with
              | some (.str format), some (.str last) =>
                if format = cursorFormat ∧ isTag P last then .ok last else .error invalidCursor
              | _, _ => .error invalidCursor
            else .error invalidCursor
          | _ => .error invalidCursor
    | _, _ => .error invalidCursor

end CursorCodec

/-! ## What tags name -/

variable {P}

theorem isTagChar_of_isLowerHex {c : Char} (h : isLowerHex c = true) : isTagChar c = true := by
  simp only [isLowerHex, Bool.or_eq_true, Bool.and_eq_true, decide_eq_true_eq] at h
  rcases h with h | ⟨hlo, hhi⟩
  · simp [isTagChar, Char.isAlphanum, h]
  · have hlower : c.isLower = true := by
      have hhi' : c ≤ 'z' := le_trans hhi (by decide)
      delta Char.isLower
      simp only [Bool.and_eq_true, decide_eq_true_eq]
      exact ⟨hlo, hhi'⟩
    have halpha : c.isAlpha = true := by
      delta Char.isAlpha
      rw [hlower, Bool.or_true]
    simp [isTagChar, Char.isAlphanum, halpha]

variable (P)

/-- The anchor, latest and version tags of an object id as plain strings. -/
def anchorName (objectId : String) : String := "m-a1-" ++ objectIdHash P objectId

def latestName (objectId : String) : String := "m-l1-" ++ objectIdHash P objectId

def versionName (objectId digest : String) : String :=
  "m-v1-" ++ (shortHash P objectId ++ ("-" ++ String.ofList (digest.toList.drop 7)))

variable {P}

theorem matchDigest_some {digest : String} {digits : List Char}
    (h : matchDigest P digest = some digits) :
    digits = digest.toList.drop 7 ∧ digest = "sha256:" ++ String.ofList digits ∧
      digits.all isLowerHex = true := by
  simp only [matchDigest] at h
  split_ifs at h with hif
  simp only [Bool.and_eq_true] at hif
  obtain ⟨rest, hrest⟩ := List.isPrefixOf_iff_prefix.mp hif.1.1
  obtain rfl := Option.some.inj h
  refine ⟨rfl, ?_, hif.1.2⟩
  apply String.toList_inj.mp
  simp [← hrest]

/-- The tag of a family is well formed whenever its tail is made of tag characters. -/
theorem tag_family (family tail : String) (hfamily : family.toList.head?.all
      (fun c => c.isAlphanum || c = '_') = true)
    (hne : family.toList ≠ []) (hchars : (family.toList.tail ++ tail.toList).all isTagChar = true)
    (hwidth : P.tagWidth (family.toList.tail.length + tail.toList.length) = true) :
    tag P (family ++ tail) = .ok (family ++ tail) := by
  obtain ⟨c, rest, hfamilyEq⟩ := List.exists_cons_of_ne_nil hne
  rw [hfamilyEq] at hfamily hchars hwidth
  have hlist : (family ++ tail).toList = c :: (rest ++ tail.toList) := by
    simp [String.toList_append, hfamilyEq]
  have hist : isTag P (family ++ tail) = true := by
    simp only [isTag, hlist]
    simp only [List.head?_cons, Option.all_some] at hfamily
    simp only [List.tail_cons] at hchars hwidth
    simp only [hfamily, hchars, List.length_append, hwidth, Bool.and_self]
  rw [tag, if_pos hist]

theorem tag_ok {value result : String} (h : tag P value = .ok result) : result = value := by
  unfold tag at h
  split at h <;> simp_all

theorem isTag_of_tag {value result : String} (h : tag P value = .ok result) :
    isTag P result = true := by
  unfold tag at h
  split at h <;> simp_all

theorem versionTag_ok {objectId digest result : String}
    (h : versionTag P objectId digest = .ok result) : result = versionName P objectId digest := by
  unfold versionTag at h
  split at h
  · cases h
  · rename_i digits hmatch
    rw [tag_ok h, versionName, (matchDigest_some hmatch).1, String.append_assoc, String.append_assoc]

section Lawful

variable (laws : P.Lawful)
include laws

theorem hexdigest_isLowerHex (value : Bytes) : (P.hexdigest value).toList.all isLowerHex = true := by
  rw [List.all_eq_true]
  intro c hc
  rcases laws.hexdigest_chars value c hc with h | h <;> simp [isLowerHex, h]

theorem sha256Digest_injective : Function.Injective (sha256Digest P) := by
  intro a b h
  apply laws.hexdigest_injective
  simpa [sha256Digest] using h

theorem objectIdHash_injective : Function.Injective (objectIdHash P) := by
  intro a b h
  exact String.toList_inj.mp (utf8_injective (laws.hexdigest_injective h))

theorem matchDigest_sha256Digest (value : Bytes) :
    matchDigest P (sha256Digest P value) = some (P.hexdigest value).toList := by
  have hlist : (sha256Digest P value).toList =
      ['s', 'h', 'a', '2', '5', '6', ':'] ++ (P.hexdigest value).toList := by
    simp [sha256Digest]
  simp only [matchDigest, hlist, List.drop_append, List.length_cons, List.length_nil]
  simp [hexdigest_isLowerHex laws, laws.hexdigest_width]

theorem anchorTag_eq (objectId : String) :
    anchorTag P objectId = .ok (anchorName P objectId) := by
  refine tag_family _ _ (by decide) (by decide) ?_ ?_
  · have htail : ("m-a1-".toList.tail).all isTagChar = true := by decide
    rw [List.all_append, htail, Bool.true_and, List.all_eq_true]
    intro c hc
    exact isTagChar_of_isLowerHex (List.all_eq_true.mp (hexdigest_isLowerHex laws _) c hc)
  · exact laws.tagWidth_short _

theorem latestTag_eq (objectId : String) :
    latestTag P objectId = .ok (latestName P objectId) := by
  refine tag_family _ _ (by decide) (by decide) ?_ ?_
  · have htail : ("m-l1-".toList.tail).all isTagChar = true := by decide
    rw [List.all_append, htail, Bool.true_and, List.all_eq_true]
    intro c hc
    exact isTagChar_of_isLowerHex (List.all_eq_true.mp (hexdigest_isLowerHex laws _) c hc)
  · exact laws.tagWidth_short _

theorem length_shortHash (objectId : String) : (shortHash P objectId).toList.length = 32 := by
  have := laws.hexdigest_length (utf8 objectId.toList)
  simp only [shortHash, String.toList_ofList, List.length_take, objectIdHash]
  omega

theorem versionTag_eq (objectId : String) (value : Bytes) :
    versionTag P objectId (sha256Digest P value) =
      .ok (versionName P objectId (sha256Digest P value)) := by
  have hmatch := matchDigest_sha256Digest laws value
  have hdigits := (matchDigest_some hmatch).1
  have hhex := List.all_eq_true.mp (hexdigest_isLowerHex laws value)
  simp only [versionTag, hmatch, versionName, ← hdigits, String.append_assoc]
  refine tag_family _ _ (by decide) (by decide) ?_ ?_
  · have htail : ("m-v1-".toList.tail).all isTagChar = true := by decide
    rw [List.all_append, htail, Bool.true_and, List.all_eq_true]
    intro c hc
    simp only [String.toList_append, String.toList_ofList, List.mem_append, shortHash] at hc
    rcases hc with hc | hc | hc
    · exact isTagChar_of_isLowerHex (List.all_eq_true.mp (hexdigest_isLowerHex laws _) c
        (List.mem_of_mem_take hc))
    · have : c = '-' := by simpa using hc
      subst this
      decide
    · exact isTagChar_of_isLowerHex (hhex c hc)
  · have hlength := length_shortHash laws objectId
    have hfamily : "m-v1-".toList.tail.length = 4 := by decide
    have hdash : "-".toList.length = 1 := by decide
    simp only [String.toList_append, List.length_append, hlength, String.toList_ofList, hfamily, hdash]
    have := laws.tagWidth_long value
    rwa [show 4 + (32 + (1 + (P.hexdigest value).toList.length)) =
      37 + (P.hexdigest value).toList.length by omega]

theorem anchorName_injective : Function.Injective (anchorName P) := by
  intro a b h
  exact objectIdHash_injective laws (by simpa [anchorName] using h)

theorem latestName_injective : Function.Injective (latestName P) := by
  intro a b h
  exact objectIdHash_injective laws (by simpa [latestName] using h)

/-- A version tag determines its digest, but only a part of the hash of its object id. -/
theorem versionName_inj {objectId objectId' : String} {digest digest' : String}
    (hd : (matchDigest P digest).isSome) (hd' : (matchDigest P digest').isSome)
    (h : versionName P objectId digest = versionName P objectId' digest') :
    shortHash P objectId = shortHash P objectId' ∧ digest = digest' := by
  obtain ⟨digits, hmatch⟩ := Option.isSome_iff_exists.mp hd
  obtain ⟨digits', hmatch'⟩ := Option.isSome_iff_exists.mp hd'
  have hlist : (shortHash P objectId).toList ++ ("-" ++ String.ofList (digest.toList.drop 7)).toList =
      (shortHash P objectId').toList ++ ("-" ++ String.ofList (digest'.toList.drop 7)).toList := by
    have := congrArg String.toList h
    simpa only [versionName, String.toList_append, List.append_cancel_left_eq] using this
  obtain ⟨hshort, hrest⟩ := List.append_inj hlist
    ((length_shortHash laws objectId).trans (length_shortHash laws objectId').symm)
  refine ⟨String.toList_inj.mp hshort, ?_⟩
  have hdigits : digest.toList.drop 7 = digest'.toList.drop 7 := by
    simpa only [String.toList_append, List.append_cancel_left_eq, String.toList_ofList] using hrest
  rw [(matchDigest_some hmatch).2.1, (matchDigest_some hmatch').2.1, (matchDigest_some hmatch).1,
    (matchDigest_some hmatch').1, hdigits]

end Lawful

private theorem family_ne {a b x y : String} (h : a.toList.take 3 ≠ b.toList.take 3)
    (ha : 3 ≤ a.toList.length) (hb : 3 ≤ b.toList.length) : a ++ x ≠ b ++ y := by
  intro heq
  have := congrArg (fun s => s.toList.take 3) heq
  simp only [String.toList_append, List.take_append_of_le_length ha,
    List.take_append_of_le_length hb] at this
  exact h this

theorem anchorName_ne_latestName (a b : String) : anchorName P a ≠ latestName P b :=
  family_ne (by decide) (by decide) (by decide)

theorem anchorName_ne_versionName (a b d : String) : anchorName P a ≠ versionName P b d :=
  family_ne (by decide) (by decide) (by decide)

theorem latestName_ne_versionName (a b d : String) : latestName P a ≠ versionName P b d :=
  family_ne (by decide) (by decide) (by decide)

/-! ## Cursors that were issued -/

namespace CursorCodec

theorem splitDot_append {left : List Char} (right : List Char) (h : ∀ c ∈ left, c ≠ '.') :
    splitDot (left ++ '.' :: right) = some (left, right) := by
  have hleft : ∀ c ∈ left, decide (c ≠ '.') = true := fun c hc => decide_eq_true (h c hc)
  have hright : ∀ c ∈ ('.' :: right).head?, decide (c ≠ '.') = false := by simp
  have hstop := Json.takeWhile_append_stop hleft hright
  rw [splitDot, hstop.1, hstop.2]

theorem encode_ne_dot (bytes : Bytes) : ∀ c ∈ Base64.encode bytes, c ≠ '.' := by
  intro c hc
  obtain ⟨n, hn, rfl⟩ := Base64.mem_encode bytes c hc
  exact (Base64.symbol_spec n hn).2.1

theorem isTagChar_le {c : Char} (h : isTagChar c = true) : c.toNat ≤ 126 := by
  simp only [isTagChar, Char.isAlphanum, Char.isDigit, Bool.or_eq_true] at h
  delta Char.isAlpha Char.isUpper Char.isLower at h
  simp only [Bool.or_eq_true, Bool.and_eq_true, decide_eq_true_eq] at h
  have hval : ∀ a b : Char, a ≤ b → a.toNat ≤ b.toNat := fun a b h => h
  rcases h with ((((⟨_, h⟩ | ⟨_, h⟩) | ⟨_, h⟩) | rfl) | rfl) | rfl
  · exact le_trans (hval _ 'Z' h) (by decide)
  · exact le_trans (hval _ 'z' h) (by decide)
  · exact le_trans (hval _ '9' h) (by decide)
  all_goals decide

theorem isTag_ascii {value : String} (h : isTag P value = true) : ∀ c ∈ value.toList, c.toNat ≤ 126 := by
  intro c hc
  unfold isTag at h
  split at h
  · cases h
  · rename_i head rest heq
    simp only [Bool.and_eq_true, List.all_eq_true] at h
    rw [heq] at hc
    rcases List.mem_cons.mp hc with rfl | hc
    · refine isTagChar_le ?_
      simp only [isTagChar, h.1.1, Bool.true_or]
    · exact isTagChar_le (h.1.2 c hc)

/-- A cursor is written within the limits of `json`. -/
theorem jsonLimit_cursorPayload (laws : P.Lawful) (lastTag : String) : P.jsonLimit (cursorPayload lastTag) = none := by
  refine laws.jsonLimit_dumps true _ ?_
  simp [Json.Writable, Json.WritableFields, Json.keys]

theorem loads_cursorPayload {lastTag : String} (h : isTag P lastTag = true) :
    Json.loads (cursorPayload lastTag) =
      some (.obj [("formatVersion", .str cursorFormat), ("last", .str lastTag)]) := by
  have hsorted : Json.sortFields [("formatVersion", .str cursorFormat), ("last", .str lastTag)] =
      [("formatVersion", .str cursorFormat), ("last", .str lastTag)] := by
    have hlt : ¬"last" < "formatVersion" := by decide
    simp [Json.sortFields, Json.sortKeys, Json.insertField, hlt]
  have hdump : cursorPayload lastTag =
      Json.dumps false (.obj [("formatVersion", .str cursorFormat), ("last", .str lastTag)]) := by
    have htag := Json.dumpString_ascii (isTag_ascii h)
    have hformat : Json.dumpString true cursorFormat.toList = Json.dumpString false cursorFormat.toList :=
      Json.dumpString_ascii (by simp [cursorFormat])
    have hkey : Json.dumpString true "formatVersion".toList = Json.dumpString false "formatVersion".toList :=
      Json.dumpString_ascii (by simp)
    have hkey' : Json.dumpString true "last".toList = Json.dumpString false "last".toList :=
      Json.dumpString_ascii (by simp)
    simp only [cursorPayload, Json.dumps, Json.sortKeys, hsorted, Json.dump, Json.dumpFields, htag,
      hformat, hkey, hkey']
  have hwritable : Json.Writable
      (.obj [("formatVersion", .str cursorFormat), ("last", .str lastTag)]) := by
    simp [Json.Writable, Json.WritableFields, Json.keys]
  rw [hdump, Json.loads_dumps hwritable, hsorted]

theorem split_encode (key : Bytes) (lastTag : String) : split (encode P key lastTag).toList = some (['v', '1'],
    Base64.encode (cursorPayload lastTag), Base64.encode (P.hmacSha256 key (cursorPayload lastTag))) := by
  have hversion := splitDot_append (Base64.encode (cursorPayload lastTag) ++
    '.' :: Base64.encode (P.hmacSha256 key (cursorPayload lastTag)))
    (show ∀ c ∈ ['v', '1'], c ≠ '.' by simp)
  have hpayload := splitDot_append (Base64.encode (P.hmacSha256 key (cursorPayload lastTag)))
    (encode_ne_dot (cursorPayload lastTag))
  simp only [List.cons_append, List.nil_append] at hversion
  simp only [encode, String.toList_ofList, split, hversion, hpayload, Option.bind_eq_bind,
    Option.bind_some, Option.pure_def]

/-- Every spelling of what was issued for a tag gives the tag. -/
theorem decode_parts (laws : P.Lawful) {key : Bytes} {cursor lastTag : String} (h : isTag P lastTag = true)
    {payloadValue signatureValue : List Char} (hsplit : split cursor.toList = some (['v', '1'], payloadValue, signatureValue))
    (hpayload : Base64.decode (Base64.padded payloadValue) = some (cursorPayload lastTag))
    (hsignature : Base64.decode (Base64.padded signatureValue) = some (P.hmacSha256 key (cursorPayload lastTag))) :
    decode P key cursor = .ok lastTag := by
  simp only [decode, hsplit, hpayload, hsignature, jsonLimit_cursorPayload laws, loads_cursorPayload h]
  simp [Json.keysAre, Json.keys, Json.get?_cons, h]

/-- The cursor of a tag is accepted and gives the tag back. -/
theorem decode_encode (laws : P.Lawful) (key : Bytes) {lastTag : String} (h : isTag P lastTag = true) :
    decode P key (encode P key lastTag) = .ok lastTag :=
  decode_parts laws h (split_encode key lastTag) (Base64.decode_padded_encode _) (Base64.decode_padded_encode _)

end CursorCodec

end MeridianOci.Model
