import MeridianOci.Model.Sample

/-!
# Cursors that were not issued

`CursorCodec.decode` on any string. It gives back a tag or refuses the cursor, and where
only issued payloads are signed it gives back the tag of an issued one. The string need not
be the one that was issued: base64 is decoded leniently, so a cursor has many spellings.
-/
namespace MeridianOci.Model

open MeridianOci.Data

set_option autoImplicit false

namespace CursorCodec

variable (P : Platform)

/-- The parts of a cursor are the version, the payload and its signature under the key. -/
def Carries (key : Bytes) (cursor : String) (payload : Bytes) : Prop :=
  ∃ payloadValue signatureValue, split cursor.toList = some (['v', '1'], payloadValue, signatureValue) ∧
    Base64.decode (Base64.padded payloadValue) = some payload ∧
    Base64.decode (Base64.padded signatureValue) = some (P.hmacSha256 key payload)

/-- What a cursor carries was signed for a tag. -/
def Unforged (key : Bytes) (cursor : String) : Prop :=
  ∀ payload, Carries P key cursor payload → ∃ lastTag, isTag P lastTag = true ∧ payload = cursorPayload lastTag

/-- A string that carries the payload of a tag. -/
def Issued (key : Bytes) (cursor : String) : Prop :=
  ∃ lastTag, isTag P lastTag = true ∧ Carries P key cursor (cursorPayload lastTag)

/-- A string whose payload is signed and on which `json` raises something else than its decoding
errors and `ObjectInvalidRequest`. -/
def Oversized (key : Bytes) (cursor : String) : Prop :=
  ∃ payload error, Carries P key cursor payload ∧ P.jsonLimit payload = some error ∧
    error.kind ≠ .objectInvalidRequest

/-- Both parts after the version are spelled as the encoder spells. -/
def Spelled (cursor : String) : Prop :=
  ∀ version payloadValue signatureValue, split cursor.toList = some (version, payloadValue, signatureValue) →
    Base64.strict payloadValue = true ∧ Base64.strict signatureValue = true

/-- The codec is exact on a string: every tag is read back from its cursor, the string gives a tag or is
refused, and if it was not forged it is refused unless it is the cursor of the tag it gives. -/
structure Exact (key : Bytes) (cursor : String) : Prop where
  issued : ∀ lastTag, isTag P lastTag = true → decode P key (encode P key lastTag) = .ok lastTag
  closed : (∃ lastTag, isTag P lastTag = true ∧ decode P key cursor = .ok lastTag) ∨
    ∃ error, decode P key cursor = .error error ∧ error.kind = .objectInvalidRequest
  literal : Unforged P key cursor → ∀ lastTag, decode P key cursor = .ok lastTag → cursor = encode P key lastTag

variable {P} {key : Bytes} {cursor : String}

/-! ## What is accepted -/

/-- The parts of a string, put together again. -/
theorem splitDot_eq {text left right : List Char} (h : splitDot text = some (left, right)) : text = left ++ '.' :: right := by
  have hparts := List.takeWhile_append_dropWhile (p := fun c : Char => decide (c ≠ '.')) (l := text)
  unfold splitDot at h
  cases hdrop : text.dropWhile (fun c => decide (c ≠ '.')) with
  | nil =>
    rw [hdrop] at h
    cases h
  | cons c rest =>
    rw [hdrop] at h
    obtain ⟨rfl, rfl⟩ := Prod.mk.inj (Option.some.inj h)
    have hdot : c = '.' := by
      have hhead := List.head_dropWhile_not (fun c : Char => decide (c ≠ '.')) (l := text) (by rw [hdrop]; simp)
      simp only [hdrop, List.head_cons] at hhead
      simpa using hhead
    rw [hdrop, hdot] at hparts
    exact hparts.symm

theorem split_eq {text version payloadValue signatureValue : List Char}
    (h : split text = some (version, payloadValue, signatureValue)) :
    text = version ++ '.' :: (payloadValue ++ '.' :: signatureValue) := by
  unfold split at h
  cases hfirst : splitDot text with
  | none =>
    rw [hfirst] at h
    cases h
  | some first =>
    obtain ⟨left, rest⟩ := first
    cases hsecond : splitDot rest with
    | none =>
      simp [hfirst, hsecond] at h
    | some second =>
      obtain ⟨middle, right⟩ := second
      simp only [hfirst, hsecond, Option.bind_eq_bind, Option.bind_some, Option.pure_def, Option.some.injEq,
        Prod.mk.injEq] at h
      obtain ⟨rfl, rfl, rfl⟩ := h
      rw [splitDot_eq hfirst, splitDot_eq hsecond]

/-- A string carries one payload at most. -/
theorem Carries.unique {payload payload' : Bytes} (h : Carries P key cursor payload)
    (h' : Carries P key cursor payload') : payload = payload' := by
  obtain ⟨p, s, hsplit, hpayload, -⟩ := h
  obtain ⟨p', s', hsplit', hpayload', -⟩ := h'
  rw [hsplit] at hsplit'
  obtain ⟨-, rfl, rfl⟩ := Prod.mk.inj (Option.some.inj hsplit') |>.imp id Prod.mk.inj
  exact Option.some.inj (hpayload.symm.trans hpayload')

theorem decode_ok {lastTag : String} (h : decode P key cursor = .ok lastTag) : isTag P lastTag = true ∧
    ∃ payload fields, Carries P key cursor payload ∧ Json.loads payload = some (.obj fields) ∧
      Json.get? fields "last" = some (.str lastTag) := by
  unfold decode at h
  split at h
  · cases h
  rename_i version payloadValue signatureValue hsplit
  split at h
  · rename_i payload signature hpayload hsignature
    split at h
    · cases h
    rename_i hsigned
    simp only [not_or, not_not] at hsigned
    obtain ⟨rfl, rfl⟩ := hsigned
    split at h
    · cases h
    split at h
    · rename_i fields hfields
      split at h
      · split at h
        · rename_i format last hformat hlast
          split at h
          · rename_i hvalid
            obtain rfl := Except.ok.inj h
            exact ⟨hvalid.2, payload, fields, ⟨payloadValue, signatureValue, hsplit, hpayload, hsignature⟩, hfields, hlast⟩
          · cases h
        · cases h
      · cases h
    · cases h
  · cases h

/-- A cursor is refused as invalid, or `json` refuses what it carries. -/
theorem decode_error {error : Err} (h : decode P key cursor = .error error) :
    error = invalidCursor ∨ ∃ payload, Carries P key cursor payload ∧ P.jsonLimit payload = some error := by
  unfold decode at h
  split at h
  · exact .inl (Except.error.inj h).symm
  rename_i version payloadValue signatureValue hsplit
  split at h
  · rename_i payload signature hpayload hsignature
    split at h
    · exact .inl (Except.error.inj h).symm
    rename_i hsigned
    simp only [not_or, not_not] at hsigned
    obtain ⟨rfl, rfl⟩ := hsigned
    split at h
    · rename_i other hlimit
      obtain rfl := Except.error.inj h
      exact .inr ⟨payload, ⟨payloadValue, signatureValue, hsplit, hpayload, hsignature⟩, hlimit⟩
    · left
      repeat' split at h
      all_goals first | exact (Except.error.inj h).symm | cases h
  · exact .inl (Except.error.inj h).symm

theorem decode_oversized {payload : Bytes} {error : Err} (h : Carries P key cursor payload)
    (hlimit : P.jsonLimit payload = some error) : decode P key cursor = .error error := by
  obtain ⟨payloadValue, signatureValue, hsplit, hpayload, hsignature⟩ := h
  simp only [decode, hsplit, hpayload, hsignature, ne_eq, not_true_eq_false, or_self, if_false, hlimit]

/-- A string that carries what was issued for a tag is its cursor if and only if it is spelled like one. -/
theorem Carries.eq_encode_iff {lastTag : String} (h : Carries P key cursor (cursorPayload lastTag)) :
    cursor = encode P key lastTag ↔ Spelled cursor := by
  obtain ⟨payloadValue, signatureValue, hsplit, hpayload, hsignature⟩ := h
  constructor
  · rintro rfl version p s hparts
    rw [split_encode] at hparts
    obtain ⟨rfl, rfl, rfl⟩ : ['v', '1'] = version ∧ _ = p ∧ _ = s := by simpa using hparts
    exact ⟨Base64.strict_encode _, Base64.strict_encode _⟩
  · intro hspelled
    obtain ⟨hp, hs⟩ := hspelled _ _ _ hsplit
    have htext := split_eq hsplit
    rw [Base64.encode_of_strict hp hpayload, Base64.encode_of_strict hs hsignature] at htext
    rw [← String.toList_inj, htext, encode, String.toList_ofList]
    rfl

/-! ## Exactness -/

/-- The codec is exact on the strings that `json` has no trouble with, except for other spellings of
issued cursors. -/
theorem exact_iff (laws : P.Lawful) (key : Bytes) (cursor : String) :
    Exact P key cursor ↔ ¬Oversized P key cursor ∧ (Issued P key cursor → Spelled cursor) := by
  constructor
  · intro h
    constructor
    · rintro ⟨payload, error, hcarries, hlimit, hkind⟩
      have hdecode := decode_oversized hcarries hlimit
      rcases h.closed with ⟨lastTag, -, hok⟩ | ⟨other, herror, hinvalid⟩
      · cases hdecode.symm.trans hok
      · obtain rfl := Except.error.inj (hdecode.symm.trans herror)
        exact hkind hinvalid
    · rintro ⟨lastTag, htag, hcarries⟩
      have hunforged : Unforged P key cursor := fun payload hpayload =>
        ⟨lastTag, htag, hpayload.unique hcarries⟩
      have hspelled := hcarries.eq_encode_iff
      obtain ⟨payloadValue, signatureValue, hsplit, hpayload, hsignature⟩ := hcarries
      have hdecode := decode_parts laws htag hsplit hpayload hsignature
      exact hspelled.mp (h.literal hunforged lastTag hdecode)
  · rintro ⟨hsized, hspelled⟩
    refine ⟨fun lastTag htag => decode_encode laws key htag, ?_, ?_⟩
    · cases hdecode : decode P key cursor with
      | ok lastTag => exact .inl ⟨lastTag, (decode_ok hdecode).1, rfl⟩
      | error error =>
        refine .inr ⟨error, rfl, ?_⟩
        rcases decode_error hdecode with rfl | ⟨payload, hcarries, hlimit⟩
        · rfl
        · by_contra hkind
          exact hsized ⟨payload, error, hcarries, hlimit, hkind⟩
    · intro hunforged lastTag hdecode
      obtain ⟨htag, payload, fields, hcarries, hfields, hlast⟩ := decode_ok hdecode
      obtain ⟨signed, hsigned, rfl⟩ := hunforged payload hcarries
      have hsame : signed = lastTag := by
        rw [loads_cursorPayload hsigned] at hfields
        obtain rfl := Json.obj.inj (Option.some.inj hfields)
        simpa [Json.get?_cons] using hlast
      subst hsame
      exact hcarries.eq_encode_iff.mpr (hspelled ⟨signed, hsigned, hcarries⟩)

/-! ## Another spelling -/

/-- The cursor of a tag with four foreign characters in front of its payload. -/
def foreign (P : Platform) (key : Bytes) (lastTag : String) : String :=
  String.ofList ('v' :: '1' :: '.' :: ('!' :: '!' :: '!' :: '!' :: Base64.encode (cursorPayload lastTag)) ++
    '.' :: Base64.encode (P.hmacSha256 key (cursorPayload lastTag)))

theorem split_foreign (key : Bytes) (lastTag : String) : split (foreign P key lastTag).toList = some (['v', '1'],
    '!' :: '!' :: '!' :: '!' :: Base64.encode (cursorPayload lastTag),
    Base64.encode (P.hmacSha256 key (cursorPayload lastTag))) := by
  have hpayload : ∀ c ∈ '!' :: '!' :: '!' :: '!' :: Base64.encode (cursorPayload lastTag), c ≠ '.' := by
    have hencoded := encode_ne_dot (cursorPayload lastTag)
    simp only [List.mem_cons, forall_eq_or_imp]
    exact ⟨by decide, by decide, by decide, by decide, hencoded⟩
  have hfirst := splitDot_append (('!' :: '!' :: '!' :: '!' :: Base64.encode (cursorPayload lastTag)) ++
    '.' :: Base64.encode (P.hmacSha256 key (cursorPayload lastTag))) (show ∀ c ∈ ['v', '1'], c ≠ '.' by simp)
  have hsecond := splitDot_append (Base64.encode (P.hmacSha256 key (cursorPayload lastTag))) hpayload
  simp only [List.cons_append, List.nil_append] at hfirst hsecond
  simp only [foreign, List.cons_append, String.toList_ofList, split, hfirst, hsecond, Option.bind_eq_bind,
    Option.bind_some, Option.pure_def]

theorem carries_foreign (key : Bytes) (lastTag : String) :
    Carries P key (foreign P key lastTag) (cursorPayload lastTag) := by
  refine ⟨_, _, split_foreign key lastTag, ?_, Base64.decode_padded_encode _⟩
  rw [Base64.decode_padded_foreign, Base64.decode_padded_encode]

end CursorCodec

namespace Sample

/-- A cursor with foreign characters is accepted, although only the payload of a tag is signed. -/
theorem cursor_respelled : ∃ key cursor lastTag, 16 ≤ List.length key ∧ isTag platform lastTag = true ∧
    CursorCodec.Unforged platform key cursor ∧ CursorCodec.decode platform key cursor = .ok lastTag ∧
    cursor ≠ CursorCodec.encode platform key lastTag := by
  have htag : isTag platform "m-v1-safe" = true := by decide
  have hcarries := CursorCodec.carries_foreign (P := platform) (List.replicate 16 7) "m-v1-safe"
  refine ⟨List.replicate 16 7, CursorCodec.foreign platform (List.replicate 16 7) "m-v1-safe", "m-v1-safe", by decide, htag,
    fun payload hpayload => ⟨"m-v1-safe", htag, hpayload.unique hcarries⟩, ?_, fun heq => ?_⟩
  · obtain ⟨payloadValue, signatureValue, hsplit, hpayload, hsignature⟩ := hcarries
    exact CursorCodec.decode_parts lawful htag hsplit hpayload hsignature
  · have hstrict := (hcarries.eq_encode_iff.mp heq _ _ _ (CursorCodec.split_foreign _ _)).1
    cases hstrict

/-- The codec is exact on a cursor that was issued. -/
theorem cursor_exact_issued : CursorCodec.Exact platform (List.replicate 16 7)
    (CursorCodec.encode platform (List.replicate 16 7) "m-v1-safe") := by
  refine (CursorCodec.exact_iff lawful _ _).mpr ⟨?_, fun _ version payloadValue signatureValue hsplit => ?_⟩
  · rintro ⟨payload, error, -, hlimit, -⟩
    cases hlimit
  · rw [CursorCodec.split_encode] at hsplit
    obtain ⟨rfl, rfl, rfl⟩ := hsplit
    exact ⟨Base64.strict_encode _, Base64.strict_encode _⟩

end Sample

end MeridianOci.Model
