import MeridianOci.Data.Json

/-!
# Writing and reading JSON text

`dumps` is `json.dumps(value, separators=(",", ":"), sort_keys=True, ensure_ascii=...)`
encoded as UTF-8, and `loads` is `json.loads` of bytes. A `str` here is a sequence of
Unicode scalar values; `json.loads` accepts a surrogate without its other half, which is none,
and it is read as U+FFFD. Reading what was written gives back the value with its keys in order.
-/
namespace MeridianOci.Data

set_option autoImplicit false

abbrev Bytes := List UInt8

def utf8 (text : List Char) : Bytes := text.flatMap String.utf8EncodeChar

def utf8Decode (bytes : Bytes) : Option (List Char) := bytes.toByteArray.utf8Decode?.map (·.toList)

theorem utf8Decode_utf8 (text : List Char) : utf8Decode (utf8 text) = some text := by
  have h : (utf8 text).toByteArray = text.utf8Encode := rfl
  rw [utf8Decode, h, List.utf8Decode?_utf8Encode]
  rfl

theorem utf8_injective : Function.Injective utf8 := by
  intro a b h
  have := congrArg utf8Decode h
  rwa [utf8Decode_utf8, utf8Decode_utf8, Option.some.injEq] at this

/-! ## Encodings

`json` decodes with `errors="surrogatepass"`. -/

/-- The character of a code point; a surrogate is read as the replacement character. -/
def charOf (point : Nat) : Char := if point.isValidChar then Char.ofNat point else '\uFFFD'

/-- Two code units that are the halves of one character. -/
def isPair (high low : Nat) : Bool := 55296 ≤ high ∧ high < 56320 ∧ 56320 ≤ low ∧ low < 57344

def joinPair (high low : Nat) : Char := Char.ofNat (65536 + (high - 55296) * 1024 + (low - 56320))

/-- The encoded surrogates of a UTF-8 text, put right. -/
def replaceSurrogates : Bytes → Bytes
  | a :: b :: c :: rest =>
    if a = 237 ∧ 160 ≤ b ∧ b < 192 ∧ 128 ≤ c ∧ c < 192 then 239 :: 191 :: 189 :: replaceSurrogates rest
    else a :: replaceSurrogates (b :: c :: rest)
  | bytes => bytes

def utf8DecodePass (bytes : Bytes) : Option (List Char) :=
  (utf8Decode bytes).or (utf8Decode (replaceSurrogates bytes))

/-- The characters of UTF-16 code units, or of code points with surrogates among them. -/
def decodeUnits : List Nat → List Char
  | [] => []
  | [unit] => [charOf unit]
  | unit :: low :: rest =>
    if isPair unit low then joinPair unit low :: decodeUnits rest
    else charOf unit :: decodeUnits (low :: rest)

def utf16Decode (bigEndian : Bool) (bytes : Bytes) : Option (List Char) :=
  let rec units : Bytes → Option (List Nat)
    | [] => some []
    | [_] => none
    | a :: b :: rest =>
      (units rest).map ((if bigEndian then a.toNat * 256 + b.toNat else b.toNat * 256 + a.toNat) :: ·)
  (units bytes).map decodeUnits

def utf32Decode (bigEndian : Bool) : Bytes → Option (List Char)
  | [] => some []
  | a :: b :: c :: d :: rest =>
    let order := if bigEndian then [a, b, c, d] else [d, c, b, a]
    let point := order.foldl (fun n byte => n * 256 + byte.toNat) 0
    if point < 1114112 then (utf32Decode bigEndian rest).map (charOf point :: ·) else none
  | _ => none

/-- `value.decode(json.detect_encoding(value), "surrogatepass")`. -/
def decodeText (bytes : Bytes) : Option (List Char) :=
  if [0, 0, 254, 255].isPrefixOf bytes then utf32Decode true (bytes.drop 4)
  else if [255, 254, 0, 0].isPrefixOf bytes then utf32Decode false (bytes.drop 4)
  else if [254, 255].isPrefixOf bytes then utf16Decode true (bytes.drop 2)
  else if [255, 254].isPrefixOf bytes then utf16Decode false (bytes.drop 2)
  else if [239, 187, 191].isPrefixOf bytes then utf8DecodePass (bytes.drop 3)
  else
    match bytes with
    | [0, _] => utf16Decode true bytes
    | [_, 0] => utf16Decode false bytes
    | 0 :: b :: _ :: _ :: _ => if b = 0 then utf32Decode true bytes else utf16Decode true bytes
    | _ :: 0 :: c :: d :: _ =>
      if c = 0 ∧ d = 0 then utf32Decode false bytes else utf16Decode false bytes
    | _ => utf8DecodePass bytes

theorem charOf_toNat (c : Char) : charOf c.toNat = c := by
  have hvalid : c.toNat.isValidChar := c.valid
  rw [charOf, if_pos hvalid, Char.ofNat_toNat]

/-- A character is no half of a pair. -/
theorem isPair_toNat (c : Char) (low : Nat) : isPair c.toNat low = false := by
  have hvalid : c.toNat < 55296 ∨ 57343 < c.toNat ∧ c.toNat < 1114112 := c.valid
  simp only [isPair, decide_eq_false_iff_not]
  omega

theorem decodeUnits_toNat (text : List Char) : decodeUnits (text.map Char.toNat) = text := by
  induction text with
  | nil => rfl
  | cons c text ih =>
    cases text with
    | nil => rw [List.map_singleton, decodeUnits, charOf_toNat]
    | cons d text =>
      rw [List.map_cons, List.map_cons, decodeUnits, isPair_toNat, if_neg Bool.false_ne_true, charOf_toNat,
        ← List.map_cons, ih]

theorem utf8DecodePass_utf8 (text : List Char) : utf8DecodePass (utf8 text) = some text := by
  rw [utf8DecodePass, utf8Decode_utf8]
  rfl

/-- Two leading ASCII bytes other than NUL are read as UTF-8. -/
theorem decodeText_ascii {a b : UInt8} (rest : Bytes) (ha : 0 < a) (ha' : a < 128) (hb : 0 < b) :
    decodeText (a :: b :: rest) = utf8DecodePass (a :: b :: rest) := by
  have h0 : a ≠ 0 := by rintro rfl; exact absurd ha (by decide)
  have hb0 : b ≠ 0 := by rintro rfl; exact absurd hb (by decide)
  have h1 : a ≠ 255 := by rintro rfl; exact absurd ha' (by decide)
  have h2 : a ≠ 254 := by rintro rfl; exact absurd ha' (by decide)
  have h3 : a ≠ 239 := by rintro rfl; exact absurd ha' (by decide)
  simp only [decodeText, List.isPrefixOf, Bool.and_eq_true, beq_iff_eq, h0.symm, h1.symm, h2.symm,
    h3.symm, false_and, ↓reduceIte]
  split <;> simp_all

namespace Json

/-! ## Writing -/

def hexDigit (n : Nat) : Char := if n < 10 then Char.ofNat (48 + n) else Char.ofNat (87 + n)

def escapeUnit (n : Nat) : List Char :=
  ['\\', 'u', hexDigit (n / 4096 % 16), hexDigit (n / 256 % 16), hexDigit (n / 16 % 16),
    hexDigit (n % 16)]

def escapeChar (ensureAscii : Bool) (c : Char) : List Char :=
  if c = '"' then ['\\', '"']
  else if c = '\\' then ['\\', '\\']
  else if c = '\n' then ['\\', 'n']
  else if c = '\r' then ['\\', 'r']
  else if c = '\t' then ['\\', 't']
  else if c.toNat = 12 then ['\\', 'f']
  else if c.toNat = 8 then ['\\', 'b']
  else if c.toNat < 32 then escapeUnit c.toNat
  else if ensureAscii && 126 < c.toNat then
    if c.toNat < 65536 then escapeUnit c.toNat
    else escapeUnit (55296 + (c.toNat - 65536) / 1024) ++
      escapeUnit (56320 + (c.toNat - 65536) % 1024)
  else [c]

def dumpString (ensureAscii : Bool) (text : List Char) : List Char :=
  '"' :: (text.flatMap (escapeChar ensureAscii) ++ ['"'])

def dumpInt : Int → List Char
  | .ofNat n => Nat.toDigits 10 n
  | .negSucc n => '-' :: Nat.toDigits 10 (n + 1)

mutual
def dump (ensureAscii : Bool) : Json → List Char
  | .null => ['n', 'u', 'l', 'l']
  | .bool true => ['t', 'r', 'u', 'e']
  | .bool false => ['f', 'a', 'l', 's', 'e']
  | .int value => dumpInt value
  | .float literal => literal
  | .str value => dumpString ensureAscii value.toList
  | .arr [] => ['[', ']']
  | .arr (item :: rest) => '[' :: (dump ensureAscii item ++ dumpItems ensureAscii rest)
  | .obj [] => ['{', '}']
  | .obj ((key, item) :: rest) =>
      '{' :: (dumpString ensureAscii key.toList ++
        ':' :: (dump ensureAscii item ++ dumpFields ensureAscii rest))

def dumpItems (ensureAscii : Bool) : List Json → List Char
  | [] => [']']
  | item :: rest => ',' :: (dump ensureAscii item ++ dumpItems ensureAscii rest)

def dumpFields (ensureAscii : Bool) : JsonObject → List Char
  | [] => ['}']
  | (key, item) :: rest =>
      ',' :: (dumpString ensureAscii key.toList ++
        ':' :: (dump ensureAscii item ++ dumpFields ensureAscii rest))
end

def dumps (ensureAscii : Bool) (value : Json) : Bytes := utf8 (dump ensureAscii value.sortKeys)

/-! ## Reading -/

def isSpace (c : Char) : Bool := c = ' ' || c = '\t' || c = '\n' || c = '\r'

def skipSpace (text : List Char) : List Char := text.dropWhile isSpace

def hexValue (c : Char) : Option Nat :=
  if 48 ≤ c.toNat ∧ c.toNat < 58 then some (c.toNat - 48)
  else if 97 ≤ c.toNat ∧ c.toNat < 103 then some (c.toNat - 87)
  else if 65 ≤ c.toNat ∧ c.toNat < 71 then some (c.toNat - 55)
  else none

def hexUnit (a b c d : Char) : Option Nat := do
  return (← hexValue a) * 4096 + (← hexValue b) * 256 + (← hexValue c) * 16 + (← hexValue d)

def unescape (c : Char) : Option Char :=
  if c = '"' then some '"'
  else if c = '\\' then some '\\'
  else if c = '/' then some '/'
  else if c = 'n' then some '\n'
  else if c = 'r' then some '\r'
  else if c = 't' then some '\t'
  else if c = 'f' then some (Char.ofNat 12)
  else if c = 'b' then some (Char.ofNat 8)
  else none

/-- The code points of a string after its opening quote, with the text after the closing one. -/
def loadPoints : List Char → Option (List Nat × List Char)
  | [] => none
  | c :: rest =>
    if c = '"' then some ([], rest)
    else if c = '\\' then
      match rest with
      | 'u' :: a :: b :: c :: d :: rest =>
        match hexUnit a b c d with
        | none => none
        | some unit => (loadPoints rest).map fun tail => (unit :: tail.1, tail.2)
      | e :: rest =>
        match unescape e with
        | none => none
        | some c => (loadPoints rest).map fun tail => (c.toNat :: tail.1, tail.2)
      | [] => none
    else if c.toNat < 32 then none
    else (loadPoints rest).map fun tail => (c.toNat :: tail.1, tail.2)

/-- The rest of a string after its opening quote. Two surrogates next to each other are two escapes:
no character that stands for itself is one. -/
def loadString (text : List Char) : Option (List Char × List Char) :=
  (loadPoints text).map fun tail => (decodeUnits tail.1, tail.2)

def isNumberChar (c : Char) : Bool :=
  c.isDigit || c = '-' || c = '+' || c = '.' || c = 'e' || c = 'E'

/-- `([eE][-+]?\d+)?` up to the end of the token. -/
def isExponent : List Char → Bool
  | [] => true
  | c :: rest =>
    (c = 'e' || c = 'E') &&
      match rest with
      | sign :: digits =>
        if sign = '-' || sign = '+' then !digits.isEmpty && digits.all Char.isDigit
        else rest.all Char.isDigit
      | [] => false

/-- `(\.\d+)?([eE][-+]?\d+)?` up to the end of the token. -/
def isFraction : List Char → Bool
  | '.' :: rest => !(rest.takeWhile Char.isDigit).isEmpty && isExponent (rest.dropWhile Char.isDigit)
  | rest => isExponent rest

def loadNumber (token : List Char) : Option Json :=
  let digits := if token.head? = some '-' then token.tail else token
  let whole := digits.takeWhile Char.isDigit
  let rest := digits.dropWhile Char.isDigit
  if whole.isEmpty || (whole.head? = some '0' && 1 < whole.length) then none
  else if rest.isEmpty then
    let value := Nat.ofDigitChars 10 whole 0
    some (.int (if token.head? = some '-' then -(value : Int) else value))
  else if isFraction rest then some (.float token)
  else none

def infinity : List Char := ['I', 'n', 'f', 'i', 'n', 'i', 't', 'y']

def dropLiteral (literal text : List Char) : Option (List Char) :=
  if literal.isPrefixOf text then some (text.drop literal.length) else none

/-- The `dict` of the items read from an object: a repeated key keeps the last value. -/
def ofItems (items : JsonObject) : JsonObject :=
  items.foldl (fun fields item => set fields item.1 item.2) []

mutual
/-- One value, with the text after it. The fuel bounds the nesting and the item count. -/
def loadValue : Nat → List Char → Option (Json × List Char)
  | 0, _ => none
  | fuel + 1, text =>
    match text with
    | '"' :: rest => (loadString rest).map fun tail => (.str (String.ofList tail.1), tail.2)
    | '[' :: rest =>
      match skipSpace rest with
      | ']' :: rest => some (.arr [], rest)
      | rest => (loadItems fuel rest).map fun tail => (.arr tail.1, tail.2)
    | '{' :: rest =>
      match skipSpace rest with
      | '}' :: rest => some (.obj [], rest)
      | rest => (loadFields fuel rest).map fun tail => (.obj (ofItems tail.1), tail.2)
    | 'n' :: rest => (dropLiteral ['u', 'l', 'l'] rest).map fun rest => (.null, rest)
    | 't' :: rest => (dropLiteral ['r', 'u', 'e'] rest).map fun rest => (.bool true, rest)
    | 'f' :: rest => (dropLiteral ['a', 'l', 's', 'e'] rest).map fun rest => (.bool false, rest)
    | 'N' :: rest => (dropLiteral ['a', 'N'] rest).map fun rest => (.float ['N', 'a', 'N'], rest)
    | 'I' :: rest => (dropLiteral infinity.tail rest).map fun rest => (.float infinity, rest)
    | '-' :: 'I' :: rest =>
      (dropLiteral infinity.tail rest).map fun rest => (.float ('-' :: infinity), rest)
    | text =>
      (loadNumber (text.takeWhile isNumberChar)).map fun value =>
        (value, text.dropWhile isNumberChar)

def loadItems : Nat → List Char → Option (List Json × List Char)
  | 0, _ => none
  | fuel + 1, text =>
    match loadValue fuel text with
    | none => none
    | some (item, rest) =>
      match skipSpace rest with
      | ',' :: rest => (loadItems fuel (skipSpace rest)).map fun tail => (item :: tail.1, tail.2)
      | ']' :: rest => some ([item], rest)
      | _ => none

def loadFields : Nat → List Char → Option (JsonObject × List Char)
  | 0, _ => none
  | fuel + 1, text =>
    match text with
    | '"' :: rest =>
      match loadString rest with
      | none => none
      | some (key, rest) =>
        match skipSpace rest with
        | ':' :: rest =>
          match loadValue fuel (skipSpace rest) with
          | none => none
          | some (item, rest) =>
            match skipSpace rest with
            | ',' :: rest =>
              (loadFields fuel (skipSpace rest)).map fun tail =>
                ((String.ofList key, item) :: tail.1, tail.2)
            | '}' :: rest => some ([(String.ofList key, item)], rest)
            | _ => none
        | _ => none
    | _ => none
end

/-- `json.loads(value)`; `none` is a `JSONDecodeError` or a `UnicodeDecodeError`. -/
def loads (bytes : Bytes) : Option Json := do
  let text := skipSpace (← decodeText bytes)
  let (value, rest) ← loadValue (text.length + 1) text
  if (skipSpace rest).isEmpty then some value else none

/-! ## Reading what was written -/

theorem hexValue_hexDigit : ∀ n, n < 16 → hexValue (hexDigit n) = some n := by decide

theorem hexUnit_escape {n : Nat} (h : n < 65536) :
    hexUnit (hexDigit (n / 4096 % 16)) (hexDigit (n / 256 % 16)) (hexDigit (n / 16 % 16))
      (hexDigit (n % 16)) = some n := by
  have hmod : ∀ m, hexValue (hexDigit (m % 16)) = some (m % 16) := fun m =>
    hexValue_hexDigit _ (Nat.mod_lt _ (by decide))
  simp only [hexUnit, hmod, Option.bind_eq_bind, Option.bind_some, Option.pure_def]
  congr 1
  omega

theorem loadPoints_escapeChar (c : Char) (rest : List Char) :
    loadPoints (escapeChar false c ++ rest) =
      (loadPoints rest).map fun tail => (c.toNat :: tail.1, tail.2) := by
  have hofNat : ∀ n, c.toNat = n → c = Char.ofNat n := by
    rintro n rfl
    exact (Char.ofNat_toNat c).symm
  unfold escapeChar
  split_ifs with h1 h2 h3 h4 h5 h6 h7 h8 h9
  · subst h1; simp [loadPoints, unescape]
  · subst h2; simp [loadPoints, unescape]
  · subst h3; simp [loadPoints, unescape]
  · subst h4; simp [loadPoints, unescape]
  · subst h5; simp [loadPoints, unescape]
  · rw [hofNat 12 h6]; simp [loadPoints, unescape]
  · rw [hofNat 8 h7]; simp [loadPoints, unescape]
  · -- a control character is written as one escaped unit
    simp only [escapeUnit, List.cons_append, List.nil_append, loadPoints, Char.reduceEq,
      ↓reduceIte, hexUnit_escape (show c.toNat < 65536 by omega)]
  · simp at h9
  · simp at h9
  · rw [List.singleton_append, loadPoints.eq_def]
    simp only [h1, h2, h8, ↓reduceIte]

theorem loadPoints_dumpString (text rest : List Char) :
    loadPoints (text.flatMap (escapeChar false) ++ '"' :: rest) = some (text.map Char.toNat, rest) := by
  induction text with
  | nil =>
    rw [List.flatMap_nil, List.nil_append, loadPoints.eq_def]
    rfl
  | cons c text ih => rw [List.flatMap_cons, List.append_assoc, loadPoints_escapeChar, ih]; rfl

theorem loadString_dumpString (text rest : List Char) :
    loadString (text.flatMap (escapeChar false) ++ '"' :: rest) = some (text, rest) := by
  rw [loadString, loadPoints_dumpString, Option.map_some, decodeUnits_toNat]

theorem isDigit_of_mem_toDigits {n : Nat} {c : Char} (h : c ∈ Nat.toDigits 10 n) :
    c.isDigit = true := Nat.isDigit_of_mem_toDigits (by decide) (by decide) h

theorem toDigits_head (n : Nat) (h : 0 < n) : (Nat.toDigits 10 n).head? ≠ some '0' := by
  induction n using Nat.strong_induction_on with
  | _ n ih =>
    rw [Nat.toDigits_eq_if (by decide)]
    split_ifs with hlt
    · have hall : ∀ d, d < 10 → 0 < d → [Nat.digitChar d].head? ≠ some '0' := by decide
      exact hall n hlt h
    · have hne : Nat.toDigits 10 (n / 10) ≠ [] := Nat.toDigits_ne_nil
      rw [List.head?_append_of_ne_nil _ hne]
      exact ih (n / 10) (by omega) (by omega)

theorem takeWhile_append_stop {p : Char → Bool} {text rest : List Char}
    (htext : ∀ c ∈ text, p c = true) (hrest : ∀ c ∈ rest.head?, p c = false) :
    (text ++ rest).takeWhile p = text ∧ (text ++ rest).dropWhile p = rest := by
  rw [List.takeWhile_append_of_pos htext, List.dropWhile_append_of_pos htext]
  cases rest with
  | nil => simp
  | cons c rest => simp [hrest c rfl]

theorem loadNumber_digits (n : Nat) (sign : List Char) (hsign : sign = [] ∨ sign = ['-']) :
    loadNumber (sign ++ Nat.toDigits 10 n) =
      some (.int (if sign = [] then (n : Int) else -(n : Int))) := by
  have hdigits : ∀ c ∈ Nat.toDigits 10 n, c.isDigit = true := fun c hc => isDigit_of_mem_toDigits hc
  have hend : ∀ c ∈ ([] : List Char).head?, c.isDigit = false := by simp
  obtain ⟨hwhole, hrest⟩ := takeWhile_append_stop hdigits hend
  rw [List.append_nil] at hwhole hrest
  have hne : Nat.toDigits 10 n ≠ [] := Nat.toDigits_ne_nil
  have hzero : ((Nat.toDigits 10 n).head? = some '0' && 1 < (Nat.toDigits 10 n).length) = false := by
    rcases Nat.eq_zero_or_pos n with rfl | hpos
    · decide
    · simp [toDigits_head n hpos]
  have hminus : (Nat.toDigits 10 n).head? ≠ some '-' := by
    intro h
    have := isDigit_of_mem_toDigits (List.mem_of_mem_head? h)
    revert this
    decide
  rcases hsign with rfl | rfl
  · simp only [loadNumber, List.nil_append, if_neg hminus, hwhole, hrest, List.isEmpty_nil,
      List.isEmpty_eq_false_iff.mpr hne, Bool.false_or, hzero, Bool.false_eq_true, ↓reduceIte,
      Nat.ofDigitChars_ten_toDigits]
  · simp only [loadNumber, List.cons_append, List.nil_append, List.head?_cons, List.tail_cons,
      ↓reduceIte, hwhole, hrest, List.isEmpty_nil, List.isEmpty_eq_false_iff.mpr hne,
      Bool.false_or, hzero, Bool.false_eq_true, Nat.ofDigitChars_ten_toDigits]
    simp

/-- A float whose literal reads back as itself, and a `dict` without repeated keys. -/
def FloatLiteral (literal : List Char) : Prop :=
  loadNumber literal = some (.float literal) ∧ ∀ c ∈ literal, isNumberChar c = true

mutual
def Writable : Json → Prop
  | .float literal => FloatLiteral literal
  | .arr items => WritableItems items
  | .obj fields => (keys fields).Nodup ∧ WritableFields fields
  | _ => True

def WritableItems : List Json → Prop
  | [] => True
  | item :: rest => item.Writable ∧ WritableItems rest

def WritableFields : JsonObject → Prop
  | [] => True
  | (_, item) :: rest => item.Writable ∧ WritableFields rest
end

/-- What may follow a value in compact text: the end, a comma or a closing bracket. -/
def Follows (rest : List Char) : Prop :=
  ∀ c ∈ rest.head?, c = ',' ∨ c = ']' ∨ c = '}'

theorem follows_nil : Follows [] := by simp [Follows]

theorem Follows.stops {rest : List Char} (h : Follows rest) :
    ∀ c ∈ rest.head?, isNumberChar c = false := by
  intro c hc
  rcases h c hc with rfl | rfl | rfl <;> decide

/-- A number token, read up to what follows it. -/
theorem loadValue_number {token rest : List Char} {value : Json} (n : Nat)
    (hload : loadNumber token = some value) (hchars : ∀ c ∈ token, isNumberChar c = true)
    (hinfinity : ∀ tail, token ≠ '-' :: 'I' :: tail) (hrest : Follows rest) :
    loadValue (n + 1) (token ++ rest) = some (value, rest) := by
  obtain ⟨htake, hdrop⟩ := takeWhile_append_stop hchars hrest.stops
  have hne : token ≠ [] := by rintro rfl; simp [loadNumber] at hload
  obtain ⟨c, tail, rfl⟩ := List.exists_cons_of_ne_nil hne
  have hc := hchars c (by simp)
  rw [loadValue.eq_def]
  simp only [List.cons_append]
  split
  -- no other branch starts with a character of a number, except `-Infinity`
  all_goals first
    | (rename_i heq
       rw [(List.cons.inj heq).1] at hc
       exact absurd hc (by decide))
    | skip
  · rename_i tail' heq
    obtain ⟨rfl, htail⟩ := List.cons.inj heq
    cases tail with
    | nil =>
      rw [List.nil_append] at htail
      rcases hrest 'I' (by simp [htail]) with h | h | h <;> exact absurd h (by decide)
    | cons d tail => exact absurd (by rw [(List.cons.inj htail).1]) (hinfinity tail)
  · rw [← List.cons_append, htake, hdrop, hload]
    rfl

theorem isNumberChar_dumpInt (value : Int) : ∀ c ∈ dumpInt value, isNumberChar c = true := by
  have hdigit : ∀ n c, c ∈ Nat.toDigits 10 n → isNumberChar c = true := fun n c hc => by
    simp [isNumberChar, isDigit_of_mem_toDigits hc]
  intro c hc
  cases value with
  | ofNat n => exact hdigit n c hc
  | negSucc n =>
    rcases List.mem_cons.mp hc with rfl | hc
    · decide
    · exact hdigit _ c hc

theorem loadValue_dumpInt (n : Nat) (value : Int) {rest : List Char} (hrest : Follows rest) :
    loadValue (n + 1) (dumpInt value ++ rest) = some (.int value, rest) := by
  have hI : ∀ m tail, Nat.toDigits 10 m ≠ 'I' :: tail := by
    intro m tail h
    have := isDigit_of_mem_toDigits (n := m) (c := 'I') (by simp [h])
    revert this
    decide
  have hminus : ∀ m tail, Nat.toDigits 10 m ≠ '-' :: tail := by
    intro m tail h
    have := isDigit_of_mem_toDigits (n := m) (c := '-') (by simp [h])
    revert this
    decide
  refine loadValue_number n ?_ (isNumberChar_dumpInt value) ?_ hrest
  · cases value with
    | ofNat m => exact loadNumber_digits m [] (.inl rfl)
    | negSucc m => exact loadNumber_digits (m + 1) ['-'] (.inr rfl)
  · intro tail h
    cases value with
    | ofNat m => exact hminus m _ h
    | negSucc m => exact hI _ tail (List.cons.inj h).2

/-- A value starts with neither white space nor a closing bracket. -/
theorem dump_head {value : Json} (hvalue : Writable value) :
    ∃ c tail, dump false value = c :: tail ∧ isSpace c = false ∧ c ≠ ']' := by
  have hnumber : ∀ token : List Char, token ≠ [] → (∀ c ∈ token, isNumberChar c = true) →
      ∃ c tail, token = c :: tail ∧ isSpace c = false ∧ c ≠ ']' := by
    intro token hne hchars
    obtain ⟨c, tail, rfl⟩ := List.exists_cons_of_ne_nil hne
    have hc := hchars c (by simp)
    refine ⟨c, tail, rfl, ?_, by rintro rfl; exact absurd hc (by decide)⟩
    by_contra hspace
    simp only [Bool.not_eq_false, isSpace, Bool.or_eq_true, decide_eq_true_eq] at hspace
    rcases hspace with ((rfl | rfl) | rfl) | rfl <;> exact absurd hc (by decide)
  cases value with
  | null => exact ⟨'n', _, rfl, by decide, by decide⟩
  | bool value => cases value
                  · exact ⟨'f', _, rfl, by decide, by decide⟩
                  · exact ⟨'t', _, rfl, by decide, by decide⟩
  | int value =>
    refine hnumber _ ?_ (isNumberChar_dumpInt value)
    cases value with
    | ofNat n => exact Nat.toDigits_ne_nil
    | negSucc n => exact List.cons_ne_nil _ _
  | float literal =>
    refine hnumber literal ?_ hvalue.2
    rintro rfl
    exact absurd hvalue.1 (by simp [loadNumber])
  | str value => exact ⟨'"', _, rfl, by decide, by decide⟩
  | arr items => cases items <;> exact ⟨'[', _, rfl, by decide, by decide⟩
  | obj fields => cases fields <;> exact ⟨'{', _, rfl, by decide, by decide⟩

theorem skipSpace_cons {c : Char} (rest : List Char) (h : isSpace c = false) :
    skipSpace (c :: rest) = c :: rest := by simp [skipSpace, h]

theorem skipSpace_dump {value : Json} (hvalue : Writable value) (rest : List Char) :
    skipSpace (dump false value ++ rest) = dump false value ++ rest := by
  obtain ⟨c, tail, h, hspace, -⟩ := dump_head hvalue
  simp [h, skipSpace, hspace]

theorem set_append {fields : JsonObject} {key : String} (item : Json) (h : key ∉ keys fields) :
    set fields key item = fields ++ [(key, item)] := by
  induction fields with
  | nil => rfl
  | cons field rest ih =>
    obtain ⟨hne, hrest⟩ := not_or.mp (mt List.mem_cons.mpr h)
    rw [set, if_neg (Ne.symm hne), ih hrest, List.cons_append]

theorem ofItems_of_nodup {items : JsonObject} (h : (keys items).Nodup) : ofItems items = items := by
  suffices hgen : ∀ done, (keys (done ++ items)).Nodup →
      items.foldl (fun fields item => set fields item.1 item.2) done = done ++ items from hgen [] h
  intro done hdone
  induction items generalizing done with
  | nil => simp
  | cons item rest ih =>
    have hfresh : item.1 ∉ keys done := by
      intro hmem
      simp only [keys, List.map_append, List.map_cons] at hdone
      exact (List.nodup_append.mp hdone).2.2 _ hmem _ List.mem_cons_self rfl
    rw [List.foldl_cons, set_append _ hfresh]
    have hassoc : done ++ item :: rest = done ++ [(item.1, item.2)] ++ rest := by simp
    rw [hassoc] at hdone ⊢
    exact ih (List.nodup_cons.mp h).2 _ hdone

mutual
/-- The reader inverts the writer; a value's length is enough fuel. -/
theorem loadValue_dump : ∀ (value : Json), Writable value → ∀ (rest : List Char), Follows rest →
    ∀ n, (dump false value).length ≤ n → loadValue n (dump false value ++ rest) = some (value, rest)
  | value, hvalue, rest, hrest, 0, hn => by
    obtain ⟨c, tail, h, -⟩ := dump_head hvalue
    simp [h] at hn
  | .null, _, rest, _, n + 1, _ => by simp [dump, loadValue, dropLiteral]
  | .bool true, _, rest, _, n + 1, _ => by simp [dump, loadValue, dropLiteral]
  | .bool false, _, rest, _, n + 1, _ => by simp [dump, loadValue, dropLiteral]
  | .int value, _, rest, hrest, n + 1, _ => loadValue_dumpInt n value hrest
  | .float literal, hvalue, rest, hrest, n + 1, _ => by
    refine loadValue_number n hvalue.1 hvalue.2 ?_ hrest
    rintro tail rfl
    exact absurd (hvalue.2 'I' (by simp)) (by decide)
  | .str value, _, rest, _, n + 1, _ => by
    have h := loadString_dumpString value.toList rest
    simp [dump, dumpString, loadValue, h]
  | .arr [], _, rest, _, n + 1, _ => by simp [dump, loadValue, skipSpace, isSpace]
  | .arr (item :: items), hvalue, rest, _, n + 1, hn => by
    have hitem := hvalue.1
    have hload := loadItems_dump item items hvalue.1 hvalue.2 rest n (by
      simp only [dump, List.length_cons] at hn; omega)
    obtain ⟨c, tail, hhead, hspace, hclose⟩ := dump_head hitem
    simp only [dump, List.cons_append, List.append_assoc, loadValue] at hload ⊢
    rw [skipSpace_dump hitem]
    simp only [hhead, List.cons_append] at hload ⊢
    split
    · rename_i heq
      exact absurd (List.cons.inj heq).1 hclose
    · rw [hload]; rfl
  | .obj [], _, rest, _, n + 1, _ => by simp [dump, loadValue, skipSpace, isSpace]
  | .obj ((key, item) :: fields), hvalue, rest, _, n + 1, hn => by
    have hload := loadFields_dump key item fields hvalue.2.1 hvalue.2.2 rest n (by
      simp only [dump, List.length_cons] at hn; omega)
    have hquote : skipSpace (dumpString false key.toList ++
        ':' :: (dump false item ++ dumpFields false fields) ++ rest) =
        dumpString false key.toList ++
          ':' :: (dump false item ++ dumpFields false fields) ++ rest := by
      simp [dumpString, skipSpace, isSpace]
    have hitems := ofItems_of_nodup hvalue.1
    simp only [dump, List.cons_append, loadValue]
    rw [hquote]
    split
    · rename_i heq
      simp [dumpString] at heq
    · rw [hload]
      simp [hitems]

theorem loadItems_dump : ∀ (item : Json) (items : List Json), Writable item → WritableItems items →
    ∀ (rest : List Char) (n : Nat), (dump false item ++ dumpItems false items).length ≤ n →
    loadItems n (dump false item ++ dumpItems false items ++ rest) = some (item :: items, rest)
  | item, items, hitem, _, rest, 0, hn => by
    obtain ⟨c, tail, h, -⟩ := dump_head hitem
    simp [h] at hn
  | item, [], hitem, _, rest, n + 1, hn => by
    have hlen : (dump false item).length ≤ n := by
      simp only [dumpItems, List.length_append, List.length_singleton] at hn; omega
    have hfollows : Follows (']' :: rest) := by simp [Follows]
    have hload := loadValue_dump item hitem (']' :: rest) hfollows n hlen
    simp [loadItems, dumpItems, hload, skipSpace_cons (c := ']') _ (by decide)]
  | item, next :: items, hitem, hitems, rest, n + 1, hn => by
    have hlen : (dump false item).length ≤ n ∧
        (dump false next ++ dumpItems false items).length ≤ n := by
      simp only [dumpItems, List.length_append, List.length_cons] at hn ⊢; omega
    have hfollows : Follows (',' :: (dump false next ++ dumpItems false items ++ rest)) := by
      simp [Follows]
    have hload := loadValue_dump item hitem _ hfollows n hlen.1
    have htail := loadItems_dump next items hitems.1 hitems.2 rest n hlen.2
    simp only [dumpItems, List.append_assoc, List.cons_append] at hload htail ⊢
    rw [loadItems, hload]
    simp only [skipSpace_cons (c := ',') _ (by decide), skipSpace_dump hitems.1, htail]
    rfl

theorem loadFields_dump : ∀ (key : String) (item : Json) (fields : JsonObject), Writable item →
    WritableFields fields → ∀ (rest : List Char) (n : Nat),
    (dumpString false key.toList ++ ':' :: (dump false item ++ dumpFields false fields)).length ≤ n →
    loadFields n (dumpString false key.toList ++
      ':' :: (dump false item ++ dumpFields false fields) ++ rest) =
        some ((key, item) :: fields, rest)
  | key, item, fields, _, _, rest, 0, hn => by simp [dumpString] at hn
  | key, item, [], hitem, _, rest, n + 1, hn => by
    have hlen : (dump false item).length ≤ n := by
      simp only [List.length_append, List.length_cons] at hn; omega
    have hfollows : Follows ('}' :: rest) := by simp [Follows]
    have hload := loadValue_dump item hitem ('}' :: rest) hfollows n hlen
    have hkey := loadString_dumpString key.toList (':' :: (dump false item ++ '}' :: rest))
    simp only [dumpString, dumpFields, List.cons_append, List.append_assoc, List.nil_append]
      at hload hkey ⊢
    rw [loadFields]
    simp only [hkey, skipSpace_cons (c := ':') _ (by decide), skipSpace_dump hitem, hload,
      skipSpace_cons (c := '}') _ (by decide), String.ofList_toList]
  | key, item, (key', next) :: fields, hitem, hfields, rest, n + 1, hn => by
    have hlen : (dump false item).length ≤ n ∧ (dumpString false key'.toList ++
        ':' :: (dump false next ++ dumpFields false fields)).length ≤ n := by
      simp only [dumpFields, List.length_append, List.length_cons] at hn ⊢; omega
    have htail := loadFields_dump key' next fields hfields.1 hfields.2 rest n hlen.2
    have hfollows : Follows (',' :: (dumpString false key'.toList ++
        ':' :: (dump false next ++ dumpFields false fields) ++ rest)) := by simp [Follows]
    have hload := loadValue_dump item hitem _ hfollows n hlen.1
    have hkey := loadString_dumpString key.toList (':' :: (dump false item ++
      ',' :: (dumpString false key'.toList ++
        ':' :: (dump false next ++ dumpFields false fields) ++ rest)))
    simp only [dumpString, dumpFields, List.cons_append, List.append_assoc, List.nil_append]
      at hload htail hkey ⊢
    rw [loadFields]
    simp only [hkey, skipSpace_cons (c := ':') _ (by decide), skipSpace_dump hitem, hload,
      skipSpace_cons (c := ',') _ (by decide), skipSpace_cons (c := '"') _ (by decide), htail,
      Option.map_some, String.ofList_toList]
end

theorem writableFields_iff {fields : JsonObject} :
    WritableFields fields ↔ ∀ field ∈ fields, field.2.Writable := by
  induction fields with
  | nil => simp [WritableFields]
  | cons field rest ih => obtain ⟨key, item⟩ := field; simp [WritableFields, ih]

theorem mem_insertField {field other : String × Json} {fields : JsonObject} :
    other ∈ insertField field fields ↔ other = field ∨ other ∈ fields := by
  induction fields with
  | nil => simp [insertField]
  | cons head rest ih =>
    by_cases h : head.1 < field.1
    · rw [insertField, if_pos h, List.mem_cons, ih, List.mem_cons]; tauto
    · rw [insertField, if_neg h, List.mem_cons]

mutual
theorem Writable.sortKeys : ∀ {value : Json}, Writable value → Writable value.sortKeys
  | .null, _ | .bool _, _ | .int _, _ | .str _, _ => trivial
  | .float _, h => h
  | .arr _, h => WritableItems.sortItems h
  | .obj fields, h =>
    ⟨(keys_sortFields_perm fields).nodup_iff.mpr h.1, WritableFields.sortFields h.2⟩

theorem WritableItems.sortItems : ∀ {items : List Json}, WritableItems items →
    WritableItems (sortItems items)
  | [], _ => trivial
  | _ :: _, h => ⟨h.1.sortKeys, WritableItems.sortItems h.2⟩

theorem WritableFields.sortFields : ∀ {fields : JsonObject}, WritableFields fields →
    WritableFields (sortFields fields)
  | [], _ => trivial
  | (_, _) :: _, h => by
    have hitem := h.1.sortKeys
    have hrest := WritableFields.sortFields h.2
    rw [writableFields_iff] at hrest ⊢
    intro field hfield
    rcases mem_insertField.mp hfield with rfl | hfield
    · exact hitem
    · exact hrest field hfield
end

/-- Reading the text of a `dict` gives it back with its items in key order. -/
theorem loads_dumps {fields : JsonObject} (h : Writable (.obj fields)) :
    loads (dumps false (.obj fields)) = some (.obj (sortFields fields)) := by
  have hwritable : Writable (.obj (sortFields fields)) := h.sortKeys
  have hload := loadValue_dump _ hwritable [] follows_nil
    ((dump false (.obj (sortFields fields))).length + 1) (Nat.le_succ _)
  have hskip := skipSpace_dump hwritable []
  rw [List.append_nil] at hload hskip
  have hdecode : decodeText (dumps false (.obj fields)) =
      some (dump false (.obj (sortFields fields))) := by
    rw [← utf8DecodePass_utf8]
    rcases hfields : sortFields fields with _ | ⟨⟨key, item⟩, rest⟩
    all_goals
      simp only [dumps, sortKeys, hfields, dump, dumpString, List.cons_append, utf8, List.flatMap_cons]
      exact decodeText_ascii _ (by decide) (by decide) (by decide)
  simp only [loads, hdecode, Option.bind_eq_bind, Option.bind_some, hskip, hload]
  rfl

/-- Escaping everything but ASCII changes nothing in ASCII text. -/
theorem dumpString_ascii {text : List Char} (h : ∀ c ∈ text, c.toNat ≤ 126) :
    dumpString true text = dumpString false text := by
  have hchar : ∀ c ∈ text, escapeChar true c = escapeChar false c := by
    intro c hc
    simp only [escapeChar, Bool.true_and, Nat.not_lt.mpr (h c hc), decide_false, Bool.false_and]
  rw [dumpString, dumpString, List.flatMap_congr hchar]

-- texts are reasoned about by reading them back, never by computing them
attribute [irreducible] dumps

end Json

end MeridianOci.Data
