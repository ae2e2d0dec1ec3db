import Mathlib.Data.List.TakeWhile
import MeridianOci.Data.JsonText

/-!
# URLs

`urllib.parse`: how a URL is taken apart and put together, and percent-encoding. What
depends on tables of IP literals and of Unicode is a parameter. A URL that is put together
of a scheme, a network location and the rest is taken apart into just these, and percent-encoded
text can be read back.
-/
namespace MeridianOci.Data.Url

set_option autoImplicit false

/-- The checks of a network location with brackets or beyond ASCII, and `str.lower`. -/
structure Rules where
  admits : List Char → Bool
  lower : List Char → List Char

structure SplitResult where
  scheme : List Char
  netloc : List Char
  path : List Char
  query : List Char
  fragment : List Char

def isUnsafe (c : Char) : Bool := c = '\t' || c = '\r' || c = '\n'

/-- C0 controls and blanks in front go, and unsafe characters wherever they are. -/
def clean (url : List Char) : List Char := (url.dropWhile (·.toNat ≤ 32)).filter (!isUnsafe ·)

def isSchemeChar (c : Char) : Bool := c.isAlphanum || c = '+' || c = '-' || c = '.'

/-- What is in front of the first `c`, and what comes after it. -/
def splitFirst (c : Char) (text : List Char) : List Char × List Char :=
  (text.takeWhile (· ≠ c), (text.dropWhile (· ≠ c)).tail)

/-- The scheme in lower case, and the rest. -/
def splitScheme (url : List Char) : List Char × List Char :=
  match url.takeWhile (· ≠ ':'), url.dropWhile (· ≠ ':') with
  | first :: more, _ :: rest =>
    if first.isAlpha && (first :: more).all isSchemeChar then ((first :: more).map Char.toLower, rest) else ([], url)
  | _, _ => ([], url)

def isDelimiter (c : Char) : Bool := c = '/' || c = '?' || c = '#'

/-- `_splitnetloc`, after two slashes. -/
def splitNetloc : List Char → List Char × List Char
  | '/' :: '/' :: rest => (rest.takeWhile (!isDelimiter ·), rest.dropWhile (!isDelimiter ·))
  | url => ([], url)

/-- `urlsplit`; `none` is a `ValueError`. -/
def urlsplit (rules : Rules) (url : List Char) : Option SplitResult :=
  let (scheme, rest) := splitScheme (clean url)
  let (netloc, rest) := splitNetloc rest
  if netloc.contains '[' != netloc.contains ']' then none
  else if !rules.admits netloc then none
  else
    let (rest, fragment) := splitFirst '#' rest
    let (path, query) := splitFirst '?' rest
    some ⟨scheme, netloc, path, query, fragment⟩

/-- `urlunsplit((scheme, netloc, "", "", ""))` of a scheme and a network location that are not empty. -/
def urlunsplit (scheme netloc : List Char) : List Char := scheme ++ ':' :: '/' :: '/' :: netloc

/-! The parts of a network location. -/

/-- What is in front of the last `@`, if there is one. -/
def userinfo (netloc : List Char) : Option (List Char) :=
  if netloc.contains '@' then some ((netloc.reverse.dropWhile (· ≠ '@')).tail.reverse) else none

def hostinfo (netloc : List Char) : List Char := (netloc.reverse.takeWhile (· ≠ '@')).reverse

def username (netloc : List Char) : Option (List Char) := (userinfo netloc).map fun info => (splitFirst ':' info).1

def password (netloc : List Char) : Option (List Char) :=
  (userinfo netloc).bind fun info => if info.contains ':' then some (splitFirst ':' info).2 else none

/-- `_hostinfo`: the host, and the text of the port. -/
def hostPort (netloc : List Char) : List Char × List Char :=
  match (hostinfo netloc).dropWhile (· ≠ '[') with
  | [] => splitFirst ':' (hostinfo netloc)
  | _ :: bracketed => ((splitFirst ']' bracketed).1, (splitFirst ':' (splitFirst ']' bracketed).2).2)

/-- The host, in lower case but for its zone. -/
def hostname (rules : Rules) (netloc : List Char) : Option (List Char) :=
  let host := (hostPort netloc).1
  if host = [] then none
  else some (rules.lower (host.takeWhile (· ≠ '%')) ++ host.dropWhile (· ≠ '%'))

/-- `port`; the outer `none` is a `ValueError`. -/
def port (netloc : List Char) : Option (Option Nat) :=
  let text := (hostPort netloc).2
  if text = [] then some none
  else if text.all Char.isDigit ∧ Nat.ofDigitChars 10 text 0 ≤ 65535 then some (some (Nat.ofDigitChars 10 text 0))
  else none

/-- `path.split("/")`. -/
def segments : List Char → List (List Char)
  | [] => [[]]
  | c :: rest =>
    if c = '/' then [] :: segments rest
    else
      match segments rest with
      | [] => [[c]]
      | first :: more => (c :: first) :: more

/-! ## Percent-encoding -/

def isUnreserved (c : Char) : Bool := c.isAlphanum || c = '_' || c = '.' || c = '-' || c = '~'

def hexDigit (n : Nat) : Char := if n < 10 then Char.ofNat (48 + n) else Char.ofNat (55 + n)

def quoteByte (safe : List Char) (byte : UInt8) : List Char :=
  if byte.toNat < 128 ∧ (isUnreserved (Char.ofNat byte.toNat) || safe.contains (Char.ofNat byte.toNat)) then
    [Char.ofNat byte.toNat]
  else ['%', hexDigit (byte.toNat / 16), hexDigit (byte.toNat % 16)]

/-- `quote`, with characters that stay besides those that are unreserved. -/
def quote (safe text : List Char) : List Char := (utf8 text).flatMap (quoteByte safe)

def hexValue (c : Char) : Option Nat :=
  if 48 ≤ c.toNat ∧ c.toNat ≤ 57 then some (c.toNat - 48)
  else if 65 ≤ c.toNat ∧ c.toNat ≤ 70 then some (c.toNat - 55)
  else if 97 ≤ c.toNat ∧ c.toNat ≤ 102 then some (c.toNat - 87)
  else none

/-- `unquote_to_bytes`. -/
def unquote : List Char → Bytes
  | [] => []
  | '%' :: high :: low :: rest =>
    match hexValue high, hexValue low with
    | some h, some l => UInt8.ofNat (16 * h + l) :: unquote rest
    | _, _ => 37 :: unquote (high :: low :: rest)
  | c :: rest => String.utf8EncodeChar c ++ unquote rest

theorem toNat_of_isAlphanum {c : Char} (h : c.isAlphanum = true) :
    (48 ≤ c.toNat ∧ c.toNat ≤ 57) ∨ (65 ≤ c.toNat ∧ c.toNat ≤ 90) ∨ (97 ≤ c.toNat ∧ c.toNat ≤ 122) := by
  delta Char.isAlphanum Char.isAlpha Char.isUpper Char.isLower Char.isDigit at h
  simp only [Bool.or_eq_true, Bool.and_eq_true, decide_eq_true_eq, UInt32.le_iff_toNat_le, ge_iff_le] at h
  have hval : c.toNat = c.val.toNat := rfl
  have hbounds : 'A'.val.toNat = 65 ∧ 'Z'.val.toNat = 90 ∧ 'a'.val.toNat = 97 ∧ 'z'.val.toNat = 122 ∧
    '0'.val.toNat = 48 ∧ '9'.val.toNat = 57 := by decide
  omega

theorem hexValue_hexDigit : ∀ n, n < 16 → hexValue (hexDigit n) = some n := by decide

theorem isAlphanum_hexDigit : ∀ n, n < 16 → (hexDigit n).isAlphanum = true := by decide

theorem toNat_ofNat {n : Nat} (h : n < 128) : (Char.ofNat n).toNat = n :=
  by rw [Char.ofNat, dif_pos (.inl (by omega))]; rfl

theorem utf8EncodeChar_ofNat {n : Nat} (h : n < 128) : String.utf8EncodeChar (Char.ofNat n) = [UInt8.ofNat n] := by
  have hval : (Char.ofNat n).val.toNat = n := toNat_ofNat h
  simp [String.utf8EncodeChar, hval, show n ≤ 127 by omega]

theorem unquote_cons {c : Char} (h : c ≠ '%') (rest : List Char) :
    unquote (c :: rest) = String.utf8EncodeChar c ++ unquote rest := by
  rw [unquote]
  rintro high low tail rfl
  exact absurd rfl h

variable {safe text : List Char}

theorem unquote_quoteByte (hsafe : '%' ∉ safe) (byte : UInt8) (rest : List Char) :
    unquote (quoteByte safe byte ++ rest) = byte :: unquote rest := by
  have hbyte : byte.toNat < 256 := byte.toNat_lt
  unfold quoteByte
  split
  · rename_i hkept
    obtain ⟨hascii, hkept⟩ := hkept
    have hpercent : Char.ofNat byte.toNat ≠ '%' := by
      intro heq
      rw [heq] at hkept
      simp [isUnreserved] at hkept
      exact hsafe hkept
    rw [List.singleton_append, unquote_cons hpercent, utf8EncodeChar_ofNat hascii, UInt8.ofNat_toNat]
    rfl
  · show unquote ('%' :: hexDigit (byte.toNat / 16) :: hexDigit (byte.toNat % 16) :: rest) = _
    rw [unquote, hexValue_hexDigit _ (by omega), hexValue_hexDigit _ (by omega)]
    dsimp only
    rw [Nat.div_add_mod, UInt8.ofNat_toNat]

/-- Percent-encoded text can be read back. -/
theorem unquote_quote (hsafe : '%' ∉ safe) : unquote (quote safe text) = utf8 text := by
  unfold quote
  induction utf8 text with
  | nil => rfl
  | cons byte rest ih => rw [List.flatMap_cons, unquote_quoteByte hsafe, ih]

theorem quote_injective (hsafe : '%' ∉ safe) : Function.Injective (quote safe) := by
  intro text other heq
  have hbytes : utf8 text = utf8 other := by rw [← unquote_quote hsafe, heq, unquote_quote hsafe]
  exact utf8_injective hbytes

/-- What percent-encoded text is made of. -/
theorem mem_quote {c : Char} (h : c ∈ quote safe text) : isUnreserved c = true ∨ c ∈ safe ∨ c = '%' := by
  obtain ⟨byte, -, hc⟩ := List.mem_flatMap.mp h
  have hhex : ∀ n, n < 16 → isUnreserved (hexDigit n) = true := fun n hn => by
    simp [isUnreserved, isAlphanum_hexDigit n hn]
  have hbyte : byte.toNat < 256 := byte.toNat_lt
  unfold quoteByte at hc
  split at hc
  · rename_i hkept
    obtain rfl := List.mem_singleton.mp hc
    have hkept := hkept.2
    rw [Bool.or_eq_true, List.contains_iff_mem] at hkept
    exact hkept.imp_right .inl
  · simp only [List.mem_cons, List.not_mem_nil, or_false] at hc
    rcases hc with rfl | rfl | rfl
    · exact .inr (.inr rfl)
    · exact .inl (hhex _ (by omega))
    · exact .inl (hhex _ (by omega))

theorem isUnreserved_ascii {c : Char} (h : isUnreserved c = true) : c.toNat < 128 := by
  simp only [isUnreserved, Bool.or_eq_true, decide_eq_true_eq] at h
  rcases h with (((h | rfl) | rfl) | rfl) | rfl
  · have hbounds := toNat_of_isAlphanum h
    omega
  all_goals decide

/-- Text of which nothing is encoded. -/
theorem quote_eq_self (h : ∀ c ∈ text, isUnreserved c = true ∨ (c ∈ safe ∧ c.toNat < 128)) : quote safe text = text := by
  induction text with
  | nil => rfl
  | cons c rest ih =>
    have hc := h c List.mem_cons_self
    have hascii : c.toNat < 128 := hc.elim isUnreserved_ascii And.right
    have hkept : (isUnreserved c || safe.contains c) = true := by
      rw [Bool.or_eq_true, List.contains_iff_mem]
      exact hc.imp_right And.left
    have hbyte : (UInt8.ofNat c.toNat).toNat = c.toNat := by
      rw [UInt8.toNat_ofNat']
      omega
    have hone : utf8 (c :: rest) = UInt8.ofNat c.toNat :: utf8 rest := by
      have hchar := utf8EncodeChar_ofNat hascii
      rw [Char.ofNat_toNat] at hchar
      rw [utf8, List.flatMap_cons, hchar]
      rfl
    rw [quote, hone, List.flatMap_cons, quoteByte, hbyte, Char.ofNat_toNat, if_pos ⟨hascii, hkept⟩]
    exact congrArg (c :: ·) (ih fun d hd => h d (List.mem_cons_of_mem _ hd))

/-! ## Segments -/

theorem segments_append {front : List Char} (h : '/' ∉ front) (rest : List Char) :
    segments (front ++ '/' :: rest) = front :: segments rest := by
  induction front with
  | nil => rfl
  | cons c front ih =>
    rw [List.mem_cons, not_or] at h
    rw [List.cons_append, segments, if_neg (Ne.symm h.1), ih h.2]

theorem segments_eq_singleton {front : List Char} (h : '/' ∉ front) : segments front = [front] := by
  induction front with
  | nil => rfl
  | cons c front ih =>
    rw [List.mem_cons, not_or] at h
    rw [segments, if_neg (Ne.symm h.1), ih h.2]

/-! ## Taking a URL apart -/

/-- A character of a scheme is visible, and is no colon. -/
theorem isSchemeChar_spec {c : Char} (h : isSchemeChar c = true) : 32 < c.toNat ∧ c ≠ ':' ∧ isUnsafe c = false := by
  have hvisible : 32 < c.toNat ∧ c.toNat ≠ 58 := by
    simp only [isSchemeChar, Bool.or_eq_true, decide_eq_true_eq] at h
    rcases h with ((h | rfl) | rfl) | rfl
    · have hbounds := toNat_of_isAlphanum h
      omega
    all_goals decide
  refine ⟨hvisible.1, ?_, ?_⟩
  · rintro rfl
    exact hvisible.2 rfl
  · simp only [isUnsafe, Bool.or_eq_false_iff, decide_eq_false_iff_not]
    refine ⟨⟨?_, ?_⟩, ?_⟩
    all_goals
      rintro rfl
      exact absurd hvisible.1 (by decide)

theorem splitFirst_of_notMem {c : Char} (h : c ∉ text) : splitFirst c text = (text, []) := by
  have hall : ∀ d ∈ text, (decide (d ≠ c)) = true := by
    intro d hd
    rw [decide_eq_true_eq]
    rintro rfl
    exact h hd
  rw [splitFirst, List.takeWhile_eq_self_iff.mpr hall, List.dropWhile_eq_nil_iff.mpr hall]
  rfl

theorem splitFirst_append {c : Char} (h : c ∉ text) (rest : List Char) : splitFirst c (text ++ c :: rest) = (text, rest) := by
  have hall : ∀ d ∈ text, (decide (d ≠ c)) = true := by
    intro d hd
    rw [decide_eq_true_eq]
    rintro rfl
    exact h hd
  rw [splitFirst, List.takeWhile_append_of_pos hall, List.dropWhile_append_of_pos hall]
  simp

theorem isUnsafe_of_mem_clean {c : Char} {url : List Char} (h : c ∈ clean url) : isUnsafe c = false := by
  have hkept := (List.mem_filter.mp h).2
  simpa using hkept

theorem clean_eq_self {first : Char} {more : List Char} (hfirst : 32 < first.toNat)
    (hsafe : ∀ c ∈ first :: more, isUnsafe c = false) : clean (first :: more) = first :: more := by
  rw [clean, List.dropWhile_cons_of_neg (by simpa using hfirst)]
  exact List.filter_eq_self.mpr fun c hc => by rw [hsafe c hc]; rfl

/-- A network location as a URL is taken apart at. -/
structure Located (rules : Rules) (netloc : List Char) : Prop where
  undivided : ∀ c ∈ netloc, isDelimiter c = false
  cleaned : ∀ c ∈ netloc, isUnsafe c = false
  balanced : (netloc.contains '[' != netloc.contains ']') = false
  admitted : rules.admits netloc = true

theorem mem_splitScheme {c : Char} {url : List Char} (h : c ∈ (splitScheme url).2) : c ∈ url := by
  unfold splitScheme at h
  split at h
  · rename_i hdrop
    split at h
    · exact (List.dropWhile_suffix _).subset (hdrop ▸ List.mem_cons_of_mem _ h)
    · exact h
  · exact h

theorem splitNetloc_spec (url : List Char) :
    (∀ c ∈ (splitNetloc url).1, c ∈ url ∧ isDelimiter c = false) ∧ ∀ c ∈ (splitNetloc url).2, c ∈ url := by
  unfold splitNetloc
  split
  · rename_i rest
    refine ⟨fun c hc => ⟨?_, by simpa using List.mem_takeWhile_imp hc⟩, fun c hc => ?_⟩
    · exact List.mem_cons_of_mem _ (List.mem_cons_of_mem _ ((List.takeWhile_prefix _).subset hc))
    · exact List.mem_cons_of_mem _ (List.mem_cons_of_mem _ ((List.dropWhile_suffix _).subset hc))
  · exact ⟨fun c hc => (by cases hc), fun c hc => hc⟩

theorem located_of_urlsplit {rules : Rules} {url : List Char} {parsed : SplitResult}
    (h : urlsplit rules url = some parsed) : Located rules parsed.netloc := by
  unfold urlsplit at h
  dsimp only at h
  split at h
  · cases h
  rename_i hbalanced
  split at h
  · cases h
  rename_i hadmitted
  obtain rfl := Option.some.inj h
  have hspec := (splitNetloc_spec (splitScheme (clean url)).2).1
  refine ⟨fun c hc => (hspec c hc).2, fun c hc => ?_, by simpa using hbalanced, by simpa using hadmitted⟩
  exact isUnsafe_of_mem_clean (mem_splitScheme (hspec c hc).1)

/-- A scheme in lower case. -/
structure IsScheme (scheme : List Char) : Prop where
  begins : ∃ first more, scheme = first :: more ∧ first.isAlpha = true
  chars : scheme.all isSchemeChar = true
  lowered : scheme.map Char.toLower = scheme

theorem splitScheme_append {scheme : List Char} (h : IsScheme scheme) (rest : List Char) :
    splitScheme (scheme ++ ':' :: rest) = (scheme, rest) := by
  obtain ⟨⟨first, more, rfl, hfirst⟩, hchars, hlowered⟩ := h
  have hall : ∀ c ∈ first :: more, (decide (c ≠ ':')) = true := fun c hc =>
    decide_eq_true (isSchemeChar_spec (List.all_eq_true.mp hchars c hc)).2.1
  have htake : ((first :: more) ++ ':' :: rest).takeWhile (fun c => decide (c ≠ ':')) = first :: more := by
    rw [List.takeWhile_append_of_pos hall]
    simp
  have hdrop : ((first :: more) ++ ':' :: rest).dropWhile (fun c => decide (c ≠ ':')) = ':' :: rest := by
    rw [List.dropWhile_append_of_pos hall]
    simp
  unfold splitScheme
  rw [htake, hdrop]
  dsimp only
  rw [hfirst, hchars, hlowered]
  rfl

theorem splitNetloc_append {netloc rest : List Char} (hnetloc : ∀ c ∈ netloc, isDelimiter c = false)
    (hrest : ∀ c ∈ rest.head?, isDelimiter c = true) : splitNetloc ('/' :: '/' :: (netloc ++ rest)) = (netloc, rest) := by
  have hall : ∀ c ∈ netloc, (!isDelimiter c) = true := fun c hc => by rw [hnetloc c hc]; rfl
  rw [splitNetloc, List.takeWhile_append_of_pos hall, List.dropWhile_append_of_pos hall]
  cases rest with
  | nil => simp
  | cons c more =>
    have hc := hrest c rfl
    simp [hc]

/-- What was put together is taken apart again. -/
theorem urlsplit_urlunsplit {rules : Rules} {scheme netloc rest : List Char} (hscheme : IsScheme scheme)
    (hnetloc : Located rules netloc) (hrest : ∀ c ∈ rest.head?, isDelimiter c = true)
    (hsafe : ∀ c ∈ rest, isUnsafe c = false) :
    urlsplit rules (urlunsplit scheme netloc ++ rest) = some ⟨scheme, netloc,
      (splitFirst '?' (splitFirst '#' rest).1).1, (splitFirst '?' (splitFirst '#' rest).1).2, (splitFirst '#' rest).2⟩ := by
  have hclean : clean (urlunsplit scheme netloc ++ rest) = urlunsplit scheme netloc ++ rest := by
    obtain ⟨first, more, hfirst, -⟩ := hscheme.begins
    have hchar : ∀ c ∈ scheme, 32 < c.toNat ∧ c ≠ ':' ∧ isUnsafe c = false := fun c hc =>
      isSchemeChar_spec (List.all_eq_true.mp hscheme.chars c hc)
    have hall : ∀ c ∈ urlunsplit scheme netloc ++ rest, isUnsafe c = false := by
      intro c hc
      simp only [urlunsplit, List.mem_append, List.mem_cons] at hc
      rcases hc with (hc | rfl | rfl | rfl | hc) | hc
      · exact (hchar c hc).2.2
      · decide
      · decide
      · decide
      · exact hnetloc.cleaned c hc
      · exact hsafe c hc
    have hhead := (hchar first (by rw [hfirst]; exact List.mem_cons_self)).1
    rw [hfirst] at hall ⊢
    exact clean_eq_self hhead hall
  unfold urlsplit
  rw [hclean, urlunsplit, List.append_assoc, List.cons_append, List.cons_append, List.cons_append,
    splitScheme_append hscheme]
  dsimp only
  rw [splitNetloc_append hnetloc.undivided hrest]
  dsimp only
  rw [if_neg (by rw [hnetloc.balanced]; exact Bool.false_ne_true), if_neg (by rw [hnetloc.admitted]; exact Bool.false_ne_true)]

end MeridianOci.Data.Url
