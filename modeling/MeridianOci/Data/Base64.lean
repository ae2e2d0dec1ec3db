import MeridianOci.Data.JsonText

/-!
# URL-safe base64 without padding

`encode` is `base64.urlsafe_b64encode` with the `=` stripped. `decode` is
`base64.urlsafe_b64decode`, which is lenient: characters outside the alphabet are
skipped, the standard `+` and `/` are accepted as well, and input after a complete
padding is ignored.
-/
namespace MeridianOci.Data.Base64

set_option autoImplicit false

def symbol (n : Nat) : Char :=
  if n < 26 then Char.ofNat (65 + n)
  else if n < 52 then Char.ofNat (71 + n)
  else if n < 62 then Char.ofNat (n - 4)
  else if n = 62 then '-'
  else '_'

def sextet (c : Char) : Option Nat :=
  if 65 ≤ c.toNat ∧ c.toNat ≤ 90 then some (c.toNat - 65)
  else if 97 ≤ c.toNat ∧ c.toNat ≤ 122 then some (c.toNat - 71)
  else if 48 ≤ c.toNat ∧ c.toNat ≤ 57 then some (c.toNat + 4)
  else if c = '-' ∨ c = '+' then some 62
  else if c = '_' ∨ c = '/' then some 63
  else none

def encode : Bytes → List Char
  | [] => []
  | [a] => [symbol (a.toNat / 4), symbol (a.toNat % 4 * 16)]
  | [a, b] => [symbol (a.toNat / 4), symbol (a.toNat % 4 * 16 + b.toNat / 16),
      symbol (b.toNat % 16 * 4)]
  | a :: b :: c :: rest =>
    symbol (a.toNat / 4) :: symbol (a.toNat % 4 * 16 + b.toNat / 16) ::
      symbol (b.toNat % 16 * 4 + c.toNat / 64) :: symbol (c.toNat % 64) :: encode rest

/-- The scanner's state is the position in the quantum, the bits left over and the
number of padding characters seen in it. -/
def scan : List Char → (position left pads : Nat) → Option Bytes
  | [], position, _, _ => if position = 0 then some [] else none
  | c :: rest, position, left, pads =>
    if c = '=' then
      if 2 ≤ position then
        if 4 ≤ position + (pads + 1) then some [] else scan rest position left (pads + 1)
      else scan rest position left pads
    else
      match sextet c with
      | none => scan rest position left pads
      | some value =>
        if position = 0 then scan rest 1 value 0
        else if position = 1 then
          (scan rest 2 (value % 16) 0).map (UInt8.ofNat (left * 4 + value / 16) :: ·)
        else if position = 2 then
          (scan rest 3 (value % 4) 0).map (UInt8.ofNat (left * 16 + value / 4) :: ·)
        else (scan rest 0 0 0).map (UInt8.ofNat (left * 64 + value) :: ·)

def decode (text : List Char) : Option Bytes :=
  if text.all (·.toNat < 128) then scan text 0 0 0 else none

/-- `value + "=" * (-len(value) % 4)`. -/
def padded (text : List Char) : List Char := text ++ List.replicate ((4 - text.length % 4) % 4) '='

/-- A character of the standard alphabet. -/
def toStandard (c : Char) : Char := if c = '-' then '+' else if c = '_' then '/' else c

/-- `base64.b64encode`. -/
def standard (bytes : Bytes) : List Char := (padded (encode bytes)).map toStandard

theorem sextet_symbol : ∀ n, n < 64 → sextet (symbol n) = some n := by decide

theorem symbol_spec : ∀ n, n < 64 →
    symbol n ≠ '=' ∧ symbol n ≠ '.' ∧ (symbol n).toNat < 128 := by decide

theorem mem_encode (bytes : Bytes) : ∀ c ∈ encode bytes, ∃ n, n < 64 ∧ c = symbol n := by
  have hlt : ∀ a : UInt8, a.toNat < 256 := UInt8.toNat_lt
  induction bytes using encode.induct with
  | case1 => simp [encode]
  | case2 a =>
    have ha := hlt a
    simp only [encode, List.mem_cons, List.not_mem_nil, or_false]
    rintro c (rfl | rfl)
    · exact ⟨_, by omega, rfl⟩
    · exact ⟨_, by omega, rfl⟩
  | case3 a b =>
    have ha := hlt a
    have hb := hlt b
    simp only [encode, List.mem_cons, List.not_mem_nil, or_false]
    rintro c (rfl | rfl | rfl)
    · exact ⟨_, by omega, rfl⟩
    · exact ⟨_, by omega, rfl⟩
    · exact ⟨_, by omega, rfl⟩
  | case4 a b c rest ih =>
    have ha := hlt a
    have hb := hlt b
    have hc := hlt c
    simp only [encode, List.mem_cons]
    rintro d (rfl | rfl | rfl | rfl | hd)
    · exact ⟨_, by omega, rfl⟩
    · exact ⟨_, by omega, rfl⟩
    · exact ⟨_, by omega, rfl⟩
    · exact ⟨_, by omega, rfl⟩
    · exact ih d hd

theorem scan_symbol {n : Nat} (h : n < 64) (rest : List Char) (position left pads : Nat) :
    scan (symbol n :: rest) position left pads =
      if position = 0 then scan rest 1 n 0
      else if position = 1 then
        (scan rest 2 (n % 16) 0).map (UInt8.ofNat (left * 4 + n / 16) :: ·)
      else if position = 2 then
        (scan rest 3 (n % 4) 0).map (UInt8.ofNat (left * 16 + n / 4) :: ·)
      else (scan rest 0 0 0).map (UInt8.ofNat (left * 64 + n) :: ·) := by
  rw [scan, if_neg (symbol_spec n h).1, sextet_symbol n h]

private theorem ofNat_eq {a : UInt8} {n : Nat} (h : n = a.toNat) : UInt8.ofNat n = a := by
  rw [h, UInt8.ofNat_toNat]

theorem length_encode_mod (bytes : Bytes) :
    (4 - (encode bytes).length % 4) % 4 =
      if bytes.length % 3 = 1 then 2 else if bytes.length % 3 = 2 then 1 else 0 := by
  induction bytes using encode.induct with
  | case1 => rfl
  | case2 a => rfl
  | case3 a b => rfl
  | case4 a b c rest ih =>
    have hlen : (encode (a :: b :: c :: rest)).length = (encode rest).length + 4 := rfl
    rw [hlen, Nat.add_mod_right, ih]
    simp only [List.length_cons, Nat.add_assoc, Nat.reduceAdd, Nat.add_mod_right]

theorem scan_encode (bytes : Bytes) (pads : Nat) :
    scan (encode bytes ++ List.replicate
      (if bytes.length % 3 = 1 then 2 else if bytes.length % 3 = 2 then 1 else 0) '=') 0 0 pads =
      some bytes := by
  induction bytes using encode.induct generalizing pads with
  | case1 => rfl
  | case2 a =>
    have ha := a.toNat_lt
    have hpads : scan ['=', '='] 2 (a.toNat % 4 * 16 % 16) 0 = some [] := by simp [scan]
    simp only [encode, List.length_singleton, Nat.reduceMod, ↓reduceIte, List.cons_append,
      List.nil_append, List.replicate]
    rw [scan_symbol (by omega), if_pos rfl, scan_symbol (by omega), if_neg (by decide), if_pos rfl,
      hpads, Option.map_some, ofNat_eq (a := a) (by omega)]
  | case3 a b =>
    have ha := a.toNat_lt
    have hb := b.toNat_lt
    have hpads : scan ['='] 3 (b.toNat % 16 * 4 % 4) 0 = some [] := by simp [scan]
    simp only [encode, List.length_cons, List.length_nil, Nat.reduceAdd, Nat.reduceMod,
      Nat.reduceEqDiff, ↓reduceIte, List.cons_append, List.nil_append, List.replicate]
    rw [scan_symbol (by omega), if_pos rfl, scan_symbol (by omega), if_neg (by decide), if_pos rfl,
      scan_symbol (by omega), if_neg (by decide), if_neg (by decide), if_pos rfl, hpads,
      Option.map_some, Option.map_some, ofNat_eq (a := a) (by omega), ofNat_eq (a := b) (by omega)]
  | case4 a b c rest ih =>
    have ha := a.toNat_lt
    have hb := b.toNat_lt
    have hc := c.toNat_lt
    have hlen : (a :: b :: c :: rest).length % 3 = rest.length % 3 := by
      simp only [List.length_cons, Nat.add_assoc, Nat.reduceAdd, Nat.add_mod_right]
    simp only [hlen, encode, List.cons_append]
    rw [scan_symbol (by omega), if_pos rfl, scan_symbol (by omega), if_neg (by decide), if_pos rfl,
      scan_symbol (by omega), if_neg (by decide), if_neg (by decide), if_pos rfl,
      scan_symbol (by omega), if_neg (by decide), if_neg (by decide), if_neg (by decide), ih]
    have hfirst := ofNat_eq (a := a)
      (n := a.toNat / 4 * 4 + (a.toNat % 4 * 16 + b.toNat / 16) / 16) (by omega)
    have hsecond := ofNat_eq (a := b) (n := (a.toNat % 4 * 16 + b.toNat / 16) % 16 * 16 +
      (b.toNat % 16 * 4 + c.toNat / 64) / 4) (by omega)
    have hthird := ofNat_eq (a := c)
      (n := (b.toNat % 16 * 4 + c.toNat / 64) % 4 * 64 + c.toNat % 64) (by omega)
    simp only [Option.map_some, hfirst, hsecond, hthird]

/-- Decoding the padded encoding gives the bytes back. -/
theorem decode_padded_encode (bytes : Bytes) : decode (padded (encode bytes)) = some bytes := by
  have hascii : (padded (encode bytes)).all (·.toNat < 128) = true := by
    rw [List.all_eq_true]
    intro c hc
    rcases List.mem_append.mp hc with hc | hc
    · obtain ⟨n, hn, rfl⟩ := mem_encode bytes c hc
      exact decide_eq_true (symbol_spec n hn).2.2
    · rw [(List.mem_replicate.mp hc).2]
      decide
  rw [decode, if_pos hascii, padded, length_encode_mod, scan_encode]

theorem sextet_toStandard (c : Char) : sextet (toStandard c) = sextet c := by
  unfold toStandard
  split
  · rename_i heq
    rw [heq]
    decide
  split
  · rename_i heq
    rw [heq]
    decide
  · rfl

theorem toStandard_eq (c : Char) : (toStandard c = '=' ↔ c = '=') ∧ ((toStandard c).toNat < 128 ↔ c.toNat < 128) := by
  unfold toStandard
  split
  · rename_i heq
    rw [heq]
    decide
  split
  · rename_i heq
    rw [heq]
    decide
  · exact ⟨.rfl, .rfl⟩

theorem scan_toStandard (text : List Char) (position left pads : Nat) :
    scan (text.map toStandard) position left pads = scan text position left pads := by
  induction text generalizing position left pads with
  | nil => rfl
  | cons c rest ih =>
    rw [List.map_cons, scan, scan]
    simp only [(toStandard_eq c).1, sextet_toStandard, ih]

/-- Both alphabets are read. -/
theorem decode_standard (bytes : Bytes) : decode (standard bytes) = some bytes := by
  have hascii : ((padded (encode bytes)).map toStandard).all (fun c => c.toNat < 128) =
      (padded (encode bytes)).all fun c => c.toNat < 128 := by
    rw [List.all_map]
    exact congrArg (fun p => (padded (encode bytes)).all p) (funext fun c => decide_eq_decide.mpr (toStandard_eq c).2)
  rw [← decode_padded_encode bytes, decode, decode, standard, hascii, scan_toStandard]

/-! ## The spellings of the encoder -/

/-- A character that the encoder writes. -/
def isSymbol (c : Char) : Bool := (sextet c).isSome && c ≠ '+' && c ≠ '/'

/-- Text that the encoder writes: characters of its alphabet only, in groups of four but for the
last, whose unused bits are zero. -/
def strict : List Char → Bool
  | [] => true
  | [_] => false
  | [a, b] => isSymbol a && isSymbol b && (sextet b).getD 0 % 16 = 0
  | [a, b, c] => isSymbol a && isSymbol b && isSymbol c && (sextet c).getD 0 % 4 = 0
  | a :: b :: c :: d :: rest => isSymbol a && isSymbol b && isSymbol c && isSymbol d && strict rest

theorem isSymbol_symbol : ∀ n, n < 64 → isSymbol (symbol n) = true := by decide

/-- Every character of the alphabet is the symbol of its value. -/
theorem exists_symbol {c : Char} (h : isSymbol c = true) : ∃ n, n < 64 ∧ c = symbol n ∧ sextet c = some n := by
  simp only [isSymbol, Bool.and_eq_true, decide_eq_true_eq] at h
  obtain ⟨⟨hsome, hplus⟩, hslash⟩ := h
  obtain ⟨n, hn⟩ := Option.isSome_iff_exists.mp hsome
  refine ⟨n, ?_, ?_, hn⟩
  · unfold sextet at hn
    split_ifs at hn <;> have hn := Option.some.inj hn <;> omega
  · have hchar : ∀ m, m = c.toNat → c = Char.ofNat m := fun m hm => by rw [hm, Char.ofNat_toNat]
    unfold sextet at hn
    split_ifs at hn with hupper hlower hdigit hdash hunder
    · obtain rfl := Option.some.inj hn
      rw [symbol, if_pos (by omega)]
      exact hchar _ (by omega)
    · obtain rfl := Option.some.inj hn
      rw [symbol, if_neg (by omega), if_pos (by omega)]
      exact hchar _ (by omega)
    · obtain rfl := Option.some.inj hn
      rw [symbol, if_neg (by omega), if_neg (by omega), if_pos (by omega)]
      exact hchar _ (by omega)
    · obtain rfl := Option.some.inj hn
      exact hdash.resolve_right hplus
    · obtain rfl := Option.some.inj hn
      exact hunder.resolve_right hslash

theorem strict_encode (bytes : Bytes) : strict (encode bytes) = true := by
  induction bytes using encode.induct with
  | case1 => rfl
  | case2 a =>
    have ha := a.toNat_lt
    simp only [encode, strict, isSymbol_symbol _ (show a.toNat / 4 < 64 by omega),
      isSymbol_symbol _ (show a.toNat % 4 * 16 < 64 by omega), sextet_symbol _ (show a.toNat % 4 * 16 < 64 by omega),
      Option.getD_some, Bool.and_self, Bool.true_and, decide_eq_true_eq]
    omega
  | case3 a b =>
    have ha := a.toNat_lt
    have hb := b.toNat_lt
    simp only [encode, strict, isSymbol_symbol _ (show a.toNat / 4 < 64 by omega),
      isSymbol_symbol _ (show a.toNat % 4 * 16 + b.toNat / 16 < 64 by omega),
      isSymbol_symbol _ (show b.toNat % 16 * 4 < 64 by omega), sextet_symbol _ (show b.toNat % 16 * 4 < 64 by omega),
      Option.getD_some, Bool.and_self, Bool.true_and, decide_eq_true_eq]
    omega
  | case4 a b c rest ih =>
    have ha := a.toNat_lt
    have hb := b.toNat_lt
    have hc := c.toNat_lt
    simp only [encode, strict, isSymbol_symbol _ (show a.toNat / 4 < 64 by omega),
      isSymbol_symbol _ (show a.toNat % 4 * 16 + b.toNat / 16 < 64 by omega),
      isSymbol_symbol _ (show b.toNat % 16 * 4 + c.toNat / 64 < 64 by omega),
      isSymbol_symbol _ (show c.toNat % 64 < 64 by omega), ih, Bool.and_self]

/-- Strict text is written by the encoder. -/
theorem exists_encode {text : List Char} (h : strict text = true) : ∃ bytes, text = encode bytes := by
  have hbyte : ∀ n, n < 256 → (UInt8.ofNat n).toNat = n := fun n hn => UInt8.toNat_ofNat_of_lt' hn
  induction text using strict.induct with
  | case1 => exact ⟨[], rfl⟩
  | case2 a => cases h
  | case3 a b =>
    simp only [strict, Bool.and_eq_true, decide_eq_true_eq] at h
    obtain ⟨⟨ha, hb⟩, hzero⟩ := h
    obtain ⟨m, hm, rfl, -⟩ := exists_symbol ha
    obtain ⟨n, hn, rfl, hsextet⟩ := exists_symbol hb
    rw [hsextet, Option.getD_some] at hzero
    have hfirst := hbyte (m * 4 + n / 16) (by omega)
    refine ⟨[UInt8.ofNat (m * 4 + n / 16)], ?_⟩
    rw [encode, hfirst, show (m * 4 + n / 16) / 4 = m by omega, show (m * 4 + n / 16) % 4 * 16 = n by omega]
  | case4 a b c =>
    simp only [strict, Bool.and_eq_true, decide_eq_true_eq] at h
    obtain ⟨⟨⟨ha, hb⟩, hc⟩, hzero⟩ := h
    obtain ⟨l, hl, rfl, -⟩ := exists_symbol ha
    obtain ⟨m, hm, rfl, -⟩ := exists_symbol hb
    obtain ⟨n, hn, rfl, hsextet⟩ := exists_symbol hc
    rw [hsextet, Option.getD_some] at hzero
    have hfirst := hbyte (l * 4 + m / 16) (by omega)
    have hsecond := hbyte (m % 16 * 16 + n / 4) (by omega)
    refine ⟨[UInt8.ofNat (l * 4 + m / 16), UInt8.ofNat (m % 16 * 16 + n / 4)], ?_⟩
    rw [encode, hfirst, hsecond, show (l * 4 + m / 16) / 4 = l by omega,
      show (l * 4 + m / 16) % 4 * 16 + (m % 16 * 16 + n / 4) / 16 = m by omega,
      show (m % 16 * 16 + n / 4) % 16 * 4 = n by omega]
  | case5 a b c d rest ih =>
    simp only [strict, Bool.and_eq_true] at h
    obtain ⟨⟨⟨⟨ha, hb⟩, hc⟩, hd⟩, hrest⟩ := h
    obtain ⟨k, hk, rfl, -⟩ := exists_symbol ha
    obtain ⟨l, hl, rfl, -⟩ := exists_symbol hb
    obtain ⟨m, hm, rfl, -⟩ := exists_symbol hc
    obtain ⟨n, hn, rfl, -⟩ := exists_symbol hd
    obtain ⟨bytes, rfl⟩ := ih hrest
    have hfirst := hbyte (k * 4 + l / 16) (by omega)
    have hsecond := hbyte (l % 16 * 16 + m / 4) (by omega)
    have hthird := hbyte (m % 4 * 64 + n) (by omega)
    refine ⟨UInt8.ofNat (k * 4 + l / 16) :: UInt8.ofNat (l % 16 * 16 + m / 4) :: UInt8.ofNat (m % 4 * 64 + n) :: bytes, ?_⟩
    rw [encode, hfirst, hsecond, hthird, show (k * 4 + l / 16) / 4 = k by omega,
      show (k * 4 + l / 16) % 4 * 16 + (l % 16 * 16 + m / 4) / 16 = l by omega,
      show (l % 16 * 16 + m / 4) % 16 * 4 + (m % 4 * 64 + n) / 64 = m by omega,
      show (m % 4 * 64 + n) % 64 = n by omega]

/-- Strict text is the only strict spelling of what it decodes to. -/
theorem encode_of_strict {text : List Char} {bytes : Bytes} (h : strict text = true)
    (hdecode : decode (padded text) = some bytes) : text = encode bytes := by
  obtain ⟨other, rfl⟩ := exists_encode h
  rw [Option.some.inj ((decode_padded_encode other).symm.trans hdecode)]

/-- Four foreign characters in front of a text are skipped. -/
theorem decode_padded_foreign (text : List Char) : decode (padded ('!' :: '!' :: '!' :: '!' :: text)) = decode (padded text) := by
  have hskip : ∀ rest : List Char, scan ('!' :: rest) 0 0 0 = scan rest 0 0 0 := fun rest => rfl
  have hlength : ('!' :: '!' :: '!' :: '!' :: text).length % 4 = text.length % 4 := Nat.add_mod_right text.length 4
  rw [decode, padded, hlength]
  simp only [List.cons_append, List.all_cons, hskip]
  rfl

end MeridianOci.Data.Base64
