import MeridianOci.Model.Config

/-!
# Bindings that are constructed again

A binding normalises what it was constructed with: it keeps the parsed resource, the endpoint
without a slash and the key it has drawn. What it keeps passes the same checks again and is kept
as it is, so that a binding whose CA bundle is replaced differs in nothing else.
-/
namespace MeridianOci.Service

open MeridianOci.Data MeridianOci.Model

set_option autoImplicit false

variable {rules : ConfigRules}

/-! ## Endpoints -/

theorem isScheme_https : Url.IsScheme "https".toList := ⟨⟨'h', _, rfl, rfl⟩, by decide, by decide⟩

theorem isScheme_http : Url.IsScheme "http".toList := ⟨⟨'h', _, rfl, rfl⟩, by decide, by decide⟩

section Endpoint

variable {allowHttp : Bool} (endpoint : Endpoint rules allowHttp)

theorem isScheme_endpoint : Url.IsScheme endpoint.scheme := by
  rcases endpoint.scheme_allowed with h | ⟨h, -⟩
  · rw [h]
    exact isScheme_https
  · rw [h]
    exact isScheme_http

theorem netloc_ne_nil : endpoint.netloc ≠ [] := by
  intro hnil
  have hhost := endpoint.host
  rw [hnil] at hhost
  exact hhost rfl

/-- Nothing is stripped: a network location ends in no slash. -/
theorem toList_endpoint : endpoint.text.toList = Url.urlunsplit endpoint.scheme endpoint.netloc := by
  obtain ⟨front, last, hlast⟩ : ∃ front last, endpoint.netloc = front ++ [last] :=
    (List.eq_nil_or_concat' _).resolve_left (netloc_ne_nil endpoint)
  have hslash : last ≠ '/' := by
    rintro rfl
    have hundivided := endpoint.located.undivided '/' (by rw [hlast]; simp)
    cases hundivided
  have hunsplit : Url.urlunsplit endpoint.scheme endpoint.netloc =
      (endpoint.scheme ++ ':' :: '/' :: '/' :: front) ++ [last] := by
    rw [Url.urlunsplit, hlast]
    simp
  rw [Endpoint.text, String.toList_ofList, rstripSlash, hunsplit, List.reverse_append, List.reverse_singleton,
    List.singleton_append, List.dropWhile_cons_of_neg (by simpa using hslash), List.reverse_cons, List.reverse_reverse]

/-- What is appended to an endpoint is all that is read behind its network location. -/
theorem urlsplit_endpoint {rest : List Char} (hrest : ∀ c ∈ rest.head?, Url.isDelimiter c = true)
    (hsafe : ∀ c ∈ rest, Url.isUnsafe c = false) :
    Url.urlsplit rules.url (endpoint.text.toList ++ rest) = some ⟨endpoint.scheme, endpoint.netloc,
      (Url.splitFirst '?' (Url.splitFirst '#' rest).1).1, (Url.splitFirst '?' (Url.splitFirst '#' rest).1).2,
      (Url.splitFirst '#' rest).2⟩ := by
  rw [toList_endpoint]
  exact Url.urlsplit_urlunsplit (isScheme_endpoint endpoint) endpoint.located hrest hsafe

/-- The text of an endpoint is read as the endpoint. -/
theorem endpointOf_endpoint : endpointOf rules (.str endpoint.text) allowHttp = .ok endpoint := by
  have hsplit : Url.urlsplit rules.url endpoint.text.toList = some ⟨endpoint.scheme, endpoint.netloc, [], [], []⟩ := by
    have happend := @urlsplit_endpoint rules allowHttp endpoint [] (by simp) (by simp)
    rw [List.append_nil] at happend
    exact happend
  unfold endpointOf
  dsimp only
  split
  · rename_i hnone
    rw [hsplit] at hnone
    cases hnone
  · rename_i parsed hparsed
    obtain rfl := Option.some.inj (hparsed.symm.trans hsplit)
    rw [dif_pos endpoint.port, dif_pos endpoint.scheme_allowed, dif_pos ⟨endpoint.host, endpoint.anonymous⟩, if_neg (by simp)]

end Endpoint

/-! ## The other fields -/

theorem repositoryOf_str {name : String} (h : repositoryGrammar.rmatch name.toList = true) :
    repositoryOf (.str name) = .ok ⟨name, h⟩ := by
  rw [repositoryOf, dif_pos h]

theorem verifyTlsOf_argument (verifyTls : TlsVerification) : verifyTlsOf verifyTls.argument = .ok verifyTls := by
  cases verifyTls with
  | flag value => rfl
  | bundle path hpath =>
    rw [TlsVerification.argument, verifyTlsOf, dif_pos hpath]

theorem positiveNumber_positive {value : Seconds} (h : value.Positive) (name : String) :
    positiveNumber value name = .ok ⟨value, h⟩ := by
  rw [positiveNumber, dif_pos h]

theorem boundedInt_int {n minimum : Nat} {maximum : Option Nat} (name : String)
    (h : minimum ≤ n ∧ ∀ limit ∈ maximum, n ≤ limit) : boundedInt (.int n) name minimum maximum = .ok ⟨n, h⟩ := by
  unfold boundedInt
  dsimp only [Int.toNat_natCast]
  rw [dif_pos ⟨h.1, Int.natCast_nonneg n⟩, dif_pos h.2]

theorem modeOf_str {mode : String} (h : mode ∈ conditionalModes) : modeOf (.str mode) = .ok ⟨mode, h⟩ := by
  rw [modeOf, dif_pos h]

theorem labelOf_getD {label : Option String} {admits : List Char → Bool} (message : String)
    (h : ∀ text, label = some text → admits text.toList = true) :
    labelOf ((label.map .str).getD .null) admits message = .ok ⟨label, h⟩ := by
  cases label with
  | none => rfl
  | some text =>
    show labelOf (.str text) admits message = _
    rw [labelOf, dif_pos (h text rfl)]

theorem keyOf_bytes {key : Bytes} (h : 16 ≤ key.length) (fresh : Bytes) : keyOf fresh (.bytes key) = .ok ⟨key, h⟩ := by
  rw [keyOf, dif_pos h]

/-! ## The whole binding -/

section Bind

variable {α β : Type} {outcome : Except Err α} {next : α → Except Err β}

theorem of_bind_ok {result : β} (h : (outcome >>= next) = .ok result) :
    ∃ value, outcome = .ok value ∧ next value = .ok result := by
  cases outcome with
  | error error => cases h
  | ok value => exact ⟨value, rfl, h⟩

theorem of_bind_error {error : Err} (h : (outcome >>= next) = .error error) :
    outcome = .error error ∨ ∃ value, outcome = .ok value ∧ next value = .error error := by
  cases outcome with
  | error other => exact .inl (congrArg Except.error (Except.error.inj h))
  | ok value => exact .inr ⟨value, rfl, h⟩

/-- What the caller of the factory is not told. -/
def Concealed (outcome : Except Err α) : Prop := ∀ error, outcome = .error error → error.isTypeOrValue = true

theorem Concealed.bind (h : Concealed outcome) (hnext : ∀ value, outcome = .ok value → Concealed (next value)) :
    Concealed (outcome >>= next) := by
  intro error herror
  cases outcome with
  | error other =>
    obtain rfl := Except.error.inj herror
    exact h _ rfl
  | ok value => exact hnext value rfl error herror

end Bind

theorem bind_eq {α β : Type} {outcome : Except Err α} {value : α} {next : α → Except Err β} {result : Except Err β}
    (h : outcome = .ok value) (hnext : next value = result) : (outcome >>= next) = result := by
  rw [h]
  exact hnext

/-- A binding is constructed of its own fields, with another CA bundle or flag as well. -/
theorem postInit_arguments (config : BoundConfig rules)
    (hresource : rules.parseResource (.reference config.binding.resourceRef) = .ok config.binding.resourceRef)
    (fresh : Bytes) (verifyTls : TlsVerification) :
    { config.arguments with verifyTls := verifyTls.argument }.postInit rules fresh = .ok { config with verifyTls } := by
  obtain ⟨⟨resource, address, allowHttp, _, _, _, _, _, _, _, _, _, _, _, _, _, hchunk, hobject, hrange, hmanifest, hmetadata,
    hpage, hscan, hparts, hkey⟩, endpoint, repository, credentials, _, timeout, mode, retention, htext, hrepository,
    htimeout, hmode, hrelease, himage⟩ := config
  dsimp only at endpoint htext hrelease himage hresource
  subst htext
  refine bind_eq hresource (bind_eq (endpointOf_endpoint endpoint) (bind_eq (repositoryOf_str hrepository) ?_))
  refine bind_eq (verifyTlsOf_argument verifyTls) (bind_eq (positiveNumber_positive htimeout _) ?_)
  refine bind_eq (boundedInt_int _ ⟨hchunk.1, by rintro _ ⟨⟩; exact hchunk.2⟩) ?_
  refine bind_eq (boundedInt_int _ ⟨hobject, by rintro _ ⟨⟩⟩) (bind_eq (boundedInt_int _ ⟨hrange, by rintro _ ⟨⟩⟩) ?_)
  refine bind_eq (boundedInt_int _ ⟨hmanifest, by rintro _ ⟨⟩⟩) (bind_eq (boundedInt_int _ ⟨hmetadata, by rintro _ ⟨⟩⟩) ?_)
  refine bind_eq (boundedInt_int _ ⟨hpage.1, by rintro _ ⟨⟩; exact hpage.2⟩) ?_
  refine bind_eq (boundedInt_int _ ⟨hscan, by rintro _ ⟨⟩⟩) ?_
  refine bind_eq (boundedInt_int _ ⟨hparts.1, by rintro _ ⟨⟩; exact hparts.2⟩) (bind_eq (modeOf_str hmode) ?_)
  refine bind_eq rfl (bind_eq rfl (bind_eq rfl (bind_eq rfl ?_)))
  refine bind_eq (labelOf_getD _ hrelease) (bind_eq (labelOf_getD _ himage) ?_)
  exact bind_eq (keyOf_bytes hkey fresh) rfl

/-! ## What a binding keeps -/

theorem eq_of_repositoryOf {value : Json} {name} (h : repositoryOf value = .ok name) : value = .str name := by
  unfold repositoryOf at h
  split at h
  · split at h
    · rw [← Except.ok.inj h]
    · cases h
  · cases h

theorem eq_of_verifyTlsOf {value : Json} {verifyTls : TlsVerification} (h : verifyTlsOf value = .ok verifyTls) :
    value = verifyTls.argument := by
  unfold verifyTlsOf at h
  split at h
  · rw [← Except.ok.inj h]
    rfl
  · split at h
    · rw [← Except.ok.inj h]
      rfl
    · cases h
  · cases h

theorem eq_of_positiveNumber {value : Seconds} {name : String} {checked} (h : positiveNumber value name = .ok checked) :
    value = checked := by
  unfold positiveNumber at h
  split at h
  · rw [← Except.ok.inj h]
  · cases h

theorem eq_of_boundedInt {value : Json} {name : String} {minimum : Nat} {maximum : Option Nat} {n}
    (h : boundedInt value name minimum maximum = .ok n) : value = .int (n : Nat) := by
  unfold boundedInt at h
  dsimp only at h
  split at h
  · split at h
    · rename_i hminimum
      split at h
      · rw [← Except.ok.inj h]
        exact congrArg Json.int (Int.toNat_of_nonneg hminimum.2).symm
      · cases h
    · cases h
  · cases h

theorem eq_of_modeOf {value : Json} {mode} (h : modeOf value = .ok mode) : value = .str mode := by
  unfold modeOf at h
  split at h
  · split at h
    · rw [← Except.ok.inj h]
    · cases h
  all_goals cases h

theorem eq_of_booleanOf {value : Json} {name : String} {flag : Bool} (h : booleanOf value name = .ok flag) :
    value = .bool flag := by
  unfold booleanOf at h
  split at h
  · rw [← Except.ok.inj h]
  · cases h

theorem eq_of_flagOf {value : Flag} {name : String} {flag : Bool} (h : flagOf value name = .ok flag) :
    value = .bool value.truth := by
  cases value with
  | bool value => rfl
  | other truth => cases h

theorem eq_of_labelOf {value : Json} {admits : List Char → Bool} {message : String} {label}
    (h : labelOf value admits message = .ok label) : value = ((label : Option String).map .str).getD .null := by
  unfold labelOf at h
  split at h
  · rw [← Except.ok.inj h]
    rfl
  · split at h
    · rw [← Except.ok.inj h]
      rfl
    · cases h
  · cases h

/-- A binding keeps what it is constructed with, but for what it normalises. -/
theorem arguments_of_postInit {arguments : BindingArguments} {fresh : Bytes} {config : BoundConfig rules}
    (h : arguments.postInit rules fresh = .ok config) :
    rules.parseResource arguments.resource = .ok config.binding.resourceRef ∧
    endpointOf rules arguments.endpoint config.binding.allowInsecureHttp = .ok config.endpoint ∧
    config.arguments = { arguments with
      resource := .reference config.binding.resourceRef
      endpoint := .str config.binding.endpoint
      cursorSigningKey := .bytes config.binding.cursorSigningKey } := by
  obtain ⟨resource, endpoint, repository, credentials, verifyTls, allowHttp, timeout, chunk, object, range, manifest,
    metadata, page, scan, parts, mode, deletion, retention, referrers, key, release, image⟩ := arguments
  unfold BindingArguments.postInit at h
  obtain ⟨resource', hresource, h⟩ := of_bind_ok h
  obtain ⟨endpoint', hendpoint, h⟩ := of_bind_ok h
  obtain ⟨repository', hrepository, h⟩ := of_bind_ok h
  obtain rfl := eq_of_repositoryOf hrepository
  cases credentials with
  | none => cases h
  | some credentials =>
    obtain ⟨verifyTls', hverify, h⟩ := of_bind_ok h
    obtain rfl := eq_of_verifyTlsOf hverify
    obtain ⟨timeout', htimeout, h⟩ := of_bind_ok h
    obtain rfl := eq_of_positiveNumber htimeout
    obtain ⟨chunk', hchunk, h⟩ := of_bind_ok h
    obtain rfl := eq_of_boundedInt hchunk
    obtain ⟨object', hobject, h⟩ := of_bind_ok h
    obtain rfl := eq_of_boundedInt hobject
    obtain ⟨range', hrange, h⟩ := of_bind_ok h
    obtain rfl := eq_of_boundedInt hrange
    obtain ⟨manifest', hmanifest, h⟩ := of_bind_ok h
    obtain rfl := eq_of_boundedInt hmanifest
    obtain ⟨metadata', hmetadata, h⟩ := of_bind_ok h
    obtain rfl := eq_of_boundedInt hmetadata
    obtain ⟨page', hpage, h⟩ := of_bind_ok h
    obtain rfl := eq_of_boundedInt hpage
    obtain ⟨scan', hscan, h⟩ := of_bind_ok h
    obtain rfl := eq_of_boundedInt hscan
    obtain ⟨parts', hparts, h⟩ := of_bind_ok h
    obtain rfl := eq_of_boundedInt hparts
    obtain ⟨mode', hmode, h⟩ := of_bind_ok h
    obtain rfl := eq_of_modeOf hmode
    obtain ⟨flag, hflag, h⟩ := of_bind_ok h
    have hallow := eq_of_flagOf hflag
    obtain ⟨deletion', hdeletion, h⟩ := of_bind_ok h
    obtain rfl := eq_of_booleanOf hdeletion
    obtain ⟨retention', hretention, h⟩ := of_bind_ok h
    obtain rfl := eq_of_booleanOf hretention
    obtain ⟨referrers', hreferrers, h⟩ := of_bind_ok h
    obtain rfl := eq_of_booleanOf hreferrers
    obtain ⟨release', hrelease, h⟩ := of_bind_ok h
    obtain rfl := eq_of_labelOf hrelease
    obtain ⟨image', himage, h⟩ := of_bind_ok h
    obtain rfl := eq_of_labelOf himage
    obtain ⟨key', hkey, h⟩ := of_bind_ok h
    obtain rfl := Except.ok.inj h
    refine ⟨hresource, hendpoint, ?_⟩
    dsimp only at hallow ⊢
    unfold BoundConfig.arguments
    dsimp only
    rw [← hallow]

/-- Parsing a resource that was parsed changes nothing. -/
def Reparses (rules : ConfigRules) : Prop :=
  ∀ argument resource, rules.parseResource argument = .ok resource → rules.parseResource (.reference resource) = .ok resource

/-- A binding keeps what it is constructed with but for the resource, the endpoint and the key, which it
normalises; and whatever it is called with, it can be constructed of its own fields again. With another
CA bundle that gives a binding that differs in nothing else. -/
theorem construction_settles (hreparses : Reparses rules) {arguments : BindingArguments} {fresh : Bytes}
    {config : BoundConfig rules} (h : arguments.postInit rules fresh = .ok config) :
    config.arguments = { arguments with
      resource := .reference config.binding.resourceRef
      endpoint := .str config.binding.endpoint
      cursorSigningKey := .bytes config.binding.cursorSigningKey } ∧
    (∀ fresh', config.arguments.postInit rules fresh' = .ok config) ∧
    ∀ fresh' path, (hpath : path ≠ "") →
      config.replaceVerifyTls fresh' (.str path) = .ok { config with verifyTls := .bundle path hpath } := by
  obtain ⟨hresource, -, hkept⟩ := arguments_of_postInit h
  have hagain := postInit_arguments config (hreparses _ _ hresource)
  exact ⟨hkept, fun fresh' => hagain fresh' config.verifyTls, fun fresh' path hpath => hagain fresh' (.bundle path hpath)⟩

namespace Sample

/-- Resources are written as `object:namespace.name`. -/
def parseResource : ResourceArgument → Except Err ResourceRef
  | .reference reference =>
    if reference.catalog = "object" then .ok reference else .error { kind := .valueError }
  | .json (.str text) =>
    let (catalog, rest) := Url.splitFirst ':' text.toList
    let (space, name) := Url.splitFirst '.' rest
    if catalog = "object".toList then .ok ⟨"object", String.ofList space, String.ofList name⟩
    else .error { kind := .valueError }
  | .json _ => .error { kind := .typeError }

def configRules : ConfigRules := ⟨⟨fun _ => true, fun text => text.map Char.toLower⟩, parseResource⟩

theorem reparses_configRules : Reparses configRules := by
  intro argument resource h
  cases argument with
  | reference reference =>
    simp only [configRules, parseResource] at h ⊢
    split at h
    · rename_i hcatalog
      obtain rfl := Except.ok.inj h
      rw [if_pos hcatalog]
    · cases h
  | json value =>
    cases value with
    | str text =>
      simp only [configRules, parseResource] at h ⊢
      split at h
      · obtain rfl := Except.ok.inj h
        rfl
      · cases h
    | _ => cases h

def drawnKey : Bytes := List.replicate 32 7

def plainArguments : BindingArguments where
  resource := .json (.str "object:a.b")
  endpoint := .str "https://r.io/"
  repository := .str "a"

theorem exists_plain : ∃ config, plainArguments.postInit configRules drawnKey = .ok config := by
  have hsome : (plainArguments.postInit configRules drawnKey).toOption.isSome = true := by decide
  cases hpost : plainArguments.postInit configRules drawnKey with
  | ok config => exact ⟨config, rfl⟩
  | error error =>
    rw [hpost] at hsome
    cases hsome

theorem construction_settles_plain : ∃ config, plainArguments.postInit configRules drawnKey = .ok config ∧
    config.arguments.postInit configRules [] = .ok config ∧
    config.replaceVerifyTls [] (.str "/ca.pem") = .ok { config with verifyTls := .bundle "/ca.pem" (by decide) } := by
  obtain ⟨config, h⟩ := exists_plain
  obtain ⟨-, hagain, hreplaced⟩ := construction_settles reparses_configRules h
  exact ⟨config, h, hagain [], hreplaced [] "/ca.pem" (by decide)⟩

end Sample

/-! ## What construction raises -/

section Concealed

variable {allowHttp : Bool}

theorem concealed_endpointOf (value : Json) : Concealed (endpointOf rules value allowHttp) := by
  intro error herror
  unfold endpointOf at herror
  repeat' split at herror
  all_goals cases herror
  all_goals rfl

theorem concealed_boundedInt (value : Json) (name : String) (minimum : Nat) (maximum : Option Nat) :
    Concealed (boundedInt value name minimum maximum) := by
  intro error herror
  unfold boundedInt at herror
  dsimp only at herror
  repeat' split at herror
  all_goals cases herror
  all_goals rfl

theorem concealed_labelOf (value : Json) (admits : List Char → Bool) (message : String) :
    Concealed (labelOf value admits message) := by
  intro error herror
  unfold labelOf at herror
  repeat' split at herror
  all_goals cases herror
  all_goals rfl

theorem concealed_booleanOf (value : Json) (name : String) : Concealed (booleanOf value name) := by
  intro error herror
  unfold booleanOf at herror
  split at herror
  all_goals cases herror
  all_goals rfl

/-- Apart from the parser of resources, construction raises nothing but `TypeError` and `ValueError`. -/
theorem concealed_postInit (hparse : ∀ argument, Concealed (rules.parseResource argument)) (arguments : BindingArguments)
    (fresh : Bytes) : Concealed (arguments.postInit rules fresh) := by
  have hrepository : Concealed (repositoryOf arguments.repository) := by
    intro error herror
    unfold repositoryOf at herror
    repeat' split at herror
    all_goals cases herror
    all_goals rfl
  have hverify : Concealed (verifyTlsOf arguments.verifyTls) := by
    intro error herror
    unfold verifyTlsOf at herror
    repeat' split at herror
    all_goals cases herror
    all_goals rfl
  have htimeout : Concealed (positiveNumber arguments.timeoutSeconds "timeout_seconds") := by
    intro error herror
    unfold positiveNumber at herror
    split at herror
    all_goals cases herror
    rfl
  have hmode : Concealed (modeOf arguments.conditionalCreateMode) := by
    intro error herror
    unfold modeOf at herror
    repeat' split at herror
    all_goals cases herror
    all_goals rfl
  have hflag : Concealed (flagOf arguments.allowInsecureHttp "allow_insecure_http") := by
    intro error herror
    unfold flagOf at herror
    split at herror
    all_goals cases herror
    rfl
  have hkey : Concealed (keyOf fresh arguments.cursorSigningKey) := by
    intro error herror
    unfold keyOf at herror
    dsimp only at herror
    repeat' split at herror
    all_goals cases herror
    all_goals rfl
  unfold BindingArguments.postInit
  refine (hparse _).bind fun _ _ => (concealed_endpointOf _).bind fun _ _ => hrepository.bind fun _ _ => ?_
  cases arguments.credentials with
  | none =>
    rintro _ ⟨⟩
    rfl
  | some credentials =>
    refine hverify.bind fun _ _ => htimeout.bind fun _ _ => ?_
    refine (concealed_boundedInt _ _ _ _).bind fun _ _ => (concealed_boundedInt _ _ _ _).bind fun _ _ => ?_
    refine (concealed_boundedInt _ _ _ _).bind fun _ _ => (concealed_boundedInt _ _ _ _).bind fun _ _ => ?_
    refine (concealed_boundedInt _ _ _ _).bind fun _ _ => (concealed_boundedInt _ _ _ _).bind fun _ _ => ?_
    refine (concealed_boundedInt _ _ _ _).bind fun _ _ => (concealed_boundedInt _ _ _ _).bind fun _ _ => ?_
    refine hmode.bind fun _ _ => hflag.bind fun _ _ => (concealed_booleanOf _ _).bind fun _ _ => ?_
    refine (concealed_booleanOf _ _).bind fun _ _ => (concealed_booleanOf _ _).bind fun _ _ => ?_
    refine (concealed_labelOf _ _ _).bind fun _ _ => (concealed_labelOf _ _ _).bind fun _ _ => hkey.bind fun _ _ => ?_
    rintro _ ⟨⟩

end Concealed

end MeridianOci.Service
