import MeridianOci.Model.Factory
import MeridianOci.Service.Config

/-!
# Bindings that the factory makes

A deployment decides where an adapter sends its requests, how it proves who it is and whether it
uses TLS; its settings decide nothing of that, and its secrets end up in the credentials and
nowhere else. In particular no error tells them apart.
-/
namespace MeridianOci.Service

open MeridianOci.Data MeridianOci.Model

set_option autoImplicit false

/-! ## Settings -/

section Settings

variable {settings : JsonObject} {fields : List SettingField}

/-- What commutes with the settings may come before or after them. -/
theorem foldl_apply {change : BindingArguments → BindingArguments}
    (h : ∀ setting ∈ fields, ∀ value arguments, setting.set value (change arguments) = change (setting.set value arguments))
    (arguments : BindingArguments) : fields.foldl (SettingField.apply settings) (change arguments) =
      change (fields.foldl (SettingField.apply settings) arguments) := by
  induction fields generalizing arguments with
  | nil => rfl
  | cons setting rest ih =>
    have hone : SettingField.apply settings (change arguments) setting =
        change (SettingField.apply settings arguments setting) := by
      unfold SettingField.apply
      cases Json.get? settings setting.name with
      | none => rfl
      | some value => exact h setting List.mem_cons_self value arguments
    rw [List.foldl_cons, List.foldl_cons, hone]
    exact ih (fun other hother => h other (List.mem_cons_of_mem _ hother)) _

/-- Setting a field twice is setting it once, and fields do not disturb each other. -/
structure Independent (fields : List SettingField) : Prop where
  again : ∀ setting ∈ fields, ∀ value arguments, setting.set value (setting.set value arguments) = setting.set value arguments
  commute : fields.Pairwise fun first second => ∀ value other arguments,
    second.set other (first.set value arguments) = first.set value (second.set other arguments)

/-- A setting that was given is what the arguments have. -/
theorem set_foldl_apply (h : Independent fields) {setting : SettingField} (hsetting : setting ∈ fields) {value : Json}
    (hvalue : Json.get? settings setting.name = some value) (arguments : BindingArguments) :
    setting.set value (fields.foldl (SettingField.apply settings) arguments) =
      fields.foldl (SettingField.apply settings) arguments := by
  induction fields generalizing arguments with
  | nil => cases hsetting
  | cons first rest ih =>
    obtain ⟨hfirst, hrest⟩ := List.pairwise_cons.mp h.commute
    rw [List.foldl_cons]
    rcases List.mem_cons.mp hsetting with rfl | hmem
    · have hone : SettingField.apply settings arguments setting = setting.set value arguments := by
        rw [SettingField.apply, hvalue]
      have hcommute := @foldl_apply settings rest _ fun second hsecond other =>
        hfirst second hsecond value other
      rw [hone, hcommute, h.again setting List.mem_cons_self]
    · exact ih ⟨fun other hother => h.again other (List.mem_cons_of_mem _ hother), hrest⟩ hmem _

theorem independent_settingFields : Independent settingFields where
  again := by
    simp only [settingFields, List.forall_mem_cons, List.not_mem_nil, false_imp_iff, implies_true, and_true]
  commute := by
    simp only [settingFields, List.pairwise_cons, List.forall_mem_cons, List.not_mem_nil, false_imp_iff, implies_true,
      List.Pairwise.nil, and_true]

/-- What a setting leaves alone may be changed before or after the settings. -/
theorem arguments_change {binding : DeployedBinding} {endpoint : String} {credentials : Credentials}
    {change : BindingArguments → BindingArguments}
    (h : ∀ setting ∈ settingFields, ∀ value arguments, setting.set value (change arguments) = change (setting.set value arguments))
    (hdefaults : change (binding.defaults endpoint credentials) = binding.defaults endpoint credentials) :
    change (binding.arguments endpoint credentials) = binding.arguments endpoint credentials := by
  rw [DeployedBinding.arguments, ← foldl_apply h, hdefaults]

/-- No setting gives the endpoint, the repository, the credentials, what TLS is, the timeout or the key. -/
theorem arguments_fixed (binding : DeployedBinding) (endpoint : String) (credentials : Credentials) :
    { binding.arguments endpoint credentials with
      endpoint := .str endpoint
      repository := .str binding.physicalNamespace
      credentials := some credentials
      allowInsecureHttp := .bool (binding.tlsMode = "disabled")
      verifyTls := .bool (binding.tlsMode ≠ "disabled")
      timeoutSeconds := .float (binding.operationTimeoutMs / 1000)
      cursorSigningKey := .absent } = binding.arguments endpoint credentials := by
  refine @arguments_change binding endpoint credentials (fun arguments => { arguments with
    endpoint := .str endpoint
    repository := .str binding.physicalNamespace
    credentials := some credentials
    allowInsecureHttp := .bool (binding.tlsMode = "disabled")
    verifyTls := .bool (binding.tlsMode ≠ "disabled")
    timeoutSeconds := .float (binding.operationTimeoutMs / 1000)
    cursorSigningKey := .absent }) ?_ rfl
  simp only [settingFields, List.forall_mem_cons, List.not_mem_nil, false_imp_iff, implies_true, and_true]

/-- The settings are the same whatever the credentials are. -/
theorem arguments_credentials (binding : DeployedBinding) (endpoint : String) (first second : Credentials) :
    binding.arguments endpoint second = { binding.arguments endpoint first with credentials := some second } := by
  have hcommute : ∀ setting ∈ settingFields, ∀ value arguments,
      setting.set value { arguments with credentials := some second } =
        { setting.set value arguments with credentials := some second } := by
    simp only [settingFields, List.forall_mem_cons, List.not_mem_nil, false_imp_iff, implies_true, and_true]
  exact @foldl_apply _ _ (fun arguments => { arguments with credentials := some second }) hcommute
    (binding.defaults endpoint first)

end Settings

/-! ## Credentials -/

section Credentials

theorem singleLine_append {front : String} {back : List Char} (hfront : SingleLine front)
    (hback : back.any isLineBreak = false) : SingleLine (front ++ String.ofList back) := by
  obtain ⟨hne, hline⟩ := hfront
  refine ⟨fun hempty => hne ?_, ?_⟩
  · have hlist := congrArg String.toList hempty
    rw [String.toList_append] at hlist
    exact String.toList_injective (List.append_eq_nil_iff.mp hlist).1
  · rw [String.toList_append, String.toList_ofList, List.any_append, hline, hback]
    rfl

theorem standard_line (bytes : Bytes) : (Base64.standard bytes).any isLineBreak = false := by
  have hsymbol : ∀ n, n < 64 → isLineBreak (Base64.toStandard (Base64.symbol n)) = false := by decide
  rw [List.any_eq_false]
  intro c hc
  obtain ⟨d, hd, rfl⟩ := List.mem_map.mp hc
  rcases List.mem_append.mp hd with hd | hd
  · obtain ⟨n, hn, rfl⟩ := Base64.mem_encode bytes d hd
    rw [hsymbol n hn]
    exact Bool.false_ne_true
  · rw [List.eq_of_mem_replicate hd]
    decide

/-- The name and the password in a header, for a server. -/
def readBasic (header : String) : Option (String × String) := do
  let token ← header.toList.dropPrefix? "Basic ".toList
  let text ← utf8Decode (← Base64.decode token)
  return (String.ofList (Url.splitFirst ':' text).1, String.ofList (Url.splitFirst ':' text).2)

theorem readBasic_header (username password : String) :
    readBasic ("Basic " ++ String.ofList (Base64.standard (utf8 (username ++ ":" ++ password).toList))) =
      some (String.ofList (Url.splitFirst ':' (username.toList ++ ':' :: password.toList)).1,
        String.ofList (Url.splitFirst ':' (username.toList ++ ':' :: password.toList)).2) := by
  have hprefix : ("Basic " ++ String.ofList (Base64.standard (utf8 (username ++ ":" ++ password).toList))).toList.dropPrefix?
      "Basic ".toList = some (Base64.standard (utf8 (username ++ ":" ++ password).toList)) :=
    List.dropPrefix?_eq_some_iff.mpr ⟨"Basic ".toList, by simp, by simp⟩
  have htext : (username ++ ":" ++ password).toList = username.toList ++ ':' :: password.toList := by simp
  rw [readBasic, hprefix]
  simp only [Option.bind_eq_bind, Option.bind_some, Base64.decode_standard, utf8Decode_utf8, htext]
  rfl

/-- A header with credentials is one line. A server reads the name and the password from it unless the name has a
colon, and the token of a bearer always. -/
theorem authorization_reads {credentials : Credentials} {resolved : Except Err Json} {value : String}
    (h : credentials.authorizationHeader resolved = .ok (some value)) :
    SingleLine value ∧
    (∀ basic, credentials = .basic basic →
      (readBasic value = some (basic.username, basic.password) ↔ ':' ∉ basic.username.toList)) ∧
    ∀ bearer, credentials = .bearer bearer → value.toList.dropPrefix? "Bearer ".toList = some bearer.token.toList := by
  cases credentials with
  | anonymous => cases h
  | basic basic =>
    obtain rfl := Option.some.inj (Except.ok.inj h)
    refine ⟨singleLine_append (by decide) (standard_line _), ?_, by rintro _ ⟨⟩⟩
    rintro _ ⟨⟩
    rw [readBasic_header]
    constructor
    · intro hread hcolon
      have hname := congrArg String.toList (Prod.mk.inj (Option.some.inj hread)).1
      rw [String.toList_ofList] at hname
      rw [← hname] at hcolon
      simpa using List.mem_takeWhile_imp hcolon
    · intro hcolon
      rw [Url.splitFirst_append hcolon, String.ofList_toList, String.ofList_toList]
  | bearer bearer =>
    obtain rfl := Option.some.inj (Except.ok.inj h)
    refine ⟨?_, by rintro _ ⟨⟩, ?_⟩
    · have hline := @singleLine_append "Bearer " _ (by decide) bearer.token_line.2
      rwa [String.ofList_toList] at hline
    · rintro _ ⟨⟩
      rw [String.toList_append]
      exact List.dropPrefix?_eq_some_iff.mpr ⟨"Bearer ".toList, by simp, rfl⟩
  | callback =>
    refine ⟨?_, (by rintro _ ⟨⟩), by rintro _ ⟨⟩⟩
    cases resolved with
    | error error => cases h
    | ok found =>
      have hfound : callbackHeader found = .ok (some value) := h
      unfold callbackHeader at hfound
      split at hfound
      · cases hfound
      · split at hfound
        · rename_i hline
          rw [← Option.some.inj (Except.ok.inj hfound)]
          exact hline
        · cases hfound
      · cases hfound

end Credentials

namespace Sample

def userCredentials : BasicCredentials := ⟨"user", "first", by decide, by decide⟩

theorem authorization_reads_user : readBasic "Basic dXNlcjpmaXJzdA==" = some ("user", "first") := by
  have hheader : (Credentials.basic userCredentials).authorizationHeader (.ok .null) = .ok (some "Basic dXNlcjpmaXJzdA==") := by
    decide +kernel
  exact ((authorization_reads hheader).2.1 userCredentials rfl).mpr (by decide)

end Sample

/-! ## Secrets -/

section Secrets

variable {rules : ConfigRules}

/-- Construction looks at the credentials for nothing but to keep them. -/
theorem postInit_credentials (arguments : BindingArguments) (first second : Credentials) (fresh : Bytes) :
    { arguments with credentials := some second }.postInit rules fresh =
      ({ arguments with credentials := some first }.postInit rules fresh).map fun config : BoundConfig rules =>
        { config with credentials := second } := by
  show _ = (fun config : BoundConfig rules => { config with credentials := second }) <$> _
  unfold BindingArguments.postInit
  simp only [map_bind, map_pure]

theorem concealed_decodeSecret (secret : Bytes) : Concealed (decodeSecret secret) := by
  intro error herror
  unfold decodeSecret at herror
  split at herror
  all_goals cases herror
  rfl

/-- What the credentials are made of raises nothing but `TypeError` and `ValueError`. -/
theorem concealed_credentials (context : AdapterCreateContext) : Concealed context.credentials := by
  have hbasic : ∀ username password, Concealed (BasicCredentials.new username password) := by
    intro username password error herror
    unfold BasicCredentials.new at herror
    repeat' split at herror
    all_goals cases herror
    all_goals rfl
  have hbearer : ∀ token, Concealed (BearerCredentials.new token) := by
    intro token error herror
    unfold BearerCredentials.new at herror
    split at herror
    all_goals cases herror
    rfl
  unfold AdapterCreateContext.credentials
  split
  · rintro _ ⟨⟩
  · refine (concealed_decodeSecret _).bind fun username _ => (concealed_decodeSecret _).bind fun password _ => ?_
    exact (hbasic username password).bind fun _ _ => by rintro _ ⟨⟩
  · refine (concealed_decodeSecret _).bind fun token _ => (hbearer token).bind fun _ _ => ?_
    rintro _ ⟨⟩
  · rintro _ ⟨⟩
    rfl

theorem concealing_error {α : Type} {outcome : Except Err α} {error : Err} (h : Concealed outcome)
    (herror : concealing outcome = .error error) : error = invalidConfiguration := by
  cases outcome with
  | ok value => cases herror
  | error other =>
    have hkind := h other rfl
    rw [concealing, hkind] at herror
    exact (Except.error.inj herror).symm

theorem concealing_ok {α : Type} {outcome : Except Err α} {value : α} (h : concealing outcome = .ok value) :
    outcome = .ok value := by
  cases outcome with
  | ok other => exact h
  | error error => cases h

/-- What the factory raises comes from its checks or says nothing. -/
theorem createConfig_error (hparse : ∀ argument, Concealed (rules.parseResource argument))
    {context : AdapterCreateContext} {fresh : Bytes} {error : Err}
    (h : createConfig rules fresh (some context) = .error error) :
    context.check rules = .error error ∨ ((∃ endpoint, context.check rules = .ok endpoint) ∧ error = invalidConfiguration) := by
  have hconcealed : ∀ endpoint, Concealed (do
      let credentials ← context.credentials
      (context.binding.arguments endpoint credentials).postInit rules fresh) := fun endpoint =>
    (concealed_credentials context).bind fun credentials _ => concealed_postInit hparse _ fresh
  unfold createConfig at h
  rcases of_bind_error h with hcheck | ⟨endpoint, hcheck, h⟩
  · exact .inl hcheck
  rcases of_bind_error h with hmade | ⟨made, -, h⟩
  · exact .inr ⟨⟨endpoint, hcheck⟩, concealing_error (hconcealed endpoint) hmade⟩
  · cases h

/-- A binding is made of a deployment that passes the checks and of its credentials. -/
theorem createConfig_ok {context : AdapterCreateContext} {fresh : Bytes} {config : BoundConfig rules} {ca : Option Bytes}
    (h : createConfig rules fresh (some context) = .ok (config, ca)) : ∃ endpoint credentials,
      context.check rules = .ok endpoint ∧ context.credentials = .ok credentials ∧
      (context.binding.arguments endpoint credentials).postInit rules fresh = .ok config ∧ ca = context.tlsCa := by
  unfold createConfig at h
  obtain ⟨endpoint, hcheck, h⟩ := of_bind_ok h
  obtain ⟨made, hmade, h⟩ := of_bind_ok h
  obtain ⟨credentials, hcredentials, hpost⟩ := of_bind_ok (concealing_ok hmade)
  obtain ⟨rfl, rfl⟩ := Prod.mk.inj (Except.ok.inj h)
  exact ⟨endpoint, credentials, hcheck, hcredentials, hpost, rfl⟩

/-- What is checked before a secret is looked at depends on the deployment, and on whether there is a CA. -/
theorem check_congr {first second : AdapterCreateContext} (hbinding : second.binding = first.binding)
    (hca : second.tlsCa.isSome = first.tlsCa.isSome) : second.check rules = first.check rules := by
  have hnone : second.tlsCa = none ↔ first.tlsCa = none := by
    rw [← Option.isNone_iff_eq_none, ← Option.isNone_iff_eq_none, ← Option.not_isSome, ← Option.not_isSome, hca]
  unfold AdapterCreateContext.check
  simp only [hbinding, hnone]

/-- An error of the checks is one of Object Common, unless the endpoint cannot be taken apart. -/
theorem kind_of_check {context : AdapterCreateContext} {error : Err} (h : context.check rules = .error error) :
    error.kind = .objectInvalidRequest ∨ error.kind = .objectCapabilityMismatch ∨
      (error = { kind := .valueError } ∧ ∃ endpoint, context.binding.endpoint = some endpoint ∧
        Url.urlsplit rules.url endpoint.toList = none) := by
  unfold AdapterCreateContext.check at h
  dsimp only at h
  split at h
  · cases h
    exact .inl rfl
  rename_i endpoint hendpoint
  split at h
  · cases h
    exact .inl rfl
  split at h
  · cases h
    exact .inr (.inl rfl)
  split at h
  · cases h
    exact .inr (.inl rfl)
  split at h
  · cases h
    exact .inr (.inl rfl)
  split at h
  · cases h
    exact .inl rfl
  split at h
  · rename_i hsplit
    cases h
    exact .inr (.inr ⟨rfl, endpoint, hendpoint, hsplit⟩)
  · repeat' split at h
    all_goals cases h
    all_goals exact .inl rfl

/-- Secrets end up in the credentials and nowhere else: of one deployment all failures are alike, and all bindings
but for their credentials; and where the secrets decide, the error says nothing. -/
theorem secrets_confined (hparse : ∀ argument, Concealed (rules.parseResource argument))
    {first second : AdapterCreateContext} (hbinding : second.binding = first.binding)
    (hca : second.tlsCa.isSome = first.tlsCa.isSome) (fresh : Bytes) :
    (∀ error other, createConfig rules fresh (some first) = .error error →
      createConfig rules fresh (some second) = .error other → other = error) ∧
    (∀ config config' ca ca', createConfig rules fresh (some first) = .ok (config, ca) →
      createConfig rules fresh (some second) = .ok (config', ca') →
        config' = { config with credentials := config'.credentials }) ∧
    (∀ error made, createConfig rules fresh (some first) = .error error →
      createConfig rules fresh (some second) = .ok made → error = invalidConfiguration) ∧
    ∀ error, createConfig rules fresh (some first) = .error error →
      error.kind = .objectInvalidRequest ∨ error.kind = .objectCapabilityMismatch ∨
        (error = { kind := .valueError } ∧ ∃ endpoint, first.binding.endpoint = some endpoint ∧
          Url.urlsplit rules.url endpoint.toList = none) := by
  have hcheck : second.check rules = first.check rules := check_congr hbinding hca
  refine ⟨?_, ?_, ?_, ?_⟩
  · intro error other herror hother
    rcases createConfig_error hparse herror with hfirst | ⟨⟨endpoint, hfirst⟩, rfl⟩
    · rcases createConfig_error hparse hother with hsecond | ⟨⟨endpoint, hsecond⟩, -⟩
      · rw [hcheck, hfirst] at hsecond
        exact (Except.error.inj hsecond).symm
      · rw [hcheck, hfirst] at hsecond
        cases hsecond
    · rcases createConfig_error hparse hother with hsecond | ⟨-, rfl⟩
      · rw [hcheck, hfirst] at hsecond
        cases hsecond
      · rfl
  · intro config config' ca ca' hconfig hconfig'
    obtain ⟨endpoint, credentials, hfirst, -, hpost, -⟩ := createConfig_ok hconfig
    obtain ⟨endpoint', credentials', hsecond, -, hpost', -⟩ := createConfig_ok hconfig'
    obtain rfl : endpoint' = endpoint := Except.ok.inj (hsecond.symm.trans (hcheck.trans hfirst))
    have hkept : { second.binding.arguments endpoint' credentials' with credentials := some credentials }.postInit rules
        fresh = .ok config := by
      rw [← arguments_credentials, hbinding]
      exact hpost
    have hchanged := @postInit_credentials rules (second.binding.arguments endpoint' credentials') credentials
      credentials' fresh
    rw [hkept, ← arguments_credentials, hpost'] at hchanged
    obtain rfl := Except.ok.inj hchanged
    rfl
  · rintro error ⟨config', ca'⟩ herror hmade
    obtain ⟨endpoint, -, hsecond, -⟩ := createConfig_ok hmade
    rcases createConfig_error hparse herror with hfirst | ⟨-, rfl⟩
    · rw [← hcheck, hsecond] at hfirst
      cases hfirst
    · rfl
  · intro error herror
    rcases createConfig_error hparse herror with hfirst | ⟨-, rfl⟩
    · exact kind_of_check hfirst
    · exact .inl rfl

end Secrets

/-! ## Deployments -/

section Deployments

variable {rules : ConfigRules}

/-- A deployment that passes the checks. -/
structure Eligible (rules : ConfigRules) (context : AdapterCreateContext) (endpoint : String) (parsed : Url.SplitResult) :
    Prop where
  resolved : context.binding.endpoint = some endpoint
  adapter : context.binding.adapterId = adapterId
  contract : context.binding.adapterContract = adapterContractVersion
  profile : context.binding.engineProfile = engineProfile
  version : context.binding.engineVersion = ociDistributionVersion
  supported : ∀ key ∈ Json.keys context.binding.settings, key ∈ settingFields.map (·.name) ∨ key = "authMode"
  resource : "resource" ∈ Json.keys context.binding.settings
  split : Url.urlsplit rules.url endpoint.toList = some parsed
  unilateral : context.binding.tlsMode ≠ "mutual"
  plain : context.binding.tlsMode = "disabled" → parsed.scheme = "http".toList
  encrypted : context.binding.tlsMode ≠ "disabled" → parsed.scheme = "https".toList
  ca : context.binding.tlsMode = "server" → context.tlsCa ≠ none

theorem check_ok_iff {context : AdapterCreateContext} {endpoint : String} :
    context.check rules = .ok endpoint ↔ ∃ parsed, Eligible rules context endpoint parsed := by
  constructor
  · intro h
    unfold AdapterCreateContext.check at h
    dsimp only at h
    split at h
    · cases h
    rename_i found hfound
    split at h
    · cases h
    rename_i hadapter
    split at h
    · cases h
    rename_i hcontract
    split at h
    · cases h
    rename_i hprofile
    split at h
    · cases h
    rename_i hversion
    split at h
    · cases h
    rename_i hsettings
    split at h
    · cases h
    rename_i parsed hparsed
    split at h
    · cases h
    rename_i hpolicy
    split at h
    · cases h
    rename_i hencrypted
    split at h
    · cases h
    rename_i hca
    obtain rfl := Except.ok.inj h
    rw [not_or] at hsettings hpolicy
    refine ⟨parsed, hfound, not_not.mp hadapter, not_not.mp hcontract, not_not.mp hprofile, not_not.mp hversion, ?_,
      not_not.mp hsettings.2, hparsed, hpolicy.1, ?_, ?_, fun hserver hnone => hca ⟨hserver, hnone⟩⟩
    · intro key hkey
      by_contra hunknown
      rw [not_or] at hunknown
      exact hsettings.1 (List.any_eq_true.mpr ⟨key, hkey, decide_eq_true hunknown⟩)
    · exact fun hmode => by_contra fun hscheme => hpolicy.2 ⟨hmode, hscheme⟩
    · exact fun hmode => by_contra fun hscheme => hencrypted ⟨hmode, hscheme⟩
  · rintro ⟨parsed, h⟩
    have hsettings : ¬((Json.keys context.binding.settings).any
        (fun key => key ∉ settingFields.map (·.name) ∧ key ≠ "authMode") = true ∨
          "resource" ∉ Json.keys context.binding.settings) := by
      rintro (hany | hresource)
      · obtain ⟨key, hkey, hunknown⟩ := List.any_eq_true.mp hany
        have hboth := of_decide_eq_true hunknown
        exact (h.supported key hkey).elim hboth.1 hboth.2
      · exact hresource h.resource
    unfold AdapterCreateContext.check
    dsimp only
    rw [h.resolved]
    dsimp only
    rw [if_neg (not_not.mpr h.adapter), if_neg (not_not.mpr h.contract), if_neg (not_not.mpr h.profile),
      if_neg (not_not.mpr h.version), if_neg hsettings, h.split]
    dsimp only
    rw [if_neg, if_neg (fun hboth => hboth.2 (h.encrypted hboth.1)), if_neg (fun hboth => h.ca hboth.1 hboth.2)]
    rintro (hmutual | ⟨hmode, hscheme⟩)
    · exact h.unilateral hmutual
    · exact hscheme (h.plain hmode)

/-- An endpoint is the scheme and the network location of its text. -/
theorem endpointOf_split {text : String} {allowHttp : Bool} {endpoint : Endpoint rules allowHttp} {parsed : Url.SplitResult}
    (h : endpointOf rules (.str text) allowHttp = .ok endpoint) (hsplit : Url.urlsplit rules.url text.toList = some parsed) :
    endpoint.scheme = parsed.scheme ∧ endpoint.netloc = parsed.netloc := by
  unfold endpointOf at h
  dsimp only at h
  split at h
  · cases h
  rename_i found hfound
  obtain rfl := Option.some.inj (hfound.symm.trans hsplit)
  repeat' split at h
  all_goals cases h
  exact ⟨rfl, rfl⟩

/-- A binding that is what a deployment says. -/
structure Realises (config : BoundConfig rules) (context : AdapterCreateContext) (endpoint : String)
    (parsed : Url.SplitResult) : Prop where
  eligible : Eligible rules context endpoint parsed
  scheme : config.endpoint.scheme = parsed.scheme
  netloc : config.endpoint.netloc = parsed.netloc
  repository : config.repository = context.binding.physicalNamespace
  credentials : context.credentials = .ok config.credentials
  allowHttp : config.binding.allowInsecureHttp = decide (context.binding.tlsMode = "disabled")
  verifyTls : config.verifyTls = .flag (decide (context.binding.tlsMode ≠ "disabled"))
  timeout : config.timeoutSeconds = .float (context.binding.operationTimeoutMs / 1000)
  resource : ∀ value, Json.get? context.binding.settings "resource" = some value →
    rules.parseResource (.json value) = .ok config.binding.resourceRef
  settings : ∀ setting ∈ settingFields, setting.name ≠ "resource" → ∀ value,
    Json.get? context.binding.settings setting.name = some value → setting.set value config.arguments = config.arguments

theorem realises_of_create {context : AdapterCreateContext} {fresh : Bytes} {config : BoundConfig rules}
    {ca : Option Bytes} (h : createConfig rules fresh (some context) = .ok (config, ca)) :
    ∃ endpoint parsed, Realises config context endpoint parsed := by
  obtain ⟨endpoint, credentials, hcheck, hcredentials, hpost, -⟩ := createConfig_ok h
  obtain ⟨parsed, heligible⟩ := check_ok_iff.mp hcheck
  obtain ⟨hresource, hendpoint, hkept⟩ := arguments_of_postInit hpost
  refine ⟨endpoint, parsed, ?_⟩
  have hfixed := arguments_fixed context.binding endpoint credentials
  have hset : ∀ setting ∈ settingFields, ∀ value, Json.get? context.binding.settings setting.name = some value →
      setting.set value (context.binding.arguments endpoint credentials) = context.binding.arguments endpoint credentials :=
    fun setting hsetting value hvalue => set_foldl_apply independent_settingFields hsetting hvalue _
  rw [← hfixed] at hkept hendpoint
  obtain ⟨hscheme, hnetloc⟩ := endpointOf_split hendpoint heligible.split
  have hallow : Flag.bool config.binding.allowInsecureHttp = .bool (decide (context.binding.tlsMode = "disabled")) :=
    congrArg BindingArguments.allowInsecureHttp hkept
  have hverify : config.verifyTls.argument = .bool (decide (context.binding.tlsMode ≠ "disabled")) :=
    congrArg BindingArguments.verifyTls hkept
  have hrepository : Json.str config.repository = .str context.binding.physicalNamespace :=
    congrArg BindingArguments.repository hkept
  have hprovider : some config.credentials = some credentials := congrArg BindingArguments.credentials hkept
  refine ⟨heligible, hscheme, hnetloc, Json.str.inj hrepository, ?_, Flag.bool.inj hallow, ?_, ?_, ?_, ?_⟩
  · rw [hcredentials, Option.some.inj hprovider]
  · generalize config.verifyTls = verifyTls at hverify ⊢
    cases verifyTls with
    | flag value => rw [Json.bool.inj hverify]
    | bundle path hpath => cases hverify
  · exact congrArg BindingArguments.timeoutSeconds hkept
  · intro value hvalue
    have hgiven := congrArg BindingArguments.resource (hset _ List.mem_cons_self value hvalue)
    rw [← hresource]
    exact congrArg rules.parseResource hgiven
  · intro setting hsetting hname value hvalue
    have hcommute : ∀ setting ∈ settingFields, setting.name ≠ "resource" → ∀ (value : Json) (arguments : BindingArguments),
        setting.set value { arguments with
          resource := .reference config.binding.resourceRef
          endpoint := .str config.binding.endpoint
          cursorSigningKey := .bytes config.binding.cursorSigningKey } =
        { setting.set value arguments with
          resource := .reference config.binding.resourceRef
          endpoint := .str config.binding.endpoint
          cursorSigningKey := .bytes config.binding.cursorSigningKey } := by
      simp only [settingFields, List.forall_mem_cons, List.not_mem_nil, false_imp_iff, implies_true, and_true, ne_eq,
        not_true_eq_false]
    rw [hfixed] at hkept
    rw [hkept, hcommute setting hsetting hname, hset setting hsetting value hvalue]

/-- What the factory accepts is what the binding says; and with a file of CA material a runtime works with a binding
that differs in nothing but the bundle it verifies with. -/
theorem create_realises (hreparses : Reparses rules) {context : AdapterCreateContext} {fresh : Bytes}
    {config : BoundConfig rules} {ca : Option Bytes} (h : createConfig rules fresh (some context) = .ok (config, ca)) :
    (∃ endpoint parsed, Realises config context endpoint parsed) ∧ ca = context.tlsCa ∧
      ∀ fresh' path, (hpath : path ≠ "") →
        config.opened fresh' (some path) = .ok { config with verifyTls := .bundle path hpath } := by
  obtain ⟨endpoint, credentials, -, -, hpost, hca⟩ := createConfig_ok h
  obtain ⟨-, -, hopened⟩ := construction_settles hreparses hpost
  exact ⟨realises_of_create h, hca, hopened⟩

/-- A binding that a runtime works with has the credentials of the one it was created with, and TLS is no weaker. -/
theorem opened_keeps {config opened : BoundConfig rules} {fresh : Bytes} {caPath : Option String}
    (h : config.opened fresh caPath = .ok opened) :
    opened.binding.allowInsecureHttp = config.binding.allowInsecureHttp ∧ opened.credentials = config.credentials ∧
      (opened.verifyTls = .flag false → config.verifyTls = .flag false) := by
  cases caPath with
  | none =>
    obtain rfl := Except.ok.inj h
    exact ⟨rfl, rfl, id⟩
  | some path =>
    obtain ⟨-, -, hkept⟩ := arguments_of_postInit h
    have hallow : Flag.bool opened.binding.allowInsecureHttp = .bool config.binding.allowInsecureHttp :=
      congrArg BindingArguments.allowInsecureHttp hkept
    have hprovider : some opened.credentials = some config.credentials := congrArg BindingArguments.credentials hkept
    have hverify : opened.verifyTls.argument = .str path := congrArg BindingArguments.verifyTls hkept
    refine ⟨Flag.bool.inj hallow, Option.some.inj hprovider, fun hflag => ?_⟩
    rw [hflag] at hverify
    cases hverify

end Deployments

namespace Sample

def deployedBinding : DeployedBinding where
  adapterId := adapterId
  adapterContract := adapterContractVersion
  engineProfile := engineProfile
  engineVersion := ociDistributionVersion
  endpoint := some "https://r.io/"
  physicalNamespace := "a"
  tlsMode := "server"
  operationTimeoutMs := 2500
  settings := [("resource", .str "object:tenant.bucket"), ("deletionEnabled", .bool true)]

def deployment (secret : String) : AdapterCreateContext :=
  ⟨deployedBinding, utf8 "user".toList, utf8 secret.toList, some [1]⟩

theorem exists_created : ∃ config ca, createConfig configRules drawnKey (some (deployment "first")) = .ok (config, ca) := by
  have hsome : (createConfig configRules drawnKey (some (deployment "first"))).toOption.isSome = true := by
    decide +kernel
  cases hcreate : createConfig configRules drawnKey (some (deployment "first")) with
  | ok made => exact ⟨made.1, made.2, rfl⟩
  | error error =>
    rw [hcreate] at hsome
    cases hsome

theorem create_realises_first : ∃ config ca,
    createConfig configRules drawnKey (some (deployment "first")) = .ok (config, ca) ∧
      (∃ endpoint parsed, Realises config (deployment "first") endpoint parsed) ∧ ca = some [1] := by
  obtain ⟨config, ca, h⟩ := exists_created
  obtain ⟨hrealises, hca, -⟩ := create_realises reparses_configRules h
  exact ⟨config, ca, h, hrealises, hca⟩

theorem concealed_configRules (argument : ResourceArgument) : Concealed (configRules.parseResource argument) := by
  intro error herror
  cases argument with
  | reference reference =>
    simp only [configRules, parseResource] at herror
    split at herror
    all_goals cases herror
    rfl
  | json value =>
    cases value with
    | str text =>
      simp only [configRules, parseResource] at herror
      split at herror
      all_goals cases herror
      rfl
    | _ =>
      cases herror
      rfl

/-- With an empty password the factory says what it says of any other that it refuses. -/
theorem secrets_confined_empty :
    createConfig configRules drawnKey (some (deployment "")) = .error invalidConfiguration := by
  obtain ⟨config, ca, h⟩ := exists_created
  have hconfined := @secrets_confined configRules concealed_configRules (deployment "") (deployment "first") rfl rfl drawnKey
  have hnone : (createConfig configRules drawnKey (some (deployment ""))).toOption.isSome = false := by decide +kernel
  cases hcreate : createConfig configRules drawnKey (some (deployment "")) with
  | ok made =>
    rw [hcreate] at hnone
    cases hnone
  | error error => rw [hconfined.2.2.1 error (config, ca) hcreate h]

end Sample

end MeridianOci.Service
