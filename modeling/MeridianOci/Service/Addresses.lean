import MeridianOci.Model.Urls
import MeridianOci.Service.Config
import MeridianOci.Service.Redirects

/-!
# Where requests go

The URLs that the client writes are those of its endpoint, whatever digest, reference or tag they
are for: a name cannot leave its place in the path. Whoever reads the path finds the resource that
was meant.
-/
namespace MeridianOci.Service

open MeridianOci.Data MeridianOci.Model

set_option autoImplicit false

/-! ## Reading a path -/

/-- A percent-encoded name. -/
def readName (text : List Char) : Option String :=
  if text.contains '/' then none else (utf8Decode (Url.unquote text)).map String.ofList

/-- The resource that a path names, for a server that keeps one repository. -/
def readRoute (repository path : List Char) : Option Route :=
  if path = "/v2/".toList then some .base
  else
    match path.dropPrefix? ("/v2/".toList ++ repository ++ ['/']) with
    | none => none
    | some rest =>
      let (kind, name) := Url.splitFirst '/' rest
      if kind = "blobs".toList then
        if name = "uploads/".toList then some .uploads else (readName name).map .blob
      else if kind = "manifests".toList then (readName name).map .manifest
      else if kind = "tags".toList ∧ name = "list".toList then some .tags
      else if kind = "referrers".toList then (readName name).map .referrers
      else none

theorem notMem_quote {c : Char} {safe text : List Char} (hreserved : Url.isUnreserved c = false) (hsafe : c ∉ safe)
    (hpercent : c ≠ '%') : c ∉ Url.quote safe text := by
  intro hmem
  rcases Url.mem_quote hmem with h | h | h
  · rw [hreserved] at h
    cases h
  · exact hsafe h
  · exact hpercent h

theorem readName_quote {safe : List Char} (hslash : '/' ∉ safe) (hpercent : '%' ∉ safe) (name : String) :
    readName (Url.quote safe name.toList) = some name := by
  have hnot : (Url.quote safe name.toList).contains '/' = false := by
    rw [Bool.eq_false_iff]
    intro hmem
    exact notMem_quote (by decide) hslash (by decide) (List.contains_iff_mem.mp hmem)
  rw [readName, hnot, Url.unquote_quote hpercent, utf8Decode_utf8]
  simp

/-! ## Names of repositories -/

section Grammar

variable {α : Type}

/-- The characters of an expression. -/
def letters : RegularExpression α → List α
  | .zero => []
  | .epsilon => []
  | .char a => [a]
  | .plus P Q => letters P ++ letters Q
  | .comp P Q => letters P ++ letters Q
  | .star P => letters P

/-- What an expression matches is made of its characters. -/
theorem mem_letters {P : RegularExpression α} {text : List α} (h : text ∈ P.matches') : ∀ c ∈ text, c ∈ letters P := by
  induction P generalizing text with
  | zero => cases h
  | epsilon =>
    obtain rfl : text = [] := h
    exact fun c hc => hc
  | char a =>
    obtain rfl : text = [a] := h
    exact fun c hc => hc
  | plus P Q ihP ihQ =>
    intro c hc
    rcases h with h | h
    · exact List.mem_append_left _ (ihP h c hc)
    · exact List.mem_append_right _ (ihQ h c hc)
  | comp P Q ihP ihQ =>
    intro c hc
    obtain ⟨front, hfront, back, hback, rfl⟩ := Language.mem_mul.mp h
    rcases List.mem_append.mp hc with hc | hc
    · exact List.mem_append_left _ (ihP hfront c hc)
    · exact List.mem_append_right _ (ihQ hback c hc)
  | star P ih =>
    intro c hc
    obtain ⟨parts, rfl, hparts⟩ := Language.mem_kstar.mp h
    obtain ⟨part, hpart, hc⟩ := List.mem_flatten.mp hc
    exact ih (hparts part hpart) c hc

/-- A component of a name. -/
def IsComponent (component : List Char) : Prop :=
  (∃ first more, component = first :: more ∧ first.isAlphanum = true) ∧ '/' ∉ component

theorem mem_alphanumeric {text : List Char} (h : text ∈ alphanumeric.matches') :
    ∃ c, text = [c] ∧ c.isAlphanum = true := by
  have hany : ∀ cs : List Char, text ∈ ((cs.map RegularExpression.char).foldr (· + ·) 0).matches' →
      ∃ c ∈ cs, text = [c] := by
    intro cs
    induction cs with
    | nil => intro hmem; cases hmem
    | cons c rest ih =>
      intro hmem
      rcases hmem with hmem | hmem
      · exact ⟨c, List.mem_cons_self, hmem⟩
      · obtain ⟨d, hd, htext⟩ := ih hmem
        exact ⟨d, List.mem_cons_of_mem _ hd, htext⟩
  obtain ⟨c, hc, htext⟩ := hany _ h
  have hall : "abcdefghijklmnopqrstuvwxyz0123456789".toList.all Char.isAlphanum = true := by decide
  exact ⟨c, htext, List.all_eq_true.mp hall c hc⟩

theorem isComponent_of_mem {text : List Char} (h : text ∈ componentGrammar.matches') : IsComponent text := by
  refine ⟨?_, fun hslash => absurd (mem_letters h '/' hslash) (by decide)⟩
  obtain ⟨front, hfront, back, -, rfl⟩ := Language.mem_mul.mp h
  obtain ⟨head, hhead, more, -, rfl⟩ := Language.mem_mul.mp hfront
  obtain ⟨c, rfl, hc⟩ := mem_alphanumeric hhead
  exact ⟨c, _, rfl, hc⟩

/-- A name is its components. -/
theorem exists_components {name : List Char} (h : repositoryGrammar.rmatch name = true) :
    ∃ components : List (List Char), (∀ component ∈ components, IsComponent component) ∧
      ∀ rest, Url.segments (name ++ '/' :: rest) = components ++ Url.segments rest := by
  rw [RegularExpression.rmatch_iff_matches'] at h
  obtain ⟨first, hfirst, back, hback, rfl⟩ := Language.mem_mul.mp h
  obtain ⟨parts, rfl, hparts⟩ := Language.mem_kstar.mp hback
  clear h hback
  induction parts generalizing first with
  | nil =>
    refine ⟨[first], ?_, fun rest => ?_⟩
    · intro component hmem
      rw [List.mem_singleton.mp hmem]
      exact isComponent_of_mem hfirst
    · rw [List.flatten_nil, List.append_nil, Url.segments_append (isComponent_of_mem hfirst).2]
      rfl
  | cons part parts ih =>
    obtain ⟨slash, hslash, component, hcomponent, rfl⟩ := Language.mem_mul.mp (hparts part List.mem_cons_self)
    obtain rfl : slash = ['/'] := hslash
    obtain ⟨components, hall, hsegments⟩ := ih component hcomponent fun other hother =>
      hparts other (List.mem_cons_of_mem _ hother)
    refine ⟨first :: components, ?_, fun rest => ?_⟩
    · intro other hmem
      rcases List.mem_cons.mp hmem with rfl | hmem
      · exact isComponent_of_mem hfirst
      · exact hall other hmem
    · have hsplit : first ++ ((['/'] ++ component) :: parts).flatten ++ '/' :: rest =
          first ++ '/' :: (component ++ parts.flatten ++ '/' :: rest) := by simp
      rw [hsplit, Url.segments_append (isComponent_of_mem hfirst).2, hsegments]
      rfl

/-- Nothing of a name is encoded. -/
theorem quote_repository {name : List Char} (h : repositoryGrammar.rmatch name = true) :
    Url.quote ['/'] name = name := by
  rw [RegularExpression.rmatch_iff_matches'] at h
  refine Url.quote_eq_self fun c hc => ?_
  have hall : (letters repositoryGrammar).all (fun c => Url.isUnreserved c || c = '/') = true := by
    decide +kernel
  have hplain := List.all_eq_true.mp hall c (mem_letters h c hc)
  simp only [Bool.or_eq_true, decide_eq_true_eq] at hplain
  refine hplain.imp_right ?_
  rintro rfl
  decide

end Grammar

/-! ## The paths of a client -/

section Paths

variable {rules : ConfigRules} (config : BoundConfig rules)

/-- The path of a resource is read as that resource. -/
theorem readRoute_routePath (route : Route) : readRoute config.repositoryPath (config.routePath route) = some route := by
  have hread : ∀ kind name : List Char, '/' ∉ kind → readRoute config.repositoryPath
      ("/v2/".toList ++ config.repositoryPath ++ ('/' :: (kind ++ '/' :: name))) =
        if kind = "blobs".toList then
          if name = "uploads/".toList then some .uploads else (readName name).map .blob
        else if kind = "manifests".toList then (readName name).map .manifest
        else if kind = "tags".toList ∧ name = "list".toList then some .tags
        else if kind = "referrers".toList then (readName name).map .referrers
        else none := by
    intro kind name hkind
    have hbase : "/v2/".toList ++ config.repositoryPath ++ ('/' :: (kind ++ '/' :: name)) ≠ "/v2/".toList := by
      intro heq
      have hlength := congrArg List.length heq
      simp only [List.length_append, List.length_cons] at hlength
      omega
    have hprefix : ("/v2/".toList ++ config.repositoryPath ++ ('/' :: (kind ++ '/' :: name))).dropPrefix?
        ("/v2/".toList ++ config.repositoryPath ++ ['/']) = some (kind ++ '/' :: name) := by
      rw [List.dropPrefix?_eq_some_iff]
      exact ⟨"/v2/".toList ++ config.repositoryPath ++ ['/'], by simp, by simp⟩
    rw [readRoute, if_neg hbase, hprefix]
    dsimp only
    rw [Url.splitFirst_append hkind]
  have hname : ∀ digest : String, Url.quote [':'] digest.toList ≠ "uploads/".toList := by
    intro digest heq
    have hmem : '/' ∈ Url.quote [':'] digest.toList := by
      rw [heq]
      decide
    exact notMem_quote (by decide) (by decide) (by decide) hmem
  cases route with
  | base => rw [BoundConfig.routePath, readRoute, if_pos rfl]
  | uploads => exact hread "blobs".toList "uploads/".toList (by decide)
  | blob digest =>
    refine (hread "blobs".toList (Url.quote [':'] digest.toList) (by decide)).trans ?_
    rw [if_pos rfl, if_neg (hname digest), readName_quote (by decide) (by decide)]
    rfl
  | manifest reference =>
    refine (hread "manifests".toList (Url.quote [':', '.', '_', '-'] reference.toList) (by decide)).trans ?_
    rw [if_neg (by decide), if_pos rfl, readName_quote (by decide) (by decide)]
    rfl
  | tags => exact hread "tags".toList "list".toList (by decide)
  | referrers subjectDigest =>
    refine (hread "referrers".toList (Url.quote [':'] subjectDigest.toList) (by decide)).trans ?_
    rw [if_neg (by decide), if_neg (by decide), if_neg (fun htags => absurd htags.1 (by decide)), if_pos rfl,
      readName_quote (by decide) (by decide)]
    rfl

/-- The name that a resource has in the repository. -/
def Route.name : Route → Option String
  | .blob digest => some digest
  | .manifest reference => some reference
  | .referrers subjectDigest => some subjectDigest
  | _ => none

/-- A segment that a client or a server may take for a step in the hierarchy. -/
def IsDots (segment : List Char) : Prop := segment = ['.'] ∨ segment = ['.', '.']

theorem IsComponent.not_dots {component : List Char} (h : IsComponent component) : ¬IsDots component := by
  obtain ⟨⟨first, more, rfl, hfirst⟩, -⟩ := h
  rintro (heq | heq)
  · obtain ⟨rfl, -⟩ := List.cons.inj heq
    cases hfirst
  · obtain ⟨rfl, -⟩ := List.cons.inj heq
    cases hfirst

theorem dots_of_quote {safe text : List Char} (hpercent : '%' ∉ safe) (h : IsDots (Url.quote safe text)) :
    IsDots text := by
  have hdots : ∀ dots : List Char, dots = ['.'] ∨ dots = ['.', '.'] → Url.quote safe dots = dots := by
    rintro dots (rfl | rfl)
    all_goals
      refine Url.quote_eq_self fun c hc => .inl ?_
      simp only [List.mem_cons, List.not_mem_nil, or_false, or_self] at hc
      rw [hc]
      rfl
  rcases h with h | h
  · exact .inl (Url.quote_injective hpercent (h.trans (hdots _ (.inl rfl)).symm))
  · exact .inr (Url.quote_injective hpercent (h.trans (hdots _ (.inr rfl)).symm))

/-- What a resource adds to the segments of a path. -/
def Route.ending : Route → List (List Char)
  | .base => [[]]
  | .uploads => ["blobs".toList, "uploads".toList, []]
  | .blob digest => ["blobs".toList, Url.quote [':'] digest.toList]
  | .manifest reference => ["manifests".toList, Url.quote [':', '.', '_', '-'] reference.toList]
  | .tags => ["tags".toList, "list".toList]
  | .referrers subjectDigest => ["referrers".toList, Url.quote [':'] subjectDigest.toList]

/-- A path is the components of the repository and what the resource adds. -/
theorem segments_routePath (route : Route) : ∃ components : List (List Char),
    (∀ component ∈ components, IsComponent component) ∧
      Url.segments (config.routePath route) = [] :: "v2".toList :: (components ++ Route.ending route) := by
  obtain ⟨components, hcomponents, hsegments⟩ := exists_components config.repository_name
  have hpath : ∀ kind name : List Char, '/' ∉ kind →
      Url.segments ("/v2/".toList ++ config.repositoryPath ++ '/' :: (kind ++ '/' :: name)) =
        [] :: "v2".toList :: (components ++ kind :: Url.segments name) := by
    intro kind name hkind
    rw [BoundConfig.repositoryPath, quote_repository config.repository_name, List.append_assoc,
      ← Url.segments_append hkind, ← hsegments]
    exact (@Url.segments_append [] (by simp) _).trans
      (congrArg _ (@Url.segments_append "v2".toList (by decide) _))
  have hname : ∀ {safe : List Char} (name : String), '/' ∉ safe →
      Url.segments (Url.quote safe name.toList) = [Url.quote safe name.toList] := fun name hslash =>
    Url.segments_eq_singleton (notMem_quote (by decide) hslash (by decide))
  cases route with
  | base => exact ⟨[], by simp, rfl⟩
  | uploads => exact ⟨components, hcomponents, hpath "blobs".toList "uploads/".toList (by decide)⟩
  | blob digest =>
    refine ⟨components, hcomponents, (hpath "blobs".toList (Url.quote [':'] digest.toList) (by decide)).trans ?_⟩
    rw [hname digest (by decide)]
    rfl
  | manifest reference =>
    refine ⟨components, hcomponents,
      (hpath "manifests".toList (Url.quote [':', '.', '_', '-'] reference.toList) (by decide)).trans ?_⟩
    rw [hname reference (by decide)]
    rfl
  | tags => exact ⟨components, hcomponents, hpath "tags".toList "list".toList (by decide)⟩
  | referrers subjectDigest =>
    refine ⟨components, hcomponents,
      (hpath "referrers".toList (Url.quote [':'] subjectDigest.toList) (by decide)).trans ?_⟩
    rw [hname subjectDigest (by decide)]
    rfl

/-- No segment of a path is a dot segment, unless the name of the resource is. -/
theorem dots_of_segments {route : Route} {segment : List Char} (h : segment ∈ Url.segments (config.routePath route))
    (hdots : IsDots segment) : ∃ name, Route.name route = some name ∧ IsDots name.toList := by
  obtain ⟨components, hcomponents, hsegments⟩ := segments_routePath config route
  have hfixed : ∀ part ∈ [[], "v2".toList, "blobs".toList, "uploads".toList, "manifests".toList, "tags".toList,
      "list".toList, "referrers".toList], part ≠ ['.'] ∧ part ≠ ['.', '.'] := by decide
  have hplain : ∀ part ∈ [[], "v2".toList, "blobs".toList, "uploads".toList, "manifests".toList, "tags".toList,
      "list".toList, "referrers".toList], segment ≠ part := by
    rintro part hpart rfl
    exact hdots.elim (hfixed _ hpart).1 (hfixed _ hpart).2
  simp only [List.mem_cons, List.not_mem_nil, or_false, forall_eq_or_imp, forall_eq] at hplain
  rw [hsegments] at h
  simp only [List.mem_cons, List.mem_append, hplain, false_or] at h
  have hending := h.resolve_left fun hmem => (hcomponents _ hmem).not_dots hdots
  cases route with
  | base | uploads | tags =>
    simp only [Route.ending, List.mem_cons, List.not_mem_nil, or_self, hplain] at hending
  | blob name | manifest name | referrers name =>
    simp only [Route.ending, List.mem_cons, List.not_mem_nil, or_false, hplain, false_or] at hending
    rw [hending] at hdots
    exact ⟨name, rfl, dots_of_quote (by decide) hdots⟩

/-- A character that stays in the path of a URL. -/
def IsPlain (c : Char) : Prop := c ≠ '?' ∧ c ≠ '#' ∧ Url.isUnsafe c = false

instance : DecidablePred IsPlain := fun c => inferInstanceAs (Decidable (c ≠ '?' ∧ c ≠ '#' ∧ Url.isUnsafe c = false))

theorem isPlain_of_mem {c : Char} {text : List Char} (hall : text.all (decide <| IsPlain ·) = true) (h : c ∈ text) :
    IsPlain c :=
  of_decide_eq_true (List.all_eq_true.mp hall c h)

theorem isPlain_of_mem_quote {c : Char} {safe text : List Char} (hsafe : safe.all (decide <| IsPlain ·) = true)
    (h : c ∈ Url.quote safe text) : IsPlain c := by
  rcases Url.mem_quote h with hc | hc | rfl
  · have hreserved : ∀ d : Char, Url.isUnreserved d = false → c ≠ d := by
      rintro d hd rfl
      rw [hd] at hc
      cases hc
    refine ⟨hreserved '?' (by decide), hreserved '#' (by decide), ?_⟩
    simp [Url.isUnsafe, hreserved '\t' (by decide), hreserved '\r' (by decide), hreserved '\n' (by decide)]
  · exact isPlain_of_mem hsafe hc
  · decide

/-- A path has no character that ends it. -/
theorem isPlain_of_mem_routePath {route : Route} {c : Char} (h : c ∈ config.routePath route) : IsPlain c := by
  have hbase : c ∈ "/v2/".toList → IsPlain c := isPlain_of_mem (by decide)
  have hsuffix : c ∈ route.suffix → IsPlain c := by
    intro hmem
    cases route with
    | base => cases hmem
    | uploads =>
      have hfixed : c ∈ "/blobs/uploads/".toList → IsPlain c := isPlain_of_mem (by decide)
      exact hfixed hmem
    | tags =>
      have hfixed : c ∈ "/tags/list".toList → IsPlain c := isPlain_of_mem (by decide)
      exact hfixed hmem
    | blob digest =>
      have hfixed : c ∈ "/blobs/".toList → IsPlain c := isPlain_of_mem (by decide)
      exact (List.mem_append.mp hmem).elim hfixed (isPlain_of_mem_quote (by decide))
    | manifest reference =>
      have hfixed : c ∈ "/manifests/".toList → IsPlain c := isPlain_of_mem (by decide)
      exact (List.mem_append.mp hmem).elim hfixed (isPlain_of_mem_quote (by decide))
    | referrers subjectDigest =>
      have hfixed : c ∈ "/referrers/".toList → IsPlain c := isPlain_of_mem (by decide)
      exact (List.mem_append.mp hmem).elim hfixed (isPlain_of_mem_quote (by decide))
  have hgeneral : c ∈ "/v2/".toList ++ config.repositoryPath ++ route.suffix → IsPlain c := by
    intro hmem
    rcases List.mem_append.mp hmem with hmem | hmem
    · exact (List.mem_append.mp hmem).elim hbase (isPlain_of_mem_quote (by decide))
    · exact hsuffix hmem
  cases route with
  | base => exact hbase h
  | _ => exact hgeneral h

/-- The URL of a resource is taken apart into the endpoint and the path. -/
theorem urlsplit_routeUrl (route : Route) : Url.urlsplit rules.url (config.routeUrl route) =
    some ⟨config.endpoint.scheme, config.endpoint.netloc, config.routePath route, [], []⟩ := by
  have hhead : (config.routePath route).head? = some '/' := by
    cases route <;> rfl
  have hslash : ∀ c ∈ (config.routePath route).head?, Url.isDelimiter c = true := by
    rw [hhead]
    rintro _ ⟨⟩
    rfl
  have hsplit := urlsplit_endpoint config.endpoint hslash fun c hc => (isPlain_of_mem_routePath config hc).2.2
  rw [Url.splitFirst_of_notMem fun hmem => (isPlain_of_mem_routePath config hmem).2.1 rfl,
    Url.splitFirst_of_notMem fun hmem => (isPlain_of_mem_routePath config hmem).1 rfl] at hsplit
  rw [BoundConfig.routeUrl, BoundConfig.url, config.endpoint_text]
  exact hsplit

/-- Every URL that the client writes leads to the endpoint, and its path is read as the resource that it was
written for, whatever the digest, the reference or the subject. Its segments are plain unless that name is not. -/
theorem routes_read (route : Route) :
    (∃ parsed, Url.urlsplit rules.url (config.routeUrl route) = some parsed ∧
      parsed.scheme = config.endpoint.scheme ∧ parsed.netloc = config.endpoint.netloc ∧ parsed.query = [] ∧
      parsed.fragment = [] ∧ readRoute config.repository.toList parsed.path = some route ∧
      ∀ segment ∈ Url.segments parsed.path, IsDots segment → ∃ name, Route.name route = some name ∧ IsDots name.toList) ∧
    ∀ other, config.routeUrl other = config.routeUrl route → other = route := by
  have hread : ∀ route, readRoute config.repository.toList (config.routePath route) = some route := by
    intro route
    have hroute := readRoute_routePath config route
    rw [BoundConfig.repositoryPath, quote_repository config.repository_name] at hroute
    exact hroute
  refine ⟨⟨_, urlsplit_routeUrl config route, rfl, rfl, rfl, rfl, hread route, fun segment => dots_of_segments config⟩, ?_⟩
  intro other heq
  have hpath : config.routePath other = config.routePath route := List.append_cancel_left heq
  exact Option.some.inj ((hread other).symm.trans (hpath ▸ hread route))

end Paths

/-! ## The origin of a binding -/

section Origin

variable {P : Platform} {rules : ConfigRules} {withParams : String → List (String × String) → String}

/-- URLs are taken apart as `urllib` does it, and whatever `httpx` adds to a URL is not in its origin. -/
structure Routed (P : Platform) (rules : ConfigRules) (withParams : String → List (String × String) → String) : Prop where
  urlsplit : ∀ url, P.urlsplit url = (Url.urlsplit rules.url url.toList).map (splitUrlOf rules.url)
  params : ∀ url params, origin P (withParams url params) = origin P url
  merged : ∀ url digest result, P.mergeDigest url digest = some result → origin P result = origin P url

variable (routed : Routed P rules withParams) (config : BoundConfig rules)

include routed

/-- What is read of the endpoint itself. -/
theorem splitUrl_endpoint : splitUrl P config.binding.endpoint =
    .ok (splitUrlOf rules.url ⟨config.endpoint.scheme, config.endpoint.netloc, [], [], []⟩) := by
  have hsplit := @urlsplit_endpoint rules config.binding.allowInsecureHttp config.endpoint [] (by simp) (by simp)
  rw [List.append_nil, ← config.endpoint_text] at hsplit
  rw [splitUrl, routed.urlsplit, hsplit]
  rfl

theorem origin_routeUrl (route : Route) :
    origin P (String.ofList (config.routeUrl route)) = origin P config.binding.endpoint := by
  have hroute : splitUrl P (String.ofList (config.routeUrl route)) =
      .ok (splitUrlOf rules.url ⟨config.endpoint.scheme, config.endpoint.netloc, config.routePath route, [], []⟩) := by
    rw [splitUrl, routed.urlsplit, String.toList_ofList, urlsplit_routeUrl]
    rfl
  rw [origin, origin, hroute, splitUrl_endpoint routed config]
  rfl

/-- The endpoint has an origin, and it is one of a scheme that is allowed. -/
theorem origin_endpoint : ∃ scheme host port, origin P config.binding.endpoint = .ok (scheme, host, port) ∧
    (scheme = "https" ∨ (scheme = "http" ∧ config.binding.allowInsecureHttp = true)) := by
  obtain ⟨port, hport⟩ := Option.isSome_iff_exists.mp config.endpoint.port
  have hread : ∃ host port, origin P config.binding.endpoint = .ok (String.ofList config.endpoint.scheme, host, port) := by
    rw [origin, splitUrl_endpoint routed config]
    simp only [bind, Except.bind, splitUrlOf, hport]
    exact ⟨_, _, rfl⟩
  obtain ⟨host, port, horigin⟩ := hread
  refine ⟨_, host, port, horigin, ?_⟩
  rcases config.endpoint.scheme_allowed with hhttps | ⟨hhttp, hallow⟩
  · rw [hhttps]
    exact .inl rfl
  · rw [hhttp]
    exact .inr ⟨rfl, hallow⟩

omit routed in
/-- The addressing of a binding that was constructed. -/
def addressingOf (routed : Routed P rules withParams) : Addressing P config.binding where
  repositoryUrl
    | .upload _ _ => config.binding.endpoint
    | target => config.targetUrl P withParams target
  endpoint := origin_endpoint routed config
  repository target := by
    have hroute := origin_routeUrl routed config
    cases target with
    | base => exact hroute .base
    | uploads => exact hroute .uploads
    | upload url digest => rfl
    | blob digest => exact hroute (.blob digest)
    | manifest reference => exact hroute (.manifest reference)
    | tags limit last => exact (routed.params _ _).trans (hroute .tags)
    | referrers subjectDigest artifactType => exact (routed.params _ _).trans (hroute (.referrers subjectDigest))
  merged := routed.merged

/-- Its requests go where the binding sends them. -/
theorem addressing_url (target : Target) : (addressingOf config routed).url target = config.targetUrl P withParams target := by
  cases target with
  | upload url digest => cases digest <;> rfl
  | _ => rfl

end Origin

end MeridianOci.Service
