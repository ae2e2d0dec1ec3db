import MeridianOci.Service.Methods
import MeridianOci.Service.Sample

/-!
# What may leave the client

A registry may answer a request with any status, headers and body. A method of the client
then returns or raises an Object error, unless something in the answer makes one of
Python's readers raise: a redirect that `httpx` cannot parse, a URL that cannot be split, a
number beyond the digits that `int` takes, a body nested beyond the recursion limit. Which
parts of which answer are read this way is told for every method.
-/
namespace MeridianOci.Service

open MeridianOci.Data MeridianOci.Effect MeridianOci.Model

set_option autoImplicit false

variable {P : Platform}

/-! ## Errors -/

/-- An exception that is no Object Common error. -/
def Err.Raw (error : Err) : Prop :=
  error.kind = .valueError ∨ error.kind = .typeError ∨ error.kind = .httpError ∨ error.kind = .other

instance (error : Err) : Decidable (Err.Raw error) := by
  unfold Err.Raw
  infer_instance

/-- An exception that is neither an Object Common error nor an `httpx.HTTPError`. -/
def Err.Foreign (error : Err) : Prop := error.kind ≠ .httpError ∧ Err.Raw error

/-- A call raises what it must not raise, or returns what is spoilt. -/
def Escapes {α : Type} (spoilt : α → Prop) : Except Err α → Prop
  | .ok value => spoilt value
  | .error error => Err.Raw error

/-- `json` raises more than its decoding errors on the body. -/
def Overlong (P : Platform) (body : Bytes) : Prop := P.jsonLimit body ≠ none

/-- What `json` raises beyond its limits is a `ValueError` or a `RecursionError`. -/
def Platform.LimitsRaw (P : Platform) : Prop := ∀ body error, P.jsonLimit body = some error → Err.Raw error

theorem not_raw_statusError (status : Nat) (code : String) : ¬Err.Raw (statusError status code) := by
  unfold statusError
  dsimp only
  repeat' split
  all_goals
    rintro (h | h | h | h)
    all_goals cases h

theorem raw_responseError (hlimits : Platform.LimitsRaw P) (response : BoundedResponse) :
    Err.Raw (responseError P response) ↔ Overlong P response.content := by
  unfold responseError providerCode loadJson Overlong
  cases hlimit : P.jsonLimit response.content with
  | none =>
    simp only [ne_eq, not_true_eq_false, iff_false]
    exact not_raw_statusError _ _
  | some error =>
    simp only [ne_eq, reduceCtorEq, not_false_eq_true, iff_true]
    exact hlimits _ _ hlimit

/-! ## URLs -/

/-- The URL can be split, and its port can be read where plain HTTP may be allowed. -/
def Readable (P : Platform) (binding : OciDistributionBinding) (url : String) : Prop :=
  (∃ parsed, splitUrl P url = .ok parsed) ∧ ∃ allowed, allowedHttp P binding url = .ok allowed

theorem raw_splitUrl {url : String} {error : Err} (h : splitUrl P url = .error error) : Err.Raw error := by
  unfold splitUrl at h
  split at h
  · rw [← Except.error.inj h]
    exact .inl rfl
  · cases h

theorem raw_origin {url : String} {error : Err} (h : origin P url = .error error) : Err.Raw error := by
  unfold origin at h
  cases hsplit : splitUrl P url with
  | error other =>
    rw [hsplit] at h
    obtain rfl := Except.error.inj h
    exact raw_splitUrl hsplit
  | ok parsed =>
    rw [hsplit] at h
    simp only [bind, Except.bind] at h
    split at h
    · rw [← Except.error.inj h]
      exact .inl rfl
    · cases h

theorem raw_allowedHttp {binding : OciDistributionBinding} {url : String} {error : Err}
    (h : allowedHttp P binding url = .error error) : Err.Raw error := by
  unfold allowedHttp at h
  split at h
  · cases hurl : origin P url with
    | error other =>
      rw [hurl] at h
      obtain rfl := Except.error.inj h
      exact raw_origin hurl
    | ok found =>
      rw [hurl] at h
      simp only [bind, Except.bind] at h
      cases hendpoint : origin P binding.endpoint with
      | error other =>
        rw [hendpoint] at h
        obtain rfl := Except.error.inj h
        exact raw_origin hendpoint
      | ok other =>
        rw [hendpoint] at h
        cases h
  · cases h

theorem readable_of_require {binding : OciDistributionBinding} {url : String}
    (h : requireSafeResponseUrl P binding url = .ok ()) : Readable P binding url := by
  unfold requireSafeResponseUrl at h
  cases hsplit : splitUrl P url with
  | error error =>
    rw [hsplit] at h
    cases h
  | ok parsed =>
    rw [hsplit] at h
    simp only [bind, Except.bind] at h
    cases hallowed : allowedHttp P binding url with
    | error error =>
      rw [hallowed] at h
      cases h
    | ok allowed => exact ⟨⟨parsed, hsplit⟩, allowed, hallowed⟩

theorem raw_require {binding : OciDistributionBinding} {url : String} {error : Err}
    (h : requireSafeResponseUrl P binding url = .error error) : Err.Raw error ↔ ¬Readable P binding url := by
  unfold requireSafeResponseUrl at h
  cases hsplit : splitUrl P url with
  | error other =>
    rw [hsplit] at h
    obtain rfl := Except.error.inj h
    refine iff_of_true (raw_splitUrl hsplit) fun hreadable => ?_
    obtain ⟨⟨parsed, hparsed⟩, -⟩ := hreadable
    cases hsplit.symm.trans hparsed
  | ok parsed =>
    rw [hsplit] at h
    simp only [bind, Except.bind] at h
    cases hallowed : allowedHttp P binding url with
    | error other =>
      rw [hallowed] at h
      obtain rfl := Except.error.inj h
      refine iff_of_true (raw_allowedHttp hallowed) fun hreadable => ?_
      obtain ⟨-, allowed, hok⟩ := hreadable
      cases hallowed.symm.trans hok
    | ok allowed =>
      rw [hallowed] at h
      dsimp only at h
      split at h
      · rw [← Except.error.inj h]
        refine iff_of_false (by decide) fun hunreadable => hunreadable ⟨⟨parsed, hsplit⟩, allowed, hallowed⟩
      · cases h

theorem require_kind {binding : OciDistributionBinding} {url : String} {error : Err}
    (h : requireSafeResponseUrl P binding url = .error error) : Err.Raw error ∨ error.kind = .objectUnavailable := by
  by_cases hreadable : Readable P binding url
  · obtain ⟨⟨parsed, hparsed⟩, allowed, hallowed⟩ := hreadable
    unfold requireSafeResponseUrl at h
    simp only [hparsed, hallowed, bind, Except.bind] at h
    split at h
    · exact .inr (by rw [← Except.error.inj h]; rfl)
    · cases h
  · exact .inl ((raw_require h).mpr hreadable)

/-! ## What is read of a response -/

/-- A URL that an upload may have: HTTP with a host and without a user name. -/
def SplitUrl.Addresses (parsed : SplitUrl) : Prop :=
  (parsed.scheme = "http" ∨ parsed.scheme = "https") ∧ parsed.hostname.getD "" ≠ "" ∧ parsed.username.getD "" = ""

/-- The URL that a Location header resolves to, or `none` where `urljoin` raises. -/
def Resolves (P : Platform) (binding : OciDistributionBinding) (headers : Headers) (resolved : Option String) : Prop :=
  ∃ value, header headers "location" = some value ∧ value ≠ "" ∧ P.urljoin (binding.endpoint ++ "/") value = resolved

/-- The Location header cannot be joined or split, or the port of the plain HTTP URL cannot be read. -/
def Unresolvable (P : Platform) (binding : OciDistributionBinding) (headers : Headers) : Prop :=
  Resolves P binding headers none ∨ ∃ url, Resolves P binding headers (some url) ∧
    (P.urlsplit url = none ∨ ∃ parsed, P.urlsplit url = some parsed ∧ SplitUrl.Addresses parsed ∧
      parsed.scheme = "http" ∧ ∀ allowed, allowedHttp P binding url ≠ .ok allowed)

/-- The Location header names an upload. -/
def Located (P : Platform) (binding : OciDistributionBinding) (headers : Headers) (url : String) : Prop :=
  Resolves P binding headers (some url) ∧ ∃ parsed, P.urlsplit url = some parsed ∧ SplitUrl.Addresses parsed ∧
    (parsed.scheme = "http" → allowedHttp P binding url = .ok true)

/-- The Location header cannot be read, or no further request can be built for the upload it names. -/
def Misplaced (P : Platform) (binding : OciDistributionBinding) (ready : String → Prop) (headers : Headers) : Prop :=
  Unresolvable P binding headers ∨ ∃ url, Located P binding headers url ∧ ¬ready url

theorem Resolves.unique {binding : OciDistributionBinding} {headers : Headers} {resolved other : Option String}
    (h : Resolves P binding headers resolved) (h' : Resolves P binding headers other) : resolved = other := by
  obtain ⟨value, hvalue, -, hjoin⟩ := h
  obtain ⟨value', hvalue', -, hjoin'⟩ := h'
  obtain rfl := Option.some.inj (hvalue.symm.trans hvalue')
  exact hjoin.symm.trans hjoin'

/-- What the Location header says once it resolves to a URL that can be split. -/
theorem location_split {binding : OciDistributionBinding} {headers : Headers} {url : String} {parsed : SplitUrl}
    (hresolves : Resolves P binding headers (some url)) (hsplit : P.urlsplit url = some parsed) :
    (∀ other, Located P binding headers other ↔ other = url ∧ SplitUrl.Addresses parsed ∧
      (parsed.scheme = "http" → allowedHttp P binding url = .ok true)) ∧
    (Unresolvable P binding headers ↔ SplitUrl.Addresses parsed ∧ parsed.scheme = "http" ∧
      ∀ allowed, allowedHttp P binding url ≠ .ok allowed) := by
  constructor
  · intro other
    constructor
    · rintro ⟨hother, found, hfound, haddresses, hallowed⟩
      obtain rfl : url = other := Option.some.inj (hresolves.unique hother)
      obtain rfl := Option.some.inj (hsplit.symm.trans hfound)
      exact ⟨rfl, haddresses, hallowed⟩
    · rintro ⟨rfl, haddresses, hallowed⟩
      exact ⟨hresolves, parsed, hsplit, haddresses, hallowed⟩
  · constructor
    · rintro (hnone | ⟨other, hother, hnone | ⟨found, hfound, hrest⟩⟩)
      · cases hresolves.unique hnone
      · obtain rfl : url = other := Option.some.inj (hresolves.unique hother)
        cases hsplit.symm.trans hnone
      · obtain rfl : url = other := Option.some.inj (hresolves.unique hother)
        obtain rfl := Option.some.inj (hsplit.symm.trans hfound)
        exact hrest
    · exact fun hrest => .inr ⟨url, hresolves, .inr ⟨parsed, hsplit, hrest⟩⟩

/-- Reading the Location header raises exactly where it is unresolvable. -/
theorem location_closed (binding : OciDistributionBinding) (headers : Headers) :
    match location P binding headers with
    | .ok url => (∀ other, Located P binding headers other ↔ other = url) ∧ ¬Unresolvable P binding headers
    | .error error => (∀ url, ¬Located P binding headers url) ∧ (Err.Raw error ↔ Unresolvable P binding headers) := by
  have hmissing : (∀ resolved, ¬Resolves P binding headers resolved) → (∀ url, ¬Located P binding headers url) ∧
      (Err.Raw (.of .objectUnavailable "registry upload response omitted Location") ↔ Unresolvable P binding headers) := by
    intro hnone
    refine ⟨fun url hlocated => hnone _ hlocated.1, iff_of_false (by decide) ?_⟩
    rintro (hresolves | ⟨url, hresolves, -⟩)
    · exact hnone _ hresolves
    · exact hnone _ hresolves
  unfold location
  cases hheader : header headers "location" with
  | none =>
    refine hmissing ?_
    rintro resolved ⟨value, hvalue, -⟩
    cases hheader.symm.trans hvalue
  | some value =>
    dsimp only
    by_cases hempty : value = ""
    · rw [if_pos hempty]
      refine hmissing ?_
      rintro resolved ⟨other, hother, hne, -⟩
      obtain rfl := Option.some.inj (hheader.symm.trans hother)
      exact hne hempty
    rw [if_neg hempty]
    cases hjoin : P.urljoin (binding.endpoint ++ "/") value with
    | none =>
      have hresolves : Resolves P binding headers none := ⟨value, hheader, hempty, hjoin⟩
      refine ⟨fun url hlocated => ?_, iff_of_true (.inl rfl) (.inl hresolves)⟩
      cases hresolves.unique hlocated.1
    | some url =>
      have hresolves : Resolves P binding headers (some url) := ⟨value, hheader, hempty, hjoin⟩
      dsimp only
      unfold splitUrl
      cases hsplit : P.urlsplit url with
      | none =>
        refine ⟨fun other hlocated => ?_, iff_of_true (.inl rfl) (.inr ⟨url, hresolves, .inl hsplit⟩)⟩
        obtain ⟨hother, parsed, hparsed, -⟩ := hlocated
        obtain rfl : url = other := Option.some.inj (hresolves.unique hother)
        cases hsplit.symm.trans hparsed
      | some parsed =>
        obtain ⟨hlocated, hunresolvable⟩ := location_split hresolves hsplit
        simp only [bind, Except.bind, hlocated, hunresolvable]
        have haddresses : ((parsed.scheme ≠ "http" ∧ parsed.scheme ≠ "https") ∨ parsed.hostname.getD "" = "" ∨
            parsed.username.getD "" ≠ "") ↔ ¬SplitUrl.Addresses parsed := by
          simp only [SplitUrl.Addresses]
          tauto
        by_cases hvalid : SplitUrl.Addresses parsed
        · rw [if_neg (by rw [haddresses]; exact not_not.mpr hvalid)]
          by_cases hhttp : parsed.scheme = "http"
          · rw [if_pos hhttp]
            cases hallowed : allowedHttp P binding url with
            | error error => simp [raw_allowedHttp hallowed, hvalid, hhttp]
            | ok allowed =>
              cases allowed with
              | false =>
                simp [hhttp]
                decide
              | true => simp [hvalid]
          · rw [if_neg hhttp]
            simp [hvalid, hhttp]
        · rw [if_pos (haddresses.mpr hvalid)]
          simp [hvalid]
          decide

/-! ## Answers -/

/-- The answer to a request as nothing translates it: what the send raised is foreign (a redirect to a URL
that `httpx` refuses, say), the URL of the response cannot be read, its body breaks off with something
foreign or is, as an error body, beyond the limits of `json`, or what the method reads of it is malformed. -/
def Trouble (client : RegistryHttpClient) (expected : List Nat) (maximumBytes : Nat)
    (malformed : BoundedResponse → Prop) : Except Err Response → Prop
  | .error error => Err.Foreign error
  | .ok response => ¬Readable P client.binding response.url ∨
    (requireSafeResponseUrl P client.binding response.url = .ok () ∧
      ((∃ error, boundedResponse P response maximumBytes = .error error ∧ Err.Foreign error) ∨
        ∃ bounded, boundedResponse P response maximumBytes = .ok bounded ∧
          if bounded.status ∈ expected then malformed bounded else Overlong P bounded.content))

section Judge

variable {client : RegistryHttpClient} {expected : List Nat} {maximumBytes : Nat}

/-- A response that is safe to read is in trouble only through its body. -/
theorem trouble_iff {malformed : BoundedResponse → Prop} {response : Response}
    (hsafe : requireSafeResponseUrl P client.binding response.url = .ok ()) :
    Trouble (P := P) client expected maximumBytes malformed (.ok response) ↔
      (∃ error, boundedResponse P response maximumBytes = .error error ∧ Err.Foreign error) ∨
        ∃ bounded, boundedResponse P response maximumBytes = .ok bounded ∧
          if bounded.status ∈ expected then malformed bounded else Overlong P bounded.content := by
  constructor
  · rintro (hunreadable | ⟨-, hbody⟩)
    · exact absurd (readable_of_require hsafe) hunreadable
    · exact hbody
  · exact fun hbody => .inr ⟨hsafe, hbody⟩

/-- What becomes of an answer, and whether the loop raises what it must not. -/
theorem judge_closed (laws : P.Lawful) (hlimits : Platform.LimitsRaw P) (answer : Except Err Response)
    (left : Nat) (again : Action BoundedResponse) :
    (client.judge P expected maximumBytes left again answer = again ∧
      (left = 0 → ∀ malformed, ¬Trouble (P := P) client expected maximumBytes malformed answer)) ∨
    (∃ error, client.judge P expected maximumBytes left again answer = .raise error ∧
      ∀ malformed, Err.Raw error ↔ Trouble (P := P) client expected maximumBytes malformed answer) ∨
    ∃ bounded, client.judge P expected maximumBytes left again answer = .ret bounded ∧ bounded.status ∈ expected ∧
      ∀ malformed, malformed bounded ↔ Trouble (P := P) client expected maximumBytes malformed answer := by
  cases answer with
  | error error =>
    by_cases hkind : error.kind = .httpError
    · refine .inl ⟨?_, fun _ malformed hforeign => hforeign.1 hkind⟩
      simp only [RegistryHttpClient.judge, hkind, if_true]
    · refine .inr (.inl ⟨error, ?_, fun malformed => ⟨fun hraw => ⟨hkind, hraw⟩, And.right⟩⟩)
      simp only [RegistryHttpClient.judge, if_neg hkind]
  | ok response =>
    simp only [RegistryHttpClient.judge]
    cases hsafe : requireSafeResponseUrl P client.binding response.url with
    | error error =>
      refine .inr (.inl ⟨error, rfl, fun malformed => (raw_require hsafe).trans ⟨.inl, ?_⟩⟩)
      rintro (hunreadable | ⟨hother, -⟩)
      · exact hunreadable
      · cases hsafe.symm.trans hother
    | ok _ =>
      have htrouble := fun malformed => @trouble_iff P client expected maximumBytes malformed response hsafe
      simp only [htrouble]
      by_cases hretry : response.status ∈ retriableStatus ∧ 0 < left
      · refine .inl ⟨if_pos hretry, fun hleft => ?_⟩
        omega
      rw [if_neg hretry]
      cases hread : boundedResponse P response maximumBytes with
      | error error =>
        have hbroken : ∀ malformed : BoundedResponse → Prop,
            ((∃ other, (.error error : Except Err BoundedResponse) = .error other ∧ Err.Foreign other) ∨
              ∃ bounded, (.error error : Except Err BoundedResponse) = .ok bounded ∧
                if bounded.status ∈ expected then malformed bounded else Overlong P bounded.content) ↔
              Err.Foreign error := by
          simp
        simp only [hbroken]
        by_cases hover : error.kind = .objectUnavailable
        · have hraw : ¬Err.Raw error := by
            rintro (h | h | h | h)
            all_goals cases hover.symm.trans h
          by_cases hstatus : response.status ∈ expected
          · refine .inr (.inl ⟨error, by simp only [hover, hstatus, if_true], fun _ => ?_⟩)
            exact iff_of_false hraw fun hforeign => hraw hforeign.2
          · refine .inr (.inl ⟨_, by simp only [hover, hstatus, if_true, if_false]; rfl, fun _ => ?_⟩)
            refine iff_of_false (fun h => ?_) fun hforeign => hraw hforeign.2
            exact (raw_responseError hlimits _).mp h laws.jsonLimit_nil
        · by_cases hkind : error.kind = .httpError
          · exact .inl ⟨by simp only [hkind, reduceCtorEq, if_false, if_true], fun _ _ hforeign => hforeign.1 hkind⟩
          · refine .inr (.inl ⟨error, by simp only [hover, hkind, if_false], fun _ => ⟨fun hraw => ⟨hkind, hraw⟩, And.right⟩⟩)
      | ok bounded =>
        have hbody : ∀ malformed : BoundedResponse → Prop,
            ((∃ error, (.ok bounded : Except Err BoundedResponse) = .error error ∧ Err.Foreign error) ∨
              ∃ other, (.ok bounded : Except Err BoundedResponse) = .ok other ∧
                if other.status ∈ expected then malformed other else Overlong P other.content) ↔
              if bounded.status ∈ expected then malformed bounded else Overlong P bounded.content := by
          simp
        simp only [hbody]
        by_cases hstatus : bounded.status ∈ expected
        · exact .inr (.inr ⟨bounded, by simp only [hstatus, if_true], hstatus, fun malformed => by rw [if_pos hstatus]⟩)
        · refine .inr (.inl ⟨_, by simp only [hstatus, if_false]; rfl, fun malformed => ?_⟩)
          rw [raw_responseError hlimits, if_neg hstatus]

end Judge

/-! ## Requests -/

/-- A request and its answer. -/
structure Round where
  request : Request
  answer : Except Err Response

/-- Any answer may come. -/
def Round.env : Environment Op Op.Res Err (List Round)
  | .send request, rounds, answer, rounds' => rounds' = rounds ++ [⟨request, answer⟩]
  | _, rounds, _, rounds' => rounds' = rounds

/-- The last round of a request. -/
def Decisive (segment : List Round) (round : Round) : Prop :=
  ∃ front rest, segment = front ++ round :: rest ∧ ∀ later ∈ rest, later.request ≠ round.request

/-- The rounds of one request. -/
def Rounds (request : Request) (segment : List Round) (answer : Except Err Response) : Prop :=
  ∃ front, segment = front ++ [⟨request, answer⟩] ∧ ∀ round ∈ front, round.request = request

theorem Rounds.request {request : Request} {segment : List Round} {answer : Except Err Response}
    (h : Rounds request segment answer) : ∀ round ∈ segment, round.request = request := by
  obtain ⟨front, rfl, hfront⟩ := h
  intro round hmem
  rcases List.mem_append.mp hmem with hold | hnew
  · exact hfront round hold
  · rw [List.mem_singleton.mp hnew]

/-- The last answer to a single request decides. -/
theorem Rounds.decisive_iff {request : Request} {segment : List Round} {answer : Except Err Response}
    (h : Rounds request segment answer) (round : Round) : Decisive segment round ↔ round = ⟨request, answer⟩ := by
  have hrequest := h.request
  obtain ⟨front, rfl, -⟩ := h
  constructor
  · rintro ⟨before, rest, heq, hlater⟩
    rcases List.eq_nil_or_concat rest with rfl | ⟨init, last, rfl⟩
    · obtain ⟨-, hlast⟩ := List.append_inj' heq rfl
      exact (List.cons.inj hlast).1.symm
    · rw [List.concat_eq_append, ← List.cons_append, ← List.append_assoc] at heq
      obtain ⟨hfront, hlast⟩ := List.append_inj' heq rfl
      refine absurd ?_ (hlater last (by simp))
      rw [← (List.cons.inj hlast).1, hrequest round (by rw [hfront]; simp)]
  · rintro rfl
    exact ⟨front, [], rfl, by simp⟩

theorem Decisive.mem {segment : List Round} {round : Round} (h : Decisive segment round) : round ∈ segment := by
  obtain ⟨front, rest, rfl, -⟩ := h
  exact List.mem_append_right _ List.mem_cons_self

/-- Rounds of other requests do not matter. -/
theorem decisive_append {segment more : List Round}
    (h : ∀ round ∈ segment, ∀ later ∈ more, later.request ≠ round.request) (round : Round) :
    Decisive (segment ++ more) round ↔ Decisive segment round ∨ Decisive more round := by
  constructor
  · rintro ⟨front, rest, heq, hlater⟩
    rcases List.append_eq_append_iff.mp heq with ⟨middle, rfl, hrest⟩ | ⟨middle, rfl, hrest⟩
    · exact .inr ⟨middle, rest, hrest, hlater⟩
    · cases middle with
      | nil => exact .inr ⟨[], rest, hrest.symm, hlater⟩
      | cons first middle =>
        rw [List.cons_append, List.cons.injEq] at hrest
        obtain ⟨rfl, rfl⟩ := hrest
        exact .inl ⟨front, middle, rfl, fun later hmem => hlater later (List.mem_append_left _ hmem)⟩
  · rintro (hdecisive | ⟨front, rest, rfl, hlater⟩)
    · have hmem := hdecisive.mem
      obtain ⟨front, rest, rfl, hlater⟩ := hdecisive
      refine ⟨front, rest ++ more, by simp, fun later hlast => ?_⟩
      rcases List.mem_append.mp hlast with hold | hnew
      · exact hlater later hold
      · exact h round hmem later hnew
    · exact ⟨segment ++ front, rest, by simp, hlater⟩

section Requests

variable {α : Type}

/-- A program that makes one request leaves rounds of it. -/
theorem uses_rounds {program : Action α} {request : Request} (h : program.Uses (· = .send request)) (rounds : List Round) :
    program.Ensures Round.env (fun _ _ => True) rounds fun _ rounds' =>
      ∃ segment, rounds' = rounds ++ segment ∧ ∀ round ∈ segment, round.request = request := by
  induction program generalizing rounds with
  | ret value => exact ⟨[], by simp, by simp⟩
  | raise error => exact ⟨[], by simp, by simp⟩
  | call op next ih =>
    obtain ⟨rfl, hnext⟩ := h
    rintro answer _ rfl
    refine ⟨trivial, (ih answer (hnext answer) _).mono ?_⟩
    rintro outcome _ ⟨segment, rfl, hsegment⟩
    refine ⟨⟨request, answer⟩ :: segment, by simp, fun round hmem => ?_⟩
    rcases List.mem_cons.mp hmem with hfirst | hold
    · rw [hfirst]
    · exact hsegment round hold

/-- A reader of a response: it asks for nothing, and whether it escapes depends on whether the response is malformed. -/
def Reader (spoilt : α → Prop) (malformed : Prop) (program : Action α) : Prop :=
  ∀ rounds : List Round, program.Ensures Round.env (fun _ _ => True) rounds fun outcome rounds' =>
    rounds' = rounds ∧ (Escapes spoilt outcome ↔ malformed)

theorem reader_ret {spoilt : α → Prop} {malformed : Prop} {value : α} (h : spoilt value ↔ malformed) :
    Reader spoilt malformed (.ret value) := fun _ => ⟨rfl, h⟩

theorem reader_raise {spoilt : α → Prop} {malformed : Prop} {error : Err} (h : Err.Raw error ↔ malformed) :
    Reader spoilt malformed (.raise error) := fun _ => ⟨rfl, h⟩

/-- A program that makes one request, and escapes exactly if the answer is in trouble. -/
def Closes (client : RegistryHttpClient) (request : Request) (expected : List Nat) (maximumBytes : Nat)
    (malformed : BoundedResponse → Prop) (spoilt : α → Prop) (program : Action α) : Prop :=
  ∀ rounds : List Round, program.Ensures Round.env (fun _ _ => True) rounds fun outcome rounds' =>
    ∃ segment answer, rounds' = rounds ++ segment ∧ Rounds request segment answer ∧
      (Escapes spoilt outcome ↔ Trouble (P := P) client expected maximumBytes malformed answer)

variable (laws : P.Lawful) (hlimits : Platform.LimitsRaw P) {client : RegistryHttpClient}

include laws hlimits

/-- A request that is followed by a reader of its response. -/
theorem request_closed {request : Request} (hbuild : request.target.build P = .ok ()) {expected : List Nat}
    {retry : Bool} {maximumBytes : Nat} {next : BoundedResponse → Action α} {spoilt : α → Prop}
    {malformed : BoundedResponse → Prop}
    (hnext : ∀ bounded, bounded.status ∈ expected → Reader spoilt (malformed bounded) (next bounded)) :
    Closes (P := P) client request expected maximumBytes malformed spoilt
      (client.request P request expected retry maximumBytes >>= next) := by
  intro rounds
  rw [request_attempt hbuild]
  obtain ⟨left, hleft⟩ : ∃ left, (if retry then client.maxReadAttempts else 1) = left + 1 := by
    split
    · exact Nat.exists_eq_add_of_le' client.maxReadAttempts_pos
    · exact ⟨0, rfl⟩
  rw [hleft]
  clear hleft
  -- an answer that ends the loop
  have hends : ∀ (answer : Except Err Response) (rounds : List Round) (program : Action BoundedResponse),
      ((∃ error, program = .raise error ∧
          ∀ malformed, Err.Raw error ↔ Trouble (P := P) client expected maximumBytes malformed answer) ∨
        ∃ bounded, program = .ret bounded ∧ bounded.status ∈ expected ∧
          ∀ malformed, malformed bounded ↔ Trouble (P := P) client expected maximumBytes malformed answer) →
      (program >>= next).Ensures Round.env (fun _ _ => True) (rounds ++ [⟨request, answer⟩]) fun outcome rounds' =>
        ∃ segment answer, rounds' = rounds ++ segment ∧ Rounds request segment answer ∧
          (Escapes spoilt outcome ↔ Trouble (P := P) client expected maximumBytes malformed answer) := by
    intro answer rounds program hprogram
    have hsingle : Rounds request [⟨request, answer⟩] answer := ⟨[], rfl, by simp⟩
    rcases hprogram with ⟨error, rfl, hraw⟩ | ⟨bounded, rfl, hstatus, hmalformed⟩
    · exact ⟨_, answer, rfl, hsingle, hraw malformed⟩
    · refine (hnext bounded hstatus _).mono ?_
      rintro outcome _ ⟨rfl, hspoilt⟩
      exact ⟨_, answer, rfl, hsingle, hspoilt.trans (hmalformed malformed)⟩
  induction left generalizing rounds with
  | zero =>
    rintro answer _ rfl
    refine ⟨trivial, hends answer rounds _ ?_⟩
    rcases judge_closed laws hlimits answer 0 (client.attempt P request expected maximumBytes 0) with
      ⟨hagain, htrouble⟩ | hend
    · refine .inl ⟨_, hagain, fun malformed => iff_of_false ?_ (htrouble rfl malformed)⟩
      decide
    · exact hend
  | succ left ih =>
    rintro answer _ rfl
    refine ⟨trivial, ?_⟩
    rcases judge_closed laws hlimits answer (left + 1) (client.attempt P request expected maximumBytes (left + 1)) with
      ⟨hagain, -⟩ | hend
    · show ((client.judge P expected maximumBytes (left + 1) (client.attempt P request expected maximumBytes (left + 1))
        answer) >>= next).Ensures _ _ _ _
      rw [hagain]
      refine (ih _).mono ?_
      rintro outcome _ ⟨segment, last, rfl, ⟨front, rfl, hfront⟩, hescapes⟩
      refine ⟨⟨request, answer⟩ :: (front ++ [⟨request, last⟩]), last, by simp, ⟨⟨request, answer⟩ :: front, by simp, ?_⟩,
        hescapes⟩
      intro round hmem
      rcases List.mem_cons.mp hmem with hfirst | hold
      · rw [hfirst]
      · exact hfront round hold
    · exact hends answer rounds _ hend

end Requests

/-! ## Methods -/

/-- Digits that `int` does not take. -/
def Undigestible (P : Platform) (value : Option String) : Prop :=
  ∃ text, value = some text ∧ P.isdigit text = true ∧ P.int text = none

/-- The offset in a Range header consists of digits that `int` does not take. -/
def Misranged (P : Platform) (headers : Headers) : Prop :=
  ['0', '-'].isPrefixOf ((header headers "range").getD "").toList = true ∧
    Undigestible P (some (String.ofList (((header headers "range").getD "").toList.drop 2)))

/-- Every request to the upload can be built. -/
def Addressable (P : Platform) (url : String) : Prop :=
  ∀ digest, (∀ value, digest = some value → (matchDigest P value).isSome = true) →
    (Target.upload url digest).build P = .ok ()

/-- The upload cannot be located, or its minimum cannot be read. -/
def Unopened (P : Platform) (binding : OciDistributionBinding) (ready : String → Prop) (response : BoundedResponse) : Prop :=
  Misplaced P binding ready response.headers ∨
    ((∃ url, Located P binding response.headers url) ∧ Undigestible P (header response.headers "oci-chunk-min-length"))

/-- The digest of a manifest is the one asked for, and `json` runs out of its recursion limit on it. -/
def Unparsable (P : Platform) (binding : OciDistributionBinding) (reference : String) (response : BoundedResponse) : Prop :=
  response.content.length ≤ binding.maxManifestBytes ∧
    (['s', 'h', 'a', '2', '5', '6', ':'].isPrefixOf reference.toList = true → reference = sha256Digest P response.content) ∧
    ∃ error, P.jsonLimit response.content = some error ∧ error.isTypeOrValue = false

/-- An upload that is returned can be used for any further request. -/
def ClientAnswer.Spoilt : ClientAnswer P → Prop
  | .upload location => ¬Addressable P location.url
  | _ => False

namespace ClientCall

/-- Arguments that a caller may pass. -/
def Valid (client : RegistryHttpClient) : ClientCall P → Prop
  | headBlob digest => (matchDigest P digest).isSome = true
  | patchUpload upload chunk => (Target.upload upload.url none).build P = .ok () ∧ chunk ≠ []
  | finishUpload upload digest =>
    (Target.upload upload.url (some digest)).build P = .ok () ∧ (matchDigest P digest).isSome = true
  | abortUpload upload => (Target.upload upload.url none).build P = .ok ()
  | uploadStatus upload => (Target.upload upload.url none).build P = .ok ()
  | uploadBlobBytes _ mediaType => mediaType.toList.contains '/' = true
  | putManifest _ body => ∃ document, ManifestDocument.parse P body none client.binding.maxManifestBytes = .ok document
  | openBlob _ => False
  | _ => True

/-- The answer to a request of the call that something in it makes a reader raise. -/
def Troubled (client : RegistryHttpClient) : ClientCall P → Request → Except Err Response → Prop
  | ping, _ => Trouble (P := P) client [200] defaultResponseBytes fun _ => False
  | headBlob _, _ => Trouble (P := P) client [200, 404] defaultResponseBytes fun response =>
    response.status ≠ 404 ∧ Undigestible P (header response.headers "content-length")
  | startUpload, _ => Trouble (P := P) client [202] defaultResponseBytes (Unopened P client.binding (Addressable P))
  | patchUpload upload chunk, _ => Trouble (P := P) client [202] defaultResponseBytes fun response =>
    (∀ range, header response.headers "range" = some range →
      range = "0-" ++ toString (upload.offset + chunk.length - 1)) ∧
      Misplaced P client.binding (Addressable P) response.headers
  | finishUpload _ _, _ => Trouble (P := P) client [201] defaultResponseBytes fun _ => False
  | abortUpload _, _ => Trouble (P := P) client [204, 404] defaultResponseBytes fun _ => False
  | uploadStatus _, _ => Trouble (P := P) client [204] defaultResponseBytes fun response =>
    Misranged P response.headers ∨ Misplaced P client.binding (Addressable P) response.headers
  | uploadBlobBytes value _, request =>
    match request.method with
    | .head => Trouble (P := P) client [200, 404] defaultResponseBytes fun response =>
      response.status ≠ 404 ∧ Undigestible P (header response.headers "content-length")
    | .post => Trouble (P := P) client [202] defaultResponseBytes
      (Unopened P client.binding fun url => (Target.upload url (some (sha256Digest P value))).build P = .ok ())
    | .put => Trouble (P := P) client [201] defaultResponseBytes fun _ => False
    -- what aborting the upload raises is dropped
    | _ => fun _ => False
  | getBlobBytes _ maximumBytes, _ => Trouble (P := P) client [200] maximumBytes fun _ => False
  | openBlob _, _ => fun _ => False
  | getManifest reference, _ =>
    Trouble (P := P) client [200] client.binding.maxManifestBytes (Unparsable P client.binding reference)
  | manifestExists _, _ => Trouble (P := P) client [200, 404] defaultResponseBytes fun _ => False
  | putManifest _ _, _ => Trouble (P := P) client [201] defaultResponseBytes fun _ => False
  | deleteManifest _, _ => Trouble (P := P) client [202, 404] defaultResponseBytes fun _ => False
  | listTags limit _, _ => Trouble (P := P) client [200, 404] (max defaultResponseBytes (limit * 192 + 1024))
    fun response => response.status ≠ 404 ∧ Overlong P response.content
  | getReferrers _ _, _ => Trouble (P := P) client [200, 404] client.binding.maxManifestBytes
    fun response => response.status ≠ 404 ∧ Overlong P response.content

end ClientCall

section Methods

variable (laws : P.Lawful) (hlimits : Platform.LimitsRaw P) {client : RegistryHttpClient}

/-- What a call that was answered with the segment gives. -/
def ClientCall.Settled (client : RegistryHttpClient) (call : ClientCall P) (outcome : Except Err (ClientAnswer P))
    (segment : List Round) : Prop :=
  Escapes ClientAnswer.Spoilt outcome ↔ ∃ round, Decisive segment round ∧ call.Troubled client round.request round.answer

include laws hlimits

omit laws hlimits in
/-- A method that makes one request, as a call. -/
theorem settled_of_closes {α : Type} {call : ClientCall P} {request : Request} {expected : List Nat} {maximumBytes : Nat}
    {malformed : BoundedResponse → Prop} {wrap : α → ClientAnswer P} {program : Action α}
    (h : Closes (P := P) client request expected maximumBytes malformed (fun value => (wrap value).Spoilt) program)
    (htroubled : call.Troubled client request = Trouble (P := P) client expected maximumBytes malformed)
    (rounds : List Round) :
    (program >>= fun value => pure (wrap value)).Ensures Round.env (fun _ _ => True) rounds
      fun outcome rounds' => ∃ segment, rounds' = rounds ++ segment ∧ call.Settled client outcome segment := by
  have hsettled : ∀ {outcome : Except Err (ClientAnswer P)} {segment : List Round} {answer : Except Err Response},
      Rounds request segment answer →
      (Escapes ClientAnswer.Spoilt outcome ↔ Trouble (P := P) client expected maximumBytes malformed answer) →
      call.Settled client outcome segment := by
    intro outcome segment answer hsegment hescapes
    refine hescapes.trans ?_
    simp only [hsegment.decisive_iff, exists_eq_left, htroubled]
  refine (h rounds).bind ?_ ?_
  · rintro value _ ⟨segment, answer, rfl, hsegment, hescapes⟩
    exact ⟨segment, rfl, hsettled hsegment hescapes⟩
  · rintro error _ ⟨segment, answer, rfl, hsegment, hescapes⟩
    exact ⟨segment, rfl, hsettled hsegment hescapes⟩

omit laws hlimits in
/-- Whether the bytes `int` takes decides whether a size can be read. -/
theorem contentLength_closed (headers : Headers) :
    match contentLength P headers with
    | .ok _ => ¬Undigestible P (header headers "content-length")
    | .error error => Err.Raw error ↔ Undigestible P (header headers "content-length") := by
  unfold contentLength Undigestible
  cases header headers "content-length" with
  | none => exact iff_of_false (by decide) (by rintro ⟨text, ⟨⟩, -⟩)
  | some value =>
    dsimp only
    by_cases hdigit : P.isdigit value = true
    · rw [if_pos hdigit]
      cases hint : P.int value with
      | none => exact iff_of_true (.inl rfl) ⟨value, rfl, hdigit, hint⟩
      | some length =>
        rintro ⟨text, heq, -, hnone⟩
        obtain rfl := Option.some.inj heq
        cases hint.symm.trans hnone
    · rw [if_neg hdigit]
      refine iff_of_false (by decide) ?_
      rintro ⟨text, heq, hother, -⟩
      obtain rfl := Option.some.inj heq
      exact hdigit hother

/-- A look for a blob of a valid digest. -/
theorem headBlob_closes {digest : String} (hdigest : (matchDigest P digest).isSome = true) :
    Closes (P := P) client (.headBlob digest) [200, 404] defaultResponseBytes
      (fun response => response.status ≠ 404 ∧ Undigestible P (header response.headers "content-length"))
      (fun _ => False) (client.headBlob P digest) := by
  refine request_closed laws hlimits rfl fun response _ => ?_
  by_cases hstatus : response.status = 404
  · rw [if_pos hstatus]
    exact reader_ret (iff_of_false id fun h => h.1 hstatus)
  rw [if_neg hstatus]
  have hlength := contentLength_closed (P := P) response.headers
  cases hread : contentLength P response.headers with
  | error error =>
    rw [hread] at hlength
    exact reader_raise (hlength.trans (and_iff_right hstatus).symm)
  | ok length =>
    rw [hread] at hlength
    have hfine : ¬(response.status ≠ 404 ∧ Undigestible P (header response.headers "content-length")) := fun h => hlength h.2
    simp only [Action.lift_ok, Prog.ret_bind]
    split
    · exact reader_raise (iff_of_false (by decide) hfine)
    · have hnew : ∃ descriptor, OciDescriptor.new P "application/octet-stream" digest length = .ok descriptor := by
        unfold OciDescriptor.new
        rw [dif_pos (by decide), dif_pos hdigest]
        exact ⟨_, rfl⟩
      obtain ⟨descriptor, hnew⟩ := hnew
      rw [hnew]
      exact reader_ret (iff_of_false id hfine)

/-- An upload is opened, for one that is ready in the given sense. -/
theorem startUpload_closes (ready : String → Prop) :
    Closes (P := P) client .startUpload [202] defaultResponseBytes (Unopened P client.binding ready)
      (fun upload => ¬ready upload.url) (client.startUpload P) := by
  refine request_closed laws hlimits rfl fun response _ => ?_
  have hlocation := location_closed (P := P) client.binding response.headers
  cases hread : location P client.binding response.headers with
  | error error =>
    rw [hread] at hlocation
    obtain ⟨hnone, hraw⟩ := hlocation
    refine reader_raise (hraw.trans ⟨fun h => .inl (.inl h), ?_⟩)
    rintro ((h | ⟨url, hlocated, -⟩) | ⟨⟨url, hlocated⟩, -⟩)
    · exact h
    · exact absurd hlocated (hnone url)
    · exact absurd hlocated (hnone url)
  | ok url =>
    rw [hread] at hlocation
    obtain ⟨hlocated, hresolvable⟩ := hlocation
    have hunopened : Unopened P client.binding ready response ↔
        ¬ready url ∨ Undigestible P (header response.headers "oci-chunk-min-length") := by
      unfold Unopened Misplaced
      simp only [hlocated, hresolvable, exists_eq_left, exists_eq, false_or, true_and]
    simp only [Action.lift_ok, Prog.ret_bind]
    cases hminimum : header response.headers "oci-chunk-min-length" with
    | none =>
      refine reader_ret (hunopened.trans ?_).symm
      rw [hminimum]
      exact or_iff_left (by rintro ⟨text, ⟨⟩, -⟩)
    | some minimum =>
      dsimp only
      by_cases hdigit : P.isdigit minimum = true
      · rw [if_pos hdigit]
        cases hint : P.int minimum with
        | none =>
          refine reader_raise (iff_of_true (.inl rfl) (hunopened.mpr (.inr ?_)))
          exact ⟨minimum, hminimum, hdigit, hint⟩
        | some value =>
          refine reader_ret (hunopened.trans ?_).symm
          rw [hminimum]
          refine or_iff_left ?_
          rintro ⟨text, heq, -, hnone⟩
          obtain rfl := Option.some.inj heq
          cases hint.symm.trans hnone
      · rw [if_neg hdigit]
        refine reader_ret (hunopened.trans ?_).symm
        rw [hminimum]
        refine or_iff_left ?_
        rintro ⟨text, heq, hother, -⟩
        obtain rfl := Option.some.inj heq
        exact hdigit hother

omit laws hlimits in
/-- The location of an upload in a response, for any further request. -/
theorem reader_location {response : BoundedResponse} {make : String → UploadLocation} (hmake : ∀ url, (make url).url = url) :
    Reader (fun upload : UploadLocation => ¬Addressable P upload.url)
      (Misplaced P client.binding (Addressable P) response.headers)
      (Action.lift (location P client.binding response.headers) >>= fun url => pure (make url)) := by
  have hlocation := location_closed (P := P) client.binding response.headers
  cases hread : location P client.binding response.headers with
  | error error =>
    rw [hread] at hlocation
    obtain ⟨hnone, hraw⟩ := hlocation
    refine reader_raise (hraw.trans ⟨.inl, ?_⟩)
    rintro (h | ⟨url, hlocated, -⟩)
    · exact h
    · exact absurd hlocated (hnone url)
  | ok url =>
    rw [hread] at hlocation
    obtain ⟨hlocated, hresolvable⟩ := hlocation
    refine reader_ret ?_
    unfold Misplaced
    simp only [hlocated, hresolvable, exists_eq_left, false_or, hmake]

theorem patchUpload_closes {upload : UploadLocation} {chunk : Bytes}
    (hbuild : (Target.upload upload.url none).build P = .ok ()) (hchunk : chunk ≠ []) :
    Closes (P := P) client
      (.patchUpload upload.url upload.offset (upload.offset + chunk.length - 1) chunk) [202] defaultResponseBytes
      (fun response => (∀ range, header response.headers "range" = some range →
        range = "0-" ++ toString (upload.offset + chunk.length - 1)) ∧
        Misplaced P client.binding (Addressable P) response.headers)
      (fun upload => ¬Addressable P upload.url) (client.patchUpload P upload chunk) := by
  rw [RegistryHttpClient.patchUpload, if_neg hchunk]
  refine request_closed laws hlimits hbuild fun response _ => ?_
  by_cases hrange : (header response.headers "range").getD ("0-" ++ toString (upload.offset + chunk.length - 1)) =
      "0-" ++ toString (upload.offset + chunk.length - 1)
  · rw [if_neg (not_not.mpr hrange)]
    have hmalformed : ((∀ range, header response.headers "range" = some range →
        range = "0-" ++ toString (upload.offset + chunk.length - 1)) ∧
        Misplaced P client.binding (Addressable P) response.headers) ↔
        Misplaced P client.binding (Addressable P) response.headers := by
      refine and_iff_right fun range hsome => ?_
      rwa [hsome, Option.getD_some] at hrange
    rw [hmalformed]
    exact reader_location fun _ => rfl
  · rw [if_pos hrange]
    refine reader_raise (iff_of_false (by decide) fun hmalformed => hrange ?_)
    cases hsome : header response.headers "range" with
    | none => rfl
    | some range => exact hmalformed.1 range hsome

theorem uploadStatus_closes {upload : UploadLocation} (hbuild : (Target.upload upload.url none).build P = .ok ()) :
    Closes (P := P) client (.getUpload upload.url) [204] defaultResponseBytes
      (fun response => Misranged P response.headers ∨ Misplaced P client.binding (Addressable P) response.headers)
      (fun upload => ¬Addressable P upload.url) (client.uploadStatus P upload) := by
  refine request_closed laws hlimits hbuild fun response _ => ?_
  have hlocated : ∀ offset, ¬Misranged P response.headers →
      Reader (fun upload : UploadLocation => ¬Addressable P upload.url)
        (Misranged P response.headers ∨ Misplaced P client.binding (Addressable P) response.headers)
        (Action.lift (location P client.binding response.headers) >>= fun url => pure
          ⟨url, (header response.headers "docker-upload-uuid").or upload.uuid, upload.minimumChunkBytes, offset⟩) := by
    intro offset hranged
    rw [or_iff_right hranged]
    exact reader_location fun _ => rfl
  dsimp only
  split
  · rename_i hdigits
    rw [Bool.and_eq_true] at hdigits
    cases hint : P.int (String.ofList (((header response.headers "range").getD "").toList.drop 2)) with
    | none => exact reader_raise (iff_of_true (.inl rfl) (.inl ⟨hdigits.1, _, rfl, hdigits.2, hint⟩))
    | some last =>
      refine hlocated _ ?_
      rintro ⟨-, text, heq, -, hnone⟩
      rw [← Option.some.inj heq, hint] at hnone
      cases hnone
  · rename_i hdigits
    refine hlocated _ ?_
    rintro ⟨hpath, text, heq, hdigit, -⟩
    rw [← Option.some.inj heq] at hdigit
    exact hdigits (by rw [hpath, hdigit]; rfl)

omit laws hlimits in
/-- A descriptor with a media type and a valid digest. -/
theorem reader_descriptor {mediaType digest : String} (hmedia : mediaType.toList.contains '/' = true)
    (hdigest : (matchDigest P digest).isSome = true) (size : Nat) :
    Reader (fun _ => False) False (Action.lift (OciDescriptor.new P mediaType digest size)) := by
  unfold OciDescriptor.new
  rw [dif_pos hmedia, dif_pos hdigest]
  exact reader_ret Iff.rfl

theorem finishUpload_closes {upload : UploadLocation} {digest : String}
    (hbuild : (Target.upload upload.url (some digest)).build P = .ok ()) (hdigest : (matchDigest P digest).isSome = true) :
    Closes (P := P) client (.putUpload upload.url digest []) [201] defaultResponseBytes (fun _ => False)
      (fun _ => False) (client.finishUpload P upload digest) := by
  refine request_closed laws hlimits hbuild fun response _ => ?_
  split
  · exact reader_raise (iff_of_false (by decide) id)
  · exact reader_descriptor (by decide) hdigest _

theorem getBlobBytes_closes {descriptor : OciDescriptor P} {maximumBytes : Nat} (hsize : ¬maximumBytes < descriptor.size) :
    Closes (P := P) client (.getBlob descriptor.digest none) [200] maximumBytes (fun _ => False) (fun _ => False)
      (client.getBlobBytes P descriptor maximumBytes) := by
  rw [RegistryHttpClient.getBlobBytes, if_neg hsize]
  refine request_closed laws hlimits rfl fun response _ => ?_
  dsimp only
  split
  · exact reader_raise (iff_of_false (by decide) id)
  split
  · exact reader_raise (iff_of_false (by decide) id)
  · exact reader_ret Iff.rfl

omit laws hlimits in
/-- A manifest of an acceptable length and digest raises what `json` raises. -/
theorem parse_limit {body : Bytes} {expectedDigest : Option String} {maximumBytes : Nat} {error : Err}
    (hlength : body.length ≤ maximumBytes) (hdigest : expectedDigest ≠ none → expectedDigest = some (sha256Digest P body))
    (hlimit : P.jsonLimit body = some error) :
    ManifestDocument.parse P body expectedDigest maximumBytes = .error error := by
  unfold ManifestDocument.parse
  rw [if_neg (Nat.not_lt.mpr hlength), if_neg fun h => h.2 (hdigest h.1)]
  split
  · rename_i other hother
    rw [Option.some.inj (hother.symm.trans hlimit)]
  · rename_i hnone
    cases hnone.symm.trans hlimit

omit laws hlimits in
/-- Parsing a manifest raises more than `TypeError` and `ValueError` only out of `json`. -/
theorem parse_error {body : Bytes} {expectedDigest : Option String} {maximumBytes : Nat} {error : Err}
    (h : ManifestDocument.parse P body expectedDigest maximumBytes = .error error) (hkind : error.isTypeOrValue = false) :
    body.length ≤ maximumBytes ∧ (expectedDigest ≠ none → expectedDigest = some (sha256Digest P body)) ∧
      P.jsonLimit body = some error := by
  have hvalue : ∀ message, (.error (.of .valueError message) : Except Err (ManifestDocument P)) ≠ .error error := by
    intro message heq
    rw [← Except.error.inj heq] at hkind
    cases hkind
  unfold ManifestDocument.parse at h
  split at h
  · exact absurd h (hvalue _)
  rename_i hlength
  split at h
  · exact absurd h (hvalue _)
  rename_i hdigest
  refine ⟨Nat.not_lt.mp hlength, fun hne => ?_, ?_⟩
  · by_contra hother
    exact hdigest ⟨hne, hother⟩
  split at h
  · rename_i other hlimit
    rw [hlimit, Except.error.inj h]
  · repeat' split at h
    all_goals first
      | exact absurd h (hvalue _)
      | cases h

omit laws hlimits in
theorem parse_unlimited {body : Bytes} {expectedDigest : Option String} {maximumBytes : Nat} {document : ManifestDocument P}
    (h : ManifestDocument.parse P body expectedDigest maximumBytes = .ok document) : P.jsonLimit body = none := by
  unfold ManifestDocument.parse at h
  split at h
  · cases h
  split at h
  · cases h
  split at h
  · cases h
  · assumption

theorem getManifest_closes (reference : String) :
    Closes (P := P) client (.getManifest reference) [200] client.binding.maxManifestBytes
      (Unparsable P client.binding reference) (fun _ => False) (client.getManifest P reference) := by
  refine request_closed laws hlimits rfl fun response _ => ?_
  dsimp only
  generalize hexpected : (if ['s', 'h', 'a', '2', '5', '6', ':'].isPrefixOf reference.toList = true then some reference
    else none) = expectedDigest
  have hdigest : (expectedDigest ≠ none → expectedDigest = some (sha256Digest P response.content)) ↔
      (['s', 'h', 'a', '2', '5', '6', ':'].isPrefixOf reference.toList = true →
        reference = sha256Digest P response.content) := by
    rw [← hexpected]
    by_cases hpath : ['s', 'h', 'a', '2', '5', '6', ':'].isPrefixOf reference.toList = true
    · simp [hpath]
    · simp [hpath]
  cases hread : ManifestDocument.parse P response.content expectedDigest client.binding.maxManifestBytes with
  | error error =>
    have hunparsable : Unparsable P client.binding reference response ↔ error.isTypeOrValue = false := by
      unfold Unparsable
      rw [← hdigest]
      constructor
      · rintro ⟨hlength, hsame, other, hlimit, hother⟩
        rw [Except.error.inj (hread.symm.trans (parse_limit hlength hsame hlimit)), hother]
      · intro hkind
        obtain ⟨hlength, hsame, hlimit⟩ := parse_error hread hkind
        exact ⟨hlength, hsame, error, hlimit, hkind⟩
    dsimp only
    split
    · rename_i hkind
      refine reader_raise (iff_of_false (by decide) ?_)
      rw [hunparsable, hkind]
      exact Bool.noConfusion
    · rename_i hkind
      rw [Bool.not_eq_true] at hkind
      exact reader_raise (iff_of_true (hlimits _ _ (parse_error hread hkind).2.2) (hunparsable.mpr hkind))
  | ok document =>
    have hfine : ¬Unparsable P client.binding reference response := by
      rintro ⟨-, -, error, hlimit, -⟩
      cases (parse_unlimited hread).symm.trans hlimit
    dsimp only
    split
    · exact reader_raise (iff_of_false (by decide) hfine)
    split
    · exact reader_raise (iff_of_false (by decide) hfine)
    · exact reader_ret (iff_of_false id hfine)

theorem putManifest_closes {reference : String} {body : Bytes} {document : ManifestDocument P}
    (hparse : ManifestDocument.parse P body none client.binding.maxManifestBytes = .ok document) :
    Closes (P := P) client (.putManifest reference body) [201] defaultResponseBytes (fun _ => False) (fun _ => False)
      (client.putManifest P reference body) := by
  rw [RegistryHttpClient.putManifest, hparse]
  refine request_closed laws hlimits rfl fun response _ => ?_
  split
  · exact reader_raise (iff_of_false (by decide) id)
  · refine reader_descriptor (by decide) ?_ _
    rw [document.digest_eq, matchDigest_sha256Digest laws]
    rfl

omit laws hlimits in
/-- A JSON body whose shape is checked by a reader that raises only Object errors. -/
theorem reader_json {α : Type} {response : BoundedResponse} (hstatus : response.status ≠ 404) {next : Option Json → Action α}
    (hlimits : Platform.LimitsRaw P) (hnext : ∀ value, Reader (fun _ => False) False (next value)) :
    Reader (fun _ => False) (response.status ≠ 404 ∧ Overlong P response.content)
      (Action.lift (loadJson P response.content) >>= next) := by
  unfold loadJson Overlong
  cases hlimit : P.jsonLimit response.content with
  | some error => exact reader_raise (iff_of_true (hlimits _ _ hlimit) ⟨hstatus, by simp⟩)
  | none =>
    intro rounds
    refine (hnext (Json.loads response.content) rounds).mono ?_
    rintro outcome _ ⟨rfl, hescapes⟩
    exact ⟨rfl, hescapes.trans (iff_of_false id fun h => h.2 rfl)⟩

theorem listTags_closes (limit : Nat) (last : Option String) :
    Closes (P := P) client (.listTags limit last) [200, 404] (max defaultResponseBytes (limit * 192 + 1024))
      (fun response => response.status ≠ 404 ∧ Overlong P response.content) (fun _ => False)
      (client.listTags P limit last) := by
  refine request_closed laws hlimits rfl fun response _ => ?_
  by_cases hstatus : response.status = 404
  · rw [if_pos hstatus]
    exact reader_ret (iff_of_false id fun h => h.1 hstatus)
  rw [if_neg hstatus]
  refine reader_json hstatus hlimits fun value => ?_
  cases value with
  | none => exact reader_raise (iff_of_false (by decide) id)
  | some value =>
    dsimp only
    cases tagNames value with
    | none => exact reader_raise (iff_of_false (by decide) id)
    | some names => exact reader_ret Iff.rfl

omit laws hlimits in
theorem fromMapping_error {value : JsonObject} {error : Err} (h : OciDescriptor.fromMapping P value = .error error) :
    error.isTypeOrValue = true := by
  have hnew : ∀ {mediaType digest : String} {size : Nat}, OciDescriptor.new P mediaType digest size = .error error →
      error.isTypeOrValue = true := by
    intro mediaType digest size hnew
    unfold OciDescriptor.new at hnew
    split at hnew
    · split at hnew
      · cases hnew
      · rw [← Except.error.inj hnew]
        rfl
    · rw [← Except.error.inj hnew]
      rfl
  have hsize : ∀ {size : Json}, OciDescriptor.sizeOf size = .error error → error.isTypeOrValue = true := by
    intro size hsize
    unfold OciDescriptor.sizeOf at hsize
    split at hsize
    · cases hsize
    · rw [← Except.error.inj hsize]
      rfl
  unfold OciDescriptor.fromMapping at h
  repeat' split at h
  all_goals first
    | exact hnew h
    | (rw [← Except.error.inj h]; rfl)
    | skip
  rename_i hread
  rw [Except.error.inj h] at hread
  exact hsize hread

omit laws hlimits in
theorem referrersOf_error {value : Json} {error : Err} (h : RegistryHttpClient.referrersOf P value = .error error) :
    error.kind = .objectUnavailable := by
  have hlist : ∀ {α β : Type} {read : α → Except Err β} (items : List α),
      (∀ item error, read item = .error error → error.kind = .objectUnavailable) →
      ∀ error, items.mapM read = .error error → error.kind = .objectUnavailable := by
    intro α β read items hread
    induction items with
    | nil => exact fun error h => by cases h
    | cons item rest ih =>
      intro error h
      rw [List.mapM_cons] at h
      cases hitem : read item with
      | error other =>
        rw [hitem] at h
        rw [← Except.error.inj h]
        exact hread item other hitem
      | ok first =>
        rw [hitem] at h
        cases hrest : rest.mapM read with
        | error other =>
          rw [hrest] at h
          rw [← Except.error.inj h]
          exact ih other hrest
        | ok others =>
          rw [hrest] at h
          cases h
  unfold RegistryHttpClient.referrersOf at h
  dsimp only at h
  split at h
  · refine hlist _ ?_ error h
    intro item error herror
    split at herror
    · rename_i fields
      cases hmapping : OciDescriptor.fromMapping P fields with
      | ok descriptor =>
        rw [hmapping] at herror
        cases herror
      | error other =>
        rw [hmapping] at herror
        simp only [fromMapping_error hmapping, if_true] at herror
        rw [← Except.error.inj herror]
        rfl
    · rw [← Except.error.inj herror]
      rfl
  · rw [← Except.error.inj h]
    rfl

theorem getReferrers_closes (subjectDigest artifactType : String) :
    Closes (P := P) client (.getReferrers subjectDigest artifactType) [200, 404] client.binding.maxManifestBytes
      (fun response => response.status ≠ 404 ∧ Overlong P response.content) (fun _ => False)
      (client.getReferrers P subjectDigest artifactType) := by
  refine request_closed laws hlimits rfl fun response _ => ?_
  by_cases hstatus : response.status = 404
  · rw [if_pos hstatus]
    exact reader_ret (iff_of_false id fun h => h.1 hstatus)
  rw [if_neg hstatus]
  refine reader_json hstatus hlimits fun value => ?_
  cases value with
  | none => exact reader_raise (iff_of_false (by decide) id)
  | some value =>
    dsimp only
    cases hread : RegistryHttpClient.referrersOf P value with
    | error error =>
      refine reader_raise (iff_of_false ?_ id)
      have hkind := referrersOf_error hread
      rintro (h | h | h | h)
      all_goals cases hkind.symm.trans h
    | ok descriptors => exact reader_ret Iff.rfl

omit laws hlimits in
theorem abortSafely_rounds (upload : UploadLocation) (rounds : List Round) :
    (client.abortSafely P upload).Ensures Round.env (fun _ _ => True) rounds fun outcome rounds' =>
      outcome = .ok () ∧ ∃ segment, rounds' = rounds ++ segment ∧
        ∀ round ∈ segment, round.request = .deleteUpload upload.url := by
  have huses : (client.abortUpload P upload).Uses (· = .send (.deleteUpload upload.url)) :=
    (uses_request client _ _ _ _).bind fun _ => trivial
  exact (uses_rounds huses rounds).handle fun _ _ h => ⟨rfl, h⟩

omit laws hlimits in
/-- What a URL that no request can be built for raises. -/
theorem raw_build {target : Target} {error : Err} (h : target.build P = .error error) : Err.Raw error := by
  have hbuild : ∀ {url : String}, buildUrl P url = .error error → Err.Raw error := by
    intro url hurl
    unfold buildUrl at hurl
    cases horigin : origin P url with
    | error other =>
      rw [horigin] at hurl
      rw [← Except.error.inj hurl]
      exact raw_origin horigin
    | ok found =>
      rw [horigin] at hurl
      simp only [bind, Except.bind] at hurl
      split at hurl
      · cases hurl
      · rw [← Except.error.inj hurl]
        decide
  unfold Target.build at h
  split at h
  · exact hbuild h
  · split at h
    · rw [← Except.error.inj h]
      decide
    · exact hbuild h
  · cases h

/-- The upload of a small blob once it is open: the digest PUT, and an abort if that fails. -/
theorem putBlob_rounds (upload : UploadLocation) (digest : String) (value : Bytes) (rounds : List Round) :
    (tryCatch (do
        let response ← client.request P (.putUpload upload.url digest value) [201] false defaultResponseBytes
        if (header response.headers "docker-content-digest").getD digest ≠ digest then
          throw (.of .digestMismatch "registry stored a different blob digest")
        else pure ())
      (fun error => do
        client.abortSafely P upload
        throw error) : Action Unit).Ensures Round.env (fun _ _ => True) rounds fun outcome rounds' =>
      ∃ puts deletes, rounds' = rounds ++ (puts ++ deletes) ∧
        (∀ round ∈ puts, round.request = .putUpload upload.url digest value) ∧
        (∀ round ∈ deletes, round.request = .deleteUpload upload.url) ∧
        (Escapes (fun _ => False) outcome ↔ (Target.upload upload.url (some digest)).build P ≠ .ok () ∨
          ∃ round, Decisive puts round ∧
            Trouble (P := P) client [201] defaultResponseBytes (fun _ => False) round.answer) := by
  refine Prog.Ensures.handle (R := fun outcome rounds' => ∃ puts, rounds' = rounds ++ puts ∧
    (∀ round ∈ puts, round.request = .putUpload upload.url digest value) ∧
    (Escapes (fun _ => False) outcome ↔ (Target.upload upload.url (some digest)).build P ≠ .ok () ∨
      ∃ round, Decisive puts round ∧
        Trouble (P := P) client [201] defaultResponseBytes (fun _ => False) round.answer)) ?_ ?_
  · cases hbuild : (Target.upload upload.url (some digest)).build P with
    | error error =>
      rw [@request_unbuilt P client (.putUpload upload.url digest value) error hbuild]
      exact ⟨[], by simp, by simp, iff_of_true (raw_build hbuild) (.inl (by simp))⟩
    | ok _ =>
      have hcloses : Closes (P := P) client (.putUpload upload.url digest value) [201] defaultResponseBytes (fun _ => False)
          (fun _ : Unit => False) (do
            let response ← client.request P (.putUpload upload.url digest value) [201] false defaultResponseBytes
            if (header response.headers "docker-content-digest").getD digest ≠ digest then
              throw (.of .digestMismatch "registry stored a different blob digest")
            else pure ()) := by
        refine request_closed laws hlimits hbuild fun response _ => ?_
        split
        · exact reader_raise (iff_of_false (by decide) id)
        · exact reader_ret Iff.rfl
      refine (hcloses rounds).mono ?_
      rintro outcome _ ⟨segment, answer, rfl, hsegment, hescapes⟩
      refine ⟨segment, rfl, hsegment.request, hescapes.trans ?_⟩
      simp only [hsegment.decisive_iff, exists_eq_left, ne_eq, not_true_eq_false, false_or]
  · rintro (error | done) _ ⟨puts, rfl, hputs, hescapes⟩
    · refine (abortSafely_rounds upload _).bind ?_ ?_
      · rintro _ _ ⟨-, deletes, rfl, hdeletes⟩
        exact ⟨puts, deletes, by simp, hputs, hdeletes, hescapes⟩
      · rintro other _ ⟨heq, -⟩
        cases heq
    · exact ⟨puts, [], by simp, hputs, by simp, hescapes⟩

/-- The content of a small blob: a look for it, an upload, and an abort if that fails. -/
theorem uploadBlobBytes_settled {value : Bytes} {mediaType : String} (hmedia : mediaType.toList.contains '/' = true)
    (rounds : List Round) : ((ClientCall.uploadBlobBytes value mediaType).program client).Ensures Round.env
      (fun _ _ => True) rounds fun outcome rounds' => ∃ segment, rounds' = rounds ++ segment ∧
        (ClientCall.uploadBlobBytes (P := P) value mediaType).Settled client outcome segment := by
  have hdigest : (matchDigest P (sha256Digest P value)).isSome = true := by
    rw [matchDigest_sha256Digest laws]
    rfl
  let bad : List Round → Prop := fun segment => ∃ round, Decisive segment round ∧
    (ClientCall.uploadBlobBytes (P := P) value mediaType).Troubled client round.request round.answer
  have happend : ∀ {segment more : List Round}, (∀ round ∈ segment, ∀ later ∈ more, later.request ≠ round.request) →
      (bad (segment ++ more) ↔ bad segment ∨ bad more) := by
    intro segment more h
    simp only [bad, decisive_append h, or_and_right, exists_or]
  -- a blob descriptor of the content can be built
  have hnew : ∀ size, ∃ descriptor, OciDescriptor.new P mediaType (sha256Digest P value) size = .ok descriptor := by
    intro size
    unfold OciDescriptor.new
    rw [dif_pos hmedia, dif_pos hdigest]
    exact ⟨_, rfl⟩
  rw [ClientCall.program, RegistryHttpClient.uploadBlobBytes]
  dsimp only
  rw [Prog.bind_assoc]
  refine (headBlob_closes laws hlimits hdigest rounds).bind ?_ ?_
  · rintro existing _ ⟨heads, headAnswer, rfl, hheads, hhead⟩
    have hheadBad : ¬bad heads := by
      rintro ⟨round, hdecisive, htroubled⟩
      rw [(hheads.decisive_iff round).mp hdecisive] at htroubled
      exact hhead.mpr htroubled
    cases existing with
    | some existing =>
      dsimp only
      obtain ⟨descriptor, hdescriptor⟩ := hnew value.length
      rw [hdescriptor]
      split
      · exact ⟨heads, rfl, iff_of_false (show ¬Err.Raw _ by decide) hheadBad⟩
      · exact ⟨heads, rfl, iff_of_false id hheadBad⟩
    | none =>
      dsimp only
      rw [Prog.bind_assoc]
      refine (startUpload_closes laws hlimits (fun url => (Target.upload url (some (sha256Digest P value))).build P = .ok ())
        _).bind ?_ ?_
      · rintro upload _ ⟨posts, postAnswer, rfl, hposts, hpost⟩
        rw [Prog.bind_assoc]
        have hpostBad : bad posts ↔ (Target.upload upload.url (some (sha256Digest P value))).build P ≠ .ok () := by
          simp only [bad, hposts.decisive_iff, exists_eq_left]
          exact hpost.symm
        -- the rounds of an aborted upload are not in trouble
        have htotal : ∀ {puts deletes : List Round},
            (∀ round ∈ puts, round.request = .putUpload upload.url (sha256Digest P value) value) →
            (∀ round ∈ deletes, round.request = .deleteUpload upload.url) →
            (bad (heads ++ (posts ++ (puts ++ deletes))) ↔
              (Target.upload upload.url (some (sha256Digest P value))).build P ≠ .ok () ∨
                ∃ round, Decisive puts round ∧
                  Trouble (P := P) client [201] defaultResponseBytes (fun _ => False) round.answer) := by
          intro puts deletes hputs hdeletes
          have hdeleteBad : ¬bad deletes := by
            rintro ⟨round, hdecisive, htroubled⟩
            rw [hdeletes round hdecisive.mem] at htroubled
            exact htroubled
          have hputBad : bad puts ↔ ∃ round, Decisive puts round ∧
              Trouble (P := P) client [201] defaultResponseBytes (fun _ => False) round.answer := by
            refine exists_congr fun round => and_congr_right fun hdecisive => ?_
            rw [hputs round hdecisive.mem]
            exact Iff.rfl
          rw [happend, happend, happend, hpostBad, hputBad, or_iff_right hheadBad, or_iff_left hdeleteBad]
          · intro round hround later hlater
            rw [hputs round hround, hdeletes later hlater]
            rintro ⟨⟩
          · intro round hround later hlater
            rw [hposts.request round hround]
            rcases List.mem_append.mp hlater with hput | hdelete
            · rw [hputs later hput]
              rintro ⟨⟩
            · rw [hdeletes later hdelete]
              rintro ⟨⟩
          · intro round hround later hlater
            rw [hheads.request round hround]
            rcases List.mem_append.mp hlater with hfirst | hlater
            · rw [hposts.request later hfirst]
              rintro ⟨⟩
            · rcases List.mem_append.mp hlater with hput | hdelete
              · rw [hputs later hput]
                rintro ⟨⟩
              · rw [hdeletes later hdelete]
                rintro ⟨⟩
        refine (putBlob_rounds laws hlimits upload (sha256Digest P value) value _).bind ?_ ?_
        · rintro _ _ ⟨puts, deletes, rfl, hputs, hdeletes, hescapes⟩
          obtain ⟨descriptor, hdescriptor⟩ := hnew value.length
          rw [hdescriptor]
          exact ⟨heads ++ (posts ++ (puts ++ deletes)), by simp, iff_of_false id fun hbad =>
            hescapes.mpr ((htotal hputs hdeletes).mp hbad)⟩
        · rintro error _ ⟨puts, deletes, rfl, hputs, hdeletes, hescapes⟩
          exact ⟨heads ++ (posts ++ (puts ++ deletes)), by simp, hescapes.trans (htotal hputs hdeletes).symm⟩
      · rintro error _ ⟨posts, postAnswer, rfl, hposts, hpost⟩
        have hpostBad : bad posts ↔ Err.Raw error := by
          simp only [bad, hposts.decisive_iff, exists_eq_left]
          exact hpost.symm
        refine ⟨heads ++ posts, by simp, ?_⟩
        show Err.Raw error ↔ bad (heads ++ posts)
        rw [happend, hpostBad, or_iff_right hheadBad]
        intro round hround later hlater
        rw [hheads.request round hround, hposts.request later hlater]
        rintro ⟨⟩
  · rintro error _ ⟨heads, headAnswer, rfl, hheads, hhead⟩
    refine ⟨heads, rfl, hhead.trans ?_⟩
    simp only [hheads.decisive_iff, exists_eq_left]
    exact Iff.rfl

omit laws hlimits in
theorem reader_plain {α : Type} (value : α) : Reader (fun _ => False) False (Prog.ret value : Action α) := reader_ret Iff.rfl

/-- A method called with valid arguments raises something else than an Object error, or returns an upload for which
some request cannot be built, exactly if the last answer to one of its requests is in trouble. -/
theorem transport_closed {call : ClientCall P} (hvalid : call.Valid client) (rounds : List Round) :
    (call.program client).Ensures Round.env (fun _ _ => True) rounds fun outcome rounds' =>
      ∃ segment, rounds' = rounds ++ segment ∧ call.Settled client outcome segment := by
  cases call with
  | ping => exact settled_of_closes (request_closed laws hlimits rfl fun _ _ => reader_plain _) rfl rounds
  | headBlob digest => exact settled_of_closes (headBlob_closes laws hlimits hvalid) rfl rounds
  | startUpload => exact settled_of_closes (startUpload_closes laws hlimits (Addressable P)) rfl rounds
  | patchUpload upload chunk => exact settled_of_closes (patchUpload_closes laws hlimits hvalid.1 hvalid.2) rfl rounds
  | finishUpload upload digest => exact settled_of_closes (finishUpload_closes laws hlimits hvalid.1 hvalid.2) rfl rounds
  | abortUpload upload =>
    have habort : Closes (P := P) client (.deleteUpload upload.url) [204, 404] defaultResponseBytes (fun _ => False)
        (fun _ : Unit => False) (client.abortUpload P upload) :=
      request_closed laws hlimits (show (Request.deleteUpload upload.url).target.build P = .ok () from hvalid)
        fun _ _ => reader_plain ()
    exact settled_of_closes habort rfl rounds
  | uploadStatus upload => exact settled_of_closes (uploadStatus_closes laws hlimits hvalid) rfl rounds
  | uploadBlobBytes value mediaType => exact uploadBlobBytes_settled laws hlimits hvalid rounds
  | getBlobBytes descriptor maximumBytes =>
    by_cases hsize : maximumBytes < descriptor.size
    · rw [ClientCall.program, RegistryHttpClient.getBlobBytes, if_pos hsize]
      refine ⟨[], by simp, iff_of_false (show ¬Err.Raw _ by decide) ?_⟩
      rintro ⟨round, hdecisive, -⟩
      cases hdecisive.mem
    · exact settled_of_closes (getBlobBytes_closes laws hlimits hsize) rfl rounds
  | openBlob source => exact hvalid.elim
  | getManifest reference => exact settled_of_closes (getManifest_closes laws hlimits reference) rfl rounds
  | manifestExists reference =>
    exact settled_of_closes (request_closed laws hlimits rfl fun _ _ => reader_plain _) rfl rounds
  | putManifest reference body =>
    obtain ⟨document, hparse⟩ := hvalid
    exact settled_of_closes (putManifest_closes laws hlimits hparse) rfl rounds
  | deleteManifest digest =>
    exact settled_of_closes (request_closed laws hlimits rfl fun _ _ => reader_plain _) rfl rounds
  | listTags limit last => exact settled_of_closes (listTags_closes laws hlimits limit last) rfl rounds
  | getReferrers subjectDigest artifactType =>
    exact settled_of_closes (getReferrers_closes laws hlimits subjectDigest artifactType) rfl rounds

end Methods

namespace Sample

open MeridianOci.Model.Sample

/-- A platform on which a superscript is a digit that `int` does not take. -/
def widePlatform : Platform := { platform with isdigit := fun value => isDigits value || value == "²" }

theorem lawful_wide : widePlatform.Lawful :=
  { lawful with isdigit_toString := fun n =>
    Bool.or_eq_true_iff.mpr (.inl (lawful.isdigit_toString n)) }

theorem limits_wide : Platform.LimitsRaw widePlatform := fun _ _ h => nomatch h

def emptyDigest : String := sha256Digest widePlatform []

/-- A HEAD answer whose length is a superscript. -/
def superscript : Except Err Response := .ok ⟨200, [("content-length", "²")], "https://registry/", [], none⟩

theorem valid_headBlob : (ClientCall.headBlob (P := widePlatform) emptyDigest).Valid (adapter 0).transport := by
  show (matchDigest widePlatform (sha256Digest widePlatform [])).isSome = true
  rw [matchDigest_sha256Digest lawful_wide]
  rfl

/-- A ValueError leaves `head_blob` although its argument is fine. -/
theorem headBlob_escapes : ∃ outcome rounds,
    (ClientCall.headBlob (P := widePlatform) emptyDigest).Valid (adapter 0).transport ∧
      Performs Round.env ((ClientCall.headBlob (P := widePlatform) emptyDigest).program (adapter 0).transport) []
        outcome rounds ∧ Escapes ClientAnswer.Spoilt outcome := by
  refine ⟨.error { kind := .valueError }, [⟨.headBlob emptyDigest, superscript⟩], valid_headBlob, ?_, .inl rfl⟩
  refine .call _ _ _ [⟨.headBlob emptyDigest, superscript⟩] _ superscript _ (by exact rfl) ?_
  exact .raise _ _

theorem transport_closed_ping :
    (ClientCall.program (P := widePlatform) (adapter 0).transport .ping).Ensures Round.env (fun _ _ => True) []
      fun outcome rounds' => ∃ segment, rounds' = [] ++ segment ∧
        (ClientCall.ping (P := widePlatform)).Settled (adapter 0).transport outcome segment :=
  transport_closed lawful_wide limits_wide (show ClientCall.Valid _ .ping from trivial) []

end Sample

end MeridianOci.Service
