import MeridianOci.Service.Sample

/-!
# The retry loop on a script of outcomes

The sends of one request are answered from a script. Whether the loop goes on after an
answer depends on that answer and on the attempts left alone, so the loop ends at the
first outcome that is not transient, or at the last attempt, and raises or returns what
that one outcome says.
-/
namespace MeridianOci.Service

open MeridianOci.Data MeridianOci.Effect MeridianOci.Model

set_option autoImplicit false

variable {P : Platform}

/-- The n-th send gets the n-th outcome; the state counts the sends. -/
def scripted (script : Nat → Except Err Response) : (op : Op) → Nat → Except Err (Op.Res op) × Nat
  | .send _, sent => (script sent, sent + 1)
  | _, sent => (.error { kind := .other }, sent)

/-- An outcome without a redirect: an `httpx` error, or a response from a safe URL whose
body is within the bound and breaks off, if at all, with an `httpx` error. -/
def Ordinary (P : Platform) (client : RegistryHttpClient) (maximumBytes : Nat) : Except Err Response → Prop
  | .error error => error.kind = .httpError
  | .ok response =>
    requireSafeResponseUrl P client.binding response.url = .ok () ∧ response.chunks.flatten.length ≤ maximumBytes ∧
      ∀ failure, response.failure = some failure → failure.kind = .httpError

/-- A failed connection, a status to be retried, or a body that cannot be read. -/
def Retriable (P : Platform) (maximumBytes : Nat) : Except Err Response → Prop
  | .error _ => True
  | .ok response => response.status ∈ retriableStatus ∨ ∃ error, boundedResponse P response maximumBytes = .error error

def requestFailed : Err := .of .objectUnavailable "OCI registry request failed"

/-- What one outcome says when the loop ends at it. -/
def conclude (P : Platform) (expected : List Nat) (maximumBytes : Nat) :
    Except Err Response → Except Err BoundedResponse
  | .error _ => .error requestFailed
  | .ok response =>
    match boundedResponse P response maximumBytes with
    | .error _ => .error requestFailed
    | .ok bounded => if bounded.status ∈ expected then .ok bounded else .error (responseError P bounded)

/-- An answer whose body holds no OCI error code. -/
def Uncoded (P : Platform) (maximumBytes : Nat) (answer : Except Err Response) : Prop :=
  ∀ response bounded, answer = .ok response → boundedResponse P response maximumBytes = .ok bounded →
    ∀ code, providerCode P bounded = .ok code → code = "HTTP_ERROR"

/-- A response that was read and is refused with an error other than `ObjectUnavailable`: its
status is a retriable one below 500, or its body is beyond the limits of `json`. -/
def Misnamed (P : Platform) (expected : List Nat) (maximumBytes : Nat) (answer : Except Err Response) : Prop :=
  ∃ response bounded, answer = .ok response ∧ boundedResponse P response maximumBytes = .ok bounded ∧
    response.status ∉ expected ∧
      match providerCode P bounded with
      | .ok _ => response.status = 408 ∨ response.status = 425
      | .error error => error.kind ≠ .objectUnavailable

/-- The law of the loop: how often it sends, where it stops, and what it then says. -/
structure RetryLaw (P : Platform) (expected : List Nat) (maximumBytes attempts : Nat)
    (script : Nat → Except Err Response) (outcome : Except Err BoundedResponse) (sent : Nat) : Prop where
  once : 1 ≤ sent
  bounded : sent ≤ attempts
  persists : ∀ n, n + 1 < sent → Retriable P maximumBytes (script n)
  stops : sent < attempts → ¬ Retriable P maximumBytes (script (sent - 1))
  decides : ¬ Retriable P maximumBytes (script (sent - 1)) → outcome = conclude P expected maximumBytes (script (sent - 1))
  expected : ∀ response, outcome = .ok response → response.status ∈ expected
  exhausted : (∀ n < attempts, Retriable P maximumBytes (script n) ∧ Uncoded P maximumBytes (script n)) →
    ∀ error, outcome = .error error → error.kind = .objectUnavailable

/-! ## One answer -/

section Judge

variable {client : RegistryHttpClient} {expected : List Nat} {maximumBytes left : Nat}
variable {again : Action BoundedResponse} {answer : Except Err Response}

/-- An ordinary body is read, or reading it fails with an `httpx` error. -/
theorem Ordinary.read {response : Response} (h : Ordinary P client maximumBytes (.ok response)) {error : Err}
    (hread : boundedResponse P response maximumBytes = .error error) : error.kind = .httpError := by
  obtain ⟨-, hlength, hfailure⟩ := h
  cases hbroken : response.failure with
  | none =>
    rw [boundedResponse, hbroken, readBounded_chunks _ _ _ (Nat.zero_le _), List.nil_append,
      if_neg (Nat.not_lt.mpr hlength)] at hread
    dsimp only at hread
    split at hread
    · rw [← Except.error.inj hread]
    · cases hread
  | some failure =>
    have hchunks : ∀ chunks body, (body ++ chunks.flatten).length ≤ maximumBytes →
        readBounded maximumBytes chunks body (some failure) = .error failure := by
      intro chunks
      induction chunks with
      | nil => intros; rfl
      | cons chunk rest ih =>
        intro body hbody
        have hfits : (body ++ chunk).length ≤ maximumBytes := by
          simp only [List.flatten_cons, List.length_append] at hbody ⊢
          omega
        rw [readBounded, if_neg (Nat.not_lt.mpr hfits)]
        apply ih
        rwa [List.append_assoc]
    rw [boundedResponse, hbroken, hchunks _ _ (by simpa using hlength)] at hread
    rw [← Except.error.inj hread]
    exact hfailure failure hbroken

/-- After a transient outcome the loop goes on while attempts are left. -/
theorem judge_retriable (h : Ordinary P client maximumBytes answer) (hretriable : Retriable P maximumBytes answer)
    (hleft : 0 < left) : client.judge P expected maximumBytes left again answer = again := by
  cases answer with
  | error error => exact if_pos h
  | ok response =>
    simp only [RegistryHttpClient.judge, h.1]
    by_cases hstatus : response.status ∈ retriableStatus
    · exact if_pos ⟨hstatus, hleft⟩
    · obtain ⟨error, hread⟩ := hretriable.resolve_left hstatus
      have hkind := h.read hread
      rw [if_neg (fun hretry => hstatus hretry.1), hread]
      dsimp only
      rw [if_neg (by rw [hkind]; decide), if_pos hkind]

/-- Without attempts left, or after another outcome, it ends with what the outcome says. -/
theorem judge_concludes (h : Ordinary P client maximumBytes answer)
    (hend : ¬ Retriable P maximumBytes answer ∨ (left = 0 ∧ again = .raise requestFailed)) :
    client.judge P expected maximumBytes left again answer = Prog.ofExcept (conclude P expected maximumBytes answer) := by
  cases answer with
  | error error =>
    obtain ⟨-, hagain⟩ := hend.resolve_left fun hnot => hnot trivial
    exact (if_pos h).trans hagain
  | ok response =>
    have hretry : ¬ (response.status ∈ retriableStatus ∧ 0 < left) := by
      rintro ⟨hstatus, hleft⟩
      rcases hend with hnot | ⟨hzero, -⟩
      · exact hnot (.inl hstatus)
      · omega
    simp only [RegistryHttpClient.judge, conclude, h.1, if_neg hretry]
    cases hread : boundedResponse P response maximumBytes with
    | error error =>
      have hkind := h.read hread
      obtain ⟨-, hagain⟩ := hend.resolve_left fun hnot => hnot (.inr ⟨error, hread⟩)
      dsimp only
      rw [if_neg (by rw [hkind]; decide), if_pos hkind, hagain]
      rfl
    | ok bounded =>
      dsimp only
      split
      · rfl
      · rfl

end Judge

/-! ## The loop -/

section Loop

variable {client : RegistryHttpClient} {expected : List Nat} {maximumBytes : Nat}
variable {script : Nat → Except Err Response}

/-- The loop ends at the first outcome that is not transient, or at the last attempt. -/
theorem attempt_scripted (request : Request) (expected : List Nat) (h : ∀ n, Ordinary P client maximumBytes (script n)) (left sent : Nat) :
    ∃ more ≤ left, (client.attempt P request expected maximumBytes (left + 1)).run (scripted script) sent =
        (conclude P expected maximumBytes (script (sent + more)), sent + more + 1) ∧
      (∀ n < more, Retriable P maximumBytes (script (sent + n))) ∧
      (more < left → ¬ Retriable P maximumBytes (script (sent + more))) := by
  have hrun : ∀ left sent, (client.attempt P request expected maximumBytes (left + 1)).run (scripted script) sent =
      (client.judge P expected maximumBytes left (client.attempt P request expected maximumBytes left)
        (script sent)).run (scripted script) (sent + 1) := fun _ _ => rfl
  have hends : ∀ (outcome : Except Err BoundedResponse) (sent : Nat),
      (Prog.ofExcept outcome : Action BoundedResponse).run (scripted script) sent = (outcome, sent) := by
    intro outcome sent
    cases outcome <;> rfl
  induction left generalizing sent with
  | zero =>
    refine ⟨0, Nat.le_refl 0, ?_, fun n hn => absurd hn (Nat.not_lt_zero n), fun hn => absurd hn (Nat.lt_irrefl 0)⟩
    have hlast : client.attempt P request expected maximumBytes 0 = .raise requestFailed := rfl
    rw [hrun, judge_concludes (h sent) (.inr ⟨rfl, hlast⟩), hends]
    rfl
  | succ left ih =>
    by_cases hretriable : Retriable P maximumBytes (script sent)
    · obtain ⟨more, hmore, houtcome, hearlier, hstops⟩ := ih (sent + 1)
      refine ⟨more + 1, by omega, ?_, ?_, ?_⟩
      · rw [hrun, judge_retriable (h sent) hretriable (Nat.succ_pos left), houtcome]
        simp only [Nat.add_assoc, Nat.add_comm 1]
      · intro n hn
        cases n with
        | zero => exact hretriable
        | succ n =>
          have := hearlier n (by omega)
          rwa [Nat.add_assoc, Nat.add_comm 1] at this
      · intro hlt
        have := hstops (by omega)
        rwa [Nat.add_assoc, Nat.add_comm 1] at this
    · refine ⟨0, Nat.zero_le _, ?_, fun n hn => absurd hn (Nat.not_lt_zero n), fun _ => hretriable⟩
      rw [hrun, judge_concludes (h sent) (.inl hretriable), hends]
      rfl

/-- How often a request may be sent. -/
def attemptsOf (client : RegistryHttpClient) (retry : Bool) : Nat := if retry then client.maxReadAttempts else 1

theorem attemptsOf_pos (client : RegistryHttpClient) (retry : Bool) : 1 ≤ attemptsOf client retry := by
  unfold attemptsOf
  split
  · exact client.maxReadAttempts_pos
  · exact Nat.le_refl 1

/-- A conclusion that returns has an expected status. -/
theorem conclude_ok {answer : Except Err Response} {response : BoundedResponse}
    (h : conclude P expected maximumBytes answer = .ok response) : response.status ∈ expected := by
  unfold conclude at h
  split at h
  · cases h
  · split at h
    · cases h
    · split at h
      · rename_i hstatus
        rwa [← Except.ok.inj h]
      · cases h

/-- The error of a status without a provider code is `ObjectUnavailable` on every retriable
status but two. -/
theorem statusError_retriable {status : Nat} (h : status ∈ retriableStatus) :
    (statusError status "HTTP_ERROR").kind = .objectUnavailable ↔ ¬ (status = 408 ∨ status = 425) := by
  simp only [retriableStatus, List.mem_cons, List.not_mem_nil, or_false] at h
  rcases h with rfl | rfl | rfl | rfl | rfl | rfl <;> decide

/-- A transient outcome without a provider code is named `ObjectUnavailable` unless it is misnamed. -/
theorem conclude_retriable {answer : Except Err Response} (hretriable : Retriable P maximumBytes answer)
    (huncoded : Uncoded P maximumBytes answer) :
    (∀ error, conclude P expected maximumBytes answer = .error error → error.kind = .objectUnavailable) ↔
      ¬ Misnamed P expected maximumBytes answer := by
  cases answer with
  | error failure =>
    refine iff_of_true (fun error herror => by rw [← Except.error.inj herror]; rfl) ?_
    rintro ⟨_, _, heq, -⟩
    cases heq
  | ok response =>
    cases hread : boundedResponse P response maximumBytes with
    | error failure =>
      refine iff_of_true ?_ ?_
      · intro error herror
        simp only [conclude, hread] at herror
        rw [← Except.error.inj herror]
        rfl
      · rintro ⟨_, bounded, heq, hother, -⟩
        cases heq
        rw [hread] at hother
        cases hother
    | ok bounded =>
      have hbounded : bounded.status = response.status := (boundedResponse_ok hread).1
      have hstatus : response.status ∈ retriableStatus := by
        refine hretriable.resolve_right ?_
        rintro ⟨error, herror⟩
        rw [hread] at herror
        cases herror
      by_cases hexpected : response.status ∈ expected
      · refine iff_of_true ?_ ?_
        · intro error herror
          simp only [conclude, hread, hbounded, if_pos hexpected] at herror
          cases herror
        · rintro ⟨_, _, heq, -, hnot, -⟩
          cases heq
          exact hnot hexpected
      · have hconclude : conclude P expected maximumBytes (.ok response) = .error (responseError P bounded) := by
          simp only [conclude, hread, hbounded, if_neg hexpected]
        have hmisnamed : Misnamed P expected maximumBytes (.ok response) ↔
            match providerCode P bounded with
            | .ok _ => response.status = 408 ∨ response.status = 425
            | .error error => error.kind ≠ .objectUnavailable := by
          constructor
          · rintro ⟨_, _, heq, hother, -, hcase⟩
            cases heq
            obtain rfl := Except.ok.inj (hread.symm.trans hother)
            exact hcase
          · exact fun hcase => ⟨response, bounded, rfl, hread, hexpected, hcase⟩
        have hnames : (∀ error, conclude P expected maximumBytes (.ok response) = .error error →
            error.kind = .objectUnavailable) ↔ (responseError P bounded).kind = .objectUnavailable := by
          rw [hconclude]
          exact ⟨fun hall => hall _ rfl, fun hkind error herror => by rwa [← Except.error.inj herror]⟩
        rw [hnames, hmisnamed, responseError]
        cases hcode : providerCode P bounded with
        | error error => exact not_not.symm
        | ok code =>
          obtain rfl := huncoded response bounded rfl hread code hcode
          dsimp only
          rw [hbounded]
          exact statusError_retriable hstatus

/-- The law holds if and only if a request is built, and a run that ends in a transient outcome
does not end in one that is refused under another name. -/
theorem retry_law (request : Request) (expected : List Nat) (maximumBytes : Nat) (retry : Bool)
    (script : Nat → Except Err Response) (h : ∀ n, Ordinary P client maximumBytes (script n)) :
    RetryLaw P expected maximumBytes (attemptsOf client retry) script
        ((client.request P request expected retry maximumBytes).run (scripted script) 0).1
        ((client.request P request expected retry maximumBytes).run (scripted script) 0).2 ↔
      request.target.build P = .ok () ∧
        ¬ ((∀ n < attemptsOf client retry, Retriable P maximumBytes (script n) ∧ Uncoded P maximumBytes (script n)) ∧
          Misnamed P expected maximumBytes (script (attemptsOf client retry - 1))) := by
  cases hbuild : request.target.build P with
  | error error =>
    rw [request_unbuilt hbuild]
    refine iff_of_false (fun hlaw => absurd hlaw.once (Nat.not_succ_le_zero 0)) ?_
    rintro ⟨heq, -⟩
    cases heq
  | ok built =>
    obtain ⟨left, hleft⟩ : ∃ left, attemptsOf client retry = left + 1 :=
      ⟨_, (Nat.sub_add_cancel (attemptsOf_pos client retry)).symm⟩
    have hattempt : client.request P request expected retry maximumBytes =
        client.attempt P request expected maximumBytes (left + 1) := by
      rw [request_attempt hbuild, ← hleft]
      rfl
    obtain ⟨more, hmore, houtcome, hearlier, hstops⟩ :=
      attempt_scripted request expected h left 0
    simp only [Nat.zero_add] at houtcome hearlier hstops
    rw [hattempt, houtcome, hleft, Nat.add_sub_cancel]
    simp only [true_and]
    have hexhausted : (∀ n < left + 1, Retriable P maximumBytes (script n) ∧ Uncoded P maximumBytes (script n)) →
        more = left := by
      intro hall
      by_contra hne
      exact hstops (by omega) (hall more (by omega)).1
    constructor
    · rintro hlaw ⟨hall, hmisnamed⟩
      have hlast := hall left (Nat.lt_succ_self left)
      obtain rfl := hexhausted hall
      exact (conclude_retriable hlast.1 hlast.2).mp (hlaw.exhausted hall) hmisnamed
    · intro hcondition
      refine ⟨Nat.succ_pos _, by omega, fun n hn => hearlier n (by omega), fun hlt => ?_, fun _ => ?_,
        fun response hresponse => conclude_ok hresponse, fun hall => ?_⟩
      · rw [Nat.add_sub_cancel]
        exact hstops (by omega)
      · rw [Nat.add_sub_cancel]
      · have hlast := hall left (Nat.lt_succ_self left)
        obtain rfl := hexhausted hall
        exact (conclude_retriable hlast.1 hlast.2).mpr fun hmisnamed => hcondition ⟨hall, hmisnamed⟩

end Loop

/-! ## Statuses on a sample transport -/

namespace Sample

open MeridianOci.Model.Sample

/-- An answer that is nothing but a status. -/
def bare (status : Nat) : Except Err Response := .ok ⟨status, [], "https://registry/", [], none⟩

theorem bare_ordinary (status : Nat) (maximumBytes : Nat) :
    Ordinary platform (adapter 0).transport maximumBytes (bare status) :=
  ⟨(policy 0).responseUrl_safe .ping, Nat.zero_le _, fun _ h => nomatch h⟩

theorem bare_read (status maximumBytes : Nat) :
    boundedResponse platform ⟨status, [], "https://registry/", [], none⟩ maximumBytes = .ok ⟨status, [], []⟩ := rfl

theorem bare_code (status : Nat) : providerCode platform ⟨status, [], []⟩ = .ok "HTTP_ERROR" :=
  providerCode_nil lawful status []

theorem bare_uncoded (status maximumBytes : Nat) : Uncoded platform maximumBytes (bare status) := by
  intro response bounded hresponse hread code hcode
  obtain rfl := Except.ok.inj hresponse
  obtain rfl := Except.ok.inj ((bare_read status maximumBytes).symm.trans hread)
  exact (Except.ok.inj ((bare_code status).symm.trans hcode)).symm

/-- A registry that answers every attempt with a request timeout. -/
theorem timeouts_misnamed :
    ¬ RetryLaw platform [200] defaultResponseBytes 3 (fun _ => bare 408)
      (((adapter 0).transport.request platform .ping [200] true defaultResponseBytes).run
        (scripted fun _ => bare 408) 0).1
      (((adapter 0).transport.request platform .ping [200] true defaultResponseBytes).run
        (scripted fun _ => bare 408) 0).2 := by
  intro hlaw
  have hall : ∀ n < 3, Retriable platform defaultResponseBytes (bare 408) ∧
      Uncoded platform defaultResponseBytes (bare 408) :=
    fun _ _ => ⟨.inl (by decide), bare_uncoded 408 _⟩
  obtain ⟨more, -, houtcome, -⟩ := attempt_scripted .ping [200]
    (fun _ => bare_ordinary 408 defaultResponseBytes) 2 0
  have hraised : conclude platform [200] defaultResponseBytes (bare 408) =
      .error (statusError 408 "HTTP_ERROR") := by
    simp only [conclude, bare, bare_read, responseError, bare_code]
    rfl
  rw [hraised] at houtcome
  have hkind := hlaw.exhausted hall (statusError 408 "HTTP_ERROR") (congrArg Prod.fst houtcome)
  exact absurd hkind (by decide)

/-- Against a registry that is unavailable throughout the law holds. -/
theorem retry_law_unavailable :
    RetryLaw platform [200] defaultResponseBytes 3 (fun _ => bare 503)
      (((adapter 0).transport.request platform .ping [200] true defaultResponseBytes).run
        (scripted fun _ => bare 503) 0).1
      (((adapter 0).transport.request platform .ping [200] true defaultResponseBytes).run
        (scripted fun _ => bare 503) 0).2 := by
  refine (retry_law .ping [200] defaultResponseBytes true (fun _ => bare 503)
    fun _ => bare_ordinary 503 defaultResponseBytes).mpr ⟨rfl, ?_⟩
  rintro ⟨-, response, bounded, hresponse, hread, -, hcase⟩
  obtain rfl := Except.ok.inj hresponse
  obtain rfl := Except.ok.inj ((bare_read 503 defaultResponseBytes).symm.trans hread)
  rw [bare_code] at hcase
  exact absurd hcase (by decide)

end Sample

end MeridianOci.Service
