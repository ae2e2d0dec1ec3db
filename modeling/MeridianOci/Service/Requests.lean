import MeridianOci.Service.Setting

/-!
# One request

What the retry loop of the client makes of a conforming registry: a returned response is
the registry's reply in the state before the last send, and a request that raises has
been carried out at most once. Without faults the loop sends once and raises only when
it refuses the reply.
-/
namespace MeridianOci.Service

open MeridianOci.Data MeridianOci.Effect MeridianOci.Model

set_option autoImplicit false

variable {P : Platform}

/-! ## Headers and bodies of replies -/

theorem header_cons_self {field : String × String} {rest : Headers} {name : String}
    (h : isNamed field name = true) (hrest : header rest name = none) :
    header (field :: rest) name = some field.2 := by
  have hnil : rest.filter (isNamed · name) = [] := by
    unfold header at hrest
    split at hrest
    · assumption
    · cases hrest
  simp [header, h, hnil]

theorem header_cons_ne {field : String × String} {rest : Headers} {name : String}
    (h : isNamed field name = false) : header (field :: rest) name = header rest name := by
  simp [header, h]

theorem header_nil (name : String) : header [] name = none := rfl

theorem readBounded_chunks (maximumBytes : Nat) (chunks : List Bytes) (body : Bytes)
    (hbody : body.length ≤ maximumBytes) :
    readBounded maximumBytes chunks body none =
      if maximumBytes < (body ++ chunks.flatten).length then
        .error (.of .objectUnavailable "OCI registry response exceeded its configured bound")
      else .ok (body ++ chunks.flatten) := by
  induction chunks generalizing body with
  | nil => simp [readBounded, Nat.not_lt.mpr hbody]
  | cons chunk rest ih =>
    rw [readBounded]
    by_cases hlong : maximumBytes < (body ++ chunk).length
    · rw [if_pos hlong, if_pos]
      simp only [List.flatten_cons, List.length_append] at hlong ⊢
      omega
    · rw [if_neg hlong, ih _ (Nat.not_lt.mp hlong), List.flatten_cons, List.append_assoc]

theorem readBounded_failure {maximumBytes : Nat} {chunks : List Bytes} {body : Bytes} {failure : Err}
    {result : Bytes} : readBounded maximumBytes chunks body (some failure) ≠ .ok result := by
  induction chunks generalizing body with
  | nil => simp [readBounded]
  | cons chunk rest ih =>
    rw [readBounded]
    split
    · simp
    · exact ih

/-- A reply as the client sees it after reading it. -/
def Reply.bounded (reply : Reply) : BoundedResponse :=
  ⟨reply.status, withLength reply.headers reply.body, reply.body⟩

/-- What every reply of a conforming registry looks like. -/
structure Reply.Plain (reply : Reply) : Prop where
  status : reply.status ∉ retriableStatus
  headers : ∀ header ∈ reply.headers, isNamed header "content-encoding" = false

theorem boundedResponse_deliver (laws : P.Lawful) {binding : OciDistributionBinding}
    {policy : Policy P binding} {reply : Reply} (hplain : reply.Plain) (request : Request)
    (maximumBytes : Nat) :
    boundedResponse P (deliver policy request reply) maximumBytes =
      if maximumBytes < reply.body.length then
        .error (.of .objectUnavailable "OCI registry response exceeded its configured bound")
      else .ok reply.bounded := by
  simp only [boundedResponse, deliver]
  rw [readBounded_chunks _ _ _ (Nat.zero_le _), List.nil_append, policy.chunks_flatten]
  by_cases hlong : maximumBytes < reply.body.length
  · simp only [if_pos hlong]
  · simp only [if_neg hlong, laws.decodeContent_identity _ _ hplain.headers]
    rfl

theorem plain_errorReply {status : Nat} (code : String) (h : status ∉ retriableStatus) :
    (errorReply status code).Plain := by
  refine ⟨h, ?_⟩
  simp only [errorReply, List.mem_singleton]
  rintro _ rfl
  simp [isNamed]

theorem plain_respond {binding : OciDistributionBinding} {policy : Policy P binding}
    (registry : Registry policy) (request : Request) : (respond registry request).1.Plain := by
  have hupload : ∀ status url received, status ∉ retriableStatus →
      Reply.Plain ⟨status, uploadHeaders policy url received, []⟩ := by
    intro status url received h
    refine ⟨h, ?_⟩
    simp only [uploadHeaders, List.mem_cons]
    rintro _ (rfl | rfl | hmem)
    · simp [isNamed]
    · simp [isNamed]
    · split at hmem
      · cases hmem
      · simp [List.mem_singleton.mp hmem, isNamed]
  have hblob : ∀ status digest length body, status ∉ retriableStatus →
      Reply.Plain ⟨status, blobHeaders digest length, body⟩ := by
    intro status digest length body h
    refine ⟨h, ?_⟩
    simp only [blobHeaders, List.mem_cons, List.not_mem_nil, or_false]
    rintro _ (rfl | rfl) <;> simp [isNamed]
  have hmanifest : ∀ status digest length body, status ∉ retriableStatus →
      Reply.Plain ⟨status, manifestHeaders digest length, body⟩ := by
    intro status digest length body h
    refine ⟨h, ?_⟩
    simp only [manifestHeaders, List.mem_cons, List.not_mem_nil, or_false]
    rintro _ (rfl | rfl | rfl) <;> simp [isNamed]
  have hdigest : ∀ status digest, status ∉ retriableStatus →
      Reply.Plain ⟨status, [("Docker-Content-Digest", digest)], []⟩ := by
    intro status digest h
    refine ⟨h, ?_⟩
    simp only [List.mem_singleton]
    rintro _ rfl
    simp [isNamed]
  have hempty : ∀ status, status ∉ retriableStatus → Reply.Plain ⟨status, [], []⟩ :=
    fun status h => ⟨h, by simp⟩
  have herror : ∀ status code, status ∉ retriableStatus → (errorReply status code).Plain :=
    fun status code h => plain_errorReply code h
  simp only [respond]
  split
  · split
    · refine ⟨(by decide : 200 ∉ retriableStatus), ?_⟩
      simp [isNamed]
    · exact herror _ _ (by decide)
  · split
    · exact hupload _ _ _ (by decide)
    · exact herror _ _ (by decide)
  · simp only [respondUpload]
    split
    · exact herror _ _ (by decide)
    · split
      · split
        · exact hupload _ _ _ (by decide)
        · exact herror _ _ (by decide)
      · split
        · exact hdigest _ _ (by decide)
        · exact herror _ _ (by decide)
      · exact hupload _ _ _ (by decide)
      · exact hempty _ (by decide)
      · exact herror _ _ (by decide)
  · simp only [respondBlob]
    split
    · exact herror _ _ (by decide)
    · split
      · exact hblob _ _ _ _ (by decide)
      · split
        · exact hblob _ _ _ _ (by decide)
        · split
          · exact herror _ _ (by decide)
          · refine ⟨(by decide : 206 ∉ retriableStatus), ?_⟩
            simp only [blobHeaders, List.mem_cons, List.not_mem_nil, or_false]
            rintro _ (rfl | rfl | rfl) <;> simp [isNamed]
      · exact herror _ _ (by decide)
  · simp only [respondManifest]
    split
    · exact hdigest _ _ (by decide)
    · split
      · split
        · exact hempty _ (by decide)
        · exact hmanifest _ _ _ _ (by decide)
        · exact hmanifest _ _ _ _ (by decide)
        · exact herror _ _ (by decide)
      · exact herror _ _ (by decide)
  · split
    · refine ⟨by simp [respondTags, retriableStatus], ?_⟩
      simp only [respondTags]
      split
      · simp only [List.mem_singleton]
        rintro _ rfl
        simp [isNamed]
      · simp
    · exact herror _ _ (by decide)
  · split
    · refine ⟨(by decide : 200 ∉ retriableStatus), ?_⟩
      simp [respondReferrers, isNamed]
    · exact herror _ _ (by decide)

/-! ## The retry loop -/

/-- Why a request raises although the registry answered. -/
def Refused (P : Platform) (expected : List Nat) (maximumBytes : Nat) (reply : Reply) (error : Err) : Prop :=
  (reply.status ∉ expected ∧
      (error = responseError P reply.bounded ∨ error = responseError P ⟨reply.status, reply.headers, []⟩)) ∨
    (reply.status ∈ expected ∧ maximumBytes < reply.body.length)

/-- What the client makes of a reply that it received. -/
def verdict (P : Platform) (expected : List Nat) (maximumBytes : Nat) (reply : Reply) : Except Err BoundedResponse :=
  if maximumBytes < reply.body.length then
    if reply.status ∈ expected then
      .error (.of .objectUnavailable "OCI registry response exceeded its configured bound")
    else .error (responseError P ⟨reply.status, reply.headers, []⟩)
  else if reply.status ∈ expected then .ok reply.bounded
  else .error (responseError P reply.bounded)

theorem verdict_ok {expected : List Nat} {maximumBytes : Nat} {reply : Reply} {response : BoundedResponse}
    (h : verdict P expected maximumBytes reply = .ok response) :
    response = reply.bounded ∧ response.status ∈ expected ∧ reply.body.length ≤ maximumBytes := by
  unfold verdict at h
  split_ifs at h with hlong hin hin'
  obtain rfl := Except.ok.inj h
  exact ⟨rfl, hin', Nat.not_lt.mp hlong⟩

theorem verdict_error {expected : List Nat} {maximumBytes : Nat} {reply : Reply} {error : Err}
    (h : verdict P expected maximumBytes reply = .error error) : Refused P expected maximumBytes reply error := by
  unfold verdict at h
  split_ifs at h with hlong hin hin'
  · exact .inr ⟨hin, hlong⟩
  · exact .inl ⟨hin, .inr (Except.error.inj h).symm⟩
  · exact .inl ⟨hin', .inl (Except.error.inj h).symm⟩

theorem boundedResponse_ok {response : Response} {maximumBytes : Nat} {bounded : BoundedResponse}
    (h : boundedResponse P response maximumBytes = .ok bounded) :
    bounded.status = response.status ∧ ∃ body, bounded.headers = withLength response.headers body := by
  unfold boundedResponse at h
  split at h
  · cases h
  · split at h
    · cases h
    · obtain rfl := Except.ok.inj h
      exact ⟨rfl, _, rfl⟩

theorem readBounded_error {maximumBytes : Nat} {chunks : List Bytes} {body : Bytes} {failure : Option Err}
    {error : Err} (h : readBounded maximumBytes chunks body failure = .error error) :
    error.kind = .objectUnavailable ∨ failure = some error := by
  induction chunks generalizing body with
  | nil =>
    cases failure with
    | none => cases h
    | some failure => exact .inr (congrArg some (Except.error.inj h))
  | cons chunk rest ih =>
    rw [readBounded] at h
    split at h
    · exact .inl (by rw [← Except.error.inj h]; rfl)
    · exact ih h

theorem boundedResponse_error {response : Response} {maximumBytes : Nat} {error : Err}
    (hfailure : ∀ failure, response.failure = some failure → failure.kind = .httpError)
    (h : boundedResponse P response maximumBytes = .error error) :
    error.kind = .objectUnavailable ∨ error.kind = .httpError := by
  unfold boundedResponse at h
  split at h
  · rename_i other hread
    obtain rfl := Except.error.inj h
    exact (readBounded_error hread).imp_right (hfailure _)
  · split at h
    · exact .inr (by rw [← Except.error.inj h])
    · cases h

/-- An answer lets the loop go on, makes it raise, or ends it with a response that is safe, bounded and expected. -/
theorem judge_cases (client : RegistryHttpClient) (expected : List Nat) (maximumBytes left : Nat)
    (again : Action BoundedResponse) (answer : Except Err Response) :
    client.judge P expected maximumBytes left again answer = again ∨
      (∃ error, client.judge P expected maximumBytes left again answer = .raise error) ∨
      ∃ bounded response, client.judge P expected maximumBytes left again answer = .ret bounded ∧
        answer = .ok response ∧ requireSafeResponseUrl P client.binding response.url = .ok () ∧
        boundedResponse P response maximumBytes = .ok bounded ∧ bounded.status ∈ expected := by
  cases answer with
  | error error =>
    simp only [RegistryHttpClient.judge]
    split
    · exact .inl rfl
    · exact .inr (.inl ⟨_, rfl⟩)
  | ok response =>
    simp only [RegistryHttpClient.judge]
    cases hsafe : requireSafeResponseUrl P client.binding response.url with
    | error error => exact .inr (.inl ⟨_, rfl⟩)
    | ok _ =>
      dsimp only
      split
      · exact .inl rfl
      cases hread : boundedResponse P response maximumBytes with
      | error error =>
        dsimp only
        split
        · split
          · exact .inr (.inl ⟨_, rfl⟩)
          · exact .inr (.inl ⟨_, rfl⟩)
        · split
          · exact .inl rfl
          · exact .inr (.inl ⟨_, rfl⟩)
      | ok bounded =>
        dsimp only
        split
        · rename_i hstatus
          exact .inr (.inr ⟨bounded, response, rfl, rfl, hsafe, hread, hstatus⟩)
        · exact .inr (.inl ⟨_, rfl⟩)

theorem judge_ret {client : RegistryHttpClient} {expected : List Nat} {maximumBytes left : Nat}
    {again : Action BoundedResponse} {answer : Except Err Response} {bounded : BoundedResponse}
    (h : client.judge P expected maximumBytes left again answer = .ret bounded) :
    again = .ret bounded ∨ ∃ response, answer = .ok response ∧
      requireSafeResponseUrl P client.binding response.url = .ok () ∧
      boundedResponse P response maximumBytes = .ok bounded ∧ bounded.status ∈ expected := by
  rcases judge_cases client expected maximumBytes left again answer with hagain | ⟨error, herror⟩ |
    ⟨other, response, hother, hrest⟩
  · exact .inl (hagain.symm.trans h)
  · cases herror.symm.trans h
  · cases hother.symm.trans h
    exact .inr ⟨response, hrest⟩

/-- A request that can be built is sent. -/
theorem request_attempt {client : RegistryHttpClient} {request : Request} (hbuild : request.target.build P = .ok ())
    (expected : List Nat) (retry : Bool) (maximumBytes : Nat) :
    client.request P request expected retry maximumBytes =
      client.attempt P request expected maximumBytes (if retry then client.maxReadAttempts else 1) := by
  rw [RegistryHttpClient.request, hbuild]

/-- A request that cannot be built raises. -/
theorem request_unbuilt {client : RegistryHttpClient} {request : Request} {error : Err}
    (hbuild : request.target.build P = .error error) (expected : List Nat) (retry : Bool) (maximumBytes : Nat) :
    client.request P request expected retry maximumBytes = .raise error := by
  rw [RegistryHttpClient.request, hbuild]

/-- Requests to an upload that a conforming registry has can be built. -/
theorem Registry.build_upload {binding : OciDistributionBinding} {policy : Policy P binding} {registry : Registry policy}
    {url : String} {received : Bytes} (h : registry.uploads[url]? = some received) (digest : Option String) :
    (Target.upload url digest).build P = .ok () := by
  obtain ⟨n, -, rfl⟩ := registry.uploads_issued _ _ h
  exact policy.uploadUrl_build n digest

section Attempt

variable (laws : P.Lawful) {client : RegistryHttpClient}

theorem World.plain_reply {binding : OciDistributionBinding} {policy : Policy P binding}
    (w : World policy) (request : Request) : (w.reply request).Plain := plain_respond _ _

include laws in
/-- The answer of a conforming registry ends the loop. -/
theorem judge_deliver (policy : Policy P client.binding) {reply : Reply} (hplain : reply.Plain)
    (request : Request) (expected : List Nat) (maximumBytes left : Nat) (again : Action BoundedResponse) :
    client.judge P expected maximumBytes left again (.ok (deliver policy request reply)) =
      Prog.ofExcept (verdict P expected maximumBytes reply) := by
  have hsafe : requireSafeResponseUrl P client.binding (deliver policy request reply).url = .ok () :=
    policy.responseUrl_safe request
  have hstatus : (deliver policy request reply).status = reply.status := rfl
  have hheaders : (deliver policy request reply).headers = reply.headers := rfl
  simp only [RegistryHttpClient.judge, hsafe, hstatus, hheaders, hplain.status, false_and, if_false,
    boundedResponse_deliver laws hplain, verdict]
  by_cases hlong : maximumBytes < reply.body.length
  · by_cases hin : reply.status ∈ expected <;> simp only [hlong, hin, if_true, if_false, Err.of] <;> rfl
  · have hbounded : reply.bounded.status = reply.status := rfl
    by_cases hin : reply.status ∈ expected <;> simp only [hlong, hin, hbounded, if_true, if_false] <;> rfl

/-- A failed send is repeated or raises, but never returns. -/
theorem judge_failed (client : RegistryHttpClient) {expected : List Nat} (maximumBytes left : Nat)
    (again : Action BoundedResponse) {answer : Except Err Response} (hexpected : ∀ status ∈ expected, status < 400 ∨ status = 404)
    (hfailure : Failure answer) :
    client.judge P expected maximumBytes left again answer = again ∨
      ∃ error, client.judge P expected maximumBytes left again answer = .raise error := by
  cases answer with
  | error error =>
    simp only [RegistryHttpClient.judge]
    split
    · exact .inl rfl
    · exact .inr ⟨_, rfl⟩
  | ok response =>
    simp only [RegistryHttpClient.judge]
    cases requireSafeResponseUrl P client.binding response.url with
    | error error => exact .inr ⟨_, rfl⟩
    | ok _ =>
      simp only
      split
      · exact .inl rfl
      · cases hbounded : boundedResponse P response maximumBytes with
        | error error =>
          simp only
          split
          · split <;> exact .inr ⟨_, rfl⟩
          · split
            · exact .inl rfl
            · exact .inr ⟨_, rfl⟩
        | ok bounded =>
          have hnot : bounded.status ∉ expected := by
            intro hin
            unfold boundedResponse at hbounded
            split at hbounded
            · cases hbounded
            · rename_i body hread
              split at hbounded
              · cases hbounded
              · obtain rfl := Except.ok.inj hbounded
                rcases hfailure with hbroken | ⟨hhigh, hne⟩
                · obtain ⟨failure, hsome⟩ := Option.isSome_iff_exists.mp hbroken
                  rw [hsome] at hread
                  exact readBounded_failure hread
                · rcases hexpected _ hin with hlow | heq
                  · exact absurd hhigh (Nat.not_le.mpr hlow)
                  · exact hne heq
          simp only [hnot, if_false]
          exact .inr ⟨_, rfl⟩

variable {setting : Setting P client.binding}
variable {G : World setting.policy → World setting.policy → Prop}

/-- The outcomes of a request that may be sent `total` times: `earlier` is the world of the
last send. -/
def Requested (setting : Setting P client.binding) (request : Request) (expected : List Nat)
    (maximumBytes total : Nat) (w : World setting.policy) :
    Except Err BoundedResponse → World setting.policy → Prop
  | .ok response, w' => ∃ earlier,
      (earlier = w ∨ (setting.faults ∧ 1 < total ∧ earlier = w.apply request)) ∧
        response = (earlier.reply request).bounded ∧ response.status ∈ expected ∧
        (earlier.reply request).body.length ≤ maximumBytes ∧ w' = earlier.apply request
  | .error error, w' => (w' = w ∨ w' = w.apply request) ∧
      (setting.faults ∨
        (Refused P expected maximumBytes (w.reply request) error ∧ w' = w.apply request))

include laws

theorem attempt_ensures {request : Request} {expected : List Nat} {maximumBytes : Nat}
    {w : World setting.policy} (hexpected : ∀ status ∈ expected, status < 400 ∨ status = 404)
    (hrefl : ∀ a, G a a) (hstep : G w (w.apply request)) (total : Nat) (htotal : 0 < total)
    (hrepeat : total = 1 ∨ (w.apply request).apply request = w.apply request) :
    (client.attempt P request expected maximumBytes total).Ensures setting.env G w
      (Requested setting request expected maximumBytes total w) := by
  -- the last send happens in `w` or after the request was carried out once
  suffices hgen : ∀ n earlier, n ≤ total →
      (earlier = w ∨ (setting.faults ∧ 1 < total ∧ earlier = w.apply request ∧
        (w.apply request).apply request = w.apply request)) → (n = 0 → setting.faults) →
      (client.attempt P request expected maximumBytes n).Ensures setting.env G earlier
        (Requested setting request expected maximumBytes total w) from
    hgen total w le_rfl (.inl rfl) (by omega)
  intro n
  induction n with
  | zero =>
    intro earlier _ hearlier hfaults
    refine ⟨?_, .inl (hfaults rfl)⟩
    rcases hearlier with rfl | ⟨-, -, rfl, -⟩
    · exact .inl rfl
    · exact .inr rfl
  | succ left ih =>
    intro earlier hle hearlier _ answer s' hanswer
    have hG : ∀ s', s' = earlier ∨ s' = earlier.apply request → G earlier s' := by
      rintro s' (rfl | rfl)
      · exact hrefl _
      · rcases hearlier with rfl | ⟨-, -, rfl, hsame⟩
        · exact hstep
        · rw [hsame]
          exact hrefl _
    have htried : ∀ s', s' = earlier ∨ s' = earlier.apply request →
        s' = w ∨ s' = w.apply request := by
      rintro s' (rfl | rfl)
      · rcases hearlier with rfl | ⟨-, -, rfl, -⟩
        · exact .inl rfl
        · exact .inr rfl
      · rcases hearlier with rfl | ⟨-, -, rfl, hsame⟩
        · exact .inr rfl
        · exact .inr hsame
    rcases hanswer with ⟨rfl, rfl⟩ | ⟨hfaults, hfailure, hs'⟩
    · refine ⟨hG _ (.inr rfl), ?_⟩
      rw [judge_deliver laws setting.policy (earlier.plain_reply request), Prog.ensures_ofExcept]
      cases hverdict : verdict P expected maximumBytes (earlier.reply request) with
      | error error =>
        refine ⟨htried _ (.inr rfl), ?_⟩
        rcases hearlier with rfl | ⟨hfaults, -⟩
        · exact .inr ⟨verdict_error hverdict, rfl⟩
        · exact .inl hfaults
      | ok response =>
        obtain ⟨hresponse, hin, hlen⟩ := verdict_ok hverdict
        exact ⟨earlier, hearlier.imp_right fun h => ⟨h.1, h.2.1, h.2.2.1⟩, hresponse, hin, hlen, rfl⟩
    · refine ⟨hG s' hs', ?_⟩
      rcases judge_failed (P := P) client maximumBytes left
        (client.attempt P request expected maximumBytes left) hexpected hfailure with
        hagain | ⟨error, hraise⟩
      · rw [hagain]
        by_cases hleft : left = 0
        · subst hleft
          exact ⟨htried s' hs', .inl hfaults⟩
        · have hsame := hrepeat.resolve_left (by omega)
          refine ih s' (by omega) ?_ fun _ => hfaults
          exact (htried s' hs').imp_right fun h => ⟨hfaults, by omega, h, hsame⟩
      · rw [hraise]
        exact ⟨htried s' hs', .inl hfaults⟩

/-- A request that changes the registry is sent once. -/
theorem request_once_ensures (request : Request) (hbuild : request.target.build P = .ok ()) {expected : List Nat} {maximumBytes : Nat}
    {w : World setting.policy} (hexpected : ∀ status ∈ expected, status < 400 ∨ status = 404)
    (hrefl : ∀ a, G a a) (hstep : G w (w.apply request)) :
    (client.request P request expected false maximumBytes).Ensures setting.env G w
      fun outcome w' =>
        match outcome with
        | .ok response => response = (w.reply request).bounded ∧ response.status ∈ expected ∧
            w' = w.apply request
        | .error error => (w' = w ∨ w' = w.apply request) ∧
            (setting.faults ∨ Refused P expected maximumBytes (w.reply request) error) := by
  rw [request_attempt hbuild]
  refine (attempt_ensures laws hexpected hrefl hstep 1 (by decide) (.inl rfl)).mono ?_
  rintro (error | response) w' h
  · exact ⟨h.1, h.2.imp_right And.left⟩
  · obtain ⟨earlier, hearlier, hresponse, hin, -, hw'⟩ := h
    obtain rfl := hearlier.resolve_right fun h => absurd h.2.1 (Nat.lt_irrefl 1)
    exact ⟨hresponse, hin, hw'⟩

/-- A request that may be repeated, and that has no further effect then. -/
theorem request_retry_ensures (request : Request) (hbuild : request.target.build P = .ok ()) {expected : List Nat} {maximumBytes : Nat}
    {w : World setting.policy} (hexpected : ∀ status ∈ expected, status < 400 ∨ status = 404)
    (hrefl : ∀ a, G a a) (hstep : G w (w.apply request))
    (hrepeat : (w.apply request).apply request = w.apply request) :
    (client.request P request expected true maximumBytes).Ensures setting.env G w
      (Requested setting request expected maximumBytes client.maxReadAttempts w) := by
  rw [request_attempt hbuild]
  exact attempt_ensures laws hexpected hrefl hstep client.maxReadAttempts client.maxReadAttempts_pos
    (.inr hrepeat)

end Attempt

/-! ## Reading while others write -/

/-- An environment in which a read is answered by the registry of the moment, while the
world may change by `rely` before every operation. -/
structure Reading {binding : OciDistributionBinding} {policy : Policy P binding}
    (env : Environment Op Op.Res Err (World policy)) (rely : World policy → World policy → Prop)
    (faults : Prop) : Prop where
  refl : ∀ w, rely w w
  trans : ∀ a b c, rely a b → rely b c → rely a c
  send : ∀ request w answer w', (∀ v : World policy, v.apply request = v) →
    env (.send request) w answer w' → rely w w' ∧
      (answer = .ok (deliver policy request (w'.reply request)) ∨ (faults ∧ Failure answer))

/-- Alone, nothing changes between two reads. -/
theorem Setting.reading {binding : OciDistributionBinding} (setting : Setting P binding) :
    Reading setting.env Eq setting.faults where
  refl _ := rfl
  trans _ _ _ := Eq.trans
  send request w answer w' hread h := by
    rcases h with ⟨rfl, rfl⟩ | ⟨hfaults, hfailure, hw'⟩
    · rw [hread]
      exact ⟨rfl, .inl rfl⟩
    · rw [hread, or_self] at hw'
      exact ⟨hw'.symm, .inr ⟨hfaults, hfailure⟩⟩

/-- A request that only reads. -/
theorem request_read_ensures (laws : P.Lawful) {client : RegistryHttpClient}
    {policy : Policy P client.binding} {env : Environment Op Op.Res Err (World policy)}
    {rely G : World policy → World policy → Prop} {faults : Prop} (reading : Reading env rely faults)
    (hG : ∀ a b, rely a b → G a b) {request : Request} (hbuild : request.target.build P = .ok ()) {expected : List Nat} {maximumBytes : Nat}
    {w : World policy} (hexpected : ∀ status ∈ expected, status < 400 ∨ status = 404)
    (hread : ∀ v : World policy, v.apply request = v) :
    (client.request P request expected true maximumBytes).Ensures env G w
      fun outcome w' => rely w w' ∧
        match outcome with
        | .ok response => response = (w'.reply request).bounded ∧ response.status ∈ expected ∧
            (w'.reply request).body.length ≤ maximumBytes
        | .error error => faults ∨ Refused P expected maximumBytes (w'.reply request) error := by
  rw [request_attempt hbuild]
  suffices hgen : ∀ n earlier, rely w earlier → (n = 0 → faults) →
      (client.attempt P request expected maximumBytes n).Ensures env G earlier
        fun outcome w' => rely w w' ∧
          match outcome with
          | .ok response => response = (w'.reply request).bounded ∧ response.status ∈ expected ∧
              (w'.reply request).body.length ≤ maximumBytes
          | .error error => faults ∨ Refused P expected maximumBytes (w'.reply request) error from
    hgen client.maxReadAttempts w (reading.refl w)
      fun h => absurd client.maxReadAttempts_pos (by omega)
  intro n
  induction n with
  | zero => exact fun earlier hrely hfaults => ⟨hrely, .inl (hfaults rfl)⟩
  | succ left ih =>
    intro earlier hrely _ answer s' hanswer
    obtain ⟨hmove, hanswer⟩ := reading.send request earlier answer s' hread hanswer
    have hrely' := reading.trans _ _ _ hrely hmove
    refine ⟨hG _ _ hmove, ?_⟩
    rcases hanswer with rfl | ⟨hfaults, hfailure⟩
    · rw [judge_deliver laws policy (s'.plain_reply request), Prog.ensures_ofExcept]
      cases hverdict : verdict P expected maximumBytes (s'.reply request) with
      | error error => exact ⟨hrely', .inr (verdict_error hverdict)⟩
      | ok response => exact ⟨hrely', verdict_ok hverdict⟩
    · rcases judge_failed (P := P) client maximumBytes left
        (client.attempt P request expected maximumBytes left) hexpected hfailure with
        hagain | ⟨error, hraise⟩
      · rw [hagain]
        exact ih s' hrely' fun _ => hfaults
      · rw [hraise]
        exact ⟨hrely', .inl hfaults⟩

end MeridianOci.Service
