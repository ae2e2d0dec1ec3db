import MeridianOci.Service.Methods
import MeridianOci.Service.Sample

/-!
# Redirects

A request goes to its URL and then to every URL it is redirected to, and only the last of
them is looked at, when its answer is there. The URLs that the client builds are secure,
and so are the uploads it names; whether the rest of a chain is, is up to the registry.
-/
namespace MeridianOci.Service

open MeridianOci.Data MeridianOci.Effect MeridianOci.Model

set_option autoImplicit false

variable {P : Platform} {binding : OciDistributionBinding}

/-- HTTPS, or plain HTTP on the bound origin where the binding allows it. -/
def Secure (P : Platform) (binding : OciDistributionBinding) (url : String) : Prop :=
  ∃ parsed, splitUrl P url = .ok parsed ∧
    (parsed.scheme = "https" ∨ (parsed.scheme = "http" ∧ allowedHttp P binding url = .ok true))

/-! ## The URLs of the client -/

/-- The URLs that are made of the endpoint, and what is known of how URLs are read. -/
structure Addressing (P : Platform) (binding : OciDistributionBinding) where
  repositoryUrl : Target → String
  /-- What `_endpoint` checked. -/
  endpoint : ∃ scheme host port, origin P binding.endpoint = .ok (scheme, host, port) ∧
    (scheme = "https" ∨ (scheme = "http" ∧ binding.allowInsecureHttp = true))
  repository : ∀ target, origin P (repositoryUrl target) = origin P binding.endpoint
  merged : ∀ url digest result, P.mergeDigest url digest = some result → origin P result = origin P url

/-- Where a request is sent first. -/
def Addressing.url (addressing : Addressing P binding) : Target → String
  | .upload url none => url
  | .upload url (some digest) => (P.mergeDigest url digest).getD url
  | target => addressing.repositoryUrl target

theorem split_of_origin {url scheme host : String} {port : Nat} (h : origin P url = .ok (scheme, host, port)) :
    ∃ parsed, splitUrl P url = .ok parsed ∧ parsed.scheme = scheme := by
  unfold origin at h
  cases hsplit : splitUrl P url with
  | error error =>
    rw [hsplit] at h
    cases h
  | ok parsed =>
    refine ⟨parsed, rfl, ?_⟩
    rw [hsplit] at h
    simp only [bind, Except.bind] at h
    cases hport : parsed.port with
    | none =>
      rw [hport] at h
      cases h
    | some port =>
      rw [hport] at h
      exact (Prod.mk.inj (Except.ok.inj h)).1

/-- The origin decides. -/
theorem secure_of_origin {url other : String} {scheme host : String} {port : Nat}
    (h : origin P url = .ok (scheme, host, port)) (hsame : origin P other = origin P url) (hsecure : Secure P binding url) :
    Secure P binding other := by
  obtain ⟨parsed, hparsed, hscheme⟩ := split_of_origin h
  obtain ⟨parsed', hparsed', hscheme'⟩ := split_of_origin (hsame.trans h)
  obtain ⟨found, hfound, hsecure⟩ := hsecure
  obtain rfl := Except.ok.inj (hparsed.symm.trans hfound)
  refine ⟨parsed', hparsed', ?_⟩
  rw [hscheme', ← hscheme]
  rcases hsecure with hhttps | ⟨hhttp, hallowed⟩
  · exact .inl hhttps
  · refine .inr ⟨hhttp, ?_⟩
    rwa [allowedHttp, hsame]

theorem Addressing.secure_endpoint (addressing : Addressing P binding) : Secure P binding binding.endpoint := by
  obtain ⟨scheme, host, port, horigin, hscheme⟩ := addressing.endpoint
  obtain ⟨parsed, hparsed, hparsedScheme⟩ := split_of_origin horigin
  refine ⟨parsed, hparsed, ?_⟩
  rw [hparsedScheme]
  rcases hscheme with hhttps | ⟨hhttp, hallow⟩
  · exact .inl hhttps
  · refine .inr ⟨hhttp, ?_⟩
    simp [allowedHttp, hallow, horigin, bind, Except.bind, pure, Except.pure]

theorem Addressing.secure_repositoryUrl (addressing : Addressing P binding) (target : Target) :
    Secure P binding (addressing.repositoryUrl target) := by
  obtain ⟨scheme, host, port, horigin, -⟩ := addressing.endpoint
  exact secure_of_origin horigin (addressing.repository target) addressing.secure_endpoint

/-- A target that names no upload, or a secure one. -/
def Target.Secured (P : Platform) (binding : OciDistributionBinding) (target : Target) : Prop :=
  ∀ url digest, target = .upload url digest → Secure P binding url

/-- A request that is sent goes to a secure URL first. -/
theorem Addressing.secure_url (addressing : Addressing P binding) {target : Target} (h : Target.Secured P binding target)
    (hbuild : target.build P = .ok ()) : Secure P binding (addressing.url target) := by
  cases target with
  | upload url digest =>
    have hsecure := h url digest rfl
    cases digest with
    | none => exact hsecure
    | some digest =>
      rw [Addressing.url]
      rw [Target.build] at hbuild
      cases hmerged : P.mergeDigest url digest with
      | none => exact hsecure
      | some merged =>
        rw [hmerged] at hbuild
        simp only [buildUrl] at hbuild
        cases horigin : origin P merged with
        | error error =>
          rw [horigin] at hbuild
          cases hbuild
        | ok found =>
          obtain ⟨scheme, host, port⟩ := found
          have hsame := addressing.merged url digest merged hmerged
          exact secure_of_origin (hsame.symm.trans horigin) hsame hsecure
  | _ => exact addressing.secure_repositoryUrl _

theorem secure_location {headers : Headers} {url : String} (h : location P binding headers = .ok url) :
    Secure P binding url := by
  unfold location at h
  split at h
  · cases h
  split at h
  · cases h
  split at h
  · cases h
  rename_i resolved _
  cases hsplit : splitUrl P resolved with
  | error error =>
    rw [hsplit] at h
    cases h
  | ok parsed =>
    rw [hsplit] at h
    simp only [bind, Except.bind] at h
    split at h
    · cases h
    rename_i hvalid
    split at h
    · rename_i hhttp
      cases hallowed : allowedHttp P binding resolved with
      | error error =>
        rw [hallowed] at h
        cases h
      | ok allowed =>
        rw [hallowed] at h
        cases allowed with
        | false => cases h
        | true =>
          obtain rfl : resolved = url := by simpa using h
          exact ⟨parsed, hsplit, .inr ⟨hhttp, hallowed⟩⟩
    · rename_i hhttp
      obtain rfl : resolved = url := by simpa using h
      refine ⟨parsed, hsplit, .inl ?_⟩
      by_contra hhttps
      exact hvalid (.inl ⟨hhttp, hhttps⟩)

/-- A URL that passes the check of the response is secure. -/
theorem secure_of_require {url : String} (h : requireSafeResponseUrl P binding url = .ok ()) : Secure P binding url := by
  unfold requireSafeResponseUrl at h
  cases hsplit : splitUrl P url with
  | error error =>
    rw [hsplit] at h
    cases h
  | ok parsed =>
    rw [hsplit] at h
    simp only [bind, Except.bind] at h
    cases hallowed : allowedHttp P binding url with
    | error error =>
      rw [hallowed] at h
      cases h
    | ok allowed =>
      rw [hallowed] at h
      dsimp only at h
      split at h
      · cases h
      rename_i hvalid
      refine ⟨parsed, hsplit, ?_⟩
      by_cases hhttp : parsed.scheme = "http"
      · cases allowed with
        | true => exact .inr ⟨hhttp, hallowed⟩
        | false => exact absurd (.inr (.inr (.inr ⟨hhttp, rfl⟩))) hvalid
      · left
        by_contra hhttps
        exact hvalid (.inl ⟨hhttp, hhttps⟩)

/-! ## The wire -/

/-- A request, the URLs it was redirected to and its answer. -/
structure Exchange where
  request : Request
  redirects : List String
  answer : Except Err Response

/-- Every URL a request was sent to. -/
def Addressing.hops (addressing : Addressing P binding) (exchange : Exchange) : List String :=
  addressing.url exchange.request.target :: exchange.redirects

/-- A registry may redirect a request as often as it likes; a response tells the last URL. -/
def Wire.env (addressing : Addressing P binding) : Environment Op Op.Res Err (List Exchange)
  | .send request, log, answer, log' => ∃ redirects, log' = log ++ [⟨request, redirects, answer⟩] ∧
      ∀ response, answer = .ok response →
        (addressing.hops ⟨request, redirects, answer⟩).getLast? = some response.url
  | _, log, _, log' => log' = log

/-- An exchange that was sent to a secure URL first. -/
def Addressing.Sent (addressing : Addressing P binding) (exchange : Exchange) : Prop :=
  Secure P binding (addressing.url exchange.request.target)

/-- Every hop is secure if and only if every redirect is. -/
theorem Addressing.Sent.hops_iff {addressing : Addressing P binding} {exchange : Exchange} (h : addressing.Sent exchange) :
    (∀ url ∈ addressing.hops exchange, Secure P binding url) ↔ ∀ url ∈ exchange.redirects, Secure P binding url := by
  simp only [Addressing.hops, List.mem_cons, forall_eq_or_imp]
  exact and_iff_right h

/-- Once the last hop is secure, the ones in between decide. -/
theorem Addressing.Sent.accepted_iff {addressing : Addressing P binding} {exchange : Exchange} {last : String}
    (h : addressing.Sent exchange) (hlast : (addressing.hops exchange).getLast? = some last) (hsecure : Secure P binding last) :
    (∀ url ∈ addressing.hops exchange, Secure P binding url) ↔
      ∀ url ∈ exchange.redirects.dropLast, Secure P binding url := by
  rw [h.hops_iff]
  constructor
  · exact fun hall url hurl => hall url (List.dropLast_subset _ hurl)
  · intro hall url hurl
    rcases List.eq_nil_or_concat exchange.redirects with hnil | ⟨init, final, hconcat⟩
    · rw [hnil] at hurl
      cases hurl
    · rw [List.concat_eq_append] at hconcat
      rw [hconcat, List.dropLast_concat] at hall
      rw [Addressing.hops, hconcat, ← List.cons_append, List.getLast?_concat] at hlast
      rw [hconcat] at hurl
      rcases List.mem_append.mp hurl with hmem | hmem
      · exact hall url hmem
      · rw [List.mem_singleton.mp hmem, Option.some.inj hlast]
        exact hsecure

section Wire

variable {client : RegistryHttpClient} (addressing : Addressing P client.binding)

/-- If it sends, it sends to a secure URL. -/
def Op.SentSecurely (op : Op) : Prop :=
  ∀ request, op = .send request → Secure P client.binding (addressing.url request.target)

theorem sentSecurely_request {request : Request} (h : Target.Secured P client.binding request.target) (expected : List Nat)
    (retry : Bool) (maximumBytes : Nat) :
    (client.request P request expected retry maximumBytes).Uses (Op.SentSecurely addressing) := by
  cases hbuild : request.target.build P with
  | error error =>
    rw [request_unbuilt hbuild]
    trivial
  | ok _ =>
    refine (uses_request client request expected retry maximumBytes).mono ?_
    rintro _ rfl _ ⟨⟩
    exact addressing.secure_url h hbuild

/-- A target of the repository itself. -/
theorem secured_of_ne {target : Target} (h : ∀ url digest, target ≠ .upload url digest) :
    Target.Secured P client.binding target := fun url digest heq => absurd heq (h url digest)

theorem sentSecurely_reads {α : Type} {program : Action α} (h : program.Uses Op.Reads) :
    program.Uses (Op.SentSecurely addressing) := by
  refine h.mono fun op hreads request heq => ?_
  obtain ⟨other, hother, hrequest⟩ := hreads
  obtain rfl := Op.send.inj (heq.symm.trans hother)
  have haside : Op.Aside op := Op.Reads.aside ⟨request, heq, hrequest⟩
  refine addressing.secure_url (secured_of_ne fun url digest htarget => ?_) (build_reads hrequest)
  have hfalse := haside.1 request heq
  rw [htarget] at hfalse
  cases hfalse

/-- An upload is named by a secure URL. -/
theorem secured_upload {url : String} (h : Secure P client.binding url) (digest : Option String) :
    Target.Secured P client.binding (.upload url digest) := by
  rintro _ _ ⟨⟩
  exact h

theorem sentSecurely_abortUpload {upload : UploadLocation} (h : Secure P client.binding upload.url) :
    (client.abortUpload P upload).Uses (Op.SentSecurely addressing) :=
  (sentSecurely_request addressing (secured_upload h none) _ _ _).bind fun _ => trivial

theorem sentSecurely_startUpload : (client.startUpload P).Uses (Op.SentSecurely addressing) := by
  refine (sentSecurely_request addressing (secured_of_ne (by rintro _ _ ⟨⟩)) _ _ _).bind fun response => ?_
  refine (uses_lift _).bind fun url => ?_
  dsimp only
  repeat' split
  all_goals trivial

theorem secure_startUpload : (client.startUpload P).Returns fun upload => Secure P client.binding upload.url := by
  refine Prog.returns_bind fun response => ?_
  refine (Prog.returns_ofExcept (R := Secure P client.binding) fun url hurl => secure_location hurl).bind fun url hsecure => ?_
  dsimp only
  repeat' split
  all_goals trivial

theorem secure_patchUpload (upload : UploadLocation) (chunk : Bytes) :
    (client.patchUpload P upload chunk).Returns fun upload => Secure P client.binding upload.url := by
  unfold RegistryHttpClient.patchUpload
  split
  · trivial
  refine Prog.returns_bind fun response => ?_
  split
  · trivial
  exact (Prog.returns_ofExcept (R := Secure P client.binding) fun url hurl => secure_location hurl).bind fun url hsecure => hsecure

theorem secure_uploadStatus (upload : UploadLocation) :
    (client.uploadStatus P upload).Returns fun upload => Secure P client.binding upload.url := by
  refine Prog.returns_bind fun response => ?_
  have hlocated : ∀ offset, (do
      let url ← Action.lift (location P client.binding response.headers)
      return ⟨url, (header response.headers "docker-upload-uuid").or upload.uuid, upload.minimumChunkBytes, offset⟩ :
      Action UploadLocation).Returns fun upload => Secure P client.binding upload.url := fun offset =>
    (Prog.returns_ofExcept (R := Secure P client.binding) fun url hurl => secure_location hurl).bind fun url hsecure => hsecure
  dsimp only
  split
  · cases P.int (String.ofList (((header response.headers "range").getD "").toList.drop 2)) with
    | none => trivial
    | some last => exact hlocated _
  · exact hlocated _

theorem sentSecurely_uploadBlobBytes (value : Bytes) (mediaType : String) :
    (client.uploadBlobBytes P value mediaType).Uses (Op.SentSecurely addressing) := by
  unfold RegistryHttpClient.uploadBlobBytes
  dsimp only
  refine (sentSecurely_reads addressing (reads_headBlob P client _)).bind fun existing => ?_
  cases existing with
  | some existing =>
    dsimp only
    split
    · trivial
    · exact uses_lift _
  | none =>
    refine (sentSecurely_startUpload addressing).bind_returns secure_startUpload fun upload hsecure => ?_
    refine Prog.Uses.bind (Prog.Uses.tryCatch ?_ fun error => ?_) fun _ => uses_lift _
    · refine (sentSecurely_request addressing (secured_upload hsecure _) _ _ _).bind fun response => ?_
      split <;> trivial
    · exact Prog.Uses.bind ((sentSecurely_abortUpload addressing hsecure).handle fun _ => trivial) fun _ => trivial

/-- Whatever a call is answered, it sends to secure URLs if its upload is secure. -/
theorem ClientCall.sentSecurely (call : ClientCall P)
    (h : ∀ upload, call.upload? = some upload → Secure P client.binding upload.url) :
    (call.program client).Uses (Op.SentSecurely addressing) := by
  cases call with
  | ping =>
    refine Prog.Uses.bind (Prog.Uses.bind ?_ fun _ => trivial) fun _ => trivial
    exact sentSecurely_request addressing (secured_of_ne (by rintro _ _ ⟨⟩)) _ _ _
  | headBlob digest => exact (sentSecurely_reads addressing (reads_headBlob P client digest)).bind fun _ => trivial
  | startUpload => exact (sentSecurely_startUpload addressing).bind fun _ => trivial
  | patchUpload upload chunk =>
    refine Prog.Uses.bind ?_ fun _ => trivial
    unfold RegistryHttpClient.patchUpload
    split
    · trivial
    refine (sentSecurely_request addressing (secured_upload (h upload rfl) none) _ _ _).bind fun response => ?_
    split
    · trivial
    · exact (uses_lift _).bind fun _ => trivial
  | finishUpload upload digest =>
    refine Prog.Uses.bind ?_ fun _ => trivial
    refine (sentSecurely_request addressing (secured_upload (h upload rfl) (some digest)) _ _ _).bind fun response => ?_
    split
    · trivial
    · exact uses_lift _
  | abortUpload upload => exact (sentSecurely_abortUpload addressing (h upload rfl)).bind fun _ => trivial
  | uploadStatus upload =>
    refine Prog.Uses.bind ?_ fun _ => trivial
    refine (sentSecurely_request addressing (secured_upload (h upload rfl) none) _ _ _).bind fun response => ?_
    dsimp only
    repeat' split
    all_goals first
      | trivial
      | exact (uses_lift _).bind fun _ => trivial
  | uploadBlobBytes value mediaType => exact (sentSecurely_uploadBlobBytes addressing value mediaType).bind fun _ => trivial
  | getBlobBytes descriptor maximumBytes =>
    exact (sentSecurely_reads addressing (reads_getBlobBytes P client descriptor maximumBytes)).bind fun _ => trivial
  | openBlob source =>
    refine Prog.Uses.bind ((Prog.uses_perform ?_).bind fun _ => ⟨?_, fun answer => uses_lift _⟩) fun _ => trivial
    · rintro _ ⟨⟩
    rintro _ ⟨⟩
    exact addressing.secure_repositoryUrl _
  | getManifest reference => exact (sentSecurely_reads addressing (reads_getManifest P client reference)).bind fun _ => trivial
  | manifestExists reference =>
    exact (sentSecurely_reads addressing (reads_manifestExists P client reference)).bind fun _ => trivial
  | putManifest reference body =>
    refine Prog.Uses.bind ((uses_lift _).bind fun document => ?_) fun _ => trivial
    refine (sentSecurely_request addressing (secured_of_ne (by rintro _ _ ⟨⟩)) _ _ _).bind fun response => ?_
    split
    · trivial
    · exact uses_lift _
  | deleteManifest digest =>
    refine Prog.Uses.bind (Prog.Uses.bind ?_ fun _ => trivial) fun _ => trivial
    exact sentSecurely_request addressing (secured_of_ne (by rintro _ _ ⟨⟩)) _ _ _
  | listTags limit last => exact (sentSecurely_reads addressing (reads_listTags P client limit last)).bind fun _ => trivial
  | getReferrers subjectDigest artifactType =>
    refine Prog.Uses.bind ?_ fun _ => trivial
    refine (sentSecurely_request addressing (secured_of_ne (by rintro _ _ ⟨⟩)) _ _ _).bind fun response => ?_
    split
    · trivial
    · refine (uses_lift _).bind fun value => ?_
      cases value with
      | none => trivial
      | some value => exact uses_lift _

/-- An upload that a call returns is secure. -/
theorem ClientCall.secure_upload (call : ClientCall P) :
    (call.program client).Returns fun answer => ∀ upload, answer = .upload upload → Secure P client.binding upload.url := by
  have hother : ∀ {α : Type} {program : Action α} {answer : α → ClientAnswer P}, (∀ value upload, answer value ≠ .upload upload) →
      (program >>= fun value => pure (answer value)).Returns fun answer =>
        ∀ upload, answer = .upload upload → Secure P client.binding upload.url := by
    intro α program answer hanswer
    exact Prog.returns_bind fun value upload heq => absurd heq (hanswer value upload)
  cases call with
  | startUpload =>
    refine secure_startUpload.bind fun upload hsecure => ?_
    rintro _ ⟨⟩
    exact hsecure
  | patchUpload upload chunk =>
    refine (secure_patchUpload upload chunk).bind fun upload hsecure => ?_
    rintro _ ⟨⟩
    exact hsecure
  | uploadStatus upload =>
    refine (secure_uploadStatus upload).bind fun upload hsecure => ?_
    rintro _ ⟨⟩
    exact hsecure
  | _ => exact hother (by rintro _ _ ⟨⟩)

/-- A response that a request returns is the last answer on the wire, and came from a secure URL. -/
theorem request_wire (request : Request) (expected : List Nat) (retry : Bool) (maximumBytes : Nat) (log : List Exchange) :
    (client.request P request expected retry maximumBytes).Ensures (Wire.env addressing) (fun _ _ => True) log
      fun outcome log' => ∀ bounded, outcome = .ok bounded → ∃ front exchange response, log' = log ++ front ++ [exchange] ∧
        exchange.request = request ∧ request.target.build P = .ok () ∧ exchange.answer = .ok response ∧
        boundedResponse P response maximumBytes = .ok bounded ∧
        (addressing.hops exchange).getLast? = some response.url ∧ Secure P client.binding response.url := by
  cases hbuild : request.target.build P with
  | error error =>
    rw [request_unbuilt hbuild]
    rintro _ ⟨⟩
  | ok _ =>
    rw [request_attempt hbuild]
    generalize (if retry then client.maxReadAttempts else 1) = total
    induction total generalizing log with
    | zero => rintro _ ⟨⟩
    | succ left ih =>
      rintro answer log' ⟨redirects, rfl, hurl⟩
      refine ⟨trivial, ?_⟩
      rcases judge_cases client expected maximumBytes left (client.attempt P request expected maximumBytes left) answer with
        hagain | ⟨error, herror⟩ | ⟨bounded, response, hbounded, hanswer, hsafe, hread, -⟩
      · rw [hagain]
        refine (ih _).mono ?_
        intro outcome log'' hpost bounded heq
        obtain ⟨front, exchange, response, hlog, hrest⟩ := hpost bounded heq
        exact ⟨⟨request, redirects, answer⟩ :: front, exchange, response, by simp [hlog], hrest⟩
      · rw [herror]
        rintro _ ⟨⟩
      · rw [hbounded]
        rintro _ ⟨⟩
        exact ⟨[], _, response, by simp, rfl, rfl, hanswer, hread, hurl response hanswer, secure_of_require hsafe⟩

/-- A stream that a blob is opened with came from a secure URL. -/
theorem openBlob_wire (source : RegistryBlobSource) (log : List Exchange) :
    (client.openBlob P source).Ensures (Wire.env addressing) (fun _ _ => True) log fun outcome log' =>
      ∀ stream, outcome = .ok stream → ∃ exchange response, log' = log ++ [exchange] ∧
        exchange.request = .getBlob source.digest source.range ∧ exchange.answer = .ok response ∧
        (addressing.hops exchange).getLast? = some response.url ∧ Secure P client.binding response.url := by
  have hauthorize : Action.authorize.Ensures (Wire.env addressing) (fun _ _ => True) log fun _ log' => log' = log :=
    Prog.Ensures.perform fun _ _ henv => ⟨trivial, henv⟩
  refine hauthorize.bind ?_ (by rintro error log' - stream ⟨⟩)
  rintro ⟨⟩ _ rfl answer log' ⟨redirects, rfl, hurl⟩
  refine ⟨trivial, Prog.ensures_ofExcept.mpr fun stream hstream => ?_⟩
  cases answer with
  | error error =>
    simp only [RegistryHttpClient.blobStream] at hstream
    split at hstream <;> cases hstream
  | ok response =>
    simp only [RegistryHttpClient.blobStream] at hstream
    cases hsafe : requireSafeResponseUrl P client.binding response.url with
    | error error =>
      rw [hsafe] at hstream
      cases hstream
    | ok _ => exact ⟨_, response, rfl, rfl, rfl, hurl response rfl, secure_of_require hsafe⟩

/-- A call of the client with an upload, if it has one, that a secure URL names. -/
abbrev SecureCall (P : Platform) (binding : OciDistributionBinding) :=
  { call : ClientCall P // ∀ upload, call.upload? = some upload → Secure P binding upload.url }

/-- The runs of a client on the wire. -/
abbrev WireReachable (config : Config Op Op.Res Err (ClientAnswer P) (List Exchange) (SecureCall P client.binding)) : Prop :=
  Reachable (Wire.env addressing) (fun call => call.1.program client) [] config

variable {addressing}

theorem WireReachable.holds {config : Config Op Op.Res Err (ClientAnswer P) (List Exchange) (SecureCall P client.binding)}
    (h : WireReachable addressing config) :
    config.Holds (Wire.env addressing) (fun log log' => (∀ exchange ∈ log, addressing.Sent exchange) →
      ∀ exchange ∈ log', addressing.Sent exchange) fun log history => (∀ exchange ∈ log, addressing.Sent exchange) ∧
        ∀ event ∈ history, ∀ upload, event.outcome = .ok (.upload upload) → Secure P client.binding upload.url := by
  refine Reachable.holds ⟨(by rintro _ ⟨⟩), by rintro _ ⟨⟩⟩ (fun log history call hI => ?_) h
  obtain ⟨hlog, hhistory⟩ := hI
  have hsteps : (call.1.program client).Ensures (Wire.env addressing) (fun log log' =>
      (∀ exchange ∈ log, addressing.Sent exchange) → ∀ exchange ∈ log', addressing.Sent exchange) log fun _ _ => True := by
    refine (call.1.sentSecurely addressing call.2).ensures ?_ log
    intro op before answer after hop henv hsent
    cases op with
    | send request =>
      obtain ⟨redirects, rfl, -⟩ := henv
      intro exchange hmem
      rcases List.mem_append.mp hmem with hold | hnew
      · exact hsent exchange hold
      · rw [List.mem_singleton.mp hnew]
        exact hop request rfl
    | _ =>
      obtain rfl : after = before := henv
      exact hsent
  have hkept := hsteps.invariant (I := fun log => ∀ exchange ∈ log, addressing.Sent exchange) (fun _ _ hI hG => hG hI) hlog
  have hreturns : (call.1.program client).Returns fun answer =>
      ∀ upload, answer = .upload upload → Secure P client.binding upload.url := call.1.secure_upload
  refine (hreturns.and_ensures hkept).weaken (fun _ _ _ _ h => h) (fun _ _ h => h.1) ?_
  rintro outcome log' ⟨⟨-, hlog'⟩, hupload⟩
  refine ⟨hlog', fun event hmem upload houtcome => ?_⟩
  rcases List.mem_append.mp hmem with hold | hnew
  · exact hhistory event hold upload houtcome
  · rw [List.mem_singleton.mp hnew] at houtcome
    exact hupload _ houtcome upload rfl

/-- In every run every hop is secure if and only if every redirect is; the uploads that are returned are
secure; and of a response or a stream that is accepted, the redirects but the last decide. -/
theorem redirects_decide {config : Config Op Op.Res Err (ClientAnswer P) (List Exchange) (SecureCall P client.binding)}
    (h : WireReachable addressing config) :
    ((∀ exchange ∈ config.state, ∀ url ∈ addressing.hops exchange, Secure P client.binding url) ↔
      ∀ exchange ∈ config.state, ∀ url ∈ exchange.redirects, Secure P client.binding url) ∧
    (∀ event ∈ config.history, ∀ upload, event.outcome = .ok (.upload upload) → Secure P client.binding upload.url) ∧
    (∀ request, Target.Secured P client.binding request.target → ∀ expected retry maximumBytes log,
      (client.request P request expected retry maximumBytes).Ensures (Wire.env addressing) (fun _ _ => True) log
        fun outcome log' => ∀ bounded, outcome = .ok bounded → ∃ front exchange, log' = log ++ front ++ [exchange] ∧
          ((∀ url ∈ addressing.hops exchange, Secure P client.binding url) ↔
            ∀ url ∈ exchange.redirects.dropLast, Secure P client.binding url)) ∧
    (∀ source log, (client.openBlob P source).Ensures (Wire.env addressing) (fun _ _ => True) log fun outcome log' =>
      ∀ stream, outcome = .ok stream → ∃ exchange, log' = log ++ [exchange] ∧
        ((∀ url ∈ addressing.hops exchange, Secure P client.binding url) ↔
          ∀ url ∈ exchange.redirects.dropLast, Secure P client.binding url)) := by
  have hsent : (∀ exchange ∈ config.state, addressing.Sent exchange) ∧
      ∀ event ∈ config.history, ∀ upload, event.outcome = .ok (.upload upload) → Secure P client.binding upload.url := by
    have hholds := h.holds
    obtain ⟨log, phase, history⟩ := config
    cases phase with
    | idle => exact hholds
    | running call start rest =>
      obtain ⟨⟨hstart, hhistory⟩, hpath, -⟩ := hholds
      have hlog : ∀ log, Relation.ReflTransGen (fun log log' => (∀ exchange ∈ log, addressing.Sent exchange) →
          ∀ exchange ∈ log', addressing.Sent exchange) start log → ∀ exchange ∈ log, addressing.Sent exchange := by
        intro log hpath
        induction hpath with
        | refl => exact hstart
        | tail _ hlast ih => exact hlast ih
      exact ⟨hlog log hpath, hhistory⟩
  refine ⟨forall₂_congr fun exchange hmem => (hsent.1 exchange hmem).hops_iff, hsent.2, ?_, ?_⟩
  · intro request hsecured expected retry maximumBytes log
    refine (request_wire addressing request expected retry maximumBytes log).mono ?_
    intro outcome log' hpost bounded heq
    obtain ⟨front, exchange, response, hlog, hrequest, hbuild, -, -, hlast, hsecure⟩ := hpost bounded heq
    have hfirst : addressing.Sent exchange := by
      rw [Addressing.Sent, hrequest]
      exact addressing.secure_url hsecured hbuild
    exact ⟨front, exchange, hlog, hfirst.accepted_iff hlast hsecure⟩
  · intro source log
    refine (openBlob_wire addressing source log).mono ?_
    intro outcome log' hpost stream heq
    obtain ⟨exchange, response, hlog, hrequest, -, hlast, hsecure⟩ := hpost stream heq
    have hfirst : addressing.Sent exchange := by
      rw [Addressing.Sent, hrequest]
      exact addressing.secure_repositoryUrl _
    exact ⟨exchange, hlog, hfirst.accepted_iff hlast hsecure⟩

end Wire

namespace Sample

open MeridianOci.Model.Sample

/-- A platform that tells HTTP from HTTPS. -/
def webPlatform : Platform :=
  { platform with
    urlsplit := fun url =>
      some ⟨if "http:".toList.isPrefixOf url.toList then "http" else "https", some "registry", none, some none⟩ }

def webAddressing : Addressing webPlatform (Sample.adapter 0).transport.binding where
  repositoryUrl _ := "https://registry/v2/"
  endpoint := ⟨"https", "registry", 443, by decide, .inl rfl⟩
  repository _ := by decide
  merged url digest result h := by
    obtain rfl : url = result := Option.some.inj h
    rfl

/-- A ping that is sent over plain HTTP and back. -/
def detour : Exchange :=
  ⟨.ping, ["http://elsewhere/", "https://elsewhere/"], .ok ⟨200, [], "https://elsewhere/", [], none⟩⟩

theorem reachable_detour : WireReachable webAddressing
    ⟨[detour], .idle, [⟨⟨.ping, by rintro _ ⟨⟩⟩, .ok (.version "unknown"), [], [detour]⟩]⟩ := by
  refine Reachable.performs .refl ?_
  refine .call _ _ _ [detour] _ (.ok ⟨200, [], "https://elsewhere/", [], none⟩) _ ⟨_, rfl, ?_⟩ ?_
  · rintro _ ⟨⟩
    rfl
  · exact .ret _ _

theorem not_secure_http : ¬Secure webPlatform (Sample.adapter 0).transport.binding "http://elsewhere/" := by
  rintro ⟨parsed, hparsed, hsecure⟩
  obtain rfl := Except.ok.inj hparsed
  rcases hsecure with hhttps | ⟨-, hallowed⟩
  · exact absurd hhttps (by decide)
  · cases hallowed

/-- The answer to a ping is accepted although the ping went over plain HTTP. -/
theorem insecure_hop_accepted : ∃ config, WireReachable webAddressing config ∧
    (∃ event ∈ config.history, event.outcome = .ok (.version "unknown")) ∧
    ∃ exchange ∈ config.state, ∃ url ∈ webAddressing.hops exchange,
      ¬Secure webPlatform (Sample.adapter 0).transport.binding url :=
  ⟨_, reachable_detour, ⟨_, List.mem_cons_self, rfl⟩, detour, List.mem_cons_self, "http://elsewhere/",
    List.mem_cons_of_mem _ List.mem_cons_self, not_secure_http⟩

theorem redirects_decide_detour : ∃ config, WireReachable webAddressing config ∧
    ((∀ exchange ∈ config.state, ∀ url ∈ webAddressing.hops exchange,
      Secure webPlatform (Sample.adapter 0).transport.binding url) ↔
      ∀ exchange ∈ config.state, ∀ url ∈ exchange.redirects,
        Secure webPlatform (Sample.adapter 0).transport.binding url) :=
  ⟨_, reachable_detour, (redirects_decide reachable_detour).1⟩

end Sample

end MeridianOci.Service
