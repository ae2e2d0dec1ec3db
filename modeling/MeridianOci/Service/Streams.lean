import MeridianOci.Model.Stream
import MeridianOci.Service.Closure
import MeridianOci.Service.Passes

/-!
# Failures of open streams

Which exceptions `open_blob` and the reader that it yields let out, for every answer and
every way to read, and what an upload makes of a payload that is read from such a stream.
The send is translated; what the headers raise before it, and the response after it, is not.
-/
namespace MeridianOci.Service

open MeridianOci.Data MeridianOci.Effect MeridianOci.Model

set_option autoImplicit false

variable {P : Platform} {client : RegistryHttpClient} {source : RegistryBlobSource} {built : Except Err Unit}
variable {answer : Except Err Response}

/-- The credentials and the send answer like this. -/
def answering (built : Except Err Unit) (answer : Except Err Response) : (op : Op) → Unit → Except Err op.Res × Unit
  | .authorize, _ => (built, ())
  | .send _, _ => (answer, ())
  | _, _ => (.error { kind := .other }, ())

variable (P client source built answer) in
/-- What `open_blob` yields or raises. -/
def openOutcome : Except Err Stream := ((client.openBlob P source).run (answering built answer) ()).1

/-- What a consumer gets from a reader: the results of its reads up to the one that raises or the one
it stops at. -/
inductive Drawn : IteratorReader → Stream → Prop where
  | stop (reader : IteratorReader) : Drawn reader ⟨[], none⟩
  | broken (reader : IteratorReader) (size : Int) (error : Err) : (reader.read size).1 = .error error →
      Drawn reader ⟨[], some error⟩
  | chunk (reader : IteratorReader) (size : Int) (chunk : Bytes) (rest : List Bytes) (failure : Option Err) :
      (reader.read size).1 = .ok chunk → Drawn (reader.read size).2 ⟨rest, failure⟩ →
      Drawn reader ⟨chunk :: rest, failure⟩

/-- What is drawn breaks off only if the stream does. -/
theorem Drawn.failure {reader : IteratorReader} {stream : Stream} (h : Drawn reader stream)
    (hopen : reader.closed = false) {error : Err} (hfailure : stream.failure = some error) :
    reader.failure = some error := by
  induction h with
  | stop reader => cases hfailure
  | broken reader size raised hraised =>
    obtain rfl := Option.some.inj hfailure
    exact reader.read_raises hopen hraised
  | chunk reader size chunk rest failure _ _ ih =>
    exact reader.read_keeps (ih (reader.read_closed hopen size) hfailure)

variable (P client source built answer) in
/-- `open_blob` and the reads of what it yields let out Object Common errors only, and an upload of a
payload that is drawn from it does not end with a connection failure before it has started again. -/
structure Taxonomy : Prop where
  opening : ∀ error, openOutcome P client source built answer = .error error → ¬Err.Raw error
  reading : ∀ stream, openOutcome P client source built answer = .ok stream → ∀ reader,
    IteratorReader.Reached (.new stream) reader → reader.closed = false →
    ∀ size error, (reader.read size).1 = .error error → ¬Err.Raw error
  replaying : ∀ stream, openOutcome P client source built answer = .ok stream →
    ∀ (P' : Platform) (adapter : OciDistributionAdapter) (payload : PayloadReference) (σ : Type)
      (env : Environment Op Op.Res Err σ) (s s' : σ) (trace : List (Effect.Exchange Op Op.Res Err)) (error : Err) (drawn : Stream),
    payload.replayable = true → Traces env (adapter.uploadPayload P' payload) s trace (.error error) s' →
    Drawn (.new stream) drawn → drawn.failure = some error → error.kind = .httpError →
    ⟨.openPayload payload adapter.binding.chunkSize, .ok drawn⟩ ∈ trace → opens trace = 2

/-- The headers of a response are those of the blob that was asked for. -/
def Identified (source : RegistryBlobSource) (response : Response) : Prop :=
  (header response.headers "docker-content-digest").getD source.digest = source.digest ∧
    ∀ start finish, source.range = some (start, finish) →
      ("bytes " ++ toString start ++ "-" ++ toString finish ++ "/").toList.isPrefixOf
        ((header response.headers "content-range").getD "").toList = true

variable (P client source) in
/-- Where something raises that nothing translates: the headers, whatever it is; the send, with something
else than an `httpx` error; the check of a URL that cannot be parsed; the body of a refused response,
while it is read or by the limits of `json`; and the body of an accepted one. -/
def Foreign : Except Err Unit → Except Err Response → Prop
  | .error error, _ => Err.Raw error
  | .ok _, .error error => Err.Foreign error
  | .ok _, .ok response => ¬Readable P client.binding response.url ∨
      (requireSafeResponseUrl P client.binding response.url = .ok () ∧
        ((response.status ≠ (if source.range.isSome then 206 else 200) ∧
            ((∃ failure, response.failure = some failure ∧ Err.Raw failure) ∨
              (response.failure = none ∧ Overlong P response.chunks.flatten))) ∨
          (response.status = (if source.range.isSome then 206 else 200) ∧ Identified source response ∧
            ∃ failure, response.failure = some failure ∧ Err.Raw failure)))

/-! ## What opening raises and yields -/

theorem openOutcome_unbuilt (error : Err) : openOutcome P client source (.error error) answer = .error error := rfl

theorem openOutcome_built : openOutcome P client source (.ok ()) answer = client.blobStream P source answer := by
  show ((Action.lift (client.blobStream P source answer)).run (answering (.ok ()) answer) ()).1 = _
  cases client.blobStream P source answer <;> rfl

theorem blobStream_error (error : Err) : client.blobStream P source (.error error) =
    if error.kind = .httpError then .error (.of .objectUnavailable "OCI registry request failed")
    else .error error := rfl

/-- What is made of a response from a safe URL. -/
theorem blobStream_safe {response : Response} (hsafe : requireSafeResponseUrl P client.binding response.url = .ok ()) :
    client.blobStream P source (.ok response) =
      if response.status ≠ (if source.range.isSome then 206 else 200) then
        match response.failure with
        | some failure => .error failure
        | none => .error (responseError P ⟨response.status, response.headers, response.chunks.flatten⟩)
      else if (header response.headers "docker-content-digest").getD source.digest ≠ source.digest then
        .error (.of .digestMismatch "registry blob response identified a different digest")
      else
        match source.range with
        | none => .ok ⟨response.chunks, response.failure⟩
        | some (start, finish) =>
          if ("bytes " ++ toString start ++ "-" ++ toString finish ++ "/").toList.isPrefixOf
              ((header response.headers "content-range").getD "").toList then
            .ok ⟨response.chunks, response.failure⟩
          else .error (.of .rangeNotSatisfiable "registry returned an unexpected byte range") := by
  unfold RegistryHttpClient.blobStream
  dsimp only
  rw [hsafe]
  rfl

/-- An accepted response is streamed as it comes. -/
theorem blobStream_ok_iff {response : Response} {stream : Stream}
    (hsafe : requireSafeResponseUrl P client.binding response.url = .ok ()) :
    client.blobStream P source (.ok response) = .ok stream ↔
      response.status = (if source.range.isSome then 206 else 200) ∧ Identified source response ∧
        stream = ⟨response.chunks, response.failure⟩ := by
  rw [blobStream_safe hsafe, Identified]
  by_cases hstatus : response.status = (if source.range.isSome then 206 else 200)
  · rw [if_neg (not_not.mpr hstatus)]
    by_cases hdigest : (header response.headers "docker-content-digest").getD source.digest = source.digest
    · rw [if_neg (not_not.mpr hdigest)]
      cases hrange : source.range with
      | none =>
        rw [hrange] at hstatus
        constructor
        · intro h
          exact ⟨hstatus, ⟨hdigest, fun _ _ h => by cases h⟩, (Except.ok.inj h).symm⟩
        · rintro ⟨-, -, rfl⟩
          rfl
      | some range =>
        obtain ⟨start, finish⟩ := range
        dsimp only
        split
        · rename_i hprefix
          rw [hrange] at hstatus
          constructor
          · intro h
            refine ⟨hstatus, ⟨hdigest, ?_⟩, (Except.ok.inj h).symm⟩
            rintro _ _ ⟨⟩
            exact hprefix
          · rintro ⟨-, -, rfl⟩
            rfl
        · rename_i hprefix
          constructor
          · intro h
            cases h
          · rintro ⟨-, ⟨-, hall⟩, -⟩
            exact absurd (hall start finish rfl) hprefix
    · rw [if_pos hdigest]
      constructor
      · intro h
        cases h
      · rintro ⟨-, ⟨hsame, -⟩, -⟩
        exact absurd hsame hdigest
  · rw [if_pos hstatus]
    constructor
    · intro h
      split at h <;> cases h
    · rintro ⟨hsame, -⟩
      exact absurd hsame hstatus

/-- A response from a safe URL is refused with something raw where its body is at fault. -/
theorem blobStream_raw_iff (hlimits : Platform.LimitsRaw P) {response : Response}
    (hsafe : requireSafeResponseUrl P client.binding response.url = .ok ()) :
    (∃ error, client.blobStream P source (.ok response) = .error error ∧ Err.Raw error) ↔
      response.status ≠ (if source.range.isSome then 206 else 200) ∧
        ((∃ failure, response.failure = some failure ∧ Err.Raw failure) ∨
          (response.failure = none ∧ Overlong P response.chunks.flatten)) := by
  have hmine : ∀ {kind : ErrorKind} {message : String}, kind = .digestMismatch ∨ kind = .rangeNotSatisfiable →
      ¬Err.Raw (.of kind message) := by
    rintro kind message (rfl | rfl) (h | h | h | h) <;> cases h
  rw [blobStream_safe hsafe]
  by_cases hstatus : response.status = (if source.range.isSome then 206 else 200)
  · rw [if_neg (not_not.mpr hstatus)]
    refine iff_of_false ?_ fun h => h.1 hstatus
    rintro ⟨error, h, hraw⟩
    split at h
    · obtain rfl := Except.error.inj h
      exact hmine (.inl rfl) hraw
    split at h
    · cases h
    split at h
    · cases h
    · obtain rfl := Except.error.inj h
      exact hmine (.inr rfl) hraw
  · rw [if_pos hstatus]
    cases hfailure : response.failure with
    | some failure => simp [hstatus]
    | none =>
      have hbody := raw_responseError hlimits ⟨response.status, response.headers, response.chunks.flatten⟩
      simp [hstatus, hbody]

/-! ## The taxonomy -/

/-- Where opening raises, nothing is read. -/
theorem taxonomy_raised {error : Err} (hopened : openOutcome P client source built answer = .error error) :
    Taxonomy P client source built answer ↔ ¬Err.Raw error := by
  constructor
  · intro h
    exact h.opening error hopened
  · intro hhome
    refine ⟨fun raised h => ?_, fun stream h => ?_, fun stream h => ?_⟩
    · obtain rfl := Except.error.inj (hopened.symm.trans h)
      exact hhome
    · cases hopened.symm.trans h
    · cases hopened.symm.trans h

/-- A send that fails is translated if the error is one of `httpx`. -/
theorem taxonomy_unsent (error : Err) :
    Taxonomy P client source (.ok ()) (.error error) ↔ ¬Foreign P client source (.ok ()) (.error error) := by
  have hopened := openOutcome_built.trans (@blobStream_error P client source error)
  by_cases hkind : error.kind = .httpError
  · rw [if_pos hkind] at hopened
    rw [taxonomy_raised hopened]
    refine iff_of_true ?_ fun hforeign => hforeign.1 hkind
    rintro (h | h | h | h) <;> cases h
  · rw [if_neg hkind] at hopened
    rw [taxonomy_raised hopened]
    exact not_congr ⟨fun hraw => ⟨hkind, hraw⟩, And.right⟩

/-- A response from a URL that is refused is not looked at. -/
theorem taxonomy_unsafe {response : Response} {error : Err}
    (hsafe : requireSafeResponseUrl P client.binding response.url = .error error) :
    Taxonomy P client source (.ok ()) (.ok response) ↔ ¬Foreign P client source (.ok ()) (.ok response) := by
  have hopened : openOutcome P client source (.ok ()) (.ok response) = .error error := by
    rw [openOutcome_built]
    unfold RegistryHttpClient.blobStream
    simp only [hsafe, bind, Except.bind]
  have hforeign : Foreign P client source (.ok ()) (.ok response) ↔ Err.Raw error := by
    rw [raw_require hsafe, Foreign, hsafe]
    simp
  rw [taxonomy_raised hopened, hforeign]

/-- A response from a safe URL is refused or streamed. -/
theorem taxonomy_safe (hlimits : Platform.LimitsRaw P) {response : Response}
    (hsafe : requireSafeResponseUrl P client.binding response.url = .ok ()) :
    Taxonomy P client source (.ok ()) (.ok response) ↔ ¬Foreign P client source (.ok ()) (.ok response) := by
  have hreadable := readable_of_require hsafe
  have hrefused := @blobStream_raw_iff P client source hlimits response hsafe
  constructor
  · rintro h (hunreadable | ⟨-, hbody | ⟨hstatus, hidentified, failure, hfailure, hraw⟩⟩)
    · exact hunreadable hreadable
    · obtain ⟨error, hopened, hraw⟩ := hrefused.mpr hbody
      exact h.opening error (openOutcome_built.trans hopened) hraw
    · have hopened := (blobStream_ok_iff hsafe).mpr ⟨hstatus, hidentified, rfl⟩
      exact h.reading _ (openOutcome_built.trans hopened) _ .refl rfl (-1) failure (IteratorReader.read_all rfl hfailure) hraw
  · intro hhome
    have hquiet : ∀ stream, openOutcome P client source (.ok ()) (.ok response) = .ok stream →
        ∀ failure, (IteratorReader.new stream).failure = some failure → ¬Err.Raw failure := by
      intro stream hopened failure hfailure hraw
      obtain ⟨hstatus, hidentified, rfl⟩ := (blobStream_ok_iff hsafe).mp (openOutcome_built.symm.trans hopened)
      exact hhome (.inr ⟨hsafe, .inr ⟨hstatus, hidentified, failure, hfailure, hraw⟩⟩)
    refine ⟨fun error hopened hraw => ?_, fun stream hopened reader hreached hopen size error h => ?_, ?_⟩
    · exact hhome (.inr ⟨hsafe, .inl (hrefused.mp ⟨error, openOutcome_built.symm.trans hopened, hraw⟩)⟩)
    · exact hquiet stream hopened error (hreached.failure (reader.read_raises hopen h))
    · intro stream hopened P' adapter payload σ env s s' trace error drawn _ _ hdrawn hfailure hkind
      exact absurd (.inr (.inr (.inl hkind))) (hquiet stream hopened error (hdrawn.failure rfl hfailure))

/-- The exceptions that are let out are in the taxonomy, and a put starts again after a connection failure of
its source, exactly where nothing foreign comes up. -/
theorem taxonomy_iff (hlimits : Platform.LimitsRaw P) (client : RegistryHttpClient) (source : RegistryBlobSource)
    (built : Except Err Unit) (answer : Except Err Response) :
    Taxonomy P client source built answer ↔ ¬Foreign P client source built answer := by
  cases built with
  | error error => exact taxonomy_raised (openOutcome_unbuilt error)
  | ok _ =>
    cases answer with
    | error error => exact taxonomy_unsent error
    | ok response =>
      cases hsafe : requireSafeResponseUrl P client.binding response.url with
      | error error => exact taxonomy_unsafe hsafe
      | ok _ => exact taxonomy_safe hlimits hsafe

namespace Sample

open MeridianOci.Model.Sample

theorem limitsRaw : Platform.LimitsRaw platform := fun _ _ h => by cases h

def disconnected : Err := { kind := .httpError }

/-- A blob whose connection breaks off behind the first byte. -/
def broken : Response := ⟨200, [], "https://registry/", [[1]], some disconnected⟩

/-- What reads of one byte get of it. -/
def drawn : Stream := ⟨[[1]], some disconnected⟩

theorem drawn_broken : Drawn (.new ⟨[[1]], some disconnected⟩) drawn :=
  .chunk _ 1 _ _ _ rfl (.broken _ 1 _ rfl)

def accepted : Response := ⟨202, [("location", "/1")], "https://registry/", [], none⟩

def removed : Response := ⟨204, [], "https://registry/", [], none⟩

def replayed : PayloadReference := ⟨"a", true, none, none⟩

/-- The upload of that blob: opened, one byte sent, aborted. -/
def cutOff : List (Effect.Exchange Op Op.Res Err) :=
  [⟨.send .startUpload, .ok accepted⟩, ⟨.openPayload replayed 65536, .ok drawn⟩,
    ⟨.send (.patchUpload "/1" 0 0 [1]), .ok accepted⟩, ⟨.send (.deleteUpload "/1"), .ok removed⟩]

theorem traces_cutOff : Traces (fun _ _ _ _ => True) ((Sample.adapter 0).uploadPayload platform replayed) ()
    cutOff (.error disconnected) () := by
  unfold cutOff
  refine .call _ _ _ () _ _ _ _ trivial ?_
  refine .call _ _ _ () _ _ _ _ trivial ?_
  refine .call _ _ _ () _ _ _ _ trivial ?_
  refine .call _ _ _ () _ _ _ _ trivial ?_
  exact .raise _ _

/-- A read lets the connection failure out, and the put of a replayable payload ends with it. -/
theorem stream_untranslated :
    ¬Taxonomy platform (Sample.adapter 0).transport ⟨"sha256:00", none⟩ (.ok ()) (.ok broken) ∧
    ∃ trace error, Traces (fun _ _ _ _ => True) ((Sample.adapter 0).uploadPayload platform replayed) () trace
        (.error error) () ∧ Err.Raw error ∧ opens trace = 1 := by
  refine ⟨?_, cutOff, disconnected, traces_cutOff, .inr (.inr (.inl rfl)), rfl⟩
  intro h
  have htwice := h.replaying ⟨[[1]], some disconnected⟩ (openOutcome_built) platform (Sample.adapter 0) replayed Unit (fun _ _ _ _ => True)
    () () cutOff disconnected drawn rfl traces_cutOff drawn_broken rfl rfl (List.mem_cons_of_mem _ List.mem_cons_self)
  cases htwice

/-- A failure of the send is translated. -/
theorem taxonomy_send :
    Taxonomy platform (Sample.adapter 0).transport ⟨"sha256:00", none⟩ (.ok ()) (.error disconnected) :=
  (taxonomy_iff limitsRaw _ _ _ _).mpr fun h => h.1 rfl

end Sample

end MeridianOci.Service
