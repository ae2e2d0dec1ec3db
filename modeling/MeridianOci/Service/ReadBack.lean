import MeridianOci.Service.Assembly
import MeridianOci.Service.Listing
import MeridianOci.Model.Stream

/-!
# Reading back what was published

The state after a put or a completion that returned, seen through the reading operations.
Every reference to the version resolves to the metadata that was returned, and the streams
that get and range reads register deliver the bytes that were supplied.
-/
namespace MeridianOci.Service

open MeridianOci.Data MeridianOci.Effect MeridianOci.Model

set_option autoImplicit false

variable {P : Platform} {adapter : OciDistributionAdapter}
variable {setting : Setting P adapter.transport.binding}

/-- The bytes that a call publishes: what the payload of a put delivers, or what the parts of a
session have delivered, in the order of their numbers. -/
inductive Supplied (setting : Setting P adapter.transport.binding)
    (history : List (Event Call Err Answer (World setting.policy))) (w : World setting.policy) :
    Call → Bytes → Prop where
  | put (operation : Operation) (value : PutInput) (content : Bytes) : operation.input = .put value →
      payloadSource setting value content → Supplied setting history w (.execute operation) content
  | parts (session : MultipartSession) (parts : List MultipartPart) (reference : Nat) (state : MultipartState)
      (contents : List Bytes) : Live w.memory session.sessionId reference state →
      List.Forall₂ (Contributed setting history session.sessionId) state.parts contents →
      Supplied setting history w (.completeMultipart session parts) contents.flatten

/-- A reference to the object, and to this version if it has a digest. -/
def Names (P : Platform) (adapter : OciDistributionAdapter) (raw : Json) (metadata : ObjectMetadata) : Prop :=
  ∃ reference, adapter.reference P raw false = .ok reference ∧ reference.objectId = metadata.objectRef.objectId ∧
    ∀ digest, reference.digest = some digest → digest = metadata.digest

/-- Whatever opens the source gets a stream that delivers the content, in whatever pieces it is read. -/
def Yields (setting : Setting P adapter.transport.binding) (w : World setting.policy) (source : RegistryBlobSource)
    (content : Bytes) : Prop :=
  ∀ outcome w', Performs setting.env (adapter.transport.openBlob P source) w outcome w' →
    ∃ stream, outcome = .ok stream ∧ ∀ sizes, ∃ results,
      ((IteratorReader.new stream).readEach sizes).1 = .ok results ∧ Faithful content sizes results

/-- A reading operation registered the source under the payload it returned, and did nothing else; the stream of
the source is the content. -/
structure HandsOver (setting : Setting P adapter.transport.binding) (w w' : World setting.policy)
    (payload : PayloadReference) (source : RegistryBlobSource) (content : Bytes) : Prop where
  reads : w.Reads w'
  registered : w'.payloads = (payload.id, source) :: w.payloads
  yields : Yields setting w' source content

/-- What the reading operations make of a version and its content where nothing fails. -/
structure ReadsBack (setting : Setting P adapter.transport.binding) (w : World setting.policy)
    (metadata : ObjectMetadata) (content : Bytes) : Prop where
  stat : ∀ raw, Names P adapter raw metadata → ∀ outcome w',
    Performs setting.env (adapter.stat P raw) w outcome w' → outcome = .ok (.stat metadata)
  get : ∀ raw, Names P adapter raw metadata → ∀ outcome w',
    Performs setting.env (adapter.get P raw) w outcome w' →
    ∃ payload, outcome = .ok (.get metadata payload) ∧ payload.expectedDigest = some metadata.digest ∧
      payload.expectedLength = some metadata.byteLength ∧
      HandsOver setting w w' payload ⟨metadata.digest, none⟩ content
  readRange : ∀ raw range byteRange selected, Names P adapter raw metadata → byteRangeOf P range = .ok byteRange →
    P.resolveRange byteRange content.length = .ok selected →
    selected.start ≤ selected.end → selected.end < content.length →
    selected.length ≤ adapter.binding.maxRangeBytes → ∀ outcome w',
    Performs setting.env (adapter.readRange P raw range) w outcome w' →
    ∃ payload, outcome = .ok (.readRange metadata payload selected) ∧
      HandsOver setting w w' payload ⟨metadata.digest, some (selected.start, selected.end)⟩
        ((content.drop selected.start).take selected.length)
  list : ∀ prefixText steps, prefixText.toList.isPrefixOf metadata.objectRef.objectId.toList = true →
    w.registry.WellNamed → ListWalk setting prefixText none steps none → steps ≠ [] →
    (∀ step ∈ steps, step.world = w) → (∀ step ∈ steps, step.Advances) →
    (steps.flatMap (·.items)).Nodup ∧ metadata ∈ steps.flatMap (·.items)

/-- A version that is both live and the latest one of its object is what every reference to it finds. -/
theorem Names.found {w : World setting.policy} {stored : StoredObject}
    (hlive : stored ∈ (catalogOf w.registry).live)
    (hlatest : stored ∈ (catalogOf w.registry).latest) {raw : Json} (h : Names P adapter raw stored.metadata) :
    ∃ reference resolved, adapter.reference P raw false = .ok reference ∧ Found w.registry reference resolved ∧
      resolved.stored = stored := by
  obtain ⟨reference, hreference, hid, hdigest⟩ := h
  have hsame : ∀ digest, reference.digest = some digest → stored.metadata.digest = digest :=
    fun digest hsome => (hdigest digest hsome).symm
  cases hexact : reference.digest with
  | none =>
    obtain ⟨body, hpublished, htagged⟩ := hlatest
    have hname : nameOf P reference = stored.movingName P := by
      rw [nameOf, hexact, hid]
      rfl
    obtain ⟨resolved, hfound, hstored⟩ := Found.of_published hpublished (hname ▸ htagged) hid.symm hsame
    exact ⟨reference, resolved, hreference, hfound, hstored⟩
  | some digest =>
    obtain ⟨body, hpublished, htagged⟩ := hlive
    have hname : nameOf P reference = stored.exactName P := by
      rw [nameOf, hexact, hid, hdigest digest hexact]
      rfl
    obtain ⟨resolved, hfound, hstored⟩ := Found.of_published hpublished (hname ▸ htagged) hid.symm hsame
    exact ⟨reference, resolved, hreference, hfound, hstored⟩

/-- The source of a blob yields its part of the content. -/
theorem yields_blob (hfaults : ¬setting.faults) {w : World setting.policy} {content : Bytes}
    {source : RegistryBlobSource} (hblob : w.registry.blobs[source.digest]? = some content) (hwithin : WithinBlob source content.length) :
    Yields setting w source (selectedBytes source content) := by
  intro outcome w' hperforms
  have hopened := hperforms.ensures (openBlob_ensures (G := fun _ _ => True) (fun _ => trivial) w source)
  cases outcome with
  | error error => exact absurd hopened.2 (not_or.mpr ⟨hfaults, fun hnot => hnot content hblob hwithin⟩)
  | ok stream =>
    obtain ⟨-, hfault | ⟨hfailure, body, hbody, hflatten⟩⟩ := hopened
    · exact absurd hfault hfaults
    obtain rfl := Option.some.inj (hblob.symm.trans hbody)
    obtain ⟨chunks, failure⟩ := stream
    obtain rfl : failure = none := hfailure
    refine ⟨_, rfl, fun sizes => ?_⟩
    rw [← hflatten]
    exact IteratorReader.reads_faithful chunks sizes

section Version

variable (laws : P.Lawful) {w : World setting.policy} {stored : StoredObject} {content : Bytes}

include laws

/-- The content of a live version is there. -/
theorem Intact.stored_content (hintact : Intact w.registry) (hlive : stored ∈ (catalogOf w.registry).live)
    (hdigest : stored.metadata.digest = sha256Digest P content) :
    w.registry.blobs[stored.metadata.digest]? = some content ∧ stored.metadata.byteLength = content.length := by
  obtain ⟨body, hpublished, htagged⟩ := hlive
  obtain ⟨found, hfound⟩ := Option.isSome_iff_exists.mp (hintact.complete _ _ _ htagged hpublished).payload
  have hsame : found = content :=
    sha256Digest_injective laws ((w.registry.blobs_addressed _ _ hfound).trans hdigest)
  obtain ⟨other, hother, hlength⟩ := hpublished.content
  have hcontent : other = content := sha256Digest_injective laws (hother.symm.trans hdigest)
  rw [hfound, hsame, hlength, hcontent]
  exact ⟨rfl, rfl⟩

/-- Without faults a version that is live and the latest one of its object reads back. -/
theorem readsBack (hfaults : ¬setting.faults) (hintact : Intact w.registry) (hlive : stored ∈ (catalogOf w.registry).live)
    (hlatest : stored ∈ (catalogOf w.registry).latest)
    (hdigest : stored.metadata.digest = sha256Digest P content) :
    ReadsBack setting w stored.metadata content := by
  obtain ⟨hblob, hlength⟩ := hintact.stored_content laws hlive hdigest
  have hresolved : ∀ {raw reference resolved}, Names P adapter raw stored.metadata →
      adapter.reference P raw false = .ok reference → Found w.registry reference resolved →
      resolved.stored = stored := by
    intro raw reference resolved hnames hreference hfound
    obtain ⟨other, expected, hother, hexpected, hstored⟩ := hnames.found hlive hlatest
    obtain rfl := Except.ok.inj (hreference.symm.trans hother)
    rw [hfound.unique laws hexpected, hstored]
  have hunresolved : ∀ {raw}, Names P adapter raw stored.metadata →
      ¬∀ reference, adapter.reference P raw false = .ok reference → Unresolved w reference := by
    intro raw hnames hnone
    obtain ⟨reference, resolved, hreference, hfound, -⟩ := hnames.found hlive hlatest
    exact hnone reference hreference resolved hfound
  constructor
  · intro raw hnames outcome w' hperforms
    have hstat := hperforms.ensures (stat_ensures laws w hintact raw)
    cases outcome with
    | error error => exact absurd hstat.2 (not_or.mpr ⟨hfaults, hunresolved hnames⟩)
    | ok result =>
      obtain ⟨-, reference, resolved, hreference, hfound, rfl⟩ := hstat
      rw [hresolved hnames hreference hfound]
  · intro raw hnames outcome w' hperforms
    have hget := hperforms.ensures (get_ensures laws w hintact raw)
    cases outcome with
    | error error => exact absurd hget.2 (not_or.mpr ⟨hfaults, hunresolved hnames⟩)
    | ok result =>
      obtain ⟨hreads, reference, resolved, payload, hreference, hfound, rfl, hexpected, hsize, hpayloads⟩ := hget
      have hstored := hresolved hnames hreference hfound
      obtain ⟨hpayload, hbytes, -⟩ := hfound.payload
      rw [hstored] at hpayload hbytes
      rw [hpayload] at hexpected hpayloads
      rw [hbytes] at hsize
      refine ⟨payload, by rw [hstored], hexpected, hsize, hreads, hpayloads, ?_⟩
      have hblob' : w'.registry.blobs[stored.metadata.digest]? = some content := by
        rw [hreads.registry]
        exact hblob
      exact @yields_blob _ _ _ hfaults _ _ ⟨stored.metadata.digest, none⟩ hblob' fun start finish h => by cases h
  · intro raw range byteRange selected hnames hrange hselected hordered hinside hshort outcome w' hperforms
    have hread := hperforms.ensures (readRange_ensures laws w hintact raw range)
    cases outcome with
    | error error =>
      obtain ⟨-, hfault | hlong⟩ := hread
      · exact absurd hfault hfaults
      obtain ⟨reference, resolved, hreference, hfound, hstored⟩ := hnames.found hlive hlatest
      have hsize : resolved.payload.size = content.length := by
        rw [hfound.payload.2.1, hstored, hlength]
      have := hlong reference resolved byteRange selected hreference hrange hfound (hsize ▸ hselected)
      omega
    | ok result =>
      obtain ⟨hreads, reference, resolved, other, selected', payload, hreference, hfound, hother, hselected', -, rfl,
        hpayloads⟩ := hread
      have hstored := hresolved hnames hreference hfound
      obtain ⟨hpayload, hbytes, -⟩ := hfound.payload
      rw [hstored] at hpayload hbytes
      obtain rfl := Except.ok.inj (hrange.symm.trans hother)
      rw [hbytes, hlength] at hselected'
      obtain rfl := Except.ok.inj (hselected.symm.trans hselected')
      rw [hpayload] at hpayloads
      refine ⟨payload, by rw [hstored], hreads, hpayloads, ?_⟩
      have hblob' : w'.registry.blobs[stored.metadata.digest]? = some content := by
        rw [hreads.registry]
        exact hblob
      have hyields := @yields_blob _ _ setting hfaults _ _ ⟨stored.metadata.digest, some (selected.start, selected.end)⟩ hblob'
        (by
          intro start finish h
          obtain ⟨rfl, rfl⟩ := Prod.mk.inj (Option.some.inj h)
          exact ⟨hordered, hinside⟩)
      have hlength : selected.end + 1 - selected.start = selected.length := by
        unfold ResolvedRange.length
        omega
      unfold selectedBytes at hyields
      dsimp only at hyields
      rw [hlength] at hyields
      exact hyields
  · intro prefixText steps hprefix hnamed hwalk hne hworld hadvances
    have hnames : ∀ step ∈ steps, step.world.registry.WellNamed := fun step hstep => by
      rw [hworld step hstep]
      exact hnamed
    obtain ⟨-, hintacts, -⟩ := list_complete laws hwalk hnames hadvances
    obtain ⟨hnodup, hall⟩ := hintacts fun step hstep => by
      rw [hworld step hstep]
      exact hintact
    refine ⟨hnodup, hall rfl hne stored (fun step hstep => ?_) hprefix⟩
    rw [hworld step hstep]
    exact hlive

end Version

/-- What a put or a completion returned reads back byte for byte where nothing fails, whatever the run
before it and whatever has failed in it. -/
theorem read_your_writes (laws : P.Lawful) {now : DateTime} {w : World setting.policy}
    {history : List (Event Call Err Answer (World setting.policy))}
    {event : Event Call Err Answer (World setting.policy)} {value : PutInput} {answer : Answer}
    (hrun : Runs setting now ⟨w, .idle, history ++ [event]⟩)
    (hrequest : requestOf event.before.memory event.call = some value) (houtcome : event.outcome = .ok answer) :
    ∃ metadata content, publishedBy answer = some metadata ∧ metadata.objectRef.objectId = value.objectId ∧
      Supplied setting history event.before event.call content ∧
      metadata.digest = sha256Digest P content ∧ metadata.byteLength = content.length ∧
      ReadsBack setting.faultless w metadata content := by
  obtain ⟨last, hlog, hlast⟩ := hrun.log laws
  obtain rfl := hlast rfl
  obtain ⟨-, hdone, hafter⟩ := hlog.of_snoc
  have hintact : Intact last.registry := hrun.intact laws
  have heffected := hdone.effected
  rw [houtcome] at heffected
  obtain ⟨content, immutability, retention, metadata, hsource, hsucceeded, hanswer⟩ := heffected.succeeded hrequest
  obtain ⟨stored, rfl, hid, hdigest, hadvances⟩ := hsucceeded.advances laws hdone.intact
  rw [← hafter] at hadvances
  have hlive : stored ∈ (catalogOf last.registry).live := hadvances.live.mpr (.inl rfl)
  have hlatest : stored ∈ (catalogOf last.registry).latest := hadvances.latest.mpr (.inl rfl)
  have hbefore : Runs setting now ⟨event.before, .idle, history⟩ := hrun.before rfl
  refine ⟨stored.metadata, content, hanswer, hid, ?_, hdigest, (hintact.stored_content laws hlive hdigest).2,
    @readsBack _ _ setting.faultless laws _ _ _ id hintact hlive hlatest hdigest⟩
  -- a put has its payload, a completion the parts of its session
  obtain ⟨call, outcome, before, after⟩ := event
  cases call with
  | execute operation =>
    cases hinput : operation.input with
    | put other =>
      simp only [sourceOf, hinput] at hsource
      exact .put operation other content hinput hsource
    | _ =>
      simp only [sourceOf, hinput] at hsource
  | completeMultipart session parts =>
    obtain ⟨reference, state, hstate, rfl⟩ := hsource
    obtain ⟨hsessions, -⟩ := sessions_assembled laws hbefore
    obtain ⟨contents, hassembled, hcontributed⟩ := hsessions _ _ _ hstate
    rw [hassembled.hashed]
    exact .parts session parts reference state contents hstate hcontributed
  | beginMultipart operation => exact hsource.elim
  | uploadPart session partNumber payload => exact hsource.elim
  | abortMultipart session => exact hsource.elim

namespace Sample

/-- After a put that failed, the same put reads back. -/
theorem read_your_writes_again : ∃ limit error w₁ w₂, ∃ content : Bytes,
    Runs (Sample.setting limit True) (.aware 0) ⟨w₂, .idle,
      [⟨.execute firstPut.operation, .error error, World.empty _ (.aware 0), w₁⟩,
        ⟨.execute firstPut.operation, .ok (.result (.put firstPut.stored.metadata)), w₁, w₂⟩]⟩ ∧
    firstPut.stored.metadata.digest = sha256Digest Model.Sample.platform content ∧
    ReadsBack (Sample.setting limit True).faultless w₂ firstPut.stored.metadata content := by
  obtain ⟨limit, hfits⟩ := firstPut.exists_fits (by decide)
  have hnew : ∀ other ∈ (catalogOf (World.empty (Sample.setting limit True).policy (.aware 0)).registry).live,
      other.metadata.digest ≠ sha256Digest Model.Sample.platform firstPut.content := by
    rw [catalogOf_empty]
    exact fun other h => h.elim
  obtain ⟨w₁, error, hdown, hsame⟩ := @run_down limit firstPut hfits.content (.aware 0) _ [] .refl hnew
  obtain ⟨w₂, hrun, -⟩ := run_new hfits hdown (fun h => by cases h) (hsame ▸ hnew)
  obtain ⟨metadata, content, hanswer, -, -, hdigest, -, hreads⟩ :=
    @read_your_writes _ _ _ Model.Sample.lawful _ _ _ _ firstPut.input _ hrun rfl rfl
  obtain rfl := Option.some.inj hanswer
  exact ⟨limit, error, w₁, w₂, content, hrun, hdigest, hreads⟩

end Sample

end MeridianOci.Service
