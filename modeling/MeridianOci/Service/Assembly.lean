import Mathlib.Data.List.Forall2
import MeridianOci.Service.Apart
import MeridianOci.Service.Performed
import MeridianOci.Service.Sample

/-!
# The parts of a session

A live session is the list of the contents its parts delivered: its counters, its hash and
its upload all say the same about that list. A part that is acknowledged is one more
content, and a part that fails on the way closes the session.
-/
namespace MeridianOci.Service

open MeridianOci.Data MeridianOci.Effect MeridianOci.Model

set_option autoImplicit false

variable {P : Platform} {adapter : OciDistributionAdapter}
variable {setting : Setting P adapter.transport.binding}

/-! ## A session as a list of contents -/

/-- The session object and its upload represent the contents of the parts, in order. -/
structure Assembled (adapter : OciDistributionAdapter) {policy : Policy P adapter.transport.binding}
    (registry : Registry policy) (state : MultipartState) (contents : List Bytes) : Prop where
  numbers : state.parts.map (·.partNumber) = List.range' 1 contents.length
  identities : state.parts.map (·.identity) = contents.map (identityOf P)
  nonempty : ∀ content ∈ contents, content ≠ []
  nextPart : state.nextPart = contents.length + 1
  count : contents.length ≤ adapter.binding.maxMultipartParts
  length : state.length = (contents.map List.length).sum
  offset : state.upload.offset = state.length
  size : state.length ≤ adapter.binding.maxObjectBytes
  hashed : state.hashed = contents.flatten
  received : registry.uploads[state.upload.url]? = some contents.flatten

namespace Assembled

variable {policy : Policy P adapter.transport.binding} {registry registry' : Registry policy}
variable {state : MultipartState} {contents : List Bytes}

/-- A new session has no content. -/
theorem start {value : PutInput} {upload : UploadLocation} {machine : PutState} (hoffset : upload.offset = 0)
    (hreceived : registry.uploads[upload.url]? = some []) :
    Assembled adapter registry (.start value upload machine) [] := by
  constructor
  · rfl
  · rfl
  · intro content hcontent
    cases hcontent
  · rfl
  · exact Nat.zero_le _
  · rfl
  · exact hoffset
  · exact Nat.zero_le _
  · rfl
  · exact hreceived

theorem elsewhere (h : Assembled adapter registry state contents)
    (huploads : registry'.uploads[state.upload.url]? = some contents.flatten) : Assembled adapter registry' state contents :=
  { h with received := huploads }

theorem length_received (h : Assembled adapter registry state contents) :
    contents.flatten.length = state.upload.offset := by
  rw [h.offset, h.length, List.length_flatten]

/-- A part that is appended and acknowledged is one more content. -/
theorem append {reference : Nat} {w w₁ : World setting.policy} {state₁ : MultipartState} {bytes : Bytes}
    {part : MultipartPart} (h : Assembled adapter w.registry state contents)
    (happended : Appended reference state bytes w w₁ state₁) (hne : bytes ≠ []) (hnumber : part.partNumber = state.nextPart)
    (hcount : part.partNumber ≤ adapter.binding.maxMultipartParts) (hidentity : part.identity = identityOf P bytes)
    (hsize : state.length + bytes.length ≤ adapter.binding.maxObjectBytes) :
    Assembled adapter w₁.registry (state₁.acknowledge part) (contents ++ [bytes]) := by
  have hlast : part.identity.byteLength = bytes.length := by rw [hidentity, identityOf]
  have huploads := happended.uploads _ h.received h.length_received
  have hnext := h.nextPart
  have hflatten : (contents ++ [bytes]).flatten = contents.flatten ++ bytes := by simp
  have hkept := happended.result
  have hparts : state₁.parts = state.parts := by rw [hkept]
  have hlength : state₁.length = state.length := by rw [hkept]
  have hhashed : state₁.hashed = state.hashed ++ bytes := by rw [hkept]
  have hnextPart : state₁.nextPart = state.nextPart := by rw [hkept]
  constructor
  · simp only [MultipartState.acknowledge, hparts, List.map_append, List.map_cons, List.map_nil, h.numbers,
      List.length_append, List.length_singleton, List.range'_concat, hnumber, hnext]
    simp [Nat.add_comm]
  · simp only [MultipartState.acknowledge, hparts, List.map_append, List.map_cons, List.map_nil, h.identities, hidentity]
  · intro content hcontent
    rcases List.mem_append.mp hcontent with hold | hnew
    · exact h.nonempty content hold
    · rw [List.mem_singleton.mp hnew]
      exact hne
  · simp only [MultipartState.acknowledge, hnextPart, hnext, List.length_append, List.length_singleton]
  · rw [List.length_append, List.length_singleton, ← hnext, ← hnumber]
    exact hcount
  · simp only [MultipartState.acknowledge, hlength, hlast, h.length, List.map_append, List.map_cons, List.map_nil,
      List.sum_append, List.sum_singleton]
  · simp only [MultipartState.acknowledge, hlength, hlast, happended.offset, h.offset]
  · simp only [MultipartState.acknowledge, hlength, hlast]
    exact hsize
  · rw [hflatten]
    simp only [MultipartState.acknowledge, hhashed, h.hashed]
  · show w₁.registry.uploads[state₁.upload.url]? = _
    rw [happended.url, huploads, Table.get?_insert, if_pos rfl, hflatten]

end Assembled

/-! ## Runs -/

/-- A call on the session returned the part after its payload delivered the content. -/
def Contributed (setting : Setting P adapter.transport.binding)
    (history : List (Event Call Err Answer (World setting.policy))) (sessionId : String) (part : MultipartPart)
    (content : Bytes) : Prop :=
  ∃ event ∈ history, ∃ session payload, event.call = .uploadPart session part.partNumber payload ∧
    session.sessionId = sessionId ∧ event.outcome = .ok (.part part) ∧ PartContent setting session payload content

/-- A begin that returned the session. -/
def Starts (sessionId : String) (event : Event Call Err Answer (World setting.policy)) : Prop :=
  ∃ session, event.outcome = .ok (.session session) ∧ session.sessionId = sessionId

/-- A part that its session took, and that raised. -/
def PartFailed (sessionId : String) (event : Event Call Err Answer (World setting.policy)) : Prop :=
  ∃ session partNumber payload error, event.call = .uploadPart session partNumber payload ∧
    session.sessionId = sessionId ∧ event.outcome = .error error ∧
    Takes adapter event.before.memory session partNumber

/-- A part that raised before anything of it was transferred. -/
def PartRefused (event : Event Call Err Answer (World setting.policy)) : Prop :=
  ∃ session partNumber payload error, event.call = .uploadPart session partNumber payload ∧
    event.outcome = .error error ∧ ¬Takes adapter event.before.memory session partNumber

/-- Every live session is assembled, and no two have one upload. -/
structure Sessions (setting : Setting P adapter.transport.binding) (w : World setting.policy)
    (history : List (Event Call Err Answer (World setting.policy))) : Prop where
  live : ∀ sessionId reference state, Live w.memory sessionId reference state →
    ∃ contents, Assembled adapter w.registry state contents ∧
      List.Forall₂ (Contributed setting history sessionId) state.parts contents
  separate : ∀ sessionId reference state other reference' state', Live w.memory sessionId reference state →
    Live w.memory other reference' state' → state.upload.url = state'.upload.url → sessionId = other

/-- What holds between two calls. -/
structure Assembly (setting : Setting P adapter.transport.binding) (w : World setting.policy)
    (history : List (Event Call Err Answer (World setting.policy))) : Prop where
  sessions : Sessions setting w history
  failed : ∀ sessionId, Since (PartFailed sessionId) (fun event => ¬Starts sessionId event) history →
    w.memory.lookup sessionId = none
  refused : ∀ event ∈ history, PartRefused event → event.after = event.before

theorem Contributed.snoc {history : List (Event Call Err Answer (World setting.policy))} {sessionId : String}
    {part : MultipartPart} {content : Bytes} (h : Contributed setting history sessionId part content)
    (event : Event Call Err Answer (World setting.policy)) :
    Contributed setting (history ++ [event]) sessionId part content := by
  obtain ⟨earlier, hearlier, hrest⟩ := h
  exact ⟨earlier, List.mem_append_left _ hearlier, hrest⟩

theorem Assembly.empty (now : DateTime) : Assembly setting (World.empty setting.policy now) [] := by
  have hnone : ∀ sessionId reference state, ¬Live (World.empty setting.policy now).memory sessionId reference state := by
    intro sessionId reference state hlive
    have hentry := hlive.entry
    cases hentry
  refine ⟨⟨?_, ?_⟩, ?_, ?_⟩
  · exact fun sessionId reference state hlive => absurd hlive (hnone _ _ _)
  · exact fun sessionId reference state other reference' state' hlive => absurd hlive (hnone _ _ _)
  · exact fun sessionId hsince => absurd hsince not_since_nil
  · intro event hevent
    cases hevent

/-- A call that changed nothing. -/
theorem Sessions.snoc {w : World setting.policy} {history : List (Event Call Err Answer (World setting.policy))}
    (h : Sessions setting w history) (event : Event Call Err Answer (World setting.policy)) :
    Sessions setting w (history ++ [event]) where
  live sessionId reference state hlive := by
    obtain ⟨contents, hassembled, hparts⟩ := h.live _ _ _ hlive
    exact ⟨contents, hassembled, hparts.imp fun _ _ hpart => hpart.snoc event⟩
  separate := h.separate

namespace Sessions

variable {w w' : World setting.policy} {history : List (Event Call Err Answer (World setting.policy))}
variable (h : Sessions setting w history) (laws : P.Lawful) {call : Call} {outcome : Except Err Answer}
variable (hperforms : Performs setting.env (call.program P adapter) w outcome w')

include h laws hperforms

/-- A session that a call is not about stays as it is. -/
theorem other {sessionId : String} {reference : Nat} {state : MultipartState}
    (hlive : Live w.memory sessionId reference state)
    (hother : ∀ session, call.session? = some session → session.sessionId ≠ sessionId) :
    ∃ contents, Assembled adapter w'.registry state contents ∧
      List.Forall₂ (Contributed setting (history ++ [⟨call, outcome, w, w'⟩]) sessionId) state.parts contents := by
  obtain ⟨contents, hassembled, hparts⟩ := h.live _ _ _ hlive
  refine ⟨contents, hassembled.elsewhere ?_, hparts.imp fun _ _ hpart => hpart.snoc _⟩
  refine hperforms.ensures (call_apart laws call hassembled.received ?_)
  intro session hsession reference' state' hlive' heq
  exact hother session hsession (h.separate _ _ _ _ _ _ hlive' hlive heq)

/-- A call after which the live sessions are some of those before. -/
theorem shrink (hlive : ∀ sessionId reference state, Live w'.memory sessionId reference state →
      Live w.memory sessionId reference state ∧ ∀ session, call.session? = some session → session.sessionId ≠ sessionId) :
    Sessions setting w' (history ++ [⟨call, outcome, w, w'⟩]) where
  live sessionId reference state hafter := by
    obtain ⟨hbefore, hother⟩ := hlive _ _ _ hafter
    exact h.other laws hperforms hbefore hother
  separate sessionId reference state other reference' state' h₁ h₂ :=
    h.separate _ _ _ _ _ _ (hlive _ _ _ h₁).1 (hlive _ _ _ h₂).1

theorem closed (hsound : SoundMemory w.memory) {session : MultipartSession} (hsession : call.session? = some session)
    (hclosed : Closed session.sessionId w.memory w'.memory) :
    Sessions setting w' (history ++ [⟨call, outcome, w, w'⟩]) := by
  refine h.shrink laws hperforms fun sessionId reference state hafter => ?_
  obtain ⟨hne, hbefore⟩ := live_of_closed hsound hclosed hafter
  refine ⟨hbefore, fun other hother => ?_⟩
  obtain rfl := Option.some.inj (hsession.symm.trans hother)
  exact hne.symm

theorem kept (hsession : call.session? = none) (hmemory : w'.memory = w.memory) :
    Sessions setting w' (history ++ [⟨call, outcome, w, w'⟩]) := by
  refine h.shrink laws hperforms fun sessionId reference state hafter => ⟨hmemory ▸ hafter, fun other hother => ?_⟩
  rw [hsession] at hother
  cases hother

/-- A session that is begun has a new upload. -/
theorem begun (hsound : SoundMemory w.memory) (hsession : call.session? = none) {sessionId : String} {value : PutInput}
    {upload : UploadLocation} {machine : PutState} (hmemory : w'.memory = w.memory.insert sessionId (.start value upload machine))
    (hurl : upload.url = setting.policy.uploadUrl w.registry.issued) (hoffset : upload.offset = 0)
    (hregistry : w'.registry = w.registry.openUpload) : Sessions setting w' (history ++ [⟨call, outcome, w, w'⟩]) := by
  have hother : ∀ other, ∀ session, call.session? = some session → session.sessionId ≠ other := by
    intro other session hsome
    rw [hsession] at hsome
    cases hsome
  have hfresh : ∀ other reference state, Live w.memory other reference state → state.upload.url ≠ upload.url := by
    intro other reference state hlive heq
    obtain ⟨contents, hassembled, -⟩ := h.live _ _ _ hlive
    have hreceived := hassembled.received
    rw [heq, hurl, w.registry.uploads_fresh] at hreceived
    cases hreceived
  have hcases : ∀ {other reference state}, Live w'.memory other reference state →
      (other = sessionId ∧ state = .start value upload machine) ∨
        (other ≠ sessionId ∧ Live w.memory other reference state) := by
    intro other reference state hlive
    rw [hmemory] at hlive
    exact live_of_insert hsound hlive
  constructor
  · intro other reference state hlive
    rcases hcases hlive with ⟨-, rfl⟩ | ⟨-, hbefore⟩
    · refine ⟨[], .start hoffset ?_, .nil⟩
      rw [hregistry, Registry.openUpload, Table.get?_insert, if_pos hurl.symm]
    · exact h.other laws hperforms hbefore (hother other)
  · intro first reference state second reference' state' hlive hlive' heq
    rcases hcases hlive with ⟨hfirst, rfl⟩ | ⟨-, hbefore⟩ <;> rcases hcases hlive' with ⟨hsecond, rfl⟩ | ⟨-, hbefore'⟩
    · rw [hfirst, hsecond]
    · exact absurd heq.symm (hfresh _ _ _ hbefore')
    · exact absurd heq (hfresh _ _ _ hbefore)
    · exact h.separate _ _ _ _ _ _ hbefore hbefore' heq

end Sessions

section Part

variable {w w₁ w' : World setting.policy} {history : List (Event Call Err Answer (World setting.policy))}
variable (h : Sessions setting w history) (laws : P.Lawful) (hsound : SoundMemory w.memory)
variable {session : MultipartSession} {payload : PayloadReference} {part : MultipartPart} {reference : Nat}
variable {state state₁ : MultipartState} {bytes : Bytes}

include h laws hsound

/-- An acknowledged part adds its content to its session. -/
theorem Sessions.acknowledged
    (hperforms : Performs setting.env ((Call.uploadPart session part.partNumber payload).program P adapter) w
      (.ok (.part part)) w')
    (hlive : Live w.memory session.sessionId reference state) (hnumber : part.partNumber = state.nextPart)
    (hcontent : PartContent setting session payload bytes) (hne : bytes ≠ []) (hidentity : part.identity = identityOf P bytes)
    (hcount : part.partNumber ≤ adapter.binding.maxMultipartParts)
    (hsize : state.length + bytes.length ≤ adapter.binding.maxObjectBytes)
    (happended : Appended reference state bytes w w₁ state₁)
    (hw' : w' = { w₁ with memory := w.memory.modify reference fun _ => state₁.acknowledge part }) :
    Sessions setting w'
      (history ++ [⟨.uploadPart session part.partNumber payload, .ok (.part part), w, w'⟩]) := by
  have hmemory : w'.memory = w.memory.modify reference fun _ => state₁.acknowledge part := by rw [hw']
  have hregistry : w'.registry = w₁.registry := by rw [hw']
  have hcases : ∀ {other reference' state'}, Live w'.memory other reference' state' →
      (other = session.sessionId ∧ state' = state₁.acknowledge part) ∨
        (other ≠ session.sessionId ∧ Live w.memory other reference' state') := by
    intro other reference' state' hafter
    rw [hmemory] at hafter
    exact live_of_modify hsound hlive hafter
  have hurl : (state₁.acknowledge part).upload.url = state.upload.url := happended.url
  constructor
  · intro other reference' state' hafter
    rcases hcases hafter with ⟨rfl, rfl⟩ | ⟨hne', hbefore⟩
    · obtain ⟨contents, hassembled, hparts⟩ := h.live _ _ _ hlive
      refine ⟨contents ++ [bytes], ?_, ?_⟩
      · rw [hregistry]
        exact hassembled.append happended hne hnumber hcount hidentity hsize
      · have hkept : state₁.parts = state.parts := by rw [happended.result]
        have hlast : Contributed setting (history ++ [⟨.uploadPart session part.partNumber payload, .ok (.part part), w, w'⟩])
            session.sessionId part bytes :=
          ⟨_, List.mem_append_right _ List.mem_cons_self, session, payload, rfl, rfl, rfl, hcontent⟩
        rw [MultipartState.acknowledge, hkept]
        exact List.rel_append (hparts.imp fun _ _ hpart => hpart.snoc _) (.cons hlast .nil)
    · refine h.other laws hperforms hbefore ?_
      rintro _ ⟨⟩
      exact hne'.symm
  · intro first reference' state' second reference'' state'' hfirst hsecond heq
    rcases hcases hfirst with ⟨rfl, rfl⟩ | ⟨-, hbefore⟩ <;> rcases hcases hsecond with ⟨rfl, rfl⟩ | ⟨-, hbefore'⟩
    · rfl
    · exact h.separate _ _ _ _ _ _ hlive hbefore' (hurl.symm.trans heq)
    · exact h.separate _ _ _ _ _ _ hbefore hlive (heq.trans hurl)
    · exact h.separate _ _ _ _ _ _ hbefore hbefore' heq

end Part

section Run

variable (laws : P.Lawful) {w : World setting.policy} {history : List (Event Call Err Answer (World setting.policy))}

include laws

/-- Every call keeps the sessions assembled. -/
theorem Assembly.call (hintact : Intact w.registry) (hsound : SoundMemory w.memory) (h : Assembly setting w history)
    (call : Call) {outcome : Except Err Answer} {w' : World setting.policy}
    (hperforms : Performs setting.env (call.program P adapter) w outcome w') :
    Assembly setting w' (history ++ [⟨call, outcome, w, w'⟩]) := by
  have hlookup := hperforms.ensures (call_lookup_ensures laws w hintact hsound call)
  -- what a call says of the sessions, and of a part that raised
  have hcall : Sessions setting w' (history ++ [⟨call, outcome, w, w'⟩]) ∧
      (∀ sessionId, PartFailed sessionId ⟨call, outcome, w, w'⟩ → w'.memory.lookup sessionId = none) ∧
      (PartRefused ⟨call, outcome, w, w'⟩ → w' = w) := by
    cases call with
    | execute operation =>
      obtain ⟨inner, hinner, -⟩ := hperforms.of_wrap
      obtain ⟨hmemory, -⟩ := hinner.ensures (execute_ensures laws w hintact hsound operation)
      refine ⟨h.sessions.kept laws hperforms rfl hmemory, ?_, ?_⟩
      · rintro sessionId ⟨session, partNumber, payload, error, ⟨⟩, -⟩
      · rintro ⟨session, partNumber, payload, error, ⟨⟩, -⟩
    | beginMultipart operation =>
      obtain ⟨inner, hinner, rfl⟩ := hperforms.of_wrap
      have hbegin := hinner.ensures (beginMultipart_ensures laws w operation)
      refine ⟨?_, ?_, ?_⟩
      · cases inner with
        | ok session =>
          obtain ⟨-, value, immutability, upload, -, -, -, -, hmemory, hurl, hoffset, hregistry⟩ := hbegin
          exact h.sessions.begun laws hperforms hsound rfl hmemory hurl hoffset hregistry
        | error error => exact h.sessions.kept laws hperforms rfl hbegin.2
      · rintro sessionId ⟨session, partNumber, payload, error, ⟨⟩, -⟩
      · rintro ⟨session, partNumber, payload, error, ⟨⟩, -⟩
    | uploadPart session partNumber payload =>
      obtain ⟨inner, hinner, rfl⟩ := hperforms.of_wrap
      have hpart := hinner.ensures (uploadPart_ensures laws w session partNumber payload)
      cases inner with
      | ok part =>
        obtain ⟨reference, state, bytes, w₁, state₁, hlive, -, hnumber, hcontent, hne, rfl, hidentity, hcount, hsize,
          happended, hw'⟩ := hpart
        refine ⟨h.sessions.acknowledged laws hsound hperforms hlive hnumber hcontent hne hidentity hcount hsize happended
          hw', ?_, ?_⟩
        · rintro sessionId ⟨_, _, _, error, -, -, ⟨⟩, -⟩
        · rintro ⟨_, _, _, error, -, ⟨⟩, -⟩
      | error error =>
        rcases hpart with ⟨hnot, rfl⟩ | ⟨htakes, habandoned⟩
        · refine ⟨h.sessions.snoc _, ?_, fun _ => rfl⟩
          rintro sessionId ⟨_, _, _, _, ⟨⟩, -, -, htakes⟩
          exact absurd htakes hnot
        · refine ⟨h.sessions.closed laws hperforms hsound rfl habandoned.memory, ?_, ?_⟩
          · rintro sessionId ⟨_, _, _, _, ⟨⟩, rfl, -, -⟩
            rw [habandoned.memory.lookup, if_pos rfl]
          · rintro ⟨_, _, _, _, ⟨⟩, -, hnot⟩
            exact absurd htakes hnot
    | completeMultipart session parts =>
      obtain ⟨inner, hinner, rfl⟩ := hperforms.of_wrap
      obtain ⟨-, hcomplete⟩ := hinner.ensures (completeMultipart_ensures laws w hintact hsound session parts)
      refine ⟨?_, ?_, ?_⟩
      · cases inner with
        | ok metadata =>
          obtain ⟨reference, state, immutability, retention, -, -, -, -, -, -, hclosed⟩ := hcomplete
          exact h.sessions.closed laws hperforms hsound rfl hclosed
        | error error =>
          rcases hcomplete with rfl | ⟨reference, state, -, -, hclosed, -⟩
          · exact h.sessions.snoc _
          · exact h.sessions.closed laws hperforms hsound rfl hclosed
      · rintro sessionId ⟨session, partNumber, payload, error, ⟨⟩, -⟩
      · rintro ⟨session, partNumber, payload, error, ⟨⟩, -⟩
    | abortMultipart session =>
      obtain ⟨inner, hinner, -⟩ := hperforms.of_wrap
      have habandoned := hinner.ensures (abortMultipart_ensures laws w session)
      refine ⟨h.sessions.closed laws hperforms hsound rfl habandoned.memory, ?_, ?_⟩
      · rintro sessionId ⟨session, partNumber, payload, error, ⟨⟩, -⟩
      · rintro ⟨session, partNumber, payload, error, ⟨⟩, -⟩
  obtain ⟨hsessions, hfailed, hrefused⟩ := hcall
  refine ⟨hsessions, fun sessionId hsince => ?_, fun event hevent hpart => ?_⟩
  · rcases since_snoc.mp hsince with hlast | ⟨hkeep, hbefore⟩
    · exact hfailed sessionId hlast
    · rcases hlookup sessionId (h.failed sessionId hbefore) with hnone | hstarts
      · exact hnone
      · exact absurd hstarts hkeep
  · rcases List.mem_append.mp hevent with hold | hlast
    · exact h.refused event hold hpart
    · obtain rfl := List.mem_singleton.mp hlast
      exact hrefused hpart

/-- Between two calls of a run every live session is the list of contents that its parts delivered. A part
that failed on the way has closed its session, and a part that was refused has changed nothing. -/
theorem sessions_assembled {now : DateTime} (h : Runs setting now ⟨w, .idle, history⟩) :
    (∀ sessionId reference state, Live w.memory sessionId reference state → ∃ contents,
      Assembled adapter w.registry state contents ∧
        List.Forall₂ (Contributed setting history sessionId) state.parts contents) ∧
    (∀ sessionId, Since (PartFailed sessionId) (fun event => ¬Starts sessionId event) history →
      ∀ reference state, ¬Live w.memory sessionId reference state) ∧
    ∀ event ∈ history, PartRefused event → event.after = event.before := by
  have hholds : Config.Holds setting.env World.Change
      (fun w history => Intact w.registry ∧ SoundMemory w.memory ∧ Assembly setting w history) ⟨w, .idle, history⟩ := by
    refine Reachable.holds ⟨intact_empty, .empty, .empty now⟩ ?_ h
    rintro w history call ⟨hintact, hsound, hassembly⟩
    have hwhole := ((call_ensures laws w hintact hsound call).invariant
      (fun _ _ hs hmove => Move.intact laws hmove hs) hintact).and
        (Prog.ensures_of_performs fun outcome w' hperforms => hassembly.call laws hintact hsound call hperforms)
    refine hwhole.weaken (fun _ _ _ _ h => h) (fun _ _ hg => hg.1.1) ?_
    rintro outcome w' ⟨⟨⟨hsound', -⟩, hintact'⟩, hassembly'⟩
    exact ⟨hintact', hsound', hassembly'⟩
  obtain ⟨-, -, hassembly⟩ := hholds
  refine ⟨hassembly.sessions.live, fun sessionId hsince reference state hlive => ?_, hassembly.refused⟩
  have hnone := hassembly.failed sessionId hsince
  rw [hlive.entry] at hnone
  cases hnone

end Run

namespace Sample
open MeridianOci.Model.Sample

def firstPut : Plain := { objectId := "a", text := "x" }

theorem performs_startUpload (w : World (Sample.setting 0 False).policy) : ∃ upload,
    Performs (Sample.setting 0 False).env ((Sample.adapter 0).transport.startUpload platform) w (.ok upload) (w.apply .startUpload) := by
  obtain ⟨outcome, w', hperforms⟩ := (responsive 0 False).performs ((Sample.adapter 0).transport.startUpload platform) w
  have hstart := hperforms.ensures (startUpload_ensures lawful quiet_true w)
  cases outcome with
  | error error => exact hstart.2.elim
  | ok upload =>
    obtain ⟨rfl, -⟩ := hstart
    exact ⟨upload, hperforms⟩

/-- A text as a payload. -/
def textual (text : List Char) : PayloadReference := ⟨String.ofList text, true, none, none⟩

theorem contentOf_textual (text : List Char) : contentOf (textual text) = utf8 text := by
  rw [contentOf, textual, String.toList_ofList]

/-- A text that fits into a part comes in one chunk. -/
theorem chunked_textual {limit : Nat} {session : MultipartSession} {text : List Char} (hne : utf8 text ≠ [])
    (hshort : (utf8 text).length ≤ session.partSize) :
    Chunked (Sample.setting limit False) session (textual text) (utf8 text) := by
  have hchunks : chunksOf (contentOf (textual text)) = [utf8 text] := by
    rw [contentOf_textual, chunksOf, if_neg hne]
  refine ⟨congrArg (fun chunks => Except.ok (⟨chunks, none⟩ : Model.Stream)) hchunks.symm, ?_, hne, hshort,
    by simp [verifyIdentity, textual]⟩
  rintro bytes ⟨stream, hstream, -, rfl⟩
  obtain rfl := Except.ok.inj (show Except.ok stream = _ from hstream)
  rw [hchunks]
  simp

def firstHandle : MultipartSession :=
  ⟨"u0", (Sample.adapter 0).objectReferenceOf firstPut.input, (binding 0).chunkSize,
    platform.timestamp (0 + 3600 * 1000000)⟩

/-- A session is begun in an empty repository. -/
theorem performs_first : ∃ upload w', Performs (Sample.setting 0 False).env
    ((Call.beginMultipart firstPut.operation).program platform (Sample.adapter 0)) (World.empty _ (.aware 0))
    (.ok (.session firstHandle)) w' ∧
      w'.memory = Memory.insert ⟨[], []⟩ "u0" (.start firstPut.input upload .uploading) := by
  obtain ⟨upload, hstart⟩ := performs_startUpload (World.empty _ (.aware 0))
  let opened := (World.empty (Sample.setting 0 False).policy (.aware 0)).apply .startUpload
  let entered : World (Sample.setting 0 False).policy :=
    { opened with now := .aware 0, memory := opened.memory.insert "u0" (.start firstPut.input upload .uploading) }
  refine ⟨upload, entered, ?_, rfl⟩
  refine .call _ _ _ _ _ (.ok ()) _ ⟨rfl, rfl⟩ ?_
  refine Performs.bind (?_ : Performs _ _ _ (.ok firstHandle) entered) (.ret _ _)
  refine Performs.bind (?_ : Performs _ _ _ (.ok upload) opened) ?_
  · refine Performs.handle (.ret _ _) ?_
    refine Performs.handle (Performs.bind (.ret _ _) hstart) ?_
    exact .call _ _ _ opened _ (.ok ()) _ ⟨rfl, rfl⟩ (.ret _ _)
  · refine .call _ _ _ opened _ (.ok "0") _ ⟨.inl ⟨"0", rfl⟩, rfl⟩ ?_
    refine .call _ _ _ { opened with now := .aware 0 } _ (.ok (.aware 0)) _ (.inl ⟨.aware 0, rfl, rfl, rfl⟩) ?_
    refine .call _ _ _ entered _ (.ok opened.memory) _ ⟨rfl, rfl⟩ ?_
    exact .ret _ _

/-- A session is begun, takes its first part, and refuses a part out of order. -/
theorem run_refused : ∃ (w₁ w₂ : World (Sample.setting 0 False).policy) (part : MultipartPart) (error : Err)
    (reference : Nat) (state : MultipartState),
    Runs (Sample.setting 0 False) (.aware 0) ⟨w₂, .idle,
      [⟨.beginMultipart firstPut.operation, .ok (.session firstHandle), World.empty _ (.aware 0), w₁⟩,
        ⟨.uploadPart firstHandle 1 (textual ['x']), .ok (.part part), w₁, w₂⟩,
        ⟨.uploadPart firstHandle 3 (textual ['y']), .error error, w₂, w₂⟩]⟩ ∧
      Live w₂.memory firstHandle.sessionId reference state ∧ state.parts = [part] ∧ state.hashed = utf8 ['x'] := by
  obtain ⟨upload, w₁, hbegin, hmemory⟩ := performs_first
  have hrun₁ := Reachable.performs .refl hbegin
  have hlive : Live w₁.memory firstHandle.sessionId 0 (.start firstPut.input upload .uploading) := by
    rw [hmemory]
    exact live_insert ⟨[], []⟩ "u0" _
  obtain ⟨contents, hassembled, -⟩ := (sessions_assembled lawful hrun₁).1 _ _ _ hlive
  obtain rfl : contents = [] := List.map_eq_nil_iff.mp hassembled.identities.symm
  have hchunk : Chunked (Sample.setting 0 False) firstHandle (textual ['x']) (utf8 ['x']) :=
    chunked_textual (by decide) (by decide)
  obtain ⟨part, w₂, hpart⟩ := @uploadPart_performs _ (Sample.adapter 0) (Sample.setting 0 False) w₁ lawful id
    (responsive 0 False) firstHandle 0 _ _ _ [] hlive rfl (show 1 ≤ 100 by decide) hchunk.stream
    hchunk.nonempty hchunk.short (show 0 + 1 ≤ 1048576 by decide) hchunk.verified hassembled.received hassembled.offset.symm
  obtain ⟨_, found, bytes, w₃, state, hother, -, -, hcontent, -, -, -, -, -, happended, hw₂⟩ :=
    hpart.ensures (uploadPart_ensures lawful w₁ firstHandle _ _)
  obtain rfl := Option.some.inj (hlive.entry.symm.trans hother.entry)
  obtain rfl := Option.some.inj (hlive.object.symm.trans hother.object)
  obtain rfl := hchunk.delivers bytes hcontent
  have hlive₂ : Live w₂.memory firstHandle.sessionId 0 (state.acknowledge part) := by
    rw [hw₂]
    exact hlive.replaced _
  have hcall : Performs (Sample.setting 0 False).env
      ((Call.uploadPart firstHandle 1 (textual ['x'])).program platform (Sample.adapter 0)) w₁ (.ok (.part part)) w₂ :=
    hpart.bind (.ret _ _)
  have hrun₂ := hrun₁.performs hcall
  obtain ⟨outcome, w', hlast⟩ := (responsive 0 False).performs
    ((Call.uploadPart firstHandle 3 (textual ['y'])).program platform (Sample.adapter 0)) w₂
  obtain ⟨inner, hinner, rfl⟩ := hlast.of_wrap
  have hrefused := hinner.ensures (uploadPart_ensures lawful w₂ firstHandle 3 (textual ['y']))
  -- the session waits for its second part
  have hnext : ∀ reference other, Live w₂.memory firstHandle.sessionId reference other → other.nextPart = 2 := by
    intro reference other hother
    obtain rfl := Option.some.inj (hlive₂.entry.symm.trans hother.entry)
    obtain rfl := Option.some.inj (hlive₂.object.symm.trans hother.object)
    rw [MultipartState.acknowledge, happended.result]
    rfl
  have hfilled : (state.acknowledge part).parts = [part] ∧ (state.acknowledge part).hashed = utf8 ['x'] := by
    rw [MultipartState.acknowledge, happended.result]
    exact ⟨rfl, rfl⟩
  cases inner with
  | ok part =>
    obtain ⟨reference, other, bytes, w₁, state₁, hother, -, hnumber, -⟩ := hrefused
    rw [hnext _ _ hother] at hnumber
    cases hnumber
  | error error =>
    rcases hrefused with ⟨-, rfl⟩ | ⟨⟨reference, other, hother, -, hnumber, -⟩, -⟩
    · exact ⟨w₁, _, part, error, 0, _, hrun₂.performs hlast, hlive₂, hfilled⟩
    · rw [hnext _ _ hother] at hnumber
      cases hnumber

/-- A part with a wrong number fails, and its session lives on. -/
theorem failed_part_lives : ∃ (w : World (Sample.setting 0 False).policy) (history : _),
    Runs (Sample.setting 0 False) (.aware 0) ⟨w, .idle, history⟩ ∧
      (∃ event ∈ history, event.call = .uploadPart firstHandle 3 (textual ['y']) ∧
        ∃ error, event.outcome = .error error) ∧
      ∃ reference state, Live w.memory firstHandle.sessionId reference state := by
  obtain ⟨w₁, w₂, part, error, reference, state, hrun, hlive, -⟩ := run_refused
  refine ⟨w₂, _, hrun, ⟨_, List.mem_cons_of_mem _ (List.mem_cons_of_mem _ List.mem_cons_self), rfl, error, rfl⟩,
    reference, state, hlive⟩

/-- After one part and a part out of order the session has the content of the first. -/
theorem sessions_assembled_refused : ∃ (w₁ w₂ : World (Sample.setting 0 False).policy) (part : MultipartPart)
    (error : Err) (reference : Nat) (state : MultipartState) (history : _),
    history = [⟨.beginMultipart firstPut.operation, .ok (.session firstHandle), World.empty _ (.aware 0), w₁⟩,
      ⟨.uploadPart firstHandle 1 (textual ['x']), .ok (.part part), w₁, w₂⟩,
      ⟨.uploadPart firstHandle 3 (textual ['y']), .error error, w₂, w₂⟩] ∧
    Runs (Sample.setting 0 False) (.aware 0) ⟨w₂, .idle, history⟩ ∧
    Live w₂.memory firstHandle.sessionId reference state ∧ Assembled (Sample.adapter 0) w₂.registry state [utf8 ['x']] ∧
    List.Forall₂ (Contributed (Sample.setting 0 False) history firstHandle.sessionId) state.parts [utf8 ['x']] ∧
    ∀ event ∈ history, PartRefused event → event.after = event.before := by
  obtain ⟨w₁, w₂, part, error, reference, state, hrun, hlive, hfilled, hhashed⟩ := run_refused
  obtain ⟨hassembled, -, hrefused⟩ := sessions_assembled lawful hrun
  obtain ⟨contents, hcontents, hparts⟩ := hassembled _ _ _ hlive
  have hidentities := hcontents.identities
  rw [hfilled] at hidentities
  obtain ⟨content, rest, rfl, -, hrest⟩ := List.map_eq_cons_iff.mp hidentities.symm
  obtain rfl := List.map_eq_nil_iff.mp hrest
  have hcontent : content = utf8 ['x'] := by
    rw [← hhashed, hcontents.hashed]
    simp
  subst hcontent
  exact ⟨w₁, w₂, part, error, reference, state, _, rfl, hrun, hlive, hcontents, hparts, hrefused⟩

end Sample
end MeridianOci.Service
