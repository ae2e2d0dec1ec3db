import MeridianOci.Service.Chunks
import MeridianOci.Service.Orphans

/-!
# Sessions and the handles to them

Runs of any calls, one after another, beside any registry. Every part of a live session
was acknowledged by an earlier call on that session, and a session lives from the begin
that returned it until a call on it ends it. A handle is a plain value, and its part size
is trusted.
-/
namespace MeridianOci.Service

open MeridianOci.Data MeridianOci.Effect MeridianOci.Model

set_option autoImplicit false

variable {P : Platform} {adapter : OciDistributionAdapter}

abbrev DeskEvent := Event Call Err Answer Desk

/-- What was seen during a call. -/
def segment (event : DeskEvent) : List Sighting := event.after.seen.drop event.before.seen.length

theorem segment_eq {event : DeskEvent} {extra : List Sighting} (h : event.after.seen = event.before.seen ++ extra) :
    segment event = extra := by
  rw [segment, h, List.drop_left]

/-- What a call does, by its outcome. -/
inductive Turn (P : Platform) (adapter : OciDistributionAdapter) (before after : Desk) :
    Call → Except Err Answer → Prop where
  | executed (operation : Operation) (outcome : Except Err Answer) (extra : List Sighting) : Fair extra →
      (∀ session, outcome ≠ .ok (.session session)) → (∀ part, outcome ≠ .ok (.part part)) →
      after = { before with seen := before.seen ++ extra } → Turn P adapter before after (.execute operation) outcome
  | begun (operation : Operation) (session : MultipartSession) (value : PutInput) (upload : UploadLocation)
      (machine : PutState) (reading : Int) : P.transition .initial .uploading = .ok machine →
      session.partSize = adapter.binding.chunkSize → session.expiresAt = P.timestamp (reading + 3600 * 1000000) →
      after = ⟨before.memory.insert session.sessionId (.start value upload machine),
        before.seen ++ [.opened upload.minimumChunkBytes, .told (.aware reading)]⟩ →
      Turn P adapter before after (.beginMultipart operation) (.ok (.session session))
  | unbegun (operation : Operation) (error : Err) : after.memory = before.memory →
      Turn P adapter before after (.beginMultipart operation) (.error error)
  | extended (session : MultipartSession) (partNumber : Nat) (payload : PayloadReference) (part : MultipartPart)
      (reference : Nat) (state : MultipartState) (chunks : List Bytes) (state' : MultipartState) :
      Desk.Extends P session reference state chunks part before after state' →
      Turn P adapter before after (.uploadPart session partNumber payload) (.ok (.part part))
  | refused (session : MultipartSession) (partNumber : Nat) (payload : PayloadReference) (error : Err) :
      after = before → Turn P adapter before after (.uploadPart session partNumber payload) (.error error)
  | spoiled (session : MultipartSession) (partNumber : Nat) (payload : PayloadReference) (error : Err) :
      Closed session.sessionId before.memory after.memory →
      Turn P adapter before after (.uploadPart session partNumber payload) (.error error)
  | completed (session : MultipartSession) (parts : List MultipartPart) (outcome : Except Err Answer) (reference : Nat)
      (state : MultipartState) : (∀ session, outcome ≠ .ok (.session session)) →
      (∀ part, outcome ≠ .ok (.part part)) → Live before.memory session.sessionId reference state →
      parts = state.parts → Closed session.sessionId before.memory after.memory →
      (∀ metadata, outcome = .ok (.metadata metadata) → metadata.digest = sha256Digest P state.hashed) →
      Turn P adapter before after (.completeMultipart session parts) outcome
  | uncompleted (session : MultipartSession) (parts : List MultipartPart) (error : Err) : after = before →
      Turn P adapter before after (.completeMultipart session parts) (.error error)
  | aborted (session : MultipartSession) (outcome : Except Err Answer) : (∀ session, outcome ≠ .ok (.session session)) →
      (∀ part, outcome ≠ .ok (.part part)) → Closed session.sessionId before.memory after.memory →
      Turn P adapter before after (.abortMultipart session) outcome

theorem call_desk (laws : P.Lawful) (call : Call) (desk : Desk) :
    (call.program P adapter).Ensures (Desk.env P) (fun _ _ => True) desk fun outcome desk' =>
      Turn P adapter desk desk' call outcome := by
  cases call with
  | execute operation =>
    refine (Desk.fairly_execute operation desk).bind ?_ ?_
    · rintro result desk' ⟨extra, hfair, heq⟩
      exact .executed operation _ extra hfair (by rintro _ ⟨⟩) (by rintro _ ⟨⟩) heq
    · rintro error desk' ⟨extra, hfair, heq⟩
      exact .executed operation _ extra hfair (by rintro _ ⟨⟩) (by rintro _ ⟨⟩) heq
  | beginMultipart operation =>
    refine (Desk.beginMultipart_desk operation desk).bind ?_ ?_
    · rintro session desk' ⟨value, upload, machine, reading, -, hmachine, -, hsize, hexpires, heq⟩
      exact .begun operation session value upload machine reading hmachine hsize hexpires heq
    · exact fun error desk' h => .unbegun operation error h
  | uploadPart session partNumber payload =>
    refine (Desk.uploadPart_desk session partNumber payload desk).bind ?_ ?_
    · rintro part desk' ⟨reference, state, chunks, state', h⟩
      exact .extended session partNumber payload part reference state chunks state' h
    · rintro error desk' (h | h)
      · exact .refused session partNumber payload error h
      · exact .spoiled session partNumber payload error h
  | completeMultipart session parts =>
    refine (Desk.completeMultipart_desk laws session parts desk).bind ?_ ?_
    · rintro metadata desk' (⟨-, error, heq⟩ | ⟨reference, state, hlive, hparts, hclosed, hdigest⟩)
      · cases heq
      · refine .completed session parts _ reference state (by rintro _ ⟨⟩) (by rintro _ ⟨⟩) hlive hparts hclosed ?_
        rintro _ ⟨⟩
        exact hdigest metadata rfl
    · rintro error desk' (⟨heq, -⟩ | ⟨reference, state, hlive, hparts, hclosed, -⟩)
      · exact .uncompleted session parts error heq
      · exact .completed session parts _ reference state (by rintro _ ⟨⟩) (by rintro _ ⟨⟩) hlive hparts hclosed
          (by rintro _ ⟨⟩)
  | abortMultipart session =>
    refine (Desk.abortMultipart_desk session desk).bind ?_ ?_
    · exact fun _ desk' h => .aborted session _ (by rintro _ ⟨⟩) (by rintro _ ⟨⟩) h
    · exact fun error desk' h => .aborted session _ (by rintro _ ⟨⟩) (by rintro _ ⟨⟩) h

/-! ## What a history says of a session -/

/-- A begin that returned the session. -/
def Begins (sessionId : String) (event : DeskEvent) : Prop :=
  ∃ session, event.outcome = .ok (.session session) ∧ session.sessionId = sessionId

/-- A completion or an abort of the session, or a part of it that raised. -/
def Ends (sessionId : String) (event : DeskEvent) : Prop :=
  match event.call, event.outcome with
  | .completeMultipart session _, _ => session.sessionId = sessionId
  | .abortMultipart session, _ => session.sessionId = sessionId
  | .uploadPart session _ _, .error _ => session.sessionId = sessionId
  | _, _ => False

/-- An earlier call on the session returned the part. -/
def Acknowledged (history : List DeskEvent) (sessionId : String) (part : MultipartPart) : Prop :=
  ∃ event ∈ history, event.outcome = .ok (.part part) ∧
    ∃ session partNumber payload, event.call = .uploadPart session partNumber payload ∧ session.sessionId = sessionId

/-- What was seen of the upload of a session, from the begin that returned it. -/
def follow (sessionId : String) (seen : List Sighting) (event : DeskEvent) : List Sighting :=
  match event.call, event.outcome with
  | .beginMultipart _, .ok (.session session) => if session.sessionId = sessionId then segment event else seen
  | .uploadPart session _ _, _ => if session.sessionId = sessionId then seen ++ segment event else seen
  | _, _ => seen

theorem follow_begin {sessionId : String} (seen : List Sighting) {operation : Operation} {session : MultipartSession}
    {before after : Desk} (h : session.sessionId = sessionId) :
    follow sessionId seen ⟨.beginMultipart operation, .ok (.session session), before, after⟩ =
      segment ⟨.beginMultipart operation, .ok (.session session), before, after⟩ := if_pos h

theorem follow_part {sessionId : String} (seen : List Sighting) {session : MultipartSession} {partNumber : Nat}
    {payload : PayloadReference} {outcome : Except Err Answer} {before after : Desk} (h : session.sessionId = sessionId) :
    follow sessionId seen ⟨.uploadPart session partNumber payload, outcome, before, after⟩ =
      seen ++ segment ⟨.uploadPart session partNumber payload, outcome, before, after⟩ := if_pos h

theorem follow_other {sessionId : String} (seen : List Sighting) {session : MultipartSession} {partNumber : Nat}
    {payload : PayloadReference} {outcome : Except Err Answer} {before after : Desk} (h : session.sessionId ≠ sessionId) :
    follow sessionId seen ⟨.uploadPart session partNumber payload, outcome, before, after⟩ = seen := if_neg h

def sessionSeen (history : List DeskEvent) (sessionId : String) : List Sighting := history.foldl (follow sessionId) []

/-- The contents that the parts of a session were made of. -/
structure Made (P : Platform) (state : MultipartState) (contents : List Bytes) : Prop where
  parts : state.parts.map (·.identity) = contents.map (identityOf P)
  hashed : state.hashed = contents.flatten

/-- What holds between two calls. -/
structure Course (P : Platform) (adapter : OciDistributionAdapter) (desk : Desk) (history : List DeskEvent) : Prop where
  sound : SoundMemory desk.memory
  turns : ∀ event ∈ history, Turn P adapter event.before event.after event.call event.outcome
  parts : ∀ sessionId reference state, Live desk.memory sessionId reference state →
    ∀ part ∈ state.parts, Acknowledged history sessionId part
  contents : ∀ sessionId reference state, Live desk.memory sessionId reference state → ∃ contents, Made P state contents
  sending : ∀ sessionId reference state, Live desk.memory sessionId reference state →
    ∃ sending, sendingOf (sessionSeen history sessionId) = some sending ∧ sending.Faithful
  lives : ∀ sessionId, Since (Begins sessionId) (fun event => ¬Ends sessionId event) history →
    ∃ reference state, Live desk.memory sessionId reference state

/-! ## What one call keeps -/

section Step

variable {before after : Desk} {call : Call} {outcome : Except Err Answer}
variable (hturn : Turn P adapter before after call outcome)

include hturn

theorem Turn.sound (laws : P.Lawful) (h : SoundMemory before.memory) : SoundMemory after.memory := by
  cases hturn with
  | executed operation outcome extra hfair hsession hpart hafter =>
    rw [hafter]
    exact h
  | begun operation session value upload machine reading hmachine hsize hexpires hafter =>
    rw [laws.transition_uploading] at hmachine
    rw [hafter]
    exact h.insert ⟨rfl, (Except.ok.inj hmachine).symm⟩
  | unbegun operation error hafter =>
    rw [hafter]
    exact h
  | extended session partNumber payload part reference state chunks state' hextends =>
    have hsettled := h.live hextends.live
    rw [hextends.memory]
    refine h.modify fun _ _ => ⟨?_, ?_⟩
    · show state'.length + part.identity.byteLength = state'.hashed.length
      rw [hextends.result, hextends.identity]
      simp [hsettled.length, identityOf]
    · show state'.machine = .uploading
      rw [hextends.result]
      exact hsettled.machine
  | refused session partNumber payload error hafter =>
    rw [hafter]
    exact h
  | spoiled session partNumber payload error hclosed => exact h.closed hclosed
  | completed session parts outcome reference state hsession hpart hlive hparts hclosed hdigest => exact h.closed hclosed
  | uncompleted session parts error hafter =>
    rw [hafter]
    exact h
  | aborted session outcome hsession hpart hclosed => exact h.closed hclosed

/-- A session that is live after a call was begun in it, got a part in it, or was not concerned. -/
theorem Turn.origin (h : SoundMemory before.memory) {sessionId : String} {reference : Nat} {state : MultipartState}
    (hlive : Live after.memory sessionId reference state) :
    (∃ minimum reading, state.parts = [] ∧ Made P state [] ∧
        ∀ seen, follow sessionId seen ⟨call, outcome, before, after⟩ = [.opened minimum, .told reading]) ∨
      (∃ session partNumber payload part reference' state' chunks, call = .uploadPart session partNumber payload ∧
        session.sessionId = sessionId ∧ outcome = .ok (.part part) ∧ Live before.memory sessionId reference' state' ∧
        state.parts = state'.parts ++ [part] ∧
        (∀ contents, Made P state' contents → Made P state (contents ++ [chunks.flatten])) ∧
        ∀ seen, follow sessionId seen ⟨call, outcome, before, after⟩ =
          seen ++ .delivered chunks :: chunks.map .patched) ∨
      (Live before.memory sessionId reference state ∧
        ∀ seen, follow sessionId seen ⟨call, outcome, before, after⟩ = seen) := by
  cases hturn with
  | executed operation outcome extra hfair hsession hpart hafter =>
    rw [hafter] at hlive
    exact .inr (.inr ⟨hlive, fun _ => rfl⟩)
  | begun operation session value upload machine reading hmachine hsize hexpires hafter =>
    have hmemory : after.memory = before.memory.insert session.sessionId (.start value upload machine) := by rw [hafter]
    rw [hmemory] at hlive
    rcases live_of_insert h hlive with ⟨hsame, hstate⟩ | ⟨hne, hold⟩
    · refine .inl ⟨upload.minimumChunkBytes, .aware reading, by rw [hstate]; rfl, by rw [hstate]; exact ⟨rfl, rfl⟩,
        fun seen => ?_⟩
      rw [follow_begin seen hsame.symm]
      exact segment_eq (by rw [hafter])
    · exact .inr (.inr ⟨hold, fun seen => if_neg fun heq => hne heq.symm⟩)
  | unbegun operation error hafter =>
    rw [hafter] at hlive
    exact .inr (.inr ⟨hlive, fun _ => rfl⟩)
  | extended session partNumber payload part reference₀ state₀ chunks state' hextends =>
    rw [hextends.memory] at hlive
    rcases live_of_modify h hextends.live hlive with ⟨hsame, hstate⟩ | ⟨hne, hold⟩
    · refine .inr (.inl ⟨session, partNumber, payload, part, reference₀, state₀, chunks, rfl, hsame.symm, rfl, ?_, ?_,
        fun contents hmade => ⟨?_, ?_⟩, ?_⟩)
      · rw [hsame]
        exact hextends.live
      · rw [hstate, hextends.result]
        rfl
      · rw [hstate, hextends.result]
        simp [MultipartState.acknowledge, hmade.parts, hextends.identity]
      · rw [hstate, hextends.result]
        simp [MultipartState.acknowledge, hmade.hashed]
      · intro seen
        rw [follow_part seen hsame.symm]
        exact congrArg (seen ++ ·) (segment_eq hextends.seen)
    · exact .inr (.inr ⟨hold, fun seen => follow_other seen hne.symm⟩)
  | refused session partNumber payload error hafter =>
    rw [hafter] at hlive
    refine .inr (.inr ⟨hlive, fun seen => ?_⟩)
    have hnothing : segment ⟨.uploadPart session partNumber payload, .error error, before, after⟩ = [] :=
      segment_eq (by rw [hafter, List.append_nil])
    by_cases hsame : session.sessionId = sessionId
    · rw [follow_part seen hsame, hnothing, List.append_nil]
    · exact follow_other seen hsame
  | spoiled session partNumber payload error hclosed =>
    obtain ⟨hne, hold⟩ := live_of_closed h hclosed hlive
    exact .inr (.inr ⟨hold, fun seen => follow_other seen hne.symm⟩)
  | completed session parts outcome reference₀ state₀ hsession hpart hfound hparts hclosed hdigest =>
    exact .inr (.inr ⟨(live_of_closed h hclosed hlive).2, fun _ => rfl⟩)
  | uncompleted session parts error hafter =>
    rw [hafter] at hlive
    exact .inr (.inr ⟨hlive, fun _ => rfl⟩)
  | aborted session outcome hsession hpart hclosed =>
    exact .inr (.inr ⟨(live_of_closed h hclosed hlive).2, fun _ => rfl⟩)

/-- A begin that returns a session leaves it live. -/
theorem Turn.begins {sessionId : String} (hbegins : Begins sessionId ⟨call, outcome, before, after⟩) :
    ∃ reference state, Live after.memory sessionId reference state := by
  obtain ⟨session, houtcome, rfl⟩ := hbegins
  dsimp only at houtcome
  cases hturn with
  | executed operation outcome extra hfair hsession hpart hafter => exact absurd houtcome (hsession session)
  | begun operation other value upload machine reading hmachine hsize hexpires hafter =>
    obtain rfl : other = session := by simpa using houtcome
    have hmemory : after.memory = before.memory.insert other.sessionId (.start value upload machine) := by rw [hafter]
    rw [hmemory]
    exact ⟨_, _, live_insert _ _ _⟩
  | completed other parts outcome reference state hsession hpart hlive hparts hclosed hdigest =>
    exact absurd houtcome (hsession session)
  | aborted other outcome hsession hpart hclosed => exact absurd houtcome (hsession session)
  | _ => cases houtcome

/-- A session goes on unless the call ends it. -/
theorem Turn.lives (h : SoundMemory before.memory) {sessionId : String} {reference : Nat} {state : MultipartState}
    (hlive : Live before.memory sessionId reference state) (hends : ¬Ends sessionId ⟨call, outcome, before, after⟩) :
    ∃ reference' state', Live after.memory sessionId reference' state' := by
  cases hturn with
  | executed operation outcome extra hfair hsession hpart hafter =>
    rw [hafter]
    exact ⟨reference, state, hlive⟩
  | begun operation session value upload machine reading hmachine hsize hexpires hafter =>
    have hmemory : after.memory = before.memory.insert session.sessionId (.start value upload machine) := by rw [hafter]
    rw [hmemory]
    by_cases hsame : sessionId = session.sessionId
    · rw [hsame]
      exact ⟨_, _, live_insert _ _ _⟩
    · exact ⟨reference, state, hlive.insert_other hsame⟩
  | unbegun operation error hafter =>
    rw [hafter]
    exact ⟨reference, state, hlive⟩
  | extended session partNumber payload part reference₀ state₀ chunks state' hextends =>
    rw [hextends.memory]
    exact ⟨reference, hlive.modify _ _⟩
  | refused session partNumber payload error hafter =>
    rw [hafter]
    exact ⟨reference, state, hlive⟩
  | spoiled session partNumber payload error hclosed =>
    exact ⟨reference, state, Live.closed h hlive hclosed fun heq => hends heq.symm⟩
  | completed session parts outcome reference₀ state₀ hsession hpart hfound hparts hclosed hdigest =>
    exact ⟨reference, state, Live.closed h hlive hclosed fun heq => hends heq.symm⟩
  | uncompleted session parts error hafter =>
    rw [hafter]
    exact ⟨reference, state, hlive⟩
  | aborted session outcome hsession hpart hclosed =>
    exact ⟨reference, state, Live.closed h hlive hclosed fun heq => hends heq.symm⟩

end Step

theorem Acknowledged.snoc {history : List DeskEvent} {sessionId : String} {part : MultipartPart} (event : DeskEvent)
    (h : Acknowledged history sessionId part) : Acknowledged (history ++ [event]) sessionId part := by
  obtain ⟨earlier, hmem, hrest⟩ := h
  exact ⟨earlier, List.mem_append_left _ hmem, hrest⟩

theorem sessionSeen_snoc (history : List DeskEvent) (event : DeskEvent) (sessionId : String) :
    sessionSeen (history ++ [event]) sessionId = follow sessionId (sessionSeen history sessionId) event := by
  rw [sessionSeen, List.foldl_append]
  rfl

theorem Course.empty : Course P adapter Desk.empty [] where
  sound := .empty
  turns := by simp
  parts sessionId reference state h := by
    have hentry := h.entry
    cases hentry
  contents sessionId reference state h := by
    have hentry := h.entry
    cases hentry
  sending sessionId reference state h := by
    have hentry := h.entry
    cases hentry
  lives sessionId h := absurd h not_since_nil

/-- Every call keeps the course. -/
theorem Course.step (laws : P.Lawful) {desk desk' : Desk} {history : List DeskEvent} {call : Call}
    {outcome : Except Err Answer} (h : Course P adapter desk history)
    (hturn : Turn P adapter desk desk' call outcome) :
    Course P adapter desk' (history ++ [⟨call, outcome, desk, desk'⟩]) where
  sound := hturn.sound laws h.sound
  turns event hmem := by
    rcases List.mem_append.mp hmem with hold | hnew
    · exact h.turns event hold
    · rw [List.mem_singleton.mp hnew]
      exact hturn
  parts sessionId reference state hlive part hpart := by
    rcases hturn.origin h.sound hlive with ⟨minimum, reading, hparts, -⟩ |
      ⟨session, partNumber, payload, last, reference', state', chunks, hcall, hsession, houtcome, hold, hparts, -⟩ |
      ⟨hold, -⟩
    · rw [hparts] at hpart
      cases hpart
    · rw [hparts] at hpart
      rcases List.mem_append.mp hpart with hmem | hmem
      · exact (h.parts sessionId reference' state' hold part hmem).snoc _
      · rw [List.mem_singleton.mp hmem]
        exact ⟨_, List.mem_append_right _ List.mem_cons_self, houtcome, session, partNumber, payload, hcall, hsession⟩
    · exact (h.parts sessionId reference state hold part hpart).snoc _
  contents sessionId reference state hlive := by
    rcases hturn.origin h.sound hlive with ⟨minimum, reading, -, hmade, -⟩ |
      ⟨session, partNumber, payload, last, reference', state', chunks, -, -, -, hold, -, hmade, -⟩ | ⟨hold, -⟩
    · exact ⟨[], hmade⟩
    · obtain ⟨contents, hcontents⟩ := h.contents sessionId reference' state' hold
      exact ⟨_, hmade contents hcontents⟩
    · exact h.contents sessionId reference state hold
  sending sessionId reference state hlive := by
    rw [sessionSeen_snoc]
    rcases hturn.origin h.sound hlive with ⟨minimum, reading, -, -, hfollow⟩ |
      ⟨session, partNumber, payload, last, reference', state', chunks, -, -, -, hold, -, -, hfollow⟩ | ⟨hold, hfollow⟩
    · rw [hfollow]
      exact ⟨⟨minimum, [], []⟩, rfl, rfl⟩
    · rw [hfollow]
      obtain ⟨sending, hsending, hfaithful⟩ := h.sending sessionId reference' state' hold
      exact step_part hsending hfaithful chunks
    · rw [hfollow]
      exact h.sending sessionId reference state hold
  lives sessionId hsince := by
    rcases since_snoc.mp hsince with hbegins | ⟨hends, hold⟩
    · exact hturn.begins hbegins
    · obtain ⟨reference, state, hlive⟩ := h.lives sessionId hold
      exact hturn.lives h.sound hlive hends

/-- The configurations of an adapter beside any registry. -/
abbrev DeskReachable (P : Platform) (adapter : OciDistributionAdapter)
    (config : Config Op Op.Res Err Answer Desk Call) : Prop :=
  Reachable (Desk.env P) (Call.program P adapter) Desk.empty config

theorem DeskReachable.holds (laws : P.Lawful) {config : Config Op Op.Res Err Answer Desk Call}
    (h : DeskReachable P adapter config) :
    config.Holds (Desk.env P) (fun _ _ => True) (Course P adapter) :=
  Reachable.holds Course.empty (fun desk _ call hcourse =>
    (call_desk laws call desk).mono fun _ _ hturn => hcourse.step laws hturn) h

/-- Also in the middle of a call, the calls before it keep the course. -/
theorem DeskReachable.course (laws : P.Lawful) {config : Config Op Op.Res Err Answer Desk Call}
    (h : DeskReachable P adapter config) : ∃ desk, Course P adapter desk config.history := by
  have hholds := h.holds laws
  obtain ⟨desk, phase, history⟩ := config
  cases phase with
  | idle => exact ⟨desk, hholds⟩
  | running call start rest => exact ⟨start, hholds.1⟩

/-- The course in the state a call was begun in. -/
theorem DeskReachable.before (laws : P.Lawful) {config : Config Op Op.Res Err Answer Desk Call}
    (h : DeskReachable P adapter config) {front rest : List DeskEvent} {event : DeskEvent}
    (hhistory : config.history = front ++ event :: rest) : Course P adapter event.before front := by
  have hbefore : DeskReachable P adapter ⟨event.before, .idle, front⟩ := Reachable.before h hhistory
  exact hbefore.holds laws

/-! ## The part size -/

/-- The chunks of the payloads that were opened. -/
def deliveredIn (seen : List Sighting) : List Bytes :=
  seen.flatMap fun
    | .delivered chunks => chunks
    | _ => []

theorem deliveredIn_part (chunks : List Bytes) : deliveredIn (.delivered chunks :: chunks.map .patched) = chunks := by
  simp [deliveredIn, List.flatMap_map]

/-- A part upload whose handle does not exceed the advertised part size, or whose payload does not. -/
def Modest (limit : Nat) (event : DeskEvent) : Prop :=
  ∀ session partNumber payload, event.call = .uploadPart session partNumber payload →
    session.partSize ≤ limit ∨ (deliveredIn (segment event)).flatten.length ≤ limit

theorem Turn.part_length {event : DeskEvent} (h : Turn P adapter event.before event.after event.call event.outcome)
    {limit : Nat} (hmodest : Modest limit event) {part : MultipartPart} (houtcome : event.outcome = .ok (.part part)) :
    part.identity.byteLength ≤ limit := by
  obtain ⟨call, outcome, before, after⟩ := event
  dsimp only at h houtcome
  cases h with
  | extended session partNumber payload other reference state chunks state' hextends =>
    obtain rfl : other = part := by simpa using houtcome
    have hlength : other.identity.byteLength = chunks.flatten.length := by
      rw [hextends.identity]
      rfl
    rw [hlength]
    rcases hmodest session partNumber payload rfl with hsize | hdelivered
    · exact hextends.bounded.trans hsize
    · rwa [segment_eq hextends.seen, deliveredIn_part] at hdelivered
  | executed operation outcome extra hfair hsession hpart hafter => exact absurd houtcome (hpart part)
  | completed session parts outcome reference state hsession hpart hlive hparts hclosed hdigest =>
    exact absurd houtcome (hpart part)
  | aborted session outcome hsession hpart hclosed => exact absurd houtcome (hpart part)
  | _ => cases houtcome

/-- In a run whose part uploads are modest, every acknowledged part has the advertised size at most, and
what is completed consists of such parts: their contents, one after another, have the digest that is returned. -/
theorem part_size_bounded (laws : P.Lawful) {config : Config Op Op.Res Err Answer Desk Call}
    (hrun : DeskReachable P adapter config)
    (hmodest : ∀ event ∈ config.history, Modest adapter.binding.chunkSize event) :
    (∀ event ∈ config.history, ∀ part, event.outcome = .ok (.part part) →
      part.identity.byteLength ≤ adapter.binding.chunkSize) ∧
    ∀ event ∈ config.history, ∀ session supplied metadata, event.call = .completeMultipart session supplied →
      event.outcome = .ok (.metadata metadata) →
        (∀ part ∈ supplied,
          Acknowledged config.history session.sessionId part ∧ part.identity.byteLength ≤ adapter.binding.chunkSize) ∧
        ∃ contents : List Bytes, supplied.map (·.identity) = contents.map (identityOf P) ∧
          metadata.digest = sha256Digest P contents.flatten ∧
          ∀ content ∈ contents, content.length ≤ adapter.binding.chunkSize := by
  obtain ⟨desk, hcourse⟩ := hrun.course laws
  have hparts : ∀ event ∈ config.history, ∀ part, event.outcome = .ok (.part part) →
      part.identity.byteLength ≤ adapter.binding.chunkSize :=
    fun event hmem part houtcome => (hcourse.turns event hmem).part_length (hmodest event hmem) houtcome
  refine ⟨hparts, fun event hmem session supplied metadata hcall houtcome => ?_⟩
  obtain ⟨front, rest, hhistory⟩ := List.append_of_mem hmem
  have hbefore := hrun.before laws hhistory
  have hturn := hcourse.turns event hmem
  rw [hcall, houtcome] at hturn
  cases hturn with
  | completed _ _ _ reference state _ _ hlive hsupplied _ hdigest =>
    subst hsupplied
    have hacknowledged : ∀ part ∈ state.parts, Acknowledged config.history session.sessionId part := by
      intro part hpart
      obtain ⟨earlier, hearlier, hrest⟩ := hbefore.parts _ reference state hlive part hpart
      refine ⟨earlier, ?_, hrest⟩
      rw [hhistory]
      exact List.mem_append_left _ hearlier
    have hbounded : ∀ part ∈ state.parts, part.identity.byteLength ≤ adapter.binding.chunkSize := by
      intro part hpart
      obtain ⟨earlier, hearlier, hpartof, -⟩ := hacknowledged part hpart
      exact hparts earlier hearlier part hpartof
    obtain ⟨contents, hmade⟩ := hbefore.contents _ reference state hlive
    refine ⟨fun part hpart => ⟨hacknowledged part hpart, hbounded part hpart⟩, contents, hmade.parts, ?_, ?_⟩
    · rw [← hmade.hashed]
      exact hdigest metadata rfl
    · intro content hcontent
      have hidentity : identityOf P content ∈ state.parts.map (·.identity) := by
        rw [hmade.parts]
        exact List.mem_map_of_mem hcontent
      obtain ⟨part, hpart, heq⟩ := List.mem_map.mp hidentity
      have hlength : part.identity.byteLength = content.length := congrArg ContentIdentity.byteLength heq
      exact hlength ▸ hbounded part hpart

namespace Sample

open MeridianOci.Model.Sample

/-- What a begin returns, by the token and the clock. -/
def handle (token : String) (reading : Int) : MultipartSession :=
  ⟨"u" ++ token, (Sample.adapter 0).objectReferenceOf firstSession.input, (binding 0).chunkSize,
    platform.timestamp (reading + 3600 * 1000000)⟩

def withSession (desk : Desk) (token : String) (reading : Int) : Desk :=
  ⟨desk.memory.insert ("u" ++ token) firstSession, desk.seen ++ [.opened none, .told (.aware reading)]⟩

theorem performs_begin (desk : Desk) (token : String) {reading : Int}
    (hdate : reading + 3600 * 1000000 ≤ maxInstant) :
    Performs (Desk.env platform) (begin.program platform (Sample.adapter 0)) desk
      (.ok (.session (handle token reading))) (withSession desk token reading) := by
  have hopened : Desk.env platform (.send .startUpload) desk (.ok opening)
      { desk with seen := desk.seen ++ [.opened none] } := rfl
  have hdated : Desk.env platform .clock { desk with seen := desk.seen ++ [.opened none] } (.ok (.aware reading))
      { desk with seen := desk.seen ++ [.opened none, .told (.aware reading)] } := by
    simp [Desk.env, observe]
  refine .call _ _ _ desk _ (.ok ()) _ (by simp [Desk.env, observe]) ?_
  refine .call _ _ _ _ _ _ _ hopened ?_
  refine .call _ _ _ { desk with seen := desk.seen ++ [.opened none] } _ (.ok ()) _ (by simp [Desk.env, observe]) ?_
  refine .call _ _ _ { desk with seen := desk.seen ++ [.opened none] } _ (.ok token) _ (by simp [Desk.env, observe]) ?_
  refine .call _ _ _ _ _ _ _ hdated ?_
  have hsession := @OciDistributionAdapter.newSession_eq platform (Sample.adapter 0) ("u" ++ token) firstSession.input
    reading hdate rfl
  change Performs _ (Action.lift ((Sample.adapter 0).newSession platform ("u" ++ token) firstSession.input reading)
    >>= _ >>= _) _ _ _
  rw [hsession]
  refine .call _ _ _ (withSession desk token reading) _ (.ok desk.memory) _ (by exact ⟨rfl, rfl⟩) ?_
  exact .ret _ _

/-- A payload without declarations. -/
def payload : PayloadReference := ⟨"x", true, none, none⟩

theorem performs_patch (upload : UploadLocation) {chunk : Bytes} (hchunk : chunk ≠ []) (desk : Desk) :
    ∃ upload', Performs (Desk.env platform) ((Sample.adapter 0).transport.patchUpload platform upload chunk) desk
      (.ok upload') { desk with seen := desk.seen ++ [.patched chunk] } := by
  refine ⟨⟨"/1", (none : Option String).or upload.uuid, upload.minimumChunkBytes, upload.offset + chunk.length - 1 + 1⟩, ?_⟩
  rw [RegistryHttpClient.patchUpload, if_neg hchunk]
  have hbuild : (Request.patchUpload upload.url upload.offset (upload.offset + chunk.length - 1) chunk).target.build platform = .ok () := rfl
  refine .call _ _ _ { desk with seen := desk.seen ++ [.patched chunk] } _ (.ok opening) _ (by exact rfl) ?_
  change Performs _ (if (none : Option String).getD _ ≠ _ then _ else _) _ _ _
  rw [if_neg (by simp)]
  exact .ret _ _

theorem performs_memory {desk : Desk} (update : Memory → Memory) :
    Performs (Desk.env platform) (Action.memory update) desk (.ok desk.memory)
      { desk with memory := update desk.memory } :=
  .call _ _ _ _ _ (.ok desk.memory) _ ⟨rfl, rfl⟩ (.ret _ _)

theorem performs_readState {desk : Desk} {reference : Nat} {state : MultipartState}
    (h : desk.memory.heap[reference]? = some state) :
    Performs (Desk.env platform) (OciDistributionAdapter.readState reference) desk (.ok state) desk := by
  refine (performs_memory _).bind ?_
  rw [h]
  exact .ret _ _

theorem performs_updateState {desk : Desk} {reference : Nat} {state : MultipartState}
    (h : desk.memory.heap[reference]? = some state) (update : MultipartState → MultipartState) :
    Performs (Desk.env platform) (OciDistributionAdapter.updateState reference update) desk (.ok state)
      { desk with memory := desk.memory.modify reference update } := by
  refine (performs_memory _).bind ?_
  rw [h]
  exact .ret _ _

theorem get?_update {memory : Memory} {reference : Nat} {state : MultipartState} (h : memory.heap[reference]? = some state)
    (update : MultipartState → MultipartState) : (memory.modify reference update).heap[reference]? = some (update state) := by
  rw [get?_modify, if_pos rfl, h]
  rfl

theorem performs_sendPart (desk : Desk) (session : MultipartSession) {reference : Nat} {state : MultipartState}
    (hobject : desk.memory.heap[reference]? = some state) (hlength : state.length = 0) {chunk : Bytes}
    (hchunk : chunk ≠ []) (hsize : chunk.length ≤ session.partSize) (hlimit : chunk.length ≤ 1048576) :
    ∃ desk' state', desk'.memory.heap[reference]? = some state' ∧ desk'.seen = desk.seen ++ [.patched chunk] ∧
      Performs (Desk.env platform) ((Sample.adapter 0).sendPart platform session reference [chunk] [] 0) desk
        (.ok (chunk, chunk.length)) desk' := by
  have hhashed := get?_update hobject fun state => { state with hashed := state.hashed ++ chunk }
  obtain ⟨upload, hpatch⟩ := performs_patch state.upload hchunk
    ⟨desk.memory.modify reference fun state => { state with hashed := state.hashed ++ chunk }, desk.seen⟩
  refine ⟨⟨_, desk.seen ++ [.patched chunk]⟩, _, get?_update hhashed fun state => { state with upload }, rfl, ?_⟩
  rw [OciDistributionAdapter.sendPart, Nat.zero_add, if_neg (not_lt.mpr hsize)]
  refine (performs_readState hobject).bind ?_
  rw [if_neg (by rw [hlength, Nat.zero_add]; exact not_lt.mpr hlimit)]
  refine Performs.bind (?_ : Performs _ _ _ (.ok ()) _) (.ret _ _)
  exact (performs_updateState hobject _).bind (hpatch.bind ((performs_updateState hhashed _).bind (.ret _ _)))

theorem performs_stateOf {desk : Desk} {session : MultipartSession} {reference : Nat} {state : MultipartState}
    (hlive : Live desk.memory session.sessionId reference state)
    (hobject : session.objectRef = (Sample.adapter 0).objectReferenceOf state.input) :
    Performs (Desk.env platform) ((Sample.adapter 0).stateOf session) desk (.ok reference) desk := by
  refine (performs_memory _).bind ?_
  rw [hlive.entry]
  dsimp only
  rw [hlive.object]
  dsimp only
  rw [if_neg (not_not.mpr hobject)]
  exact .ret _ _

/-- The first part of a session. -/
def partOf (session : MultipartSession) (content : Bytes) : MultipartPart :=
  ⟨1, identityOf platform content, verificationToken platform (binding 0).cursorSigningKey session.sessionId 1
    (identityOf platform content)⟩

/-- The first part of a session is acknowledged if it fits the size its handle gives. -/
theorem performs_part {desk : Desk} {session : MultipartSession} {reference : Nat} {state : MultipartState}
    (hlive : Live desk.memory session.sessionId reference state)
    (hobject : session.objectRef = (Sample.adapter 0).objectReferenceOf state.input) (hnext : state.nextPart = 1)
    (hlength : state.length = 0) {chunk : Bytes} (hchunk : chunk ≠ []) (hsize : chunk.length ≤ session.partSize)
    (hlimit : chunk.length ≤ 1048576) :
    ∃ desk', Performs (Desk.env platform) ((Sample.adapter 0).uploadPart platform session 1 payload) desk
      (.ok (partOf session chunk)) desk' ∧ desk'.seen = desk.seen ++ [.delivered [chunk], .patched chunk] := by
  obtain ⟨desk₁, state₁, hobject₁, hseen, hsend⟩ := performs_sendPart
    { desk with seen := desk.seen ++ [.delivered [chunk]] } session hlive.object hlength hchunk hsize hlimit
  have htransfer : Performs (Desk.env platform) ((Sample.adapter 0).transferPart platform session reference payload) desk
      (.ok (identityOf platform chunk)) desk₁ := by
    refine .call _ _ _ { desk with seen := desk.seen ++ [.delivered [chunk]] } _ (.ok ⟨[chunk], none⟩) _ (by exact rfl) ?_
    refine hsend.bind ?_
    dsimp only
    rw [if_neg (by simpa using hchunk)]
    have hverified : verifyIdentity payload (identityOf platform chunk) = .ok () := by
      simp [verifyIdentity, payload]
    change Performs _ (Action.lift (verifyIdentity payload (identityOf platform chunk)) >>= fun _ => _) _ _ _
    rw [hverified]
    exact .ret _ _
  refine ⟨{ desk₁ with memory := desk₁.memory.modify reference (·.acknowledge (partOf session chunk)) },
    (performs_stateOf hlive hobject).bind ((performs_readState hlive.object).bind ?_), by simp [hseen]⟩
  rw [hnext, if_neg (not_not.mpr rfl), if_neg (by decide)]
  refine Performs.bind (htransfer.handle (.ret _ _)) ?_
  exact (performs_updateState hobject₁ _).bind (.ret _ _)

/-- A part of one chunk is uploaded to the session that was begun, with any part size in the handle. -/
theorem reachable_part (partSize : Nat) {chunk : Bytes} (hchunk : chunk ≠ []) (hsize : chunk.length ≤ partSize)
    (hlimit : chunk.length ≤ 1048576) :
    ∃ desk, DeskReachable platform (Sample.adapter 0) ⟨desk, .idle,
      [⟨begin, .ok (.session (handle "0" 0)), Desk.empty, withSession Desk.empty "0" 0⟩,
        ⟨.uploadPart { handle "0" 0 with partSize } 1 payload, .ok (.part (partOf { handle "0" 0 with partSize } chunk)),
          withSession Desk.empty "0" 0, desk⟩]⟩ := by
  have hlive : Live (withSession Desk.empty "0" 0).memory { handle "0" 0 with partSize }.sessionId 0 firstSession := ⟨rfl, rfl⟩
  obtain ⟨desk, hpart, -⟩ := performs_part hlive rfl rfl rfl hchunk hsize hlimit
  exact ⟨desk, Reachable.performs (Reachable.performs .refl (performs_begin _ _ (by decide))) (hpart.bind (.ret _ _))⟩

/-- With a handle that gives a larger part size, a part of more than `chunk_size` bytes is acknowledged. -/
theorem part_size_exceeded : ∃ config, DeskReachable platform (Sample.adapter 0) config ∧
    ∃ event ∈ config.history, ∃ part, event.outcome = .ok (.part part) ∧
      (Sample.adapter 0).binding.chunkSize < part.identity.byteLength := by
  have hlength : (List.replicate 65537 0 : Bytes).length = 65537 := List.length_replicate
  have hchunk : (List.replicate 65537 0 : Bytes) ≠ [] := List.ne_nil_of_length_pos (by omega)
  obtain ⟨desk, hrun⟩ := reachable_part 65537 hchunk hlength.le (hlength.trans_le (by decide))
  refine ⟨_, hrun, _, List.mem_cons_of_mem _ List.mem_cons_self, _, rfl, ?_⟩
  show 65536 < (List.replicate 65537 0 : Bytes).length
  omega

theorem part_size_bounded_once : ∃ config, DeskReachable platform (Sample.adapter 0) config ∧
    ∃ event ∈ config.history, ∃ part, event.outcome = .ok (.part part) ∧
      part.identity.byteLength ≤ (Sample.adapter 0).binding.chunkSize := by
  obtain ⟨desk, hrun⟩ := reachable_part 65536 (show ([0] : Bytes) ≠ [] by simp) (by decide) (by decide)
  refine ⟨_, hrun, _, List.mem_cons_of_mem _ List.mem_cons_self, _, rfl, ?_⟩
  refine (part_size_bounded lawful hrun ?_).1 _ (List.mem_cons_of_mem _ List.mem_cons_self) _ rfl
  intro event hmem session partNumber payload hcall
  rcases List.mem_cons.mp hmem with hbegin | hpart
  · rw [hbegin] at hcall
    cases hcall
  · rw [List.mem_singleton.mp hpart] at hcall
    cases hcall
    exact .inl (Nat.le_refl _)

end Sample

end MeridianOci.Service
