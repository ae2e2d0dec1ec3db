import MeridianOci.Service.Handles

/-!
# The expiry of a session

A begin writes into its session when that expires, one hour after the time it read.
Nothing reads it again: the calls on a session do the same whatever expiry the handle
carries, a part is uploaded without a look at the clock, and a session lives until a call
ends it, however late.
-/
namespace MeridianOci.Service

open MeridianOci.Data MeridianOci.Effect MeridianOci.Model

set_option autoImplicit false

variable {P : Platform} {adapter : OciDistributionAdapter}

/-! ## What the calls read -/

section Reads

variable (session : MultipartSession) (expiresAt : String)

theorem abortMultipart_expiresAt :
    adapter.abortMultipart P { session with expiresAt } = adapter.abortMultipart P session := rfl

theorem completeMultipart_expiresAt (parts : List MultipartPart) :
    adapter.completeMultipart P { session with expiresAt } parts = adapter.completeMultipart P session parts := rfl

theorem sendPart_expiresAt (reference : Nat) (chunks : List Bytes) (hashed : Bytes) (length : Nat) :
    adapter.sendPart P { session with expiresAt } reference chunks hashed length =
      adapter.sendPart P session reference chunks hashed length := by
  induction chunks generalizing hashed length with
  | nil => rfl
  | cons chunk rest ih =>
    unfold OciDistributionAdapter.sendPart
    simp only [ih]

theorem uploadPart_expiresAt (partNumber : Nat) (payload : PayloadReference) :
    adapter.uploadPart P { session with expiresAt } partNumber payload =
      adapter.uploadPart P session partNumber payload := by
  have htransfer : ∀ reference, adapter.transferPart P { session with expiresAt } reference payload =
      adapter.transferPart P session reference payload := by
    intro reference
    unfold OciDistributionAdapter.transferPart
    simp only [sendPart_expiresAt]
  unfold OciDistributionAdapter.uploadPart
  simp only [htransfer]
  rfl

end Reads

/-- An operation that does not read the clock. -/
def Op.Timeless (op : Op) : Prop := op ≠ .clock

section Timeless

variable {reference : Nat}

theorem timeless_memory {α : Type} {update : Memory → Memory} {next : Memory → Action α}
    (hnext : ∀ memory, (next memory).Uses Op.Timeless) : (Action.memory update >>= next).Uses Op.Timeless :=
  Prog.Uses.bind (Prog.uses_perform (by rintro ⟨⟩)) hnext

theorem timeless_readState : (OciDistributionAdapter.readState reference).Uses Op.Timeless := by
  refine timeless_memory fun memory => ?_
  split <;> trivial

theorem timeless_updateState (update : MultipartState → MultipartState) :
    (OciDistributionAdapter.updateState reference update).Uses Op.Timeless := by
  refine timeless_memory fun memory => ?_
  split <;> trivial

theorem timeless_request (client : RegistryHttpClient) (request : Request) (expected : List Nat) (retry : Bool)
    (maximumBytes : Nat) : (client.request P request expected retry maximumBytes).Uses Op.Timeless := by
  refine (uses_request client request expected retry maximumBytes).mono ?_
  rintro _ rfl ⟨⟩

theorem timeless_abortMultipart (session : MultipartSession) :
    (adapter.abortMultipart P session).Uses Op.Timeless := by
  refine timeless_memory fun memory => ?_
  split
  · trivial
  refine timeless_readState.bind fun state => Prog.Uses.bind ?_ fun _ => timeless_readState.bind fun state => ?_
  · exact Prog.Uses.handle ((timeless_request _ _ _ _ _).bind fun _ => trivial) fun _ => trivial
  · split
    · exact (timeless_updateState _).bind fun _ => (uses_lift _).bind fun _ => trivial
    · trivial

theorem timeless_sendPart (session : MultipartSession) (chunks : List Bytes) (hashed : Bytes) (length : Nat) :
    (adapter.sendPart P session reference chunks hashed length).Uses Op.Timeless := by
  induction chunks generalizing hashed length with
  | nil => trivial
  | cons chunk rest ih =>
    unfold OciDistributionAdapter.sendPart
    dsimp only
    split
    · trivial
    refine timeless_readState.bind fun state => ?_
    split
    · trivial
    refine Prog.Uses.bind ?_ fun _ => ih _ _
    refine (timeless_updateState _).bind fun state => Prog.Uses.bind ?_ fun upload =>
      (timeless_updateState _).bind fun _ => trivial
    unfold RegistryHttpClient.patchUpload
    split
    · trivial
    refine (timeless_request _ _ _ _ _).bind fun response => ?_
    split
    · trivial
    · exact (uses_lift _).bind fun _ => trivial

/-- A part is uploaded without a look at the clock. -/
theorem timeless_uploadPart (session : MultipartSession) (partNumber : Nat) (payload : PayloadReference) :
    (adapter.uploadPart P session partNumber payload).Uses Op.Timeless := by
  have hstate : (adapter.stateOf session).Uses Op.Timeless := by
    refine timeless_memory fun memory => ?_
    repeat' split
    all_goals trivial
  refine hstate.bind fun reference => timeless_readState.bind fun state => ?_
  split
  · trivial
  split
  · trivial
  refine Prog.Uses.bind (Prog.Uses.tryCatch ?_ fun error => (timeless_abortMultipart session).bind fun _ => trivial)
    fun identity => (timeless_updateState _).bind fun _ => trivial
  refine Prog.Uses.bind (Prog.uses_perform (by rintro ⟨⟩)) fun stream =>
    (timeless_sendPart session _ _ _).bind fun sent => ?_
  dsimp only
  cases stream.failure with
  | some failure => trivial
  | none =>
    dsimp only
    split
    · trivial
    · exact (uses_lift _).bind fun _ => trivial

end Timeless

/-! ## The runs -/

/-- What a begin returns expires one hour after the time it read. -/
theorem Turn.expires {event : DeskEvent} (h : Turn P adapter event.before event.after event.call event.outcome)
    {operation : Operation} {session : MultipartSession} (hcall : event.call = .beginMultipart operation)
    (houtcome : event.outcome = .ok (.session session)) : ∃ reading, .told (.aware reading) ∈ segment event ∧
      session.expiresAt = P.timestamp (reading + 3600 * 1000000) := by
  obtain ⟨call, outcome, before, after⟩ := event
  dsimp only at h hcall houtcome
  subst hcall houtcome
  cases h with
  | begun _ _ value upload machine reading hmachine hsize hexpires hafter =>
    refine ⟨reading, ?_, hexpires⟩
    have hsegment : segment ⟨.beginMultipart operation, .ok (.session session), before, after⟩ =
        [.opened upload.minimumChunkBytes, .told (.aware reading)] := segment_eq (by rw [hafter])
    rw [hsegment]
    simp

/-- The expiry of a session is the time of its begin and one hour, no call on the session reads it, and
the session lives from its begin until a call ends it. -/
theorem expiry_advisory (laws : P.Lawful) {config : Config Op Op.Res Err Answer Desk Call}
    (hrun : DeskReachable P adapter config) :
    (∀ event ∈ config.history, ∀ operation session, event.call = .beginMultipart operation →
      event.outcome = .ok (.session session) → ∃ reading, .told (.aware reading) ∈ segment event ∧
        session.expiresAt = P.timestamp (reading + 3600 * 1000000)) ∧
    (∀ session expiresAt,
      (∀ partNumber payload, adapter.uploadPart P { session with expiresAt } partNumber payload =
        adapter.uploadPart P session partNumber payload) ∧
      (∀ parts, adapter.completeMultipart P { session with expiresAt } parts =
        adapter.completeMultipart P session parts) ∧
      adapter.abortMultipart P { session with expiresAt } = adapter.abortMultipart P session) ∧
    (∀ session partNumber payload, (adapter.uploadPart P session partNumber payload).Uses Op.Timeless) ∧
    (config.phase = .idle → ∀ sessionId,
      Since (Begins sessionId) (fun event => ¬Ends sessionId event) config.history →
        ∃ reference state, Live config.state.memory sessionId reference state) := by
  obtain ⟨desk, hcourse⟩ := hrun.course laws
  refine ⟨?_, ?_, timeless_uploadPart, ?_⟩
  · intro event hmem operation session hcall houtcome
    exact (hcourse.turns event hmem).expires hcall houtcome
  · intro session expiresAt
    exact ⟨uploadPart_expiresAt session expiresAt, completeMultipart_expiresAt session expiresAt,
      abortMultipart_expiresAt session expiresAt⟩
  · intro hidle sessionId hsince
    obtain ⟨state, phase, history⟩ := config
    obtain rfl : phase = .idle := hidle
    exact (hrun.holds laws).lives sessionId hsince

namespace Sample

open MeridianOci.Model.Sample

/-- A session is begun at the start of the day, another one two hours later, and then the first part of the
first session is uploaded. -/
theorem late_part : ∃ desk, desk.seen = (withSession (withSession Desk.empty "0" 0) "1" (7200 * 1000000)).seen ++
    [.delivered [[0]], .patched [0]] ∧ DeskReachable platform (Sample.adapter 0) ⟨desk, .idle,
    [⟨begin, .ok (.session (handle "0" 0)), Desk.empty, withSession Desk.empty "0" 0⟩,
      ⟨begin, .ok (.session (handle "1" (7200 * 1000000))), withSession Desk.empty "0" 0,
        withSession (withSession Desk.empty "0" 0) "1" (7200 * 1000000)⟩,
      ⟨.uploadPart (handle "0" 0) 1 payload, .ok (.part (partOf (handle "0" 0) [0])),
        withSession (withSession Desk.empty "0" 0) "1" (7200 * 1000000), desk⟩]⟩ := by
  have hlive : Live (withSession (withSession Desk.empty "0" 0) "1" (7200 * 1000000)).memory
      (handle "0" 0).sessionId 0 firstSession := ⟨by decide, rfl⟩
  obtain ⟨desk, hpart, hseen⟩ := performs_part hlive rfl rfl rfl (show ([0] : Bytes) ≠ [] by simp) (by decide)
    (by decide)
  have hbegun := Reachable.performs (Reachable.performs .refl (@performs_begin Desk.empty "0" 0 (by decide)))
    (@performs_begin (withSession Desk.empty "0" 0) "1" (7200 * 1000000) (by decide))
  exact ⟨desk, hseen, Reachable.performs hbegun (hpart.bind (.ret _ _))⟩

def readings (seen : List Sighting) : List Int :=
  seen.filterMap fun
    | .told (.aware reading) => some reading
    | _ => none

/-- The clock goes forward and is past the expiry of a session, and a part of the session is accepted. -/
theorem expired_part_accepted : ∃ config, DeskReachable platform (Sample.adapter 0) config ∧
    ∃ first later part : DeskEvent, ∃ session, config.history = [first, later, part] ∧
      first.outcome = .ok (.session session) ∧
      session.expiresAt = platform.timestamp (3600 * 1000000) ∧
      readings (segment first ++ segment later ++ segment part) = [0, 7200 * 1000000] ∧
      ∃ number payload accepted, part.call = .uploadPart session number payload ∧
        part.outcome = .ok (.part accepted) := by
  obtain ⟨desk, hseen, hrun⟩ := late_part
  refine ⟨_, hrun, _, _, _, _, rfl, rfl, rfl, ?_, _, _, _, rfl, rfl⟩
  have hpart : ∀ call outcome, segment ⟨call, outcome, withSession (withSession Desk.empty "0" 0) "1" (7200 * 1000000),
      desk⟩ = [.delivered [[0]], .patched [0]] := fun _ _ => segment_eq hseen
  rw [hpart]
  rfl

theorem expiry_advisory_late : ∃ config, DeskReachable platform (Sample.adapter 0) config ∧
    config.history.length = 3 ∧ ∃ reference state, Live config.state.memory "u0" reference state := by
  obtain ⟨desk, -, hrun⟩ := late_part
  refine ⟨_, hrun, rfl, (expiry_advisory lawful hrun).2.2.2 rfl "u0" ?_⟩
  refine ⟨[], _, _, rfl, ⟨handle "0" 0, rfl, rfl⟩, ?_⟩
  intro later hlater
  rcases List.mem_cons.mp hlater with hbegin | hpart
  · rw [hbegin]
    exact id
  · rw [List.mem_singleton.mp hpart]
    exact id

end Sample

end MeridianOci.Service
