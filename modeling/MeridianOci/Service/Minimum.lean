import MeridianOci.Service.Handles

/-!
# The minimum chunk length

A registry may announce a minimum when it opens an upload, and the upload location
records it. Nothing else looks at it: the PATCHes are the chunks of the payload as they
come, so the minimum is respected exactly when these were long enough.
-/
namespace MeridianOci.Service

open MeridianOci.Data MeridianOci.Effect MeridianOci.Model

set_option autoImplicit false

variable {P : Platform} {adapter : OciDistributionAdapter}

/-- A completion that finalises found its session live. -/
theorem Turn.finalises {event : DeskEvent} (h : Turn P adapter event.before event.after event.call event.outcome)
    {session : MultipartSession} {parts : List MultipartPart} (hcall : event.call = .completeMultipart session parts)
    (hfinalised : .finalised ∈ segment event) :
    ∃ reference state, Live event.before.memory session.sessionId reference state := by
  obtain ⟨call, outcome, before, after⟩ := event
  dsimp only at h hcall
  subst hcall
  cases h with
  | completed _ _ _ reference state hsession hpart hlive hparts hclosed hdigest => exact ⟨reference, state, hlive⟩
  | uncompleted _ _ error hafter =>
    have hnothing : segment ⟨.completeMultipart session parts, .error error, before, after⟩ = [] :=
      segment_eq (by rw [hafter, List.append_nil])
    rw [hnothing] at hfinalised
    cases hfinalised

/-- Wherever an upload is finalised, by a put or by the completion of a session, its PATCHes but the last had
the announced minimum if and only if the delivered chunks but the last had. -/
theorem minimum_respected (laws : P.Lawful) {config : Config Op Op.Res Err Answer Desk Call}
    (hrun : DeskReachable P adapter config) :
    (∀ event ∈ config.history, ∀ operation, event.call = .execute operation →
      ∀ front rest, segment event = front ++ .finalised :: rest →
        ∃ sending, sendingOf front = some sending ∧ (sending.Respects ↔ sending.LongChunks)) ∧
    (∀ front event rest, config.history = front ++ event :: rest →
      ∀ session parts, event.call = .completeMultipart session parts → .finalised ∈ segment event →
        ∃ sending, sendingOf (sessionSeen front session.sessionId) = some sending ∧
          (sending.Respects ↔ sending.LongChunks)) := by
  obtain ⟨desk, hcourse⟩ := hrun.course laws
  constructor
  · intro event hmem operation hcall front rest hsegment
    have hturn := hcourse.turns event hmem
    rw [hcall] at hturn
    cases hturn with
    | executed _ _ extra hfair hsession hpart hafter =>
      rw [segment_eq (by rw [hafter])] at hsegment
      obtain ⟨sending, hsending, hfaithful⟩ := hfair front rest hsegment
      exact ⟨sending, hsending, hfaithful.respects_iff⟩
  · intro front event rest hhistory session parts hcall hfinalised
    have hmem : event ∈ config.history := by
      rw [hhistory]
      exact List.mem_append_right _ List.mem_cons_self
    obtain ⟨reference, state, hlive⟩ := (hcourse.turns event hmem).finalises hcall hfinalised
    obtain ⟨sending, hsending, hfaithful⟩ := (hrun.before laws hhistory).sending _ reference state hlive
    exact ⟨sending, hsending, hfaithful.respects_iff⟩

namespace Sample

open MeridianOci.Model.Sample

/-- The registry opens an upload and announces a minimum of 100 bytes. -/
def announcing : Response := ⟨202, [("location", "/1"), ("oci-chunk-min-length", "100")], "https://registry/", [], none⟩

def finished : Response := ⟨201, [], "https://registry/", [], none⟩

def refusing : Response := ⟨401, [], "https://registry/", [], none⟩

def putCall : Call := .execute (Plain.operation { objectId := "a", text := "x" })

/-- What is seen of a put whose payload comes in two chunks of one byte. -/
def short : List Sighting := [.opened (some 100), .delivered [[1], [2]], .patched [1], .patched [2], .finalised]

def shown (n : Nat) : Desk := ⟨⟨[], []⟩, short.take n⟩

theorem performs_short : Performs (Desk.env platform) (putCall.program platform (Sample.adapter 0)) (shown 0)
    (.error (responseError platform ⟨401, [], []⟩)) (shown 5) := by
  refine .call _ _ _ (shown 0) _ (.ok ()) _ (by exact rfl) ?_
  refine .call _ _ _ (shown 1) _ (.ok announcing) _ (by exact rfl) ?_
  refine .call _ _ _ (shown 2) _ (.ok ⟨[[1], [2]], none⟩) _ (by exact rfl) ?_
  refine .call _ _ _ (shown 3) _ (.ok opening) _ (by exact rfl) ?_
  refine .call _ _ _ (shown 4) _ (.ok opening) _ (by exact rfl) ?_
  refine .call _ _ _ (shown 5) _ (.ok finished) _ (by exact rfl) ?_
  -- the upload is final; the look for the exact tag is refused
  refine .call _ _ _ (shown 5) _ (.ok refusing) _ (by exact rfl) ?_
  refine .call _ _ _ (shown 5) _ (.ok ()) _ (by exact rfl) ?_
  exact .raise _ _

theorem reachable_short : DeskReachable platform (Sample.adapter 0)
    ⟨shown 5, .idle, [⟨putCall, .error (responseError platform ⟨401, [], []⟩), Desk.empty, shown 5⟩]⟩ :=
  Reachable.performs .refl performs_short

/-- An upload with a minimum of 100 bytes is finalised after two PATCHes of one byte. -/
theorem short_patch_finalised : ∃ config, DeskReachable platform (Sample.adapter 0) config ∧
    ∃ event ∈ config.history, ∃ front rest sending, segment event = front ++ .finalised :: rest ∧
      sendingOf front = some sending ∧ ¬sending.Respects := by
  refine ⟨_, reachable_short, _, List.mem_cons_self, short.take 4, [], ⟨some 100, [[1], [2]], [[1], [2]]⟩, rfl, rfl, ?_⟩
  intro hrespects
  exact absurd (hrespects 100 rfl [1] List.mem_cons_self) (by decide)

theorem minimum_respected_short : ∃ config, DeskReachable platform (Sample.adapter 0) config ∧
    ∃ event ∈ config.history, ∃ sending, sendingOf (short.take 4) = some sending ∧
      segment event = short.take 4 ++ [.finalised] ∧ (sending.Respects ↔ sending.LongChunks) := by
  refine ⟨_, reachable_short, _, List.mem_cons_self, ?_⟩
  obtain ⟨sending, hsending, hrespects⟩ := (minimum_respected lawful reachable_short).1 _ List.mem_cons_self _ rfl
    (short.take 4) [] rfl
  exact ⟨sending, hsending, rfl, hrespects⟩

end Sample

end MeridianOci.Service
