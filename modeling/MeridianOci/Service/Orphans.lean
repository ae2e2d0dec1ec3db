import MeridianOci.Service.Ownership
import MeridianOci.Service.Sample

/-!
# No orphaned uploads

The calls of the multipart manager over any registry. A call on a session keeps its
upload open and the session live, or ends both; a begin leaves its upload to a new
session if it can be named and dated; every other upload that a call opens has ended
when the call ends.
-/
namespace MeridianOci.Service

open MeridianOci.Data MeridianOci.Effect MeridianOci.Model

set_option autoImplicit false

variable {P : Platform}

namespace Journal

variable {client : RegistryHttpClient} {sessionId : String} {reference k : Nat} {j₀ j : Journal P client}
variable {state : MultipartState} {entry : Upload}

/-! ## The manager's operations -/

theorem memory_journal (j : Journal P client) (update : Memory → Memory) :
    (Action.memory update).Ensures env Advances j fun outcome j' =>
      outcome = .ok j.memory ∧ j'.memory = update j.memory ∧ j'.uploads = j.uploads := by
  refine Prog.Ensures.perform fun answer j' henv => ⟨?_, env_memory_ok henv⟩
  exact advances_env henv (by rintro request url digest ⟨⟩)

theorem readState_journal (h : j.memory.heap[reference]? = some state) :
    (OciDistributionAdapter.readState reference).Ensures env Advances j fun outcome j' =>
      outcome = .ok state ∧ j'.memory = j.memory ∧ j'.uploads = j.uploads := by
  refine (memory_journal j _).bind ?_ ?_
  · rintro memory j' ⟨heq, hsame⟩
    obtain rfl := Except.ok.inj heq
    simp only [h]
    exact ⟨rfl, hsame⟩
  · rintro error j' ⟨heq, -⟩
    cases heq

theorem updateState_journal (h : j.memory.heap[reference]? = some state) (update : MultipartState → MultipartState) :
    (OciDistributionAdapter.updateState reference update).Ensures env Advances j fun outcome j' =>
      outcome = .ok state ∧ j'.memory = j.memory.modify reference (fun _ => update state) ∧ j'.uploads = j.uploads := by
  refine (memory_journal j _).bind ?_ ?_
  · rintro memory j' ⟨heq, hmemory, huploads⟩
    obtain rfl := Except.ok.inj heq
    simp only [h]
    refine ⟨rfl, ?_, huploads⟩
    rw [hmemory]
    exact modify_congr h rfl
  · rintro error j' ⟨heq, -⟩
    cases heq

theorem readState_holds (h : Holds sessionId reference k j₀ state entry j) :
    (OciDistributionAdapter.readState reference).Ensures env Advances j fun outcome j' =>
      outcome = .ok state ∧ Holds sessionId reference k j₀ state entry j' := by
  refine (readState_journal h.live.object).mono ?_
  rintro outcome j' ⟨rfl, hmemory, huploads⟩
  exact ⟨rfl, h.settles (.of_same hmemory huploads)⟩

theorem updateState_holds (h : Holds sessionId reference k j₀ state entry j) {update : MultipartState → MultipartState}
    (hupload : (update state).upload = state.upload) :
    (OciDistributionAdapter.updateState reference update).Ensures env Advances j fun outcome j' =>
      outcome = .ok state ∧ Holds sessionId reference k j₀ (update state) entry j' := by
  refine (updateState_journal h.live.object update).mono ?_
  rintro outcome j' ⟨rfl, hmemory, huploads⟩
  exact ⟨rfl, h.step hmemory (.of_same h.uploads.get huploads) (by rw [hupload, h.location])⟩

/-- An update of the machine alone. -/
theorem updateMachine_holds (h : Holds sessionId reference k j₀ state entry j)
    {update : MultipartState → MultipartState} (hupdate : ∃ machine, update state = { state with machine }) :
    (OciDistributionAdapter.updateState reference update).Ensures env Advances j fun outcome j' =>
      outcome = .ok state ∧ ∃ machine, Holds sessionId reference k j₀ { state with machine } entry j' := by
  obtain ⟨machine, hmachine⟩ := hupdate
  refine (updateState_holds h (by rw [hmachine])).mono ?_
  rintro outcome j' ⟨rfl, hholds⟩
  rw [hmachine] at hholds
  exact ⟨rfl, machine, hholds⟩

theorem transitionState_holds (h : Holds sessionId reference k j₀ state entry j) (target : PutState) :
    (OciDistributionAdapter.transitionState P reference target).Ensures env Advances j fun _ j' =>
      ∃ machine, Holds sessionId reference k j₀ { state with machine } entry j' := by
  refine (updateMachine_holds h ?_).bind ?_ ?_
  · cases P.transition state.machine target with
    | ok machine => exact ⟨machine, rfl⟩
    | error error => exact ⟨state.machine, rfl⟩
  · rintro before j' ⟨-, hholds⟩
    cases P.transition before.machine target with
    | ok value => exact hholds
    | error error => exact hholds
  · rintro error j' ⟨heq, -⟩
    cases heq

theorem failState_holds (h : Holds sessionId reference k j₀ state entry j) (physicalCommit : Bool) :
    (OciDistributionAdapter.failState P reference physicalCommit).Ensures env Advances j fun _ j' =>
      ∃ machine, Holds sessionId reference k j₀ { state with machine } entry j' := by
  refine (updateMachine_holds h ?_).bind ?_ ?_
  · cases P.fail state.machine physicalCommit with
    | ok machine => exact ⟨machine, rfl⟩
    | error error => exact ⟨state.machine, rfl⟩
  · rintro before j' ⟨-, hholds⟩
    cases P.fail before.machine physicalCommit with
    | ok value => exact hholds
    | error error => exact hholds
  · rintro error j' ⟨heq, -⟩
    cases heq

/-- The lock is the process's own. -/
theorem locked_journal {α : Type} {action : Action α} {Q : Except Err α → Journal P client → Prop}
    (h : ∀ j', j'.memory = j.memory → j'.uploads = j.uploads → action.Ensures env Advances j' Q)
    (hQ : ∀ outcome j' j'', Q outcome j' → j''.memory = j'.memory → j''.uploads = j'.uploads → Q outcome j'') :
    (Action.locked action).Ensures env Advances j Q := by
  have hacquire : (Action.acquire).Ensures env Advances j fun outcome j' =>
      outcome = .ok () ∧ j'.memory = j.memory ∧ j'.uploads = j.uploads :=
    Prog.Ensures.perform fun answer j' henv =>
      ⟨advances_env henv (by rintro request url digest ⟨⟩), henv.2.1, henv.2.2, uploads_log henv.1⟩
  have hrelease : ∀ j' : Journal P client, (Action.release).Ensures env Advances j' fun outcome j'' =>
      outcome = .ok () ∧ j''.memory = j'.memory ∧ j''.uploads = j'.uploads := fun j' =>
    Prog.Ensures.perform fun answer j'' henv =>
      ⟨advances_env henv (by rintro request url digest ⟨⟩), henv.2.1, henv.2.2, uploads_log henv.1⟩
  refine hacquire.bind ?_ ?_
  · rintro ⟨⟩ j' ⟨-, hmemory, huploads⟩
    refine (h j' hmemory huploads).finally_ fun outcome j₁ hq => (hrelease j₁).mono ?_
    rintro _ j₂ ⟨rfl, hmemory₂, huploads₂⟩
    exact hQ outcome j₁ j₂ hq hmemory₂ huploads₂
  · rintro error j' ⟨heq, -⟩
    cases heq

/-- The log of a program follows the log before it. -/
theorem logged {α : Type} {program : Action α} {Q : Except Err α → Journal P client → Prop}
    (h : program.Ensures env Advances j Q) : program.Ensures env Advances j fun outcome j' =>
      Q outcome j' ∧ ∃ segment, j'.log = j.log ++ segment := by
  induction program generalizing j with
  | ret value => exact ⟨h, [], (List.append_nil _).symm⟩
  | raise error => exact ⟨h, [], (List.append_nil _).symm⟩
  | call op next ih =>
    intro answer j' henv
    obtain ⟨hadvances, hnext⟩ := h answer j' henv
    refine ⟨hadvances, (ih answer hnext).mono ?_⟩
    rintro outcome j'' ⟨hq, segment, hlog⟩
    exact ⟨hq, ⟨op, answer⟩ :: segment, by rw [hlog, env_log henv, List.append_assoc]; rfl⟩

section Calls

variable {adapter : OciDistributionAdapter} {sessionId : String} {reference k : Nat}
variable {j₀ j : Journal P adapter.transport} {session : MultipartSession}

/-- A session is found if it is live. -/
theorem stateOf_journal (session : MultipartSession) (j : Journal P adapter.transport) :
    (adapter.stateOf session).Ensures env Advances j fun outcome j' => j.Settles j' ∧
      ∀ reference, outcome = .ok reference → ∃ state, Live j.memory session.sessionId reference state := by
  refine (memory_journal j _).bind ?_ ?_
  · rintro memory j' ⟨heq, hmemory, huploads⟩
    obtain rfl := Except.ok.inj heq
    have hsame := Settles.of_same hmemory huploads
    cases hentry : j.memory.lookup session.sessionId with
    | none => exact ⟨hsame, by rintro reference ⟨⟩⟩
    | some reference =>
      dsimp only
      cases hobject : j.memory.heap[reference]? with
      | none => exact ⟨hsame, by rintro reference ⟨⟩⟩
      | some state =>
        dsimp only
        split
        · exact ⟨hsame, by rintro reference ⟨⟩⟩
        · refine ⟨hsame, ?_⟩
          rintro _ ⟨⟩
          exact ⟨state, hentry, hobject⟩
  · rintro error j' ⟨heq, -⟩
    cases heq

theorem sendChunk_journal (h : Tracks sessionId reference k j₀ j) (chunk : Bytes) :
    (adapter.sendChunk P reference chunk).Ensures env Advances j fun _ j' => Tracks sessionId reference k j₀ j' := by
  obtain ⟨state, entry, hholds, hopen, hmachine⟩ := h
  have hhashed := @updateState_holds P adapter.transport sessionId reference k j₀ j state entry hholds
    (fun state => { state with hashed := state.hashed ++ chunk }) rfl
  refine hhashed.bind ?_ ?_
  · rintro before j₁ ⟨heq, hholds⟩
    obtain rfl := Except.ok.inj heq
    refine (patchUpload_journal hholds.uploads.get hopen hholds.location chunk).bind ?_ ?_
    · rintro upload j₂ ⟨hmemory, huploads⟩
      obtain ⟨hlt, -⟩ := List.getElem?_eq_some_iff.mp hholds.uploads.get
      have hobject := hholds.live.object
      rw [← hmemory] at hobject
      refine (updateState_journal hobject fun state => { state with upload }).bind ?_ ?_
      · rintro _ j₃ ⟨-, hmemory₃, huploads₃⟩
        rw [hmemory] at hmemory₃
        exact ⟨_, _, hholds.step hmemory₃ (.of_set hlt (huploads₃.trans huploads)) rfl, hopen, hmachine⟩
      · rintro error j₃ ⟨heq, -⟩
        cases heq
    · rintro error j₂ ⟨hmemory, huploads⟩
      exact ⟨_, entry, hholds.settles (.of_same hmemory huploads), hopen, hmachine⟩
  · rintro error j₁ ⟨heq, -⟩
    cases heq

theorem sendPart_journal (chunks : List Bytes) (h : Tracks sessionId reference k j₀ j) (hashed : Bytes) (length : Nat) :
    (adapter.sendPart P session reference chunks hashed length).Ensures env Advances j fun _ j' =>
      Tracks sessionId reference k j₀ j' := by
  induction chunks generalizing j hashed length with
  | nil => exact h
  | cons chunk rest ih =>
    unfold OciDistributionAdapter.sendPart
    dsimp only
    split
    · exact h
    · obtain ⟨state, entry, hholds, hopen, hmachine⟩ := h
      refine (readState_holds hholds).bind ?_ ?_
      · rintro found j₁ ⟨-, hholds⟩
        have htracks : Tracks sessionId reference k j₀ j₁ := ⟨state, entry, hholds, hopen, hmachine⟩
        split
        · exact htracks
        · refine (sendChunk_journal htracks chunk).bind ?_ fun _ _ h => h
          exact fun _ j₂ htracks => ih htracks _ _
      · rintro error j₁ ⟨heq, -⟩
        cases heq

theorem transferPart_journal (h : Tracks sessionId reference k j₀ j) (payload : PayloadReference) :
    (adapter.transferPart P session reference payload).Ensures env Advances j fun _ j' =>
      Tracks sessionId reference k j₀ j' := by
  have hopenPayload : (Action.openPayload payload session.partSize).Ensures env Advances j fun _ j' =>
      Tracks sessionId reference k j₀ j' :=
    (settling_of_aside (aside_openPayload payload _) j).mono fun _ _ hsettles => h.settles hsettles
  refine hopenPayload.bind ?_ fun _ _ h => h
  intro stream j₁ h₁
  refine (sendPart_journal stream.chunks h₁ [] 0).bind ?_ fun _ _ h => h
  rintro ⟨hashed, length⟩ j₂ h₂
  dsimp only
  cases stream.failure with
  | some failure => exact h₂
  | none =>
    dsimp only
    split
    · exact h₂
    · refine (settling_of_aside (aside_lift _) j₂).bind ?_ ?_
      · exact fun _ j₃ hsettles => h₂.settles hsettles
      · exact fun _ j₃ hsettles => h₂.settles hsettles

/-- An abort ends the upload of the session and the session. -/
theorem abortMultipart_journal (h : Tracks session.sessionId reference k j₀ j) :
    (adapter.abortMultipart P session).Ensures env Advances j fun _ j' => Ended session.sessionId reference k j₀ j' := by
  obtain ⟨state, entry, hholds, -, -⟩ := h
  refine (memory_journal j _).bind ?_ ?_
  · rintro memory j₁ ⟨heq, hmemory, huploads⟩
    obtain rfl := Except.ok.inj heq
    rw [hholds.live.entry]
    dsimp only
    -- popped from the table, the session is read and written through its object
    have hobject : j₁.memory.heap[reference]? = some state := by
      rw [hmemory]
      exact hholds.live.object
    have huploads₁ : Touched k entry j₀ j₁ := hholds.uploads.trans (.of_same hholds.uploads.get huploads)
    have hmemory₁ : j₁.memory = (j₀.memory.modify reference fun _ => state).pop session.sessionId := by
      rw [hmemory, hholds.memory]
    refine (readState_journal hobject).bind ?_ ?_
    · rintro found j₂ ⟨heq, hmemory₂, hread⟩
      obtain rfl := Except.ok.inj heq
      have huploads₂ := huploads₁.trans (.of_same huploads₁.get hread)
      refine (abortSafely_journal huploads₂.get hholds.location).bind ?_ ?_
      · rintro ⟨⟩ j₃ ⟨hmemory₃, habort, -⟩
        obtain ⟨hlt, -⟩ := List.getElem?_eq_some_iff.mp huploads₂.get
        have huploads₃ : Touched k entry.close j₀ j₃ := huploads₂.trans (.of_set hlt habort)
        have hended : ∀ j₄ : Journal P adapter.transport,
            (∃ state', j₄.memory = j₃.memory.modify reference fun _ => state') → j₄.uploads = j₃.uploads →
            Ended session.sessionId reference k j₀ j₄ := by
          rintro j₄ ⟨state', hmemory₄⟩ huploads₄
          refine ⟨⟨state', ?_⟩, entry.close, huploads₃.trans (.of_same huploads₃.get huploads₄), rfl⟩
          rw [hmemory₄, hmemory₃, hmemory₂, hmemory₁]
          exact congrArg (·.pop session.sessionId) (modify_modify _ _ _ _)
        have hobject₃ : j₃.memory.heap[reference]? = some found := by
          rw [hmemory₃, hmemory₂]
          exact hobject
        refine (readState_journal hobject₃).bind ?_ ?_
        · rintro _ j₄ ⟨-, hmemory₄, huploads₄⟩
          have hobject₄ : j₄.memory.heap[reference]? = some found := by
            rw [hmemory₄]
            exact hobject₃
          split
          · refine (updateState_journal hobject₄ _).bind ?_ ?_
            · rintro before j₅ ⟨-, hmemory₅, huploads₅⟩
              rw [hmemory₄] at hmemory₅
              have hlast := hended j₅ ⟨_, hmemory₅⟩ (huploads₅.trans huploads₄)
              cases P.transition before.machine .aborted with
              | ok machine => exact hlast
              | error error => exact hlast
            · rintro error j₅ ⟨heq, -⟩
              cases heq
          · exact hended j₄ ⟨found, by rw [hmemory₄, modify_self hobject₃]⟩ huploads₄
        · rintro error j₄ ⟨heq, -⟩
          cases heq
      · rintro error j₃ ⟨-, -, value, hok⟩
        cases hok
    · rintro error j₂ ⟨heq, -⟩
      cases heq
  · rintro error j₁ ⟨heq, -⟩
    cases heq

/-- Without its session an abort does nothing. -/
theorem abortMultipart_absent (h : j.memory.lookup session.sessionId = none) :
    (adapter.abortMultipart P session).Ensures env Advances j fun _ j' => j.Settles j' := by
  refine (memory_journal j _).bind ?_ ?_
  · rintro memory j' ⟨heq, hmemory, huploads⟩
    obtain rfl := Except.ok.inj heq
    rw [h]
    exact .of_same (by rw [hmemory, pop_of_lookup h]) huploads
  · rintro error j' ⟨heq, -⟩
    cases heq

theorem uploadPart_journal (hsound : Sound j) (partNumber : Nat) (payload : PayloadReference) :
    (adapter.uploadPart P session partNumber payload).Ensures env Advances j fun _ j' => Keeps j j' := by
  refine (stateOf_journal session j).bind ?_ fun _ _ h => .settles hsound h.1
  rintro reference j₁ ⟨hsettles, hlive⟩
  obtain ⟨state, hlive⟩ := hlive reference rfl
  obtain ⟨k, howns⟩ := hsound.owns hlive
  have hkeeps : ∀ {j'}, Tracks session.sessionId reference k j j' → Keeps j j' := howns.tracks_keeps hsound
  obtain ⟨state, entry, hholds, hopen, hmachine⟩ := howns.tracks.settles hsettles
  refine (readState_holds hholds).bind ?_ ?_
  · rintro found j₂ ⟨-, hholds⟩
    have htracks : Tracks session.sessionId reference k j j₂ := ⟨state, entry, hholds, hopen, hmachine⟩
    dsimp only
    split
    · exact hkeeps htracks
    split
    · exact hkeeps htracks
    · refine Prog.Ensures.bind (R := Prog.Exits (fun _ j' => Keeps j j')
        fun _ j' => Tracks session.sessionId reference k j j') ?_ ?_ fun _ _ h => h
      · refine (transferPart_journal htracks payload).handle ?_
        rintro (error | identity) j₃ h₃
        · refine (abortMultipart_journal h₃).bind ?_ ?_
          · exact fun _ j₄ hended => howns.ended_keeps hsound hended
          · exact fun _ j₄ hended => howns.ended_keeps hsound hended
        · exact h₃
      · rintro identity j₃ ⟨state, entry, hholds, hopen, hmachine⟩
        have hstored := fun part => @updateState_holds P adapter.transport session.sessionId reference k j j₃ state entry
          hholds (MultipartState.acknowledge part) rfl
        refine (hstored _).bind ?_ ?_
        · rintro before j₄ ⟨-, hholds⟩
          exact hkeeps ⟨_, entry, hholds, hopen, hmachine⟩
        · rintro error j₄ ⟨heq, -⟩
          cases heq
  · rintro error j₂ ⟨heq, -⟩
    cases heq

/-- The commit of a completion: it raises before the upload is finished, or the upload has ended. -/
theorem commitMultipart_journal (h : Tracks sessionId reference k j₀ j) (value : PutInput) (identity : ContentIdentity)
    (immutability : ImmutabilityRequest) (retention : Option RetentionRequest) :
    (adapter.commitMultipart P reference value identity immutability retention).Ensures env Advances j fun outcome j' =>
      Finishes sessionId reference k j₀ j' ∨
        ((∃ error, outcome = .error error) ∧ Tracks sessionId reference k j₀ j') := by
  unfold OciDistributionAdapter.commitMultipart
  refine (settling_of_aside (aside_requireCreateAvailable P adapter _ _ _) j).bind ?_ ?_
  · rintro ⟨⟩ j₁ hsettles
    obtain ⟨state, entry, hholds, hopen, hmachine⟩ := h.settles hsettles
    refine (readState_holds hholds).bind ?_ ?_
    · rintro found j₂ ⟨heq, hholds⟩
      obtain rfl := Except.ok.inj heq
      refine (finishUpload_journal hholds.uploads.get hholds.location identity.digest).bind ?_ ?_
      · rintro descriptor j₃ ⟨hmemory, huploads⟩
        obtain ⟨state₃, entry₃, hholds₃, hclosed⟩ := hholds.close hmemory huploads
        have hfinishes : ∀ {outcome : Except Err ObjectMetadata} {j' : Journal P adapter.transport}
            {machine : PutState}, Holds sessionId reference k j₀ { state₃ with machine } entry₃ j' →
            Finishes sessionId reference k j₀ j' ∨
              ((∃ error, outcome = .error error) ∧ Tracks sessionId reference k j₀ j') :=
          fun hholds => .inl ⟨_, entry₃, hholds, hclosed⟩
        refine (transitionState_holds hholds₃ .verifying).bind ?_ ?_
        · rintro ⟨⟩ j₄ ⟨machine, hholds₄⟩
          refine (settling_commitObject P adapter value identity immutability retention _ j₄).bind ?_ ?_
          · intro metadata j₅ hsettles₅
            refine (transitionState_holds (hholds₄.settles hsettles₅) .committed).bind ?_ ?_
            · rintro ⟨⟩ j₆ ⟨machine', hholds₆⟩
              exact .inl ⟨_, entry₃, hholds₆, hclosed⟩
            · rintro error j₆ ⟨machine', hholds₆⟩
              exact .inl ⟨_, entry₃, hholds₆, hclosed⟩
          · exact fun error j₅ hsettles₅ => hfinishes (hholds₄.settles hsettles₅)
        · rintro error j₄ ⟨machine, hholds₄⟩
          exact hfinishes hholds₄
      · rintro error j₃ ⟨hmemory, huploads | huploads⟩
        · exact .inr ⟨⟨error, rfl⟩, found, entry, hholds.settles (.of_same hmemory huploads), hopen, hmachine⟩
        · exact .inl (hholds.close hmemory huploads)
    · rintro error j₂ ⟨heq, -⟩
      cases heq
  · exact fun error j₁ hsettles => .inr ⟨⟨error, rfl⟩, h.settles hsettles⟩

/-- An error of the commit: an upload still open is aborted. -/
theorem abandonMultipart_journal (error : Err)
    (h : Finishes sessionId reference k j₀ j ∨ Tracks sessionId reference k j₀ j) :
    (adapter.abandonMultipart P reference error).Ensures env Advances j fun _ j' => Finishes sessionId reference k j₀ j' := by
  obtain ⟨state, entry, hholds, hentry⟩ : ∃ state entry, Holds sessionId reference k j₀ state entry j ∧
      (entry.closed = true ∨ state.machine = .uploading) := by
    rcases h with ⟨state, entry, hholds, hclosed⟩ | ⟨state, entry, hholds, -, hmachine⟩
    · exact ⟨state, entry, hholds, .inl hclosed⟩
    · exact ⟨state, entry, hholds, .inr hmachine⟩
  unfold OciDistributionAdapter.abandonMultipart
  refine (readState_holds hholds).bind ?_ ?_
  · rintro found j₁ ⟨heq, hholds⟩
    obtain rfl := Except.ok.inj heq
    split
    · refine (abortSafely_journal hholds.uploads.get hholds.location).bind ?_ ?_
      · rintro ⟨⟩ j₂ ⟨hmemory, huploads, -⟩
        obtain ⟨state₂, entry₂, hholds₂, hclosed⟩ := hholds.close hmemory huploads
        refine (failState_holds hholds₂ false).bind ?_ ?_
        · rintro ⟨⟩ j₃ ⟨machine, hholds₃⟩
          exact ⟨_, entry₂, hholds₃, hclosed⟩
        · rintro failure j₃ ⟨machine, hholds₃⟩
          exact ⟨_, entry₂, hholds₃, hclosed⟩
      · rintro failure j₂ ⟨-, -, value, hok⟩
        cases hok
    · rename_i hnot
      have hclosed := hentry.resolve_right hnot
      split
      · refine (failState_holds hholds true).bind ?_ ?_
        · rintro ⟨⟩ j₂ ⟨machine, hholds₂⟩
          exact ⟨_, entry, hholds₂, hclosed⟩
        · rintro failure j₂ ⟨machine, hholds₂⟩
          exact ⟨_, entry, hholds₂, hclosed⟩
      · exact ⟨found, entry, hholds, hclosed⟩
  · rintro failure j₁ ⟨heq, -⟩
    cases heq

theorem completeMultipart_journal (hsound : Sound j) (supplied : List MultipartPart) :
    (adapter.completeMultipart P session supplied).Ensures env Advances j fun _ j' => Keeps j j' := by
  refine (stateOf_journal session j).bind ?_ fun _ _ h => .settles hsound h.1
  rintro reference j₁ ⟨hsettles, hlive⟩
  obtain ⟨state, hlive⟩ := hlive reference rfl
  obtain ⟨k, howns⟩ := hsound.owns hlive
  have hkeeps : ∀ {j'}, Tracks session.sessionId reference k j j' → Keeps j j' := howns.tracks_keeps hsound
  have hended : ∀ {j'}, Ended session.sessionId reference k j j' → Keeps j j' := howns.ended_keeps hsound
  obtain ⟨state, entry, hholds, hopen, hmachine⟩ := howns.tracks.settles hsettles
  refine (readState_holds hholds).bind ?_ ?_
  · rintro found j₂ ⟨-, hholds⟩
    have htracks : Tracks session.sessionId reference k j j₂ := ⟨state, entry, hholds, hopen, hmachine⟩
    split
    · exact hkeeps htracks
    split
    · exact hkeeps htracks
    have hlift : ∀ {α : Type} (outcome : Except Err α) {j' : Journal P adapter.transport},
        Tracks session.sessionId reference k j j' → (Action.lift outcome).Ensures env Advances j'
          fun _ j'' => Tracks session.sessionId reference k j j'' :=
      fun outcome j' htracks => (settling_of_aside (aside_lift outcome) j').mono fun _ _ hsettles => htracks.settles hsettles
    dsimp only
    refine (hlift _ htracks).bind ?_ fun _ _ h => hkeeps h
    rintro ⟨⟩ j₃ htracks
    split
    · refine (abortMultipart_journal htracks).bind ?_ fun _ _ h => hended h
      exact fun _ _ h => hended h
    split
    · refine (abortMultipart_journal htracks).bind ?_ fun _ _ h => hended h
      exact fun _ _ h => hended h
    refine (hlift _ htracks).bind ?_ fun _ _ h => hkeeps h
    intro immutability j₄ htracks
    refine (hlift _ htracks).bind ?_ fun _ _ h => hkeeps h
    intro retention j₅ htracks
    -- whatever becomes of the commit, the upload has ended and the session is dropped
    refine Prog.Ensures.finally_ (R := fun _ j' => Finishes session.sessionId reference k j j') ?_ ?_
    · refine Prog.Ensures.handle (R := fun outcome j' => Finishes session.sessionId reference k j j' ∨
        ((∃ error, outcome = .error error) ∧ Tracks session.sessionId reference k j j')) ?_ ?_
      · refine locked_journal ?_ ?_
        · exact fun j' hmemory huploads =>
            commitMultipart_journal (htracks.settles (.of_same hmemory huploads)) _ _ _ _
        · rintro outcome j' j'' (hfinishes | ⟨herror, htracks⟩) hmemory huploads
          · exact .inl (hfinishes.settles (.of_same hmemory huploads))
          · exact .inr ⟨herror, htracks.settles (.of_same hmemory huploads)⟩
      · rintro (error | metadata) j₆ h₆
        · exact abandonMultipart_journal error (h₆.imp_right And.right)
        · refine h₆.resolve_right ?_
          rintro ⟨⟨error, heq⟩, -⟩
          cases heq
    · intro outcome j₆ h₆
      refine (memory_journal j₆ _).bind ?_ ?_
      · rintro memory j₇ ⟨-, hmemory, huploads⟩
        exact hended (h₆.pop hmemory huploads)
      · rintro error j₇ ⟨heq, -⟩
        cases heq
  · rintro error j₂ ⟨heq, -⟩
    cases heq

end Calls

/-! ## The begin of a session -/

end Journal

/-- In these entries a session of the operation is named by a token no live session has, and dated by a clock that
can be read, less than an hour before the last `datetime` and with a text that `MultipartSession` accepts. -/
structure Registers (P : Platform) (adapter : OciDistributionAdapter) (operation : Operation) (memory : Memory)
    (segment : List Entry) : Prop where
  token : ∀ answer, (⟨.token, answer⟩ : Entry) ∈ segment →
    ∃ token, answer = .ok token ∧ memory.lookup ("u" ++ token) = none
  clock : ∀ answer, (⟨.clock, answer⟩ : Entry) ∈ segment → ∃ instant, answer = .ok (.aware instant)
  date : ∀ instant, (⟨.clock, .ok (.aware instant)⟩ : Entry) ∈ segment → instant + 3600 * 1000000 ≤ maxInstant
  session : ∀ value token instant, operation.input = .put value → (⟨.token, .ok token⟩ : Entry) ∈ segment →
    (⟨.clock, .ok (.aware instant)⟩ : Entry) ∈ segment →
    P.newMultipartSession ⟨"u" ++ token, adapter.objectReferenceOf value, adapter.binding.chunkSize,
      P.timestamp (instant + 3600 * 1000000)⟩ = .ok ()

namespace Journal

variable {adapter : OciDistributionAdapter} {j₀ j j' : Journal P adapter.transport}

/-- What a begin leaves: sound, and tidy if the session could be registered. -/
def Begun (operation : Operation) (j₀ j : Journal P adapter.transport) : Prop :=
  Sound j ∧ ∀ segment, j.log = j₀.log ++ segment → Registers P adapter operation j₀.memory segment → Tidy j₀ → Tidy j

theorem Keeps.begun {operation : Operation} (h : Keeps j₀ j) : Begun operation j₀ j :=
  ⟨h.sound, fun _ _ _ htidy => h.tidy htidy⟩

/-- A new session has the upload that was opened for it. -/
theorem insert_begun (hsound : Sound j₀) {sessionId : String} {input : PutInput} {upload : UploadLocation}
    (hmemory : j.memory = j₀.memory.insert sessionId (.start input upload .uploading))
    (huploads : j.uploads = j₀.uploads ++ [⟨upload.url, [], false⟩]) :
    Sound j ∧ (j₀.memory.lookup sessionId = none → Tidy j₀ → Tidy j) := by
  have hlookup : ∀ other, other ≠ sessionId → j.memory.lookup other = j₀.memory.lookup other := by
    intro other hne
    rw [hmemory, lookup_insert_ne _ hne]
  have hheap : j.memory.heap = j₀.memory.heap ++ [.start input upload .uploading] := by
    rw [hmemory]
    rfl
  have hobject : ∀ reference, reference < j₀.memory.heap.length →
      j.memory.heap[reference]? = j₀.memory.heap[reference]? := by
    intro reference hlt
    rw [hheap, List.getElem?_append_left hlt]
  have hk : j.uploads[j₀.uploads.length]? = some ⟨upload.url, [], false⟩ := by
    rw [huploads, List.getElem?_append_right le_rfl, Nat.sub_self]
    rfl
  have hnew : ∀ {reference state}, Live j.memory sessionId reference state →
      state = .start input upload .uploading := by
    intro reference state hlive
    have hfirst := live_insert j₀.memory sessionId (.start input upload .uploading)
    rw [← hmemory] at hfirst
    obtain rfl := Option.some.inj (hfirst.entry.symm.trans hlive.entry)
    exact (Option.some.inj (hfirst.object.symm.trans hlive.object)).symm
  have hbeside : Beside sessionId j₀.uploads.length j₀ j := by
    constructor
    · intro other reference hentry
      rw [hheap, List.length_append]
      by_cases hsame : other = sessionId
      · rw [hsame, hmemory, lookup_insert] at hentry
        rw [← Option.some.inj hentry]
        exact Nat.lt_succ_self _
      · rw [hlookup other hsame] at hentry
        exact Nat.lt_add_right _ (hsound.stored other reference hentry)
    · intro other reference state hne
      constructor
      · intro hlive
        have hentry := hlive.entry
        rw [hlookup other hne] at hentry
        exact ⟨hentry, by rw [← hobject reference (hsound.stored other reference hentry)]; exact hlive.object⟩
      · intro hlive
        exact ⟨by rw [hlookup other hne]; exact hlive.entry,
          by rw [hobject reference (hsound.stored other reference hlive.entry)]; exact hlive.object⟩
    · intro i other hne hi
      obtain ⟨hlt, -⟩ := List.getElem?_eq_some_iff.mp hi
      rw [huploads, List.getElem?_append_left hlt, hi]
    · intro i other hne hi hopen
      obtain ⟨hlt, -⟩ := List.getElem?_eq_some_iff.mp hi
      rw [huploads, List.length_append, List.length_singleton] at hlt
      rwa [huploads, List.getElem?_append_left (by omega)] at hi
    · intro other reference state hne hlive entry hentry
      rw [List.getElem?_eq_none le_rfl] at hentry
      cases hentry
  have hsoundj : Sound j := by
    refine hbeside.sound hsound fun reference state hlive => ?_
    rw [hnew hlive]
    exact ⟨rfl, _, hk, rfl, rfl⟩
  refine ⟨hsoundj, fun hfree htidy => hbeside.tidy hsoundj htidy ?_ ?_⟩
  · intro reference state hlive
    rw [hlive.entry] at hfree
    cases hfree
  · intro entry hentry _
    obtain rfl := Option.some.inj (hentry.symm.trans hk)
    have hlive := live_insert j₀.memory sessionId (.start input upload .uploading)
    rw [← hmemory] at hlive
    exact ⟨_, _, hlive, rfl⟩

/-- After the upload was opened: the session is named, dated and entered. -/
theorem enter_begun (hsound : Sound j₀) {operation : Operation} {value : PutInput}
    (hinput : operation.input = .put value) {upload : UploadLocation} (hmemory : j.memory = j₀.memory)
    (huploads : j.uploads = j₀.uploads ++ [⟨upload.url, [], false⟩]) (hlog : ∃ segment, j.log = j₀.log ++ segment) :
    (do
      let token ← Action.token
      let createdAt ← OciDistributionAdapter.now
      let session ← Action.lift (adapter.newSession P ("u" ++ token) value createdAt)
      let _ ← Action.memory fun memory => memory.insert session.sessionId (.start value upload .uploading)
      return session : Action MultipartSession).Ensures env Advances j fun _ j' => Begun operation j₀ j' := by
  obtain ⟨segment, hlog⟩ := hlog
  have hgrown : ∀ {j' : Journal P adapter.transport}, j'.memory = j.memory → j'.uploads = j.uploads → Sound j' :=
    fun hmemory' huploads' => hsound.grow (hmemory'.trans hmemory) (huploads'.trans huploads)
  refine Prog.Ensures.bind (R := fun outcome j' => j'.memory = j.memory ∧ j'.uploads = j.uploads ∧
    j'.log = j.log ++ [⟨.token, outcome⟩]) ?_ ?_ ?_
  · refine Prog.Ensures.perform fun answer j' henv => ⟨advances_env henv (by rintro request url digest ⟨⟩), ?_⟩
    exact ⟨henv.2, uploads_log henv.1, henv.1⟩
  · rintro token j₁ ⟨hmemory₁, huploads₁, hlog₁⟩
    have hclock : (OciDistributionAdapter.now).Ensures env Advances j₁ fun outcome j' =>
        j'.memory = j.memory ∧ j'.uploads = j.uploads ∧ ∃ answer, j'.log = j₁.log ++ [⟨.clock, answer⟩] ∧
          ∀ instant, answer = .ok (.aware instant) → outcome = .ok instant := by
      refine Prog.Ensures.bind (R := fun outcome j' => j'.memory = j.memory ∧ j'.uploads = j.uploads ∧
        j'.log = j₁.log ++ [⟨.clock, outcome⟩]) ?_ ?_ ?_
      · refine Prog.Ensures.perform fun answer j' henv => ⟨advances_env henv (by rintro request url digest ⟨⟩), ?_⟩
        exact ⟨henv.2.trans hmemory₁, (uploads_log henv.1).trans huploads₁, henv.1⟩
      · rintro reading j₂ ⟨hmemory₂, huploads₂, hlog₂⟩
        cases reading with
        | aware instant => exact ⟨hmemory₂, huploads₂, _, hlog₂, by rintro _ ⟨⟩; rfl⟩
        | naive instant => exact ⟨hmemory₂, huploads₂, _, hlog₂, by rintro _ ⟨⟩⟩
      · rintro error j₂ ⟨hmemory₂, huploads₂, hlog₂⟩
        exact ⟨hmemory₂, huploads₂, _, hlog₂, by rintro _ ⟨⟩⟩
    refine hclock.bind ?_ ?_
    · rintro createdAt j₂ ⟨hmemory₂, huploads₂, answer, hlog₂, hread⟩
      cases hsession : adapter.newSession P ("u" ++ token) value createdAt with
      | error error =>
        refine ⟨hgrown hmemory₂ huploads₂, fun segment' hsegment hregisters => ?_⟩
        rw [hlog₂, hlog₁, hlog, List.append_assoc, List.append_assoc] at hsegment
        obtain rfl := List.append_cancel_left hsegment
        obtain ⟨instant, rfl⟩ := hregisters.clock answer (by simp)
        obtain rfl := Except.ok.inj (hread instant rfl)
        rw [OciDistributionAdapter.newSession_eq (hregisters.date createdAt (by simp))
          (hregisters.session value token createdAt hinput (by simp) (by simp))] at hsession
        cases hsession
      | ok session => ?_
      obtain ⟨hname, -⟩ := OciDistributionAdapter.newSession_ok hsession
      refine (logged (memory_journal j₂ _)).bind ?_ ?_
      · rintro before j₃ ⟨⟨-, hmemory₃, huploads₃⟩, last, hlog₃⟩
        rw [hmemory₂, hmemory, hname] at hmemory₃
        obtain ⟨hnew, htidy⟩ := insert_begun hsound hmemory₃ (huploads₃.trans (huploads₂.trans huploads))
        refine ⟨hnew, fun segment' hsegment hregisters => htidy ?_⟩
        rw [hlog₃, hlog₂, hlog₁, hlog, List.append_assoc, List.append_assoc, List.append_assoc] at hsegment
        obtain rfl := List.append_cancel_left hsegment
        obtain ⟨_, ⟨⟩, hfree⟩ := hregisters.token (.ok token) (by simp)
        exact hfree
      · rintro error j₃ ⟨⟨heq, -⟩, -⟩
        cases heq
    · rintro error j₂ ⟨hmemory₂, huploads₂, answer, hlog₂, hread⟩
      refine ⟨hgrown hmemory₂ huploads₂, fun segment' hsegment hregisters => ?_⟩
      rw [hlog₂, hlog₁, hlog, List.append_assoc, List.append_assoc] at hsegment
      obtain rfl := List.append_cancel_left hsegment
      obtain ⟨instant, heq⟩ := hregisters.clock answer (by simp)
      cases hread instant heq
  · rintro error j₁ ⟨hmemory₁, huploads₁, hlog₁⟩
    refine ⟨hgrown hmemory₁ huploads₁, fun segment' hsegment hregisters => ?_⟩
    rw [hlog₁, hlog, List.append_assoc] at hsegment
    obtain rfl := List.append_cancel_left hsegment
    obtain ⟨token, heq, -⟩ := hregisters.token (.error error) (by simp)
    cases heq

theorem beginMultipart_journal (laws : P.Lawful) (hsound : Sound j₀) (operation : Operation) :
    (adapter.beginMultipart P operation).Ensures env Advances j₀ fun _ j' => Begun operation j₀ j' := by
  have hbegun : Begun operation j₀ j₀ := (Keeps.settles hsound (.refl j₀)).begun
  -- the calculations before the first operation
  have hlift : ∀ {α β : Type} (outcome : Except Err α) {next : α → Action β}, (∀ value,
      (next value).Ensures env Advances j₀ fun _ j' => Begun operation j₀ j') →
      (Action.lift outcome >>= next).Ensures env Advances j₀ fun _ j' => Begun operation j₀ j' := by
    intro α β outcome next hnext
    cases outcome with
    | error error => exact hbegun
    | ok value => exact hnext value
  unfold OciDistributionAdapter.beginMultipart
  refine hlift _ fun method => ?_
  split
  · exact hbegun
  refine hlift _ fun _ => ?_
  cases hinput : operation.input with
  | put value =>
    dsimp only
    refine hlift _ fun immutability => ?_
    refine Prog.Ensures.bind (R := fun outcome j' => (∃ segment, j'.log = j₀.log ++ segment) ∧
      j'.memory = j₀.memory ∧ Prog.Exits (fun _ j' => j'.uploads = j₀.uploads)
        (fun upload j' => j'.uploads = j₀.uploads ++ [⟨upload.url, [], false⟩]) outcome j') ?_ ?_ ?_
    · refine (logged (locked_journal (Q := fun outcome j' => j'.memory = j₀.memory ∧
        Prog.Exits (fun _ j' => j'.uploads = j₀.uploads)
          (fun upload j' => j'.uploads = j₀.uploads ++ [⟨upload.url, [], false⟩]) outcome j') ?_ ?_)).mono
        fun _ _ h => ⟨h.2, h.1⟩
      · intro j₁ hmemory₁ huploads₁
        refine (aside_ensures (aside_requireCreateAvailable P adapter _ _ _) j₁).bind ?_ ?_
        · rintro ⟨⟩ j₂ ⟨hmemory₂, huploads₂⟩
          refine (startUpload_journal j₂).mono ?_
          rintro (error | upload) j₃ ⟨hmemory₃, huploads₃⟩
          · exact ⟨hmemory₃.trans (hmemory₂.trans hmemory₁), huploads₃.trans (huploads₂.trans huploads₁)⟩
          · refine ⟨hmemory₃.trans (hmemory₂.trans hmemory₁), ?_⟩
            rw [← huploads₁, ← huploads₂]
            exact huploads₃
        · rintro error j₂ ⟨hmemory₂, huploads₂⟩
          exact ⟨hmemory₂.trans hmemory₁, huploads₂.trans huploads₁⟩
      · rintro (error | upload) j₁ j₂ ⟨hmemory₁, huploads₁⟩ hmemory₂ huploads₂
        · exact ⟨hmemory₂.trans hmemory₁, huploads₂.trans huploads₁⟩
        · exact ⟨hmemory₂.trans hmemory₁, huploads₂.trans huploads₁⟩
    · rintro upload j₁ ⟨hlog, hmemory, huploads⟩
      rw [laws.transition_uploading]
      exact enter_begun hsound hinput hmemory huploads hlog
    · rintro error j₁ ⟨-, hmemory, huploads⟩
      exact (Keeps.settles hsound (.of_same hmemory huploads)).begun
  | get raw => exact hbegun
  | stat raw => exact hbegun
  | readRange raw range => exact hbegun
  | list prefixText limit cursor => exact hbegun
  | delete raw => exact hbegun

/-! ## Runs -/

/-- A begin whose session could be registered; other calls have nothing to register. -/
def Registered (event : Event Call Err Answer (Journal P adapter.transport)) : Prop :=
  match event.call with
  | .beginMultipart operation => ∀ segment, event.after.log = event.before.log ++ segment →
    Registers P adapter operation event.before.memory segment
  | _ => True

theorem call_journal (laws : P.Lawful) (hsound : Sound j₀) (call : Call) :
    (call.program P adapter).Ensures env Advances j₀ fun outcome j' => Sound j' ∧
      (Registered ⟨call, outcome, j₀, j'⟩ → Tidy j₀ → Tidy j') := by
  have hkeeps : ∀ {α β : Type} {program : Action α} {next : α → Action β} {j : Journal P adapter.transport},
      (∀ value, (next value).Uses fun _ => False) → program.Ensures env Advances j (fun _ j' => Keeps j₀ j') →
      (program >>= next).Ensures env Advances j fun _ j' => Keeps j₀ j' := by
    intro α β program next j hnext h
    refine h.bind (fun value j' hk => ?_) fun _ _ hk => hk
    rcases uses_false (hnext value) with ⟨_, heq⟩ | ⟨_, heq⟩
    · rw [heq]
      exact hk
    · rw [heq]
      exact hk
  have hdone : ∀ {program : Action Answer}, program.Ensures env Advances j₀ (fun _ j' => Keeps j₀ j') →
      (∀ outcome j', Registered ⟨call, outcome, j₀, j'⟩ = True) →
      program.Ensures env Advances j₀ fun outcome j' => Sound j' ∧
        (Registered ⟨call, outcome, j₀, j'⟩ → Tidy j₀ → Tidy j') :=
    fun h _ => h.mono fun _ _ hk => ⟨hk.sound, fun _ => hk.tidy⟩
  cases call with
  | execute operation =>
    refine hdone (hkeeps (fun _ => trivial) ?_) fun _ _ => rfl
    exact (settling_execute P adapter operation j₀).mono fun _ _ h => .settles hsound h
  | beginMultipart operation =>
    refine (logged (beginMultipart_journal laws hsound operation)).bind ?_ ?_
    · rintro session j' ⟨⟨hnew, htidy⟩, segment, hlog⟩
      exact ⟨hnew, fun hregistered => htidy segment hlog (hregistered segment hlog)⟩
    · rintro error j' ⟨⟨hnew, htidy⟩, segment, hlog⟩
      exact ⟨hnew, fun hregistered => htidy segment hlog (hregistered segment hlog)⟩
  | uploadPart session partNumber payload =>
    exact hdone (hkeeps (fun _ => trivial) (uploadPart_journal hsound partNumber payload)) fun _ _ => rfl
  | completeMultipart session parts =>
    exact hdone (hkeeps (fun _ => trivial) (completeMultipart_journal hsound parts)) fun _ _ => rfl
  | abortMultipart session =>
    refine hdone (hkeeps (fun _ => trivial) ?_) fun _ _ => rfl
    cases hentry : j₀.memory.lookup session.sessionId with
    | none => exact (abortMultipart_absent hentry).mono fun _ _ h => .settles hsound h
    | some reference =>
      have hstored := hsound.stored _ _ hentry
      obtain ⟨k, howns⟩ := hsound.owns ⟨hentry, List.getElem?_eq_getElem hstored⟩
      exact (abortMultipart_journal howns.tracks).mono fun _ _ h => howns.ended_keeps hsound h

variable {config : Config Op Op.Res Err Answer (Journal P adapter.transport) Call}

/-- In every run no PATCH goes to an upload that has ended, and if every begin could register its
session, then after each call every open upload is that of exactly one live session. -/
theorem no_orphans (laws : P.Lawful)
    (h : Reachable env (Call.program P adapter) (Journal.empty P adapter.transport) config) :
    Disciplined P adapter.transport config.state.log ∧
      ((∀ event ∈ config.history, Registered event) → ∀ event ∈ config.history, event.after.Tidy) := by
  -- of the finished calls; in the middle of one the log is watched step by step
  let I : Journal P adapter.transport → List (Event Call Err Answer (Journal P adapter.transport)) → Prop :=
    fun j history => Sound j ∧ Disciplined P adapter.transport j.log ∧
      ((∀ event ∈ history, Registered event) → j.Tidy ∧ ∀ event ∈ history, event.after.Tidy)
  have hdisciplined : ∀ {j j' : Journal P adapter.transport}, Relation.ReflTransGen Advances j j' →
      Disciplined P adapter.transport j.log → Disciplined P adapter.transport j'.log := by
    intro j j' hpath hj
    induction hpath with
    | refl => exact hj
    | tail _ hlast ih => exact hlast.disciplined ih
  have hempty : Disciplined P adapter.transport (Journal.empty P adapter.transport).log := by
    intro front entry rest heq
    cases front <;> cases heq
  have hholds : config.Holds env Advances I := by
    refine h.holds ⟨.empty, hempty, fun _ => ⟨.empty, fun _ h => by cases h⟩⟩ fun j history call hI => ?_
    obtain ⟨hsound, hlog, hruns⟩ := hI
    have hcall := (call_journal laws hsound call).invariant
      (I := fun j => Disciplined P adapter.transport j.log) (fun _ _ hj hadvances => hadvances.disciplined hj) hlog
    refine hcall.weaken (fun _ _ _ _ h => h) (fun _ _ h => h.1) fun outcome j' h => ?_
    obtain ⟨⟨hsound', htidy'⟩, hlog'⟩ := h
    refine ⟨hsound', hlog', fun hregistered => ?_⟩
    obtain ⟨htidy, hevents⟩ := hruns fun event hevent => hregistered event (List.mem_append_left _ hevent)
    have hnew := htidy' (hregistered _ (List.mem_append_right _ List.mem_cons_self)) htidy
    refine ⟨hnew, fun event hevent => ?_⟩
    rcases List.mem_append.mp hevent with hmem | hmem
    · exact hevents event hmem
    · rw [List.mem_singleton.mp hmem]
      exact hnew
  obtain ⟨j, phase, history⟩ := config
  cases phase with
  | idle => exact ⟨hholds.2.1, fun hregistered => (hholds.2.2 hregistered).2⟩
  | running call start rest =>
    obtain ⟨⟨-, hlog, hruns⟩, hpath, -⟩ := hholds
    exact ⟨hdisciplined hpath hlog, fun hregistered => (hruns hregistered).2⟩

end Journal

namespace Sample

open Journal MeridianOci.Model.Sample

/-! ## One upload -/

/-- The registry opens an upload. -/
def opening : Response := ⟨202, [("location", "/1")], "https://registry/", [], none⟩

/-- A log in which at most one upload is opened. -/
def journal (memory : Memory) (log : List Entry)
    (h : (ledger platform (Sample.adapter 0).transport log).length ≤ 1) :
    Journal platform (Sample.adapter 0).transport where
  memory := memory
  log := log
  distinct := by
    intro i j a b hi hj url ha hb
    obtain ⟨hi, -⟩ := List.getElem?_eq_some_iff.mp hi
    obtain ⟨hj, -⟩ := List.getElem?_eq_some_iff.mp hj
    omega
  requestable := by
    intro upload _ url _ digest
    cases digest <;> rfl

/-- A session is begun: the lock, the upload, the token and the clock. -/
def beginLog (reading : DateTime) : List Entry :=
  [⟨.acquire, .ok ()⟩, ⟨.send .startUpload, .ok opening⟩, ⟨.release, .ok ()⟩, ⟨.token, .ok "0"⟩, ⟨.clock, .ok reading⟩]

theorem length_beginLog (reading : DateTime) (n : Nat) :
    (ledger platform (Sample.adapter 0).transport ((beginLog reading).take n)).length ≤ 1 := by
  match n with
  | 0 => exact Nat.zero_le _
  | 1 => exact Nat.zero_le _
  | 2 => exact Nat.le_refl _
  | 3 => exact Nat.le_refl _
  | 4 => exact Nat.le_refl _
  | n + 5 =>
    rw [List.take_of_length_le (Nat.le_add_left 5 n)]
    exact Nat.le_refl _

def beginning (reading : DateTime) (n : Nat) : Journal platform (Sample.adapter 0).transport :=
  journal ⟨[], []⟩ ((beginLog reading).take n) (length_beginLog reading n)

def begin : Call := .beginMultipart (Plain.operation { objectId := "a", text := "x" })

theorem performs_naive : Performs Journal.env (begin.program platform (Sample.adapter 0))
    (Journal.empty platform (Sample.adapter 0).transport)
    (.error (.of .valueError "adapter clock must return a timezone-aware datetime")) (beginning (.naive 0) 5) := by
  refine .call _ _ _ (beginning (.naive 0) 1) _ (.ok ()) _ ⟨rfl, rfl, rfl⟩ ?_
  refine .call _ _ _ (beginning (.naive 0) 2) _ (.ok opening) _ ⟨rfl, rfl⟩ ?_
  refine .call _ _ _ (beginning (.naive 0) 3) _ (.ok ()) _ ⟨rfl, rfl, rfl⟩ ?_
  refine .call _ _ _ (beginning (.naive 0) 4) _ (.ok "0") _ ⟨rfl, rfl⟩ ?_
  refine .call _ _ _ (beginning (.naive 0) 5) _ (.ok (.naive 0)) _ ⟨rfl, rfl⟩ ?_
  exact .raise _ _

/-- The session that is begun. -/
def firstSession : MultipartState :=
  .start (Plain.input { objectId := "a", text := "x" }) ⟨"/1", none, none, 0⟩ .uploading

/-- The journal with the session entered. -/
def entered : Journal platform (Sample.adapter 0).transport :=
  journal (Memory.insert ⟨[], []⟩ "u0" firstSession)
    (beginLog (.aware 0) ++ [⟨.memory fun memory => memory.insert "u0" firstSession, .ok ⟨[], []⟩⟩]) (Nat.le_refl _)

def sessionHandle : MultipartSession :=
  ⟨"u0", (Sample.adapter 0).objectReferenceOf firstSession.input, (binding 0).chunkSize,
    platform.timestamp (0 + 3600 * 1000000)⟩

theorem performs_aware : Performs Journal.env (begin.program platform (Sample.adapter 0))
    (Journal.empty platform (Sample.adapter 0).transport) (.ok (.session sessionHandle)) entered := by
  refine .call _ _ _ (beginning (.aware 0) 1) _ (.ok ()) _ ⟨rfl, rfl, rfl⟩ ?_
  refine .call _ _ _ (beginning (.aware 0) 2) _ (.ok opening) _ ⟨rfl, rfl⟩ ?_
  refine .call _ _ _ (beginning (.aware 0) 3) _ (.ok ()) _ ⟨rfl, rfl, rfl⟩ ?_
  refine .call _ _ _ (beginning (.aware 0) 4) _ (.ok "0") _ ⟨rfl, rfl⟩ ?_
  refine .call _ _ _ (beginning (.aware 0) 5) _ (.ok (.aware 0)) _ ⟨rfl, rfl⟩ ?_
  refine .call _ _ _ entered _ (.ok ⟨[], []⟩) _ ⟨rfl, rfl, rfl⟩ ?_
  exact .ret _ _

/-- With a clock that has no timezone the upload of a begin is left open and belongs to no session. -/
theorem orphan_left : Reachable Journal.env (Call.program platform (Sample.adapter 0))
    (Journal.empty platform (Sample.adapter 0).transport) ⟨beginning (.naive 0) 5, .idle,
      [⟨begin, .error (.of .valueError "adapter clock must return a timezone-aware datetime"),
        Journal.empty platform (Sample.adapter 0).transport, beginning (.naive 0) 5⟩]⟩ ∧
    ¬(beginning (.naive 0) 5).Tidy := by
  refine ⟨Reachable.performs .refl performs_naive, fun htidy => ?_⟩
  obtain ⟨sessionId, ⟨reference, state, hlive, -⟩, -⟩ := htidy ⟨"/1", [], false⟩ List.mem_cons_self rfl
  have hentry := hlive.entry
  cases hentry

/-- After a begin the one open upload is that of the one session. -/
theorem no_orphans_begun : ∃ config, Reachable Journal.env (Call.program platform (Sample.adapter 0))
    (Journal.empty platform (Sample.adapter 0).transport) config ∧ config.state.uploads = [⟨"/1", [], false⟩] ∧
    Disciplined platform (Sample.adapter 0).transport config.state.log ∧
      ∀ event ∈ config.history, event.after.Tidy := by
  have hrun := Reachable.performs .refl performs_aware
  obtain ⟨hlog, hhistory⟩ := no_orphans lawful hrun
  refine ⟨_, hrun, rfl, hlog, hhistory fun event hevent => ?_⟩
  obtain rfl := List.mem_singleton.mp hevent
  intro segment hsegment
  obtain rfl : _ = segment := hsegment
  constructor
  · intro answer hanswer
    simp [entered, journal, beginLog] at hanswer
    exact ⟨"0", hanswer, rfl⟩
  · intro answer hanswer
    simp [entered, journal, beginLog] at hanswer
    exact ⟨0, hanswer⟩
  · intro instant hanswer
    simp [entered, journal, beginLog] at hanswer
    rw [hanswer]
    decide
  · exact fun _ _ _ _ _ _ => rfl

end Sample

end MeridianOci.Service
