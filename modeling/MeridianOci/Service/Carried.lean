import MeridianOci.Service.History

/-!
# What the registry has carried out

A run beside a record of the requests that the registry carried out, answered or not. The
anchor of an object id is there if and only if a PUT of it is on the record.
-/
namespace MeridianOci.Service

open MeridianOci.Data MeridianOci.Effect MeridianOci.Model

set_option autoImplicit false

variable {P : Platform}

/-- The environment, with a record of the requests that took effect. -/
def Setting.recording {binding : OciDistributionBinding} (setting : Setting P binding) :
    Environment Op Op.Res Err (World setting.policy × List Request)
  | .send request, (w, carried), answer, (w', carried') =>
    (answer = .ok (deliver setting.policy request (w.reply request)) ∧ w' = w.apply request ∧
      carried' = carried ++ [request]) ∨
    (setting.faults ∧ Failure answer ∧
      (w' = w ∧ carried' = carried ∨ w' = w.apply request ∧ carried' = carried ++ [request]))
  | op, (w, carried), answer, (w', carried') => setting.env op w answer w' ∧ carried' = carried

section Views

variable {binding : OciDistributionBinding} {setting : Setting P binding}

/-- A step either carries out nothing or one request. -/
theorem recording_cases {op : Op} {w w' : World setting.policy} {carried carried' : List Request}
    {answer : Except Err op.Res} (h : setting.recording op (w, carried) answer (w', carried')) :
    setting.env op w answer w' ∧ (carried' = carried ∧ w'.registry = w.registry ∨
      ∃ request, carried' = carried ++ [request] ∧ w' = w.apply request) := by
  cases op with
  | send request =>
    obtain ⟨rfl, rfl, rfl⟩ | ⟨hfaults, hfailure, ⟨rfl, rfl⟩ | ⟨rfl, rfl⟩⟩ := h
    · exact ⟨.inl ⟨rfl, rfl⟩, .inr ⟨request, rfl, rfl⟩⟩
    · exact ⟨.inr ⟨hfaults, hfailure, .inl rfl⟩, .inl ⟨rfl, rfl⟩⟩
    · exact ⟨.inr ⟨hfaults, hfailure, .inr rfl⟩, .inr ⟨request, rfl, rfl⟩⟩
  | authorize => exact ⟨h.1, .inl ⟨h.2, by rw [h.1.2]⟩⟩
  | openPayload payload chunkSize => exact ⟨h.1, .inl ⟨h.2, by rw [h.1.2]⟩⟩
  | register source length digest =>
    obtain ⟨⟨id, -, rfl⟩, hcarried⟩ := id h
    exact ⟨h.1, .inl ⟨hcarried, rfl⟩⟩
  | clock =>
    refine ⟨h.1, .inl ⟨h.2, ?_⟩⟩
    obtain ⟨now, -, -, rfl⟩ | ⟨-, -, rfl⟩ := h.1
    · rfl
    · rfl
  | token => exact ⟨h.1, .inl ⟨h.2, by rw [h.1.2]⟩⟩
  | acquire => exact ⟨h.1, .inl ⟨h.2, by rw [h.1.2]⟩⟩
  | release => exact ⟨h.1, .inl ⟨h.2, by rw [h.1.2]⟩⟩
  | memory update => exact ⟨h.1, .inl ⟨h.2, by rw [h.1.2]⟩⟩

/-- Every answer can be recorded. -/
theorem exists_recording {op : Op} {w w' : World setting.policy} {answer : Except Err op.Res}
    (h : setting.env op w answer w') (carried : List Request) :
    ∃ carried', setting.recording op (w, carried) answer (w', carried') := by
  cases op with
  | send request =>
    obtain ⟨rfl, rfl⟩ | ⟨hfaults, hfailure, rfl | rfl⟩ := h
    · exact ⟨_, .inl ⟨rfl, rfl, rfl⟩⟩
    · exact ⟨_, .inr ⟨hfaults, hfailure, .inl ⟨rfl, rfl⟩⟩⟩
    · exact ⟨_, .inr ⟨hfaults, hfailure, .inr ⟨rfl, rfl⟩⟩⟩
  | _ => exact ⟨carried, h, rfl⟩

end Views

variable {adapter : OciDistributionAdapter} {setting : Setting P adapter.transport.binding}

/-- Runs of the adapter from an empty repository, with the record of what was carried out. -/
abbrev Records (setting : Setting P adapter.transport.binding) (now : DateTime) :
    Config Op Op.Res Err Answer (World setting.policy × List Request) Call → Prop :=
  Reachable setting.recording (Call.program P adapter) (World.empty setting.policy now, [])

variable {now : DateTime} {config : Config Op Op.Res Err Answer (World setting.policy × List Request) Call}

theorem recording_env (op : Op) (state : World setting.policy × List Request) (answer : Except Err op.Res)
    (state' : World setting.policy × List Request) (h : setting.recording op state answer state') :
    setting.env op state.1 answer state'.1 := (recording_cases h).1

theorem Records.step {earlier later : Config Op Op.Res Err Answer (World setting.policy × List Request) Call}
    (h : Step setting.recording (Call.program P adapter) earlier later) :
    Step setting.env (Call.program P adapter) (earlier.map Prod.fst) (later.map Prod.fst) := Step.map recording_env h

theorem Records.runs (h : Records setting now config) : Runs setting now (config.map Prod.fst) :=
  Reachable.map recording_env h

/-- Every run has a record. -/
theorem Runs.recorded {run : Config Op Op.Res Err Answer (World setting.policy) Call} (h : Runs setting now run) :
    ∃ config, Records setting now config ∧ config.map Prod.fst = run := by
  have hlift : ∀ (op : Op) (state : World setting.policy × List Request) (answer : Except Err op.Res)
      (w' : World setting.policy), setting.env op state.1 answer w' →
      ∃ state', state'.1 = w' ∧ setting.recording op state answer state' := ?_
  · exact Reachable.lift hlift h
  rintro op ⟨w, carried⟩ answer w' hanswer
  obtain ⟨carried', hrecording⟩ := exists_recording hanswer carried
  exact ⟨(w', carried'), rfl, hrecording⟩

/-- Whatever is tagged was put. -/
theorem Records.tagged (laws : P.Lawful) (h : Records setting now config) {tag : String} {body : Bytes}
    (htagged : config.state.1.registry.tagged tag = some body) : ∃ request ∈ config.state.2, Request.Puts tag request := by
  induction h generalizing body with
  | refl => simp [Registry.tagged_eq_some, World.empty, Registry.empty] at htagged
  | tail _ hstep ih =>
    cases hstep with
    | perform state state' start history call op next answer hanswer =>
      obtain ⟨w, carried⟩ := state
      obtain ⟨w', carried'⟩ := state'
      obtain ⟨-, ⟨rfl, hsame⟩ | ⟨request, rfl, rfl⟩⟩ := recording_cases hanswer
      · exact ih (hsame ▸ htagged)
      · rcases puts_of_tagged laws htagged with hold | hputs
        · obtain ⟨found, hfound⟩ := Option.isSome_iff_exists.mp hold
          obtain ⟨earlier, hmem, hearlier⟩ := ih hfound
          exact ⟨earlier, List.mem_append_left _ hmem, hearlier⟩
        · exact ⟨request, List.mem_append_right _ List.mem_cons_self, hputs⟩
    | _ => exact ih htagged

/-- An anchor that was put is there. -/
theorem Records.anchored (laws : P.Lawful) (h : Records setting now config) {objectId : String} {request : Request}
    (hmem : request ∈ config.state.2) (hputs : Request.Puts (anchorName P objectId) request) :
    objectId ∈ (catalogOf config.state.1.registry).anchored := by
  induction h generalizing request with
  | refl => cases hmem
  | tail hbefore hstep ih =>
    have hmoves := Runs.moves laws (Records.runs hbefore) (.single (Records.step hstep))
    have hintact := Runs.intact laws (Records.runs (hbefore.tail hstep))
    cases hstep with
    | perform state state' start history call op next answer hanswer =>
      obtain ⟨w, carried⟩ := state
      obtain ⟨w', carried'⟩ := state'
      obtain ⟨-, ⟨rfl, hsame⟩ | ⟨other, rfl, rfl⟩⟩ := recording_cases hanswer
      · exact hmoves.anchored laws (ih hmem hputs)
      · rcases List.mem_append.mp hmem with hold | hnew
        · exact hmoves.anchored laws (ih hold hputs)
        · rw [List.mem_singleton.mp hnew] at hputs
          have htagged := tagged_of_puts laws w.registry hputs
          have hbody := Intact.anchored laws hintact htagged
          exact htagged.trans (congrArg some hbody)
    | _ => exact ih hmem hputs

/-- An anchor is there if and only if a PUT of it was carried out. -/
theorem Records.anchored_iff (laws : P.Lawful) (h : Records setting now config) {objectId : String} :
    objectId ∈ (catalogOf config.state.1.registry).anchored ↔
      ∃ request ∈ config.state.2, Request.Puts (anchorName P objectId) request := by
  constructor
  · intro hanchored
    exact h.tagged laws hanchored
  · rintro ⟨request, hmem, hputs⟩
    exact h.anchored laws hmem hputs

end MeridianOci.Service
