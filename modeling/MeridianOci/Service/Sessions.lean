import MeridianOci.Service.Reads

/-!
# Multipart sessions, one call at a time

The calls of the multipart manager when no other call is in progress. Between calls every
live session has hashed exactly the bytes it counts, and a call that fails leaves its
session either as it was or closed.
-/
namespace MeridianOci.Service

open MeridianOci.Data MeridianOci.Effect MeridianOci.Model

set_option autoImplicit false

variable {P : Platform} {adapter : OciDistributionAdapter}
variable {setting : Setting P adapter.transport.binding}

/-! ## The manager's memory -/

/-- A session object between two calls. -/
structure Settled (state : MultipartState) : Prop where
  length : state.length = state.hashed.length
  machine : state.machine = .uploading

structure SoundMemory (memory : Memory) : Prop where
  stored : ∀ entry ∈ memory.sessions, entry.2 < memory.heap.length
  separate : ∀ entry ∈ memory.sessions, ∀ other ∈ memory.sessions, entry.2 = other.2 → entry.1 = other.1
  settled : ∀ entry ∈ memory.sessions, ∀ state, memory.heap[entry.2]? = some state → Settled state

/-- The live state object of a session. -/
structure Live (memory : Memory) (sessionId : String) (reference : Nat) (state : MultipartState) :
    Prop where
  entry : memory.lookup sessionId = some reference
  object : memory.heap[reference]? = some state

/-- A session was closed and no other session was touched. -/
structure Closed (sessionId : String) (memory memory' : Memory) : Prop where
  sessions : memory'.sessions = (memory.pop sessionId).sessions
  length : memory'.heap.length = memory.heap.length
  others : ∀ reference, memory.lookup sessionId ≠ some reference →
    memory'.heap[reference]? = memory.heap[reference]?

theorem mem_of_lookup {memory : Memory} {sessionId : String} {reference : Nat}
    (h : memory.lookup sessionId = some reference) : (sessionId, reference) ∈ memory.sessions := by
  obtain ⟨entry, hfind, rfl⟩ := Option.map_eq_some_iff.mp h
  have hname := List.find?_some hfind
  simp only [decide_eq_true_eq] at hname
  rw [← hname]
  exact List.mem_of_find?_eq_some hfind

theorem mem_pop {memory : Memory} {sessionId : String} {entry : String × Nat} :
    entry ∈ (memory.pop sessionId).sessions ↔ entry ∈ memory.sessions ∧ entry.1 ≠ sessionId := by
  simp [Memory.pop]

theorem lookup_insert (memory : Memory) (sessionId : String) (state : MultipartState) :
    (memory.insert sessionId state).lookup sessionId = some memory.heap.length := by
  simp [Memory.insert, Memory.lookup]

theorem lookup_pop (memory : Memory) (sessionId other : String) :
    (memory.pop sessionId).lookup other = if other = sessionId then none else memory.lookup other := by
  unfold Memory.lookup Memory.pop
  rw [List.find?_filter]
  split
  · rename_i heq
    rw [List.find?_eq_none.mpr]
    · rfl
    · simp [heq]
  · rename_i hne
    congr 2
    funext entry
    by_cases hentry : entry.1 = other <;> simp [hentry, hne]

theorem lookup_insert_ne (memory : Memory) {sessionId other : String} (h : other ≠ sessionId)
    (state : MultipartState) : (memory.insert sessionId state).lookup other = memory.lookup other := by
  have hpop := lookup_pop memory sessionId other
  rw [if_neg h] at hpop
  rw [← hpop]
  simp [Memory.insert, Memory.lookup, h.symm]

theorem live_insert (memory : Memory) (sessionId : String) (state : MultipartState) :
    Live (memory.insert sessionId state) sessionId memory.heap.length state :=
  ⟨lookup_insert memory sessionId state, by simp [Memory.insert]⟩

theorem get?_modify (memory : Memory) (reference other : Nat) (update : MultipartState → MultipartState) :
    (memory.modify reference update).heap[other]? =
      if reference = other then memory.heap[other]?.map update else memory.heap[other]? := by
  simp only [Memory.modify, List.getElem?_modify]
  split
  · rfl
  · simp

theorem lookup_modify (memory : Memory) (reference : Nat) (update : MultipartState → MultipartState)
    (sessionId : String) : (memory.modify reference update).lookup sessionId = memory.lookup sessionId := rfl

theorem modify_modify (memory : Memory) (reference : Nat) (first second : MultipartState → MultipartState) :
    (memory.modify reference first).modify reference second = memory.modify reference (second ∘ first) := by
  simp [Memory.modify, List.modify_modify_eq]

/-- On one state object, updates are told apart by their value there. -/
theorem modify_congr {memory : Memory} {reference : Nat} {state : MultipartState}
    (h : memory.heap[reference]? = some state) {first second : MultipartState → MultipartState}
    (heq : first state = second state) : memory.modify reference first = memory.modify reference second := by
  have hheap : memory.heap.modify reference first = memory.heap.modify reference second := by
    refine List.ext_getElem? fun other => ?_
    rw [List.getElem?_modify, List.getElem?_modify]
    by_cases hsame : reference = other
    · rw [← hsame, h]
      simp [heq]
    · simp [hsame]
  simp only [Memory.modify, hheap]

namespace SoundMemory

variable {memory memory' : Memory} {sessionId : String} {reference : Nat} {state : MultipartState}

theorem empty : SoundMemory ⟨[], []⟩ := by
  constructor <;> intro entry hentry <;> cases hentry

theorem live (h : SoundMemory memory) (hlive : Live memory sessionId reference state) : Settled state :=
  h.settled _ (mem_of_lookup hlive.entry) state hlive.object

theorem closed (h : SoundMemory memory) (hclosed : Closed sessionId memory memory') :
    SoundMemory memory' := by
  have hold : ∀ entry ∈ memory'.sessions, entry ∈ memory.sessions ∧
      memory'.heap[entry.2]? = memory.heap[entry.2]? := by
    intro entry hentry
    rw [hclosed.sessions] at hentry
    obtain ⟨hmem, hne⟩ := mem_pop.mp hentry
    refine ⟨hmem, hclosed.others _ fun hlookup => hne ?_⟩
    exact h.separate _ hmem _ (mem_of_lookup hlookup) rfl
  constructor
  · intro entry hentry
    rw [hclosed.length]
    exact h.stored entry (hold entry hentry).1
  · intro entry hentry other hother heq
    exact h.separate entry (hold entry hentry).1 other (hold other hother).1 heq
  · intro entry hentry object hobject
    rw [(hold entry hentry).2] at hobject
    exact h.settled entry (hold entry hentry).1 object hobject

theorem insert (h : SoundMemory memory) (hstate : Settled state) :
    SoundMemory (memory.insert sessionId state) := by
  have hentries : ∀ entry ∈ (memory.insert sessionId state).sessions,
      entry = (sessionId, memory.heap.length) ∨ (entry ∈ memory.sessions ∧ entry.2 < memory.heap.length) := by
    intro entry hentry
    rcases List.mem_cons.mp hentry with heq | hmem
    · exact .inl heq
    · have hmem := (mem_pop.mp hmem).1
      exact .inr ⟨hmem, h.stored entry hmem⟩
  have hlength : (memory.insert sessionId state).heap.length = memory.heap.length + 1 := by
    simp [Memory.insert]
  constructor
  · intro entry hentry
    rw [hlength]
    rcases hentries entry hentry with rfl | ⟨-, hlt⟩
    · exact Nat.lt_succ_self _
    · omega
  · intro entry hentry other hother heq
    rcases hentries entry hentry with rfl | ⟨hmem, hlt⟩ <;>
      rcases hentries other hother with rfl | ⟨hmem', hlt'⟩
    · rfl
    · exact absurd heq.symm (Nat.ne_of_lt hlt')
    · exact absurd heq (Nat.ne_of_lt hlt)
    · exact h.separate entry hmem other hmem' heq
  · intro entry hentry object hobject
    rcases hentries entry hentry with rfl | ⟨hmem, hlt⟩
    · rw [(live_insert memory sessionId state).object] at hobject
      exact Option.some.inj hobject ▸ hstate
    · refine h.settled entry hmem object ?_
      simpa [Memory.insert, List.getElem?_append_left hlt] using hobject

/-- Updating the state object of a live session so that it stays settled. -/
theorem modify (h : SoundMemory memory) {update : MultipartState → MultipartState}
    (hupdate : ∀ state, memory.heap[reference]? = some state → Settled (update state)) :
    SoundMemory (memory.modify reference update) := by
  constructor
  · intro entry hentry
    simpa [Memory.modify] using h.stored entry hentry
  · exact h.separate
  · intro entry hentry object hobject
    rw [get?_modify] at hobject
    split at hobject
    · obtain ⟨state, hstate, rfl⟩ := Option.map_eq_some_iff.mp hobject
      rename_i heq
      exact hupdate state (heq ▸ hstate)
    · exact h.settled entry hentry object hobject

end SoundMemory

theorem Closed.modify {sessionId : String} {memory memory' : Memory} {reference : Nat}
    (h : Closed sessionId memory memory') (hentry : memory.lookup sessionId = some reference)
    (update : MultipartState → MultipartState) :
    Closed sessionId memory (memory'.modify reference update) := by
  refine ⟨h.sessions, by simpa [Memory.modify] using h.length, fun other hother => ?_⟩
  rw [get?_modify, if_neg]
  · exact h.others other hother
  · rintro rfl
    exact hother hentry

/-- Closing a session forgets what was done to its object before. -/
theorem Closed.of_modify {sessionId : String} {memory memory' : Memory} {reference : Nat}
    (hentry : memory.lookup sessionId = some reference) {update : MultipartState → MultipartState}
    (h : Closed sessionId (memory.modify reference update) memory') : Closed sessionId memory memory' := by
  refine ⟨h.sessions, ?_, fun other hother => ?_⟩
  · rw [h.length]
    simp [Memory.modify]
  · rw [h.others other hother, get?_modify, if_neg]
    rintro rfl
    exact hother hentry

theorem Closed.lookup {sessionId : String} {memory memory' : Memory} (h : Closed sessionId memory memory')
    (other : String) : memory'.lookup other = if other = sessionId then none else memory.lookup other := by
  rw [← lookup_pop memory sessionId other]
  unfold Memory.lookup
  rw [h.sessions]

theorem Closed.pop (sessionId : String) (memory : Memory) :
    Closed sessionId memory (memory.pop sessionId) := ⟨rfl, rfl, fun _ _ => rfl⟩

/-! ## Live sessions under changes -/

section Changes

variable {memory memory' : Memory} {sessionId other : String} {reference reference' : Nat}
variable {state state' : MultipartState} (h : SoundMemory memory)

include h

theorem live_of_insert (hlive : Live (memory.insert sessionId state) other reference' state') :
    (other = sessionId ∧ state' = state) ∨ (other ≠ sessionId ∧ Live memory other reference' state') := by
  by_cases hsame : other = sessionId
  · have hentry := hlive.entry
    rw [hsame, lookup_insert] at hentry
    obtain rfl := Option.some.inj hentry
    have hobject := hlive.object
    rw [(live_insert memory sessionId state).object] at hobject
    exact .inl ⟨hsame, (Option.some.inj hobject).symm⟩
  · have hentry := hlive.entry
    rw [lookup_insert_ne memory hsame] at hentry
    have hstored := h.stored _ (mem_of_lookup hentry)
    refine .inr ⟨hsame, hentry, ?_⟩
    have hobject := hlive.object
    rwa [Memory.insert, List.getElem?_append_left hstored] at hobject

theorem live_of_closed (hclosed : Closed sessionId memory memory') (hlive : Live memory' other reference' state') :
    other ≠ sessionId ∧ Live memory other reference' state' := by
  have hentry := hlive.entry
  rw [hclosed.lookup] at hentry
  split at hentry
  · cases hentry
  rename_i hne
  refine ⟨hne, hentry, ?_⟩
  rw [← hclosed.others reference' fun hlookup => hne ?_]
  · exact hlive.object
  · exact h.separate _ (mem_of_lookup hentry) _ (mem_of_lookup hlookup) rfl

theorem live_of_modify (hbefore : Live memory sessionId reference state) {update : MultipartState → MultipartState}
    (hlive : Live (memory.modify reference update) other reference' state') :
    (other = sessionId ∧ state' = update state) ∨ (other ≠ sessionId ∧ Live memory other reference' state') := by
  have hentry := hlive.entry
  rw [lookup_modify] at hentry
  have hobject := hlive.object
  rw [get?_modify] at hobject
  by_cases hsame : other = sessionId
  · rw [hsame, hbefore.entry] at hentry
    obtain rfl := Option.some.inj hentry
    rw [if_pos rfl, hbefore.object] at hobject
    exact .inl ⟨hsame, (Option.some.inj hobject).symm⟩
  · refine .inr ⟨hsame, hentry, ?_⟩
    rwa [if_neg] at hobject
    rintro rfl
    exact hsame (h.separate _ (mem_of_lookup hentry) _ (mem_of_lookup hbefore.entry) rfl)

theorem Live.closed (hlive : Live memory other reference' state') (hclosed : Closed sessionId memory memory')
    (hne : other ≠ sessionId) : Live memory' other reference' state' := by
  refine ⟨?_, ?_⟩
  · rw [hclosed.lookup, if_neg hne]
    exact hlive.entry
  · rw [hclosed.others reference' fun hlookup => hne ?_]
    · exact hlive.object
    · exact h.separate _ (mem_of_lookup hlive.entry) _ (mem_of_lookup hlookup) rfl

omit h in
theorem Live.insert_other (hlive : Live memory other reference' state') (hne : other ≠ sessionId) :
    Live (memory.insert sessionId state) other reference' state' := by
  refine ⟨?_, ?_⟩
  · rw [lookup_insert_ne memory hne]
    exact hlive.entry
  · obtain ⟨hlt, -⟩ := List.getElem?_eq_some_iff.mp hlive.object
    rw [Memory.insert, List.getElem?_append_left hlt]
    exact hlive.object

omit h in
/-- Changing an object ends no session. -/
theorem Live.modify (hlive : Live memory other reference' state') (reference : Nat)
    (update : MultipartState → MultipartState) :
    ∃ state, Live (memory.modify reference update) other reference' state := by
  by_cases hsame : reference = reference'
  · refine ⟨update state', hlive.entry, ?_⟩
    rw [get?_modify, if_pos hsame, hlive.object]
    rfl
  · refine ⟨state', hlive.entry, ?_⟩
    rw [get?_modify, if_neg hsame]
    exact hlive.object

end Changes

/-! ## State objects -/

section Objects

variable {σ : Type}

/-- An environment that keeps the manager's objects: `Stores s memory s'` says what storing them leaves. -/
structure Remembers (env : Environment Op Op.Res Err σ) (G : σ → σ → Prop) (recalled : σ → Memory)
    (Stores : σ → Memory → σ → Prop) : Prop where
  step : ∀ update s answer s', env (.memory update) s answer s' →
    G s s' ∧ answer = .ok (recalled s) ∧ Stores s (update (recalled s)) s'

namespace Remembers

variable {env : Environment Op Op.Res Err σ} {G : σ → σ → Prop} {recalled : σ → Memory}
variable {Stores : σ → Memory → σ → Prop} (h : Remembers env G recalled Stores) (s : σ)

include h

theorem memory (update : Memory → Memory) :
    (Action.memory update).Ensures env G s fun outcome s' =>
      outcome = .ok (recalled s) ∧ Stores s (update (recalled s)) s' :=
  Prog.Ensures.perform fun answer s' hanswer => h.step update s answer s' hanswer

/-- A program that goes on with the manager's objects. -/
theorem memory_bind {α : Type} {update : Memory → Memory} {next : Memory → Action α}
    {Q : Except Err α → σ → Prop}
    (hnext : ∀ s', Stores s (update (recalled s)) s' → (next (recalled s)).Ensures env G s' Q) :
    (Action.memory update >>= next).Ensures env G s Q := by
  refine (h.memory s update).bind ?_ ?_
  · rintro memory s' ⟨heq, hstores⟩
    obtain rfl := Except.ok.inj heq
    exact hnext s' hstores
  · rintro error s' ⟨heq, -⟩
    cases heq

theorem readState {reference : Nat} {state : MultipartState} (hobject : (recalled s).heap[reference]? = some state) :
    (OciDistributionAdapter.readState reference).Ensures env G s fun outcome s' =>
      outcome = .ok state ∧ Stores s (recalled s) s' := by
  refine h.memory_bind s fun s' hstores => ?_
  simp only [hobject]
  exact ⟨rfl, hstores⟩

theorem readState_absent {reference : Nat} (hobject : (recalled s).heap[reference]? = none) :
    (OciDistributionAdapter.readState reference).Ensures env G s fun outcome s' =>
      outcome = .error { kind := .other } ∧ Stores s (recalled s) s' := by
  refine h.memory_bind s fun s' hstores => ?_
  simp only [hobject]
  exact ⟨rfl, hstores⟩

theorem updateState {reference : Nat} {state : MultipartState} (hobject : (recalled s).heap[reference]? = some state)
    (update : MultipartState → MultipartState) :
    (OciDistributionAdapter.updateState reference update).Ensures env G s fun outcome s' =>
      outcome = .ok state ∧ Stores s ((recalled s).modify reference update) s' := by
  refine h.memory_bind s fun s' hstores => ?_
  simp only [hobject]
  exact ⟨rfl, hstores⟩

/-- A transition of the session object, which raises where the machine does. -/
theorem transitionState {reference : Nat} {state : MultipartState}
    (hobject : (recalled s).heap[reference]? = some state) (target : PutState) :
    (OciDistributionAdapter.transitionState P reference target).Ensures env G s fun outcome s' =>
      (∃ update, Stores s ((recalled s).modify reference update) s') ∧
        match outcome with
        | .ok _ => ∃ machine, P.transition state.machine target = .ok machine ∧
            Stores s ((recalled s).modify reference fun state => { state with machine }) s'
        | .error error => P.transition state.machine target = .error error := by
  refine (h.updateState s hobject _).bind ?_ ?_
  · rintro before s' ⟨heq, hstores⟩
    obtain rfl := Except.ok.inj heq
    cases htransition : P.transition before.machine target with
    | error error => exact ⟨⟨_, hstores⟩, rfl⟩
    | ok machine =>
      refine ⟨⟨_, hstores⟩, machine, rfl, ?_⟩
      rw [modify_congr hobject] at hstores
      · exact hstores
      · simp only [htransition]
  · rintro error s' ⟨heq, -⟩
    cases heq

theorem failState {reference : Nat} {state : MultipartState} (hobject : (recalled s).heap[reference]? = some state)
    (physicalCommit : Bool) :
    (OciDistributionAdapter.failState P reference physicalCommit).Ensures env G s fun _ s' =>
      ∃ update, Stores s ((recalled s).modify reference update) s' := by
  refine (h.updateState s hobject _).bind ?_ ?_
  · rintro before s' ⟨heq, hstores⟩
    cases P.fail before.machine physicalCommit <;> exact ⟨_, hstores⟩
  · rintro error s' ⟨heq, -⟩
    cases heq

/-- A session is found if it is live and belongs to the object it names. -/
theorem stateOf (session : MultipartSession) :
    (adapter.stateOf session).Ensures env G s fun outcome s' => Stores s (recalled s) s' ∧
      match outcome with
      | .ok reference => ∃ state, Live (recalled s) session.sessionId reference state ∧
          session.objectRef = adapter.objectReferenceOf state.input
      | .error _ => ∀ reference state, Live (recalled s) session.sessionId reference state →
          session.objectRef ≠ adapter.objectReferenceOf state.input := by
  refine h.memory_bind s fun s' hstores => ?_
  cases hentry : (recalled s).lookup session.sessionId with
  | none =>
    refine ⟨hstores, fun reference state hlive => ?_⟩
    rw [hlive.entry] at hentry
    cases hentry
  | some reference =>
    cases hobject : (recalled s).heap[reference]? with
    | none =>
      simp only [hobject]
      refine ⟨hstores, fun other state hlive => ?_⟩
      obtain rfl := Option.some.inj (hentry.symm.trans hlive.entry)
      rw [hlive.object] at hobject
      cases hobject
    | some state =>
      simp only [hobject]
      split
      · rename_i hne
        refine ⟨hstores, fun other found hlive => ?_⟩
        obtain rfl := Option.some.inj (hentry.symm.trans hlive.entry)
        rw [hlive.object] at hobject
        rw [Option.some.inj hobject]
        exact hne
      · rename_i heq
        exact ⟨hstores, state, ⟨hentry, hobject⟩, not_not.mp heq⟩

end Remembers

end Objects

section Memory

variable {G : World setting.policy → World setting.policy → Prop} (hG : Quiet G)
variable (w : World setting.policy)

include hG

theorem remembers : Remembers setting.env G World.memory fun w memory w' => w' = { w with memory } where
  step := by
    rintro update w answer w' ⟨rfl, rfl⟩
    exact ⟨hG.memory w _, rfl, rfl⟩

theorem memory_ensures (update : Memory → Memory) :
    (Action.memory update).Ensures setting.env G w fun outcome w' =>
      outcome = .ok w.memory ∧ w' = { w with memory := update w.memory } := (remembers hG).memory w update

theorem readState_ensures {reference : Nat} {state : MultipartState}
    (h : w.memory.heap[reference]? = some state) :
    (OciDistributionAdapter.readState reference).Ensures setting.env G w fun outcome w' =>
      outcome = .ok state ∧ w' = w := (remembers hG).readState w h

theorem readState_absent_ensures {reference : Nat} (h : w.memory.heap[reference]? = none) :
    (OciDistributionAdapter.readState reference).Ensures setting.env G w fun outcome w' =>
      outcome = .error { kind := .other } ∧ w' = w := (remembers hG).readState_absent w h

theorem updateState_ensures {reference : Nat} {state : MultipartState}
    (h : w.memory.heap[reference]? = some state) (update : MultipartState → MultipartState) :
    (OciDistributionAdapter.updateState reference update).Ensures setting.env G w fun outcome w' =>
      outcome = .ok state ∧ w' = { w with memory := w.memory.modify reference update } :=
  (remembers hG).updateState w h update

/-- A transition of the session object, which raises where the machine does. -/
theorem transitionState_ensures {reference : Nat} {state : MultipartState}
    (h : w.memory.heap[reference]? = some state) (target : PutState) :
    (OciDistributionAdapter.transitionState P reference target).Ensures setting.env G w
      fun outcome w' => (∃ update, w' = { w with memory := w.memory.modify reference update }) ∧
        match outcome with
        | .ok _ => ∃ machine, P.transition state.machine target = .ok machine ∧
            w' = { w with memory := w.memory.modify reference fun state => { state with machine } }
        | .error error => P.transition state.machine target = .error error :=
  ((remembers hG).transitionState w h target).mono fun outcome _ hq => by cases outcome <;> exact hq

theorem failState_ensures {reference : Nat} {state : MultipartState}
    (h : w.memory.heap[reference]? = some state) (physicalCommit : Bool) :
    (OciDistributionAdapter.failState P reference physicalCommit).Ensures setting.env G w
      fun _ w' => ∃ update, w' = { w with memory := w.memory.modify reference update } :=
  (remembers hG).failState w h physicalCommit

/-- A session is found if it is live and belongs to the object it names. -/
theorem stateOf_ensures (session : MultipartSession) :
    (adapter.stateOf session).Ensures setting.env G w fun outcome w' => w' = w ∧
      match outcome with
      | .ok reference => ∃ state, Live w.memory session.sessionId reference state ∧
          session.objectRef = adapter.objectReferenceOf state.input
      | .error _ => ∀ reference state, Live w.memory session.sessionId reference state →
          session.objectRef ≠ adapter.objectReferenceOf state.input :=
  ((remembers hG).stateOf w session).mono fun outcome _ hq => by cases outcome <;> exact hq

end Memory

end MeridianOci.Service
