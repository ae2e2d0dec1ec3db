import MeridianOci.Effect.Ensures

/-!
# Runs of a sequential component

A component performs one call after another, each as a program in an environment. A run
records every finished call with the states around it, and a configuration is also
reached between any two operations of a call. One rule turns a fact about the calls into
a fact about every reachable configuration.
-/
namespace MeridianOci.Effect

set_option autoImplicit false

variable {Op : Type} {Res : Op → Type} {ε α σ Call : Type}

/-- A finished call. -/
structure Event (Call ε α σ : Type) where
  call : Call
  outcome : Except ε α
  before : σ
  after : σ

inductive Phase (Op : Type) (Res : Op → Type) (ε α σ Call : Type) where
  | idle
  | running (call : Call) (start : σ) (rest : Prog Op Res ε α)

structure Config (Op : Type) (Res : Op → Type) (ε α σ Call : Type) where
  state : σ
  phase : Phase Op Res ε α σ Call
  history : List (Event Call ε α σ)

/-- One step: begin a call, perform one operation of it, or finish it. -/
inductive Step (env : Environment Op Res ε σ) (program : Call → Prog Op Res ε α) :
    Config Op Res ε α σ Call → Config Op Res ε α σ Call → Prop where
  | start (s : σ) (history) (call : Call) :
      Step env program ⟨s, .idle, history⟩ ⟨s, .running call s (program call), history⟩
  | perform (s s' start : σ) (history) (call : Call) (op : Op) (next) (answer) :
      env op s answer s' →
      Step env program ⟨s, .running call start (.call op next), history⟩
        ⟨s', .running call start (next answer), history⟩
  | ret (s start : σ) (history) (call : Call) (value : α) :
      Step env program ⟨s, .running call start (.ret value), history⟩
        ⟨s, .idle, history ++ [⟨call, .ok value, start, s⟩]⟩
  | raise (s start : σ) (history) (call : Call) (error : ε) :
      Step env program ⟨s, .running call start (.raise error), history⟩
        ⟨s, .idle, history ++ [⟨call, .error error, start, s⟩]⟩

/-- Reachable from a first state in which nothing has happened. -/
def Reachable (env : Environment Op Res ε σ) (program : Call → Prog Op Res ε α) (first : σ)
    (config : Config Op Res ε α σ Call) : Prop :=
  Relation.ReflTransGen (Step env program) ⟨first, .idle, []⟩ config

/-- What an invariant of finished calls says in the middle of one. -/
def Config.Holds (env : Environment Op Res ε σ) (G : σ → σ → Prop)
    (I : σ → List (Event Call ε α σ) → Prop) (config : Config Op Res ε α σ Call) : Prop :=
  match config.phase with
  | .idle => I config.state config.history
  | .running call start rest =>
    I start config.history ∧ Relation.ReflTransGen G start config.state ∧
      rest.Ensures env G config.state fun outcome s =>
        I s (config.history ++ [⟨call, outcome, start, s⟩])

variable {env : Environment Op Res ε σ} {program : Call → Prog Op Res ε α} {first : σ}
variable {G : σ → σ → Prop} {I : σ → List (Event Call ε α σ) → Prop}

theorem Step.holds {a b : Config Op Res ε α σ Call} (hstep : Step env program a b)
    (hcalls : ∀ s history call, I s history → (program call).Ensures env G s
      fun outcome s' => I s' (history ++ [⟨call, outcome, s, s'⟩]))
    (h : a.Holds env G I) : b.Holds env G I := by
  cases hstep with
  | start s history call => exact ⟨h, .refl, hcalls s history call h⟩
  | perform s s' start history call op next answer hanswer =>
    obtain ⟨hstart, hreach, hrest⟩ := h
    obtain ⟨hguarantee, hnext⟩ := hrest answer s' hanswer
    exact ⟨hstart, hreach.tail hguarantee, hnext⟩
  | ret s start history call value => exact h.2.2
  | raise s start history call error => exact h.2.2

/-- If every call preserves the invariant of finished calls, it holds of every run. -/
theorem Reachable.holds (hfirst : I first [])
    (hcalls : ∀ s history call, I s history → (program call).Ensures env G s
      fun outcome s' => I s' (history ++ [⟨call, outcome, s, s'⟩]))
    {config : Config Op Res ε α σ Call} (h : Reachable env program first config) :
    config.Holds env G I := by
  induction h with
  | refl => exact hfirst
  | tail _ hstep ih => exact hstep.holds hcalls ih

/-- Append a whole call to a run: a program that terminates with an outcome. -/
inductive Performs (env : Environment Op Res ε σ) : Prog Op Res ε α → σ → Except ε α → σ → Prop where
  | ret (value : α) (s : σ) : Performs env (.ret value) s (.ok value) s
  | raise (error : ε) (s : σ) : Performs env (.raise error) s (.error error) s
  | call (op : Op) (next) (s s' s'' : σ) (answer) (outcome : Except ε α) :
      env op s answer s' → Performs env (next answer) s' outcome s'' →
      Performs env (.call op next) s outcome s''

theorem Performs.ensures {rest : Prog Op Res ε α} {s s' : σ} {outcome : Except ε α}
    {Q : Except ε α → σ → Prop} (h : Performs env rest s outcome s')
    (hensures : rest.Ensures env G s Q) : Q outcome s' := by
  induction h with
  | ret value s => exact hensures
  | raise error s => exact hensures
  | call op next s s' s'' answer outcome hanswer _ ih => exact ih (hensures _ _ hanswer).2

/-- What every way to perform a program leads to. -/
theorem Prog.ensures_of_performs {rest : Prog Op Res ε α} {s : σ} {Q : Except ε α → σ → Prop}
    (h : ∀ outcome s', Performs env rest s outcome s' → Q outcome s') : rest.Ensures env (fun _ _ => True) s Q := by
  induction rest generalizing s with
  | ret value => exact h _ _ (.ret value s)
  | raise error => exact h _ _ (.raise error s)
  | call op next ih =>
    intro answer s' hanswer
    exact ⟨trivial, ih answer fun outcome s'' hrest => h _ _ (.call op next s s' s'' answer outcome hanswer hrest)⟩

theorem Performs.run {answer : (op : Op) → σ → Except ε (Res op) × σ} (rest : Prog Op Res ε α)
    (s : σ) : Performs (Environment.ofFunction answer) rest s (rest.run answer s).1
      (rest.run answer s).2 := by
  induction rest generalizing s with
  | ret value => exact .ret value s
  | raise error => exact .raise error s
  | call op next ih => exact .call op next s _ _ _ _ rfl (ih _ _)

theorem Performs.handle {β : Type} {program : Prog Op Res ε α} {next : Except ε α → Prog Op Res ε β} {s s' s'' : σ}
    {outcome : Except ε α} {last : Except ε β} (h : Performs env program s outcome s')
    (hnext : Performs env (next outcome) s' last s'') : Performs env (program.handle next) s last s'' := by
  induction h with
  | ret value s => exact hnext
  | raise error s => exact hnext
  | call op rest s s₁ s₂ answer outcome hanswer _ ih => exact .call op _ s s₁ _ answer _ hanswer (ih hnext)

theorem Performs.bind {β : Type} {program : Prog Op Res ε α} {next : α → Prog Op Res ε β} {s s' s'' : σ} {value : α}
    {last : Except ε β} (h : Performs env program s (.ok value) s') (hnext : Performs env (next value) s' last s'') :
    Performs env (program >>= next) s last s'' := h.handle hnext

/-- A sequence is performed one program after the other. -/
theorem Performs.of_handle {β : Type} {program : Prog Op Res ε α} {next : Except ε α → Prog Op Res ε β} {s s' : σ}
    {last : Except ε β} (h : Performs env (program.handle next) s last s') :
    ∃ outcome s₁, Performs env program s outcome s₁ ∧ Performs env (next outcome) s₁ last s' := by
  induction program generalizing s with
  | ret value => exact ⟨_, s, .ret value s, h⟩
  | raise error => exact ⟨_, s, .raise error s, h⟩
  | call op rest ih =>
    cases h with
    | call _ _ _ s₁ _ answer _ hanswer hrest =>
      obtain ⟨outcome, s₂, hfirst, hsecond⟩ := ih answer hrest
      exact ⟨outcome, s₂, .call op rest s s₁ s₂ answer outcome hanswer hfirst, hsecond⟩

/-- A program whose value is only wrapped. -/
theorem Performs.of_wrap {β : Type} {program : Prog Op Res ε α} {wrap : α → β} {s s' : σ} {outcome : Except ε β}
    (h : Performs env (program >>= fun value => pure (wrap value)) s outcome s') :
    ∃ inner, Performs env program s inner s' ∧ outcome = inner.map wrap := by
  obtain ⟨inner, s₁, hfirst, hlast⟩ := h.of_handle
  cases inner with
  | error error =>
    cases hlast
    exact ⟨_, hfirst, rfl⟩
  | ok value =>
    cases hlast
    exact ⟨_, hfirst, rfl⟩

theorem Performs.mono {env' : Environment Op Res ε σ} (henv : ∀ op s r s', env op s r s' → env' op s r s')
    {rest : Prog Op Res ε α} {s s' : σ} {outcome : Except ε α} (h : Performs env rest s outcome s') :
    Performs env' rest s outcome s' := by
  induction h with
  | ret value s => exact .ret value s
  | raise error s => exact .raise error s
  | call op next s s' s'' answer outcome hanswer _ ih =>
    exact .call op next s s' s'' answer outcome (henv _ _ _ _ hanswer) ih

/-- Answers seen through a view of the state are answers in the viewed state. -/
theorem Performs.map {κ : Type} {env : Environment Op Res ε κ} {env' : Environment Op Res ε σ}
    {J : κ → Prop} {view : κ → σ}
    (henv : ∀ op k r k', J k → env op k r k' → J k' ∧ env' op (view k) r (view k'))
    {rest : Prog Op Res ε α} {k k' : κ} {outcome : Except ε α} (h : Performs env rest k outcome k')
    (hk : J k) : Performs env' rest (view k) outcome (view k') := by
  induction h with
  | ret value k => exact .ret value _
  | raise error k => exact .raise error _
  | call op next k k' k'' answer outcome hanswer _ ih =>
    obtain ⟨hk', hanswer⟩ := henv op k answer k' hk hanswer
    exact .call op next _ _ _ answer outcome hanswer (ih hk')

/-- A call is performed step by step. -/
theorem Performs.steps {s s' : σ} {call : Call} {outcome : Except ε α}
    (hperforms : Performs env (program call) s outcome s') (history : List (Event Call ε α σ)) :
    Relation.ReflTransGen (Step env program) ⟨s, .idle, history⟩
      ⟨s', .idle, history ++ [⟨call, outcome, s, s'⟩]⟩ := by
  suffices hgen : ∀ rest s₁, Performs env rest s₁ outcome s' →
      Relation.ReflTransGen (Step env program) ⟨s₁, .running call s rest, history⟩
        ⟨s', .idle, history ++ [⟨call, outcome, s, s'⟩]⟩ from
    .head (.start s history call) (hgen _ _ hperforms)
  intro rest s₁ hrest
  induction hrest with
  | ret value s₁ => exact .single (.ret s₁ s history call value)
  | raise error s₁ => exact .single (.raise s₁ s history call error)
  | call op next s₁ s₂ s₃ answer outcome hanswer _ ih =>
    exact .head (.perform s₁ s₂ s history call op next answer hanswer) (ih hperforms)

/-- A finished call extends a run. -/
theorem Reachable.performs {s s' : σ} {history : List (Event Call ε α σ)} {call : Call}
    {outcome : Except ε α} (h : Reachable env program first ⟨s, .idle, history⟩)
    (hperforms : Performs env (program call) s outcome s') :
    Reachable env program first ⟨s', .idle, history ++ [⟨call, outcome, s, s'⟩]⟩ :=
  h.trans (hperforms.steps history)

/-- A call that finished was begun in a state of the run. -/
theorem Reachable.before {config : Config Op Res ε α σ Call} (h : Reachable env program first config)
    {front rest : List (Event Call ε α σ)} {event : Event Call ε α σ}
    (hhistory : config.history = front ++ event :: rest) :
    Reachable env program first ⟨event.before, .idle, front⟩ := by
  -- also the call in progress was begun in a state of the run
  suffices hgen : (∀ front event rest, config.history = front ++ event :: rest →
      Reachable env program first ⟨event.before, .idle, front⟩) ∧
      ∀ call start remaining, config.phase = .running call start remaining →
        Reachable env program first ⟨start, .idle, config.history⟩ from
    hgen.1 front event rest hhistory
  clear hhistory
  induction h with
  | refl =>
    refine ⟨fun front event rest hhistory => ?_, fun _ _ _ hphase => by cases hphase⟩
    cases front <;> cases hhistory
  | tail hreach hstep ih =>
    obtain ⟨ihhistory, ihphase⟩ := ih
    -- a finished call is the last event of the history
    have hfinish : ∀ {history : List (Event Call ε α σ)} {last : Event Call ε α σ},
        (∀ front event rest, history = front ++ event :: rest →
          Reachable env program first ⟨event.before, .idle, front⟩) →
        Reachable env program first ⟨last.before, .idle, history⟩ →
        ∀ front event rest, history ++ [last] = front ++ event :: rest →
          Reachable env program first ⟨event.before, .idle, front⟩ := by
      intro history last hold hlast front event rest heq
      rcases List.eq_nil_or_concat rest with rfl | ⟨rest, tail, rfl⟩
      · obtain ⟨rfl, hevent⟩ := List.append_inj' heq rfl
        obtain rfl := (List.cons.inj hevent).1
        exact hlast
      · refine hold front event rest ?_
        rw [List.concat_eq_append, ← List.cons_append, ← List.append_assoc] at heq
        exact (List.append_inj' heq rfl).1
    cases hstep with
    | start s history call =>
      refine ⟨ihhistory, fun _ _ _ hphase => ?_⟩
      cases hphase
      exact hreach
    | perform s s' start history call op next answer hanswer =>
      refine ⟨ihhistory, fun _ _ _ hphase => ?_⟩
      cases hphase
      exact ihphase _ _ _ rfl
    | ret s start history call value =>
      exact ⟨hfinish ihhistory (ihphase _ _ _ rfl), fun _ _ _ hphase => by cases hphase⟩
    | raise s start history call error =>
      exact ⟨hfinish ihhistory (ihphase _ _ _ rfl), fun _ _ _ hphase => by cases hphase⟩

/-- What every step of a run guarantees holds between any two states of it. -/
theorem Reachable.guarantee {R : σ → σ → Prop} (hrefl : ∀ s, R s s)
    (htrans : ∀ a b c, R a b → R b c → R a c) (hG : ∀ s s', G s s' → R s s')
    (hholds : ∀ {config : Config Op Res ε α σ Call}, Reachable env program first config →
      config.Holds env G I)
    {earlier later : Config Op Res ε α σ Call} (h : Reachable env program first earlier)
    (hpath : Relation.ReflTransGen (Step env program) earlier later) : R earlier.state later.state := by
  induction hpath with
  | refl => exact hrefl _
  | tail hprefix hstep ih =>
    refine htrans _ _ _ ih ?_
    have hholds := hholds (h.trans hprefix)
    cases hstep with
    | start s history call => exact hrefl _
    | perform s s' start history call op next answer hanswer =>
      exact hG _ _ (hholds.2.2 answer s' hanswer).1
    | ret s start history call value => exact hrefl _
    | raise s start history call error => exact hrefl _

/-! ## Views -/

section Views

variable {κ : Type} {env' : Environment Op Res ε κ} (view : κ → σ)

def Event.map (event : Event Call ε α κ) : Event Call ε α σ :=
  ⟨event.call, event.outcome, view event.before, view event.after⟩

def Phase.map : Phase Op Res ε α κ Call → Phase Op Res ε α σ Call
  | .idle => .idle
  | .running call start rest => .running call (view start) rest

def Config.map (config : Config Op Res ε α κ Call) : Config Op Res ε α σ Call :=
  ⟨view config.state, config.phase.map view, config.history.map (Event.map view)⟩

variable {view} {first : κ}

theorem Step.map (henv : ∀ op k r k', env' op k r k' → env op (view k) r (view k'))
    {a b : Config Op Res ε α κ Call} (h : Step env' program a b) : Step env program (a.map view) (b.map view) := by
  cases h with
  | start k history call => exact .start _ _ call
  | perform k k' start history call op next answer hanswer =>
    exact .perform _ _ _ _ call op next answer (henv _ _ _ _ hanswer)
  | ret k start history call value =>
    rw [Config.map, Config.map, List.map_append]
    exact .ret _ _ _ call value
  | raise k start history call error =>
    rw [Config.map, Config.map, List.map_append]
    exact .raise _ _ _ call error

/-- A run seen through a view of its states is a run. -/
theorem Reachable.map (henv : ∀ op k r k', env' op k r k' → env op (view k) r (view k'))
    {config : Config Op Res ε α κ Call} (h : Reachable env' program first config) :
    Reachable env program (view first) (config.map view) :=
  Relation.ReflTransGen.lift (Config.map view) (fun _ _ hstep => Step.map henv hstep) _ _ h

/-- Every run is seen, if every answer is. -/
theorem Reachable.lift (henv : ∀ op k r s', env op (view k) r s' → ∃ k', view k' = s' ∧ env' op k r k')
    {config : Config Op Res ε α σ Call} (h : Reachable env program (view first) config) :
    ∃ config', Reachable env' program first config' ∧ config'.map view = config := by
  induction h with
  | refl => exact ⟨_, .refl, rfl⟩
  | tail _ hstep ih =>
    obtain ⟨⟨k, phase, history⟩, hrun, rfl⟩ := ih
    generalize ha : Config.map view ⟨k, phase, history⟩ = a at hstep
    cases hstep with
    | start s history' call =>
      cases phase with
      | running call start rest => cases ha
      | idle =>
        cases ha
        exact ⟨_, hrun.tail (.start k history call), rfl⟩
    | perform s s' start history' call op next answer hanswer =>
      cases phase with
      | idle => cases ha
      | running other start' rest =>
        cases ha
        obtain ⟨k', rfl, hanswer'⟩ := henv op k answer s' hanswer
        exact ⟨_, hrun.tail (.perform k k' start' history call op next answer hanswer'), rfl⟩
    | ret s start history' call value =>
      cases phase with
      | idle => cases ha
      | running other start' rest =>
        cases ha
        exact ⟨_, hrun.tail (.ret k start' history call value), by rw [Config.map, List.map_append]; rfl⟩
    | raise s start history' call error =>
      cases phase with
      | idle => cases ha
      | running other start' rest =>
        cases ha
        exact ⟨_, hrun.tail (.raise k start' history call error), by rw [Config.map, List.map_append]; rfl⟩

end Views

/-! ## Since -/

section Since

variable {α : Type} {start keep : α → Prop} {history : List α} {last : α}

/-- Something happened in the history and only events of one kind came after it. -/
def Since (start keep : α → Prop) (history : List α) : Prop :=
  ∃ front event rest, history = front ++ event :: rest ∧ start event ∧ ∀ later ∈ rest, keep later

theorem not_since_nil : ¬Since start keep [] := by
  intro h
  obtain ⟨front, event, rest, heq, -⟩ := h
  cases front <;> cases heq

theorem since_snoc : Since start keep (history ++ [last]) ↔ start last ∨ (keep last ∧ Since start keep history) := by
  constructor
  · intro h
    obtain ⟨front, event, rest, heq, hstart, hkeep⟩ := h
    rcases List.eq_nil_or_concat rest with hnil | ⟨init, other, hconcat⟩
    · rw [hnil] at heq
      obtain ⟨-, hlast⟩ := List.append_inj' heq rfl
      rw [(List.cons.inj hlast).1]
      exact .inl hstart
    · rw [hconcat, List.concat_eq_append] at heq hkeep
      rw [← List.cons_append, ← List.append_assoc] at heq
      obtain ⟨hhistory, hlast⟩ := List.append_inj' heq rfl
      refine .inr ⟨?_, front, event, init, hhistory, hstart, ?_⟩
      · rw [(List.cons.inj hlast).1]
        exact hkeep other (by simp)
      · intro later hlater
        exact hkeep later (List.mem_append_left _ hlater)
  · intro h
    rcases h with hlast | ⟨hlast, front, event, rest, heq, hstart, hkeep⟩
    · exact ⟨history, last, [], rfl, hlast, by simp⟩
    · refine ⟨front, event, rest ++ [last], by simp [heq], hstart, ?_⟩
      intro later hlater
      rcases List.mem_append.mp hlater with hmem | hmem
      · exact hkeep later hmem
      · rw [List.mem_singleton.mp hmem]
        exact hlast

end Since

end MeridianOci.Effect
