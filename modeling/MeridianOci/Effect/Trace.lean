import MeridianOci.Effect.Uses

/-!
# Traces

A program that is performed leaves the list of its operations with their answers. A
sequence leaves the traces of its parts one after the other, so a fact about every
operation of a run is found in the part that performed it.
-/
namespace MeridianOci.Effect

set_option autoImplicit false

variable {Op : Type} {Res : Op → Type} {ε α β σ : Type}

/-- An operation and its answer. -/
abbrev Exchange (Op : Type) (Res : Op → Type) (ε : Type) := (op : Op) × Except ε (Res op)

/-- `Performs` with what was performed. -/
inductive Traces (env : Environment Op Res ε σ) :
    Prog Op Res ε α → σ → List (Exchange Op Res ε) → Except ε α → σ → Prop where
  | ret (value : α) (s : σ) : Traces env (.ret value) s [] (.ok value) s
  | raise (error : ε) (s : σ) : Traces env (.raise error) s [] (.error error) s
  | call (op : Op) (next) (s s' s'' : σ) (answer) (trace) (outcome : Except ε α) :
      env op s answer s' → Traces env (next answer) s' trace outcome s'' →
      Traces env (.call op next) s (⟨op, answer⟩ :: trace) outcome s''

variable {env env' : Environment Op Res ε σ} {program : Prog Op Res ε α} {s s' : σ} {outcome : Except ε α}
variable {trace : List (Exchange Op Res ε)}

theorem Traces.performs (h : Traces env program s trace outcome s') : Performs env program s outcome s' := by
  induction h with
  | ret value s => exact .ret value s
  | raise error s => exact .raise error s
  | call op next s s' s'' answer trace outcome hanswer _ ih => exact .call op next s s' s'' answer outcome hanswer ih

theorem Performs.traces (h : Performs env program s outcome s') : ∃ trace, Traces env program s trace outcome s' := by
  induction h with
  | ret value s => exact ⟨[], .ret value s⟩
  | raise error s => exact ⟨[], .raise error s⟩
  | call op next s s' s'' answer outcome hanswer _ ih =>
    obtain ⟨trace, htrace⟩ := ih
    exact ⟨_, .call op next s s' s'' answer trace outcome hanswer htrace⟩

theorem Traces.mono (henv : ∀ op s r s', env op s r s' → env' op s r s')
    (h : Traces env program s trace outcome s') : Traces env' program s trace outcome s' := by
  induction h with
  | ret value s => exact .ret value s
  | raise error s => exact .raise error s
  | call op next s s' s'' answer trace outcome hanswer _ ih =>
    exact .call op next s s' s'' answer trace outcome (henv _ _ _ _ hanswer) ih

/-- What every way to perform a program leads to. -/
theorem Traces.ensures {G : σ → σ → Prop} {Q : Except ε α → σ → Prop} (h : Traces env program s trace outcome s')
    (hensures : program.Ensures env G s Q) : Q outcome s' := h.performs.ensures hensures

/-- The operations of a program are those it uses. -/
theorem Traces.uses {A : Op → Prop} (h : Traces env program s trace outcome s') (huses : program.Uses A) :
    ∀ exchange ∈ trace, A exchange.1 := by
  induction h with
  | ret value s => simp
  | raise error s => simp
  | call op next s s' s'' answer trace outcome _ _ ih =>
    intro exchange hmem
    rcases List.mem_cons.mp hmem with rfl | hrest
    · exact huses.1
    · exact ih (huses.2 answer) exchange hrest

/-- The trace of a sequence is made of the traces of its parts. -/
theorem Traces.of_handle {next : Except ε α → Prog Op Res ε β} {last : Except ε β}
    (h : Traces env (program.handle next) s trace last s') :
    ∃ front outcome s₁ rest, trace = front ++ rest ∧ Traces env program s front outcome s₁ ∧
      Traces env (next outcome) s₁ rest last s' := by
  induction program generalizing s trace with
  | ret value => exact ⟨[], _, s, trace, rfl, .ret value s, h⟩
  | raise error => exact ⟨[], _, s, trace, rfl, .raise error s, h⟩
  | call op inner ih =>
    cases h with
    | call _ _ _ s₁ _ answer trace _ hanswer hrest =>
      obtain ⟨front, outcome, s₂, rest, rfl, hfront, hlast⟩ := ih answer hrest
      exact ⟨_, outcome, s₂, rest, rfl, .call op inner s s₁ s₂ answer front outcome hanswer hfront, hlast⟩

theorem Traces.of_bind {next : α → Prog Op Res ε β} {last : Except ε β} (h : Traces env (program >>= next) s trace last s') :
    (∃ error, Traces env program s trace (.error error) s' ∧ last = .error error) ∨
      ∃ value front s₁ rest, trace = front ++ rest ∧ Traces env program s front (.ok value) s₁ ∧
        Traces env (next value) s₁ rest last s' := by
  obtain ⟨front, outcome, s₁, rest, rfl, hfront, hrest⟩ := h.of_handle
  cases outcome with
  | error error =>
    cases hrest
    rw [List.append_nil]
    exact .inl ⟨error, hfront, rfl⟩
  | ok value => exact .inr ⟨value, front, s₁, rest, rfl, hfront, hrest⟩

/-- A trace of a program and one of what comes next, one after the other. -/
theorem Traces.handle {next : Except ε α → Prog Op Res ε β} {front rest : List (Exchange Op Res ε)} {s₁ : σ}
    {last : Except ε β} (h : Traces env program s front outcome s₁) (hnext : Traces env (next outcome) s₁ rest last s') :
    Traces env (program.handle next) s (front ++ rest) last s' := by
  induction h with
  | ret value s => exact hnext
  | raise error s => exact hnext
  | call op inner s s₁ s₂ answer front outcome hanswer _ ih =>
    exact .call op _ s s₁ s' answer (front ++ rest) last hanswer (ih hnext)

theorem Traces.bind_ok {next : α → Prog Op Res ε β} {front rest : List (Exchange Op Res ε)} {s₁ : σ} {value : α}
    {last : Except ε β} (h : Traces env program s front (.ok value) s₁)
    (hnext : Traces env (next value) s₁ rest last s') : Traces env (program >>= next) s (front ++ rest) last s' :=
  h.handle hnext

theorem Traces.bind_error {next : α → Prog Op Res ε β} {error : ε} (h : Traces env program s trace (.error error) s') :
    Traces env (program >>= next) s trace (.error error) s' := by
  have hboth : Traces env (program.handle (Prog.onOk next)) s (trace ++ []) (.error error) s' := h.handle (.raise error s')
  rw [List.append_nil] at hboth
  exact hboth

/-- A returned value is one that the program may return. -/
theorem Traces.returns {R : α → Prop} {value : α} (h : Traces env program s trace (.ok value) s')
    (hreturns : program.Returns R) : R value := by
  generalize houtcome : Except.ok value = outcome at h
  induction h with
  | ret result s =>
    rw [Except.ok.inj houtcome]
    exact hreturns
  | raise error s => cases houtcome
  | call op next s s₁ s₂ answer trace outcome _ _ ih => exact ih (hreturns answer) houtcome

/-- An operation with what comes after it. -/
theorem Traces.of_perform {op : Op} {next : Res op → Prog Op Res ε α}
    (h : Traces env (Prog.perform op >>= next) s trace outcome s') : ∃ answer s₁ rest, trace = ⟨op, answer⟩ :: rest ∧
      env op s answer s₁ ∧ Traces env (Prog.onOk next answer) s₁ rest outcome s' := by
  obtain ⟨front, first, s₁, rest, rfl, hfront, hrest⟩ := h.of_handle
  cases hfront with
  | call _ _ _ s₂ _ answer front _ hanswer hlast =>
    cases answer with
    | error error =>
      cases hlast
      exact ⟨_, _, _, rfl, hanswer, hrest⟩
    | ok value =>
      cases hlast
      exact ⟨_, _, _, rfl, hanswer, hrest⟩

theorem Traces.perform {op : Op} {answer : Except ε (Res op)} (h : env op s answer s') :
    Traces env (Prog.perform op) s [⟨op, answer⟩] answer s' := by
  cases answer with
  | error error => exact .call op Prog.ofExcept s s' s' _ [] _ h (.raise error s')
  | ok value => exact .call op Prog.ofExcept s s' s' _ [] _ h (.ret value s')

/-- In a deterministic environment a trace ends where the run does. -/
theorem Traces.run_eq {answer : (op : Op) → σ → Except ε (Res op) × σ}
    (h : Traces (Environment.ofFunction answer) program s trace outcome s') : program.run answer s = (outcome, s') :=
  h.performs.run_eq (fun _ _ _ _ _ heq => heq) program.uses_anything

/-- A computed outcome has no trace. -/
theorem Traces.of_except {given : Except ε α} (h : Traces env (Prog.ofExcept given) s trace outcome s') :
    trace = [] ∧ outcome = given ∧ s' = s := by
  cases given <;> cases h <;> exact ⟨rfl, rfl, rfl⟩

/-- A trace without operations. -/
theorem Traces.of_idle (h : Traces env program s trace outcome s') (hidle : program.Uses fun _ => False) :
    trace = [] := List.eq_nil_iff_forall_not_mem.mpr fun exchange hmem => h.uses hidle exchange hmem

/-! ## One fault -/

/-- Every operation is answered as usual, but for one at most. -/
def Environment.once (usual faulty : Environment Op Res ε σ) : Environment Op Res ε (σ × Bool) :=
  fun op before answer after => (usual op before.1 answer after.1 ∧ after.2 = before.2) ∨
    (before.2 = false ∧ after.2 = true ∧ faulty op before.1 answer after.1)

/-- Without a fault. -/
theorem Traces.once {faulty : Environment Op Res ε σ} (h : Traces env program s trace outcome s') (used : Bool) :
    Traces (env.once faulty) program (s, used) trace outcome (s', used) := by
  induction h with
  | ret value s => exact .ret value _
  | raise error s => exact .raise error _
  | call op next s s' s'' answer trace outcome hanswer _ ih =>
    exact .call op next _ (s', used) _ answer trace outcome (.inl ⟨hanswer, rfl⟩) ih

/-! ## How often a kind of operation begins -/

section Starts

variable (kind : Op → Bool)

/-- The operations of a kind that do not follow another one of it. -/
def starts : Bool → List (Exchange Op Res ε) → Nat
  | _, [] => 0
  | before, exchange :: rest => (if kind exchange.1 && !before then 1 else 0) + starts (kind exchange.1) rest

variable {kind} {front rest : List (Exchange Op Res ε)}

theorem starts_of_kind (h : ∀ exchange ∈ front, kind exchange.1 = true) :
    starts kind true (front ++ rest) = starts kind true rest := by
  induction front with
  | nil => rfl
  | cons exchange front ih =>
    have hexchange := h exchange List.mem_cons_self
    rw [List.cons_append, starts, hexchange, ih fun other hother => h other (List.mem_cons_of_mem _ hother)]
    simp

theorem starts_of_other (h : ∀ exchange ∈ front, kind exchange.1 = false) (before : Bool) :
    starts kind before (front ++ rest) = starts kind (before && front.isEmpty) rest := by
  induction front generalizing before with
  | nil => simp
  | cons exchange front ih =>
    have hexchange := h exchange List.mem_cons_self
    rw [List.cons_append, starts, hexchange, ih fun other hother => h other (List.mem_cons_of_mem _ hother)]
    simp

/-- Operations of the kind, then others, then the rest: one start more than the rest has. -/
theorem starts_round {others : List (Exchange Op Res ε)} (hne : front ≠ [])
    (hfront : ∀ exchange ∈ front, kind exchange.1 = true) (hothers : ∀ exchange ∈ others, kind exchange.1 = false) :
    starts kind false (front ++ (others ++ rest)) = 1 + starts kind others.isEmpty rest := by
  obtain ⟨exchange, front, rfl⟩ := List.exists_cons_of_ne_nil hne
  have hexchange := hfront exchange List.mem_cons_self
  have htail : starts kind true (front ++ (others ++ rest)) = starts kind true (others ++ rest) :=
    starts_of_kind fun other hother => hfront other (List.mem_cons_of_mem _ hother)
  rw [List.cons_append, starts, hexchange, htail, starts_of_other hothers, Bool.true_and]
  simp

end Starts

end MeridianOci.Effect
