import Mathlib.Logic.Function.Basic
import MeridianOci.Effect.Trace

/-!
# Programs that take turns

Several programs share one state and perform one operation after the other, in any order.
Seen from one of them this is a run of its own, in an environment whose state may move
before each of its operations. Of these moves only that is known which is known of every
single operation of the others.
-/
namespace MeridianOci.Effect

set_option autoImplicit false

variable {Op : Type} {Res : Op → Type} {ε α ι κ σ : Type}

/-- An environment whose state may move before every operation. -/
def Environment.beside (env : Environment Op Res ε σ) (rely : σ → σ → Prop) : Environment Op Res ε σ :=
  fun op s answer s' => ∃ s₁, rely s s₁ ∧ env op s₁ answer s'

/-- A trace that may be the beginning of a longer one: what is left of the program comes after it. -/
inductive Advances (env : Environment Op Res ε σ) (program : Prog Op Res ε α) (s : σ) :
    List (Exchange Op Res ε) → Prog Op Res ε α → σ → Prop where
  | start : Advances env program s [] program s
  | step (op : Op) (next) (answer) (trace) (s₁ s₂ : σ) : Advances env program s trace (.call op next) s₁ →
      env op s₁ answer s₂ → Advances env program s (trace ++ [⟨op, answer⟩]) (next answer) s₂

theorem Advances.traces {env : Environment Op Res ε σ} {program rest : Prog Op Res ε α} {s s₁ s' : σ}
    {front back : List (Exchange Op Res ε)} {outcome : Except ε α} (h : Advances env program s front rest s₁)
    (hrest : Traces env rest s₁ back outcome s') : Traces env program s (front ++ back) outcome s' := by
  induction h generalizing back with
  | start => exact hrest
  | step op next answer trace s₁ s₂ _ hanswer ih =>
    rw [List.append_assoc]
    exact ih (.call op next s₁ s₂ s' answer back outcome hanswer hrest)

/-- A program that is at its end. -/
theorem Advances.ends {env : Environment Op Res ε σ} {program : Prog Op Res ε α} {s s' : σ}
    {trace : List (Exchange Op Res ε)} {outcome : Except ε α}
    (h : Advances env program s trace (Prog.ofExcept outcome) s') : Traces env program s trace outcome s' := by
  have hend : Traces env (Prog.ofExcept outcome) s' [] outcome s' := by
    cases outcome with
    | error error => exact .raise error s'
    | ok value => exact .ret value s'
  have htraces := h.traces hend
  rw [List.append_nil] at htraces
  exact htraces

/-- One operation of one of the programs. -/
structure Occurrence (ι Op : Type) (Res : Op → Type) (ε κ : Type) where
  who : ι
  exchange : Exchange Op Res ε
  before : κ
  after : κ

variable [DecidableEq ι]

/-- What is left of the programs, the state and the turns so far. -/
inductive Turns (env : ι → Environment Op Res ε κ) (programs : ι → Prog Op Res ε α) (first : κ) :
    (ι → Prog Op Res ε α) → κ → List (Occurrence ι Op Res ε κ) → Prop where
  | start : Turns env programs first programs first []
  | turn (rest : ι → Prog Op Res ε α) (k k' : κ) (log) (i : ι) (op : Op) (next) (answer) :
      Turns env programs first rest k log → rest i = .call op next → env i op k answer k' →
      Turns env programs first (Function.update rest i (next answer)) k' (log ++ [⟨i, ⟨op, answer⟩, k, k'⟩])

namespace Turns

/-- The operations of one of the programs. -/
def own (i : ι) (log : List (Occurrence ι Op Res ε κ)) : List (Exchange Op Res ε) :=
  (log.filter fun turn => turn.who = i).map Occurrence.exchange

variable {env : ι → Environment Op Res ε κ} {programs rest : ι → Prog Op Res ε α} {first last : κ}
variable {log : List (Occurrence ι Op Res ε κ)}

/-- Every turn was answered by the environment of its program. -/
theorem answered (h : Turns env programs first rest last log) :
    ∀ turn ∈ log, env turn.who turn.exchange.1 turn.before turn.exchange.2 turn.after := by
  induction h with
  | start => simp
  | turn rest k k' log i op next answer _ _ hanswer ih =>
    intro turn hmem
    rcases List.mem_append.mp hmem with hlog | hlast
    · exact ih turn hlog
    · rw [List.mem_singleton.mp hlast]
      exact hanswer

/-- The operations of a program are those it uses. -/
theorem uses {A : ι → Op → Prop} (h : Turns env programs first rest last log)
    (huses : ∀ i, (programs i).Uses (A i)) :
    (∀ i, (rest i).Uses (A i)) ∧ ∀ turn ∈ log, A turn.who turn.exchange.1 := by
  induction h with
  | start => exact ⟨huses, by simp⟩
  | turn rest k k' log i op next answer _ hrest _ ih =>
    obtain ⟨ihrest, ihlog⟩ := ih
    have hcall : (Prog.call op next).Uses (A i) := hrest ▸ ihrest i
    constructor
    · intro j
      by_cases hji : j = i
      · subst hji
        rw [Function.update_self]
        exact hcall.2 answer
      · rw [Function.update_of_ne hji]
        exact ihrest j
    · intro turn hmem
      rcases List.mem_append.mp hmem with hlog | hlast
      · exact ihlog turn hlog
      · rw [List.mem_singleton.mp hlast]
        exact hcall.1

/-- A program among others has a run of its own, beside what the others do. -/
theorem advances {i : ι} {view : κ → σ} {env' : Environment Op Res ε σ} {rely : σ → σ → Prop}
    (h : Turns env programs first rest last log)
    (henv : ∀ op k answer k', env i op k answer k' → env' op (view k) answer (view k'))
    (hrefl : ∀ s, rely s s) (htrans : ∀ a b c, rely a b → rely b c → rely a c)
    (hothers : ∀ turn ∈ log, turn.who ≠ i → rely (view turn.before) (view turn.after)) :
    ∃ s, Advances (env'.beside rely) (programs i) (view first) (own i log) (rest i) s ∧ rely s (view last) := by
  induction h with
  | start => exact ⟨_, .start, hrefl _⟩
  | turn rest k k' log j op next answer _ hrest hanswer ih =>
    obtain ⟨s, hadvances, hrely⟩ := ih fun turn hmem => hothers turn (List.mem_append_left _ hmem)
    by_cases hji : j = i
    · subst hji
      rw [hrest] at hadvances
      refine ⟨view k', ?_, hrefl _⟩
      have hstep : env'.beside rely op s answer (view k') := ⟨view k, hrely, henv op k answer k' hanswer⟩
      have hnext := Advances.step op next answer _ s (view k') hadvances hstep
      rw [Function.update_self]
      simpa [own] using hnext
    · have hlast := hothers ⟨j, ⟨op, answer⟩, k, k'⟩ (List.mem_append_right _ (List.mem_singleton.mpr rfl)) hji
      refine ⟨s, ?_, htrans _ _ _ hrely hlast⟩
      rw [Function.update_of_ne (Ne.symm hji)]
      simpa [own, hji] using hadvances

/-- The operations of a program are turns of it. -/
theorem mem_own {i : ι} {exchange : Exchange Op Res ε} :
    exchange ∈ own i log ↔ ∃ turn ∈ log, turn.who = i ∧ turn.exchange = exchange := by
  simp [own, and_assoc]

/-- A program may take all its turns at once. -/
theorem performs {i : ι} {k k' : κ} {outcome : Except ε α} (h : Turns env programs first rest k log)
    (hperforms : Performs (env i) (rest i) k outcome k') :
    ∃ more, Turns env programs first (Function.update rest i (Prog.ofExcept outcome)) k' (log ++ more) ∧
      ∀ turn ∈ more, turn.who = i := by
  generalize hprogram : rest i = program at hperforms
  induction hperforms generalizing rest log with
  | ret value k =>
    refine ⟨[], ?_, by simp⟩
    rw [List.append_nil, Function.update_eq_self_iff.mpr]
    · exact h
    · exact hprogram.symm
  | raise error k =>
    refine ⟨[], ?_, by simp⟩
    rw [List.append_nil, Function.update_eq_self_iff.mpr]
    · exact h
    · exact hprogram.symm
  | call op next k k₁ k₂ answer outcome hanswer _ ih =>
    have hturn := Turns.turn rest k k₁ log i op next answer h hprogram hanswer
    obtain ⟨more, hmore, hwho⟩ := ih hturn (Function.update_self ..)
    refine ⟨⟨i, ⟨op, answer⟩, k, k₁⟩ :: more, ?_, ?_⟩
    · rw [Function.update_idem] at hmore
      rw [List.append_cons]
      exact hmore
    · intro turn hmem
      rcases List.mem_cons.mp hmem with rfl | hrest
      · rfl
      · exact hwho turn hrest

end Turns

/-- Answers that one state gives may be those that another gives. -/
theorem Traces.simulate {τ : Type} {env : Environment Op Res ε σ} {env' : Environment Op Res ε τ} {R : σ → τ → Prop}
    (hstep : ∀ op s answer s' t, R s t → env op s answer s' → ∃ t', env' op t answer t' ∧ R s' t')
    {program : Prog Op Res ε α} {s s' : σ} {trace : List (Exchange Op Res ε)} {outcome : Except ε α}
    (h : Traces env program s trace outcome s') {t : τ} (hR : R s t) :
    ∃ t', Traces env' program t trace outcome t' ∧ R s' t' := by
  induction h generalizing t with
  | ret value s => exact ⟨t, .ret value t, hR⟩
  | raise error s => exact ⟨t, .raise error t, hR⟩
  | call op next s s₁ s₂ answer trace outcome hanswer _ ih =>
    obtain ⟨t₁, hfirst, hR₁⟩ := hstep op s answer s₁ t hR hanswer
    obtain ⟨t₂, hrest, hR₂⟩ := ih hR₁
    exact ⟨t₂, .call op next t t₁ t₂ answer trace outcome hfirst hrest, hR₂⟩

end MeridianOci.Effect
