import MeridianOci.Effect.System

/-!
# The operations a program uses

A bound on which operations a program performs, and on which values it returns, whatever
the operations answer. Together with what an environment does on those operations it says
what the program can change.
-/
namespace MeridianOci.Effect

set_option autoImplicit false

variable {Op : Type} {Res : Op → Type} {ε α β σ : Type}

namespace Prog

/-- Every operation that may be performed satisfies `A`. -/
def Uses (A : Op → Prop) : Prog Op Res ε α → Prop
  | .ret _ => True
  | .raise _ => True
  | .call op next => A op ∧ ∀ answer, (next answer).Uses A

variable {A B : Op → Prop} {program : Prog Op Res ε α}

theorem uses_ret (value : α) : (Prog.ret value : Prog Op Res ε α).Uses A := trivial

theorem uses_raise (error : ε) : (Prog.raise error : Prog Op Res ε α).Uses A := trivial

theorem uses_ofExcept (outcome : Except ε α) : (ofExcept outcome : Prog Op Res ε α).Uses A := by
  cases outcome <;> trivial

theorem uses_anything (program : Prog Op Res ε α) : program.Uses fun _ => True := by
  induction program with
  | ret value => trivial
  | raise error => trivial
  | call op next ih => exact ⟨trivial, ih⟩

theorem Uses.mono (h : program.Uses A) (hAB : ∀ op, A op → B op) : program.Uses B := by
  induction program with
  | ret value => trivial
  | raise error => trivial
  | call op next ih => exact ⟨hAB op h.1, fun answer => ih answer (h.2 answer)⟩

theorem Uses.handle {next : Except ε α → Prog Op Res ε β} (h : program.Uses A)
    (hnext : ∀ outcome, (next outcome).Uses A) : (program.handle next).Uses A := by
  induction program with
  | ret value => exact hnext _
  | raise error => exact hnext _
  | call op rest ih => exact ⟨h.1, fun answer => ih answer (h.2 answer)⟩

theorem Uses.bind {next : α → Prog Op Res ε β} (h : program.Uses A)
    (hnext : ∀ value, (next value).Uses A) : (program >>= next).Uses A := by
  refine h.handle ?_
  rintro (error | value)
  · trivial
  · exact hnext value

theorem Uses.tryCatch {next : ε → Prog Op Res ε α} (h : program.Uses A)
    (hnext : ∀ error, (next error).Uses A) : (tryCatch program next).Uses A := by
  refine h.handle ?_
  rintro (error | value)
  · exact hnext error
  · trivial

theorem Uses.finally_ {cleanup : Prog Op Res ε Unit} (h : program.Uses A) (hclean : cleanup.Uses A) :
    (program.finally_ cleanup).Uses A :=
  h.handle fun outcome => hclean.bind fun _ => uses_ofExcept outcome

theorem uses_perform {op : Op} (h : A op) : (perform op : Prog Op Res ε (Res op)).Uses A :=
  ⟨h, fun answer => uses_ofExcept answer⟩

variable {env : Environment Op Res ε σ} {G : σ → σ → Prop}

/-- What the environment guarantees for those operations holds of every step. -/
theorem Uses.ensures (h : program.Uses A)
    (hG : ∀ op s answer s', A op → env op s answer s' → G s s') (s : σ) :
    program.Ensures env G s fun _ _ => True := by
  induction program generalizing s with
  | ret value => trivial
  | raise error => trivial
  | call op next ih => exact fun answer s' hanswer => ⟨hG op s answer s' h.1 hanswer, ih answer (h.2 answer) s'⟩

/-- A program whose operations change nothing changes nothing. -/
theorem Uses.unchanged (h : program.Uses A) (hrefl : ∀ s, G s s)
    (hA : ∀ op s answer s', A op → env op s answer s' → s' = s) (s : σ) :
    program.Ensures env G s fun _ s' => s' = s := by
  have hsteps : program.Ensures env Eq s fun _ _ => True :=
    h.ensures (fun op s answer s' hop hanswer => (hA op s answer s' hop hanswer).symm) s
  have hequal := hsteps.reach (fun _ => rfl) fun _ _ _ => Eq.trans
  exact hequal.weaken (fun _ _ _ _ h => h) (fun _ _ heq => heq ▸ hrefl _) fun _ _ hq => hq.2.symm

/-- A program without operations has its outcome in every environment. -/
theorem Uses.idle {κ : Type} {answer : (op : Op) → κ → Except ε (Res op) × κ} (h : program.Uses fun _ => False)
    (s : σ) (s' : κ) :
    program.Ensures env G s fun outcome s'' => s'' = s ∧ outcome = (program.run answer s').1 := by
  cases program with
  | ret value => exact ⟨rfl, rfl⟩
  | raise error => exact ⟨rfl, rfl⟩
  | call op next => exact h.1.elim

/-- Environments that agree on the operations of a program run it to the same end. -/
theorem Uses.run_congr {answer answer' : (op : Op) → σ → Except ε (Res op) × σ} (h : program.Uses A)
    (hanswer : ∀ op s, A op → answer op s = answer' op s) (s : σ) : program.run answer s = program.run answer' s := by
  induction program generalizing s with
  | ret value => rfl
  | raise error => rfl
  | call op next ih =>
    rw [run, run, hanswer op s h.1]
    exact ih _ (h.2 _) _

theorem Uses.idle_run {answer : (op : Op) → σ → Except ε (Res op) × σ} (h : program.Uses fun _ => False) (s : σ) :
    (program.run answer s).2 = s := by
  cases program with
  | ret value => rfl
  | raise error => rfl
  | call op next => exact h.1.elim

end Prog

/-- On operations with one answer, a run is the one that the answers determine. -/
theorem Performs.run_eq {env : Environment Op Res ε σ} {A : Op → Prop}
    {answer : (op : Op) → σ → Except ε (Res op) × σ} {program : Prog Op Res ε α}
    (hanswer : ∀ op s r s', A op → env op s r s' → answer op s = (r, s'))
    {s s' : σ} {outcome : Except ε α} (h : Performs env program s outcome s') (huses : program.Uses A) :
    program.run answer s = (outcome, s') := by
  induction h with
  | ret value s => rfl
  | raise error s => rfl
  | call op next s s' s'' r outcome hr _ ih =>
    rw [Prog.run, hanswer op s r s' huses.1 hr]
    exact ih (huses.2 r)

/-- In a state, the outcome of a program is the one the answers determine, which change nothing,
or an error where these are allowed. -/
def Prog.Truthful (env : Environment Op Res ε σ) (answer : (op : Op) → σ → Except ε (Res op) × σ)
    (faults : Prop) (program : Prog Op Res ε α) (s : σ) : Prop :=
  program.Ensures env (fun _ _ => True) s fun outcome s' => s' = s ∧
    (program.run answer s = (outcome, s) ∨ (faults ∧ ∃ error, outcome = .error error))

namespace Prog

variable {env : Environment Op Res ε σ} {answer : (op : Op) → σ → Except ε (Res op) × σ} {faults : Prop} {s : σ}

theorem truthful_ret (value : α) : (Prog.ret value : Prog Op Res ε α).Truthful env answer faults s :=
  ⟨rfl, .inl rfl⟩

theorem truthful_raise (error : ε) : (Prog.raise error : Prog Op Res ε α).Truthful env answer faults s :=
  ⟨rfl, .inl rfl⟩

theorem truthful_ofExcept (outcome : Except ε α) :
    (ofExcept outcome : Prog Op Res ε α).Truthful env answer faults s := by
  cases outcome <;> exact ⟨rfl, .inl rfl⟩

theorem Truthful.bind {program : Prog Op Res ε α} {next : α → Prog Op Res ε β}
    (h : program.Truthful env answer faults s) (hnext : ∀ value, (next value).Truthful env answer faults s) :
    (program >>= next).Truthful env answer faults s := by
  refine Ensures.bind h ?_ ?_
  · rintro value s' ⟨rfl, hrun | ⟨-, error, heq⟩⟩
    · refine (hnext value).mono fun outcome s'' hlast => ⟨hlast.1, hlast.2.imp_left fun hlast => ?_⟩
      rw [run_bind, hrun]
      exact hlast
    · cases heq
  · rintro error s' ⟨rfl, hrun | hfaults⟩
    · refine ⟨rfl, .inl ?_⟩
      rw [run_bind, hrun]
    · exact ⟨rfl, .inr ⟨hfaults.1, error, rfl⟩⟩

/-- Operations with one answer that changes nothing. -/
theorem Uses.truthful {A : Op → Prop} {program : Prog Op Res ε α} (h : program.Uses A)
    (hanswer : ∀ op s r s', A op → env op s r s' → s' = s ∧ answer op s = (r, s)) :
    program.Truthful env answer faults s := by
  induction program with
  | ret value => exact truthful_ret value
  | raise error => exact truthful_raise error
  | call op next ih =>
    intro r s' hr
    obtain ⟨rfl, heq⟩ := hanswer op s r s' h.1 hr
    refine ⟨trivial, (ih r (h.2 r)).mono fun outcome s'' hlast => ⟨hlast.1, hlast.2.imp_left fun hlast => ?_⟩⟩
    rw [run, heq]
    exact hlast

end Prog

/-- If every operation has an answer in every state, a program can be performed. -/
theorem exists_performs {env : Environment Op Res ε σ} {A : Op → Prop} {program : Prog Op Res ε α}
    (hanswer : ∀ op s, A op → ∃ r s', env op s r s') (huses : program.Uses A) (s : σ) :
    ∃ outcome s', Performs env program s outcome s' := by
  induction program generalizing s with
  | ret value => exact ⟨_, _, .ret value s⟩
  | raise error => exact ⟨_, _, .raise error s⟩
  | call op next ih =>
    obtain ⟨r, s', hr⟩ := hanswer op s huses.1
    obtain ⟨outcome, s'', hrest⟩ := ih r (huses.2 r) s'
    exact ⟨outcome, s'', .call op next s s' s'' r outcome hr hrest⟩

/-! ## Returned values -/

namespace Prog

/-- Every value that may be returned satisfies `R`. -/
def Returns (R : α → Prop) : Prog Op Res ε α → Prop
  | .ret value => R value
  | .raise _ => True
  | .call _ next => ∀ answer, (next answer).Returns R

variable {R S : α → Prop} {program : Prog Op Res ε α}

theorem returns_raise (error : ε) : (Prog.raise error : Prog Op Res ε α).Returns R := trivial

theorem returns_ofExcept {outcome : Except ε α} (h : ∀ value, outcome = .ok value → R value) :
    (ofExcept outcome : Prog Op Res ε α).Returns R := by
  cases outcome with
  | ok value => exact h value rfl
  | error error => trivial

theorem returns_trivial (program : Prog Op Res ε α) : program.Returns fun _ => True := by
  induction program with
  | ret value => trivial
  | raise error => trivial
  | call op next ih => exact ih

theorem Returns.mono (h : program.Returns R) (hRS : ∀ value, R value → S value) : program.Returns S := by
  induction program with
  | ret value => exact hRS value h
  | raise error => trivial
  | call op next ih => exact fun answer => ih answer (h answer)

theorem Returns.handle {T : β → Prop} {next : Except ε α → Prog Op Res ε β} (h : program.Returns R)
    (hok : ∀ value, R value → (next (.ok value)).Returns T) (herror : ∀ error, (next (.error error)).Returns T) :
    (program.handle next).Returns T := by
  induction program with
  | ret value => exact hok value h
  | raise error => exact herror error
  | call op rest ih => exact fun answer => ih answer (h answer)

theorem Returns.bind {T : β → Prop} {next : α → Prog Op Res ε β} (h : program.Returns R)
    (hnext : ∀ value, R value → (next value).Returns T) : (program >>= next).Returns T :=
  h.handle hnext fun _ => trivial

/-- The last program of a sequence decides what is returned. -/
theorem returns_bind {T : β → Prop} {next : α → Prog Op Res ε β} (hnext : ∀ value, (next value).Returns T) :
    (program >>= next).Returns T :=
  (returns_trivial program).bind fun value _ => hnext value

theorem Returns.tryCatch {next : ε → Prog Op Res ε α} (h : program.Returns R)
    (hnext : ∀ error, (next error).Returns R) : (tryCatch program next).Returns R :=
  h.handle (fun _ hvalue => hvalue) hnext

theorem Returns.finally_ {cleanup : Prog Op Res ε Unit} (h : program.Returns R) :
    (program.finally_ cleanup).Returns R := by
  refine h.handle (fun value hvalue => ?_) fun error => ?_
  · exact (returns_trivial cleanup).bind fun _ _ => hvalue
  · exact (returns_trivial cleanup).bind fun _ _ => trivial

theorem Returns.run {answer : (op : Op) → σ → Except ε (Res op) × σ} (h : program.Returns R) {s : σ} {value : α}
    (hrun : (program.run answer s).1 = .ok value) : R value := by
  induction program generalizing s with
  | ret result =>
    rw [← Except.ok.inj hrun]
    exact h
  | raise error => cases hrun
  | call op next ih => exact ih _ (h _) hrun

/-- The operations of a sequence, with what is known of the value in between. -/
theorem Uses.bind_returns {A : Op → Prop} {next : α → Prog Op Res ε β} (h : program.Uses A) (hreturns : program.Returns R)
    (hnext : ∀ value, R value → (next value).Uses A) : (program >>= next).Uses A := by
  induction program with
  | ret value => exact hnext value hreturns
  | raise error => trivial
  | call op rest ih => exact ⟨h.1, fun answer => ih answer (h.2 answer) (hreturns answer)⟩

variable {env : Environment Op Res ε σ} {G : σ → σ → Prop} {s : σ} {Q : Except ε α → σ → Prop}

/-- What is returned, beside what is known of the state. -/
theorem Returns.and_ensures (hreturns : program.Returns R) (h : program.Ensures env G s Q) :
    program.Ensures env G s fun outcome s' => Q outcome s' ∧ ∀ value, outcome = .ok value → R value := by
  induction program generalizing s with
  | ret value =>
    refine ⟨h, fun other heq => ?_⟩
    rw [← Except.ok.inj heq]
    exact hreturns
  | raise error => exact ⟨h, fun other heq => by cases heq⟩
  | call op next ih => exact fun answer s' hanswer => ⟨(h answer s' hanswer).1, ih answer (hreturns answer) (h answer s' hanswer).2⟩

end Prog

end MeridianOci.Effect
