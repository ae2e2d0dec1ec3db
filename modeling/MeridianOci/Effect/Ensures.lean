import MeridianOci.Effect.Prog

/-!
# Step guarantees and postconditions of programs

An environment is a relation between an operation, the state before, the answer
and the state after. `Ensures` bounds a program in such an environment twice:
every single state change is allowed by a guarantee, and every outcome satisfies
a postcondition. Facts about the states between two operations come from the
guarantee, facts about results from the postcondition.
-/
namespace MeridianOci.Effect

set_option autoImplicit false

/-- `env op s r s'`: in state `s` the operation may be answered with `r`, leaving `s'`. -/
abbrev Environment (Op : Type) (Res : Op → Type) (ε σ : Type) :=
  (op : Op) → σ → Except ε (Res op) → σ → Prop

/-- The environment in which every operation has exactly one answer. -/
def Environment.ofFunction {Op : Type} {Res : Op → Type} {ε σ : Type}
    (answer : (op : Op) → σ → Except ε (Res op) × σ) : Environment Op Res ε σ :=
  fun op s r s' => answer op s = (r, s')

namespace Prog

variable {Op : Type} {Res : Op → Type} {ε α β σ : Type}
variable {env env' : Environment Op Res ε σ} {G G' : σ → σ → Prop}

def Ensures (env : Environment Op Res ε σ) (G : σ → σ → Prop) :
    Prog Op Res ε α → σ → (Except ε α → σ → Prop) → Prop
  | .ret value, s, Q => Q (.ok value) s
  | .raise error, s, Q => Q (.error error) s
  | .call op next, s, Q => ∀ r s', env op s r s' → G s s' ∧ Ensures env G (next r) s' Q

/-- A postcondition of two exits: for what is raised and for what is returned. -/
def Exits (raised : ε → σ → Prop) (returned : α → σ → Prop) : Except ε α → σ → Prop
  | .error error => raised error
  | .ok value => returned value

variable {program : Prog Op Res ε α} {s : σ} {Q Q' R : Except ε α → σ → Prop}

@[simp] theorem ensures_ret {value : α} : Ensures env G (.ret value) s Q ↔ Q (.ok value) s := Iff.rfl

@[simp] theorem ensures_raise {error : ε} :
    Ensures env G (.raise error : Prog Op Res ε α) s Q ↔ Q (.error error) s := Iff.rfl

@[simp] theorem ensures_ofExcept {outcome : Except ε α} :
    Ensures env G (ofExcept outcome) s Q ↔ Q outcome s := by
  cases outcome <;> rfl

/-- A smaller environment, a weaker guarantee and a weaker postcondition. -/
theorem Ensures.weaken (h : Ensures env G program s Q)
    (henv : ∀ op s r s', env' op s r s' → env op s r s')
    (hG : ∀ s s', G s s' → G' s s') (hQ : ∀ r s, Q r s → Q' r s) :
    Ensures env' G' program s Q' := by
  induction program generalizing s with
  | ret value => exact hQ _ _ h
  | raise error => exact hQ _ _ h
  | call op next ih =>
    intro r s' hr
    obtain ⟨hg, hnext⟩ := h r s' (henv _ _ _ _ hr)
    exact ⟨hG _ _ hg, ih r hnext⟩

theorem Ensures.mono (h : Ensures env G program s Q) (hQ : ∀ r s, Q r s → Q' r s) :
    Ensures env G program s Q' :=
  h.weaken (fun _ _ _ _ h => h) (fun _ _ h => h) hQ

theorem Ensures.and (h : Ensures env G program s Q) (h' : Ensures env G' program s Q') :
    Ensures env (fun s s' => G s s' ∧ G' s s') program s (fun r s => Q r s ∧ Q' r s) := by
  induction program generalizing s with
  | ret value => exact ⟨h, h'⟩
  | raise error => exact ⟨h, h'⟩
  | call op next ih =>
    intro r s' hr
    exact ⟨⟨(h r s' hr).1, (h' r s' hr).1⟩, ih r (h r s' hr).2 (h' r s' hr).2⟩

theorem ensures_handle {next : Except ε α → Prog Op Res ε β} {Q : Except ε β → σ → Prop} :
    Ensures env G (program.handle next) s Q ↔
      Ensures env G program s (fun r s' => Ensures env G (next r) s' Q) := by
  induction program generalizing s with
  | ret value => exact Iff.rfl
  | raise error => exact Iff.rfl
  | call op rest ih =>
    constructor
    · intro h r s' hr
      exact ⟨(h r s' hr).1, (ih r).mp (h r s' hr).2⟩
    · intro h r s' hr
      exact ⟨(h r s' hr).1, (ih r).mpr (h r s' hr).2⟩

theorem Ensures.handle {next : Except ε α → Prog Op Res ε β} {Q : Except ε β → σ → Prop}
    (h : Ensures env G program s R) (hnext : ∀ r s', R r s' → Ensures env G (next r) s' Q) :
    Ensures env G (program.handle next) s Q :=
  ensures_handle.mpr (h.mono hnext)

/-- The sequencing rule: the second program starts where the first one returned. -/
theorem Ensures.bind {next : α → Prog Op Res ε β} {Q : Except ε β → σ → Prop}
    (h : Ensures env G program s R)
    (hok : ∀ value s', R (.ok value) s' → Ensures env G (next value) s' Q)
    (herror : ∀ error s', R (.error error) s' → Q (.error error) s') :
    Ensures env G (program >>= next) s Q := by
  refine h.handle ?_
  rintro (error | value) s' hr
  · exact herror error s' hr
  · exact hok value s' hr

theorem Ensures.finally_ {cleanup : Prog Op Res ε Unit} (h : Ensures env G program s R)
    (hclean : ∀ r s', R r s' → Ensures env G cleanup s' (fun c s'' =>
      match c with
      | .ok _ => Q r s''
      | .error error => Q (.error error) s'')) :
    Ensures env G (program.finally_ cleanup) s Q := by
  refine h.handle fun r s' hr => ensures_handle.mpr ((hclean r s' hr).mono ?_)
  rintro (error | ⟨⟩) s'' hc
  · exact hc
  · exact ensures_ofExcept.mpr hc

theorem Ensures.perform {op : Op} {Q : Except ε (Res op) → σ → Prop}
    (h : ∀ r s', env op s r s' → G s s' ∧ Q r s') : Ensures env G (perform op) s Q := by
  intro r s' hr
  exact ⟨(h r s' hr).1, ensures_ofExcept.mpr (h r s' hr).2⟩

/-- In a deterministic environment the postcondition holds of the run. -/
theorem Ensures.run {answer : (op : Op) → σ → Except ε (Res op) × σ}
    (h : Ensures (Environment.ofFunction answer) G program s Q) :
    Q (program.run answer s).1 (program.run answer s).2 := by
  induction program generalizing s with
  | ret value => exact h
  | raise error => exact h
  | call op next ih => exact ih _ (h _ _ rfl).2

/-- What a guarantee that relates every state to the first one says about the end. -/
theorem Ensures.reach (hrefl : ∀ s, G s s) (htrans : ∀ a b c, G a b → G b c → G a c)
    (h : Ensures env G program s Q) :
    Ensures env G program s (fun r s' => Q r s' ∧ G s s') := by
  suffices hgen : ∀ s₀, G s₀ s → Ensures env G program s (fun r s' => Q r s' ∧ G s₀ s') from
    hgen s (hrefl s)
  intro s₀ h₀
  induction program generalizing s with
  | ret value => exact ⟨h, h₀⟩
  | raise error => exact ⟨h, h₀⟩
  | call op next ih =>
    intro r s' hr
    obtain ⟨hg, hnext⟩ := h r s' hr
    exact ⟨hg, ih r hnext (htrans _ _ _ h₀ hg)⟩

/-- A one-state invariant of every step, from a guarantee that preserves it. -/
theorem Ensures.invariant {I : σ → Prop} (hI : ∀ s s', I s → G s s' → I s')
    (h : Ensures env G program s Q) (hs : I s) :
    Ensures env (fun s s' => G s s' ∧ I s ∧ I s') program s (fun r s' => Q r s' ∧ I s') := by
  induction program generalizing s with
  | ret value => exact ⟨h, hs⟩
  | raise error => exact ⟨h, hs⟩
  | call op next ih =>
    intro r s' hr
    obtain ⟨hg, hnext⟩ := h r s' hr
    have hs' := hI _ _ hs hg
    exact ⟨⟨hg, hs, hs'⟩, ih r hnext hs'⟩

end Prog

end MeridianOci.Effect
