import MeridianOci.Effect.Turns
import MeridianOci.Effect.Uses

/-!
# Programs that assume something of the answers

What a program does if its answers are as assumed, by its text alone. Where an environment
answers as assumed as long as an invariant holds, and the operations keep the invariant, it is
what the program does there, among any others that do the same.
-/
namespace MeridianOci.Effect

set_option autoImplicit false

variable {Op : Type} {Res : Op → Type} {ε α β ι κ : Type}

namespace Prog

/-- As long as the answers are as assumed, every operation is as stated, and so is the value. -/
def Assuming (T : (op : Op) → Except ε (Res op) → Prop) (A : Op → Prop) (R : α → Prop) : Prog Op Res ε α → Prop
  | .ret value => R value
  | .raise _ => True
  | .call op next => A op ∧ ∀ answer, T op answer → (next answer).Assuming T A R

variable {T : (op : Op) → Except ε (Res op) → Prop} {A : Op → Prop} {R : α → Prop} {S : β → Prop}
variable {program : Prog Op Res ε α}

theorem Uses.assuming (h : program.Uses A) (hreturns : program.Returns R) : program.Assuming T A R := by
  induction program with
  | ret value => exact hreturns
  | raise error => trivial
  | call op next ih => exact ⟨h.1, fun answer _ => ih answer (h.2 answer) (hreturns answer)⟩

namespace Assuming

theorem handle {next : Except ε α → Prog Op Res ε β} (h : program.Assuming T A R)
    (hok : ∀ value, R value → (next (.ok value)).Assuming T A S) (herror : ∀ error, (next (.error error)).Assuming T A S) :
    (program.handle next).Assuming T A S := by
  induction program with
  | ret value => exact hok value h
  | raise error => exact herror error
  | call op rest ih => exact ⟨h.1, fun answer hanswer => ih answer (h.2 answer hanswer)⟩

theorem bind {next : α → Prog Op Res ε β} (h : program.Assuming T A R)
    (hnext : ∀ value, R value → (next value).Assuming T A S) : (program >>= next).Assuming T A S :=
  h.handle hnext fun _ => trivial

theorem tryCatch {next : ε → Prog Op Res ε α} (h : program.Assuming T A R)
    (hnext : ∀ error, (next error).Assuming T A R) : (MonadExceptOf.tryCatch program next).Assuming T A R :=
  h.handle (fun _ hvalue => hvalue) hnext

theorem finally_ {cleanup : Prog Op Res ε Unit} {S : Unit → Prop} (h : program.Assuming T A R)
    (hclean : cleanup.Assuming T A S) : (program.finally_ cleanup).Assuming T A R :=
  h.handle (fun _ hvalue => hclean.bind fun _ _ => hvalue) fun _ => hclean.bind fun _ _ => trivial

end Assuming

end Prog

/-- Programs that take turns do what each of them does by itself. -/
theorem Turns.assuming [DecidableEq ι] {env : Environment Op Res ε κ} {programs rest : ι → Prog Op Res ε α} {first last : κ}
    {log : List (Occurrence ι Op Res ε κ)} {T : (op : Op) → Except ε (Res op) → Prop} {A : Op → Prop} {R : α → Prop}
    {I : κ → Prop} (h : Turns (fun _ => env) programs first rest last log) (hfirst : I first)
    (hstep : ∀ op k answer k', A op → I k → env op k answer k' → T op answer ∧ I k')
    (hprograms : ∀ i, (programs i).Assuming T A R) : I last ∧ ∀ turn ∈ log, A turn.exchange.1 := by
  suffices hgen : I last ∧ (∀ i, (rest i).Assuming T A R) ∧ ∀ turn ∈ log, A turn.exchange.1 from ⟨hgen.1, hgen.2.2⟩
  induction h with
  | start => exact ⟨hfirst, hprograms, by simp⟩
  | turn rest k k' log i op next answer _ hrest hanswer ih =>
    obtain ⟨hk, hassuming, hlog⟩ := ih
    have hcall := hassuming i
    rw [hrest] at hcall
    obtain ⟨hassumed, hk'⟩ := hstep op k answer k' hcall.1 hk hanswer
    refine ⟨hk', fun j => ?_, fun turn hmem => ?_⟩
    · by_cases hji : j = i
      · subst hji
        rw [Function.update_self]
        exact hcall.2 answer hassumed
      · rw [Function.update_of_ne hji]
        exact hassuming j
    · rcases List.mem_append.mp hmem with hmem | hmem
      · exact hlog turn hmem
      · rw [List.mem_singleton.mp hmem]
        exact hcall.1

end MeridianOci.Effect
