import MeridianOci.Effect.Uses

/-!
# Two runs of one program

A program that is run twice, in environments of their own and from states that are
related. The runs coincide if, whenever both return, they return the same value in
related states.
-/
namespace MeridianOci.Effect

set_option autoImplicit false

variable {Op : Type} {Res : Op → Type} {ε α β σ κ : Type}

/-- A sequence that returns is a return after a return. -/
theorem Performs.of_bind {env : Environment Op Res ε σ} {program : Prog Op Res ε α} {next : α → Prog Op Res ε β}
    {s s' : σ} {last : β} (h : Performs env (program >>= next) s (.ok last) s') :
    ∃ value s₁, Performs env program s (.ok value) s₁ ∧ Performs env (next value) s₁ (.ok last) s' := by
  obtain ⟨outcome, s₁, hfirst, hrest⟩ := h.of_handle
  cases outcome with
  | error error => cases hrest
  | ok value => exact ⟨value, s₁, hfirst, hrest⟩

/-- What a sequence ensures is ensured by the rest of it once the first program has returned. -/
theorem Performs.then_ensures {env : Environment Op Res ε σ} {G : σ → σ → Prop} {program : Prog Op Res ε α}
    {next : α → Prog Op Res ε β} {Q : Except ε β → σ → Prop} {s s' : σ} {value : α}
    (hfirst : Performs env program s (.ok value) s') (h : (program >>= next).Ensures env G s Q) :
    (next value).Ensures env G s' Q := by
  have hhandled : program.Ensures env G s fun outcome s' => (Prog.onOk next outcome).Ensures env G s' Q :=
    Prog.ensures_handle.mp h
  exact hfirst.ensures hhandled

/-- A returned value is one that the program may return. -/
theorem Performs.returns {env : Environment Op Res ε σ} {program : Prog Op Res ε α} {Q : α → Prop} {s s' : σ}
    {value : α} (h : Performs env program s (.ok value) s') (hreturns : program.Returns Q) : Q value := by
  have hensures : program.Ensures env (fun _ _ => True) s fun _ _ => True :=
    Prog.ensures_of_performs fun _ _ _ => trivial
  exact (h.ensures (hreturns.and_ensures hensures)).2 value rfl

section Returning

variable {env : Environment Op Res ε σ} {program : Prog Op Res ε α} {s s' : σ} {value : α}

/-- A cleanup that is over has changed no value. -/
theorem Performs.of_finally {cleanup : Prog Op Res ε Unit}
    (h : Performs env (program.finally_ cleanup) s (.ok value) s') :
    ∃ s₁, Performs env program s (.ok value) s₁ ∧ Performs env cleanup s₁ (.ok ()) s' := by
  obtain ⟨outcome, s₁, hfirst, hrest⟩ := h.of_handle
  obtain ⟨_, s₂, hcleanup, hlast⟩ := Performs.of_bind hrest
  cases outcome with
  | error error => cases hlast
  | ok first =>
    cases hlast
    exact ⟨s₁, hfirst, hcleanup⟩

/-- What returns was not caught, if the handler only raises. -/
theorem Performs.of_tryCatch {next : ε → Prog Op Res ε α} (h : Performs env (tryCatch program next) s (.ok value) s')
    (hraises : ∀ error, (next error).Returns fun _ => False) : Performs env program s (.ok value) s' := by
  obtain ⟨outcome, s₁, hfirst, hrest⟩ := h.of_handle
  cases outcome with
  | error error => exact (Performs.returns hrest (hraises error)).elim
  | ok first =>
    cases hrest
    exact hfirst

end Returning

namespace Prog

/-- Whenever runs from related states return, they return the same value in related states. -/
def Coincides (env : Environment Op Res ε σ) (env' : Environment Op Res ε κ) (R : σ → κ → Prop)
    (program : Prog Op Res ε α) : Prop :=
  ∀ s t value s' other t', R s t → Performs env program s (.ok value) s' → Performs env' program t (.ok other) t' →
    other = value ∧ R s' t'

variable {env : Environment Op Res ε σ} {env' : Environment Op Res ε κ} {R : σ → κ → Prop}

theorem coincides_ret (value : α) : (Prog.ret value : Prog Op Res ε α).Coincides env env' R := by
  intro s t first s' other t' hR h h'
  cases h
  cases h'
  exact ⟨rfl, hR⟩

theorem coincides_raise (error : ε) : (Prog.raise error : Prog Op Res ε α).Coincides env env' R := by
  intro s t first s' other t' hR h
  cases h

theorem coincides_ofExcept (outcome : Except ε α) : (ofExcept outcome : Prog Op Res ε α).Coincides env env' R := by
  cases outcome with
  | error error => exact coincides_raise error
  | ok value => exact coincides_ret value

theorem Coincides.bind {program : Prog Op Res ε α} {next : α → Prog Op Res ε β}
    (h : program.Coincides env env' R) (hnext : ∀ value, (next value).Coincides env env' R) :
    (program >>= next).Coincides env env' R := by
  intro s t last s' other t' hR hrun hrun'
  obtain ⟨value, s₁, hfirst, hrest⟩ := hrun.of_bind
  obtain ⟨value', t₁, hfirst', hrest'⟩ := hrun'.of_bind
  obtain ⟨rfl, hR₁⟩ := h s t value s₁ value' t₁ hR hfirst hfirst'
  exact hnext value' s₁ t₁ last s' other t' hR₁ hrest hrest'

/-- Operations that are answered alike in related states, which stay related. -/
theorem Uses.coincides {A : Op → Prop} {program : Prog Op Res ε α} (h : program.Uses A)
    (hanswer : ∀ op s t r s' r' t', A op → R s t → env op s r s' → env' op t r' t' → r' = r ∧ R s' t') :
    program.Coincides env env' R := by
  induction program with
  | ret value => exact coincides_ret value
  | raise error => exact coincides_raise error
  | call op next ih =>
    intro s t value s' other t' hR hrun hrun'
    cases hrun with
    | call _ _ _ s₁ _ r _ hr hrest =>
      cases hrun' with
      | call _ _ _ t₁ _ r' _ hr' hrest' =>
        obtain ⟨rfl, hR₁⟩ := hanswer op s t r s₁ r' t₁ h.1 hR hr hr'
        exact ih r' (h.2 r') s₁ t₁ value s' other t' hR₁ hrest hrest'

end Prog

end MeridianOci.Effect
