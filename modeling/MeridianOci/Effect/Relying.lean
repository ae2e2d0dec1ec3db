import MeridianOci.Effect.Turns

/-!
# Programs that rely on an invariant

Programs that take turns on one state and all keep an invariant of it. Each is looked at by
itself, in an environment where any state that satisfies the invariant may come before any of
its operations, and from that follows what they do together. An event that destroys what it
needs, and that nothing brings back, happens at most once.
-/
namespace MeridianOci.Effect

set_option autoImplicit false

variable {Op : Type} {Res : Op → Type} {ε α β ι κ : Type}

/-- One of the programs, whose operations meet any state that satisfies the invariant. Its turns are kept. -/
def Environment.relying (env : Environment Op Res ε κ) (who : ι) (I : κ → Prop) :
    Environment Op Res ε (List (Occurrence ι Op Res ε κ) × κ) :=
  fun op s answer s' => ∃ k, I k ∧ env op k answer s'.2 ∧ s'.1 = s.1 ++ [⟨who, ⟨op, answer⟩, k, s'.2⟩]

namespace Prog

/-- Relying on an invariant a program keeps it, and its turns until it ends are as stated. -/
def Relies (env : Environment Op Res ε κ) (who : ι) (I : κ → Prop) (program : Prog Op Res ε α)
    (Q : Except ε α → List (Occurrence ι Op Res ε κ) → Prop) : Prop :=
  ∀ done k, program.Ensures (env.relying who I) (fun _ s' => I s'.2) (done, k)
    fun outcome s' => ∃ more, s'.1 = done ++ more ∧ Q outcome more

variable {env : Environment Op Res ε κ} {who : ι} {I : κ → Prop}
variable {program : Prog Op Res ε α} {Q Q' : Except ε α → List (Occurrence ι Op Res ε κ) → Prop}

theorem relies_ofExcept {outcome : Except ε α} (h : Q outcome []) : (ofExcept outcome).Relies env who I Q := by
  intro done k
  rw [ensures_ofExcept]
  exact ⟨[], by rw [List.append_nil], h⟩

theorem relies_ret {value : α} (h : Q (.ok value) []) : (Prog.ret value).Relies env who I Q := by
  have hend : (ofExcept (.ok value)).Relies env who I Q := relies_ofExcept h
  exact hend

theorem relies_raise {error : ε} (h : Q (.error error) []) : (Prog.raise error).Relies env who I Q := by
  have hend : (ofExcept (.error error)).Relies env who I Q := relies_ofExcept h
  exact hend

theorem relies_call {op : Op} {next : Except ε (Res op) → Prog Op Res ε α}
    (h : ∀ k answer k', I k → env op k answer k' → I k' ∧
      (next answer).Relies env who I fun outcome back => Q outcome (⟨who, ⟨op, answer⟩, k, k'⟩ :: back)) :
    (Prog.call op next).Relies env who I Q := by
  intro done k answer s' hanswer
  obtain ⟨done', k'⟩ := s'
  obtain ⟨k₁, hk₁, hstep, hdone⟩ := hanswer
  dsimp only at hdone
  subst hdone
  obtain ⟨hk', hrest⟩ := h k₁ answer k' hk₁ hstep
  refine ⟨hk', (hrest _ k').mono ?_⟩
  rintro outcome s'' ⟨back, hback, hq⟩
  exact ⟨⟨who, ⟨op, answer⟩, k₁, k'⟩ :: back, by rw [hback, List.append_assoc]; rfl, hq⟩

namespace Relies

theorem mono (h : program.Relies env who I Q) (hQ : ∀ outcome done, Q outcome done → Q' outcome done) :
    program.Relies env who I Q' := by
  intro done k
  refine (h done k).mono ?_
  rintro outcome s' ⟨more, hmore, hq⟩
  exact ⟨more, hmore, hQ outcome more hq⟩

theorem handle {R : Except ε α → List (Occurrence ι Op Res ε κ) → Prop} {next : Except ε α → Prog Op Res ε β}
    {Q : Except ε β → List (Occurrence ι Op Res ε κ) → Prop} (h : program.Relies env who I R)
    (hnext : ∀ outcome front, R outcome front →
      (next outcome).Relies env who I fun last back => Q last (front ++ back)) :
    (program.handle next).Relies env who I Q := by
  intro done k
  refine (h done k).handle ?_
  rintro outcome ⟨done', k'⟩ ⟨front, hfront, hr⟩
  dsimp only at hfront
  subst hfront
  refine (hnext outcome front hr _ k').mono ?_
  rintro last s' ⟨back, hback, hq⟩
  exact ⟨front ++ back, by rw [hback, List.append_assoc], hq⟩

theorem bind {R : Except ε α → List (Occurrence ι Op Res ε κ) → Prop} {next : α → Prog Op Res ε β}
    {Q : Except ε β → List (Occurrence ι Op Res ε κ) → Prop} (h : program.Relies env who I R)
    (hok : ∀ value front, R (.ok value) front →
      (next value).Relies env who I fun last back => Q last (front ++ back))
    (herror : ∀ error front, R (.error error) front → Q (.error error) front) :
    (program >>= next).Relies env who I Q := by
  refine h.handle fun outcome front hr => ?_
  cases outcome with
  | ok value => exact hok value front hr
  | error error => exact relies_raise (by rw [List.append_nil]; exact herror error front hr)

theorem and_returns {R : α → Prop} (h : program.Relies env who I Q) (hreturns : program.Returns R) :
    program.Relies env who I fun outcome done => Q outcome done ∧ ∀ value, outcome = .ok value → R value := by
  intro done k
  refine (hreturns.and_ensures (h done k)).mono ?_
  rintro outcome s' ⟨⟨more, hmore, hq⟩, hr⟩
  exact ⟨more, hmore, hq, hr⟩

end Relies

/-- Relying on an invariant a program keeps it, and it returns a value only after a turn of a kind. -/
def Earns (env : Environment Op Res ε κ) (who : ι) (I : κ → Prop) (program : Prog Op Res ε α)
    (E : α → Occurrence ι Op Res ε κ → Prop) : Prop :=
  program.Relies env who I fun outcome done => ∀ value, outcome = .ok value → ∃ turn ∈ done, E value turn

section Earns

variable {E : α → Occurrence ι Op Res ε κ → Prop}

theorem earns_raise (error : ε) : (Prog.raise error).Earns env who I E :=
  relies_raise fun _ heq => by cases heq

theorem earns_after {R : Except ε α → List (Occurrence ι Op Res ε κ) → Prop} {next : α → Prog Op Res ε β}
    {E : β → Occurrence ι Op Res ε κ → Prop} (h : program.Relies env who I R)
    (hnext : ∀ value front, R (.ok value) front → (next value).Earns env who I E) :
    (program >>= next).Earns env who I E := by
  refine h.bind (fun value front hr => (hnext value front hr).mono ?_) fun error front _ value heq => by cases heq
  intro outcome back hback value heq
  obtain ⟨turn, hturn, hkind⟩ := hback value heq
  exact ⟨turn, List.mem_append_right _ hturn, hkind⟩

namespace Earns

theorem bind {next : α → Prog Op Res ε β} {E' : β → Occurrence ι Op Res ε κ → Prop}
    (h : program.Earns env who I E) (hnext : ∀ value, (next value).Relies env who I fun _ _ => True)
    (hreturns : ∀ value, (next value).Returns fun last => ∀ turn, E value turn → E' last turn) :
    (program >>= next).Earns env who I E' := by
  refine Relies.bind h (fun value front hr => ((hnext value).and_returns (hreturns value)).mono ?_)
    fun error front _ value heq => by cases heq
  rintro outcome back ⟨-, hlast⟩ last heq
  obtain ⟨turn, hturn, hkind⟩ := hr value rfl
  exact ⟨turn, List.mem_append_left _ hturn, hlast last heq turn hkind⟩

/-- An exception that is raised again earns nothing. -/
theorem tryCatch {next : ε → Prog Op Res ε α} (h : program.Earns env who I E)
    (hnext : ∀ error, (next error).Relies env who I fun _ _ => True)
    (hnever : ∀ error, (next error).Returns fun _ => False) :
    (MonadExceptOf.tryCatch program next).Earns env who I E := by
  refine h.handle fun outcome front hr => ?_
  cases outcome with
  | ok value =>
    refine relies_ret ?_
    rw [List.append_nil]
    exact hr
  | error error =>
    refine ((hnext error).and_returns (hnever error)).mono ?_
    rintro outcome back ⟨-, hlast⟩ value heq
    exact (hlast value heq).elim

theorem finally_ {cleanup : Prog Op Res ε Unit} (h : program.Earns env who I E)
    (hclean : cleanup.Relies env who I fun _ _ => True) : (program.finally_ cleanup).Earns env who I E := by
  refine h.handle fun outcome front hr => hclean.handle fun cleaned middle _ => ?_
  cases cleaned with
  | error error => exact relies_raise fun _ heq => by cases heq
  | ok _ =>
    refine relies_ofExcept fun value heq => ?_
    obtain ⟨turn, hturn, hkind⟩ := hr value heq
    exact ⟨turn, List.mem_append_left _ hturn, hkind⟩

end Earns

end Earns

/-- Operations that keep the invariant by themselves. -/
theorem Uses.relies {A : Op → Prop} (h : program.Uses A)
    (hkeeps : ∀ op k answer k', A op → I k → env op k answer k' → I k') :
    program.Relies env who I fun _ _ => True := by
  induction program with
  | ret value => exact relies_ret trivial
  | raise error => exact relies_raise trivial
  | call op next ih =>
    exact relies_call fun k answer k' hk hstep => ⟨hkeeps op k answer k' h.1 hk hstep, ih answer (h.2 answer)⟩

/-- What was met last does not matter. -/
theorem ensures_relying {Q : Except ε α → List (Occurrence ι Op Res ε κ) → Prop}
    {done : List (Occurrence ι Op Res ε κ)} {k : κ}
    (h : program.Ensures (env.relying who I) (fun _ s' => I s'.2) (done, k) fun outcome s' => Q outcome s'.1) (k' : κ) :
    program.Ensures (env.relying who I) (fun _ s' => I s'.2) (done, k') fun outcome s' => Q outcome s'.1 := by
  cases program with
  | ret value => exact h
  | raise error => exact h
  | call op next => exact fun answer s' hanswer => h answer s' hanswer

end Prog

namespace Turns

variable [DecidableEq ι] {env : ι → Environment Op Res ε κ} {programs rest : ι → Prog Op Res ε α} {first last : κ}
variable {log : List (Occurrence ι Op Res ε κ)} {I : κ → Prop}

/-- Programs that rely on an invariant keep it together, and each has done what it does by itself. -/
theorem relies {Q : ι → Except ε α → List (Occurrence ι Op Res ε κ) → Prop}
    (h : Turns env programs first rest last log) (hfirst : I first)
    (hprograms : ∀ i, (programs i).Relies (env i) i I (Q i)) :
    ∀ i outcome, rest i = Prog.ofExcept outcome → Q i outcome (log.filter fun turn => turn.who = i) := by
  suffices hgen : I last ∧ ∀ i k, (rest i).Ensures ((env i).relying i I) (fun _ s' => I s'.2)
      (log.filter (fun turn => turn.who = i), k) fun outcome s' => Q i outcome s'.1 by
    intro i outcome hend
    have hlast := hgen.2 i last
    rw [hend, Prog.ensures_ofExcept] at hlast
    exact hlast
  induction h with
  | start =>
    refine ⟨hfirst, fun i k => (hprograms i [] k).mono ?_⟩
    rintro outcome s' ⟨more, hmore, hq⟩
    rw [hmore]
    exact hq
  | turn rest k k' log i op next answer _ hrest hanswer ih =>
    obtain ⟨hk, ih⟩ := ih
    have hcall := ih i k
    rw [hrest] at hcall
    obtain ⟨hk', hnext⟩ := hcall answer (log.filter (fun turn => turn.who = i) ++ [⟨i, ⟨op, answer⟩, k, k'⟩], k')
      ⟨k, hk, hanswer, rfl⟩
    refine ⟨hk', fun j k₁ => ?_⟩
    rw [List.filter_append]
    by_cases hji : j = i
    · subst hji
      rw [Function.update_self, List.filter_cons_of_pos (by simp), List.filter_nil]
      exact Prog.ensures_relying hnext k₁
    · rw [Function.update_of_ne hji, List.filter_cons_of_neg (by simpa using Ne.symm hji), List.filter_nil,
        List.append_nil]
      exact ih j k₁

/-- An event that leaves the state spent, and needs it not to be, happens at most once. -/
theorem once {spent : κ → Prop} {event : Occurrence ι Op Res ε κ → Prop} [DecidablePred event]
    (h : Turns env programs first rest last log)
    (hkept : ∀ turn ∈ log, spent turn.before → spent turn.after)
    (hevent : ∀ turn ∈ log, event turn → ¬spent turn.before ∧ spent turn.after) :
    (log.filter event).length ≤ 1 := by
  suffices hgen : (log.filter event).length ≤ 1 ∧ (log.filter event ≠ [] → spent last) from hgen.1
  induction h with
  | start => exact ⟨Nat.zero_le _, fun hne => absurd rfl hne⟩
  | turn rest k k' log i op next answer _ hrest hanswer ih =>
    obtain ⟨hlength, hspent⟩ := ih (fun turn hmem => hkept turn (List.mem_append_left _ hmem))
      fun turn hmem => hevent turn (List.mem_append_left _ hmem)
    have hlast : (⟨i, ⟨op, answer⟩, k, k'⟩ : Occurrence ι Op Res ε κ) ∈ log ++ [⟨i, ⟨op, answer⟩, k, k'⟩] :=
      List.mem_append_right _ (List.mem_singleton.mpr rfl)
    rw [List.filter_append]
    by_cases hturn : event ⟨i, ⟨op, answer⟩, k, k'⟩
    · obtain ⟨hbefore, hafter⟩ := hevent _ hlast hturn
      have hnone : log.filter event = [] := by
        by_contra hne
        exact hbefore (hspent hne)
      rw [hnone, List.filter_cons_of_pos (by simpa using hturn)]
      exact ⟨Nat.le_refl 1, fun _ => hafter⟩
    · rw [List.filter_cons_of_neg (by simpa using hturn), List.filter_nil, List.append_nil]
      exact ⟨hlength, fun hne => hkept _ hlast (hspent hne)⟩

/-- The same, for any two turns. -/
theorem sole (spent : κ → Prop) (event : Occurrence ι Op Res ε κ → Prop) (h : Turns env programs first rest last log)
    (hkept : ∀ turn ∈ log, spent turn.before → spent turn.after)
    (hevent : ∀ turn ∈ log, event turn → ¬spent turn.before ∧ spent turn.after)
    {turn other : Occurrence ι Op Res ε κ} (hturn : turn ∈ log) (hother : other ∈ log) (hkind : event turn)
    (hkind' : event other) : turn = other := by
  classical
  have hlength := h.once hkept hevent
  have hmem : turn ∈ log.filter event := List.mem_filter.mpr ⟨hturn, by simpa using hkind⟩
  have hmem' : other ∈ log.filter event := List.mem_filter.mpr ⟨hother, by simpa using hkind'⟩
  cases hfilter : log.filter event with
  | nil =>
    rw [hfilter] at hmem
    cases hmem
  | cons first rest =>
    rw [hfilter] at hlength hmem hmem'
    obtain rfl : rest = [] := List.eq_nil_of_length_eq_zero (Nat.le_zero.mp (Nat.le_of_succ_le_succ hlength))
    rw [List.mem_singleton.mp hmem, List.mem_singleton.mp hmem']

/-- What every turn guarantees holds from the end of any turn to the last state. -/
theorem reach_after {R : κ → κ → Prop} (h : Turns env programs first rest last log) (hrefl : ∀ k, R k k)
    (htrans : ∀ a b c, R a b → R b c → R a c) (hturns : ∀ turn ∈ log, R turn.before turn.after) :
    ∀ turn ∈ log, R turn.after last := by
  induction h with
  | start => simp
  | turn rest k k' log i op next answer _ _ _ ih =>
    have hlast := hturns ⟨i, ⟨op, answer⟩, k, k'⟩ (List.mem_append_right _ (List.mem_singleton.mpr rfl))
    intro turn hmem
    rcases List.mem_append.mp hmem with hlog | hnew
    · exact htrans _ _ _ (ih (fun turn hmem => hturns turn (List.mem_append_left _ hmem)) turn hlog) hlast
    · rw [List.mem_singleton.mp hnew]
      exact hrefl _

end Turns

end MeridianOci.Effect
