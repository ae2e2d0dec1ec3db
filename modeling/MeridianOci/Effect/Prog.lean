import Mathlib.Logic.Relation

/-!
# Programs that perform operations

A program either returns, raises, or performs one operation of a signature and
continues with its answer, which may itself be an exception. Nothing here says
how operations are answered: the same program is later run against a conforming
service, against an adversary, and next to other programs.
-/
namespace MeridianOci.Effect

set_option autoImplicit false

/-- `Res op` is the type of the answer to `op`; `ε` is the type of exceptions. -/
inductive Prog (Op : Type) (Res : Op → Type) (ε α : Type) : Type where
  | ret (value : α)
  | raise (error : ε)
  | call (op : Op) (next : Except ε (Res op) → Prog Op Res ε α)

namespace Prog

variable {Op : Type} {Res : Op → Type} {ε α β γ σ : Type}

def ofExcept : Except ε α → Prog Op Res ε α
  | .ok value => .ret value
  | .error error => .raise error

/-- Continue from the outcome, whether it is a value or an exception. Sequencing,
`except` and `finally` are all instances of this one operator. -/
def handle : Prog Op Res ε α → (Except ε α → Prog Op Res ε β) → Prog Op Res ε β
  | .ret value, next => next (.ok value)
  | .raise error, next => next (.error error)
  | .call op rest, next => .call op fun answer => (rest answer).handle next

def onOk (next : α → Prog Op Res ε β) : Except ε α → Prog Op Res ε β
  | .ok value => next value
  | .error error => .raise error

def onError (next : ε → Prog Op Res ε α) : Except ε α → Prog Op Res ε α
  | .ok value => .ret value
  | .error error => next error

instance : Monad (Prog Op Res ε) where
  pure := .ret
  bind program next := program.handle (onOk next)

instance : MonadExceptOf ε (Prog Op Res ε) where
  throw := .raise
  tryCatch program next := program.handle (onError next)

/-- `try: program finally: cleanup`. An exception of the cleanup replaces the outcome. -/
def finally_ (program : Prog Op Res ε α) (cleanup : Prog Op Res ε Unit) : Prog Op Res ε α :=
  program.handle fun outcome => cleanup.handle (onOk fun _ => ofExcept outcome)

def perform (op : Op) : Prog Op Res ε (Res op) := .call op ofExcept

@[simp] theorem pure_eq (value : α) : (pure value : Prog Op Res ε α) = .ret value := rfl

@[simp] theorem throw_eq (error : ε) : (throw error : Prog Op Res ε α) = .raise error := rfl

theorem bind_eq (program : Prog Op Res ε α) (next : α → Prog Op Res ε β) :
    program >>= next = program.handle (onOk next) := rfl

@[simp] theorem ret_bind (value : α) (next : α → Prog Op Res ε β) :
    (Prog.ret value : Prog Op Res ε α) >>= next = next value := rfl

@[simp] theorem raise_bind (error : ε) (next : α → Prog Op Res ε β) :
    (Prog.raise error : Prog Op Res ε α) >>= next = .raise error := rfl

theorem handle_handle (program : Prog Op Res ε α) (first : Except ε α → Prog Op Res ε β)
    (second : Except ε β → Prog Op Res ε γ) :
    (program.handle first).handle second =
      program.handle fun outcome => (first outcome).handle second := by
  induction program with
  | ret value => rfl
  | raise error => rfl
  | call op next ih =>
    simp only [handle]
    congr 1
    funext answer
    exact ih answer

theorem bind_assoc (program : Prog Op Res ε α) (first : α → Prog Op Res ε β) (second : β → Prog Op Res ε γ) :
    (program >>= first) >>= second = program >>= fun value => first value >>= second := by
  rw [bind_eq, bind_eq, handle_handle, bind_eq]
  congr 1
  funext outcome
  cases outcome <;> rfl

/-- Run a program when every operation has one answer. -/
def run (answer : (op : Op) → σ → Except ε (Res op) × σ) :
    Prog Op Res ε α → σ → Except ε α × σ
  | .ret value, s => (.ok value, s)
  | .raise error, s => (.error error, s)
  | .call op next, s => (next (answer op s).1).run answer (answer op s).2

theorem run_handle (answer : (op : Op) → σ → Except ε (Res op) × σ)
    (program : Prog Op Res ε α) (next : Except ε α → Prog Op Res ε β) (s : σ) :
    (program.handle next).run answer s =
      (next (program.run answer s).1).run answer (program.run answer s).2 := by
  induction program generalizing s with
  | ret value => rfl
  | raise error => rfl
  | call op rest ih => exact ih _ _

theorem run_bind (answer : (op : Op) → σ → Except ε (Res op) × σ)
    (program : Prog Op Res ε α) (next : α → Prog Op Res ε β) (s : σ) :
    (program >>= next).run answer s =
      match program.run answer s with
      | (.ok value, s') => (next value).run answer s'
      | (.error error, s') => (.error error, s') := by
  rw [bind_eq, run_handle]
  rcases program.run answer s with ⟨_ | _, s'⟩ <;> rfl

/-- A sequence that returns went through its first program. -/
theorem run_bind_ok {answer : (op : Op) → σ → Except ε (Res op) × σ} {program : Prog Op Res ε α}
    {next : α → Prog Op Res ε β} {s : σ} {value : β} (h : ((program >>= next).run answer s).1 = .ok value) :
    ∃ first s', program.run answer s = (.ok first, s') ∧ ((next first).run answer s').1 = .ok value := by
  rw [run_bind] at h
  generalize program.run answer s = result at h
  obtain ⟨_ | first, s'⟩ := result
  · cases h
  · exact ⟨first, s', rfl, h⟩

theorem run_bind_ok_iff {answer : (op : Op) → σ → Except ε (Res op) × σ} {program : Prog Op Res ε α}
    {next : α → Prog Op Res ε β} {s : σ} {value : β} (hread : (program.run answer s).2 = s) :
    ((program >>= next).run answer s).1 = .ok value ↔
      ∃ first, (program.run answer s).1 = .ok first ∧ ((next first).run answer s).1 = .ok value := by
  rw [run_bind]
  generalize program.run answer s = result at hread
  obtain ⟨_ | first, s'⟩ := result
  · simp
  · obtain rfl : s' = s := hread
    simp

end Prog

end MeridianOci.Effect
