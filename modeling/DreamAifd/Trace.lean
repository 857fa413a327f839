import Mathlib

/-! Steps that mutate a state in place and may raise. As in the interpreted language, an
exception ends the run and keeps every mutation made before it. -/
namespace DreamAifd.Trace

variable {ε σ κ : Type*}

inductive Outcome (ε σ : Type*) where
  | done (state : σ)
  | raised (error : ε) (state : σ)
  deriving DecidableEq, Repr

namespace Outcome

def state : Outcome ε σ → σ
  | .done s => s
  | .raised _ s => s

@[simp] theorem state_done (s : σ) : (Outcome.done s : Outcome ε σ).state = s := rfl

/-- Continue after a step that returned; an exception skips the continuation. -/
def andThen (first : Outcome ε σ) (next : σ → Outcome ε σ) : Outcome ε σ :=
  match first with
  | .done s => next s
  | .raised e s => .raised e s

@[simp] theorem andThen_done (s : σ) (next : σ → Outcome ε σ) :
    (Outcome.done s).andThen next = next s := rfl
@[simp] theorem andThen_raised (e : ε) (s : σ) (next : σ → Outcome ε σ) :
    (Outcome.raised e s).andThen next = .raised e s := rfl

theorem andThen_assoc (first : Outcome ε σ) (second third : σ → Outcome ε σ) :
    (first.andThen second).andThen third = first.andThen fun s => (second s).andThen third := by
  cases first <;> rfl

end Outcome

/-- Run the calls in order until one raises. -/
def execute (step : σ → κ → Outcome ε σ) : List κ → σ → Outcome ε σ
  | [], s => .done s
  | call :: calls, s => (step s call).andThen (execute step calls)

variable {step : σ → κ → Outcome ε σ}

theorem execute_append (first second : List κ) (s : σ) :
    execute step (first ++ second) s =
      (execute step first s).andThen (execute step second) := by
  induction first generalizing s with
  | nil => rfl
  | cons call calls ih =>
    rw [List.cons_append, execute, execute, Outcome.andThen_assoc]
    exact congrArg _ (funext ih)

@[simp] theorem andThen_execute_nil (first : Outcome ε σ) :
    first.andThen (execute step []) = first := by
  cases first <;> rfl

/-- What every step preserves, exceptions included, holds in whatever state a run leaves. -/
theorem execute_invariant (property : σ → Prop) (s : σ) (calls : List κ)
    (preserved : ∀ call ∈ calls, ∀ s, property s → property (step s call).state)
    (initial : property s) : property (execute step calls s).state := by
  induction calls generalizing s with
  | nil => exact initial
  | cons call calls ih =>
    have next := preserved call (by simp) s initial
    rw [execute]
    cases outcome : step s call with
    | done t =>
      rw [outcome] at next
      exact ih t (fun c member => preserved c (List.mem_cons_of_mem _ member)) next
    | raised e t => rw [outcome] at next; exact next

end DreamAifd.Trace
