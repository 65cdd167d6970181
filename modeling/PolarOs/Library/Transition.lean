import Mathlib.Algebra.Ring.Nat
import Mathlib.Algebra.BigOperators.Group.List.Basic

/-! Finite runs of a labelled step relation, with the rules by which a fact about one
step becomes a fact about every run. -/
namespace Library

variable {σ α : Type} {step : σ → α → σ → Prop}

inductive Run (step : σ → α → σ → Prop) : σ → List α → σ → Prop
  | nil (state : σ) : Run step state [] state
  | cons {first middle last : σ} {action : α} {actions : List α} (start : step first action middle)
      (rest : Run step middle actions last) : Run step first (action::actions) last

namespace Run

theorem append {first middle last : σ} {before after : List α} (start : Run step first before middle)
    (rest : Run step middle after last) : Run step first (before ++ after) last := by
  induction start with
  | nil => exact rest
  | cons head _ ih => exact .cons head (ih rest)

theorem snoc {first middle last : σ} {actions : List α} {action : α} (start : Run step first actions middle)
    (final : step middle action last) : Run step first (actions ++ [action]) last :=
  start.append (.cons final (.nil last))

/-- Steps that are computed make a run. -/
theorem of_foldlM {ε : Type} {next : σ → α → Except ε σ} {actions : List α} {first last : σ}
    (ran : actions.foldlM next first = .ok last) :
    Run (fun state action later => next state action = .ok later) first actions last := by
  induction actions generalizing first with
  | nil =>
    cases ran
    exact .nil last
  | cons action actions ih =>
    rw [List.foldlM_cons] at ran
    cases head : next first action with
    | error fault =>
      rw [head] at ran
      cases ran
    | ok middle =>
      rw [head] at ran
      exact .cons head (ih ran)

/-- An invariant of every step is an invariant of every run. -/
theorem keeps {invariant : σ → Prop}
    (each : ∀ first action last, invariant first → step first action last → invariant last)
    {first last : σ} {actions : List α} (run : Run step first actions last) (holds : invariant first) :
    invariant last := by
  induction run with
  | nil => exact holds
  | cons head _ ih => exact ih (each _ _ _ holds head)

/-- The same where a step may rely on another invariant of its first state. -/
theorem keeps_under {context invariant : σ → Prop}
    (stable : ∀ first action last, context first → step first action last → context last)
    (each : ∀ first action last, context first → invariant first → step first action last → invariant last)
    {first last : σ} {actions : List α} (run : Run step first actions last) (known : context first)
    (holds : invariant first) : invariant last := by
  induction run with
  | nil => exact holds
  | cons head _ ih => exact ih (stable _ _ _ known head) (each _ _ _ known holds head)

/-- What every step adds to a counter, a run adds up. -/
theorem adds {context : σ → Prop} (counter : σ → Nat) (cost : α → Nat)
    (stable : ∀ first action last, context first → step first action last → context last)
    (each : ∀ first action last, context first → step first action last → counter last = counter first + cost action)
    {first last : σ} {actions : List α} (run : Run step first actions last) (known : context first) :
    counter last = counter first + (actions.map cost).sum := by
  induction run with
  | nil => simp
  | cons head _ ih =>
    rw [ih (stable _ _ _ known head),each _ _ _ known head,List.map_cons,List.sum_cons,Nat.add_assoc]

end Run

end Library
