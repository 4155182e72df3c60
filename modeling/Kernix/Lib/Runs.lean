import Mathlib.Data.Fintype.Card
import Mathlib.Logic.Function.Iterate
import Mathlib.Tactic.ByContra

/-! Machines that take one step after the other: what holds in every state that a
transition system can get to, where a machine comes to that goes on until it stops, how
soon it does, and what a run holds whose steps may fail. -/

namespace Transition
universe u v
variable {σ : Type u} {ι : Type v}

/-- The states a system can get to from its initial states. -/
inductive Reachable (initial : σ → Prop) (step : σ → ι → σ → Prop) : σ → Prop where
  | initial {state : σ} (starts : initial state) : Reachable initial step state
  | step {before after : σ} {label : ι} (reached : Reachable initial step before)
      (moves : step before label after) : Reachable initial step after

/-- What holds at the start and survives every step holds in every reachable state. -/
theorem Reachable.invariant {initial : σ → Prop} {step : σ → ι → σ → Prop} (holds : σ → Prop)
    (starts : ∀ state, initial state → holds state)
    (preserved : ∀ before label after, holds before → step before label after → holds after)
    {state : σ} (reached : Reachable initial step state) : holds state := by
  induction reached with
  | initial first => exact starts _ first
  | step _ moves ih => exact preserved _ _ _ ih moves

end Transition

namespace Iteration
universe u
variable {σ : Type u} {step : σ → σ} {first second third : σ}

/-- The machine comes from one state to another. -/
def Leads (step : σ → σ) (before after : σ) : Prop := ∃ count, step^[count] before = after

theorem Leads.refl (step : σ → σ) (state : σ) : Leads step state state := ⟨0, rfl⟩

theorem Leads.one (moves : step first = second) : Leads step first second := ⟨1, moves⟩

theorem Leads.trans (leads : Leads step first second) (further : Leads step second third) : Leads step first third := by
  obtain ⟨count, rfl⟩ := leads
  obtain ⟨others, rfl⟩ := further
  exact ⟨others + count, Function.iterate_add_apply step others count first⟩

/-- What every step keeps is kept on the way. -/
theorem Leads.keeps {holds : σ → Prop} (keeps : ∀ state, holds state → holds (step state))
    (leads : Leads step first second) (start : holds first) : holds second := by
  obtain ⟨count, rfl⟩ := leads
  induction count generalizing first with
  | zero => exact start
  | succ count ih => exact ih (keeps first start)

/-- Whatever state the machine comes to on the way, it stops where it stops. -/
theorem Leads.stops (stopped : step third = third) (leads : Leads step first second) (final : Leads step first third) :
    Leads step second third := by
  obtain ⟨count, rfl⟩ := leads
  obtain ⟨others, rfl⟩ := final
  rcases Nat.le_total count others with before | after
  · refine ⟨others - count, ?_⟩
    rw [← Function.iterate_add_apply, Nat.sub_add_cancel before]
  · refine ⟨0, ?_⟩
    obtain ⟨more, rfl⟩ := Nat.exists_eq_add_of_le after
    rw [Function.iterate_zero_apply, Nat.add_comm, Function.iterate_add_apply, Function.iterate_fixed stopped]

/-- A machine with so many states that stops at all stops before it is through with them. -/
theorem first_stop {bound : Nat} (number : σ → Fin bound) (apart : Function.Injective number) (stop : σ → Prop)
    (stops : ∃ count, stop (step^[count] first)) :
    ∃ count < bound, stop (step^[count] first) ∧ ∀ earlier < count, ¬stop (step^[earlier] first) := by
  classical
  refine ⟨Nat.find stops, ?_, Nat.find_spec stops, fun earlier early => Nat.find_min stops early⟩
  -- of two equal states the second is not in front of the stop: the way on from it would be shorter from the first
  have order {i j : Nat} (early : i < j) (within : j ≤ Nat.find stops) :
      step^[i] first ≠ step^[j] first := by
    intro same
    obtain ⟨rest, place⟩ := Nat.exists_eq_add_of_le within
    refine Nat.find_min stops (show rest + i < Nat.find stops by omega) ?_
    have final := Nat.find_spec stops
    rwa [place, Nat.add_comm j, Function.iterate_add_apply, ← same, ← Function.iterate_add_apply] at final
  have injective : Function.Injective fun i : Fin (Nat.find stops + 1) => number (step^[i] first) := by
    intro i j same
    have equal := apart same
    rcases Nat.lt_trichotomy i.val j.val with before | here | behind
    · exact (order before (Nat.le_of_lt_succ j.isLt) equal).elim
    · exact Fin.ext here
    · exact (order behind (Nat.le_of_lt_succ i.isLt) equal.symm).elim
  have few := Fintype.card_le_of_injective _ injective
  rw [Fintype.card_fin, Fintype.card_fin] at few
  exact few

end Iteration

namespace Runs
universe u v w
variable {σ : Type u} {ι : Type v} {ε : Type w} (step : σ → ι → Except ε σ)

/-- Every step of the run returns, and every state of it is as wanted. -/
def Always (holds : σ → Prop) : σ → List ι → Prop
  | state, [] => holds state
  | state, label :: labels => holds state ∧ ∃ after, step state label = .ok after ∧ Always holds after labels

/-- Every step of the run is taken in a state that meets the condition. -/
def Meets (condition : σ → ι → Prop) : σ → List ι → Prop
  | _, [] => True
  | state, label :: labels =>
    condition state label ∧ ∀ after, step state label = .ok after → Meets condition after labels

variable {step}

theorem Always.start {holds : σ → Prop} {state : σ} {labels : List ι} (always : Always step holds state labels) :
    holds state := by
  cases labels with
  | nil => exact always
  | cons label labels => exact always.1

theorem Always.finish {holds : σ → Prop} {state after : σ} {labels : List ι} (always : Always step holds state labels)
    (run : labels.foldlM step state = .ok after) : holds after := by
  induction labels generalizing state with
  | nil =>
    cases run
    exact always
  | cons label labels ih =>
    obtain ⟨-, middle, moves, rest⟩ := always
    rw [List.foldlM_cons, moves] at run
    exact ih rest run

/-- What an invariant gives holds in all states of a run that meets the condition. -/
theorem always_of_meets {invariant holds : σ → Prop} {condition : σ → ι → Prop}
    (gives : ∀ state, invariant state → holds state)
    (keeps : ∀ state label, invariant state → condition state label →
      ∃ after, step state label = .ok after ∧ invariant after)
    {state : σ} {labels : List ι} (starts : invariant state) (meets : Meets step condition state labels) :
    Always step holds state labels := by
  induction labels generalizing state with
  | nil => exact gives state starts
  | cons label labels ih =>
    obtain ⟨met, rest⟩ := meets
    obtain ⟨after, moves, kept⟩ := keeps state label starts met
    exact ⟨gives state starts, after, moves, ih kept (rest after moves)⟩

/-- What an invariant gives holds in all states of a run, when every step keeps it. -/
theorem always_of_keeps (invariant : σ → Prop) {holds : σ → Prop} (gives : ∀ state, invariant state → holds state)
    (keeps : ∀ state label, invariant state → ∃ after, step state label = .ok after ∧ invariant after)
    {state : σ} (starts : invariant state) (labels : List ι) : Always step holds state labels := by
  induction labels generalizing state with
  | nil => exact gives state starts
  | cons label labels ih =>
    obtain ⟨after, moves, kept⟩ := keeps state label starts
    exact ⟨gives state starts, after, moves, ih kept⟩

/-- When a step that misses the condition leads to a state that is not as wanted, the
runs that meet it are the ones whose states are. -/
theorem always_iff_meets (invariant : σ → Prop) {holds : σ → Prop} {condition : σ → ι → Prop}
    (gives : ∀ state, invariant state → holds state)
    (keeps : ∀ state label, invariant state → condition state label →
      ∃ after, step state label = .ok after ∧ invariant after)
    (breaks : ∀ state label after, invariant state → ¬condition state label → step state label = .ok after →
      ¬holds after)
    {state : σ} {labels : List ι} (starts : invariant state) :
    Always step holds state labels ↔ Meets step condition state labels := by
  refine ⟨fun always => ?_, always_of_meets gives keeps starts⟩
  induction labels generalizing state with
  | nil => trivial
  | cons label labels ih =>
    obtain ⟨_, after, moves, rest⟩ := always
    have met : condition state label := by
      by_contra missed
      exact breaks state label after starts missed moves rest.start
    refine ⟨met, fun other same => ?_⟩
    obtain ⟨kept, keeping, preserved⟩ := keeps state label starts met
    cases moves.symm.trans same
    cases moves.symm.trans keeping
    exact ih preserved rest

end Runs
