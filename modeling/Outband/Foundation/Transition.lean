import Mathlib.Logic.Basic

/-!
# Runs of a partial step function

A system is given by a step function that is undefined where an action cannot
be taken. `Reached step ok s₀ s` holds when some run leads from `s₀` to `s` and
takes each of its actions in a state where `ok` admits it. With `ok` always
true these are the reachable states; a stronger `ok` restricts the runs and
leaves the system as it is.
-/

namespace Outband.Foundation

variable {σ κ : Type*} {step : κ → σ → Option σ} {ok ok' : κ → σ → Prop} {s₀ s s' : σ}

/-- The states at the end of a run from `s₀` all of whose steps meet `ok`. -/
inductive Reached (step : κ → σ → Option σ) (ok : κ → σ → Prop) (s₀ : σ) : σ → Prop
  | init : Reached step ok s₀ s₀
  | step {s s' : σ} {a : κ} (run : Reached step ok s₀ s) (admitted : ok a s)
      (taken : step a s = some s') : Reached step ok s₀ s'

namespace Reached

/-- What holds at the start and survives every admitted step holds in every state reached. -/
theorem invariant {I : σ → Prop} (h0 : I s₀)
    (hstep : ∀ a s s', I s → ok a s → step a s = some s' → I s')
    (h : Reached step ok s₀ s) : I s := by
  induction h with
  | init => exact h0
  | step _ hok htaken ih => exact hstep _ _ _ ih hok htaken

/-- A run goes on from where another has ended. -/
theorem trans (h : Reached step ok s₀ s) (h' : Reached step ok s s') : Reached step ok s₀ s' := by
  induction h' with
  | init => exact h
  | step _ hadm htaken ih => exact .step ih hadm htaken

/-- Runs that meet a stronger condition meet a weaker one. -/
theorem mono (hok : ∀ a s, ok a s → ok' a s) (h : Reached step ok s₀ s) :
    Reached step ok' s₀ s := by
  induction h with
  | init => exact .init
  | step _ hadm htaken ih => exact .step ih (hok _ _ hadm) htaken

end Reached

/-- Execute a list of actions, each of which must be possible and admitted. -/
def exec (step : κ → σ → Option σ) (ok : κ → σ → Prop) [∀ a s, Decidable (ok a s)] :
    List κ → σ → Option σ
  | [], s => some s
  | a :: rest, s =>
      if ok a s then
        match step a s with
        | some s' => exec step ok rest s'
        | none => none
      else none

theorem reached_of_exec [∀ a s, Decidable (ok a s)] {acts : List κ}
    (h : Reached step ok s₀ s) (hexec : exec step ok acts s = some s') :
    Reached step ok s₀ s' := by
  induction acts generalizing s with
  | nil =>
      cases hexec
      exact h
  | cons a rest ih =>
      simp only [exec] at hexec
      split at hexec
      case isTrue hadm =>
        split at hexec
        case h_1 next hnext => exact ih (.step h hadm hnext) hexec
        case h_2 => cases hexec
      case isFalse => cases hexec

/-- What holds at the end of a list of actions holds in a state that is reached. -/
theorem exists_reached_of_exec [∀ a s, Decidable (ok a s)] {P : σ → Prop} [DecidablePred P]
    {acts : List κ} (h : ((exec step ok acts s₀).any fun s => decide (P s)) = true) :
    ∃ s, Reached step ok s₀ s ∧ P s := by
  obtain ⟨s, hs, hP⟩ := Option.any_eq_true _ _ |>.mp h
  exact ⟨s, reached_of_exec .init hs, of_decide_eq_true hP⟩

end Outband.Foundation
