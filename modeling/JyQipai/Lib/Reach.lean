import Mathlib

/-!
# Runs of a deterministic machine

A machine is given by a total step function `next`, and `ok s e` says that the
event `e` may occur in the state `s`.  `Reach next ok s` collects the states a
run from `s` can visit.  Invariants are established once for a step and then
carried along a whole run.
-/

namespace JyQipai.Lib

variable {σ ε : Type*} (next : σ → ε → σ) (ok : σ → ε → Prop)

/-- The states visited by runs from `s` whose events all satisfy `ok`. -/
inductive Reach (s : σ) : σ → Prop
  | refl : Reach s s
  | tail {t : σ} {e : ε} : Reach s t → ok t e → Reach s (next t e)

namespace Reach

variable {next ok} {s t u : σ}

theorem invariant {P : σ → Prop} (hstart : P s)
    (hstep : ∀ t e, P t → ok t e → P (next t e)) (h : Reach next ok s t) :
    P t := by
  induction h with
  | refl => exact hstart
  | tail _ he ih => exact hstep _ _ ih he

theorem mono {ok' : σ → ε → Prop} (hok : ∀ t e, ok t e → ok' t e)
    (h : Reach next ok s t) : Reach next ok' s t := by
  induction h with
  | refl => exact .refl
  | tail _ he ih => exact .tail ih (hok _ _ he)

theorem trans (hst : Reach next ok s t) (htu : Reach next ok t u) :
    Reach next ok s u := by
  induction htu with
  | refl => exact hst
  | tail _ he ih => exact .tail ih he

end Reach

def run (s : σ) (events : List ε) : σ := events.foldl next s

def Allowed : σ → List ε → Prop
  | _, [] => True
  | s, e :: es => ok s e ∧ Allowed (next s e) es

instance decidableAllowed [∀ s e, Decidable (ok s e)] :
    (s : σ) → (events : List ε) → Decidable (Allowed next ok s events)
  | _, [] => .isTrue trivial
  | s, e :: es =>
      have := decidableAllowed (next s e) es
      inferInstanceAs (Decidable (ok s e ∧ Allowed next ok (next s e) es))

variable {next ok}

theorem reach_run {s : σ} {events : List ε} (h : Allowed next ok s events) :
    Reach next ok s (run next s events) := by
  induction events generalizing s with
  | nil => exact .refl
  | cons e es ih =>
      obtain ⟨he, hes⟩ := h
      exact (Reach.tail .refl he).trans (ih hes)

end JyQipai.Lib
