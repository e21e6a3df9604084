import JyQipai.Lib.Reach

/-!
# Runs with some events left out

A machine answers each event.  When a relation between its states is kept by the events that
stay in a run, which are answered alike, and by the others in one of the states alone, the
run without the others gives the same answers.
-/

namespace JyQipai.Lib

variable {σ ε ο : Type*}

theorem Allowed.mono {next : σ → ε → σ} {ok ok' : σ → ε → Prop}
    (hok : ∀ s e, ok s e → ok' s e) {s : σ} {es : List ε} (h : Allowed next ok s es) :
    Allowed next ok' s es := by
  induction es generalizing s with
  | nil => trivial
  | cons e es ih => exact ⟨hok s e h.1, ih h.2⟩

def answers (step : σ → ε → ο × σ) : σ → List ε → List (ε × ο)
  | _, [] => []
  | s, e :: es => (e, (step s e).1) :: answers step (step s e).2 es

/-- `keep` says which events stay in a run. -/
structure Unwinding (step : σ → ε → ο × σ) (ok : σ → ε → Prop) (keep : ε → Bool) where
  related : σ → σ → Prop
  stays : ∀ {s t e}, related s t → ok s e → keep e = true →
    (step s e).1 = (step t e).1 ∧ related (step s e).2 (step t e).2
  skips : ∀ {s t e}, related s t → ok s e → keep e = false → related (step s e).2 t

namespace Unwinding

variable {step : σ → ε → ο × σ} {ok : σ → ε → Prop} {keep : ε → Bool}
  (U : Unwinding step ok keep) {s t : σ} {es : List ε}

theorem answers_filter (h : U.related s t) (hok : Allowed (fun s e => (step s e).2) ok s es) :
    (answers step s es).filter (fun x => keep x.1) = answers step t (es.filter keep) := by
  induction es generalizing s t with
  | nil => rfl
  | cons e es ih =>
      obtain ⟨he, hes⟩ := hok
      by_cases hkeep : keep e = true
      · obtain ⟨hsame, hrel⟩ := U.stays h he hkeep
        simp only [answers, List.filter_cons, hkeep, if_true]
        rw [ih hrel hes, hsame]
      · rw [Bool.not_eq_true] at hkeep
        have hrel := U.skips h he hkeep
        simp only [answers, List.filter_cons, hkeep, Bool.false_eq_true, if_false]
        exact ih hrel hes

theorem related_run (h : U.related s t) (hok : Allowed (fun s e => (step s e).2) ok s es) :
    U.related (run (fun s e => (step s e).2) s es)
      (run (fun s e => (step s e).2) t (es.filter keep)) := by
  induction es generalizing s t with
  | nil => exact h
  | cons e es ih =>
      obtain ⟨he, hes⟩ := hok
      by_cases hkeep : keep e = true
      · rw [List.filter_cons_of_pos hkeep]
        exact ih (U.stays h he hkeep).2 hes
      · rw [Bool.not_eq_true] at hkeep
        rw [List.filter_cons_of_neg (by simp [hkeep])]
        exact ih (U.skips h he hkeep) hes

end Unwinding

end JyQipai.Lib
