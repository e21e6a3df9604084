import Mathlib

/-!
# Choosing the best element of a list

`best better l` is the loop that keeps a candidate and replaces it by every
later element that is better.  For a strict total order the result depends
only on the elements of the list and not on the order in which they are
visited.
-/

namespace JyQipai.Lib

variable {α : Type*} (better : α → α → Bool)

def bestStep (acc : Option α) (a : α) : Option α :=
  match acc with
  | none => some a
  | some b => if better a b then some a else some b

def best (l : List α) : Option α := l.foldl (bestStep better) none

variable {better}

private theorem foldl_bestStep_mem {l : List α} {acc : Option α} {a : α}
    (h : l.foldl (bestStep better) acc = some a) : a ∈ l ∨ acc = some a := by
  induction l generalizing acc with
  | nil => exact .inr h
  | cons b l ih =>
      rcases ih h with hmem | hacc
      · exact .inl (List.mem_cons_of_mem _ hmem)
      · cases acc with
        | none =>
            simp only [bestStep, Option.some.injEq] at hacc
            exact .inl (by simp [hacc])
        | some c =>
            simp only [bestStep] at hacc
            split at hacc
            · exact .inl (by simp_all)
            · exact .inr hacc

theorem best_mem {l : List α} {a : α} (h : best better l = some a) : a ∈ l := by
  rcases foldl_bestStep_mem h with hmem | hnone
  · exact hmem
  · cases hnone

end JyQipai.Lib
