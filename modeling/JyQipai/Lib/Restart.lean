import Mathlib

/-!
# Jobs that are done in order

A job `f h a` succeeds or fails and leaves a new state in both cases.  A batch of
jobs stops at the first that fails; `oneByOne` goes on with the next one and collects
those that have failed.  Starting a batch again behind each failure is the same.
-/

namespace JyQipai.Lib

variable {α β η : Type*} (f : η → α → Bool × η)

def upTo : List α → η → Option Nat × η
  | [], h => (none, h)
  | a :: as, h =>
      if (f h a).1 then
        ((upTo as (f h a).2).1.map (· + 1), (upTo as (f h a).2).2)
      else (some 0, (f h a).2)

def oneByOne : List α → η → List α × η
  | [], h => ([], h)
  | a :: as, h =>
      if (f h a).1 then oneByOne as (f h a).2
      else (a :: (oneByOne as (f h a).2).1, (oneByOne as (f h a).2).2)

variable {f}

theorem oneByOne_append (as bs : List α) (h : η) :
    oneByOne f (as ++ bs) h =
      ((oneByOne f as h).1 ++ (oneByOne f bs (oneByOne f as h).2).1,
        (oneByOne f bs (oneByOne f as h).2).2) := by
  induction as generalizing h with
  | nil => rfl
  | cons a as ih =>
      simp only [List.cons_append, oneByOne, ih]
      split <;> rfl

theorem oneByOne_of_upTo_none {as : List α} {h h' : η} (hs : upTo f as h = (none, h')) :
    oneByOne f as h = ([], h') := by
  induction as generalizing h with
  | nil =>
      cases hs
      rfl
  | cons a as ih =>
      rw [upTo] at hs
      split at hs
      · rename_i ha
        rw [Prod.mk.injEq, Option.map_eq_none_iff] at hs
        rw [oneByOne, if_pos ha]
        exact ih (Prod.ext hs.1 hs.2)
      · cases hs

theorem oneByOne_of_upTo_some {as : List α} {h h' : η} {i : Nat}
    (hs : upTo f as h = (some i, h')) :
    ∃ a, as[i]? = some a ∧ oneByOne f as h =
      (a :: (oneByOne f (as.drop (i + 1)) h').1, (oneByOne f (as.drop (i + 1)) h').2) := by
  induction as generalizing h i with
  | nil => cases hs
  | cons b as ih =>
      rw [upTo] at hs
      split at hs
      · rename_i hb
        rw [Prod.mk.injEq, Option.map_eq_some_iff] at hs
        obtain ⟨⟨j, hj, rfl⟩, hstate⟩ := hs
        obtain ⟨a, ha, heq⟩ := ih (Prod.ext hj hstate)
        refine ⟨a, ha, ?_⟩
        rw [oneByOne, if_pos hb, heq]
        rfl
      · rename_i hb
        cases hs
        exact ⟨b, rfl, by rw [oneByOne, if_neg hb]; rfl⟩

section Compare

variable {g : η → α → Bool × η} {key : α → β} {bad : β → Bool}

theorem countP_oneByOne_le (key : α → β) (bad : β → Bool) (as : List α) (h : η) :
    ((oneByOne g as h).1.map key).countP bad ≤ (as.map key).countP bad := by
  induction as generalizing h with
  | nil => simp [oneByOne]
  | cons a as ih =>
      have hrest := ih (g h a).2
      rw [oneByOne]
      split
      · rw [List.map_cons, List.countP_cons]
        omega
      · rw [List.map_cons, List.map_cons, List.countP_cons, List.countP_cons]
        omega

theorem countP_oneByOne_of_fails {as : List α}
    (hbad : ∀ a ∈ as, ∀ h, bad (key a) = true → (f h a).1 = false) (h : η) :
    ((oneByOne f as h).1.map key).countP bad = (as.map key).countP bad := by
  induction as generalizing h with
  | nil => simp [oneByOne]
  | cons a as ih =>
      have hrest := ih (fun b hb => hbad b (List.mem_cons_of_mem _ hb)) (f h a).2
      rw [oneByOne]
      split
      · rename_i ha
        have hgood : bad (key a) = false := by
          by_contra hb
          rw [Bool.not_eq_false] at hb
          rw [hbad a List.mem_cons_self h hb] at ha
          cases ha
        rw [List.map_cons, List.countP_cons, hrest, hgood]
        simp
      · rw [List.map_cons, List.map_cons, List.countP_cons, List.countP_cons, hrest]

theorem oneByOne_eq {as : List α} {h : η}
    (hsame : ∀ a ∈ as, ∀ h, bad (key a) = false ∨ (g h a).1 = false → f h a = g h a)
    (hall : ∀ pre a post, as = pre ++ a :: post → (g (oneByOne g pre h).2 a).1 = true →
      bad (key a) = false) : oneByOne f as h = oneByOne g as h := by
  induction as generalizing h with
  | nil => rfl
  | cons a as ih =>
      have hfirst : f h a = g h a := by
        cases hb : bad (key a) with
        | false => exact hsame a List.mem_cons_self h (.inl hb)
        | true =>
            refine hsame a List.mem_cons_self h (.inr ?_)
            by_contra ha
            rw [Bool.not_eq_false] at ha
            have hgood := hall [] a as rfl ha
            rw [hb] at hgood
            cases hgood
      have hrest := ih (h := (g h a).2) (fun b hb => hsame b (List.mem_cons_of_mem _ hb))
        fun pre b post heq hb => by
          refine hall (a :: pre) b post (by rw [heq]; rfl) ?_
          rw [oneByOne]
          split
          · exact hb
          · exact hb
      simp only [oneByOne, hfirst, hrest]

variable (f g key bad) in
theorem oneByOne_eq_iff {as : List α}
    (hbad : ∀ a ∈ as, ∀ h, bad (key a) = true → (f h a).1 = false)
    (hsame : ∀ a ∈ as, ∀ h, bad (key a) = false ∨ (g h a).1 = false → f h a = g h a)
    (h : η) :
    (((oneByOne f as h).1.map key = (oneByOne g as h).1.map key ∧
        (oneByOne f as h).2 = (oneByOne g as h).2) ↔
      ∀ pre a post, as = pre ++ a :: post → (g (oneByOne g pre h).2 a).1 = true →
        bad (key a) = false) := by
  constructor
  · rintro ⟨heq, -⟩ pre a post rfl ha
    by_contra hb
    rw [Bool.not_eq_false] at hb
    have hcount := countP_oneByOne_of_fails hbad h
    rw [heq, oneByOne_append, oneByOne, if_pos ha, List.map_append, List.map_append,
      List.countP_append, List.countP_append, List.map_cons, List.countP_cons, hb] at hcount
    have hpre := countP_oneByOne_le (g := g) key bad pre h
    have hpost := countP_oneByOne_le (g := g) key bad post (g (oneByOne g pre h).2 a).2
    simp only [if_true] at hcount
    omega
  · intro hall
    rw [oneByOne_eq hsame hall]
    exact ⟨rfl, rfl⟩

end Compare

end JyQipai.Lib
