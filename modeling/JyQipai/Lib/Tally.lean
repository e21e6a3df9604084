import Mathlib

/-!
# Counting by increments

A place is taken or free, and its owner has pressed a button or not.  `Tally`
says that two counters, which are kept up by separate increments, agree with the
two arrays.
-/

namespace JyQipai.Lib

variable {α β : Type*}

theorem countP_le_add {l : List α} {p q r : α → Bool} (h : ∀ x ∈ l, p x → q x ∨ r x) :
    l.countP p ≤ l.countP q + l.countP r := by
  induction l with
  | nil => simp
  | cons x l ih =>
      have hl := ih fun y hy => h y (List.mem_cons_of_mem _ hy)
      have hx := h x List.mem_cons_self
      simp only [List.countP_cons]
      rcases hp : p x with _ | _
      · simp
        omega
      · rcases hx hp with hq | hr
        · simp [hq]
          omega
        · simp [hr]
          omega

theorem countP_update [DecidableEq α] {l : List α} (hl : l.Nodup) {a : α} (ha : a ∈ l)
    (p : β → Bool) (f : α → β) (b : β) :
    ((l.countP fun x => p (Function.update f a b x) : Nat) : Int) =
      (l.countP fun x => p (f x)) + (if p b then 1 else 0) - if p (f a) then 1 else 0 := by
  induction l with
  | nil => cases ha
  | cons x l ih =>
      obtain ⟨hx, hl⟩ := List.nodup_cons.mp hl
      rw [List.countP_cons, List.countP_cons]
      rcases List.mem_cons.mp ha with rfl | ha
      · have hrest : (l.countP fun y => p (Function.update f a b y)) =
            l.countP fun y => p (f y) := by
          apply List.countP_congr
          intro y hy
          rw [Function.update_of_ne]
          rintro rfl
          exact hx hy
        rw [hrest, Function.update_self]
        push_cast
        split <;> split <;> omega
      · have hne : x ≠ a := by
          rintro rfl
          exact hx ha
        have := ih hl ha
        rw [Function.update_of_ne hne]
        push_cast
        omega

structure Tally (places : List α) (taken : α → Option β) (pressed : α → Nat)
    (count total : Int) : Prop where
  count : count = places.countP fun s => (taken s).isSome
  total : total = places.countP fun s => pressed s = 1
  inside : ∀ s, (taken s).isSome → s ∈ places
  two : ∀ s, pressed s = 0 ∨ pressed s = 1

namespace Tally

variable {places : List α} {taken : α → Option β} {pressed : α → Nat}
  {count total : Int} {s : α}

theorem free (places : List α) :
    Tally places (fun _ => (none : Option β)) (fun _ => 0) 0 0 where
  count := by simp
  total := by simp
  inside := by simp
  two _ := .inl rfl

theorem release (h : Tally places taken pressed count total) :
    Tally places taken (fun _ => 0) count 0 where
  count := h.count
  total := by simp
  inside := h.inside
  two _ := .inl rfl

theorem total_eq_length (h : Tally places taken pressed count total) :
    total = places.length ↔ ∀ s ∈ places, pressed s = 1 := by
  rw [h.total, Int.natCast_inj, List.countP_eq_length]
  simp

variable [DecidableEq α]

theorem take (h : Tally places taken pressed count total) (hl : places.Nodup)
    (hs : s ∈ places) (hfree : taken s = none) (b : β) :
    Tally places (Function.update taken s (some b)) pressed (count + 1) total where
  count := by
    rw [countP_update hl hs Option.isSome, ← h.count, hfree]
    simp
  total := h.total
  inside x hx := by
    by_cases hxs : x = s
    · exact hxs ▸ hs
    · rw [Function.update_of_ne hxs] at hx
      exact h.inside x hx
  two := h.two

theorem press (h : Tally places taken pressed count total) (hl : places.Nodup)
    (hs : s ∈ places) (hzero : pressed s = 0) :
    Tally places taken (Function.update pressed s 1) count (total + 1) where
  count := h.count
  total := by
    have hcount := countP_update hl hs (fun n : Nat => decide (n = 1)) pressed 1
    rw [hcount, ← h.total, hzero]
    simp
  inside := h.inside
  two x := by
    by_cases hxs : x = s
    · exact .inr (by rw [hxs, Function.update_self])
    · rw [Function.update_of_ne hxs]
      exact h.two x

theorem leave (h : Tally places taken pressed count total) (hl : places.Nodup)
    (htaken : (taken s).isSome) (hone : pressed s = 1) :
    Tally places (Function.update taken s none) (Function.update pressed s 0)
      (count - 1) (total - 1) where
  count := by
    rw [countP_update hl (h.inside s htaken) Option.isSome, ← h.count, htaken]
    simp
  total := by
    have hcount := countP_update hl (h.inside s htaken)
      (fun n : Nat => decide (n = 1)) pressed 0
    rw [hcount, ← h.total, hone]
    simp
  inside x hx := by
    by_cases hxs : x = s
    · rw [hxs, Function.update_self] at hx
      cases hx
    · rw [Function.update_of_ne hxs] at hx
      exact h.inside x hx
  two x := by
    by_cases hxs : x = s
    · exact .inl (by rw [hxs, Function.update_self])
    · rw [Function.update_of_ne hxs]
      exact h.two x

end Tally

end JyQipai.Lib
