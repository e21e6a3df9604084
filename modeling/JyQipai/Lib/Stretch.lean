import Mathlib.Order.Nat

/-!
# Stretches

A stretch is the longest row of numbers from 1 on that all have a property.  On a line of
integers the stretches to both sides of a place make up the only maximal interval around it.
-/

namespace JyQipai.Lib

def stretch (p : Nat → Bool) : Nat → Nat
  | 0 => 0
  | n + 1 => if p 1 then stretch (fun k => p (k + 1)) n + 1 else 0

theorem stretch_eq {p : Nat → Bool} {n j : Nat} (hall : ∀ k, 1 ≤ k → k ≤ j → p k)
    (hend : p (j + 1) = false) (hle : j ≤ n) : stretch p n = j := by
  induction n generalizing p j with
  | zero => exact (Nat.le_zero.mp hle).symm
  | succ n ih =>
      cases j with
      | zero => rw [stretch, hend, if_neg Bool.false_ne_true]
      | succ j =>
          rw [stretch, if_pos (hall 1 le_rfl (Nat.succ_pos j)),
            ih (fun k _ hk => hall (k + 1) (Nat.succ_pos k) (Nat.succ_le_succ hk)) hend
              (Nat.le_of_succ_le_succ hle)]

theorem stretch_le (p : Nat → Bool) (n : Nat) : stretch p n ≤ n := by
  induction n generalizing p with
  | zero => exact le_rfl
  | succ n ih =>
      rw [stretch]
      split
      · exact Nat.succ_le_succ (ih _)
      · exact Nat.zero_le _

theorem of_le_stretch {p : Nat → Bool} {n k : Nat} (hk : 1 ≤ k) (hle : k ≤ stretch p n) : p k := by
  induction n generalizing p k with
  | zero => exact absurd hle (Nat.not_le_of_lt hk)
  | succ n ih =>
      rw [stretch] at hle
      split at hle
      · rename_i hp
        rcases Nat.lt_or_ge 1 k with hlt | hge
        · obtain ⟨k, rfl⟩ := Nat.exists_eq_add_of_le' hk
          exact ih (p := fun k => p (k + 1)) (Nat.lt_of_succ_lt_succ hlt)
            (Nat.le_of_succ_le_succ hle)
        · obtain rfl : k = 1 := le_antisymm hge hk
          exact hp
      · exact absurd hle (Nat.not_le_of_lt hk)

theorem stretch_end {p : Nat → Bool} {n m : Nat} (hm : 1 ≤ m) (hmn : m ≤ n) (hp : p m = false) :
    p (stretch p n + 1) = false := by
  induction n generalizing p m with
  | zero => exact absurd (hm.trans hmn) (Nat.not_le_of_lt Nat.zero_lt_one)
  | succ n ih =>
      rw [stretch]
      split
      · rename_i hone
        have hlt : 1 < m := by
          refine lt_of_le_of_ne hm fun heq => ?_
          rw [← heq, hone] at hp
          cases hp
        obtain ⟨m, rfl⟩ := Nat.exists_eq_add_of_le' hm
        exact ih (p := fun k => p (k + 1)) (Nat.lt_of_succ_lt_succ hlt)
          (Nat.le_of_succ_le_succ hmn) hp
      · rename_i hone
        exact Bool.not_eq_true _ ▸ hone

theorem stretch_eq_of_end {p : Nat → Bool} {n m : Nat} (hn : 1 ≤ n) (hp : p n = false)
    (hle : n ≤ m) : stretch p m = stretch p n :=
  stretch_eq (fun _ => of_le_stretch) (stretch_end hn le_rfl hp) ((stretch_le p n).trans hle)

end JyQipai.Lib
