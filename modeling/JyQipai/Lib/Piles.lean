import Mathlib

/-!
# Piles of distinct things

A list of finite sets splits a multiset if together they hold each of its
elements exactly once.  Moving elements between piles changes two summands of
one sum.
-/

namespace JyQipai.Lib

variable {α M : Type*}

theorem sum_map_update [DecidableEq α] [AddCommMonoid M] {l : List α} (hl : l.Nodup) {a : α}
    (ha : a ∈ l) (f : α → M) (v : M) :
    (l.map (Function.update f a v)).sum + f a = (l.map f).sum + v := by
  have hrest : (l.erase a).map (Function.update f a v) = (l.erase a).map f := by
    refine List.map_congr_left fun b hb => Function.update_of_ne ?_ _ _
    rintro rfl
    exact hl.not_mem_erase hb
  rw [← List.sum_map_erase f ha, ← List.sum_map_erase (Function.update f a v) ha,
    hrest, Function.update_self]
  abel

/-- Together the piles hold each element of `D` exactly once. -/
def Splits (D : Multiset α) (piles : List (Finset α)) : Prop :=
  (piles.map Finset.val).sum = D

theorem mem_sum_piles {piles : List (Finset α)} {x : α} :
    x ∈ (piles.map Finset.val).sum ↔ ∃ p ∈ piles, x ∈ p := by
  induction piles with
  | nil => simp
  | cons p piles ih => simp [ih]

theorem Splits.mem_iff {D : Multiset α} {piles : List (Finset α)}
    (h : Splits D piles) (x : α) : x ∈ D ↔ ∃ p ∈ piles, x ∈ p := by
  rw [← h]
  exact mem_sum_piles

theorem Splits.pairwise_disjoint {D : Multiset α} {piles : List (Finset α)}
    (h : Splits D piles) (hD : D.Nodup) : piles.Pairwise Disjoint := by
  unfold Splits at h
  subst h
  induction piles with
  | nil => exact .nil
  | cons p piles ih =>
      rw [List.map_cons, List.sum_cons, Multiset.nodup_add] at hD
      obtain ⟨-, hrest, hdisj⟩ := hD
      refine .cons (fun q hq => ?_) (ih hrest)
      rw [Finset.disjoint_left]
      intro x hp hx
      exact Multiset.disjoint_left.mp hdisj hp (mem_sum_piles.mpr ⟨q, hq, hx⟩)

theorem val_eq_sdiff_add [DecidableEq α] {s t : Finset α} (h : t ⊆ s) :
    s.val = (s \ t).val + t.val := by
  rw [Finset.sdiff_val, Multiset.sub_add_cancel (Finset.val_le_iff.mpr h)]

theorem val_union [DecidableEq α] {s t : Finset α} (h : Disjoint s t) :
    (s ∪ t).val = s.val + t.val := by
  rw [← Finset.disjUnion_eq_union s t h]
  rfl

end JyQipai.Lib
