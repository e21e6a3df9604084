import Mathlib

/-!
# The nearest element of a set

The largest element that is not above a given one, and where there is none the smallest of
all.
-/

namespace JyQipai.Lib

variable {α : Type*} [LinearOrder α]

def IsNearest (S : Set α) (w k : α) : Prop :=
  IsGreatest (S ∩ Set.Iic w) k ∨ (∀ j ∈ S, w < j) ∧ IsLeast S k

namespace IsNearest

variable {S : Set α} {w r j k : α}

theorem mem (h : IsNearest S w k) : k ∈ S := by
  rcases h with h | ⟨-, h⟩
  · exact h.1.1
  · exact h.1

theorem of_mem (h : w ∈ S) : IsNearest S w w :=
  .inl ⟨⟨h, le_rfl⟩, fun _ hj => hj.2⟩

theorem not_mem_of_lt (h : IsNearest S w k) (hk : k < j) (hj : j ≤ w) : j ∉ S := by
  intro hmem
  rcases h with h | ⟨hall, -⟩
  · exact absurd (h.2 ⟨hmem, hj⟩) (not_le.mpr hk)
  · exact absurd (hall j hmem) (not_lt.mpr hj)

theorem not_mem_of_le (h : IsNearest S w k) (hw : w < k) (hj : j < k) : j ∉ S := by
  intro hmem
  rcases h with h | ⟨-, h⟩
  · exact absurd h.1.2 (not_le.mpr hw)
  · exact absurd (h.2 hmem) (not_le.mpr hj)

theorem le_of_le (h : IsNearest S w k) (hj : j ∈ S) (hr : j ≤ r)
    (hall : ∀ i ∈ S, i ≤ w → i ≤ r) : k ≤ r := by
  rcases h with h | ⟨-, h⟩
  · exact hall k h.1.1 h.1.2
  · exact (h.2 hj).trans hr

theorem le_of_le_self (h : IsNearest S w k) (hj : j ∈ S) (hw : j ≤ w) : j ≤ k := by
  rcases h with h | ⟨hall, -⟩
  · exact h.2 ⟨hj, hw⟩
  · exact absurd (hall j hj) (not_lt.mpr hw)

end IsNearest

theorem exists_isNearest {S : Set α} (hfin : S.Finite) (hne : S.Nonempty) (w : α) :
    ∃ k, IsNearest S w k := by
  by_cases hlow : (S ∩ Set.Iic w).Nonempty
  · obtain ⟨k, hk, hmax⟩ := Set.exists_max_image _ id (hfin.inter_of_left _) hlow
    exact ⟨k, .inl ⟨hk, fun j hj => hmax j hj⟩⟩
  · obtain ⟨k, hk, hmin⟩ := Set.exists_min_image S id hfin hne
    refine ⟨k, .inr ⟨fun j hj => ?_, hk, fun j hj => hmin j hj⟩⟩
    exact not_le.mp fun hle => hlow ⟨j, hj, hle⟩

end JyQipai.Lib
