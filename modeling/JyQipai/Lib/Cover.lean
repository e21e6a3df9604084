import Mathlib

/-!
# Covers of a multiset

A list of items whose parts make up a multiset, which is given by its counts.  What a search has
to know: an item of a cover fits, and the others cover what it leaves.
-/

namespace JyQipai.Lib

variable {α κ : Type} [DecidableEq κ] (parts : α → List κ)

def Covers (m : κ → Nat) (l : List α) : Prop := ∀ t, (l.flatMap parts).count t = m t

def Fits (m : κ → Nat) (v : α) : Prop := ∀ t, (parts v).count t ≤ m t

def without (m : κ → Nat) (v : α) : κ → Nat := fun t => m t - (parts v).count t

variable {parts} {m : κ → Nat} {v : α} {l l' : List α}

namespace Covers

theorem nil_iff : Covers parts m [] ↔ ∀ t, m t = 0 := by
  constructor
  · intro h t
    exact (h t).symm
  · intro h t
    exact (h t).symm

theorem perm (h : Covers parts m l) (hl : l.Perm l') : Covers parts m l' := by
  intro t
  rw [← h t]
  exact ((hl.flatMap_right parts).count_eq t).symm

theorem cons_iff :
    Covers parts m (v :: l) ↔ Fits parts m v ∧ Covers parts (without parts m v) l := by
  have hcons : ∀ t, ((v :: l).flatMap parts).count t =
      (parts v).count t + (l.flatMap parts).count t := by
    intro t
    rw [List.flatMap_cons, List.count_append]
  constructor
  · intro h
    refine ⟨fun t => ?_, fun t => ?_⟩
    · rw [← h t, hcons]
      exact Nat.le_add_right _ _
    · rw [without, ← h t, hcons, Nat.add_sub_cancel_left]
  · rintro ⟨hfits, hcover⟩ t
    rw [hcons, hcover t, without, Nat.add_sub_cancel' (hfits t)]

theorem exists_mem (h : Covers parts m l) {t : κ} (ht : m t ≠ 0) : ∃ v ∈ l, t ∈ parts v := by
  rw [← h t] at ht
  exact List.mem_flatMap.mp (List.count_pos_iff.mp (Nat.pos_of_ne_zero ht))

theorem count_ne_zero (h : Covers parts m l) (hv : v ∈ l) {t : κ} (ht : t ∈ parts v) :
    m t ≠ 0 := by
  rw [← h t]
  exact (List.count_pos_iff.mpr (List.mem_flatMap.mpr ⟨v, hv, ht⟩)).ne'

theorem length (h : Covers parts m l) {s : Finset κ} (hs : ∀ t, m t ≠ 0 → t ∈ s) :
    (l.flatMap parts).length = ∑ t ∈ s, m t := by
  have hmem : ∀ t ∈ (l.flatMap parts : Multiset κ), t ∈ s := by
    intro t ht
    apply hs
    rw [← h t]
    exact (List.count_pos_iff.mpr (Multiset.mem_coe.mp ht)).ne'
  rw [← Multiset.coe_card, ← Multiset.sum_count_eq_card hmem]
  exact Finset.sum_congr rfl fun t _ => by rw [Multiset.coe_count, h t]

end Covers

theorem Fits.sum_without (h : Fits parts m v) {s : Finset κ} (hs : ∀ t, m t ≠ 0 → t ∈ s) :
    ∑ t ∈ s, without parts m v t + (parts v).length = ∑ t ∈ s, m t := by
  have hmem : ∀ t ∈ (parts v : Multiset κ), t ∈ s := by
    intro t ht
    have hpos := List.count_pos_iff.mpr (Multiset.mem_coe.mp ht)
    exact hs t (Nat.ne_of_gt (hpos.trans_le (h t)))
  rw [← Multiset.coe_card, ← Multiset.sum_count_eq_card hmem, ← Finset.sum_add_distrib]
  refine Finset.sum_congr rfl fun t _ => ?_
  rw [Multiset.coe_count, without, Nat.sub_add_cancel (h t)]

end JyQipai.Lib
