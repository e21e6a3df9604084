import Mathlib.Algebra.Order.BigOperators.Group.List
import Mathlib.Data.List.Pairwise
import Mathlib.Data.List.Nodup

/-!
# Splits of a sum

A sum is split into a number of parts that are taken from a list and do not increase.  The splits
are listed with the first part that occurs earliest in the list first.
-/

namespace JyQipai.Lib

variable {M : Type*} [AddCommGroup M]

/-- The splits with any of the parts as the first one; `next` gives those of what is left. -/
def splitsLevel (next : List M → M → List (List M)) (value : M) : List M → List (List M)
  | [] => []
  | a :: rest =>
      (next (a :: rest) (value - a)).map (fun more => a :: more) ++ splitsLevel next value rest

def splits [DecidableEq M] : Nat → List M → M → List (List M)
  | 0, _, value => if value = 0 then [[]] else []
  | n + 1, parts, value => splitsLevel (splits n) value parts

theorem mem_splitsLevel {next : List M → M → List (List M)} {value : M} {parts l : List M} :
    l ∈ splitsLevel next value parts ↔ ∃ front a rest more, parts = front ++ a :: rest ∧
      more ∈ next (a :: rest) (value - a) ∧ l = a :: more := by
  induction parts with
  | nil =>
      refine iff_of_false List.not_mem_nil ?_
      rintro ⟨front, a, rest, more, hparts, -⟩
      cases front <;> cases hparts
  | cons b parts ih =>
      rw [splitsLevel, List.mem_append, List.mem_map, ih]
      constructor
      · rintro (⟨more, hmore, rfl⟩ | ⟨front, a, rest, more, rfl, hmore, rfl⟩)
        · exact ⟨[], b, parts, more, rfl, hmore, rfl⟩
        · exact ⟨b :: front, a, rest, more, rfl, hmore, rfl⟩
      · rintro ⟨front, a, rest, more, hparts, hmore, rfl⟩
        cases front with
        | nil =>
            cases hparts
            exact .inl ⟨more, hmore, rfl⟩
        | cons c front =>
            cases hparts
            exact .inr ⟨front, a, rest, more, rfl, hmore, rfl⟩

variable [DecidableEq M]

theorem of_mem_splits {n : Nat} {parts l : List M} {value : M} (h : l ∈ splits n parts value) :
    l.length = n ∧ l.sum = value ∧ ∀ x ∈ l, x ∈ parts := by
  induction n generalizing parts value l with
  | zero =>
      rw [splits] at h
      split at h
      · obtain rfl := List.mem_singleton.mp h
        exact ⟨rfl, Eq.symm ‹_›, by simp⟩
      · cases h
  | succ n ih =>
      obtain ⟨front, a, rest, more, rfl, hmore, rfl⟩ := mem_splitsLevel.mp h
      obtain ⟨hlength, hsum, hmem⟩ := ih hmore
      refine ⟨by rw [List.length_cons, hlength], by rw [List.sum_cons, hsum, add_sub_cancel], ?_⟩
      intro x hx
      refine List.mem_append_right front ?_
      rcases List.mem_cons.mp hx with rfl | hx
      · exact List.mem_cons_self
      · exact hmem x hx

variable [LinearOrder M]

omit [AddCommGroup M] [DecidableEq M] in
theorem mem_from_iff {front rest : List M} {a x : M}
    (hparts : (front ++ a :: rest).Pairwise (· > ·)) :
    x ∈ a :: rest ↔ x ∈ front ++ a :: rest ∧ x ≤ a := by
  obtain ⟨-, hrest, hcross⟩ := List.pairwise_append.mp hparts
  have hbelow := (List.pairwise_cons.mp hrest).1
  rw [List.mem_append]
  constructor
  · intro hx
    refine ⟨.inr hx, ?_⟩
    rcases List.mem_cons.mp hx with rfl | hx
    · exact le_rfl
    · exact (hbelow x hx).le
  · rintro ⟨hx | hx, hle⟩
    · exact absurd (hcross x hx a List.mem_cons_self) (not_lt.mpr hle)
    · exact hx

theorem mem_splits {n : Nat} {parts l : List M} {value : M} (hparts : parts.Pairwise (· > ·)) :
    l ∈ splits n parts value ↔
      l.length = n ∧ l.sum = value ∧ (∀ x ∈ l, x ∈ parts) ∧ l.Pairwise (· ≥ ·) := by
  induction n generalizing parts value l with
  | zero =>
      rw [splits, List.length_eq_zero_iff]
      split
      · rename_i hzero
        rw [List.mem_singleton]
        refine ⟨?_, And.left⟩
        rintro rfl
        exact ⟨rfl, hzero.symm, by simp, .nil⟩
      · rename_i hne
        refine iff_of_false List.not_mem_nil ?_
        rintro ⟨rfl, hsum, -⟩
        exact hne hsum.symm
  | succ n ih =>
      rw [splits, mem_splitsLevel]
      constructor
      · rintro ⟨front, a, rest, more, rfl, hmore, rfl⟩
        have hrest := (List.pairwise_append.mp hparts).2.1
        obtain ⟨hlength, hsum, hmem, hpair⟩ := (ih hrest).mp hmore
        have hle (x : M) (hx : x ∈ more) := (mem_from_iff hparts).mp (hmem x hx)
        refine ⟨by rw [List.length_cons, hlength], by rw [List.sum_cons, hsum, add_sub_cancel], ?_,
          List.pairwise_cons.mpr ⟨fun x hx => (hle x hx).2, hpair⟩⟩
        intro x hx
        rcases List.mem_cons.mp hx with rfl | hx
        · exact List.mem_append_right front List.mem_cons_self
        · exact (hle x hx).1
      · rintro ⟨hlength, hsum, hmem, hpair⟩
        cases l with
        | nil => cases hlength
        | cons a more =>
            obtain ⟨front, rest, rfl⟩ := List.append_of_mem (hmem a List.mem_cons_self)
            obtain ⟨hle, hpair⟩ := List.pairwise_cons.mp hpair
            refine ⟨front, a, rest, more, rfl, (ih (List.pairwise_append.mp hparts).2.1).mpr
              ⟨Nat.succ_inj.mp hlength, ?_, ?_, hpair⟩, rfl⟩
            · rw [← hsum, List.sum_cons, add_sub_cancel_left]
            · intro x hx
              exact (mem_from_iff hparts).mpr ⟨hmem x (List.mem_cons_of_mem a hx), hle x hx⟩

theorem nodup_splits {n : Nat} {parts : List M} {value : M} (hparts : parts.Pairwise (· > ·)) :
    (splits n parts value).Nodup := by
  induction n generalizing parts value with
  | zero =>
      rw [splits]
      split
      · exact List.nodup_singleton _
      · exact List.nodup_nil
  | succ n ih =>
      rw [splits]
      induction parts with
      | nil => exact List.nodup_nil
      | cons a rest ihrest =>
          rw [splitsLevel]
          refine List.nodup_append.mpr ⟨(ih hparts).map fun _ _ h => (List.cons.inj h).2,
            ihrest (List.pairwise_cons.mp hparts).2, ?_⟩
          intro l hl l' hl' heq
          obtain ⟨more, -, rfl⟩ := List.mem_map.mp hl
          obtain ⟨front, b, rest', more', rfl, -, rfl⟩ := mem_splitsLevel.mp hl'
          have hlt := (List.pairwise_cons.mp hparts).1 b
            (List.mem_append_right front List.mem_cons_self)
          exact absurd (List.cons.inj heq).1 hlt.ne'

theorem splits_eq_nil [IsOrderedAddMonoid M] {n : Nat} {parts : List M} {value : M}
    (hparts : ∀ x ∈ parts, 0 ≤ x) (hvalue : value < 0) : splits n parts value = [] := by
  refine List.eq_nil_iff_forall_not_mem.mpr fun l hl => ?_
  obtain ⟨-, hsum, hmem⟩ := of_mem_splits hl
  have hnonneg := List.sum_nonneg fun x hx => hparts x (hmem x hx)
  rw [hsum] at hnonneg
  exact absurd hvalue (not_lt.mpr hnonneg)

end JyQipai.Lib
