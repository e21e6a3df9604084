import Mathlib.Order.Bounds.Basic
import Mathlib.Order.Defs.LinearOrder
import Mathlib.Data.List.Sort

/-!
# `basefunc.math.findrange`

The bisection keeps two bounds.  It compares the value with the element in the middle, and with
the element at the upper bound only when the bounds are next to each other.
-/

namespace JyQipai.Basefunc

variable {α : Type}

def findrangeLoop (compfunc : α → α → Bool) (vec : List α) (var : α) :
    Nat → Nat → Nat → Option Nat
  | 0, _, _ => none
  | turns + 1, i1, i2 =>
      let i := (i1 + i2) / 2
      vec[i - 1]?.bind fun x =>
        if compfunc var x then
          if i = i1 then some 0 else findrangeLoop compfunc vec var turns i1 i
        else if i = i1 then
          if i1 = i2 then some i1
          else vec[i2 - 1]?.map fun x => if compfunc x var then i2 else i1
        else findrangeLoop compfunc vec var turns i i2

variable [LinearOrder α]

def findrange (vec : List α) (var : α) : Option Nat :=
  if vec = [] then none
  else findrangeLoop (fun v1 v2 => v1 < v2) vec var vec.length 1 vec.length

/-- The largest index of an element that is at most `var`, or 0 if the first is larger. -/
def LargestAtMost (vec : List α) (var : α) (i : Nat) : Prop :=
  (i = 0 ∧ ∀ x ∈ vec.head?, var < x) ∨
    IsGreatest {i | 1 ≤ i ∧ ∃ x ∈ vec[i - 1]?, x ≤ var} i

variable {vec : List α} {var : α} {i i1 i2 turns : Nat}

structure Found (vec : List α) (var : α) (i : Nat) : Prop where
  zero : i = 0 → ∀ x ∈ vec.head?, var < x
  le : ∀ x ∈ vec[i - 1]?, i ≠ 0 → x ≤ var
  bound : i ≤ vec.length
  /-- the last index is found only if the last element is smaller -/
  last : i = vec.length → i = 1 ∨ ∀ x ∈ vec[i - 1]?, i ≠ 0 → x < var
  /-- the next element is larger, or it is the last and the same -/
  next : ∀ x ∈ vec[i]?, i ≠ 0 → var < x ∨ var = x ∧ i + 1 = vec.length

structure Bounds (vec : List α) (var : α) (i1 i2 : Nat) : Prop where
  pos : 1 ≤ i1
  le : i1 ≤ i2
  length : i2 ≤ vec.length
  apart : i1 = i2 → vec.length = 1
  lower : i1 = 1 ∨ ∀ x ∈ vec[i1 - 1]?, x ≤ var
  upper : i2 = vec.length ∨ ∀ x ∈ vec[i2 - 1]?, var < x

theorem bounds_start (h : vec ≠ []) (var : α) : Bounds vec var 1 vec.length where
  pos := le_rfl
  le := List.length_pos_iff.mpr h
  length := le_rfl
  apart := Eq.symm
  lower := .inl rfl
  upper := .inl rfl

theorem findrangeLoop_found (h : Bounds vec var i1 i2) (hturns : i2 - i1 < turns) :
    ∃ i, findrangeLoop (fun v1 v2 => v1 < v2) vec var turns i1 i2 = some i ∧ Found vec var i := by
  induction turns generalizing i1 i2 with
  | zero => exact absurd hturns (Nat.not_lt_zero _)
  | succ turns ih =>
      obtain ⟨hpos, hle, hlength, hapart, hlower, hupper⟩ := h
      unfold findrangeLoop
      dsimp only
      generalize hi : (i1 + i2) / 2 = i
      have hlt : i - 1 < vec.length := by omega
      rw [List.getElem?_eq_getElem hlt, Option.bind_some]
      by_cases hvar : var < vec[i - 1]
      · rw [if_pos (decide_eq_true hvar)]
        split
        · rename_i heq
          subst heq
          -- only the first element is larger
          rcases hlower with rfl | hlower
          · refine ⟨0, rfl, fun _ x hx => ?_, by simp, Nat.zero_le _, by omega, by simp⟩
            rw [List.head?_eq_getElem?, List.getElem?_eq_getElem hlt] at hx
            obtain rfl := Option.some.inj hx
            exact hvar
          · exact absurd (hlower _ (List.getElem?_eq_getElem hlt)) (not_le.mpr hvar)
        · refine ih ⟨hpos, by omega, by omega, by omega, hlower, .inr fun x hx => ?_⟩ (by omega)
          rw [List.getElem?_eq_getElem hlt] at hx
          obtain rfl := Option.some.inj hx
          exact hvar
      · have hxle : ∀ x ∈ vec[i - 1]?, x ≤ var := by
          intro x hx
          rw [List.getElem?_eq_getElem hlt] at hx
          obtain rfl := Option.some.inj hx
          exact not_lt.mp hvar
        rw [if_neg (by simpa using hvar)]
        split
        · rename_i heq
          subst heq
          split
          · rename_i heq
            subst heq
            have hone := hapart rfl
            refine ⟨i, rfl, by omega, fun x hx _ => hxle x hx, hlength, fun _ => .inl (by omega),
              fun x hx => ?_⟩
            rw [List.getElem?_eq_none (by omega)] at hx
            cases hx
          · have hnext : i2 = i + 1 := by omega
            subst hnext
            have hlt' : i + 1 - 1 < vec.length := by omega
            rw [List.getElem?_eq_getElem hlt', Option.map_some]
            by_cases hless : vec[i + 1 - 1] < var
            · -- the upper bound has not moved
              have hend : i + 1 = vec.length := hupper.resolve_right fun hup =>
                absurd (hup _ (List.getElem?_eq_getElem hlt')) (not_lt.mpr hless.le)
              have hxlt : ∀ x ∈ vec[i + 1 - 1]?, x < var := by
                intro x hx
                rw [List.getElem?_eq_getElem hlt'] at hx
                obtain rfl := Option.some.inj hx
                exact hless
              rw [if_pos (decide_eq_true hless)]
              refine ⟨i + 1, rfl, by omega, fun x hx _ => (hxlt x hx).le, hlength,
                fun _ => .inr fun x hx _ => hxlt x hx, fun x hx => ?_⟩
              rw [List.getElem?_eq_none (by omega)] at hx
              cases hx
            · rw [if_neg (by simpa using hless)]
              refine ⟨i, rfl, by omega, fun x hx _ => hxle x hx, by omega, by omega,
                fun x hx _ => ?_⟩
              rcases hupper with hend | hup
              · have hx' : x ∈ vec[i + 1 - 1]? := hx
                rw [List.getElem?_eq_getElem hlt'] at hx'
                obtain rfl := Option.some.inj hx'
                rcases (not_lt.mp hless).lt_or_eq with hlt | heq
                · exact .inl hlt
                · exact .inr ⟨heq, hend⟩
              · exact .inl (hup x hx)
        · exact ih ⟨by omega, by omega, hlength, by omega, .inr hxle, hupper⟩ (by omega)

omit [LinearOrder α] in
theorem getLast?_eq_getElem? (h : i + 1 = vec.length) : vec.getLast? = vec[i]? := by
  rw [List.getLast?_eq_getElem?, ← h, Nat.add_sub_cancel]

theorem Found.largest (h : Found vec var i) (hsorted : vec.Pairwise (· ≤ ·))
    (hlast : vec.length = 1 ∨ vec.getLast? ≠ some var) : LargestAtMost vec var i := by
  rcases Nat.eq_zero_or_pos i with rfl | hi
  · exact .inl ⟨rfl, h.zero rfl⟩
  · have hlt : i - 1 < vec.length := by
      have hbound := h.bound
      omega
    refine .inr ⟨⟨hi, _, List.getElem?_eq_getElem hlt, ?_⟩, ?_⟩
    · exact h.le _ (List.getElem?_eq_getElem hlt) hi.ne'
    · rintro j ⟨-, y, hy, hle⟩
      by_contra hij
      obtain ⟨hj, rfl⟩ := List.getElem?_eq_some_iff.mp hy
      have hi' : i < vec.length := by omega
      have hmono : vec[i] ≤ vec[j - 1] := by
        rcases Nat.lt_or_eq_of_le (show i ≤ j - 1 by omega) with hlt | heq
        · exact List.pairwise_iff_getElem.mp hsorted i (j - 1) hi' hj hlt
        · simp [heq]
      rcases h.next _ (List.getElem?_eq_getElem hi') hi.ne' with hlarge | ⟨hsame, hend⟩
      · exact absurd (hmono.trans hle) (not_le.mpr hlarge)
      · rcases hlast with hone | hne
        · omega
        · rw [getLast?_eq_getElem? hend, List.getElem?_eq_getElem hi', hsame] at hne
          exact hne rfl

theorem Found.not_largest (h : Found vec var i) (hsorted : vec.Pairwise (· ≤ ·))
    (hlen : vec.length ≠ 1) (hlast : vec.getLast? = some var) : ¬LargestAtMost vec var i := by
  have hne : vec ≠ [] := by
    rintro rfl
    cases hlast
  have hpos := List.length_pos_iff.mpr hne
  rw [getLast?_eq_getElem? (i := vec.length - 1) (by omega)] at hlast
  rintro (⟨-, hfirst⟩ | hgreatest)
  · obtain ⟨hlt, hvar⟩ := List.getElem?_eq_some_iff.mp hlast
    have hmono := List.pairwise_iff_getElem.mp hsorted 0 (vec.length - 1) hpos hlt (by omega)
    have hless := hfirst vec[0] (by rw [List.head?_eq_getElem?, List.getElem?_eq_getElem hpos]; rfl)
    rw [hvar] at hmono
    exact absurd hless (not_lt.mpr hmono)
  · have hend : i = vec.length := by
      refine le_antisymm h.bound (hgreatest.2 ⟨hpos, var, hlast, le_rfl⟩)
    rcases h.last hend with hone | hless
    · omega
    · rw [← hend] at hlast
      exact lt_irrefl _ (hless var hlast (by omega))

/-- The search ends, and it finds the largest index unless the value is the last one of several
elements. -/
theorem findrange_iff (hne : vec ≠ []) (hsorted : vec.Pairwise (· ≤ ·)) (var : α) :
    (findrange vec var).isSome ∧
      ((∃ i, findrange vec var = some i ∧ LargestAtMost vec var i) ↔
        vec.length = 1 ∨ vec.getLast? ≠ some var) := by
  obtain ⟨i, hi, hfound⟩ := findrangeLoop_found (bounds_start hne var)
    (Nat.sub_lt (List.length_pos_iff.mpr hne) Nat.one_pos)
  rw [findrange, if_neg hne, hi]
  refine ⟨rfl, ?_, fun hlast => ⟨i, rfl, hfound.largest hsorted hlast⟩⟩
  rintro ⟨j, hj, hlargest⟩
  obtain rfl := Option.some.inj hj
  by_contra hnot
  rw [not_or, not_not] at hnot
  exact hfound.not_largest hsorted hnot.1 hnot.2 hlargest

theorem findrange_iff_repeated : (findrange [1, 2, 2, 5] 2).isSome ∧
    ((∃ i, findrange [1, 2, 2, 5] 2 = some i ∧ LargestAtMost [1, 2, 2, 5] 2 i) ↔
      [1, 2, 2, 5].length = 1 ∨ [1, 2, 2, 5].getLast? ≠ some 2) :=
  findrange_iff (by decide) (by decide) 2

/-- The last of two elements is taken for the first. -/
theorem findrange_last : ¬∀ (vec : List ℕ), vec ≠ [] → vec.Pairwise (· ≤ ·) → ∀ var,
    ∃ i, findrange vec var = some i ∧ LargestAtMost vec var i := by
  intro h
  obtain ⟨i, hi, hlargest⟩ := h [1, 2] (by decide) (by decide) 2
  obtain rfl : 1 = i := Option.some.inj hi
  rcases hlargest with ⟨hzero, -⟩ | hgreatest
  · cases hzero
  · exact absurd (hgreatest.2 ⟨by decide, 2, rfl, le_rfl⟩ : 2 ≤ 1) (by decide)

end JyQipai.Basefunc
