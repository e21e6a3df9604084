import Mathlib.Data.List.Basic
import Mathlib.Order.Nat
import JyQipai.Xiaoxiaole.Match

/-!
# The collapse

`xc_tasuo_by_moreInfoMap` moves the cells of every column down over the erased ones, in place.
-/

namespace JyQipai.Xiaoxiaole.Match

variable {map : MoreInfoMap} {y : Nat}

def stands (it : Item) : Bool := it.type ≠ 0

/-- Column `y` holds these cells from row 1 on, and nothing above them. -/
def Column (map : MoreInfoMap) (y : Nat) (cells : List Item) : Prop :=
  ∀ i, map (i + 1, y) = cells[i]?

/-- The loop has passed `pos` rows: the cells that stand of these are `left`, the rows above
hold `right`. -/
def Passed (map : MoreInfoMap) (y pos : Nat) (left right : List Item) : Prop :=
  left.length ≤ pos ∧ ∀ i, map (i + 1, y) = if i < pos then left[i]? else right[i - pos]?

theorem Passed.start {cells : List Item} (h : Column map y cells) : Passed map y 0 [] cells :=
  ⟨le_rfl, fun i => by rw [if_neg (Nat.not_lt_zero i), Nat.sub_zero, h]⟩

theorem Passed.finish {pos : Nat} {left : List Item} (h : Passed map y pos left []) :
    Column map y left := by
  intro i
  rw [h.2]
  split_ifs with hi
  · rfl
  · rw [List.getElem?_nil, List.getElem?_eq_none (by have := h.1; omega)]

theorem Passed.head {pos : Nat} {left right : List Item} (h : Passed map y pos left right) :
    map (pos + 1, y) = right[0]? := by
  rw [h.2, if_neg (Nat.lt_irrefl pos), Nat.sub_self]

theorem getElem?_cons_pred {it : Item} {right : List Item} {i : Nat} (hi : 0 < i) :
    (it :: right)[i]? = right[i - 1]? := by
  obtain ⟨i, rfl⟩ := Nat.exists_eq_add_of_le' hi
  rfl

theorem update_row {v : Option Item} {i j : Nat} :
    Function.update map (j + 1, y) v (i + 1, y) = if i = j then v else map (i + 1, y) := by
  simp only [Function.update_apply, Prod.mk.injEq, Nat.add_right_cancel_iff, and_true]

theorem Passed.erased {pos : Nat} {left right : List Item} {it : Item}
    (h : Passed map y pos left (it :: right)) :
    Passed (Function.update map (pos + 1, y) none) y (pos + 1) left right := by
  refine ⟨Nat.le_succ_of_le h.1, fun i => ?_⟩
  rw [update_row, h.2]
  rcases Nat.lt_trichotomy i pos with hi | rfl | hi
  · rw [if_neg (by omega), if_pos hi, if_pos (by omega)]
  · rw [if_pos rfl, if_pos (Nat.lt_succ_self i), List.getElem?_eq_none h.1]
  · rw [if_neg (by omega), if_neg (by omega), if_neg (by omega), getElem?_cons_pred (by omega),
      Nat.sub_sub]

theorem Passed.moved {pos : Nat} {left right : List Item} {it : Item}
    (h : Passed map y pos left (it :: right)) (hne : pos ≠ left.length) :
    Passed (Function.update (Function.update map (left.length + 1, y) (some it)) (pos + 1, y) none)
      y (pos + 1) (left ++ [it]) right := by
  have hlt : left.length < pos := lt_of_le_of_ne h.1 hne.symm
  refine ⟨by rw [List.length_append, List.length_singleton]; omega, fun i => ?_⟩
  rw [update_row, update_row, h.2]
  rcases Nat.lt_trichotomy i pos with hi | rfl | hi
  · rw [if_neg (by omega), if_pos (show i < pos + 1 by omega), if_pos hi]
    split_ifs with heq
    · rw [heq, List.getElem?_concat_length]
    · rcases Nat.lt_or_ge i left.length with hil | hil
      · rw [List.getElem?_append_left hil]
      · rw [List.getElem?_eq_none hil, List.getElem?_eq_none]
        rw [List.length_append, List.length_singleton]
        omega
  · rw [if_pos rfl, if_pos (Nat.lt_succ_self i), List.getElem?_eq_none]
    rw [List.length_append, List.length_singleton]
    omega
  · rw [if_neg (by omega), if_neg (by omega), if_neg (by omega), if_neg (by omega),
      getElem?_cons_pred (by omega), Nat.sub_sub]

theorem Passed.stayed {left right : List Item} {it : Item}
    (h : Passed map y left.length left (it :: right)) :
    Passed map y (left.length + 1) (left ++ [it]) right := by
  refine ⟨by rw [List.length_append, List.length_singleton], fun i => ?_⟩
  rw [h.2]
  rcases Nat.lt_trichotomy i left.length with hi | rfl | hi
  · rw [if_pos hi, if_pos (by omega), List.getElem?_append_left hi]
  · rw [if_neg (Nat.lt_irrefl _), if_pos (Nat.lt_succ_self _), List.getElem?_concat_length,
      Nat.sub_self]
    rfl
  · rw [if_neg (by omega), if_neg (by omega), getElem?_cons_pred (by omega), Nat.sub_sub]

theorem tasuoColumn_passed {rest pos : Nat} {left right : List Item}
    (h : Passed map y pos left right) (hrest : right.length ≤ rest) :
    Column (tasuoColumn y rest (pos + 1) (left.length + 1) map) y
      (left ++ right.filter stands) := by
  induction right generalizing rest pos left map with
  | nil =>
      rw [List.filter_nil, List.append_nil]
      cases rest with
      | zero => exact h.finish
      | succ rest =>
          rw [tasuoColumn, h.head]
          exact h.finish
  | cons it right ih =>
      cases rest with
      | zero => exact absurd hrest (Nat.not_succ_le_zero _)
      | succ rest =>
          have hrest' : right.length ≤ rest := Nat.le_of_succ_le_succ hrest
          rw [tasuoColumn, h.head]
          dsimp only [List.getElem?_cons_zero]
          by_cases hzero : it.type = 0
          · rw [if_pos hzero, List.filter_cons_of_neg (by simpa [stands] using hzero)]
            exact ih h.erased hrest'
          · have hlen : (left ++ [it]).length = left.length + 1 := by
              rw [List.length_append, List.length_singleton]
            rw [if_neg hzero, List.filter_cons_of_pos (by simpa [stands] using hzero),
              List.append_cons, ← hlen]
            by_cases hpos : pos = left.length
            · subst hpos
              rw [if_neg (by simp)]
              exact ih h.stayed hrest'
            · rw [if_pos (by simpa using hpos)]
              have hnext := ih (h.moved hpos) hrest'
              rw [hlen] at hnext ⊢
              exact hnext

theorem tasuoColumn_other {rest pos k : Nat} (hpos : 0 < pos) (hk : 0 < k) {p : Point}
    (hp : p.1 = 0 ∨ p.2 ≠ y) : tasuoColumn y rest pos k map p = map p := by
  have hne : ∀ {i}, 0 < i → p ≠ (i, y) := by
    rintro i hi rfl
    exact hp.elim hi.ne' fun h => h rfl
  induction rest generalizing pos k map with
  | zero => rfl
  | succ rest ih =>
      rw [tasuoColumn]
      cases map (pos, y) with
      | none => rfl
      | some it =>
          dsimp only
          split_ifs
          · rw [ih (Nat.succ_pos pos) hk, Function.update_of_ne (hne hpos)]
          · rw [ih (Nat.succ_pos pos) (Nat.succ_pos k), Function.update_of_ne (hne hpos),
              Function.update_of_ne (hne hk)]
          · exact ih (Nat.succ_pos pos) (Nat.succ_pos k)

structure Columns (map : MoreInfoMap) (cells : Nat → List Item) : Prop where
  column : ∀ y ∈ List.range' 1 wideMax, Column map y (cells y)
  outside : ∀ p : Point, p.1 = 0 ∨ p.2 ∉ List.range' 1 wideMax → map p = none

theorem foldl_tasuoColumn {high : Nat} {cells : Nat → List Item} {ys : List Nat} (hys : ys.Nodup)
    (hcells : ∀ y ∈ ys, Column map y (cells y)) (hhigh : ∀ y ∈ ys, (cells y).length ≤ high) :
    (∀ y ∈ ys, Column (ys.foldl (fun map y => tasuoColumn y high 1 1 map) map) y
      ((cells y).filter stands)) ∧
    ∀ p : Point, p.1 = 0 ∨ p.2 ∉ ys →
      ys.foldl (fun map y => tasuoColumn y high 1 1 map) map p = map p := by
  induction ys generalizing map with
  | nil => exact ⟨fun _ h => absurd h List.not_mem_nil, fun _ _ => rfl⟩
  | cons y ys ih =>
      obtain ⟨hy, hys⟩ := List.nodup_cons.mp hys
      have hfirst : Column (tasuoColumn y high 1 1 map) y ((cells y).filter stands) :=
        tasuoColumn_passed (Passed.start (hcells y List.mem_cons_self)) (hhigh y List.mem_cons_self)
      have hrest : ∀ z ∈ ys, Column (tasuoColumn y high 1 1 map) z (cells z) := by
        intro z hz i
        rw [tasuoColumn_other Nat.one_pos Nat.one_pos (.inr (ne_of_mem_of_not_mem hz hy))]
        exact hcells z (List.mem_cons_of_mem y hz) i
      obtain ⟨hcol, hother⟩ := ih hys hrest fun z hz => hhigh z (List.mem_cons_of_mem y hz)
      rw [List.foldl_cons]
      refine ⟨fun z hz => ?_, fun p hp => ?_⟩
      · rcases List.mem_cons.mp hz with rfl | hz
        · intro i
          rw [hother (i + 1, z) (.inr hy)]
          exact hfirst i
        · exact hcol z hz
      · rw [hother p (hp.imp_right fun h hmem => h (List.mem_cons_of_mem y hmem)),
          tasuoColumn_other Nat.one_pos Nat.one_pos
            (hp.imp_right fun h heq => h (heq ▸ List.mem_cons_self))]

theorem xcTasuo_columns {high : Nat} {cells : Nat → List Item} (h : Columns map cells)
    (hhigh : ∀ y ∈ List.range' 1 wideMax, (cells y).length ≤ high) :
    Columns (xcTasuoByMoreInfoMap high map).1 fun y => (cells y).filter stands := by
  obtain ⟨hcol, hother⟩ := foldl_tasuoColumn (List.nodup_range' ..) h.column hhigh
  exact ⟨hcol, fun p hp => (hother p hp).trans (h.outside p hp)⟩

theorem xcTasuo_filled {high : Nat} {cells : Nat → List Item}
    (h : Columns (xcTasuoByMoreInfoMap high map).1 cells) :
    (xcTasuoByMoreInfoMap high map).2 = true ↔
      ∀ y ∈ List.range' 1 wideMax, highMax ≤ (cells y).length := by
  have hcell : ∀ {x y}, y ∈ List.range' 1 wideMax →
      (((xcTasuoByMoreInfoMap high map).1 (x + 1, y)).isSome ↔ x < (cells y).length) := by
    intro x y hy
    rw [h.column y hy x]
    rw [Option.isSome_iff_ne_none, Ne, List.getElem?_eq_none_iff, not_le]
  change visible.all (fun p => ((xcTasuoByMoreInfoMap high map).1 p).isSome) = true ↔ _
  rw [List.all_eq_true]
  constructor
  · intro hall y hy
    exact (hcell hy).mp (hall (7 + 1, y) (List.pair_mem_product.mpr ⟨by decide, hy⟩))
  · rintro hlong ⟨x, y⟩ hp
    obtain ⟨hx, hy⟩ := List.pair_mem_product.mp hp
    obtain ⟨hpos, hle⟩ := List.mem_range'_1.mp hx
    obtain ⟨x, rfl⟩ := Nat.exists_eq_add_of_le' hpos
    exact (hcell hy).mpr (lt_of_lt_of_le (by omega) (hlong y hy))

/-! ## The records after a collapse -/

variable {map' : MoreInfoMap} {cells : Nat → List Item} {p : Point} {a : Item}

theorem Columns.some_iff (h : Columns map cells) :
    map p = some a ↔ ∃ i, p = (i + 1, p.2) ∧ p.2 ∈ List.range' 1 wideMax ∧
      (cells p.2)[i]? = some a := by
  constructor
  · intro ha
    by_cases hout : p.1 = 0 ∨ p.2 ∉ List.range' 1 wideMax
    · rw [h.outside p hout] at ha
      cases ha
    · rw [not_or, not_not] at hout
      obtain ⟨i, hi⟩ := Nat.exists_eq_succ_of_ne_zero hout.1
      have hp : p = (i + 1, p.2) := Prod.ext hi rfl
      refine ⟨i, hp, hout.2, ?_⟩
      rw [hp] at ha
      rw [← h.column p.2 hout.2 i, ha]
  · rintro ⟨i, hp, hy, hi⟩
    rw [hp, h.column p.2 hy i, hi]

theorem Columns.stood (h : Columns map cells)
    (h' : Columns map' fun y => (cells y).filter stands) (ha : map' p = some a) :
    stands a ∧ ∃ q : Point, q.2 = p.2 ∧ map q = some a := by
  obtain ⟨i, -, hy, hi⟩ := h'.some_iff.mp ha
  obtain ⟨hmem, hstands⟩ := List.mem_filter.mp (List.mem_of_getElem? hi)
  obtain ⟨j, hj⟩ := List.mem_iff_getElem?.mp hmem
  exact ⟨hstands, (j + 1, p.2), rfl, h.some_iff.mpr ⟨j, rfl, hy, hj⟩⟩

theorem Columns.remains (h : Columns map cells)
    (h' : Columns map' fun y => (cells y).filter stands) (ha : map p = some a)
    (hstands : stands a) : ∃ q, map' q = some a := by
  obtain ⟨i, -, hy, hi⟩ := h.some_iff.mp ha
  obtain ⟨j, hj⟩ := List.mem_iff_getElem?.mp
    (List.mem_filter.mpr ⟨List.mem_of_getElem? hi, hstands⟩)
  exact ⟨(j + 1, p.2), h'.some_iff.mpr ⟨j, rfl, hy, hj⟩⟩

def UniqueNos (map : MoreInfoMap) : Prop :=
  ∀ ⦃p q a b⦄, map p = some a → map q = some b → a.no = b.no → p = q

theorem Columns.pairwise (h : Columns map cells) (hunique : UniqueNos map)
    (hy : y ∈ List.range' 1 wideMax) : (cells y).Pairwise fun a b => a.no ≠ b.no := by
  rw [List.pairwise_iff_getElem]
  intro i j hi hj hij hno
  have hat : ∀ {k} (hk : k < (cells y).length), map (k + 1, y) = some (cells y)[k] := fun hk => by
    rw [h.column y hy, List.getElem?_eq_getElem hk]
  have hpoint := congrArg Prod.fst (hunique (hat hi) (hat hj) hno)
  exact hij.ne (Nat.add_right_cancel hpoint)

theorem Columns.unique (h : Columns map cells)
    (h' : Columns map' fun y => (cells y).filter stands) (hunique : UniqueNos map) :
    UniqueNos map' := by
  intro p q a b ha hb hno
  obtain ⟨-, p₀, hp₀, ha₀⟩ := h.stood h' ha
  obtain ⟨-, q₀, hq₀, hb₀⟩ := h.stood h' hb
  have hcol : p.2 = q.2 := hp₀.symm.trans ((congrArg Prod.snd (hunique ha₀ hb₀ hno)).trans hq₀)
  obtain ⟨i, hp, hy, hi⟩ := h'.some_iff.mp ha
  obtain ⟨j, hq, -, hj⟩ := h'.some_iff.mp hb
  rw [← hcol] at hj
  obtain ⟨hil, rfl⟩ := List.getElem?_eq_some_iff.mp hi
  obtain ⟨hjl, rfl⟩ := List.getElem?_eq_some_iff.mp hj
  have hpair := List.pairwise_iff_getElem.mp ((h.pairwise hunique hy).filter stands)
  rcases Nat.lt_trichotomy i j with hij | rfl | hij
  · exact absurd hno (hpair i j hil hjl hij)
  · rw [hp, hq, hcol]
  · exact absurd hno.symm (hpair j i hjl hil hij)

end JyQipai.Xiaoxiaole.Match
