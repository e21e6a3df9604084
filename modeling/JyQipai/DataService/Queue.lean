import Mathlib

/-!
# `basefunc.queue`

The elements stand in a table from `_front` to `_back`.  `toList` reads them in this
order, and the operations act on that list.
-/

namespace JyQipai.DataService

/-- The fields of the class; `stored` says that there are no gaps. -/
structure Queue (α : Type) where
  elem : Int → Option α
  front : Int
  back : Int
  range : front ≤ back + 1
  stored : ∀ i, (elem i).isSome ↔ front ≤ i ∧ i ≤ back

namespace Queue

variable {α : Type}

def new : Queue α where
  elem _ := none
  front := 0
  back := -1
  range := by decide
  stored i := by
    simp only [Option.isSome_none, Bool.false_eq_true, false_iff]
    omega

def size (q : Queue α) : Int := q.back - q.front + 1

def empty (q : Queue α) : Bool := q.front > q.back

def pushBack (q : Queue α) (obj : α) : Queue α where
  elem := Function.update q.elem (q.back + 1) (some obj)
  front := q.front
  back := q.back + 1
  range := by
    have := q.range
    omega
  stored i := by
    have hrange := q.range
    by_cases hi : i = q.back + 1
    · subst hi
      simp only [Function.update_self, Option.isSome_some, true_iff]
      omega
    · rw [Function.update_of_ne hi, q.stored]
      omega

def popFront (q : Queue α) : Option α × Queue α :=
  if h : q.front > q.back then (none, q)
  else
    (q.elem q.front,
      { elem := Function.update q.elem q.front none
        front := q.front + 1
        back := q.back
        range := by omega
        stored := by
          intro i
          by_cases hi : i = q.front
          · subst hi
            simp only [Function.update_self, Option.isSome_none, Bool.false_eq_true, false_iff]
            omega
          · rw [Function.update_of_ne hi, q.stored]
            omega })

/-! ## The list of the elements -/

def values (elem : Int → Option α) : Nat → Int → List α
  | 0, _ => []
  | n + 1, i => (elem i).toList ++ values elem n (i + 1)

def toList (q : Queue α) : List α := values q.elem q.size.toNat q.front

theorem values_congr {f g : Int → Option α} {n : Nat} {i : Int}
    (h : ∀ j, i ≤ j → j < i + n → f j = g j) : values f n i = values g n i := by
  induction n generalizing i with
  | zero => rfl
  | succ n ih =>
      have hfirst := h i (by omega) (by omega)
      have hrest := ih (i := i + 1) fun j hle hlt => h j (by omega) (by omega)
      rw [values, values, hfirst, hrest]

theorem values_succ (elem : Int → Option α) (n : Nat) (i : Int) :
    values elem (n + 1) i = values elem n i ++ (elem (i + n)).toList := by
  induction n generalizing i with
  | zero => simp [values]
  | succ n ih =>
      rw [values, ih, values, List.append_assoc]
      have hpos : i + 1 + (n : Int) = i + (n + 1 : Nat) := by omega
      rw [hpos]

theorem toList_new : (new : Queue α).toList = [] := rfl

theorem toList_pushBack (q : Queue α) (obj : α) :
    (q.pushBack obj).toList = q.toList ++ [obj] := by
  have hrange := q.range
  have hsize : (q.pushBack obj).size.toNat = q.size.toNat + 1 := by
    change (q.back + 1 - q.front + 1).toNat = (q.back - q.front + 1).toNat + 1
    omega
  have hlast : q.front + (q.size.toNat : Int) = q.back + 1 := by
    change q.front + ((q.back - q.front + 1).toNat : Int) = q.back + 1
    omega
  have hkeep : values (q.pushBack obj).elem q.size.toNat q.front = q.toList := by
    refine values_congr fun j _ hlt => Function.update_of_ne ?_ _ _
    omega
  have hobj : (q.pushBack obj).elem (q.back + 1) = some obj := Function.update_self ..
  rw [toList, hsize, values_succ]
  change values (q.pushBack obj).elem q.size.toNat q.front ++
    ((q.pushBack obj).elem (q.front + (q.size.toNat : Int))).toList = _
  rw [hkeep, hlast, hobj, Option.toList_some]

theorem empty_iff (q : Queue α) : q.empty = true ↔ q.toList = [] := by
  unfold empty toList
  rw [decide_eq_true_iff]
  have hrange := q.range
  constructor
  · intro h
    have hsize : q.size.toNat = 0 := by
      unfold size
      omega
    rw [hsize]
    rfl
  · intro h
    by_contra hne
    obtain ⟨n, hn⟩ : ∃ n, q.size.toNat = n + 1 := ⟨(q.back - q.front).toNat, by
      unfold size
      omega⟩
    obtain ⟨obj, hobj⟩ := Option.isSome_iff_exists.mp
      ((q.stored q.front).mpr ⟨le_refl _, by omega⟩)
    rw [hn, values, hobj] at h
    cases h

theorem popFront_of_nil {q : Queue α} (h : q.toList = []) : q.popFront = (none, q) := by
  have hempty := q.empty_iff.mpr h
  unfold empty at hempty
  rw [decide_eq_true_iff] at hempty
  rw [popFront, dif_pos hempty]

theorem popFront_of_cons {q : Queue α} {obj : α} {rest : List α}
    (h : q.toList = obj :: rest) :
    q.popFront.1 = some obj ∧ q.popFront.2.toList = rest := by
  have hne : ¬ q.front > q.back := by
    intro hempty
    have hnil := q.empty_iff.mp (decide_eq_true hempty)
    rw [h] at hnil
    cases hnil
  obtain ⟨first, hfirst⟩ := Option.isSome_iff_exists.mp
    ((q.stored q.front).mpr ⟨le_refl _, by omega⟩)
  obtain ⟨n, hn⟩ : ∃ n, q.size.toNat = n + 1 := ⟨(q.back - q.front).toNat, by
    unfold size
    omega⟩
  rw [toList, hn, values, hfirst, Option.toList_some, List.singleton_append,
    List.cons.injEq] at h
  rw [popFront, dif_neg hne]
  refine ⟨by rw [hfirst, h.1], ?_⟩
  have hsize : (q.back - (q.front + 1) + 1).toNat = n := by
    unfold size at hn
    omega
  rw [← h.2]
  change values (Function.update q.elem q.front none) (q.back - (q.front + 1) + 1).toNat
    (q.front + 1) = _
  rw [hsize]
  refine values_congr fun j hle _ => Function.update_of_ne ?_ _ _
  omega

end Queue

end JyQipai.DataService
