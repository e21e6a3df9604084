import Mathlib

/-!
# Tables of amounts

A table with one amount for each of its keys; all other keys have the amount
zero.  Amounts are added up key by key.
-/

namespace JyQipai.Lib

variable {α M : Type*}

structure Amounts (α M : Type*) where
  entries : List (α × M)
  nodup : (entries.map Prod.fst).Nodup

namespace Amounts

def empty : Amounts α M := ⟨[], List.nodup_nil⟩

def keys (d : Amounts α M) : List α := d.entries.map Prod.fst

@[simp] theorem keys_empty : (empty : Amounts α M).keys = [] := rfl

variable [DecidableEq α]

theorem lookup_filter_ne {l : List (α × M)} {a b : α} (h : b ≠ a) :
    (l.filter (·.1 ≠ a)).lookup b = l.lookup b := by
  induction l with
  | nil => rfl
  | cons e l ih =>
      by_cases he : e.1 = a
      · have hb : (b == e.1) = false := by simpa [he] using h
        rw [List.filter_cons_of_neg (by simpa using he), ih, List.lookup_cons, hb]
      · rw [List.filter_cons_of_pos (by simpa using he), List.lookup_cons, List.lookup_cons, ih]

theorem lookup_of_not_mem_keys {d : Amounts α M} {a : α} (h : a ∉ d.keys) :
    d.entries.lookup a = none := by
  rw [List.lookup_eq_none_iff]
  intro e he
  have : e.1 ≠ a := by
    rintro rfl
    exact h (List.mem_map_of_mem he)
  simpa using Ne.symm this

variable [AddCommMonoid M]

def get (d : Amounts α M) (a : α) : M := (d.entries.lookup a).getD 0

def add (d : Amounts α M) (a : α) (n : M) : Amounts α M where
  entries := (a, d.get a + n) :: d.entries.filter (·.1 ≠ a)
  nodup := by
    rw [List.map_cons, List.nodup_cons]
    refine ⟨?_, d.nodup.sublist (List.filter_sublist.map _)⟩
    intro h
    obtain ⟨e, he, hea⟩ := List.mem_map.mp h
    simp [hea] at he

@[simp] theorem get_empty (a : α) : (empty : Amounts α M).get a = 0 := rfl

theorem get_add (d : Amounts α M) (a : α) (n : M) (b : α) :
    (d.add a n).get b = d.get b + if a = b then n else 0 := by
  unfold get add
  by_cases h : b = a
  · subst h
    simp [get]
  · have hb : (b == a) = false := by simpa using h
    rw [List.lookup_cons, hb, lookup_filter_ne h, if_neg (Ne.symm h), add_zero]

theorem mem_keys_add (d : Amounts α M) (a : α) (n : M) (b : α) :
    b ∈ (d.add a n).keys ↔ b = a ∨ b ∈ d.keys := by
  simp only [keys, add, List.map_cons, List.mem_cons, List.mem_map, List.mem_filter]
  constructor
  · rintro (h | ⟨e, ⟨he, -⟩, rfl⟩)
    · exact .inl h
    · exact .inr ⟨e, he, rfl⟩
  · rintro (h | ⟨e, he, rfl⟩)
    · exact .inl h
    · by_cases hea : e.1 = a
      · exact .inl hea
      · exact .inr ⟨e, ⟨he, by simpa using hea⟩, rfl⟩

theorem lookup_of_mem_keys {d : Amounts α M} {a : α} (h : a ∈ d.keys) :
    d.entries.lookup a = some (d.get a) := by
  unfold get
  cases hl : d.entries.lookup a with
  | some n => rfl
  | none =>
      obtain ⟨e, he, rfl⟩ := List.mem_map.mp h
      rw [List.lookup_eq_none_iff] at hl
      simpa using hl e he

theorem sum_entries (d : Amounts α M) (a : α) :
    (d.entries.map fun e => if e.1 = a then e.2 else 0).sum = d.get a := by
  unfold get
  have hd := d.nodup
  generalize d.entries = l at hd
  induction l with
  | nil => rfl
  | cons e l ih =>
      rw [List.map_cons, List.nodup_cons] at hd
      rw [List.map_cons, List.sum_cons, ih hd.2, List.lookup_cons]
      by_cases h : e.1 = a
      · have hnone : l.lookup a = none :=
          lookup_of_not_mem_keys (d := ⟨l, hd.2⟩) (h ▸ hd.1)
        have ha : (a == e.1) = true := by simpa using h.symm
        rw [if_pos h, hnone, ha]
        simp
      · have ha : (a == e.1) = false := by simpa using Ne.symm h
        rw [if_neg h, zero_add, ha]

end Amounts

theorem sum_map_filter_ne {β : Type*} [DecidableEq β] [AddCommMonoid M] {l : List α}
    {key : α → β} (hl : (l.map key).Nodup) {x : α} (hx : x ∈ l) (f : α → M) :
    ((l.filter (key · ≠ key x)).map f).sum + f x = (l.map f).sum := by
  induction l with
  | nil => cases hx
  | cons y l ih =>
      rw [List.map_cons, List.nodup_cons] at hl
      by_cases hy : key y = key x
      · have hxl : x ∉ l := fun h => hl.1 (hy ▸ List.mem_map_of_mem h)
        obtain rfl := (List.mem_cons.mp hx).resolve_right hxl
        have hrest : l.filter (key · ≠ key x) = l := by
          rw [List.filter_eq_self]
          intro z hz
          have : key z ≠ key x := fun h => hl.1 (h ▸ List.mem_map_of_mem hz)
          simpa using this
        rw [List.filter_cons_of_neg (by simp), hrest, List.map_cons, List.sum_cons, add_comm]
      · have hxl : x ∈ l := (List.mem_cons.mp hx).resolve_left fun h => hy (h ▸ rfl)
        rw [List.filter_cons_of_pos (by simpa using hy), List.map_cons, List.map_cons,
          List.sum_cons, List.sum_cons, add_assoc, ih hl.2 hxl]

end JyQipai.Lib
