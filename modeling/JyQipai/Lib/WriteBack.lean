import Mathlib.Data.List.GetD
import Mathlib.Order.Basic

/-!
# Overwriting cells and writing them back

Cells of a list are overwritten one after the other, and what stood there is noted.  When the
notes are written back in the order in which they were made, a cell ends with what stood there
before its last overwriting.
-/

namespace JyQipai.Lib

variable {α : Type*} (d : α)

def overwrite : List α → List (Nat × α) → List α × List (Nat × α × α)
  | l, [] => (l, [])
  | l, (i, a) :: ops =>
      let r := overwrite (l.set i a) ops
      (r.1, (i, a, l.getD i d) :: r.2)

def writeBack (l : List α) (log : List (Nat × α × α)) : List α :=
  log.foldl (fun l x => l.set x.1 x.2.2) l

def writtenAt (ops : List (Nat × α)) (p : Nat) : List α :=
  (ops.filter fun x => x.1 = p).map Prod.snd

variable {d} {l : List α} {ops : List (Nat × α)} {p : Nat}

theorem writtenAt_cons_self (a : α) : writtenAt ((p, a) :: ops) p = a :: writtenAt ops p := by
  rw [writtenAt, List.filter_cons_of_pos (by simp), List.map_cons, writtenAt]

theorem writtenAt_cons_ne {i : Nat} (h : i ≠ p) (a : α) :
    writtenAt ((i, a) :: ops) p = writtenAt ops p := by
  rw [writtenAt, List.filter_cons_of_neg (by simpa using h), writtenAt]

theorem getD_set_self {i : Nat} (h : i < l.length) (a : α) : (l.set i a).getD i d = a := by
  rw [List.getD_eq_getElem?_getD, List.getElem?_set_self h, Option.getD_some]

theorem getD_set_ne {i : Nat} (h : i ≠ p) (a : α) : (l.set i a).getD p d = l.getD p d := by
  rw [List.getD_eq_getElem?_getD, List.getElem?_set_ne h, List.getD_eq_getElem?_getD]

theorem length_overwrite : (overwrite d l ops).1.length = l.length := by
  induction ops generalizing l with
  | nil => rfl
  | cons x ops ih => exact ih.trans (List.length_set ..)

theorem length_writeBack (log : List (Nat × α × α)) : (writeBack l log).length = l.length := by
  induction log generalizing l with
  | nil => rfl
  | cons x log ih => exact ih.trans (List.length_set ..)

theorem overwrite_ops (d : α) (l : List α) (ops : List (Nat × α)) :
    (overwrite d l ops).2.map (fun x => (x.1, x.2.1)) = ops := by
  induction ops generalizing l with
  | nil => rfl
  | cons x ops ih => exact congrArg (x :: ·) (ih _)

theorem getD_overwrite_of_unwritten (h : writtenAt ops p = []) :
    (overwrite d l ops).1.getD p d = l.getD p d := by
  induction ops generalizing l with
  | nil => rfl
  | cons x ops ih =>
      obtain ⟨i, a⟩ := x
      by_cases hi : i = p
      · subst hi
        rw [writtenAt_cons_self] at h
        exact absurd h (List.cons_ne_nil _ _)
      · rw [writtenAt_cons_ne hi] at h
        exact (ih h).trans (getD_set_ne hi a)

theorem getD_writeBack {q : List α} (hq : q.length = l.length) (hp : p < l.length) :
    (writeBack q (overwrite d l ops).2).getD p d =
      if writtenAt ops p = [] then q.getD p d
      else (writtenAt ops p).dropLast.getLast?.getD (l.getD p d) := by
  induction ops generalizing l q with
  | nil => rfl
  | cons x ops ih =>
      obtain ⟨i, a⟩ := x
      have hstep := ih (l := l.set i a) (q := q.set i (l.getD i d))
        (by rw [List.length_set, List.length_set, hq]) (by rwa [List.length_set])
      refine hstep.trans ?_
      by_cases hi : i = p
      · subst hi
        rw [writtenAt_cons_self, getD_set_self (hq ▸ hp), getD_set_self hp,
          if_neg (List.cons_ne_nil _ _)]
        cases hw : writtenAt ops i with
        | nil => rfl
        | cons b w =>
            rw [if_neg (List.cons_ne_nil _ _), List.dropLast_cons_of_ne_nil (List.cons_ne_nil _ _),
              List.getLast?_cons, Option.getD_some]
      · rw [writtenAt_cons_ne hi, getD_set_ne hi, getD_set_ne hi]

theorem writeBack_overwrite_iff :
    writeBack (overwrite d l ops).1 (overwrite d l ops).2 = l ↔
      ∀ p < l.length, ∀ a ∈ (writtenAt ops p).dropLast.getLast?, a = l.getD p d := by
  have hcell {p : Nat} (hp : p < l.length) :
      (writeBack (overwrite d l ops).1 (overwrite d l ops).2).getD p d =
        (writtenAt ops p).dropLast.getLast?.getD (l.getD p d) := by
    rw [getD_writeBack length_overwrite hp]
    split
    · next h => rw [getD_overwrite_of_unwritten h, h, List.dropLast_nil, List.getLast?_nil,
        Option.getD_none]
    · rfl
  constructor
  · intro h p hp a ha
    have := hcell hp
    rw [h, ha, Option.getD_some] at this
    exact this.symm
  · intro h
    have hlen : (writeBack (overwrite d l ops).1 (overwrite d l ops).2).length = l.length :=
      (length_writeBack _).trans length_overwrite
    refine List.ext_getElem hlen fun p hp hp' => ?_
    rw [← List.getD_eq_getElem _ d hp, ← List.getD_eq_getElem _ d hp', hcell hp']
    cases hlast : (writtenAt ops p).dropLast.getLast? with
    | none => rfl
    | some a => exact h p hp' a hlast

theorem forall_noted_iff {P : α → Prop} (hops : ∀ x ∈ ops, P x.2) :
    (∀ x ∈ (overwrite d l ops).2, P x.2.2) ↔ ∀ x ∈ ops, P (l.getD x.1 d) := by
  induction ops generalizing l with
  | nil =>
      exact ⟨fun _ x hx => absurd hx List.not_mem_nil, fun _ x hx => absurd hx List.not_mem_nil⟩
  | cons x ops ih =>
      obtain ⟨i, a⟩ := x
      obtain ⟨ha, hops⟩ := List.forall_mem_cons.mp hops
      change (∀ x ∈ (i, a, l.getD i d) :: (overwrite d (l.set i a) ops).2, P x.2.2) ↔ _
      rw [List.forall_mem_cons, List.forall_mem_cons, ih hops]
      refine and_congr_right fun hi => forall₂_congr fun y _ => ?_
      by_cases hy : i = y.1
      · rw [← hy]
        refine iff_of_true ?_ hi
        by_cases hlen : i < l.length
        · rwa [getD_set_self hlen]
        · rwa [List.set_eq_of_length_le (Nat.le_of_not_lt hlen)]
      · rw [getD_set_ne hy]

end JyQipai.Lib
