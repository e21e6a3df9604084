import Mathlib.Data.List.Induction
import Mathlib.Data.List.Nodup
import Mathlib.Logic.Function.Basic

/-!
# Doubly linked sequences

Nodes refer to a previous and to a next node, or to none.  `L.Seg p s q` says that the
nodes `s` are linked in this order, that the first of them refers back to `p` and that the
last refers forward to `q`.
-/

namespace JyQipai.Lib

structure Links (ν : Type) where
  prev : ν → Option ν
  next : ν → Option ν

namespace Links

variable {ν : Type} {L L' : Links ν} {p q r : Option ν} {s t : List ν} {a : ν}

def Seg (L : Links ν) : Option ν → List ν → Option ν → Prop
  | _, [], _ => True
  | p, a :: s, q => L.prev a = p ∧ L.next a = s.head?.or q ∧ L.Seg (some a) s q

@[simp] theorem seg_nil : L.Seg p [] q := trivial

@[simp] theorem seg_cons :
    L.Seg p (a :: s) q ↔ L.prev a = p ∧ L.next a = s.head?.or q ∧ L.Seg (some a) s q :=
  Iff.rfl

theorem seg_append : L.Seg p (s ++ t) q ↔
    L.Seg p s (t.head?.or q) ∧ L.Seg (s.getLast?.or p) t q := by
  induction s generalizing p with
  | nil => simp
  | cons a s ih =>
      have hlast : (a :: s).getLast?.or p = s.getLast?.or (some a) := by
        cases s <;> simp [List.getLast?_cons]
      rw [List.cons_append, seg_cons, seg_cons, ih, hlast, List.head?_append, Option.or_assoc]
      tauto

theorem Seg.congr (hs : L.Seg p s q)
    (h : ∀ a ∈ s, L'.prev a = L.prev a ∧ L'.next a = L.next a) : L'.Seg p s q := by
  induction s generalizing p with
  | nil => trivial
  | cons a s ih =>
      obtain ⟨hprev, hnext, hrest⟩ := hs
      obtain ⟨hp, hn⟩ := h a List.mem_cons_self
      exact ⟨hp.trans hprev, hn.trans hnext,
        ih hrest fun b hb => h b (List.mem_cons_of_mem a hb)⟩

/-! ## Following the links -/

/-- The nodes met from `a` on; `none` when the fuel runs out before the end. -/
def walk (f : ν → Option ν) : Nat → Option ν → Option (List ν)
  | _, none => some []
  | 0, some _ => none
  | n + 1, some a => (walk f n (f a)).map (a :: ·)

theorem Seg.walk_next (hs : L.Seg p s none) {n : Nat} (hn : s.length ≤ n) :
    walk L.next n s.head? = some s := by
  induction s generalizing p n with
  | nil => cases n <;> rfl
  | cons a s ih =>
      obtain ⟨-, hnext, hrest⟩ := hs
      obtain ⟨m, rfl⟩ : ∃ m, n = m + 1 := ⟨n - 1, by simp at hn; omega⟩
      have hm : s.length ≤ m := by simpa using hn
      rw [Option.or_none] at hnext
      rw [List.head?_cons, walk, hnext, ih hrest hm, Option.map_some]

theorem Seg.walk_prev (hs : L.Seg none s q) {n : Nat} (hn : s.length ≤ n) :
    walk L.prev n s.getLast? = some s.reverse := by
  induction s using List.reverseRecOn generalizing q n with
  | nil => cases n <;> rfl
  | append_singleton s a ih =>
      obtain ⟨hrest, hprev, -⟩ := seg_append.mp hs
      obtain ⟨m, rfl⟩ : ∃ m, n = m + 1 := ⟨n - 1, by simp at hn; omega⟩
      have hm : s.length ≤ m := by simpa using hn
      rw [Option.or_none] at hprev
      rw [List.getLast?_concat, walk, hprev, ih hrest hm, Option.map_some, List.reverse_concat]

/-! ## Joining two sequences -/

variable [DecidableEq ν]

/-- The assignment `a.next = r` where `a` is a node, nothing where it is none. -/
def setNext (L : Links ν) (a r : Option ν) : Links ν where
  prev := L.prev
  next := match a with
    | some a => Function.update L.next a r
    | none => L.next

/-- The assignment `a.prev = r` where `a` is a node, nothing where it is none. -/
def setPrev (L : Links ν) (a r : Option ν) : Links ν where
  next := L.next
  prev := match a with
    | some a => Function.update L.prev a r
    | none => L.prev

@[simp] theorem setNext_prev (a r : Option ν) : (L.setNext a r).prev = L.prev := rfl

@[simp] theorem setPrev_next (a r : Option ν) : (L.setPrev a r).next = L.next := rfl

theorem setNext_next_of_ne {b : ν} (h : p ≠ some b) (r : Option ν) :
    (L.setNext p r).next b = L.next b := by
  cases p with
  | none => rfl
  | some a => exact Function.update_of_ne (fun hb => h (congrArg some hb.symm)) r L.next

theorem setPrev_prev_of_ne {b : ν} (h : p ≠ some b) (r : Option ν) :
    (L.setPrev p r).prev b = L.prev b := by
  cases p with
  | none => rfl
  | some a => exact Function.update_of_ne (fun hb => h (congrArg some hb.symm)) r L.prev

@[simp] theorem setNext_next_self (a : ν) (r : Option ν) :
    (L.setNext (some a) r).next a = r :=
  Function.update_self ..

@[simp] theorem setPrev_prev_self (a : ν) (r : Option ν) :
    (L.setPrev (some a) r).prev a = r :=
  Function.update_self ..

theorem Seg.setNext (hs : L.Seg p s q) (hnodup : s.Nodup) (r : Option ν) :
    (L.setNext s.getLast? r).Seg p s r := by
  induction s using List.reverseRecOn with
  | nil => trivial
  | append_singleton s a _ =>
      obtain ⟨hrest, hprev, -⟩ := seg_append.mp hs
      have ha : a ∉ s := by
        intro ha
        exact (List.disjoint_of_nodup_append hnodup) ha (List.mem_singleton_self a)
      rw [List.getLast?_concat]
      refine seg_append.mpr ⟨hrest.congr fun b hb => ⟨rfl, ?_⟩, hprev, ?_, trivial⟩
      · exact setNext_next_of_ne (by rintro ⟨rfl⟩; exact ha hb) r
      · exact setNext_next_self a r

theorem Seg.setPrev (hs : L.Seg p s q) (hnodup : s.Nodup) (r : Option ν) :
    (L.setPrev s.head? r).Seg r s q := by
  cases s with
  | nil => trivial
  | cons a s =>
      obtain ⟨-, hnext, hrest⟩ := hs
      have ha : a ∉ s := (List.nodup_cons.mp hnodup).1
      refine ⟨setPrev_prev_self a r, hnext, hrest.congr fun b hb => ⟨?_, rfl⟩⟩
      exact setPrev_prev_of_ne (by rintro ⟨rfl⟩; exact ha hb) r

def join (L : Links ν) (s t : List ν) (p q : Option ν) : Links ν :=
  (L.setNext s.getLast? (t.head?.or q)).setPrev t.head? (s.getLast?.or p)

theorem Seg.join {x y : Option ν} (hs : L.Seg p s x) (ht : L.Seg y t q)
    (hnodup : (s ++ t).Nodup) : (L.join s t p q).Seg p (s ++ t) q := by
  obtain ⟨hsn, htn, hdisj⟩ := List.nodup_append'.mp hnodup
  have hs' := hs.setNext hsn (t.head?.or q)
  have ht' : (L.setNext s.getLast? (t.head?.or q)).Seg y t q := by
    refine ht.congr fun b hb => ⟨rfl, setNext_next_of_ne (fun h => ?_) _⟩
    exact hdisj (List.mem_of_getLast? h) hb
  refine seg_append.mpr ⟨hs'.congr fun b hb => ⟨setPrev_prev_of_ne (fun h => ?_) _, rfl⟩,
    ht'.setPrev htn (s.getLast?.or p)⟩
  exact hdisj hb (List.mem_of_head? h)

theorem Seg.insert {x y : Option ν} {n : ν} (hs : L.Seg p s x) (ht : L.Seg y t q)
    (hnodup : (s ++ t).Nodup) (hn : n ∉ s ++ t) (hprev : L.prev n = s.getLast?.or p)
    (hnext : L.next n = t.head?.or q) :
    ((L.setNext s.getLast? (some n)).setPrev t.head? (some n)).Seg p (s ++ n :: t) q := by
  obtain ⟨hsn, htn, hdisj⟩ := List.nodup_append'.mp hnodup
  have hns : n ∉ s := fun h => hn (List.mem_append_left t h)
  have hnt : n ∉ t := fun h => hn (List.mem_append_right s h)
  have ht' : (L.setNext s.getLast? (some n)).Seg y t q := by
    refine ht.congr fun b hb => ⟨rfl, setNext_next_of_ne (fun h => ?_) _⟩
    exact hdisj (List.mem_of_getLast? h) hb
  refine seg_append.mpr ⟨?_, seg_cons.mpr ⟨?_, ?_, ht'.setPrev htn (some n)⟩⟩
  · refine (hs.setNext hsn (some n)).congr fun b hb => ⟨setPrev_prev_of_ne (fun h => ?_) _, rfl⟩
    exact hdisj hb (List.mem_of_head? h)
  · rw [setPrev_prev_of_ne fun h => hnt (List.mem_of_head? h)]
    exact hprev
  · rw [setPrev_next, setNext_next_of_ne fun h => hns (List.mem_of_getLast? h)]
    exact hnext

end Links

end JyQipai.Lib
