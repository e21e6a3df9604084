import JyQipai.Common.LinkedList
import Mathlib.Data.List.Induction
import Mathlib.Data.List.Lattice

/-!
# What the calls do to one list

A list is described by its sequence of items, linked in both directions, and by what the
items hold.  Each call changes the sequence at one place and writes only items of it.
-/

namespace JyQipai.Basefunc

open Lib (Links)

variable {κ α : Type}

structure Entry (κ α : Type) where
  id : Nat
  value : α
  key : Option κ
deriving DecidableEq

def Heap.entry (h : Heap κ α) (a : Nat) : Option (Entry κ α) :=
  h[a]?.map fun it => ⟨a, it.value, it.key⟩

/-! ## The links in the heap -/

namespace Heap

variable {h : Heap κ α} {a b : Nat} {r : Option Nat}

def links (h : Heap κ α) : Links Nat := ⟨h.prev, h.next⟩

@[simp] theorem links_prev (h : Heap κ α) : h.links.prev = h.prev := rfl

@[simp] theorem links_next (h : Heap κ α) : h.links.next = h.next := rfl

@[simp] theorem length_setPrev : (h.setPrev a r).length = h.length := List.length_modify ..

@[simp] theorem length_setNext : (h.setNext a r).length = h.length := List.length_modify ..

theorem getElem?_setPrev_of_ne (hab : a ≠ b) : (h.setPrev a r)[b]? = h[b]? :=
  List.getElem?_modify_ne _ h hab

theorem getElem?_setNext_of_ne (hab : a ≠ b) : (h.setNext a r)[b]? = h[b]? :=
  List.getElem?_modify_ne _ h hab

theorem links_setPrev (ha : a < h.length) :
    (h.setPrev a r).links = h.links.setPrev (some a) r := by
  have hget : h[a]? = some h[a] := List.getElem?_eq_getElem ha
  refine congrArg₂ Links.mk (funext fun b => ?_) (funext fun b => ?_)
  · rcases eq_or_ne a b with rfl | hb
    · simp [prev, setPrev, hget]
    · rw [prev, getElem?_setPrev_of_ne hb]
      exact (Links.setPrev_prev_of_ne (L := h.links) (mt Option.some.inj hb) r).symm
  · rcases eq_or_ne a b with rfl | hb
    · simp [next, setPrev, hget]
    · rw [next, getElem?_setPrev_of_ne hb]
      rfl

theorem links_setNext (ha : a < h.length) :
    (h.setNext a r).links = h.links.setNext (some a) r := by
  have hget : h[a]? = some h[a] := List.getElem?_eq_getElem ha
  refine congrArg₂ Links.mk (funext fun b => ?_) (funext fun b => ?_)
  · rcases eq_or_ne a b with rfl | hb
    · simp [prev, setNext, hget]
    · rw [prev, getElem?_setNext_of_ne hb]
      rfl
  · rcases eq_or_ne a b with rfl | hb
    · simp [next, setNext, hget]
    · rw [next, getElem?_setNext_of_ne hb]
      exact (Links.setNext_next_of_ne (L := h.links) (mt Option.some.inj hb) r).symm


def setPrev? (h : Heap κ α) (item : Option Nat) (p : Option Nat) : Heap κ α :=
  match item with
  | some item => h.setPrev item p
  | none => h

def setNext? (h : Heap κ α) (item : Option Nat) (q : Option Nat) : Heap κ α :=
  match item with
  | some item => h.setNext item q
  | none => h

theorem links_setPrev? {item : Option Nat} (hitem : ∀ a ∈ item, a < h.length) :
    (h.setPrev? item r).links = h.links.setPrev item r := by
  cases item with
  | none => rfl
  | some a => exact links_setPrev (hitem a rfl)

theorem links_setNext? {item : Option Nat} (hitem : ∀ a ∈ item, a < h.length) :
    (h.setNext? item r).links = h.links.setNext item r := by
  cases item with
  | none => rfl
  | some a => exact links_setNext (hitem a rfl)

@[simp] theorem length_setPrev? {item : Option Nat} :
    (h.setPrev? item r).length = h.length := by
  cases item with
  | none => rfl
  | some a => exact length_setPrev

@[simp] theorem length_setNext? {item : Option Nat} :
    (h.setNext? item r).length = h.length := by
  cases item with
  | none => rfl
  | some a => exact length_setNext

theorem getElem?_setPrev?_of_ne {item : Option Nat} (hb : item ≠ some b) :
    (h.setPrev? item r)[b]? = h[b]? := by
  cases item with
  | none => rfl
  | some a => exact getElem?_setPrev_of_ne (by simpa using hb)

theorem getElem?_setNext?_of_ne {item : Option Nat} (hb : item ≠ some b) :
    (h.setNext? item r)[b]? = h[b]? := by
  cases item with
  | none => rfl
  | some a => exact getElem?_setNext_of_ne (by simpa using hb)

theorem setPrev_setNext_comm (c : Nat) (q : Option Nat) :
    (h.setPrev a r).setNext c q = (h.setNext c q).setPrev a r := by
  refine List.ext_getElem? fun i => ?_
  simp only [setPrev, setNext, List.getElem?_modify, Option.map_eq_map]
  cases h[i]? with
  | none => rfl
  | some it =>
      by_cases ha : a = i <;> by_cases hc : c = i <;> simp [ha, hc]

@[simp] theorem entry_setPrev : (h.setPrev a r).entry b = h.entry b := by
  rcases eq_or_ne a b with rfl | hb
  · simp [entry, setPrev, Function.comp_def]
  · rw [entry, getElem?_setPrev_of_ne hb, entry]

@[simp] theorem entry_setNext : (h.setNext a r).entry b = h.entry b := by
  rcases eq_or_ne a b with rfl | hb
  · simp [entry, setNext, Function.comp_def]
  · rw [entry, getElem?_setNext_of_ne hb, entry]

@[simp] theorem entry_setPrev? {item : Option Nat} :
    (h.setPrev? item r).entry b = h.entry b := by
  cases item with
  | none => rfl
  | some a => exact entry_setPrev

@[simp] theorem entry_setNext? {item : Option Nat} :
    (h.setNext? item r).entry b = h.entry b := by
  cases item with
  | none => rfl
  | some a => exact entry_setNext

theorem getElem?_make (v : α) (p q : Option Nat) (hb : b < h.length) :
    (h.make v p q)[b]? = h[b]? :=
  List.getElem?_append_left hb

theorem entry_make (v : α) (p q : Option Nat) (hb : b < h.length) :
    (h.make v p q).entry b = h.entry b := by
  rw [entry, getElem?_make v p q hb, entry]

theorem links_make (v : α) (p q : Option Nat) (hb : b < h.length) :
    (h.make v p q).links.prev b = h.links.prev b ∧
      (h.make v p q).links.next b = h.links.next b := by
  simp only [links_prev, links_next, prev, next, getElem?_make v p q hb, and_self]

theorem getElem?_made (v : α) (p q : Option Nat) :
    (h.make v p q)[h.length]? = some ⟨v, none, p, q⟩ :=
  List.getElem?_concat_length

@[simp] theorem length_make (v : α) (p q : Option Nat) :
    (h.make v p q).length = h.length + 1 :=
  List.length_append

theorem entry_congr {h' : Heap κ α} (hb : h'[b]? = h[b]?) : h'.entry b = h.entry b := by
  rw [entry, hb, entry]

end Heap

section Lists

variable {h h' : Heap κ α} {l : LinkedList} {ids : List Nat} {s t : List (Entry κ α)}

/-- The items `ids` are linked in this order, and `l` refers to their ends. -/
structure Held (h : Heap κ α) (l : LinkedList) (ids : List Nat) : Prop where
  seg : h.links.Seg none ids none
  front : l.front = ids.head?
  back : l.back = ids.getLast?
  nodup : ids.Nodup
  bound : ∀ a ∈ ids, a < h.length

theorem Held.frame (hl : Held h l ids) (hlen : h.length ≤ h'.length)
    (hsame : ∀ a ∈ ids, h'[a]? = h[a]?) : Held h' l ids where
  seg := hl.seg.congr fun a ha => by
    simp only [Heap.links_prev, Heap.links_next, Heap.prev, Heap.next, hsame a ha, and_self]
  front := hl.front
  back := hl.back
  nodup := hl.nodup
  bound := fun a ha => Nat.lt_of_lt_of_le (hl.bound a ha) hlen

def Holds (h : Heap κ α) (l : LinkedList) (s : List (Entry κ α)) : Prop :=
  Held h l (s.map Entry.id) ∧ ∀ e ∈ s, h.entry e.id = some e

theorem Holds.frame (hl : Holds h l s) (hlen : h.length ≤ h'.length)
    (hsame : ∀ a ∈ s.map Entry.id, h'[a]? = h[a]?) : Holds h' l s := by
  refine ⟨hl.1.frame hlen hsame, fun e he => ?_⟩
  rw [Heap.entry_congr (hsame e.id (List.mem_map_of_mem he)), hl.2 e he]

theorem Holds.nil (h : Heap κ α) : Holds h LinkedList.new [] :=
  ⟨⟨trivial, rfl, rfl, List.nodup_nil, nofun⟩, nofun⟩

theorem mapM_entry (hs : ∀ e ∈ s, h.entry e.id = some e) :
    ((s.map Entry.id).mapM fun a => h[a]?.map fun it => (a, it.value)) =
      some (s.map fun e => (e.id, e.value)) := by
  induction s with
  | nil => rfl
  | cons e s ih =>
      have he : (h[e.id]?.map fun it => (e.id, it.value)) = some (e.id, e.value) := by
        have := hs e List.mem_cons_self
        rw [Heap.entry, Option.map_eq_some_iff] at this
        obtain ⟨it, hit, heq⟩ := this
        rw [hit, ← heq]
        rfl
      rw [List.map_cons, List.mapM_cons, he, ih fun x hx => hs x (List.mem_cons_of_mem e hx)]
      rfl

theorem Holds.pairs (hl : Holds h l s) {n : Nat} (hn : s.length ≤ n) :
    l.pairs h n = some (s.map fun e => (e.id, e.value)) := by
  have hwalk := hl.1.seg.walk_next (n := n) (by simpa using hn)
  rw [LinkedList.pairs, hl.1.front, ← Heap.links_next, hwalk, Option.bind_some]
  exact mapM_entry hl.2

theorem Holds.rpairs (hl : Holds h l s) {n : Nat} (hn : s.length ≤ n) :
    l.rpairs h n = some (s.map fun e => (e.id, e.value)).reverse := by
  have hwalk := hl.1.seg.walk_prev (n := n) (by simpa using hn)
  rw [LinkedList.rpairs, hl.1.back, ← Heap.links_prev, hwalk, Option.bind_some,
    ← List.map_reverse, ← List.map_reverse]
  exact mapM_entry fun e he => hl.2 e (List.mem_reverse.mp he)

/-- The links between `s` and `t` are set, and nothing else is written. -/
structure Relinked (h h' : Heap κ α) (s t : List Nat) : Prop where
  links : h'.links = h.links.join s t none none
  length : h'.length = h.length
  entry : ∀ a, h'.entry a = h.entry a
  same : ∀ a, a ∉ s ++ t → h'[a]? = h[a]?

theorem Relinked.holds {x y : Option Nat}
    (hr : Relinked h h' (s.map Entry.id) (t.map Entry.id))
    (hs : h.links.Seg none (s.map Entry.id) x) (ht : h.links.Seg y (t.map Entry.id) none)
    (hnodup : ((s ++ t).map Entry.id).Nodup) (hbound : ∀ a ∈ (s ++ t).map Entry.id, a < h.length)
    (hentry : ∀ e ∈ s ++ t, h.entry e.id = some e)
    (hfront : l.front = ((s ++ t).map Entry.id).head?)
    (hback : l.back = ((s ++ t).map Entry.id).getLast?) : Holds h' l (s ++ t) := by
  have hseg := hs.join ht (List.map_append ▸ hnodup)
  rw [← hr.links, ← List.map_append] at hseg
  refine ⟨⟨hseg, hfront, hback, hnodup, fun a ha => ?_⟩, fun e he => ?_⟩
  · rw [hr.length]
    exact hbound a ha
  · rw [hr.entry, hentry e he]

/-- The item of `e` is made between `s` and `t`. -/
structure Placed (h h' : Heap κ α) (value : α) (s t : List Nat) : Prop where
  links : h'.links = ((h.make value s.getLast? t.head?).links.setNext s.getLast?
    (some h.length)).setPrev t.head? (some h.length)
  length : h'.length = h.length + 1
  entry : ∀ a < h.length, h'.entry a = h.entry a
  made : h'.entry h.length = some ⟨h.length, value, none⟩
  same : ∀ a < h.length, a ∉ s ++ t → h'[a]? = h[a]?

theorem Placed.holds {value : α} (hp : Placed h h' value (s.map Entry.id) (t.map Entry.id))
    (hl : Holds h l (s ++ t)) {l' : LinkedList}
    (hfront : l'.front = (s.head?.map Entry.id).or (some h.length))
    (hback : l'.back = (t.getLast?.map Entry.id).or (some h.length)) :
    Holds h' l' (s ++ ⟨h.length, value, none⟩ :: t) := by
  obtain ⟨hs, ht⟩ := Links.seg_append.mp (List.map_append ▸ hl.1.seg)
  have hfresh : h.length ∉ s.map Entry.id ++ t.map Entry.id := by
    intro ha
    exact Nat.lt_irrefl _ (hl.1.bound _ (List.map_append ▸ ha))
  have hbs : ∀ a ∈ s.map Entry.id, a < h.length :=
    fun a ha => hl.1.bound a (List.map_append ▸ List.mem_append_left _ ha)
  have hbt : ∀ a ∈ t.map Entry.id, a < h.length :=
    fun a ha => hl.1.bound a (List.map_append ▸ List.mem_append_right _ ha)
  have hnodup := hl.1.nodup
  rw [List.map_append] at hnodup
  have hseg := (hs.congr fun a ha => Heap.links_make value (s.map Entry.id).getLast?
    (t.map Entry.id).head? (hbs a ha)).insert
      (ht.congr fun a ha => Heap.links_make _ _ _ (hbt a ha)) hnodup hfresh
      (by rw [Heap.links_prev, Heap.prev, Heap.getElem?_made, Option.or_none]; rfl)
      (by rw [Heap.links_next, Heap.next, Heap.getElem?_made, Option.or_none]; rfl)
  rw [← hp.links] at hseg
  refine ⟨⟨by simpa using hseg, ?_, ?_, ?_, ?_⟩, ?_⟩
  · rw [hfront]
    cases s <;> simp
  · rw [hback]
    rw [List.getLast?_map, List.getLast?_append, List.getLast?_cons]
    cases t.getLast? <;> rfl
  · rw [List.map_append, List.map_cons, List.nodup_middle]
    exact List.nodup_cons.mpr ⟨hfresh, hnodup⟩
  · intro a ha
    rw [hp.length]
    simp only [List.map_append, List.map_cons, List.mem_append, List.mem_cons] at ha
    rcases ha with ha | rfl | ha
    · exact Nat.lt_succ_of_lt (hbs a ha)
    · exact Nat.lt_succ_self _
    · exact Nat.lt_succ_of_lt (hbt a ha)
  · intro e he
    rcases List.mem_append.mp he with he | he
    · rw [hp.entry _ (hbs _ (List.mem_map_of_mem he)), hl.2 e (List.mem_append_left _ he)]
    · rcases List.mem_cons.mp he with rfl | he
      · exact hp.made
      · rw [hp.entry _ (hbt _ (List.mem_map_of_mem he)), hl.2 e (List.mem_append_right _ he)]

theorem Holds.modify (hl : Holds h l s) (a : Nat) {f : Item κ α → Item κ α}
    {g : Entry κ α → Entry κ α} (hprev : ∀ it, (f it).prev = it.prev)
    (hnext : ∀ it, (f it).next = it.next)
    (hg : ∀ it : Item κ α, g ⟨a, it.value, it.key⟩ = ⟨a, (f it).value, (f it).key⟩) :
    Holds (h.modify a f) l (s.map fun e => if e.id = a then g e else e) := by
  have hget (b : Nat) : (h.modify a f)[b]? = h[b]?.map fun it => if a = b then f it else it :=
    List.getElem?_modify f a h b
  have hid (e : Entry κ α) : (if e.id = a then g e else e).id = e.id := by
    split
    · next he =>
        have := hg ⟨e.value, e.key, none, none⟩
        rw [← he] at this
        rw [this]
    · rfl
  have hids : (s.map fun e => if e.id = a then g e else e).map Entry.id = s.map Entry.id := by
    rw [List.map_map]
    exact List.map_congr_left fun e _ => hid e
  refine ⟨?_, fun e he => ?_⟩
  · rw [hids]
    refine ⟨hl.1.seg.congr fun b _ => ?_, hl.1.front, hl.1.back, hl.1.nodup, fun b hb => ?_⟩
    · simp only [Heap.links_prev, Heap.links_next, Heap.prev, Heap.next, hget]
      cases h[b]? with
      | none => exact ⟨rfl, rfl⟩
      | some it =>
          simp only [Option.map_some, Option.bind_some]
          split
          · exact ⟨hprev it, hnext it⟩
          · exact ⟨rfl, rfl⟩
    · rw [List.length_modify]
      exact hl.1.bound b hb
  · obtain ⟨e, hes, rfl⟩ := List.mem_map.mp he
    have hentry := hl.2 e hes
    rw [hid, Heap.entry, hget]
    rw [Heap.entry, Option.map_eq_some_iff] at hentry
    obtain ⟨it, hit, heq⟩ := hentry
    rw [hit, Option.map_some, Option.map_some]
    by_cases ha : a = e.id
    · subst ha
      rw [if_pos rfl, if_pos rfl, ← hg it, heq]
    · rw [if_neg ha, if_neg (Ne.symm ha), heq]

/-! ### The calls -/

theorem placed (value : α) {s t : List Nat} (hbound : ∀ a ∈ s ++ t, a < h.length) :
    Placed h (((h.make value s.getLast? t.head?).setNext? s.getLast?
      (some h.length)).setPrev? t.head? (some h.length)) value s t where
  links := by
    have hlast : ∀ a ∈ s.getLast?, a < (h.make value s.getLast? t.head?).length := by
      intro a ha
      rw [Heap.length_make]
      exact Nat.lt_succ_of_lt (hbound a (List.mem_append_left _ (List.mem_of_getLast? ha)))
    have hhead : ∀ a ∈ t.head?, a < ((h.make value s.getLast? t.head?).setNext? s.getLast?
        (some h.length)).length := by
      intro a ha
      rw [Heap.length_setNext?, Heap.length_make]
      exact Nat.lt_succ_of_lt (hbound a (List.mem_append_right _ (List.mem_of_head? ha)))
    rw [Heap.links_setPrev? hhead, Heap.links_setNext? hlast]
  length := by rw [Heap.length_setPrev?, Heap.length_setNext?, Heap.length_make]
  entry a ha := by rw [Heap.entry_setPrev?, Heap.entry_setNext?, Heap.entry_make _ _ _ ha]
  made := by
    rw [Heap.entry_setPrev?, Heap.entry_setNext?, Heap.entry, Heap.getElem?_made]
    rfl
  same a ha hnot := by
    rw [Heap.getElem?_setPrev?_of_ne, Heap.getElem?_setNext?_of_ne, Heap.getElem?_make _ _ _ ha]
    · exact fun h => hnot (List.mem_append_left _ (List.mem_of_getLast? h))
    · exact fun h => hnot (List.mem_append_right _ (List.mem_of_head? h))

/-- `n` items are made, and of the others only some of `ids` are written. -/
structure Writes (h h' : Heap κ α) (n : Nat) (ids : List Nat) : Prop where
  length : h'.length = h.length + n
  same : ∀ a < h.length, a ∉ ids → h'[a]? = h[a]?

theorem Placed.writes {value : α} {s t : List Nat} (hp : Placed h h' value s t) :
    Writes h h' 1 (s ++ t) :=
  ⟨hp.length, hp.same⟩

theorem holds_pushFront (hl : Holds h l s) (value : α) :
    Holds (l.pushFront h value).1 (l.pushFront h value).2 (⟨h.length, value, none⟩ :: s) ∧
      Writes h (l.pushFront h value).1 1 (s.map Entry.id) := by
  have hp := placed value (s := []) (t := s.map Entry.id) hl.1.bound
  have hfront := hl.1.front
  have hback := hl.1.back
  cases s with
  | nil =>
      have heq : l.pushFront h value =
          (h.make value none none, ⟨some h.length, some h.length⟩) := by
        unfold LinkedList.pushFront
        rw [hfront]
        rfl
      rw [heq]
      exact ⟨hp.holds (s := []) hl rfl rfl, hp.writes⟩
  | cons e s =>
      have heq : l.pushFront h value =
          ((h.make value none (some e.id)).setPrev e.id (some h.length),
            ⟨some h.length, l.back⟩) := by
        unfold LinkedList.pushFront
        rw [hfront]
        rfl
      rw [heq]
      refine ⟨hp.holds (s := []) hl rfl ?_, hp.writes⟩
      rw [hback, List.getLast?_map, List.getLast?_cons]
      rfl

theorem holds_pushBack (hl : Holds h l s) (value : α) :
    Holds (l.pushBack h value).1 (l.pushBack h value).2 (s ++ [⟨h.length, value, none⟩]) ∧
      Writes h (l.pushBack h value).1 1 (s.map Entry.id) := by
  have hp := placed value (s := s.map Entry.id) (t := [])
    (by simpa using hl.1.bound)
  have hl' : Holds h l (s ++ []) := by rwa [List.append_nil]
  have hw := hp.writes
  rw [List.append_nil] at hw
  have hfront := hl.1.front
  have hback := hl.1.back
  rw [List.getLast?_map] at hback
  rw [List.head?_map] at hfront
  rcases List.eq_nil_or_concat' s with rfl | ⟨s, e, rfl⟩
  · have heq : l.pushBack h value = (h.make value none none, ⟨some h.length, some h.length⟩) := by
      unfold LinkedList.pushBack
      rw [hback]
      rfl
    rw [heq]
    exact ⟨hp.holds (t := []) hl' rfl rfl, hw⟩
  · have hlast : ((s ++ [e]).map Entry.id).getLast? = some e.id := by simp
    have heq : l.pushBack h value =
        ((h.make value (some e.id) none).setNext e.id (some h.length),
          ⟨l.front, some h.length⟩) := by
      unfold LinkedList.pushBack
      rw [hback, List.getLast?_concat]
      rfl
    rw [hlast] at hp hw
    rw [heq]
    refine ⟨hp.holds (t := []) hl' ?_ rfl, hw⟩
    rw [hfront]
    cases s <;> rfl

theorem holds_insert {e : Entry κ α} (hl : Holds h l (s ++ e :: t)) (hs : s ≠ []) (value : α) :
    Holds (l.insert h value (some e.id)).1 (l.insert h value (some e.id)).2
        (s ++ ⟨h.length, value, none⟩ :: e :: t) ∧
      Writes h (l.insert h value (some e.id)).1 1 ((s ++ e :: t).map Entry.id) := by
  obtain ⟨s, d, rfl⟩ := (List.eq_nil_or_concat' s).resolve_left hs
  have hp := placed value (s := (s ++ [d]).map Entry.id) (t := (e :: t).map Entry.id)
    (by rw [← List.map_append]; exact hl.1.bound)
  have hlast : ((s ++ [d]).map Entry.id).getLast? = some d.id := by simp
  have hprev : h.prev e.id = some d.id := by
    have hseg := hl.1.seg
    rw [List.map_append, Links.seg_append] at hseg
    rw [← Heap.links_prev, hseg.2.1, hlast]
    rfl
  have heq : l.insert h value (some e.id) =
      (((h.make value (some d.id) (some e.id)).setNext d.id (some h.length)).setPrev e.id
        (some h.length), l) := by
    unfold LinkedList.insert
    dsimp only
    rw [hprev]
    dsimp only
    rw [Heap.setPrev_setNext_comm]
  have hw := hp.writes
  rw [← List.map_append] at hw
  rw [hlast] at hp hw
  rw [heq]
  refine ⟨hp.holds hl ?_ ?_, hw⟩
  · rw [hl.1.front]
    cases s <;> rfl
  · rw [hl.1.back, List.getLast?_map, List.getLast?_append, List.getLast?_cons]
    rfl

theorem relinked {s t : List Nat} (hbound : ∀ a ∈ s ++ t, a < h.length) :
    Relinked h ((h.setNext? s.getLast? t.head?).setPrev? t.head? s.getLast?) s t where
  links := by
    have hlast : ∀ a ∈ s.getLast?, a < h.length :=
      fun a ha => hbound a (List.mem_append_left _ (List.mem_of_getLast? ha))
    have hhead : ∀ a ∈ t.head?, a < (h.setNext? s.getLast? t.head?).length := by
      intro a ha
      rw [Heap.length_setNext?]
      exact hbound a (List.mem_append_right _ (List.mem_of_head? ha))
    rw [Heap.links_setPrev? hhead, Heap.links_setNext? hlast, Links.join, Option.or_none,
      Option.or_none]
  length := by rw [Heap.length_setPrev?, Heap.length_setNext?]
  entry a := by rw [Heap.entry_setPrev?, Heap.entry_setNext?]
  same a hnot := by
    rw [Heap.getElem?_setPrev?_of_ne, Heap.getElem?_setNext?_of_ne]
    · exact fun h => hnot (List.mem_append_left _ (List.mem_of_getLast? h))
    · exact fun h => hnot (List.mem_append_right _ (List.mem_of_head? h))

theorem Relinked.writes {s t : List Nat} (hr : Relinked h h' s t) : Writes h h' 0 (s ++ t) :=
  ⟨hr.length, fun a _ => hr.same a⟩

theorem erase_eq {item : Nat} {p q : Option Nat} (hp : h.prev item = p) (hq : h.next item = q)
    (hne : p ≠ some item) :
    l.erase h item = ((h.setNext? p q).setPrev? q p,
      ⟨if p.isSome then l.front else q, if q.isSome then l.back else p⟩) := by
  unfold LinkedList.erase
  rw [hp, hq]
  cases p with
  | none =>
      dsimp only
      rw [hp, hq]
      cases q <;> rfl
  | some d =>
      have hget : (h.setNext d q)[item]? = h[item]? :=
        Heap.getElem?_setNext_of_ne fun hd => hne (congrArg some hd)
      have hp' : (h.setNext d q).prev item = some d := by rw [Heap.prev, hget, ← hp, Heap.prev]
      have hq' : (h.setNext d q).next item = q := by rw [Heap.next, hget, ← hq, Heap.next]
      dsimp only
      rw [hp', hq']
      cases q <;> rfl

theorem holds_erase {e : Entry κ α} (hl : Holds h l (s ++ e :: t)) :
    Holds (l.erase h e.id).1 (l.erase h e.id).2 (s ++ t) ∧
      Writes h (l.erase h e.id).1 0 ((s ++ e :: t).map Entry.id) ∧
      h.next e.id = t.head?.map Entry.id := by
  have hseg := hl.1.seg
  rw [List.map_append, Links.seg_append, List.map_cons, Links.seg_cons] at hseg
  obtain ⟨hs, hprev, hnext, ht⟩ := hseg
  rw [Option.or_none, List.getLast?_map, Heap.links_prev] at hprev
  rw [Option.or_none, List.head?_map, Heap.links_next] at hnext
  have hsub : (s ++ t).map Entry.id ⊆ (s ++ e :: t).map Entry.id := by
    refine List.map_subset _ fun x hx => ?_
    rcases List.mem_append.mp hx with hx | hx
    · exact List.mem_append_left _ hx
    · exact List.mem_append_right _ (List.mem_cons_of_mem _ hx)
  have hnodup : ((s ++ t).map Entry.id).Nodup := by
    have := hl.1.nodup
    rw [List.map_append, List.map_cons, List.nodup_middle] at this
    rw [List.map_append]
    exact (List.nodup_cons.mp this).2
  have hbound : ∀ a ∈ (s ++ t).map Entry.id, a < h.length := fun a ha => hl.1.bound a (hsub ha)
  have hr := relinked (h := h) (s := s.map Entry.id) (t := t.map Entry.id)
    (by rw [← List.map_append]; exact hbound)
  have heq : l.erase h e.id =
      ((h.setNext? (s.getLast?.map Entry.id) (t.head?.map Entry.id)).setPrev?
          (t.head?.map Entry.id) (s.getLast?.map Entry.id),
        ⟨((s ++ t).map Entry.id).head?, ((s ++ t).map Entry.id).getLast?⟩) := by
    have hne : s.getLast?.map Entry.id ≠ some e.id := by
      intro heq
      have hnot := hl.1.nodup
      rw [List.map_append, List.map_cons, List.nodup_middle] at hnot
      refine (List.nodup_cons.mp hnot).1 (List.mem_append_left _ ?_)
      rw [← List.getLast?_map] at heq
      exact List.mem_of_getLast? heq
    have hfront : (if (s.getLast?.map Entry.id).isSome then l.front else t.head?.map Entry.id) =
        ((s ++ t).map Entry.id).head? := by
      rw [hl.1.front]
      cases s <;> simp [List.getLast?_cons]
    have hback : (if (t.head?.map Entry.id).isSome then l.back else s.getLast?.map Entry.id) =
        ((s ++ t).map Entry.id).getLast? := by
      rw [hl.1.back]
      cases t <;> simp [List.getLast?_cons]
    rw [erase_eq hprev hnext hne, hfront, hback]
  rw [heq, ← List.getLast?_map, ← List.head?_map]
  have hw := hr.writes
  refine ⟨hr.holds hs ht hnodup hbound (fun x hx => hl.2 x ?_) rfl rfl,
    ⟨hw.length, fun a ha hnot => hw.same a ha fun hin => hnot ?_⟩, by rw [hnext, List.head?_map]⟩
  · rcases List.mem_append.mp hx with hx | hx
    · exact List.mem_append_left _ hx
    · exact List.mem_append_right _ (List.mem_cons_of_mem _ hx)
  · exact hsub (List.map_append ▸ hin)

theorem holds_joined {l₁ l₂ : LinkedList} (hs : Holds h l₁ s) (ht : Holds h l₂ t)
    (hdisj : (s.map Entry.id).Disjoint (t.map Entry.id)) (hsne : s ≠ []) (htne : t ≠ []) :
    let h' := (h.setNext? l₁.back l₂.front).setPrev? l₂.front l₁.back
    Holds h' ⟨l₁.front, l₂.back⟩ (s ++ t) ∧ Writes h h' 0 ((s ++ t).map Entry.id) := by
  have hbound : ∀ a ∈ (s ++ t).map Entry.id, a < h.length := by
    intro a ha
    rw [List.map_append] at ha
    rcases List.mem_append.mp ha with ha | ha
    · exact hs.1.bound a ha
    · exact ht.1.bound a ha
  have hr := relinked (h := h) (s := s.map Entry.id) (t := t.map Entry.id)
    (by rw [← List.map_append]; exact hbound)
  have hnodup : ((s ++ t).map Entry.id).Nodup := by
    rw [List.map_append]
    exact List.nodup_append'.mpr ⟨hs.1.nodup, ht.1.nodup, hdisj⟩
  rw [hs.1.back, ht.1.front]
  refine ⟨hr.holds hs.1.seg ht.1.seg hnodup hbound (fun e he => ?_) ?_ ?_, ?_⟩
  · rcases List.mem_append.mp he with he | he
    · exact hs.2 e he
    · exact ht.2 e he
  · rw [hs.1.front, List.map_append, List.head?_append_of_ne_nil]
    simpa using hsne
  · rw [ht.1.back, List.map_append, List.getLast?_append_of_ne_nil]
    simpa using htne
  · rw [List.map_append]
    exact hr.writes

theorem Holds.eq_new (hl : Holds h l ([] : List (Entry κ α))) : l = LinkedList.new := by
  have hfront := hl.1.front
  have hback := hl.1.back
  cases l
  exact congrArg₂ LinkedList.mk hfront hback

theorem Writes.refl (h : Heap κ α) (ids : List Nat) : Writes h h 0 ids :=
  ⟨rfl, fun _ _ _ => rfl⟩

theorem holds_mergeBack {l₁ l₂ : LinkedList} (hs : Holds h l₁ s) (ht : Holds h l₂ t)
    (hdisj : (s.map Entry.id).Disjoint (t.map Entry.id)) :
    Holds (l₁.mergeBack h l₂).1 (l₁.mergeBack h l₂).2.1 (s ++ t) ∧
      (l₁.mergeBack h l₂).2.2 = LinkedList.new ∧
      Writes h (l₁.mergeBack h l₂).1 0 ((s ++ t).map Entry.id) := by
  cases t with
  | nil =>
      obtain rfl := ht.eq_new
      rw [List.append_nil]
      exact ⟨hs, rfl, .refl h _⟩
  | cons e t =>
      have hfront : l₂.front = some e.id := ht.1.front
      cases s with
      | nil =>
          obtain rfl := hs.eq_new
          have heq : LinkedList.new.mergeBack h l₂ = (h, l₂, LinkedList.new) := by
            cases l₂
            obtain rfl : _ = some e.id := hfront
            rfl
          rw [heq]
          exact ⟨ht, rfl, .refl h _⟩
      | cons d s =>
          have hback := hs.1.back
          rw [List.map_cons, List.getLast?_cons] at hback
          have heq : l₁.mergeBack h l₂ = ((h.setNext? l₁.back l₂.front).setPrev? l₂.front l₁.back,
              ⟨l₁.front, l₂.back⟩, LinkedList.new) := by
            unfold LinkedList.mergeBack LinkedList.empty
            rw [hfront, hback]
            rfl
          obtain ⟨hl, hw⟩ := holds_joined hs ht hdisj (List.cons_ne_nil d s) (List.cons_ne_nil e t)
          rw [heq]
          exact ⟨hl, rfl, hw⟩

theorem holds_mergeFront {l₁ l₂ : LinkedList} (hs : Holds h l₁ s) (ht : Holds h l₂ t)
    (hdisj : (s.map Entry.id).Disjoint (t.map Entry.id)) :
    Holds (l₂.mergeFront h l₁).1 (l₂.mergeFront h l₁).2.1 (s ++ t) ∧
      (l₂.mergeFront h l₁).2.2 = LinkedList.new ∧
      Writes h (l₂.mergeFront h l₁).1 0 ((s ++ t).map Entry.id) := by
  cases s with
  | nil =>
      obtain rfl := hs.eq_new
      exact ⟨ht, rfl, .refl h _⟩
  | cons d s =>
      have hfront : l₁.front = some d.id := hs.1.front
      cases t with
      | nil =>
          obtain rfl := ht.eq_new
          have heq : LinkedList.new.mergeFront h l₁ = (h, l₁, LinkedList.new) := by
            cases l₁
            obtain rfl : _ = some d.id := hfront
            rfl
          rw [heq, List.append_nil]
          exact ⟨hs, rfl, .refl h _⟩
      | cons e t =>
          have hback := hs.1.back
          rw [List.map_cons, List.getLast?_cons] at hback
          have hfront₂ : l₂.front = some e.id := ht.1.front
          have heq : l₂.mergeFront h l₁ = ((h.setNext? l₁.back l₂.front).setPrev? l₂.front l₁.back,
              ⟨l₁.front, l₂.back⟩, LinkedList.new) := by
            unfold LinkedList.mergeFront LinkedList.empty
            rw [hfront, hback, hfront₂]
            dsimp only
            rw [Heap.setPrev_setNext_comm]
            rfl
          obtain ⟨hl, hw⟩ := holds_joined hs ht hdisj (List.cons_ne_nil d s) (List.cons_ne_nil e t)
          rw [heq]
          exact ⟨hl, rfl, hw⟩

end Lists

end JyQipai.Basefunc
