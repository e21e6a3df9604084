import JyQipai.Common.ListHeap

/-!
# Linked lists as sequences

A list stands for the sequence of its items, a listmap for one whose members have a key.
The calls act on the sequences at one place each, as long as `insert` is not told to go
before the first member: it sets the links of the item that it makes, and leaves the list's
reference to its first item as it was.
-/

namespace JyQipai.Basefunc

variable {κ α : Type}

def insertBefore (item : Nat) (e : Entry κ α) : List (Entry κ α) → List (Entry κ α)
  | [] => []
  | x :: s => if x.id = item then e :: x :: s else x :: insertBefore item e s

def following (item : Nat) : List (Entry κ α) → Option Nat
  | [] => none
  | x :: s => if x.id = item then s.head?.map Entry.id else following item s

/-- `made` counts the members that were ever made. -/
structure Seqs (ι τ κ α : Type) where
  seq : ι ⊕ τ → List (Entry κ α)
  made : Nat

namespace Seqs

variable {ι τ : Type} [DecidableEq ι] [DecidableEq τ] [DecidableEq κ]

def new : Seqs ι τ κ α := ⟨fun _ => [], 0⟩

def ids (S : Seqs ι τ κ α) (o : ι ⊕ τ) : List Nat := (S.seq o).map Entry.id

def keys (S : Seqs ι τ κ α) (m : τ) : List κ := (S.seq (.inr m)).filterMap Entry.key

def put (S : Seqs ι τ κ α) (o : ι ⊕ τ) (s : List (Entry κ α)) : Seqs ι τ κ α :=
  { S with seq := Function.update S.seq o s }

/-- The sequence `o` becomes what `f` makes of it and a new member. -/
def make (S : Seqs ι τ κ α) (o : ι ⊕ τ) (value : α) (key : Option κ)
    (f : Entry κ α → List (Entry κ α) → List (Entry κ α)) : Seqs ι τ κ α :=
  { S.put o (f ⟨S.made, value, key⟩ (S.seq o)) with made := S.made + 1 }

def tryMake (S : Seqs ι τ κ α) (m : τ) (key : κ) (value : α)
    (f : Entry κ α → List (Entry κ α) → List (Entry κ α)) : Seqs ι τ κ α × Ret κ α :=
  if key ∈ S.keys m then (S, .raised)
  else (S.make (.inr m) value (some key) f, .nothing)

def tryPop (S : Seqs ι τ κ α) (m : τ) (e : Option (Entry κ α)) (rest : List (Entry κ α)) :
    Seqs ι τ κ α × Ret κ α :=
  match e with
  | some ⟨_, value, some key⟩ => (S.put (.inr m) rest, .entry key value)
  | _ => (S, .raised)

def step (S : Seqs ι τ κ α) : Op ι τ κ α → Seqs ι τ κ α × Ret κ α
  | .pushFront l obj => (S.make (.inl l) obj none List.cons, .nothing)
  | .pushBack l obj => (S.make (.inl l) obj none fun e s => s ++ [e], .nothing)
  | .insert l obj (some item) =>
      (S.make (.inl l) obj none (insertBefore item), .nothing)
  | .insert l obj none => (S.make (.inl l) obj none fun e s => s ++ [e], .nothing)
  | .erase l item =>
      (S.put (.inl l) ((S.seq (.inl l)).filter (·.id ≠ item)),
        .item (following item (S.seq (.inl l))))
  | .popFront l =>
      (S.put (.inl l) (S.seq (.inl l)).tail, .value ((S.seq (.inl l)).head?.map Entry.value))
  | .popBack l =>
      (S.put (.inl l) (S.seq (.inl l)).dropLast,
        .value ((S.seq (.inl l)).getLast?.map Entry.value))
  | .mergeFront l other =>
      ((S.put (.inl l) (S.seq (.inl other) ++ S.seq (.inl l))).put (.inl other) [], .nothing)
  | .mergeBack l other =>
      ((S.put (.inl l) (S.seq (.inl l) ++ S.seq (.inl other))).put (.inl other) [], .nothing)
  | .mapPushFront m key value => S.tryMake m key value List.cons
  | .mapPushBack m key value => S.tryMake m key value fun e s => s ++ [e]
  | .mapInsert m key value item => S.tryMake m key value (insertBefore item)
  | .mapErase m key =>
      (S.put (.inr m) ((S.seq (.inr m)).filter (·.key ≠ some key)), .nothing)
  | .mapSet m key value =>
      (S.put (.inr m) ((S.seq (.inr m)).map fun e =>
        if e.key = some key then { e with value := value } else e), .nothing)
  | .mapPopFront m => S.tryPop m (S.seq (.inr m)).head? (S.seq (.inr m)).tail
  | .mapPopBack m => S.tryPop m (S.seq (.inr m)).getLast? (S.seq (.inr m)).dropLast

def run (S : Seqs ι τ κ α) : List (Op ι τ κ α) → Seqs ι τ κ α × List (Ret κ α)
  | [] => (S, [])
  | op :: ops =>
      let (S', r) := S.step op
      let (S'', rs) := S'.run ops
      (S'', r :: rs)

/-- An item that a call is given is a live one of this list, and `other` is another list. -/
def Allows (S : Seqs ι τ κ α) : Op ι τ κ α → Prop
  | .insert l _ (some item) => item ∈ S.ids (.inl l)
  | .erase l item => item ∈ S.ids (.inl l)
  | .mergeFront l other => l ≠ other
  | .mergeBack l other => l ≠ other
  | .mapInsert m _ _ item => item ∈ S.ids (.inr m)
  | _ => True

def AllowsAll (S : Seqs ι τ κ α) : List (Op ι τ κ α) → Prop
  | [] => True
  | op :: ops => S.Allows op ∧ (S.step op).1.AllowsAll ops

def BeforeFront (S : Seqs ι τ κ α) : Op ι τ κ α → Prop
  | .insert l _ (some item) => (S.ids (.inl l)).head? = some item
  | .mapInsert m key _ item => (S.ids (.inr m)).head? = some item ∧ key ∉ S.keys m
  | _ => False

def NeverBeforeFront (S : Seqs ι τ κ α) : List (Op ι τ κ α) → Prop
  | [] => True
  | op :: ops => ¬S.BeforeFront op ∧ (S.step op).1.NeverBeforeFront ops

end Seqs

section Places

variable {h : Heap κ α} {l : LinkedList} {s t : List (Entry κ α)} {e : Entry κ α} {item : Nat}

theorem Holds.split (hl : Holds h l s) (hitem : item ∈ s.map Entry.id) :
    ∃ s₁ e s₂, s = s₁ ++ e :: s₂ ∧ e.id = item ∧ (∀ d ∈ s₁, d.id ≠ item) ∧
      ∀ d ∈ s₂, d.id ≠ item := by
  obtain ⟨e, he, rfl⟩ := List.mem_map.mp hitem
  obtain ⟨s₁, s₂, rfl⟩ := List.append_of_mem he
  have hnodup := hl.1.nodup
  rw [List.map_append, List.map_cons, List.nodup_middle, List.nodup_cons, List.mem_append,
    not_or] at hnodup
  refine ⟨s₁, e, s₂, rfl, rfl, fun d hd heq => ?_, fun d hd heq => ?_⟩
  · exact hnodup.1.1 (List.mem_map.mpr ⟨d, hd, heq⟩)
  · exact hnodup.1.2 (List.mem_map.mpr ⟨d, hd, heq⟩)

theorem insertBefore_append (hs : ∀ d ∈ s, d.id ≠ item) (he : e.id = item) (n : Entry κ α) :
    insertBefore item n (s ++ e :: t) = s ++ n :: e :: t := by
  induction s with
  | nil => exact if_pos he
  | cons d s ih =>
      rw [List.cons_append, insertBefore, if_neg (hs d List.mem_cons_self),
        ih fun x hx => hs x (List.mem_cons_of_mem d hx)]
      rfl

theorem following_append (hs : ∀ d ∈ s, d.id ≠ item) (he : e.id = item) :
    following item (s ++ e :: t) = t.head?.map Entry.id := by
  induction s with
  | nil => exact if_pos he
  | cons d s ih =>
      rw [List.cons_append, following, if_neg (hs d List.mem_cons_self),
        ih fun x hx => hs x (List.mem_cons_of_mem d hx)]

theorem filter_middle {p : Entry κ α → Bool} (hs : ∀ d ∈ s, p d = true) (he : p e = false)
    (ht : ∀ d ∈ t, p d = true) : (s ++ e :: t).filter p = s ++ t := by
  rw [List.filter_append, List.filter_cons_of_neg (by simp [he]), List.filter_eq_self.mpr hs,
    List.filter_eq_self.mpr ht]

theorem Heap.entry_eq (he : h.entry item = some e) :
    ∃ it, h[item]? = some it ∧ it.value = e.value ∧ it.key = e.key := by
  obtain ⟨it, hit, rfl⟩ := Option.map_eq_some_iff.mp he
  exact ⟨it, hit, rfl, rfl⟩

theorem popFront_cons (hl : Holds h l (e :: t)) :
    l.popFront h = (l.erase h e.id, some e.value) := by
  obtain ⟨it, hit, hv, -⟩ := Heap.entry_eq (hl.2 e List.mem_cons_self)
  have hfront : l.front = some e.id := hl.1.front
  unfold LinkedList.popFront
  rw [hfront]
  dsimp only
  rw [hit, Option.map_some, hv]

theorem popBack_concat (hl : Holds h l (s ++ [e])) :
    l.popBack h = (l.erase h e.id, some e.value) := by
  obtain ⟨it, hit, hv, -⟩ := Heap.entry_eq (hl.2 e (List.mem_append_right _ List.mem_cons_self))
  have hback : l.back = some e.id := by
    rw [hl.1.back, List.getLast?_map, List.getLast?_concat, Option.map_some]
  unfold LinkedList.popBack
  rw [hback]
  dsimp only
  rw [hit, Option.map_some, hv]

end Places

section Stored

variable {O : Type} {h h' : Heap κ α} {ends ends' : O → LinkedList}
  {seq seq' : O → List (Entry κ α)}

structure Stored (h : Heap κ α) (ends : O → LinkedList) (seq : O → List (Entry κ α)) : Prop where
  holds : ∀ o, Holds h (ends o) (seq o)
  apart : ∀ o o', o ≠ o' → ((seq o).map Entry.id).Disjoint ((seq o').map Entry.id)

theorem Stored.change (hs : Stored h ends seq) (C : O → Prop) {n : Nat} {W : List Nat}
    (hw : Writes h h' n W) (hW : ∀ a ∈ W, ∃ o, C o ∧ a ∈ (seq o).map Entry.id)
    (hsame : ∀ o, ¬C o → ends' o = ends o ∧ seq' o = seq o)
    (hnew : ∀ o, C o → Holds h' (ends' o) (seq' o))
    (hids : ∀ o, C o → ∀ a ∈ (seq' o).map Entry.id,
      h.length ≤ a ∨ ∃ o', C o' ∧ a ∈ (seq o').map Entry.id)
    (hapart : ∀ o o', C o → C o' → o ≠ o' →
      ((seq' o).map Entry.id).Disjoint ((seq' o').map Entry.id)) :
    Stored h' ends' seq' := by
  have hout (o : O) (ho : ¬C o) (a : Nat) (ha : a ∈ (seq o).map Entry.id) :
      ∀ o', C o' → a ∉ (seq o').map Entry.id := by
    intro o' ho' ha'
    exact hs.apart o o' (fun heq => ho (heq ▸ ho')) ha ha'
  have hmixed (o o' : O) (ho : C o) (ho' : ¬C o') :
      ((seq' o).map Entry.id).Disjoint ((seq' o').map Entry.id) := by
    intro a ha ha'
    rw [(hsame o' ho').2] at ha'
    rcases hids o ho a ha with hfresh | ⟨o'', ho'', hold⟩
    · exact absurd ((hs.holds o').1.bound a ha') (Nat.not_lt_of_le hfresh)
    · exact hout o' ho' a ha' o'' ho'' hold
  refine ⟨fun o => ?_, fun o o' hne => ?_⟩
  · by_cases ho : C o
    · exact hnew o ho
    · rw [(hsame o ho).1, (hsame o ho).2]
      refine (hs.holds o).frame (hw.length ▸ Nat.le_add_right _ n) fun a ha => ?_
      refine hw.same a ((hs.holds o).1.bound a ha) fun haw => ?_
      obtain ⟨o', ho', ha'⟩ := hW a haw
      exact hout o ho a ha o' ho' ha'
  · by_cases ho : C o <;> by_cases ho' : C o'
    · exact hapart o o' ho ho' hne
    · exact hmixed o o' ho ho'
    · exact (hmixed o' o ho' ho).symm
    · rw [(hsame o ho).2, (hsame o' ho').2]
      exact hs.apart o o' hne

variable [DecidableEq O]

theorem Stored.put (hs : Stored h ends seq) (o : O) {l : LinkedList} {s : List (Entry κ α)}
    {n : Nat}
    (hl : Holds h' l s) (hw : Writes h h' n ((seq o).map Entry.id))
    (hids : ∀ a ∈ s.map Entry.id, h.length ≤ a ∨ a ∈ (seq o).map Entry.id) :
    Stored h' (Function.update ends o l) (Function.update seq o s) := by
  refine hs.change (· = o) hw (fun a ha => ⟨o, rfl, ha⟩) (fun o' ho => ?_) ?_ ?_ ?_
  · exact ⟨Function.update_of_ne ho .., Function.update_of_ne ho ..⟩
  · rintro _ rfl
    rw [Function.update_self, Function.update_self]
    exact hl
  · rintro _ rfl a ha
    rw [Function.update_self] at ha
    exact (hids a ha).imp_right fun ha => ⟨_, rfl, ha⟩
  · rintro _ _ rfl rfl hne
    exact absurd rfl hne

theorem Stored.put₂ (hs : Stored h ends seq) {o other : O} (hne : o ≠ other) {l : LinkedList}
    {s : List (Entry κ α)} (hl : Holds h' l s)
    (hs' : ∀ a, a ∈ s.map Entry.id → a ∈ (seq o).map Entry.id ∨ a ∈ (seq other).map Entry.id)
    (hw : Writes h h' 0 (s.map Entry.id)) :
    Stored h' (Function.update (Function.update ends o l) other LinkedList.new)
      (Function.update (Function.update seq o s) other []) := by
  have ho (β : Type) (f : O → β) (b c : β) :
      Function.update (Function.update f o b) other c o = b := by
    rw [Function.update_of_ne hne, Function.update_self]
  refine hs.change (fun x => x = o ∨ x = other) hw (fun a ha => ?_) (fun x hx => ?_) ?_ ?_ ?_
  · exact (hs' a ha).elim (fun ha => ⟨o, .inl rfl, ha⟩) fun ha => ⟨other, .inr rfl, ha⟩
  · rw [not_or] at hx
    simp only [Function.update_of_ne hx.2, Function.update_of_ne hx.1, and_self]
  · rintro x (rfl | rfl)
    · rw [ho, ho]
      exact hl
    · rw [Function.update_self, Function.update_self]
      exact Holds.nil h'
  · rintro x (rfl | rfl) a ha
    · rw [ho] at ha
      exact (hs' a ha).elim (fun ha => .inr ⟨_, .inl rfl, ha⟩) fun ha => .inr ⟨_, .inr rfl, ha⟩
    · rw [Function.update_self] at ha
      exact absurd ha List.not_mem_nil
  · rintro x y (rfl | rfl) (rfl | rfl) hxy
    · exact absurd rfl hxy
    · rw [Function.update_self]
      exact List.disjoint_nil_right _
    · rw [Function.update_self]
      exact List.disjoint_nil_left _
    · exact absurd rfl hxy

end Stored

end JyQipai.Basefunc
