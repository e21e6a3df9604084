import JyQipai.Lib.Links
import Mathlib.Data.List.Lattice

/-!
# `basefunc.list` and `basefunc.listmap`

The items of all lists are tables that are referred to; here an item is referred to by its
position among the items made so far, and none is ever taken away.  A call that fails an
assertion or reads a field of nil has raised, and has changed nothing.
-/

namespace JyQipai.Basefunc

open Lib (Links)

/-- The table `{obj, prev=…, next=…}`; `key` is its field 2, which only a listmap writes. -/
structure Item (κ α : Type) where
  value : α
  key : Option κ
  prev : Option Nat
  next : Option Nat

abbrev Heap (κ α : Type) := List (Item κ α)

/-- What a call returns; `raised` is an error. -/
inductive Ret (κ α : Type) where
  | nothing
  | value (v : Option α)
  | entry (k : κ) (v : α)
  /-- an item of a list, or the end -/
  | item (next : Option Nat)
  | raised
deriving DecidableEq

variable {κ α : Type}

namespace Heap

def prev (h : Heap κ α) (item : Nat) : Option Nat := h[item]?.bind Item.prev

def next (h : Heap κ α) (item : Nat) : Option Nat := h[item]?.bind Item.next

def make (h : Heap κ α) (obj : α) (p q : Option Nat) : Heap κ α := h ++ [⟨obj, none, p, q⟩]

def setPrev (h : Heap κ α) (item : Nat) (p : Option Nat) : Heap κ α :=
  h.modify item fun it => { it with prev := p }

def setNext (h : Heap κ α) (item : Nat) (q : Option Nat) : Heap κ α :=
  h.modify item fun it => { it with next := q }

def setKey (h : Heap κ α) (item : Nat) (k : κ) : Heap κ α :=
  h.modify item fun it => { it with key := some k }

def setValue (h : Heap κ α) (item : Nat) (v : α) : Heap κ α :=
  h.modify item fun it => { it with value := v }

end Heap

/-- `basefunc.list` -/
structure LinkedList where
  front : Option Nat
  back : Option Nat
deriving DecidableEq

namespace LinkedList

def new : LinkedList := ⟨none, none⟩

def empty (self : LinkedList) : Bool := self.front.isNone

def pushFront (h : Heap κ α) (self : LinkedList) (obj : α) : Heap κ α × LinkedList :=
  let item := h.length
  match self.front with
  | some cur =>
      ((h.make obj none (some cur)).setPrev cur (some item),
        { self with front := some item })
  | none => (h.make obj none none, ⟨some item, some item⟩)

def pushBack (h : Heap κ α) (self : LinkedList) (obj : α) : Heap κ α × LinkedList :=
  let item := h.length
  match self.back with
  | some cur =>
      ((h.make obj (some cur) none).setNext cur (some item),
        { self with back := some item })
  | none => (h.make obj none none, ⟨some item, some item⟩)

def mergeFront (h : Heap κ α) (self other : LinkedList) :
    Heap κ α × LinkedList × LinkedList :=
  if other.empty then (h, self, other)
  else
    match self.front, other.back with
    | some cur, some last =>
        ((h.setPrev cur (some last)).setNext last (some cur),
          { self with front := other.front }, new)
    -- a list that is not empty has a last item
    | some _, none => (h, self, other)
    | none, back => (h, ⟨other.front, back⟩, new)

def mergeBack (h : Heap κ α) (self other : LinkedList) :
    Heap κ α × LinkedList × LinkedList :=
  if other.empty then (h, self, other)
  else
    match self.back, other.front with
    | some cur, some first =>
        ((h.setNext cur (some first)).setPrev first (some cur),
          { self with back := other.back }, new)
    | some _, none => (h, self, other)
    | none, front => (h, ⟨front, other.back⟩, new)

def erase (h : Heap κ α) (self : LinkedList) (item : Nat) : Heap κ α × LinkedList :=
  let (h, self) := match h.prev item with
    | some p => (h.setNext p (h.next item), self)
    | none => (h, { self with front := h.next item })
  match h.next item with
  | some n => (h.setPrev n (h.prev item), self)
  | none => (h, { self with back := h.prev item })

/-- `where` may be nil.  The end pointers are not looked at. -/
def insert (h : Heap κ α) (self : LinkedList) (obj : α) (where? : Option Nat) :
    Heap κ α × LinkedList :=
  match where? with
  | some w =>
      let objItem := h.length
      let p := h.prev w
      let h := (h.make obj p (some w)).setPrev w (some objItem)
      match p with
      | some p => (h.setNext p (some objItem), self)
      | none => (h, self)
  | none => self.pushBack h obj

def popFront (h : Heap κ α) (self : LinkedList) : (Heap κ α × LinkedList) × Option α :=
  match self.front with
  | some item => (self.erase h item, h[item]?.map Item.value)
  | none => ((h, self), none)

def popBack (h : Heap κ α) (self : LinkedList) : (Heap κ α × LinkedList) × Option α :=
  match self.back with
  | some item => (self.erase h item, h[item]?.map Item.value)
  | none => ((h, self), none)

/-- The items and values that the iterator `pairs` gives in `n` steps; `none` when it is
not through. -/
def pairs (h : Heap κ α) (self : LinkedList) (n : Nat) : Option (List (Nat × α)) :=
  (Links.walk h.next n self.front).bind
    (List.mapM fun item => h[item]?.map fun it => (item, it.value))

def rpairs (h : Heap κ α) (self : LinkedList) (n : Nat) : Option (List (Nat × α)) :=
  (Links.walk h.prev n self.back).bind
    (List.mapM fun item => h[item]?.map fun it => (item, it.value))

end LinkedList

structure ListMap (κ : Type) where
  list : LinkedList
  map : κ → Option Nat

namespace ListMap

variable [DecidableEq κ]

def new : ListMap κ := ⟨LinkedList.new, fun _ => none⟩

def enter (h : Heap κ α) (self : ListMap κ) (list : LinkedList) (key : κ)
    (item : Option Nat) : Heap κ α × ListMap κ :=
  match item with
  | some item => (h.setKey item key, ⟨list, Function.update self.map key (some item)⟩)
  | none => (h, ⟨list, self.map⟩)

def pushFront (h : Heap κ α) (self : ListMap κ) (key : κ) (value : α) :
    Option (Heap κ α × ListMap κ) :=
  if (self.map key).isSome then none
  else
    let (h, list) := self.list.pushFront h value
    some (self.enter h list key list.front)

def pushBack (h : Heap κ α) (self : ListMap κ) (key : κ) (value : α) :
    Option (Heap κ α × ListMap κ) :=
  if (self.map key).isSome then none
  else
    let (h, list) := self.list.pushBack h value
    some (self.enter h list key list.back)

/-- `where` is an item. -/
def insert (h : Heap κ α) (self : ListMap κ) (key : κ) (value : α) (w : Nat) :
    Option (Heap κ α × ListMap κ) :=
  if (self.map key).isSome then none
  else
    let (h, list) := self.list.insert h value (some w)
    some (self.enter h list key (h.prev w))

def erase (h : Heap κ α) (self : ListMap κ) (key : κ) : Heap κ α × ListMap κ :=
  match self.map key with
  | some item =>
      let (h, list) := self.list.erase h item
      (h, ⟨list, Function.update self.map key none⟩)
  | none => (h, self)

def set (h : Heap κ α) (self : ListMap κ) (key : κ) (value : α) : Heap κ α :=
  match self.map key with
  | some item => h.setValue item value
  | none => h

def pop (h : Heap κ α) (self : ListMap κ) (item : Option Nat)
    (popEnd : Heap κ α → (Heap κ α × LinkedList) × Option α) :
    Option ((Heap κ α × ListMap κ) × κ × α) := do
  let item ← item
  let it ← h[item]?
  let key ← it.key
  let (h, list) := (popEnd h).1
  return ((h, ⟨list, Function.update self.map key none⟩), key, it.value)

def popFront (h : Heap κ α) (self : ListMap κ) : Option ((Heap κ α × ListMap κ) × κ × α) :=
  self.pop h self.list.front self.list.popFront

def popBack (h : Heap κ α) (self : ListMap κ) : Option ((Heap κ α × ListMap κ) × κ × α) :=
  self.pop h self.list.back self.list.popBack

end ListMap

/-! ## Calls on any number of lists and listmaps -/

/-- The lists are `ι`, the listmaps `τ`. -/
inductive Op (ι τ κ α : Type) where
  | pushFront (l : ι) (obj : α)
  | pushBack (l : ι) (obj : α)
  | insert (l : ι) (obj : α) (where? : Option Nat)
  | erase (l : ι) (item : Nat)
  | popFront (l : ι)
  | popBack (l : ι)
  | mergeFront (l other : ι)
  | mergeBack (l other : ι)
  | mapPushFront (m : τ) (key : κ) (value : α)
  | mapPushBack (m : τ) (key : κ) (value : α)
  | mapInsert (m : τ) (key : κ) (value : α) (w : Nat)
  | mapErase (m : τ) (key : κ)
  | mapSet (m : τ) (key : κ) (value : α)
  | mapPopFront (m : τ)
  | mapPopBack (m : τ)

structure World (ι τ κ α : Type) where
  heap : Heap κ α
  list : ι → LinkedList
  listmap : τ → ListMap κ

namespace World

variable {ι τ : Type} [DecidableEq ι] [DecidableEq τ] [DecidableEq κ]

def new : World ι τ κ α := ⟨[], fun _ => LinkedList.new, fun _ => ListMap.new⟩

def putList (w : World ι τ κ α) (l : ι) (r : Heap κ α × LinkedList) : World ι τ κ α :=
  { w with heap := r.1, list := Function.update w.list l r.2 }

def putMap (w : World ι τ κ α) (m : τ) (r : Heap κ α × ListMap κ) : World ι τ κ α :=
  { w with heap := r.1, listmap := Function.update w.listmap m r.2 }

def putLists (w : World ι τ κ α) (l other : ι) (r : Heap κ α × LinkedList × LinkedList) :
    World ι τ κ α :=
  { w with
    heap := r.1
    list := Function.update (Function.update w.list l r.2.1) other r.2.2 }

def tryMap (w : World ι τ κ α) (m : τ) (r : Option (Heap κ α × ListMap κ)) :
    World ι τ κ α × Ret κ α :=
  match r with
  | some r => (w.putMap m r, .nothing)
  | none => (w, .raised)

def tryPop (w : World ι τ κ α) (m : τ) (r : Option ((Heap κ α × ListMap κ) × κ × α)) :
    World ι τ κ α × Ret κ α :=
  match r with
  | some (r, key, value) => (w.putMap m r, .entry key value)
  | none => (w, .raised)

def step (w : World ι τ κ α) : Op ι τ κ α → World ι τ κ α × Ret κ α
  | .pushFront l obj => (w.putList l ((w.list l).pushFront w.heap obj), .nothing)
  | .pushBack l obj => (w.putList l ((w.list l).pushBack w.heap obj), .nothing)
  | .insert l obj where? => (w.putList l ((w.list l).insert w.heap obj where?), .nothing)
  | .erase l item => (w.putList l ((w.list l).erase w.heap item), .item (w.heap.next item))
  | .popFront l =>
      let (r, v) := (w.list l).popFront w.heap
      (w.putList l r, .value v)
  | .popBack l =>
      let (r, v) := (w.list l).popBack w.heap
      (w.putList l r, .value v)
  | .mergeFront l other =>
      (w.putLists l other ((w.list l).mergeFront w.heap (w.list other)), .nothing)
  | .mergeBack l other =>
      (w.putLists l other ((w.list l).mergeBack w.heap (w.list other)), .nothing)
  | .mapPushFront m key value => w.tryMap m ((w.listmap m).pushFront w.heap key value)
  | .mapPushBack m key value => w.tryMap m ((w.listmap m).pushBack w.heap key value)
  | .mapInsert m key value item =>
      w.tryMap m ((w.listmap m).insert w.heap key value item)
  | .mapErase m key => (w.putMap m ((w.listmap m).erase w.heap key), .nothing)
  | .mapSet m key value => ({ w with heap := (w.listmap m).set w.heap key value }, .nothing)
  | .mapPopFront m => w.tryPop m ((w.listmap m).popFront w.heap)
  | .mapPopBack m => w.tryPop m ((w.listmap m).popBack w.heap)

def run (w : World ι τ κ α) : List (Op ι τ κ α) → World ι τ κ α × List (Ret κ α)
  | [] => (w, [])
  | op :: ops =>
      let (w', r) := w.step op
      let (w'', rs) := w'.run ops
      (w'', r :: rs)

def ends (w : World ι τ κ α) : ι ⊕ τ → LinkedList
  | .inl l => w.list l
  | .inr m => (w.listmap m).list

end World

end JyQipai.Basefunc
