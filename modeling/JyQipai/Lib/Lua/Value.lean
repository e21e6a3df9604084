import Mathlib

/-!
# Lua values

The values a table constructor of constants builds: booleans, numbers, strings and tables of
them.  A string is the list of its bytes, each the character of its code.  A table is the list
of its entries in the order in which `pairs` meets them.
-/

namespace JyQipai.Lib.Lua

abbrev Text := List Char

inductive Key where
  | index (i : Int)
  | name (s : Text)
  deriving DecidableEq

mutual

inductive Value where
  | boolean (b : Bool)
  | integer (i : Int)
  /-- A float by its sign and its magnitude; `none` is infinite. -/
  | float (negative : Bool) (x : Option ℚ)
  | text (s : Text)
  | table (entries : Entries)

inductive Entries where
  | nil
  | cons (k : Key) (v : Value) (rest : Entries)

end

deriving instance DecidableEq for Value, Entries

namespace Entries

def get : Entries → Key → Option Value
  | nil, _ => none
  | cons k v rest, j => if j = k then some v else rest.get j

def set : Entries → Key → Value → Entries
  | nil, j, w => cons j w nil
  | cons k v rest, j, w => if j = k then cons k w rest else cons k v (rest.set j w)

def size : Entries → Nat
  | nil => 0
  | cons _ _ rest => rest.size + 1

@[simp] theorem get_nil (j : Key) : nil.get j = none := rfl

theorem get_set : ∀ (es : Entries) (j k : Key) (w : Value),
    (es.set j w).get k = if k = j then some w else es.get k
  | nil, _, _, _ => rfl
  | cons i v rest, j, k, w => by
      by_cases hij : j = i
      · subst hij
        rw [set, if_pos rfl, get, get]
        split <;> rfl
      · rw [set, if_neg hij, get, get, get_set rest]
        by_cases hki : k = i
        · subst hki
          rw [if_pos rfl, if_pos rfl, if_neg (Ne.symm hij)]
        · rw [if_neg hki, if_neg hki]

end Entries

def Value.number : Value → Option ℚ
  | .integer i => some i
  | .float negative (some x) => some (if negative then -x else x)
  | _ => none

section Texts

variable (f : Text → Text) (P : Text → Prop)

mutual

def Value.mapText : Value → Value
  | .text s => .text (f s)
  | .table es => .table es.mapText
  | .boolean b => .boolean b
  | .integer i => .integer i
  | .float negative x => .float negative x

def Entries.mapText : Entries → Entries
  | .nil => .nil
  | .cons k v rest => .cons k v.mapText rest.mapText

end

mutual

def Value.Texts : Value → Prop
  | .text s => P s
  | .table es => es.Texts
  | .boolean _ => True
  | .integer _ => True
  | .float _ _ => True

def Entries.Texts : Entries → Prop
  | .nil => True
  | .cons _ v rest => v.Texts ∧ rest.Texts

end

variable {P}

mutual

theorem Value.texts_trivial (h : ∀ s, P s) : ∀ v : Value, v.Texts P
  | .text s => h s
  | .table es => es.texts_trivial h
  | .boolean _ => trivial
  | .integer _ => trivial
  | .float _ _ => trivial

theorem Entries.texts_trivial (h : ∀ s, P s) : ∀ es : Entries, es.Texts P
  | .nil => trivial
  | .cons _ v rest => ⟨v.texts_trivial h, rest.texts_trivial h⟩

end

end Texts

theorem Entries.get_mapText (f : Text → Text) : ∀ (es : Entries) (k : Key),
    (es.mapText f).get k = (es.get k).map (Value.mapText f)
  | .nil, _ => rfl
  | .cons j v rest, k => by
      rw [mapText, get, get, get_mapText f rest]
      split <;> rfl

/-- The same table up to its strings: the same keys, and at each key the same boolean, the same
number, strings related by `R` or again such tables. -/
inductive Like (R : Text → Text → Prop) : Value → Value → Prop
  | boolean (b : Bool) : Like R (.boolean b) (.boolean b)
  | number {i : Int} {v : Value} : v.number = some (i : ℚ) → Like R (.integer i) v
  | text {s r : Text} : R s r → Like R (.text s) (.text r)
  | table {es fs : Entries} : (∀ k, (es.get k).isSome = (fs.get k).isSome) →
      (∀ k v w, es.get k = some v → fs.get k = some w → Like R v w) →
      Like R (.table es) (.table fs)

end JyQipai.Lib.Lua
