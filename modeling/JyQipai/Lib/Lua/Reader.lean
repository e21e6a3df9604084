import JyQipai.Lib.Lua.Lexer

/-!
# Reading a Lua value

The part of Lua's parser that reads `return` and a constant: a boolean, a number, a string or a
table constructor of named and indexed fields.  Anything else is `none`, like a syntax error.
Every expression takes one of the levels the parser has left (`LUAI_MAXCCALLS`); a constructor
nested too deep is an error.  Other limits of the compiled code, such as the number of constants
it can hold, are not modelled.
-/

namespace JyQipai.Lib.Lua

def negate : Value → Option Value
  | .integer i => some (.integer (-i))
  | .float negative x => some (.float (!negative) x)
  | _ => none

def inRange (i : Int) : Prop := -2 ^ 63 ≤ i ∧ i < 2 ^ 63

instance (i : Int) : Decidable (inRange i) := inferInstanceAs (Decidable (_ ∧ _))

def floatKey (x : ℚ) : Option Key :=
  if x.den = 1 ∧ inRange x.num then some (.index x.num) else none

def toKey : Value → Option Key
  | .integer i => some (.index i)
  | .text s => some (.name s)
  | .float negative x => (Value.float negative x).number.bind floatKey
  | .boolean _ => none
  | .table _ => none

def recfield (expr : List Token → Option (Value × List Token)) :
    List Token → Option (Key × Value × List Token)
  | .name k :: .symbol '=' :: ts => (expr ts).map fun r => (.name k, r)
  | .symbol '[' :: ts =>
      match expr ts with
      | some (k, .symbol ']' :: .symbol '=' :: ts) =>
          (toKey k).bind fun k => (expr ts).map fun r => (k, r)
      | _ => none
  | _ => none

/-- The fields of a constructor, `n` of them at the most, up to its closing brace. -/
def constructor (expr : List Token → Option (Value × List Token)) :
    Nat → Entries → List Token → Option (Entries × List Token)
  | 0, _, _ => none
  | n + 1, es, ts =>
      match ts with
      | .symbol '}' :: ts => some (es, ts)
      | ts =>
          match recfield expr ts with
          | some (k, v, .symbol ',' :: ts) => constructor expr n (es.set k v) ts
          | some (k, v, .symbol ';' :: ts) => constructor expr n (es.set k v) ts
          | some (k, v, .symbol '}' :: ts) => some (es.set k v, ts)
          | _ => none

def expr : Nat → List Token → Option (Value × List Token)
  | 0, _ => none
  | n + 1, ts =>
      match ts with
      | .symbol '{' :: ts =>
          (constructor (expr n) ts.length .nil ts).map fun r => (.table r.1, r.2)
      | .symbol '-' :: ts => (expr n ts).bind fun r => (negate r.1).map fun v => (v, r.2)
      | .number v :: ts => some (v, ts)
      | .text s :: ts => some (.text s, ts)
      | .reserved s :: ts =>
          if s = "true".toList then some (.boolean true, ts)
          else if s = "false".toList then some (.boolean false, ts)
          else none
      | _ => none

/-- What a chunk `return exp` gives, when it is read with `levels` levels left. -/
def load (levels : Nat) (code : Text) : Option Value :=
  match tokens code with
  | some (.reserved s :: ts) =>
      if s = "return".toList then
        match expr levels ts with
        | some (v, []) => some v
        | some (v, [.symbol ';']) => some v
        | _ => none
      else none
  | _ => none

/-! ## The tokens of a value -/

def integerTokens (i : Int) : List Token :=
  if i < 0 then [.symbol '-', .number (numeral i.natAbs)] else [.number (numeral i.natAbs)]

def Key.tokens : Key → List Token
  | .name s => [.name s]
  | .index i => .symbol '[' :: integerTokens i ++ [.symbol ']']

mutual

def Value.tokens : Value → List Token
  | .boolean true => [.reserved "true".toList]
  | .boolean false => [.reserved "false".toList]
  | .integer i => integerTokens i
  | .float _ _ => []
  | .text s => [.text s]
  | .table es => .symbol '{' :: es.tokens ++ [.symbol '}']

def Entries.tokens : Entries → List Token
  | .nil => []
  | .cons k v .nil => k.tokens ++ .symbol '=' :: v.tokens
  | .cons k v (.cons k' v' rest) =>
      k.tokens ++ .symbol '=' :: v.tokens ++ .symbol ',' :: (Entries.cons k' v' rest).tokens

end

/-! ## What is read from them -/

def integerRead (i : Int) : Value :=
  if i < 0 then (negate (numeral i.natAbs)).getD (.integer i) else numeral i.natAbs

mutual

def Value.read : Value → Value
  | .integer i => integerRead i
  | .table es => .table (es.readInto .nil)
  | .boolean b => .boolean b
  | .float negative x => .float negative x
  | .text s => .text s

def Entries.readInto : Entries → Entries → Entries
  | .nil, es => es
  | .cons k v rest, es => rest.readInto (es.set k v.read)

end

/-! ## Levels -/

def integerLevels (i : Int) : Nat := if i < 0 then 2 else 1

def Key.levels : Key → Nat
  | .name _ => 0
  | .index i => integerLevels i

mutual

def Value.levels : Value → Nat
  | .integer i => integerLevels i
  | .table es => es.levels + 1
  | .boolean _ => 1
  | .float _ _ => 1
  | .text _ => 1

def Entries.levels : Entries → Nat
  | .nil => 0
  | .cons k v rest => max (max k.levels v.levels) rest.levels

end

/-! ## Values that can be written as a constructor -/

def Identifier : Text → Prop
  | [] => False
  | c :: s => isAlpha c = true ∧ (∀ d ∈ s, isAlnum d = true) ∧ c :: s ∉ reservedWords

def Key.Writable : Key → Prop
  | .name s => Identifier s
  | .index i => inRange i

mutual

/-- Integers of 64 bits, identifiers for the names, no key twice in a table, and no floats. -/
def Value.Writable : Value → Prop
  | .integer i => inRange i
  | .table es => es.Writable
  | .boolean _ => True
  | .float _ _ => False
  | .text _ => True

def Entries.Writable : Entries → Prop
  | .nil => True
  | .cons k v rest => k.Writable ∧ v.Writable ∧ rest.get k = none ∧ rest.Writable

end

theorem Entries.size_le_tokens : ∀ es : Entries, es.size ≤ es.tokens.length
  | .nil => le_rfl
  | .cons k v .nil => by
      simp only [size, tokens, List.length_append, List.length_cons]
      omega
  | .cons k v (.cons k' v' rest) => by
      have ih := size_le_tokens (.cons k' v' rest)
      rw [size, tokens]
      simp only [List.length_append, List.length_cons]
      omega

/-! ## Numbers -/

theorem numeral_of_lt {n : Nat} (hn : n < 2 ^ 63) : numeral n = .integer n := if_pos hn

theorem numeral_limit : numeral (2 ^ 63) = .float false (some (2 ^ 63)) := by
  have hexact := double_two_pow (a := 63) (by norm_num)
  rw [numeral, if_neg (lt_irrefl _)]
  norm_num at hexact ⊢
  exact hexact

theorem integerRead_eq {i : Int} (hi : inRange i) :
    integerRead i = if i = -2 ^ 63 then .float true (some (2 ^ 63)) else .integer i := by
  obtain ⟨hlow, hhigh⟩ := hi
  by_cases hneg : i < 0
  · rw [integerRead, if_pos hneg]
    split
    case isTrue hmin =>
        subst hmin
        have habs : (-2 ^ 63 : Int).natAbs = 2 ^ 63 := rfl
        rw [habs, numeral_limit]
        rfl
    case isFalse hmin =>
        rw [numeral_of_lt (by omega), negate, Option.getD_some]
        congr 1
        omega
  · rw [integerRead, if_neg hneg, if_neg (by omega), numeral_of_lt (by omega)]
    congr 1
    omega

theorem integerRead_number {i : Int} (hi : inRange i) : (integerRead i).number = some (i : ℚ) := by
  rw [integerRead_eq hi]
  split
  case isTrue h =>
      subst h
      norm_num [Value.number]
  case isFalse => rfl

theorem negate_numeral (n : Nat) : ∃ v, negate (numeral n) = some v := by
  unfold numeral
  split
  · exact ⟨_, rfl⟩
  · exact ⟨_, rfl⟩

theorem expr_integer (i : Int) (n : Nat) (ts : List Token) :
    expr n (integerTokens i ++ ts) =
      if integerLevels i ≤ n then some (integerRead i, ts) else none := by
  by_cases hneg : i < 0
  · obtain ⟨v, hv⟩ := negate_numeral i.natAbs
    rw [integerTokens, if_pos hneg, integerLevels, if_pos hneg, integerRead, if_pos hneg, hv]
    match n with
    | 0 => rfl
    | 1 => rfl
    | n + 2 =>
        rw [if_pos (by omega)]
        simp only [List.cons_append, List.nil_append, expr, Option.bind_some, hv, Option.map_some,
          Option.getD_some]
  · rw [integerTokens, if_neg hneg, integerLevels, if_neg hneg, integerRead, if_neg hneg]
    match n with
    | 0 => rfl
    | n + 1 => rw [if_pos (by omega), List.cons_append, List.nil_append, expr]

theorem toKey_integerRead {i : Int} (hi : inRange i) : toKey (integerRead i) = some (.index i) := by
  have hnumber := integerRead_number hi
  rw [integerRead_eq hi] at hnumber ⊢
  split
  case isTrue h =>
      rw [if_pos h] at hnumber
      have hrange : (i : ℚ).den = 1 ∧ inRange (i : ℚ).num :=
        ⟨Rat.den_intCast i, by rwa [Rat.num_intCast]⟩
      rw [toKey, hnumber, Option.bind_some, floatKey, if_pos hrange, Rat.num_intCast]
  case isFalse => rfl

theorem recfield_tokens {k : Key} {v : Value} {n : Nat} {ts : List Token} (hk : k.Writable)
    (hv : expr n (v.tokens ++ ts) = if v.levels ≤ n then some (v.read, ts) else none) :
    recfield (expr n) (k.tokens ++ .symbol '=' :: v.tokens ++ ts) =
      if max k.levels v.levels ≤ n then some (k, v.read, ts) else none := by
  have hvalue : (expr n (v.tokens ++ ts)).map (fun r => (k, r)) =
      if v.levels ≤ n then some (k, v.read, ts) else none := by
    rw [hv]
    split <;> rfl
  cases k with
  | name s =>
      have hlevels : max (Key.name s).levels v.levels ≤ n ↔ v.levels ≤ n := by
        rw [max_le_iff]
        exact and_iff_right (Nat.zero_le n)
      simp only [hlevels]
      exact hvalue
  | index i =>
      have hi := expr_integer i n (.symbol ']' :: .symbol '=' :: (v.tokens ++ ts))
      simp only [Key.tokens, List.cons_append, List.append_assoc, List.nil_append, recfield, hi]
      by_cases hlevels : integerLevels i ≤ n
      · have hmax : max (Key.index i).levels v.levels ≤ n ↔ v.levels ≤ n := by
          rw [max_le_iff]
          exact and_iff_right hlevels
        simp only [hlevels, ↓reduceIte, toKey_integerRead hk, Option.bind_some, hmax]
        exact hvalue
      · have hmax : ¬max (Key.index i).levels v.levels ≤ n :=
          fun h => hlevels ((le_max_left _ _).trans h)
        simp only [hlevels, hmax, ↓reduceIte]

theorem constructor_cons {n m : Nat} {k : Key} {acc : Entries} {ts : List Token} :
    constructor (expr n) (m + 1) acc (k.tokens ++ ts) =
      match recfield (expr n) (k.tokens ++ ts) with
      | some (k, v, .symbol ',' :: ts) => constructor (expr n) m (acc.set k v) ts
      | some (k, v, .symbol ';' :: ts) => constructor (expr n) m (acc.set k v) ts
      | some (k, v, .symbol '}' :: ts) => some (acc.set k v, ts)
      | _ => none := by
  cases k with
  | name s => rfl
  | index i => rfl

mutual

theorem expr_tokens : ∀ (v : Value) (n : Nat) (ts : List Token), v.Writable →
    expr n (v.tokens ++ ts) = if v.levels ≤ n then some (v.read, ts) else none
  | .boolean b, 0, ts, _ => by cases b <;> rfl
  | .boolean b, n + 1, ts, _ => by
      rw [Value.levels, if_pos (by omega)]
      cases b <;> rfl
  | .integer i, n, ts, _ => expr_integer i n ts
  | .float _ _, _, _, h => h.elim
  | .text s, 0, ts, _ => rfl
  | .text s, n + 1, ts, _ => by
      rw [Value.levels, if_pos (by omega)]
      rfl
  | .table es, 0, ts, _ => rfl
  | .table es, n + 1, ts, h => by
      obtain ⟨m, hm⟩ : ∃ m, (es.tokens ++ .symbol '}' :: ts).length = m + 1 :=
        ⟨es.tokens.length + ts.length, by
          rw [List.length_append, List.length_cons]
          omega⟩
      have hsize : es.size ≤ m := by
        have := es.size_le_tokens
        rw [List.length_append, List.length_cons] at hm
        omega
      have hfields := constructor_tokens es n m .nil ts h hsize
      simp only [Value.tokens, Value.levels, Value.read, List.cons_append, List.append_assoc,
        List.nil_append, expr, hm, hfields, Nat.add_le_add_iff_right]
      split <;> rfl

theorem constructor_tokens : ∀ (es : Entries) (n m : Nat) (acc : Entries) (ts : List Token),
    es.Writable → es.size ≤ m →
      constructor (expr n) (m + 1) acc (es.tokens ++ .symbol '}' :: ts) =
        if es.levels ≤ n then some (es.readInto acc, ts) else none
  | .nil, n, m, acc, ts, _, _ => by
      rw [Entries.levels, if_pos (Nat.zero_le n)]
      rfl
  | .cons k v .nil, n, m, acc, ts, h, _ => by
      have hfield := recfield_tokens h.1 (expr_tokens v n (.symbol '}' :: ts) h.2.1)
      have hlevels : (Entries.cons k v .nil).levels = max k.levels v.levels := Nat.max_zero _
      simp only [Entries.tokens, List.append_assoc] at hfield ⊢
      rw [constructor_cons, hfield]
      by_cases hkv : max k.levels v.levels ≤ n
      · simp only [hlevels, hkv, ↓reduceIte]
        rfl
      · simp only [hlevels, hkv, ↓reduceIte]
  | .cons k v (.cons k' v' rest), n, m, acc, ts, h, hm => by
      obtain ⟨m, rfl⟩ : ∃ l, m = l + 1 := ⟨m - 1, by
        have : 0 < m := Nat.lt_of_lt_of_le (Nat.succ_pos _) hm
        omega⟩
      have hrest := constructor_tokens (.cons k' v' rest) n m (acc.set k v.read) ts h.2.2.2
        (Nat.le_of_succ_le_succ hm)
      have hfield := recfield_tokens h.1 (expr_tokens v n
        (.symbol ',' :: ((Entries.cons k' v' rest).tokens ++ .symbol '}' :: ts)) h.2.1)
      have hlevels : (Entries.cons k v (.cons k' v' rest)).levels ≤ n ↔
          max k.levels v.levels ≤ n ∧ (Entries.cons k' v' rest).levels ≤ n := max_le_iff
      simp only [Entries.tokens, List.append_assoc, List.cons_append] at hfield hrest ⊢
      rw [constructor_cons, hfield]
      by_cases hkv : max k.levels v.levels ≤ n
      · simp only [hlevels, hkv, ↓reduceIte, true_and]
        exact hrest
      · simp only [hlevels, hkv, ↓reduceIte, false_and]

end

/-! ## Tables read as they were -/

theorem Entries.get_readInto : ∀ (es acc : Entries) (k : Key), es.Writable →
    (es.readInto acc).get k = ((es.get k).map Value.read).or (acc.get k)
  | .nil, acc, k, _ => rfl
  | .cons j v rest, acc, k, h => by
      rw [readInto, get_readInto rest _ k h.2.2.2, get_set, get]
      by_cases hk : k = j
      · subst hk
        rw [h.2.2.1, if_pos rfl, if_pos rfl]
        rfl
      · rw [if_neg hk, if_neg hk]

theorem Entries.get_read {es : Entries} (h : es.Writable) (k : Key) :
    (es.readInto .nil).get k = (es.get k).map Value.read := by
  rw [get_readInto es .nil k h, get_nil, Option.or_none]

mutual

theorem Value.writable_mapText (f : Text → Text) : ∀ v : Value, v.Writable → (v.mapText f).Writable
  | .boolean _, h => h
  | .integer _, h => h
  | .float _ _, h => h
  | .text _, h => h
  | .table es, h => Entries.writable_mapText f es h

theorem Entries.writable_mapText (f : Text → Text) :
    ∀ es : Entries, es.Writable → (es.mapText f).Writable
  | .nil, h => h
  | .cons k v rest, h => by
      refine ⟨h.1, Value.writable_mapText f v h.2.1, ?_, Entries.writable_mapText f rest h.2.2.2⟩
      rw [Entries.get_mapText, h.2.2.1, Option.map_none]

end

mutual

theorem Value.levels_mapText (f : Text → Text) : ∀ v : Value, (v.mapText f).levels = v.levels
  | .boolean _ => rfl
  | .integer _ => rfl
  | .float _ _ => rfl
  | .text _ => rfl
  | .table es => congrArg (· + 1) (Entries.levels_mapText f es)

theorem Entries.levels_mapText (f : Text → Text) : ∀ es : Entries, (es.mapText f).levels = es.levels
  | .nil => rfl
  | .cons k v rest => by
      rw [Entries.mapText, Entries.levels, Entries.levels, Value.levels_mapText f v,
        Entries.levels_mapText f rest]

end

theorem load_of_lexes {v : Value} (hv : v.Writable) {s : Text}
    (hs : Lexes s (.reserved "return".toList :: v.tokens)) (levels : Nat) :
    load levels s = if v.levels ≤ levels then some v.read else none := by
  have hexpr := expr_tokens v levels [] hv
  rw [List.append_nil] at hexpr
  simp only [load, hs.tokens_eq, ↓reduceIte, hexpr]
  by_cases hlevels : v.levels ≤ levels
  · simp only [hlevels, ↓reduceIte]
  · simp only [hlevels, ↓reduceIte]

end JyQipai.Lib.Lua
