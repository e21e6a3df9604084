import JyQipai.Lib.Lua.Reader

/-!
# Tables written as program text

`basefunc.safe_serialize` writes a table as a constructor that `loadstring` reads back, and
`basefunc.parse_lua_table_str` reads it.  Strings are written in long brackets.  A table that
occurs twice is refused by the source; the tables here are trees.
-/

namespace JyQipai.Basefunc

open Lib.Lua

def gsub : Text → Text × Nat
  | ']' :: ']' :: s => (']' :: ' ' :: ']' :: (gsub s).1, (gsub s).2 + 1)
  | c :: s => (c :: (gsub s).1, (gsub s).2)
  | [] => ([], 0)

def pairs : Text → Nat
  | c :: d :: s => (if c = ']' ∧ d = ']' then 1 else 0) + pairs (d :: s)
  | _ => 0

theorem gsub_head (s : Text) : (gsub s).1.head? = s.head? := by
  fun_cases gsub s <;> rfl

theorem pairs_cons (c : Char) (s : Text) :
    pairs (c :: s) = (if c = ']' ∧ s.head? = some ']' then 1 else 0) + pairs s := by
  cases s with
  | nil => simp [pairs]
  | cons d s => simp only [pairs, List.head?_cons, Option.some.injEq]

theorem pairs_gsub (s : Text) : pairs (gsub s).1 + (gsub s).2 ≤ pairs s := by
  fun_induction gsub s with
  | case1 s ih =>
      have hhead := gsub_head s
      simp only [pairs_cons, hhead, List.head?_cons] at ih ⊢
      simp
      omega
  | case2 c s hs ih =>
      have hhead := gsub_head s
      rw [pairs_cons, pairs_cons, hhead]
      omega
  | case3 => exact le_rfl

def splitPairs (s : Text) : Text :=
  if (gsub s).2 = 0 then (gsub s).1 else splitPairs (gsub s).1
termination_by pairs s
decreasing_by
  have := pairs_gsub s
  omega

def content (s : Text) : Text :=
  let ret := splitPairs s
  if ret.getLast? = some ']' then ret ++ [' '] else ret

def v2s (s : Text) : Text := '[' :: '[' :: (content s ++ [']', ']'])

def integerText (i : Int) : Text :=
  if i < 0 then '-' :: Nat.toDigits 10 i.natAbs else Nat.toDigits 10 i.natAbs

def keyText : Key → Text
  | .index i => '[' :: (integerText i ++ [']'])
  | .name s => s

def t (n : Nat) : Text := List.replicate n '\t'

/-- The text of a table of level `lv` from the lines of its entries. -/
def tableText (lv : Nat) (tmp : List Text) : Text :=
  '\n' :: (t lv ++ '{' :: '\n' :: (List.intercalate [',', '\n'] tmp ++ '\n' :: (t lv ++ ['}'])))

section Serialize

-- How `tostring` writes a float, by its sign and its magnitude.
variable (floatText : Bool → Option ℚ → Text)

mutual

def serValue (lv : Nat) : Value → Text
  | .table es => tableText (lv + 1) (serEntries (lv + 1) es)
  | .text s => v2s s
  | .boolean b => if b then "true".toList else "false".toList
  | .integer i => integerText i
  | .float negative x => floatText negative x

def serEntries (lv : Nat) : Entries → List Text
  | .nil => []
  | .cons k v rest => (t (lv + 1) ++ (keyText k ++ '=' :: serValue lv v)) :: serEntries lv rest

end

def serTable (lv : Nat) (es : Entries) : Text := tableText lv (serEntries floatText lv es)

def safeSerialize : Value → Text
  | .table es => serTable floatText 0 es
  | .text s => '"' :: (s ++ ['"'])
  | v => serValue floatText 0 v

end Serialize

def parseLuaTableStr (levels : Nat) (data : Text) : Value × Bool :=
  match load levels ("return ".toList ++ data) with
  | some (.table es) => (.table es, true)
  | some _ => (.table .nil, true)
  | none => (.table .nil, false)

def parseEmailData (levels : Nat) (emailData : Text) : Value × Bool :=
  parseLuaTableStr levels emailData

end JyQipai.Basefunc
