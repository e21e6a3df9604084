import JyQipai.Common.SafeSerialize
import JyQipai.Lib.SqlTokens

/-!
# Values in SQL texts

`data_func.lua` writes values into SQL texts: strings become literals whose quotes and
backslashes are escaped.  A value keeps to its place if the text around it does not run into
it.  Of `string.format` only `%s` and `%%` are used.
-/

namespace JyQipai.DataFunc

open JyQipai.Lib.Sql

/-- A value of Lua; `expr` is a table with `__sql_expr`. -/
inductive SqlValue (F : Type) where
  | nil
  | boolean (b : Bool)
  | integer (i : Int)
  | float (x : F)
  | text (s : Text)
  | expr (s : Text)

def sqlStrv (s : Text) : Text :=
  s.flatMap fun c => if c = '\'' ∨ c = '"' ∨ c = '\\' then ['\\', c] else [c]

def quotedSql (s : Text) : Text := '\'' :: (sqlStrv s ++ ['\''])

section ValueToSql

-- How `tostring` writes a float.
variable {F : Type} (floatText : F → Text)

def valueToSql : SqlValue F → Text
  | .nil => "null".toList
  | .boolean false => "null".toList
  | .boolean true => quotedSql "true".toList
  | .integer i => Basefunc.integerText i
  | .float x => floatText x
  | .text s => quotedSql s
  | .expr s => s

def formatPieces : Text → Option (Text × List Text)
  | [] => some ([], [])
  | '%' :: '%' :: t => (formatPieces t).map fun r => ('%' :: r.1, r.2)
  | '%' :: 's' :: t => (formatPieces t).map fun r => ([], r.1 :: r.2)
  | '%' :: _ => none
  | c :: t => (formatPieces t).map fun r => (c :: r.1, r.2)

def fill : Text → List Text → List Text → Option Text
  | p, [], _ => some p
  | _, _ :: _, [] => none
  | p, q :: ps, a :: args => (fill q ps args).map fun r => p ++ a ++ r

def format (str : Text) (args : List Text) : Option Text :=
  (formatPieces str).bind fun r => fill r.1 r.2 args

def formatSql (str : Text) (params : List (SqlValue F)) : Option Text :=
  format str (params.map (valueToSql floatText))

inductive Filter where
  | table (has : Text → Bool)
  | func (f : Text → Bool)

/-- `"table" == type(_filter) and _filter[_name] or _filter(_name)`: a table cannot be called. -/
def Filter.keep : Filter → Text → Option Bool
  | .table has, name => if has name then some true else none
  | .func f, name => some (f name)

def keptFields (fields : List (Text × SqlValue F)) (filter : Option Filter) :
    Option (List (Text × SqlValue F)) :=
  fields.filterM fun field => (filter.getD (.func fun _ => true)).keep field.1

def genUpdateFieldsSql (fields : List (Text × SqlValue F)) (filter : Option Filter) :
    Option Text :=
  (keptFields fields filter).map fun kept =>
    List.intercalate [','] (kept.map fun field => field.1 ++ ['='] ++ valueToSql floatText field.2)

def insertHead (tableName : Text) (names : List Text) : Text :=
  "insert into ".toList ++ tableName ++ " (".toList ++ List.intercalate [','] names ++
    ") values(".toList

def genInsertSql (tableName : Text) (fields : List (Text × SqlValue F)) : Text :=
  insertHead tableName (fields.map Prod.fst) ++
    List.intercalate [','] (fields.map fun field => valueToSql floatText field.2) ++ ");".toList

/-! ## Tokens -/

def Unsigned (t : Text) : Prop :=
  (t ≠ [] ∧ ∀ c ∈ t, c.isDigit = true ∨ c = '.') ∨
    (∃ m sign e, t = m ++ 'e' :: sign :: e ∧ m ≠ [] ∧ (∀ c ∈ m, c.isDigit = true ∨ c = '.') ∧
      (sign = '+' ∨ sign = '-') ∧ e ≠ [] ∧ ∀ c ∈ e, c.isDigit = true) ∨
    t = ['i', 'n', 'f'] ∨ t = ['n', 'a', 'n']

def NumberText (t : Text) : Prop := Unsigned t ∨ ∃ u, t = '-' :: u ∧ Unsigned u

def numberTokens : Text → List Token
  | '-' :: t => [.symbol '-', .word t]
  | t => [.word t]

def valueTokens : SqlValue F → List Token
  | .nil => [.word "null".toList]
  | .boolean false => [.word "null".toList]
  | .boolean true => [.text "true".toList]
  | .integer i => numberTokens (Basefunc.integerText i)
  | .float x => numberTokens (floatText x)
  | .text s => [.text s]
  | .expr s => tokens s

def SqlValue.isPlain : SqlValue F → Bool
  | .expr _ => false
  | _ => true

end ValueToSql

/-- Each placeholder stands outside quotes and comments, and no piece runs into a value. -/
def Apart : Text → List Text → Prop
  | _, [] => True
  | p, q :: ps => (after .code p).free = true ∧ Breaks q ∧ (ps ≠ [] → q ≠ []) ∧ Apart q ps

variable {F : Type} {floatText : F → Text} {st : Scan} {r : Text}

theorem scan_sqlStrv (s acc r : Text) :
    scan (.quoted '\'' acc) (sqlStrv s ++ r) = scan (.quoted '\'' (acc ++ s)) r := by
  induction s generalizing acc with
  | nil => rw [List.append_nil]; rfl
  | cons c s ih =>
      have hcons : sqlStrv (c :: s) =
          (if c = '\'' ∨ c = '"' ∨ c = '\\' then ['\\', c] else [c]) ++ sqlStrv s := rfl
      have happend : acc ++ c :: s = acc ++ [c] ++ s := by simp
      rw [hcons, happend]
      by_cases hc : c = '\'' ∨ c = '"' ∨ c = '\\'
      · have hescape : unescape c = [c] := by
          rcases hc with rfl | rfl | rfl <;> rfl
        rw [if_pos hc]
        exact (scan_quoted_escaped hescape acc (sqlStrv s ++ r)).trans (ih _)
      · rw [if_neg hc]
        exact (scan_quoted_char (fun h => hc (.inl h)) (fun h => hc (.inr (.inr h))) acc
          (sqlStrv s ++ r)).trans (ih _)

theorem scan_quotedSql (hst : st.free = true) (s : Text) (hr : Breaks r) :
    scan st (quotedSql s ++ r) = st.flush ++ .text s :: scan .code r := by
  rw [quotedSql, List.cons_append, List.append_assoc, scan_free_quote hst, scan_sqlStrv,
    List.nil_append, List.singleton_append, scan_quote_end s hr]

theorem scan_unsigned (hst : st.free = true) {t : Text} (ht : Unsigned t) (hr : Breaks r) :
    scan st (t ++ r) = st.flush ++ .word t :: scan .code r := by
  rcases ht with ⟨hne, hdigits⟩ | ⟨m, sign, e, rfl, hm, hdigits, hsign, hne, he⟩ | rfl | rfl
  · refine scan_run hst hne (fun c hc => ?_) (isMantissa_of_last fun c hc => ?_) hr
    · rcases hdigits c hc with hd | rfl
      · exact isWordChar_of_isDigit hd
      · decide
    · rcases hdigits c (List.mem_of_getLast? hc) with hd | rfl
      · constructor <;> rintro rfl <;> exact absurd hd (by decide)
      · decide
  · exact scan_exponent hst hm hdigits hsign hne he hr
  · exact scan_run hst (by decide) (List.all_eq_true.mp rfl) (by decide) hr
  · exact scan_run hst (by decide) (List.all_eq_true.mp rfl) (by decide) hr

theorem Unsigned.exists_cons {t : Text} (ht : Unsigned t) :
    ∃ c u, t = c :: u ∧ isWordChar c = true := by
  have hdigit {c : Char} (h : c.isDigit = true ∨ c = '.') : isWordChar c = true := by
    rcases h with h | rfl
    · exact isWordChar_of_isDigit h
    · decide
  rcases ht with ⟨hne, hdigits⟩ | ⟨m, sign, e, rfl, hm, hdigits, -⟩ | rfl | rfl
  · obtain ⟨c, u, rfl⟩ := List.exists_cons_of_ne_nil hne
    exact ⟨c, u, rfl, hdigit (hdigits c List.mem_cons_self)⟩
  · obtain ⟨c, u, rfl⟩ := List.exists_cons_of_ne_nil hm
    exact ⟨c, _, rfl, hdigit (hdigits c List.mem_cons_self)⟩
  · exact ⟨_, _, rfl, by decide⟩
  · exact ⟨_, _, rfl, by decide⟩

theorem numberTokens_unsigned {t : Text} (ht : Unsigned t) : numberTokens t = [.word t] := by
  obtain ⟨c, u, rfl, hc⟩ := ht.exists_cons
  have hdash := ne_of_isWordChar hc (show isWordChar '-' = false by decide)
  unfold numberTokens
  split
  · next heq => exact absurd (List.cons.inj heq).1 hdash
  · rfl

theorem scan_numberText (hst : st.free = true) {t : Text} (ht : NumberText t) (hr : Breaks r) :
    scan st (t ++ r) = st.flush ++ numberTokens t ++ scan .code r := by
  rcases ht with ht | ⟨u, rfl, hu⟩
  · rw [numberTokens_unsigned ht, scan_unsigned hst ht hr, ← List.append_cons]
  · have hword := @scan_unsigned .code r rfl u hu hr
    obtain ⟨c, v, rfl, hc⟩ := hu.exists_cons
    rw [List.cons_append, scan_free_word rfl hc] at hword
    rw [List.cons_append, List.cons_append, scan_free_minus hst hc, numberTokens, List.append_assoc]
    exact congrArg (fun x => st.flush ++ .symbol '-' :: x) hword

theorem unsigned_digits (n : Nat) : Unsigned (Nat.toDigits 10 n) :=
  .inl ⟨Nat.toDigits_ne_nil, fun _ hc =>
    .inl (Nat.isDigit_of_mem_toDigits (by decide) (by decide) hc)⟩

theorem numberText_integerText (i : Int) : NumberText (Basefunc.integerText i) := by
  unfold Basefunc.integerText
  split
  · exact .inr ⟨_, rfl, unsigned_digits _⟩
  · exact .inl (unsigned_digits _)

theorem scan_valueToSql (hfloat : ∀ x, NumberText (floatText x)) (hst : st.free = true)
    {v : SqlValue F} (hv : v.isPlain = true) (hr : Breaks r) :
    scan st (valueToSql floatText v ++ r) =
      st.flush ++ valueTokens floatText v ++ scan .code r := by
  have hnull : scan st ("null".toList ++ r) = st.flush ++ [.word "null".toList] ++ scan .code r :=
    (scan_run hst (by decide) (List.all_eq_true.mp rfl) (by decide) hr).trans (List.append_cons ..)
  cases v with
  | nil => exact hnull
  | boolean b =>
      cases b with
      | false => exact hnull
      | true => exact (scan_quotedSql hst _ hr).trans (List.append_cons ..)
  | integer i => exact scan_numberText hst (numberText_integerText i) hr
  | float x => exact scan_numberText hst (hfloat x) hr
  | text s => exact (scan_quotedSql hst s hr).trans (List.append_cons ..)
  | expr s => cases hv

/-! ## Texts with values -/

def filledTokens (floatText : F → Text) (p : Text) (ps : List Text) (vs : List (SqlValue F)) :
    List Token :=
  tokens p ++ (List.zipWith (fun v q => valueTokens floatText v ++ tokens q) vs ps).flatten

theorem fill_breaks {q : Text} {ps args : List Text} {t : Text} (hfill : fill q ps args = some t)
    (hq : Breaks q) (hne : ps ≠ [] → q ≠ []) : Breaks t := by
  cases ps with
  | nil =>
      obtain rfl := Option.some.inj hfill
      exact hq
  | cons q' ps =>
      obtain ⟨c, u, rfl⟩ := List.exists_cons_of_ne_nil (hne (List.cons_ne_nil q' ps))
      cases args with
      | nil => cases hfill
      | cons a args =>
          obtain ⟨x, -, rfl⟩ := Option.map_eq_some_iff.mp hfill
          exact hq

theorem tokens_fill (hfloat : ∀ x, NumberText (floatText x)) (p : Text) (ps : List Text)
    (hapart : Apart p ps) (vs : List (SqlValue F)) (hlen : ps.length ≤ vs.length)
    (hvs : ∀ v ∈ vs, v.isPlain = true) :
    ∃ sql, fill p ps (vs.map (valueToSql floatText)) = some sql ∧
      tokens sql = filledTokens floatText p ps vs := by
  induction ps generalizing p vs with
  | nil =>
      refine ⟨p, rfl, ?_⟩
      rw [filledTokens, List.zipWith_nil_right, List.flatten_nil, List.append_nil]
  | cons q ps ih =>
      obtain ⟨hfree, hq, hne, hapart⟩ := hapart
      cases vs with
      | nil => exact absurd hlen (by simp)
      | cons v vs =>
          obtain ⟨hv, hvs⟩ := List.forall_mem_cons.mp hvs
          obtain ⟨sql, hfill, htokens⟩ := ih q hapart vs (Nat.le_of_succ_le_succ hlen) hvs
          refine ⟨p ++ valueToSql floatText v ++ sql, ?_, ?_⟩
          · exact Option.map_eq_some_iff.mpr ⟨sql, hfill, rfl⟩
          · have hvalue := scan_valueToSql hfloat hfree hv (fill_breaks hfill hq hne)
            rw [List.append_assoc] at hvalue
            rw [List.append_assoc, tokens, scan_append_of_afresh hvalue]
            change tokens p ++ (valueTokens floatText v ++ tokens sql) = _
            rw [htokens, filledTokens, filledTokens, List.zipWith_cons_cons, List.flatten_cons,
              List.append_assoc]

theorem stands_valueToSql (hfloat : ∀ x, NumberText (floatText x)) {v : SqlValue F}
    (hv : v.isPlain = true) : Stands (valueToSql floatText v) (valueTokens floatText v) :=
  fun _ hr => scan_valueToSql hfloat rfl hv hr

theorem stands_assignment (hfloat : ∀ x, NumberText (floatText x)) {name : Text}
    (hname : (after .code (name ++ ['='])).free = true) {v : SqlValue F} (hv : v.isPlain = true) :
    Stands (name ++ ['='] ++ valueToSql floatText v)
      (tokens (name ++ ['=']) ++ valueTokens floatText v) := by
  intro r hr
  have hvalue := scan_valueToSql hfloat hname hv hr
  rw [List.append_assoc] at hvalue
  rw [List.append_assoc (name ++ ['=']), scan_append_of_afresh hvalue, List.append_assoc]

theorem tokens_genInsertSql (hfloat : ∀ x, NumberText (floatText x)) (tableName : Text)
    (fields : List (Text × SqlValue F)) (hfields : ∀ field ∈ fields, field.2.isPlain = true)
    (hhead : after .code (insertHead tableName (fields.map Prod.fst)) = .code) :
    tokens (genInsertSql floatText tableName fields) =
      tokens (insertHead tableName (fields.map Prod.fst)) ++
        List.intercalate [.symbol ','] (fields.map fun field => valueTokens floatText field.2) ++
        [.symbol ')', .symbol ';'] := by
  have hvalues := Stands.join (fields.map fun field =>
      (valueToSql floatText field.2, valueTokens floatText field.2))
    (List.forall_mem_map.mpr fun field hfield => stands_valueToSql hfloat (hfields field hfield))
    ");".toList (.cons (c := ')') (by decide) (by decide) [';'])
  rw [List.map_map, List.map_map] at hvalues
  rw [genInsertSql, List.append_assoc, tokens, scan_append_of_code hhead]
  exact (congrArg (tokens (insertHead tableName (fields.map Prod.fst)) ++ ·) hvalues).trans
    (List.append_assoc ..).symm

theorem tokens_genUpdateFieldsSql (hfloat : ∀ x, NumberText (floatText x))
    {fields kept : List (Text × SqlValue F)} {filter : Option Filter}
    (hkept : keptFields fields filter = some kept)
    (hfields : ∀ field ∈ kept, (after .code (field.1 ++ ['='])).free = true ∧
      field.2.isPlain = true) :
    ∃ sql, genUpdateFieldsSql floatText fields filter = some sql ∧
      ∀ t, Breaks t → tokens (sql ++ t) =
        List.intercalate [.symbol ','] (kept.map fun field =>
          tokens (field.1 ++ ['=']) ++ valueTokens floatText field.2) ++ tokens t := by
  have hclause := Stands.join (kept.map fun field =>
      (field.1 ++ ['='] ++ valueToSql floatText field.2,
        tokens (field.1 ++ ['=']) ++ valueTokens floatText field.2))
    (List.forall_mem_map.mpr fun field hfield =>
      stands_assignment hfloat (hfields field hfield).1 (hfields field hfield).2)
  rw [List.map_map, List.map_map] at hclause
  exact ⟨_, Option.map_eq_some_iff.mpr ⟨kept, hkept, rfl⟩, hclause⟩

/-- A string is one literal with its value; and where no text runs into a value, the tokens of a
statement are those of its pieces, with those of each value in its place. -/
theorem values_in_place {F : Type} (floatText : F → Text)
    (hfloat : ∀ x, NumberText (floatText x)) :
    (∀ s, tokens (valueToSql floatText (.text s)) = [.text s]) ∧
      (∀ str p ps, formatPieces str = some (p, ps) → Apart p ps → ∀ params : List (SqlValue F),
        ps.length ≤ params.length → (∀ v ∈ params, v.isPlain = true) →
        ∃ sql, formatSql floatText str params = some sql ∧
          tokens sql = filledTokens floatText p ps params) ∧
      (∀ tableName fields, (∀ field ∈ fields, field.2.isPlain = true) →
        after .code (insertHead tableName (fields.map Prod.fst)) = .code →
        tokens (genInsertSql floatText tableName fields) =
          tokens (insertHead tableName (fields.map Prod.fst)) ++
            List.intercalate [.symbol ','] (fields.map fun field =>
              valueTokens floatText field.2) ++ [.symbol ')', .symbol ';']) ∧
      ∀ fields filter kept, keptFields fields filter = some kept →
        (∀ field ∈ kept, (after .code (field.1 ++ ['='])).free = true ∧
          field.2.isPlain = true) →
        ∃ sql, genUpdateFieldsSql floatText fields filter = some sql ∧
          ∀ t, Breaks t → tokens (sql ++ t) =
            List.intercalate [.symbol ','] (kept.map fun field =>
              tokens (field.1 ++ ['=']) ++ valueTokens floatText field.2) ++ tokens t := by
  refine ⟨fun s => ?_, fun str p ps hstr hapart params hlen hparams => ?_,
    fun tableName fields hfields hhead => tokens_genInsertSql hfloat tableName fields hfields hhead,
    fun fields filter kept hkept hfields => tokens_genUpdateFieldsSql hfloat hkept hfields⟩
  · have hs := @scan_quotedSql .code [] rfl s breaks_nil
    rwa [List.append_nil] at hs
  · obtain ⟨sql, hfill, htokens⟩ := tokens_fill hfloat p ps hapart params hlen hparams
    refine ⟨sql, ?_, htokens⟩
    rw [formatSql, format, hstr]
    exact hfill

def halfText (_ : Unit) : Text := ['0', '.', '5']

theorem numberText_half (x : Unit) : NumberText (halfText x) := by
  refine .inl (.inl ⟨List.cons_ne_nil _ _, ?_⟩)
  simp [halfText]

def phoneFields : List (Text × SqlValue Unit) :=
  [("name".toList, .text "x', id='1".toList), ("rate".toList, .float ()),
    ("id".toList, .integer (-5))]

theorem values_in_place_phone :
    tokens (valueToSql halfText (.text "\\';--".toList)) = [.text "\\';--".toList] ∧
      (∃ sql, formatSql halfText "update t set a=%s where b = %s;".toList
          [.text "x', id='1".toList, .nil] = some sql ∧
        tokens sql = filledTokens halfText "update t set a=".toList
          [" where b = ".toList, ";".toList] [.text "x', id='1".toList, .nil]) ∧
      tokens (genInsertSql halfText "t".toList phoneFields) =
        tokens (insertHead "t".toList (phoneFields.map Prod.fst)) ++
          List.intercalate [.symbol ','] (phoneFields.map fun field =>
            valueTokens halfText field.2) ++ [.symbol ')', .symbol ';'] ∧
      ∃ sql, genUpdateFieldsSql halfText phoneFields none = some sql ∧
        ∀ t, Breaks t → tokens (sql ++ t) =
          List.intercalate [.symbol ','] (phoneFields.map fun field =>
            tokens (field.1 ++ ['=']) ++ valueTokens halfText field.2) ++ tokens t := by
  obtain ⟨hliteral, hformat, hinsert, hupdate⟩ := values_in_place halfText numberText_half
  refine ⟨hliteral _, hformat _ _ _ (by decide +kernel) ?_ _ (by decide) (by decide),
    hinsert _ _ (by decide) ?_, hupdate _ _ _ rfl ?_⟩
  · exact ⟨by decide +kernel, by decide +kernel, by decide, by decide +kernel, by decide +kernel,
      fun h => absurd rfl h, trivial⟩
  · decide +kernel
  · decide +kernel

/-- Two placeholders side by side: two strings run into one literal, a nil and a string do not. -/
theorem side_by_side_merge :
    formatPieces "%s%s".toList = some ([], [[], []]) ∧
      (formatSql halfText "%s%s".toList [.text ['a'], .text ['b']]).map tokens =
        some [.text ['a', '\'', 'b']] ∧
      (formatSql halfText "%s%s".toList [.nil, .text ['b']]).map tokens =
        some [.word "null".toList, .text ['b']] := by
  decide +kernel

end JyQipai.DataFunc
