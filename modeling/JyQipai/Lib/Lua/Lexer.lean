import JyQipai.Lib.Double
import JyQipai.Lib.Lua.Value

/-!
# Reading the tokens of a Lua text

The part of Lua's lexer that constant table constructors need: white space, names and reserved
words, decimal integers, long strings without `=` and single characters.  A text with anything
else in it (comments, quoted strings, other numerals and operators) is not read: `none` is a
syntax error or such a text.
-/

namespace JyQipai.Lib.Lua

inductive Token where
  | reserved (s : Text)
  | name (s : Text)
  | number (v : Value)
  | text (s : Text)
  | symbol (c : Char)
  deriving DecidableEq

def isNewline (c : Char) : Bool := c == '\n' || c == '\r'

def isSpace (c : Char) : Bool := isNewline c || c == ' ' || c == '\t' || c == '\x0b' || c == '\x0c'

def isAlpha (c : Char) : Bool := c.isAlpha || c == '_'

def isAlnum (c : Char) : Bool := c.isAlphanum || c == '_'

def isHexDigit (c : Char) : Bool :=
  c.isDigit || ('a' ≤ c && c ≤ 'f') || ('A' ≤ c && c ≤ 'F')

def reservedWords : List Text :=
  ["and", "break", "do", "else", "elseif", "end", "false", "for", "function", "goto", "if", "in",
    "local", "nil", "not", "or", "repeat", "return", "then", "true", "until", "while"].map
    String.toList

def skipBreak : Text → Text
  | '\n' :: '\r' :: s => s
  | '\r' :: '\n' :: s => s
  | '\n' :: s => s
  | '\r' :: s => s
  | s => s

/-- The string up to `]]` and the text after it.  Every line break is read as `\n`. -/
def longString : Text → Option (Text × Text)
  | [] => none
  | ']' :: ']' :: s => some ([], s)
  | '\n' :: '\r' :: s => (longString s).map fun r => ('\n' :: r.1, r.2)
  | '\r' :: '\n' :: s => (longString s).map fun r => ('\n' :: r.1, r.2)
  | '\r' :: s => (longString s).map fun r => ('\n' :: r.1, r.2)
  | c :: s => (longString s).map fun r => (c :: r.1, r.2)

/-- A long string, after its `[[`; a line break at its start is left out. -/
def readLongString (s : Text) : Option (Text × Text) := longString (skipBreak s)

def numeral (n : Nat) : Value :=
  if n < 2 ^ 63 then .integer n else .float false (double n)

def readNumeral (s : Text) : Option (Token × Text) :=
  let run := s.takeWhile fun c => isHexDigit c || c == '.'
  let rest := s.dropWhile fun c => isHexDigit c || c == '.'
  if run.all Char.isDigit then some (.number (numeral (Nat.ofDigitChars 10 run 0)), rest) else none

def word (s : Text) : Token := if s ∈ reservedWords then .reserved s else .name s

def llex : Text → Option (Option Token × Text)
  | [] => some (none, [])
  | c :: s =>
      if isSpace c then llex s
      else if c = '[' then
        match s with
        | '[' :: s => (readLongString s).map fun r => (some (.text r.1), r.2)
        | '=' :: _ => none
        | s => some (some (.symbol '['), s)
      else if c = '-' then
        match s with
        | '-' :: _ => none
        | s => some (some (.symbol '-'), s)
      else if c = '=' then
        match s with
        | '=' :: _ => none
        | s => some (some (.symbol '='), s)
      else if c.isDigit then (readNumeral (c :: s)).map fun r => (some r.1, r.2)
      else if isAlpha c then
        some (some (word ((c :: s).takeWhile isAlnum)), (c :: s).dropWhile isAlnum)
      else if c ∈ [']', '{', '}', ',', ';'] then some (some (.symbol c), s)
      else none

theorem llex_cons (c : Char) (s : Text) :
    llex (c :: s) =
      if isSpace c then llex s
      else if c = '[' then
        match s with
        | '[' :: s => (readLongString s).map fun r => (some (.text r.1), r.2)
        | '=' :: _ => none
        | s => some (some (.symbol '['), s)
      else if c = '-' then
        match s with
        | '-' :: _ => none
        | s => some (some (.symbol '-'), s)
      else if c = '=' then
        match s with
        | '=' :: _ => none
        | s => some (some (.symbol '='), s)
      else if c.isDigit then (readNumeral (c :: s)).map fun r => (some r.1, r.2)
      else if isAlpha c then
        some (some (word ((c :: s).takeWhile isAlnum)), (c :: s).dropWhile isAlnum)
      else if c ∈ [']', '{', '}', ',', ';'] then some (some (.symbol c), s)
      else none := rfl

def tokensUpTo : Nat → Text → Option (List Token)
  | 0, _ => none
  | n + 1, s =>
      match llex s with
      | some (some t, rest) => (tokensUpTo n rest).map (t :: ·)
      | some (none, _) => some []
      | none => none

def tokens (s : Text) : Option (List Token) := tokensUpTo (s.length + 1) s

/-! ## Reading piece by piece -/

def Lexes (s : Text) (ts : List Token) : Prop := ∀ n, s.length < n → tokensUpTo n s = some ts

theorem Lexes.tokens_eq {s : Text} {ts : List Token} (h : Lexes s ts) : tokens s = some ts :=
  h _ (Nat.lt_succ_self _)

theorem Lexes.nil : Lexes [] [] := by
  intro n hn
  cases n with
  | zero => exact absurd hn (Nat.not_lt_zero _)
  | succ n => rfl

theorem Lexes.cons {s r : Text} {t : Token} {ts : List Token}
    (ht : llex s = some (some t, r)) (hlen : r.length < s.length) (h : Lexes r ts) :
    Lexes s (t :: ts) := by
  intro n hn
  cases n with
  | zero => exact absurd hn (Nat.not_lt_zero _)
  | succ n =>
      have hrest : tokensUpTo n r = some ts := h n (by omega)
      simp only [tokensUpTo, ht, hrest, Option.map_some]

theorem Lexes.space {c : Char} {s : Text} {ts : List Token} (hc : isSpace c = true)
    (h : Lexes s ts) : Lexes (c :: s) ts := by
  intro n hn
  have hskip : llex (c :: s) = llex s := by
    simp only [llex_cons, hc, ↓reduceIte]
  have hlong : s.length < n := by
    rw [List.length_cons] at hn
    omega
  rw [← h n hlong]
  cases n with
  | zero => rfl
  | succ n => simp only [tokensUpTo, hskip]

theorem Lexes.spaces {p s : Text} {ts : List Token} (hp : ∀ c ∈ p, isSpace c = true)
    (h : Lexes s ts) : Lexes (p ++ s) ts := by
  induction p with
  | nil => exact h
  | cons c p ih =>
      exact Lexes.space (hp c List.mem_cons_self) (ih fun d hd => hp d (List.mem_cons_of_mem _ hd))

theorem Lexes.symbol {c : Char} {s : Text} {ts : List Token} (hc : c ∈ [']', '{', '}', ',', ';'])
    (h : Lexes s ts) : Lexes (c :: s) (.symbol c :: ts) := by
  refine Lexes.cons (r := s) ?_ (by simp) h
  fin_cases hc <;> rfl

theorem Lexes.equals {s : Text} {ts : List Token} (hs : s.head? ≠ some '=') (h : Lexes s ts) :
    Lexes ('=' :: s) (.symbol '=' :: ts) := by
  refine Lexes.cons (r := s) ?_ (by simp) h
  cases s with
  | nil => rfl
  | cons d s =>
      have hd : d ≠ '=' := fun hd => hs (by rw [hd]; rfl)
      simp [llex_cons, isSpace, isNewline, hd]

theorem Lexes.minus {s : Text} {ts : List Token} (hs : s.head? ≠ some '-') (h : Lexes s ts) :
    Lexes ('-' :: s) (.symbol '-' :: ts) := by
  refine Lexes.cons (r := s) ?_ (by simp) h
  cases s with
  | nil => rfl
  | cons d s =>
      have hd : d ≠ '-' := fun hd => hs (by rw [hd]; rfl)
      simp [llex_cons, isSpace, isNewline, hd]

theorem Lexes.bracket {s : Text} {ts : List Token} (hs : s.head? ≠ some '[')
    (hs' : s.head? ≠ some '=') (h : Lexes s ts) : Lexes ('[' :: s) (.symbol '[' :: ts) := by
  refine Lexes.cons (r := s) ?_ (by simp) h
  cases s with
  | nil => rfl
  | cons d s =>
      have hd : d ≠ '[' := fun hd => hs (by rw [hd]; rfl)
      have hd' : d ≠ '=' := fun hd => hs' (by rw [hd]; rfl)
      simp [llex_cons, isSpace, isNewline, hd, hd']

theorem takeWhile_append_of_head {p : Char → Bool} {w s : Text} (hw : ∀ c ∈ w, p c = true)
    (hs : ∀ c ∈ s.head?, p c = false) :
    (w ++ s).takeWhile p = w ∧ (w ++ s).dropWhile p = s := by
  have hnone : s.takeWhile p = [] ∧ s.dropWhile p = s := by
    cases s with
    | nil => exact ⟨rfl, rfl⟩
    | cons c s =>
        have hc : p c = false := hs c rfl
        simp [hc]
  rw [List.takeWhile_append_of_pos hw, List.dropWhile_append_of_pos hw, hnone.1, hnone.2]
  simp

theorem not_isDigit_of_isAlpha {c : Char} (hc : isAlpha c = true) : c.isDigit = false := by
  rw [Bool.eq_false_iff]
  intro hdigit
  simp only [isAlpha, Char.isAlpha, Char.isUpper, Char.isLower, Char.isDigit, Bool.or_eq_true,
    Bool.and_eq_true, decide_eq_true_eq, beq_iff_eq, ge_iff_le, UInt32.le_iff_toNat_le] at hc hdigit
  rcases hc with (hc | hc) | rfl
  · have := hc.1.trans hdigit.2
    revert this
    decide
  · have := hc.1.trans hdigit.2
    revert this
    decide
  · revert hdigit
    decide

theorem llex_word {c : Char} {s : Text} (hc : isAlpha c = true) :
    llex (c :: s) = some (some (Lua.word ((c :: s).takeWhile isAlnum)),
      (c :: s).dropWhile isAlnum) := by
  have hne : ∀ d : Char, isAlpha d = false → c ≠ d := by
    rintro d hd rfl
    rw [hc] at hd
    exact Bool.noConfusion hd
  have hspace : isSpace c = false := by
    simp [isSpace, isNewline, hne '\n' rfl, hne '\r' rfl, hne ' ' rfl, hne '\t' rfl,
      hne '\x0b' rfl, hne '\x0c' rfl]
  have hdigit := not_isDigit_of_isAlpha hc
  simp only [llex_cons, hspace, hne '[' rfl, hne '-' rfl, hne '=' rfl, hdigit, hc, ↓reduceIte,
    Bool.false_eq_true]

theorem Lexes.word {w s : Text} {ts : List Token} {c : Char} (hc : isAlpha c = true)
    (hw : ∀ d ∈ w, isAlnum d = true) (hs : ∀ d ∈ s.head?, isAlnum d = false) (h : Lexes s ts) :
    Lexes (c :: w ++ s) (Lua.word (c :: w) :: ts) := by
  have hall : ∀ d ∈ c :: w, isAlnum d = true := by
    intro d hd
    rcases List.mem_cons.mp hd with rfl | hd
    · simp only [isAlpha, Bool.or_eq_true] at hc
      simp only [isAlnum, Char.isAlphanum, Bool.or_eq_true]
      tauto
    · exact hw d hd
  obtain ⟨htake, hdrop⟩ := takeWhile_append_of_head hall hs
  refine Lexes.cons (r := s) ?_ (by simp) h
  rw [List.cons_append, llex_word hc, ← List.cons_append, htake, hdrop]

theorem llex_digit {c : Char} {s : Text} (hc : c.isDigit = true) :
    llex (c :: s) = (readNumeral (c :: s)).map fun r => (some r.1, r.2) := by
  have hne : ∀ d : Char, d.isDigit = false → c ≠ d := by
    rintro d hd rfl
    rw [hc] at hd
    exact Bool.noConfusion hd
  have hspace : isSpace c = false := by
    simp [isSpace, isNewline, hne '\n' rfl, hne '\r' rfl, hne ' ' rfl, hne '\t' rfl,
      hne '\x0b' rfl, hne '\x0c' rfl]
  simp only [llex_cons, hspace, hne '[' rfl, hne '-' rfl, hne '=' rfl, hc, ↓reduceIte,
    Bool.false_eq_true]

theorem Lexes.numeral {w s : Text} {ts : List Token} (hne : w ≠ [])
    (hw : ∀ d ∈ w, d.isDigit = true) (hs : ∀ d ∈ s.head?, (isHexDigit d || d == '.') = false)
    (h : Lexes s ts) :
    Lexes (w ++ s) (.number (Lua.numeral (Nat.ofDigitChars 10 w 0)) :: ts) := by
  have hall : ∀ d ∈ w, (isHexDigit d || d == '.') = true := by
    intro d hd
    simp [isHexDigit, hw d hd]
  obtain ⟨htake, hdrop⟩ := takeWhile_append_of_head hall hs
  have hread : readNumeral (w ++ s) =
      some (.number (Lua.numeral (Nat.ofDigitChars 10 w 0)), s) := by
    simp only [readNumeral, htake, hdrop]
    rw [if_pos (List.all_eq_true.mpr hw)]
  obtain ⟨c, v, rfl⟩ := List.exists_cons_of_ne_nil hne
  refine Lexes.cons (r := s) ?_ (by simp) h
  rw [List.cons_append, llex_digit (hw c List.mem_cons_self), ← List.cons_append, hread]
  rfl

/-! ## Long strings -/

/-- No two brackets close the string early, and none at its end joins those that do. -/
def Closed : Text → Prop
  | [] => True
  | [c] => c ≠ ']'
  | c :: d :: s => ¬(c = ']' ∧ d = ']') ∧ Closed (d :: s)

def breaks : Text → Text
  | [] => []
  | '\n' :: '\r' :: s => '\n' :: breaks s
  | '\r' :: '\n' :: s => '\n' :: breaks s
  | '\r' :: s => '\n' :: breaks s
  | c :: s => c :: breaks s

theorem Closed.tail {c : Char} {s : Text} (h : Closed (c :: s)) : Closed s := by
  cases s with
  | nil => trivial
  | cons d s => exact h.2

theorem longString_return {s : Text} (hs : s.head? ≠ some '\n') :
    longString ('\r' :: s) = (longString s).map fun r => ('\n' :: r.1, r.2) := by
  rw [longString]
  rintro s' rfl
  exact hs rfl

theorem longString_char {c : Char} {s : Text} (hreturn : c ≠ '\r')
    (hbreak : c = '\n' → s.head? ≠ some '\r') (hbracket : c = ']' → s.head? ≠ some ']') :
    longString (c :: s) = (longString s).map fun r => (c :: r.1, r.2) := by
  rw [longString]
  · rintro s' hc rfl
    exact hbracket hc rfl
  · rintro s' hc rfl
    exact hbreak hc rfl
  · intro s' hc
    exact absurd hc hreturn
  · exact hreturn

theorem head?_append_bracket {s r : Text} {c : Char} (hs : s.head? ≠ some c) (hc : c ≠ ']') :
    (s ++ ']' :: r).head? ≠ some c := by
  cases s with
  | nil =>
      intro h
      exact hc (Option.some.inj h).symm
  | cons d s => exact hs

theorem longString_of_closed {s : Text} (h : Closed s) (rest : Text) :
    longString (s ++ ']' :: ']' :: rest) = some (breaks s, rest) := by
  fun_induction breaks s with
  | case1 => rfl
  | case2 s ih =>
      have hs := ih h.tail.tail
      simp only [List.cons_append, longString, hs, Option.map_some]
  | case3 s ih =>
      have hs := ih h.tail.tail
      simp only [List.cons_append, longString, hs, Option.map_some]
  | case4 s hn ih =>
      have hhead : s.head? ≠ some '\n' := by
        intro hs
        obtain ⟨s', rfl⟩ := List.head?_eq_some_iff.mp hs
        exact hn s' rfl
      rw [List.cons_append, longString_return (head?_append_bracket hhead (by decide)), ih h.tail]
      rfl
  | case5 c s h1 h2 h3 ih =>
      have hhead : c = '\n' → s.head? ≠ some '\r' := by
        intro hc hs
        obtain ⟨s', rfl⟩ := List.head?_eq_some_iff.mp hs
        exact h1 s' hc rfl
      have hbracket : c = ']' → (s ++ ']' :: ']' :: rest).head? ≠ some ']' := by
        rintro rfl hs
        cases s with
        | nil => exact h rfl
        | cons d s =>
            rw [List.cons_append, List.head?_cons, Option.some.injEq] at hs
            exact h.1 ⟨rfl, hs⟩
      rw [List.cons_append, longString_char h3
        (fun hc => head?_append_bracket (hhead hc) (by decide)) hbracket, ih h.tail]
      rfl

theorem skipBreak_of_head {c : Char} {s : Text} (hc : isNewline c = false) :
    skipBreak (c :: s) = c :: s := by
  have hne : ∀ d : Char, isNewline d = true → c ≠ d := by
    rintro d hd rfl
    rw [hc] at hd
    exact Bool.noConfusion hd
  rw [skipBreak]
  · intro s' h
    exact absurd (List.cons.inj h).1 (hne _ rfl)
  · intro s' h
    exact absurd (List.cons.inj h).1 (hne _ rfl)
  · intro s' h
    exact absurd (List.cons.inj h).1 (hne _ rfl)
  · intro s' h
    exact absurd (List.cons.inj h).1 (hne _ rfl)

theorem skipBreak_append (s rest : Text) :
    skipBreak (s ++ ']' :: rest) = skipBreak s ++ ']' :: rest := by
  fun_cases skipBreak s with
  | case1 s => rfl
  | case2 s => rfl
  | case3 s hn =>
      rw [List.cons_append, skipBreak]
      intro s' hs
      have hhead := head?_append_bracket (s := s) (r := rest) (c := '\r')
      rw [hs] at hhead
      exact hhead (fun h => hn _ (List.head?_eq_some_iff.mp h).choose_spec) (by decide) rfl
  | case4 s hn =>
      rw [List.cons_append, skipBreak]
      intro s' hs
      have hhead := head?_append_bracket (s := s) (r := rest) (c := '\n')
      rw [hs] at hhead
      exact hhead (fun h => hn _ (List.head?_eq_some_iff.mp h).choose_spec) (by decide) rfl
  | case5 s h1 h2 h3 h4 =>
      cases s with
      | nil => exact skipBreak_of_head (by decide)
      | cons c s =>
          refine skipBreak_of_head ?_
          rw [Bool.eq_false_iff]
          intro hc
          rcases (by simpa [isNewline] using hc : c = '\n' ∨ c = '\r') with rfl | rfl
          · exact h3 s rfl
          · exact h4 s rfl

theorem Closed.skipBreak {s : Text} (h : Closed s) : Closed (skipBreak s) := by
  fun_cases Lua.skipBreak s with
  | case1 s => exact h.tail.tail
  | case2 s => exact h.tail.tail
  | case3 s _ => exact h.tail
  | case4 s _ => exact h.tail
  | case5 s _ _ _ _ => exact h

theorem Lexes.text {s rest : Text} {ts : List Token} (hs : Closed s) (h : Lexes rest ts) :
    Lexes ('[' :: '[' :: (s ++ ']' :: ']' :: rest)) (.text (breaks (skipBreak s)) :: ts) := by
  refine Lexes.cons (r := rest) ?_ (by simp; omega) h
  have hread : readLongString (s ++ ']' :: ']' :: rest) =
      some (breaks (Lua.skipBreak s), rest) := by
    rw [readLongString, skipBreak_append, longString_of_closed hs.skipBreak]
  rw [llex_cons, if_neg (by decide), if_pos rfl]
  exact congrArg (Option.map _) hread

end JyQipai.Lib.Lua
