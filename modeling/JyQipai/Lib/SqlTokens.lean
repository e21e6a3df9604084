import Mathlib.Data.List.Basic
import Mathlib.Data.Char

/-!
# The tokens of SQL

How MySQL cuts a text into tokens: words, literals, names in backticks and single symbols.
Literals are quoted by ' or ", and a backslash escapes.  The lexer reads one character after the
other, and its state holds the token that is still open; so what stands before and behind a
piece of text has an influence on its tokens only through that state.
-/

namespace JyQipai.Lib.Sql

abbrev Text := List Char

inductive Token where
  /-- A name, a keyword or a number. -/
  | word (w : Text)
  /-- A literal, by its value. -/
  | text (s : Text)
  /-- A name in backticks. -/
  | name (s : Text)
  | symbol (c : Char)
  /-- A literal or a comment without an end. -/
  | unclosed
  deriving DecidableEq

inductive Scan where
  | code
  | word (w : Text)
  /-- A word that may be a mantissa, with the sign behind it. -/
  | exponent (w : Text) (sign : Char)
  | dash
  | dashes
  | slash
  | quoted (q : Char) (s : Text)
  | escaped (q : Char) (s : Text)
  /-- A quote has been read that closes the literal unless another follows. -/
  | closed (q : Char) (s : Text)
  | line
  | block
  | star
  deriving DecidableEq

def isBlank (c : Char) : Bool := c.isWhitespace || c == '\x0b' || c == '\x0c'

def isWordChar (c : Char) : Bool :=
  c.isAlphanum || c == '_' || c == '$' || c == '.' || decide (128 ≤ c.toNat)

def isMantissa (w : Text) : Bool :=
  (w.getLast? == some 'e' || w.getLast? == some 'E') && !w.dropLast.isEmpty &&
    w.dropLast.all fun c => c.isDigit || c == '.'

def unescape : Char → Text
  | 'n' => ['\n']
  | 't' => ['\t']
  | 'r' => ['\r']
  | 'b' => ['\x08']
  | '0' => ['\x00']
  | 'Z' => ['\x1a']
  | '%' => ['\\', '%']
  | '_' => ['\\', '_']
  | c => [c]

def literal (q : Char) (s : Text) : Token := if q = '`' then .name s else .text s

def fresh (c : Char) : List Token × Scan :=
  if isWordChar c then ([], .word [c])
  else if c = '\'' ∨ c = '"' ∨ c = '`' then ([], .quoted c [])
  else if c = '#' then ([], .line)
  else if c = '-' then ([], .dash)
  else if c = '/' then ([], .slash)
  else if isBlank c then ([], .code)
  else ([.symbol c], .code)

namespace Scan

def flush : Scan → List Token
  | .code => []
  | .word w => [.word w]
  | .exponent w sign => [.word w, .symbol sign]
  | .dash => [.symbol '-']
  | .dashes => [.symbol '-', .symbol '-']
  | .slash => [.symbol '/']
  | .quoted _ _ => [.unclosed]
  | .escaped _ _ => [.unclosed]
  | .closed q s => [literal q s]
  | .line => []
  | .block => [.unclosed]
  | .star => [.unclosed]

def next : Scan → Char → List Token × Scan
  | .code, c => fresh c
  | .word w, c =>
      if isWordChar c then ([], .word (w ++ [c]))
      else if (c = '+' ∨ c = '-') ∧ isMantissa w then ([], .exponent w c)
      else (.word w :: (fresh c).1, (fresh c).2)
  | .exponent w sign, c =>
      if c.isDigit then ([], .word (w ++ [sign, c]))
      else if sign = '-' ∧ c = '-' then ([.word w], .dashes)
      else (.word w :: .symbol sign :: (fresh c).1, (fresh c).2)
  | .dash, c => if c = '-' then ([], .dashes) else (.symbol '-' :: (fresh c).1, (fresh c).2)
  | .dashes, c =>
      -- two dashes begin a comment only if a blank follows
      if c = '\n' then ([], .code)
      else if isBlank c then ([], .line)
      else if c = '-' then ([.symbol '-'], .dashes)
      else (.symbol '-' :: .symbol '-' :: (fresh c).1, (fresh c).2)
  | .slash, c => if c = '*' then ([], .block) else (.symbol '/' :: (fresh c).1, (fresh c).2)
  | .quoted q s, c =>
      if c = q then ([], .closed q s)
      else if c = '\\' ∧ q ≠ '`' then ([], .escaped q s)
      else ([], .quoted q (s ++ [c]))
  | .escaped q s, c => ([], .quoted q (s ++ unescape c))
  | .closed q s, c =>
      if c = q then ([], .quoted q (s ++ [q])) else (literal q s :: (fresh c).1, (fresh c).2)
  | .line, c => ([], if c = '\n' then .code else .line)
  | .block, c => ([], if c = '*' then .star else .block)
  | .star, c => ([], if c = '/' then .code else if c = '*' then .star else .block)

def free : Scan → Bool
  | .code | .dash | .dashes | .slash => true
  | .closed q _ => q == '"' || q == '`'
  | _ => false

end Scan

def scan : Scan → Text → List Token
  | st, [] => st.flush
  | st, c :: t => (st.next c).1 ++ scan (st.next c).2 t

def tokens (t : Text) : List Token := scan .code t

def after (st : Scan) (t : Text) : Scan := t.foldl (fun st c => (st.next c).2) st

def Breaks (t : Text) : Prop := ∀ c ∈ t.head?, isWordChar c = false ∧ c ≠ '\''

instance : DecidablePred Breaks
  | [] => .isTrue fun _ hc => absurd hc (Option.not_mem_none _)
  | c :: _ => decidable_of_iff (isWordChar c = false ∧ c ≠ '\'')
      ⟨fun h _ hc => Option.some.inj hc ▸ h, fun h => h c rfl⟩

def Stands (u : Text) (ts : List Token) : Prop :=
  ∀ r, Breaks r → scan .code (u ++ r) = ts ++ scan .code r

variable {st : Scan} {c : Char} {u r w : Text}

theorem breaks_nil : Breaks [] := fun _ h => by cases h

theorem Breaks.cons (hword : isWordChar c = false) (hquote : c ≠ '\'') (r : Text) :
    Breaks (c :: r) := by
  intro d hd
  obtain rfl := Option.some.inj hd
  exact ⟨hword, hquote⟩

/-! ## A text in two parts -/

theorem exists_scan_append (st : Scan) (p : Text) :
    ∃ done, ∀ r, scan st (p ++ r) = done ++ scan (after st p) r := by
  induction p generalizing st with
  | nil => exact ⟨[], fun r => rfl⟩
  | cons c p ih =>
      obtain ⟨done, hdone⟩ := ih (st.next c).2
      refine ⟨(st.next c).1 ++ done, fun r => ?_⟩
      rw [List.cons_append, scan, hdone, List.append_assoc]
      rfl

theorem scan_append_of_afresh {p : Text} {ts : List Token}
    (h : scan (after .code p) r = (after .code p).flush ++ ts) :
    scan .code (p ++ r) = tokens p ++ ts := by
  obtain ⟨done, hdone⟩ := exists_scan_append .code p
  have hp := hdone []
  rw [List.append_nil] at hp
  rw [hdone, h, tokens, hp, scan, List.append_assoc]

theorem scan_append_of_code {p : Text} (h : after .code p = .code) (r : Text) :
    scan .code (p ++ r) = tokens p ++ scan .code r := by
  refine scan_append_of_afresh ?_
  rw [h]
  rfl

theorem scan_symbol (hword : isWordChar c = false) (hc : c ∉ ['\'', '"', '`', '#', '-', '/'])
    (hblank : isBlank c = false) (r : Text) : scan .code (c :: r) = .symbol c :: scan .code r := by
  have hfresh : fresh c = ([.symbol c], .code) := by
    simp only [List.mem_cons, List.not_mem_nil, or_false, not_or] at hc
    simp [fresh, hword, hc, hblank]
  rw [scan, Scan.next, hfresh]
  rfl

theorem Stands.join (items : List (Text × List Token)) (h : ∀ x ∈ items, Stands x.1 x.2) :
    Stands (List.intercalate [','] (items.map Prod.fst))
      (List.intercalate [.symbol ','] (items.map Prod.snd)) := by
  induction items with
  | nil => exact fun r _ => rfl
  | cons x items ih =>
      obtain ⟨hx, hitems⟩ := List.forall_mem_cons.mp h
      cases items with
      | nil =>
          intro r hr
          simpa [List.intercalate] using hx r hr
      | cons y items =>
          intro r hr
          have hrest := ih hitems r hr
          simp only [List.map_cons] at hrest ⊢
          rw [List.intercalate_cons_cons, List.intercalate_cons_cons, List.append_assoc,
            List.append_assoc, List.singleton_append,
            hx _ (.cons (c := ',') (by decide) (by decide) _),
            scan_symbol (by decide) (by decide) (by decide), hrest]
          simp

/-! ## Words -/

theorem fresh_word (h : isWordChar c = true) : fresh c = ([], .word [c]) := if_pos h

theorem ne_of_isWordChar {d : Char} (h : isWordChar c = true) (hd : isWordChar d = false) :
    c ≠ d := by
  rintro rfl
  rw [h] at hd
  cases hd

theorem isBlank_of_isWordChar (h : isWordChar c = true) : isBlank c = false := by
  by_contra hblank
  rw [Bool.not_eq_false] at hblank
  simp only [isBlank, Char.isWhitespace, Bool.or_eq_true, decide_eq_true_eq, beq_iff_eq] at hblank
  rcases hblank with (((((rfl | rfl) | rfl) | rfl)) | rfl) | rfl <;> revert h <;> decide

theorem scan_free_word (hst : st.free = true) (hc : isWordChar c = true) (r : Text) :
    scan st (c :: r) = st.flush ++ scan (.word [c]) r := by
  have hdash := ne_of_isWordChar hc (show isWordChar '-' = false by decide)
  have hnl := ne_of_isWordChar hc (show isWordChar '\n' = false by decide)
  have hblank := isBlank_of_isWordChar hc
  have hstar := ne_of_isWordChar hc (show isWordChar '*' = false by decide)
  have hnext : st.next c = (st.flush, .word [c]) := by
    cases st with
    | code => exact fresh_word hc
    | dash => simp [Scan.next, Scan.flush, hdash, fresh_word hc]
    | dashes => simp [Scan.next, Scan.flush, hdash, hnl, hblank, fresh_word hc]
    | slash => simp [Scan.next, Scan.flush, hstar, fresh_word hc]
    | closed q s =>
        have hq : c ≠ q := by
          simp only [Scan.free, Bool.or_eq_true, beq_iff_eq] at hst
          rcases hst with rfl | rfl <;> exact ne_of_isWordChar hc (by decide)
        simp [Scan.next, Scan.flush, hq, fresh_word hc]
    | _ => cases hst
  rw [scan, hnext]

theorem scan_free_minus (hst : st.free = true) (hc : isWordChar c = true) (r : Text) :
    scan st ('-' :: c :: r) = st.flush ++ .symbol '-' :: scan (.word [c]) r := by
  have hdash : scan .dash (c :: r) = .symbol '-' :: scan (.word [c]) r :=
    @scan_free_word .dash c rfl hc r
  have hdashes : scan .dashes (c :: r) = .symbol '-' :: .symbol '-' :: scan (.word [c]) r :=
    @scan_free_word .dashes c rfl hc r
  cases st with
  | code => exact hdash
  | dash => exact hdashes
  | dashes => exact congrArg (.symbol '-' :: ·) hdashes
  | slash => exact congrArg (.symbol '/' :: ·) hdash
  | closed q s =>
      have hnext : (Scan.closed q s).next '-' = ([literal q s], .dash) := by
        simp only [Scan.free, Bool.or_eq_true, beq_iff_eq] at hst
        rcases hst with rfl | rfl <;> rfl
      rw [scan, hnext]
      exact congrArg (literal q s :: ·) hdash
  | _ => cases hst

theorem scan_word_append (hu : ∀ c ∈ u, isWordChar c = true) (w r : Text) :
    scan (.word w) (u ++ r) = scan (.word (w ++ u)) r := by
  induction u generalizing w with
  | nil => rw [List.append_nil, List.nil_append]
  | cons c u ih =>
      obtain ⟨hc, hu⟩ := List.forall_mem_cons.mp hu
      have hnext : (Scan.word w).next c = ([], .word (w ++ [c])) := if_pos hc
      rw [List.cons_append, scan, hnext, List.nil_append, ih hu, List.append_assoc,
        List.singleton_append]

theorem scan_word_end (hw : isMantissa w = false) (hr : Breaks r) :
    scan (.word w) r = .word w :: scan .code r := by
  cases r with
  | nil => rfl
  | cons c r =>
      have hc := (hr c rfl).1
      have hnext : (Scan.word w).next c = (.word w :: (fresh c).1, (fresh c).2) := by
        simp [Scan.next, hc, hw]
      rw [scan, hnext]
      rfl

theorem isMantissa_of_last (h : ∀ c ∈ w.getLast?, c ≠ 'e' ∧ c ≠ 'E') : isMantissa w = false := by
  cases hlast : w.getLast? with
  | none => rw [isMantissa, hlast]; rfl
  | some d =>
      obtain ⟨h1, h2⟩ := h d hlast
      simp [isMantissa, hlast, h1, h2]

theorem isWordChar_of_isDigit (h : c.isDigit = true) : isWordChar c = true := by
  simp [isWordChar, Char.isAlphanum, h]

theorem scan_run (hst : st.free = true) (hne : w ≠ []) (hw : ∀ c ∈ w, isWordChar c = true)
    (hlast : isMantissa w = false) (hr : Breaks r) :
    scan st (w ++ r) = st.flush ++ .word w :: scan .code r := by
  obtain ⟨c, u, rfl⟩ := List.exists_cons_of_ne_nil hne
  obtain ⟨hc, hu⟩ := List.forall_mem_cons.mp hw
  rw [List.cons_append, scan_free_word hst hc, scan_word_append hu, List.singleton_append,
    scan_word_end hlast hr]

theorem scan_exponent {m e : Text} {sign : Char} (hst : st.free = true) (hm : m ≠ [])
    (hdigits : ∀ c ∈ m, c.isDigit = true ∨ c = '.') (hsign : sign = '+' ∨ sign = '-')
    (hne : e ≠ []) (he : ∀ c ∈ e, c.isDigit = true) (hr : Breaks r) :
    scan st (m ++ 'e' :: sign :: e ++ r) =
      st.flush ++ .word (m ++ 'e' :: sign :: e) :: scan .code r := by
  have hword : ∀ c ∈ m ++ ['e'], isWordChar c = true := by
    intro c hc
    rcases List.mem_append.mp hc with hc | hc
    · rcases hdigits c hc with hd | rfl
      · exact isWordChar_of_isDigit hd
      · decide
    · rw [List.mem_singleton.mp hc]
      decide
  have hmantissa : isMantissa (m ++ ['e']) = true := by
    simpa [isMantissa, hm] using hdigits
  have hsignWord : isWordChar sign = false := by
    rcases hsign with rfl | rfl <;> decide
  obtain ⟨d, e, rfl⟩ := List.exists_cons_of_ne_nil hne
  obtain ⟨hd, hdigits'⟩ := List.forall_mem_cons.mp he
  have hwhole : m ++ 'e' :: sign :: d :: e = m ++ ['e'] ++ [sign, d] ++ e := by simp
  have hlast : isMantissa (m ++ ['e'] ++ [sign, d] ++ e) = false := by
    refine isMantissa_of_last fun c hc => ?_
    have hdigit : c.isDigit = true := by
      rw [List.append_assoc, List.getLast?_append_of_ne_nil _ (by simp)] at hc
      refine he c ?_
      rw [List.cons_append, List.cons_append, List.nil_append, List.getLast?_cons_cons] at hc
      exact List.mem_of_getLast? hc
    constructor <;> rintro rfl <;> exact absurd hdigit (by decide)
  obtain ⟨b, u, hu⟩ := List.exists_cons_of_ne_nil (List.append_ne_nil_of_right_ne_nil m
    (List.cons_ne_nil 'e' []))
  have hsplit : m ++ 'e' :: sign :: d :: e ++ r = b :: (u ++ sign :: d :: (e ++ r)) := by
    rw [← List.cons_append, ← hu]
    simp
  rw [hu] at hword hmantissa hwhole hlast
  obtain ⟨hb, htail⟩ := List.forall_mem_cons.mp hword
  have hnext : (Scan.word (b :: u)).next sign = ([], .exponent (b :: u) sign) := by
    simp [Scan.next, hsignWord, hsign, hmantissa]
  have hnext' : (Scan.exponent (b :: u) sign).next d = ([], .word (b :: u ++ [sign, d])) :=
    if_pos hd
  rw [hsplit, scan_free_word hst hb, scan_word_append htail, List.singleton_append, scan, hnext,
    List.nil_append, scan, hnext', List.nil_append,
    scan_word_append fun c hc => isWordChar_of_isDigit (hdigits' c hc), scan_word_end hlast hr,
    hwhole]

/-! ## Literals -/

theorem scan_free_quote (hst : st.free = true) (r : Text) :
    scan st ('\'' :: r) = st.flush ++ scan (.quoted '\'' []) r := by
  have hnext : st.next '\'' = (st.flush, .quoted '\'' []) := by
    cases st with
    | code => rfl
    | dash => rfl
    | dashes => rfl
    | slash => rfl
    | closed q s =>
        simp only [Scan.free, Bool.or_eq_true, beq_iff_eq] at hst
        rcases hst with rfl | rfl <;> rfl
    | _ => cases hst
  rw [scan, hnext]

theorem scan_quote_end (s : Text) (hr : Breaks r) :
    scan (.quoted '\'' s) ('\'' :: r) = .text s :: scan .code r := by
  cases r with
  | nil => rfl
  | cons c r =>
      have hc := (hr c rfl).2
      have hnext : (Scan.closed '\'' s).next c = (.text s :: (fresh c).1, (fresh c).2) := if_neg hc
      change scan (.closed '\'' s) (c :: r) = _
      rw [scan, hnext]
      rfl

theorem scan_quoted_char (hquote : c ≠ '\'') (hescape : c ≠ '\\') (s r : Text) :
    scan (.quoted '\'' s) (c :: r) = scan (.quoted '\'' (s ++ [c])) r := by
  have hnext : (Scan.quoted '\'' s).next c = ([], .quoted '\'' (s ++ [c])) := by
    simp [Scan.next, hquote, hescape]
  rw [scan, hnext, List.nil_append]

theorem scan_quoted_escaped (hc : unescape c = [c]) (s r : Text) :
    scan (.quoted '\'' s) ('\\' :: c :: r) = scan (.quoted '\'' (s ++ [c])) r := by
  change scan (.quoted '\'' (s ++ unescape c)) r = _
  rw [hc]

end JyQipai.Lib.Sql
