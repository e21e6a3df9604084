import Mathlib

/-!
# SQL texts

A text in a queue of the data service holds one statement or more.  MySQL cuts it at
the semicolons that are part of no string and no comment, and drops what is empty at
the end.
-/

namespace JyQipai.DataService

abbrev Text := List Char

/-! ## Where statements end -/

inductive Lex where
  | code
  | dash
  | dashes
  | slash
  | quoted (q : Char)
  | escaped (q : Char)
  | line
  | block
  | star
  deriving DecidableEq

namespace Lex

def ends : Lex → Bool
  | .code | .dash | .dashes | .slash => true
  | _ => false

def fresh (c : Char) : Lex :=
  if c = '\'' ∨ c = '"' ∨ c = '`' then .quoted c
  else if c = '#' then .line
  else if c = '-' then .dash
  else if c = '/' then .slash
  else .code

def next : Lex → Char → Lex
  | .code, c => fresh c
  | .dash, c => if c = '-' then .dashes else fresh c
  | .dashes, c =>
      -- two dashes begin a comment only if a blank follows
      if c = '\n' then .code
      else if c.isWhitespace then .line
      else if c = '-' then .dashes
      else fresh c
  | .slash, c => if c = '*' then .block else fresh c
  | .quoted q, c =>
      if c = q then .code else if c = '\\' ∧ q ≠ '`' then .escaped q else .quoted q
  | .escaped q, _ => .quoted q
  | .line, c => if c = '\n' then .code else .line
  | .block, c => if c = '*' then .star else .block
  | .star, c => if c = '/' then .code else if c = '*' then .star else .block

end Lex

def lex (l : Lex) (t : Text) : Lex := t.foldl Lex.next l

def isBlank (c : Char) : Bool := c.isWhitespace

def trim (t : Text) : Text := (t.dropWhile isBlank).rdropWhile isBlank

/-- The pieces of a text between the semicolons that end statements; `cur` was read
since the last one. -/
def cut : Lex → Text → Text → List Text
  | _, cur, [] => [trim cur]
  | l, cur, c :: t =>
      if c = ';' ∧ l.ends = true then trim cur :: cut .code [] t
      else cut (l.next c) (cur ++ [c]) t

def statements (t : Text) : List Text := (cut .code [] t).rdropWhile (· = [])

/-! ## Cutting a text in two -/

theorem cut_nil (l : Lex) (cur : Text) : cut l cur [] = [trim cur] := rfl

theorem cut_cons (l : Lex) (cur : Text) (c : Char) (t : Text) :
    cut l cur (c :: t) = if c = ';' ∧ l.ends = true then trim cur :: cut .code [] t
      else cut (l.next c) (cur ++ [c]) t := rfl

theorem lex_append (l : Lex) (s t : Text) : lex l (s ++ t) = lex (lex l s) t :=
  List.foldl_append

theorem next_semicolon {l : Lex} (h : l.ends = true) : l.next ';' = .code := by
  cases l <;> first | rfl | cases h

theorem cut_append (l : Lex) (cur s : Text) :
    ∃ front last, cut l cur s = front ++ [trim last] ∧
      ∀ t, cut l cur (s ++ t) = front ++ cut (lex l s) last t := by
  induction s generalizing l cur with
  | nil => exact ⟨[], cur, rfl, fun t => rfl⟩
  | cons c s ih =>
      by_cases hc : c = ';' ∧ l.ends = true
      · obtain ⟨front, last, hs, ht⟩ := ih .code []
        have hlex : lex l (c :: s) = lex .code s := by
          rw [lex, List.foldl_cons, hc.1, next_semicolon hc.2]
          rfl
        refine ⟨trim cur :: front, last, ?_, fun t => ?_⟩
        · rw [cut_cons, if_pos hc, hs, List.cons_append]
        · rw [List.cons_append, cut_cons, if_pos hc, ht, List.cons_append, hlex]
      · obtain ⟨front, last, hs, ht⟩ := ih (l.next c) (cur ++ [c])
        refine ⟨front, last, ?_, fun t => ?_⟩
        · rw [cut_cons, if_neg hc, hs]
        · rw [List.cons_append, cut_cons, if_neg hc, ht]
          rfl

theorem cut_semicolon {s : Text} (hs : (lex .code s).ends = true) (t : Text) :
    cut .code [] (s ++ ';' :: t) = cut .code [] s ++ cut .code [] t := by
  obtain ⟨front, last, heq, happ⟩ := cut_append .code [] s
  rw [happ, heq, cut_cons, if_pos ⟨rfl, hs⟩, List.append_assoc, List.singleton_append]

theorem cut_of_not_mem {l : Lex} {cur t : Text} (h : ';' ∉ t) :
    cut l cur t = [trim (cur ++ t)] := by
  induction t generalizing l cur with
  | nil => rw [cut_nil, List.append_nil]
  | cons c t ih =>
      rw [List.mem_cons, not_or] at h
      rw [cut_cons, if_neg fun hc => h.1 hc.1.symm, ih h.2, List.append_assoc,
        List.singleton_append]

theorem trim_append_left {w : Text} (hw : ∀ c ∈ w, isBlank c = true) (t : Text) :
    trim (w ++ t) = trim t := by
  rw [trim, List.dropWhile_append_of_pos hw, trim]

theorem cut_blank {w : Text} (hw : ∀ c ∈ w, isBlank c = true) (l : Lex) (cur t : Text) :
    cut l (w ++ cur) t = cut l cur t := by
  induction t generalizing l cur with
  | nil => rw [cut_nil, cut_nil, trim_append_left hw]
  | cons c t ih =>
      rw [cut_cons, cut_cons, trim_append_left hw, List.append_assoc, ih]

theorem trim_eq_nil_iff {t : Text} : trim t = [] ↔ ∀ c ∈ t, isBlank c = true := by
  unfold trim
  rw [List.rdropWhile_eq_nil_iff]
  constructor
  · intro h c hc
    by_cases hd : c ∈ t.dropWhile isBlank
    · exact h c hd
    · rw [← List.takeWhile_append_dropWhile (p := isBlank) (l := t), List.mem_append] at hc
      rcases hc with hc | hc
      · exact List.mem_takeWhile_imp hc
      · exact absurd hc hd
  · intro h c hc
    exact h c ((List.dropWhile_suffix _).subset hc)

theorem trim_append_word (cur : Text) {c d : Char} {u : Text} (hc : isBlank c = false)
    (hd : isBlank d = false) :
    ∃ w, (∀ x ∈ w, isBlank x = true) ∧ trim (cur ++ (c :: u ++ [d])) =
      if trim cur = [] then c :: u ++ [d] else trim cur ++ w ++ (c :: u ++ [d]) := by
  have hlast : ∀ t : Text, (t ++ (c :: u ++ [d])).rdropWhile isBlank = t ++ (c :: u ++ [d]) := by
    intro t
    rw [← List.append_assoc, List.rdropWhile_concat_neg]
    rw [hd]
    decide
  refine ⟨(cur.dropWhile isBlank).rtakeWhile isBlank, fun x hx =>
    List.mem_rtakeWhile_imp hx, ?_⟩
  split
  · rename_i hnil
    have hblank := trim_eq_nil_iff.mp hnil
    rw [trim, List.dropWhile_append_of_pos hblank, List.cons_append, List.dropWhile_cons, hc]
    exact hlast []
  · rename_i hne
    have hdrop : cur.dropWhile isBlank ≠ [] := by
      intro h
      rw [trim, h] at hne
      exact hne rfl
    rw [trim, List.dropWhile_append]
    simp only [List.isEmpty_iff, hdrop, if_false]
    rw [hlast]
    congr 1
    rw [trim, List.rdropWhile_append_rtakeWhile]

theorem cut_singleton {l : Lex} {cur t p : Text} (h : cut l cur t = [p]) :
    p = trim (cur ++ t) := by
  induction t generalizing l cur with
  | nil =>
      rw [cut_nil, List.singleton_inj] at h
      rw [List.append_nil, h]
  | cons c t ih =>
      rw [cut_cons] at h
      split at h
      · rw [List.cons.injEq] at h
        obtain ⟨front, last, hcut, -⟩ := cut_append .code [] t
        rw [h.2] at hcut
        simp at hcut
      · rw [ih h, List.append_assoc, List.singleton_append]

theorem cut_newline (t : Text) : cut .code [] ('\n' :: t) = cut .code [] t := by
  have hnl : ¬ ('\n' = ';' ∧ Lex.code.ends = true) := by decide
  rw [cut_cons, if_neg hnl, List.nil_append]
  refine cut_blank (w := ['\n']) (fun c hc => ?_) .code [] t
  rw [List.mem_singleton.mp hc]
  rfl

end JyQipai.DataService
