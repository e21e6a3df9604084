import JyQipai.DataService.InOrder

/-!
# The counter behind a text

`safe_sql_semicolon` is to close the last statement of a text, so that the counter behind it is
a statement of its own.  It looks for a semicolon in the whole text and not at its end.
-/

namespace JyQipai.DataService

/-- Up to blanks, the text ends with a semicolon that closes a statement. -/
def EndsClosed (sql : Text) : Prop :=
  ∃ v w, sql = v ++ ';' :: w ∧ (∀ c ∈ w, isBlank c = true) ∧ (lex .code v).ends = true

def CounterApart (sql : Text) : Prop :=
  ∃ front, cut .code [] (safeSqlSemicolon sql) = front ++ [[]] ∧
    cut .code [] (queuedSql sql) = front ++ [sqlStatement, []]

theorem next_blank {c : Char} (h : isBlank c = true) : Lex.next .code c = .code := by
  simp only [isBlank, Char.isWhitespace, Bool.or_eq_true, decide_eq_true_eq] at h
  rcases h with (((rfl | rfl) | rfl) | rfl) <;> rfl

theorem cut_blanks {w : Text} (h : ∀ c ∈ w, isBlank c = true) (cur t : Text) :
    cut .code cur (w ++ t) = cut .code (cur ++ w) t := by
  induction w generalizing cur with
  | nil => rw [List.nil_append, List.append_nil]
  | cons c w ih =>
      obtain ⟨hc, hw⟩ := List.forall_mem_cons.mp h
      have hne : ¬ (c = ';' ∧ Lex.code.ends = true) := by
        rintro ⟨rfl, -⟩
        cases hc
      rw [List.cons_append, cut_cons, if_neg hne, next_blank hc, ih hw, List.append_assoc,
        List.singleton_append]

theorem cut_closed {v w : Text} (hw : ∀ c ∈ w, isBlank c = true) (hv : (lex .code v).ends = true)
    (t : Text) :
    cut .code [] (v ++ ';' :: w ++ t) = cut .code [] v ++ cut .code [] t := by
  have hblank := cut_blank hw .code [] t
  rw [List.append_nil] at hblank
  rw [List.append_assoc, List.cons_append, cut_semicolon hv, cut_blanks hw, List.nil_append, hblank]

theorem cut_sqlStatementCounter : cut .code [] sqlStatementCounter = [sqlStatement, []] := by
  decide +kernel

theorem counterApart_of_endsClosed {sql : Text} (h : EndsClosed (safeSqlSemicolon sql)) :
    CounterApart sql := by
  obtain ⟨v, w, hsql, hw, hv⟩ := h
  refine ⟨cut .code [] v, ?_, ?_⟩
  · have hend := cut_closed hw hv []
    rwa [List.append_nil, ← hsql] at hend
  · rw [queuedSql, hsql, cut_closed hw hv, cut_sqlStatementCounter]

theorem endsClosed_append_iff {sql : Text} :
    EndsClosed (sql ++ [';']) ↔ (lex .code sql).ends = true := by
  constructor
  · rintro ⟨v, w, hsql, hw, hv⟩
    rcases List.eq_nil_or_concat w with rfl | ⟨w', c, rfl⟩
    · rwa [List.append_cancel_right hsql]
    · rw [List.concat_eq_append, ← List.cons_append, ← List.append_assoc] at hsql
      have hlast := List.append_inj_right' hsql rfl
      obtain rfl := List.singleton_inj.mp hlast
      exact absurd (hw ';' (by simp)) (by decide)
  · intro hends
    exact ⟨sql, [], rfl, fun c hc => absurd hc List.not_mem_nil, hends⟩

/-- The last statement is closed, and the counter apart, exactly if a text with a semicolon
anywhere ends with one that closes a statement, and a text without one ends in no string and
no comment. -/
theorem safeSqlSemicolon_closes_iff (sql : Text) :
    (EndsClosed (safeSqlSemicolon sql) ∧ CounterApart sql ∧
        (sql.getLast? = some ';' → safeSqlSemicolon sql = sql)) ↔
      (';' ∈ sql → EndsClosed sql) ∧ (';' ∉ sql → (lex .code sql).ends = true) := by
  have hclosed : EndsClosed (safeSqlSemicolon sql) ↔
      (';' ∈ sql → EndsClosed sql) ∧ (';' ∉ sql → (lex .code sql).ends = true) := by
    unfold safeSqlSemicolon
    by_cases h : ';' ∈ sql
    · rw [if_pos h]
      exact ⟨fun hsql => ⟨fun _ => hsql, fun hn => absurd h hn⟩, fun hsql => hsql.1 h⟩
    · rw [if_neg h, endsClosed_append_iff]
      exact ⟨fun hsql => ⟨fun hy => absurd hy h, fun _ => hsql⟩, fun hsql => hsql.2 h⟩
  rw [← hclosed]
  constructor
  · exact fun h => h.1
  · intro h
    refine ⟨h, counterApart_of_endsClosed h, fun hlast => ?_⟩
    rw [safeSqlSemicolon, if_pos (List.mem_of_getLast? hlast)]

/-- With a semicolon in the string the text stays open, and the counter becomes a part of its
statement. -/
theorem semicolon_in_string_open :
    cut .code [] (safeSqlSemicolon (MySql.deviceSql "a;b")) = [MySql.deviceSql "a;b"] ∧
      cut .code [] (queuedSql (MySql.deviceSql "a;b")) =
        [MySql.deviceSql "a;b" ++ sqlStatement, []] := by
  decide +kernel

end JyQipai.DataService
