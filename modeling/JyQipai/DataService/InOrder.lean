import JyQipai.DataService.Exec
import JyQipai.Lib.Restart

/-!
# Every text once and in order

MySQL runs the statements of a batch in order and stops at the first it rejects;
the counter behind each text tells the service which text that was.  Sent in batches,
the texts have the same effect as sent one by one, unless `safe_sql_semicolon` has left
a text without the semicolon that keeps it apart from the counter.
-/

namespace JyQipai.DataService

open JyQipai.Lib

structure MySql where
  rejects : List Text → Text → Bool
  accepts_counter : ∀ done, rejects done sqlStatement = false

/-- What MySQL has executed on a connection, without the statements of the counter,
and `@sql_statement_index`. -/
structure Session where
  executed : List Text := []
  index : Nat := 0

namespace MySql

variable (M : MySql)

def execStatement (s : Session) (q : Text) : Session :=
  if q = sqlStatement then { s with index := s.index + 1 }
  else { s with executed := s.executed ++ [q] }

def runStatements : List Text → Session → Bool × Session
  | [], s => (true, s)
  | q :: qs, s =>
      if q = [] ∨ M.rejects s.executed q = true then (false, s)
      else runStatements qs (execStatement s q)

def runBatch (sql : Text) (s : Session) : Bool × Session :=
  if statements sql = [] then (false, s) else M.runStatements (statements sql) s

def answer : Ask → Session → Answer × Session
  | .resetIndex .., s => (.ok, { s with index := 0 })
  | .batch _ rest, s =>
      (if (M.runBatch (concatSql rest) s).1 then .ok else .errno,
        (M.runBatch (concatSql rest) s).2)
  | .selectIndex .., s => (.index s.index, s)
  | _, s => (.ok, s)

def alone (done : List Text) (sql : Text) : Bool × List Text :=
  ((M.runBatch sql ⟨done, 0⟩).1, (M.runBatch sql ⟨done, 0⟩).2.executed)

/-- The text is cut as its author meant it, and none of its statements can be followed
by the counter's. -/
structure Reads (sql : Text) : Prop where
  ends : (lex .code sql).ends = true
  counter : sqlStatement ∉ cut .code [] sql
  glued : ∀ done, ∀ q ∈ statements sql, ∀ w, (∀ c ∈ w, isBlank c = true) →
    M.rejects done (q ++ w ++ sqlStatement) = true

end MySql

def Closed (sql : Text) : Prop :=
  statements sql ≠ [] ∧ cut .code [] sql = statements sql ++ [[]]

instance (sql : Text) : Decidable (Closed sql) :=
  inferInstanceAs (Decidable (_ ∧ _))

def sent (sql : Text) : List Text := cut .code [] (safeSqlSemicolon sql ++ sqlStatement)

namespace MySql

variable (M : MySql)

def attempt (done : List Text) (sql : Text) : Bool × List Text :=
  ((M.runStatements (sent sql) ⟨done, 0⟩).1, (M.runStatements (sent sql) ⟨done, 0⟩).2.executed)

variable {M}

/-! ## Statements -/

attribute [local simp] runStatements execStatement runBatch

theorem runStatements_append (qs rs : List Text) (s : Session) :
    M.runStatements (qs ++ rs) s =
      if (M.runStatements qs s).1 then M.runStatements rs (M.runStatements qs s).2
      else M.runStatements qs s := by
  induction qs generalizing s with
  | nil => rfl
  | cons q qs ih =>
      rw [List.cons_append, runStatements, runStatements]
      split
      · rfl
      · exact ih _

theorem runStatements_index (qs : List Text) (done : List Text) (k : Nat) :
    M.runStatements qs ⟨done, k⟩ =
      ((M.runStatements qs ⟨done, 0⟩).1,
        ⟨(M.runStatements qs ⟨done, 0⟩).2.executed,
          k + (M.runStatements qs ⟨done, 0⟩).2.index⟩) := by
  induction qs generalizing done k with
  | nil => rfl
  | cons q qs ih =>
      rw [runStatements, runStatements]
      split
      · rfl
      · unfold execStatement
        split
        · rw [ih done (k + 1), ih done (0 + 1)]
          simp only [Prod.mk.injEq, Session.mk.injEq, true_and]
          omega
        · rw [ih]

theorem runStatements_no_counter {qs : List Text} (hq : sqlStatement ∉ qs) (s : Session) :
    (M.runStatements qs s).2.index = s.index := by
  induction qs generalizing s with
  | nil => rfl
  | cons q qs ih =>
      rw [List.mem_cons, not_or] at hq
      rw [runStatements]
      split
      · rfl
      · rw [ih hq.2, execStatement, if_neg fun h => hq.1 h.symm]

theorem sqlStatement_ne_nil : sqlStatement ≠ [] := by decide

theorem run_counter (s : Session) :
    M.runStatements [sqlStatement] s = (true, { s with index := s.index + 1 }) := by
  rw [runStatements, if_neg, runStatements, execStatement, if_pos rfl]
  rw [not_or, M.accepts_counter]
  exact ⟨sqlStatement_ne_nil, Bool.false_ne_true⟩

theorem run_empty (qs : List Text) (s : Session) : M.runStatements ([] :: qs) s = (false, s) := by
  rw [runStatements, if_pos (.inl rfl)]

theorem run_rejected {q : Text} {s : Session} (h : M.rejects s.executed q = true)
    (qs : List Text) : M.runStatements (q :: qs) s = (false, s) := by
  rw [runStatements, if_pos (.inr h)]

theorem run_one_rejected {q : Text} {s : Session} (h : (M.runStatements [q] s).1 = false) :
    M.runStatements [q] s = (false, s) := by
  rw [runStatements] at h ⊢
  split
  · rfl
  · rename_i hacc
    rw [if_neg hacc] at h
    cases h

end MySql

/-! ## Texts in a batch -/

theorem safeSqlSemicolon_mem (sql : Text) : ';' ∈ safeSqlSemicolon sql := by
  unfold safeSqlSemicolon
  split
  · assumption
  · simp

theorem ends_safe {sql : Text} (h : (lex .code sql).ends = true) :
    (lex .code (safeSqlSemicolon sql)).ends = true := by
  unfold safeSqlSemicolon
  split
  · exact h
  · rw [lex_append]
    change ((lex .code sql).next ';').ends = true
    rw [next_semicolon h]
    rfl

theorem cut_safe {sql : Text} (h : (lex .code sql).ends = true) :
    cut .code [] (safeSqlSemicolon sql) = cut .code [] sql ∨
      cut .code [] (safeSqlSemicolon sql) = cut .code [] sql ++ [[]] := by
  unfold safeSqlSemicolon
  split
  · exact .inl rfl
  · exact .inr (cut_semicolon h [])

theorem statements_safe {sql : Text} (h : (lex .code sql).ends = true) :
    statements (safeSqlSemicolon sql) = statements sql := by
  unfold statements
  rcases cut_safe h with heq | heq
  · rw [heq]
  · rw [heq, List.rdropWhile_concat_pos _ _ _ (by simp)]

theorem counter_not_mem_safe {sql : Text} (h : (lex .code sql).ends = true)
    (hc : sqlStatement ∉ cut .code [] sql) :
    sqlStatement ∉ cut .code [] (safeSqlSemicolon sql) := by
  rcases cut_safe h with heq | heq
  · rw [heq]
    exact hc
  · rw [heq, List.mem_append, not_or]
    exact ⟨hc, by decide⟩

theorem cut_eq_statements (sql : Text) :
    ∃ k, cut .code [] sql = statements sql ++ List.replicate k [] := by
  refine ⟨((cut .code [] sql).rtakeWhile (· = [])).length, ?_⟩
  have htail : (cut .code [] sql).rtakeWhile (· = []) =
      List.replicate ((cut .code [] sql).rtakeWhile (· = [])).length [] := by
    refine List.eq_replicate_iff.mpr ⟨rfl, fun q hq => ?_⟩
    simpa using List.mem_rtakeWhile_imp hq
  rw [← htail]
  exact List.rdropWhile_append_rtakeWhile.symm

theorem statements_last_ne {sql : Text} {front : List Text} {q : Text}
    (h : statements sql = front ++ [q]) : q ≠ [] := by
  have hlast := List.rdropWhile_last_not (p := (· = [])) (cut .code [] sql)
    (by
      intro hnil
      rw [statements, hnil] at h
      simp at h)
  simp only [statements] at h
  simp only [h, List.getLast_concat] at hlast
  simpa using hlast

theorem cut_ne_empty {sql : Text} (h : ';' ∈ sql) : cut .code [] sql ≠ [[]] := by
  intro hcut
  have htrim := cut_singleton hcut
  rw [List.nil_append] at htrim
  have hblank := trim_eq_nil_iff.mp htrim.symm ';' h
  cases hblank

theorem sent_eq (sql : Text) :
    ∃ front last w, (∀ c ∈ w, isBlank c = true) ∧
      cut .code [] (safeSqlSemicolon sql) = front ++ [last] ∧
      sent sql = front ++ [if last = [] then sqlStatement else last ++ w ++ sqlStatement] := by
  obtain ⟨front, last, hcut, happ⟩ := cut_append .code [] (safeSqlSemicolon sql)
  have hword : sqlStatement =
      's' :: "et @sql_statement_index=@sql_statement_index+".toList ++ ['1'] := rfl
  have hno : ';' ∉ sqlStatement := by decide
  obtain ⟨w, hw, htrim⟩ := trim_append_word last
    (u := "et @sql_statement_index=@sql_statement_index+".toList)
    (show isBlank 's' = false from rfl) (show isBlank '1' = false from rfl)
  rw [← hword] at htrim
  refine ⟨front, trim last, w, hw, hcut, ?_⟩
  rw [sent, happ, cut_of_not_mem hno, htrim]

namespace MySql

variable {M : MySql}

theorem alone_eq {sql : Text} (h : (lex .code sql).ends = true) (done : List Text)
    (hne : statements (safeSqlSemicolon sql) ≠ []) :
    M.alone done sql =
      ((M.runStatements (statements (safeSqlSemicolon sql)) ⟨done, 0⟩).1,
        (M.runStatements (statements (safeSqlSemicolon sql)) ⟨done, 0⟩).2.executed) := by
  rw [statements_safe h] at hne ⊢
  rw [alone, runBatch, if_neg hne]

theorem attempt_closed {sql : Text} (h : M.Reads sql) (hc : Closed (safeSqlSemicolon sql))
    (done : List Text) : M.attempt done sql = M.alone done sql := by
  obtain ⟨front, last, w, -, hcut, hsent⟩ := sent_eq sql
  rw [hc.2] at hcut
  obtain ⟨hfront, hlast⟩ := List.append_inj' hcut rfl
  rw [List.singleton_inj] at hlast
  rw [← hlast, if_pos rfl, ← hfront] at hsent
  rw [alone_eq h.ends done hc.1]
  rw [attempt, hsent, runStatements_append]
  split
  · rename_i hok
    rw [run_counter, hok]
  · rfl

theorem attempt_unclosed {sql : Text} (h : M.Reads sql)
    (hc : ¬ Closed (safeSqlSemicolon sql)) (done : List Text) :
    (M.attempt done sql).1 = false := by
  obtain ⟨front, last, w, hw, hcut, hsent⟩ := sent_eq sql
  obtain ⟨k, hk⟩ := cut_eq_statements (safeSqlSemicolon sql)
  rw [attempt, hsent, runStatements_append]
  split
  · rename_i hok
    by_cases hlast : last = []
    · -- an empty statement stands in front of the last one
      exfalso
      subst hlast
      obtain ⟨n, rfl⟩ : ∃ n, k = n + 1 := by
        cases k with
        | zero =>
            rw [List.replicate_zero, List.append_nil] at hk
            exact absurd rfl (statements_last_ne (hk.symm.trans hcut))
        | succ n => exact ⟨n, rfl⟩
      rw [hcut, List.replicate_succ', ← List.append_assoc] at hk
      have hfront := (List.append_inj' hk rfl).1
      cases n with
      | zero =>
          rw [List.replicate_zero, List.append_nil] at hfront
          refine hc ⟨fun hnil => ?_, by rw [hcut, hfront]⟩
          rw [hnil] at hfront
          rw [hfront] at hcut
          exact cut_ne_empty (safeSqlSemicolon_mem sql) hcut
      | succ n =>
          rw [hfront, List.replicate_succ, runStatements_append] at hok
          split at hok
          · rw [run_empty] at hok
            cases hok
          · contradiction
    · have hmem : last ∈ statements sql := by
        rw [← statements_safe h.ends]
        have hin : last ∈ cut .code [] (safeSqlSemicolon sql) := by
          rw [hcut]
          simp
        rw [hk] at hin
        rcases List.mem_append.mp hin with hin | hin
        · exact hin
        · exact absurd (List.eq_of_mem_replicate hin) hlast
      rw [if_neg hlast, run_rejected (h.glued _ last hmem w hw)]
  · rename_i hfail
    exact Bool.eq_false_iff.mpr hfail

theorem attempt_rejected {sql : Text} (h : M.Reads sql) {done : List Text}
    (ha : (M.alone done sql).1 = false) : M.attempt done sql = M.alone done sql := by
  by_cases hc : Closed (safeSqlSemicolon sql)
  · exact attempt_closed h hc done
  have hfalse := attempt_unclosed h hc done
  refine Prod.ext (hfalse.trans ha.symm) ?_
  obtain ⟨front, last, w, hw, hcut, hsent⟩ := sent_eq sql
  obtain ⟨k, hk⟩ := cut_eq_statements (safeSqlSemicolon sql)
  rw [attempt] at hfalse ⊢
  by_cases hnil : statements (safeSqlSemicolon sql) = []
  · -- nothing but empty statements
    have hsql : statements sql = [] := by rw [← statements_safe h.ends, hnil]
    rw [alone, runBatch, if_pos hsql]
    rw [hnil, List.nil_append, hcut] at hk
    cases front with
    | nil =>
        rw [List.nil_append] at hcut hk
        have hlast : last = [] := by
          have hin : last ∈ List.replicate k [] := by
            rw [← hk]
            simp
          exact List.eq_of_mem_replicate hin
        rw [hlast] at hcut
        exact absurd hcut (cut_ne_empty (safeSqlSemicolon_mem sql))
    | cons q front =>
        have hq : q = [] := by
          have hin : q ∈ List.replicate k [] := by
            rw [← hk]
            simp
          exact List.eq_of_mem_replicate hin
        rw [hsent, hq, List.cons_append, run_empty]
  · rw [alone_eq h.ends done hnil] at ha ⊢
    cases k with
    | zero =>
        rw [List.replicate_zero, List.append_nil, hcut] at hk
        have hmem : last ∈ statements sql := by
          rw [← statements_safe h.ends, ← hk]
          simp
        rw [if_neg (statements_last_ne hk.symm)] at hsent
        rw [← hk, runStatements_append] at ha ⊢
        rw [hsent, runStatements_append]
        split
        · rename_i hok
          rw [if_pos hok] at ha
          rw [run_one_rejected ha, run_rejected (h.glued _ last hmem w hw)]
        · rfl
    | succ n =>
        rw [hcut, List.replicate_succ', ← List.append_assoc] at hk
        rw [hsent, (List.append_inj' hk rfl).1, List.append_assoc, runStatements_append, ha]
        rfl

theorem sent_index {sql : Text} (h : M.Reads sql) (done : List Text) :
    (M.runStatements (sent sql) ⟨done, 0⟩).2.index =
      if (M.runStatements (sent sql) ⟨done, 0⟩).1 then 1 else 0 := by
  obtain ⟨front, last, w, hw, hcut, hsent⟩ := sent_eq sql
  have hno := counter_not_mem_safe h.ends h.counter
  rw [hcut, List.mem_append, not_or] at hno
  have hindex := runStatements_no_counter (M := M) hno.1 ⟨done, 0⟩
  rw [hsent, runStatements_append]
  by_cases hok : (M.runStatements front ⟨done, 0⟩).1 = true
  · rw [if_pos hok]
    by_cases hlast : last = []
    · rw [if_pos hlast, run_counter]
      simp [hindex]
    · have hfalse := attempt_unclosed h (fun hc => by
        rw [hc.2] at hcut
        exact hlast (List.singleton_inj.mp (List.append_inj' hcut rfl).2).symm) done
      rw [attempt, hsent, runStatements_append, if_pos hok] at hfalse
      rw [run_one_rejected hfalse, hindex]
      rfl
  · rw [if_neg hok, if_neg hok, hindex]

/-! ## Batches -/

theorem lex_counter {l : Lex} (h : l.ends = true) : lex l sqlStatement = .code := by
  cases l <;> first | rfl | cases h

theorem cut_queuedSql {sql : Text} (h : M.Reads sql) (rest : Text) :
    cut .code [] (queuedSql sql ++ rest) = sent sql ++ cut .code [] rest := by
  have hcode : (lex .code (safeSqlSemicolon sql ++ sqlStatement)).ends = true := by
    rw [lex_append, lex_counter (ends_safe h.ends)]
    rfl
  rw [sent, ← cut_semicolon hcode, queuedSql, sqlStatementCounter, List.append_assoc,
    List.append_assoc, List.append_assoc, List.singleton_append]

theorem concatSql_cons (a b : Text) (array : List Text) :
    concatSql (a :: b :: array) = a ++ '\n' :: concatSql (b :: array) := by
  simp [concatSql, List.intercalate]

theorem cut_batch {sqls : List Text} (h : ∀ sql ∈ sqls, M.Reads sql) (hne : sqls ≠ []) :
    cut .code [] (concatSql (sqls.map queuedSql)) = sqls.flatMap sent ++ [[]] := by
  induction sqls with
  | nil => exact absurd rfl hne
  | cons sql sqls ih =>
      have hfirst := h sql List.mem_cons_self
      cases sqls with
      | nil =>
          have hone : concatSql ([sql].map queuedSql) = queuedSql sql ++ [] := by
            simp [concatSql]
          rw [hone, cut_queuedSql hfirst, List.flatMap_singleton]
          rfl
      | cons next sqls =>
          have hrest := ih (fun q hq => h q (List.mem_cons_of_mem _ hq)) (by simp)
          rw [List.map_cons, List.map_cons, concatSql_cons, cut_queuedSql hfirst, cut_newline,
            ← List.map_cons, hrest, List.flatMap_cons (x := sql), List.append_assoc]

theorem statements_batch {sqls : List Text} (h : ∀ sql ∈ sqls, M.Reads sql) (hne : sqls ≠ []) :
    statements (concatSql (sqls.map queuedSql)) = sqls.flatMap sent := by
  obtain ⟨init, sql, rfl⟩ : ∃ init sql, sqls = init ++ [sql] :=
    ⟨_, _, (List.dropLast_append_getLast hne).symm⟩
  obtain ⟨front, last, w, -, -, hsent⟩ := sent_eq sql
  have hword : (if last = [] then sqlStatement else last ++ w ++ sqlStatement) ≠ [] := by
    split
    · exact sqlStatement_ne_nil
    · simp [sqlStatement_ne_nil]
  rw [statements, cut_batch h hne, List.rdropWhile_concat_pos _ _ _ (by simp),
    List.flatMap_append, List.flatMap_singleton, hsent, ← List.append_assoc,
    List.rdropWhile_concat_neg]
  simpa using hword

theorem run_batch {sqls : List Text} (h : ∀ sql ∈ sqls, M.Reads sql) (done : List Text)
    (k : Nat) :
    M.runStatements (sqls.flatMap sent) ⟨done, k⟩ =
      ((upTo M.attempt sqls done).1.isNone,
        ⟨(upTo M.attempt sqls done).2, k + (upTo M.attempt sqls done).1.getD sqls.length⟩) := by
  induction sqls generalizing done k with
  | nil => rfl
  | cons sql sqls ih =>
      have hrest := ih fun q hq => h q (List.mem_cons_of_mem _ hq)
      have hindex := sent_index (h sql List.mem_cons_self) done
      rw [List.flatMap_cons, runStatements_append, runStatements_index, hindex, upTo]
      cases hok : (M.runStatements (sent sql) ⟨done, 0⟩).1 with
      | true =>
          have hattempt : M.attempt done sql =
              (true, (M.runStatements (sent sql) ⟨done, 0⟩).2.executed) := Prod.ext hok rfl
          rw [hattempt, if_pos rfl, if_pos rfl, if_pos rfl, hrest]
          cases (upTo M.attempt sqls (M.runStatements (sent sql) ⟨done, 0⟩).2.executed).1 with
          | none =>
              simp only [Option.map_none, Option.getD_none, List.length_cons, Prod.mk.injEq,
                Session.mk.injEq, true_and]
              omega
          | some i =>
              simp only [Option.map_some, Option.getD_some, Option.isNone_some, Prod.mk.injEq,
                Session.mk.injEq, true_and]
              omega
      | false =>
          have hattempt : M.attempt done sql =
              (false, (M.runStatements (sent sql) ⟨done, 0⟩).2.executed) := Prod.ext hok rfl
          rw [hattempt]
          simp

theorem runBatch_texts {sqls : List Text} (h : ∀ sql ∈ sqls, M.Reads sql) (hne : sqls ≠ [])
    (s : Session) :
    M.runBatch (concatSql (sqls.map queuedSql)) s =
      ((upTo M.attempt sqls s.executed).1.isNone,
        ⟨(upTo M.attempt sqls s.executed).2,
          s.index + (upTo M.attempt sqls s.executed).1.getD sqls.length⟩) := by
  have hpieces : sqls.flatMap sent ≠ [] := by
    obtain ⟨sql, sqls, rfl⟩ := List.exists_cons_of_ne_nil hne
    obtain ⟨front, last, w, -, -, hsent⟩ := sent_eq sql
    rw [List.flatMap_cons, hsent]
    simp
  rw [runBatch, statements_batch h hne, if_neg hpieces, run_batch h]

/-! ## The loops of the service -/

open State

variable {name : QueueName}

theorem serve_execSqlArray_ok {array : List Text} {start : Nat} {s : State} {t t' : Session}
    (h : M.runBatch (concatSql (array.drop (start - 1))) { t with index := 0 } = (true, t')) :
    (execSqlArray name array start s).serve M.answer t =
      (s.noteExecuted name (array.drop (start - 1)), some none, t') := by
  simp [execSqlArray, Prog.serve, answer, h]

theorem serve_execSqlArray_errno {array : List Text} {start : Nat} {s : State}
    {t t' : Session}
    (h : M.runBatch (concatSql (array.drop (start - 1))) { t with index := 0 } = (false, t')) :
    (execSqlArray name array start s).serve M.answer t =
      (s.noteExecuted name ((array.drop (start - 1)).take t'.index),
        some (some ⟨t'.index + start, by omega⟩), t') := by
  simp [execSqlArray, Prog.serve, answer, h]

variable (name) in
theorem serve_runArray {sqls : List Text} (h : ∀ sql ∈ sqls, M.Reads sql) (start : Nat)
    (hpos : 1 ≤ start) (s : State) (t : Session) :
    ∃ s' t', (runArray name (sqls.map queuedSql) start s).serve M.answer t = (s', some (), t') ∧
      s'.sqlQueues = s.sqlQueues ∧
      s'.errorWriteQueue = s.errorWriteQueue ++
        (oneByOne M.attempt (sqls.drop (start - 1)) t.executed).1.map
          (fun sql => (name, some (queuedSql sql))) ∧
      t'.executed = (oneByOne M.attempt (sqls.drop (start - 1)) t.executed).2 := by
  induction hn : sqls.length + 1 - start using Nat.strong_induction_on generalizing start s t with
  | _ n ih =>
      rw [runArray, List.length_map]
      by_cases hle : start ≤ sqls.length
      · rw [if_pos hle]
        have hne : sqls.drop (start - 1) ≠ [] := by
          rw [ne_eq, List.drop_eq_nil_iff]
          omega
        have hbatch := runBatch_texts (M := M) (fun q hq => h q (List.mem_of_mem_drop hq)) hne
          { t with index := 0 }
        rw [List.map_drop] at hbatch
        rcases hup : upTo M.attempt (sqls.drop (start - 1)) t.executed with ⟨_ | i, done⟩
        · rw [hup] at hbatch
          rw [oneByOne_of_upTo_none hup]
          exact ⟨_, _, Prog.serve_bind (serve_execSqlArray_ok hbatch) _, rfl,
            (List.append_nil _).symm, rfl⟩
        · -- behind the rejected text the batch is sent again
          rw [hup] at hbatch
          obtain ⟨sql, hsql, hone⟩ := oneByOne_of_upTo_some hup
          rw [List.getElem?_drop] at hsql
          obtain ⟨s', t', hserve, hqueues, herrors, hdone⟩ := ih (sqls.length + 1 - (i + start + 1))
            (by omega) (i + start + 1) (by omega)
            ((s.noteExecuted name (((sqls.map queuedSql).drop (start - 1)).take i)).recordSqlError
              name (sqls.map queuedSql)[i + start - 1]?)
            ⟨done, i⟩ rfl
          have hpos' : i + start - 1 = start - 1 + i := by omega
          have hrest : (sqls.drop (start - 1)).drop (i + 1) = sqls.drop (i + start + 1 - 1) := by
            rw [List.drop_drop]
            congr 1
            omega
          rw [hone, hrest]
          refine ⟨s', t', ?_, hqueues, ?_, hdone⟩
          · refine (Prog.serve_bind (serve_execSqlArray_errno hbatch) _).trans ?_
            simpa using hserve
          · rw [herrors, recordSqlError, hpos', List.getElem?_map, hsql]
            simp [noteExecuted]
      · rw [if_neg hle]
        have hnil : sqls.drop (start - 1) = [] := by
          rw [List.drop_eq_nil_iff]
          omega
        refine ⟨s, t, rfl, rfl, ?_, ?_⟩
        · rw [hnil, oneByOne, List.map_nil, List.append_nil]
        · rw [hnil, oneByOne]

variable (name) in
theorem serve_execQueueSqlImpl (count : Nat) (s : State) (t : Session)
    (h : ∀ sql ∈ (s.sqlQueues name).toList, M.Reads sql) :
    ∃ s' t', (execQueueSqlImpl name count s).serve M.answer t = (s', some (), t') ∧
      (s'.sqlQueues name).toList = (s.sqlQueues name).toList.drop count ∧
      s'.errorWriteQueue = s.errorWriteQueue ++
        (oneByOne M.attempt ((s.sqlQueues name).toList.take count) t.executed).1.map
          (fun sql => (name, some (queuedSql sql))) ∧
      t'.executed =
        (oneByOne M.attempt ((s.sqlQueues name).toList.take count) t.executed).2 := by
  induction count using Nat.strong_induction_on generalizing s t with
  | _ count ih =>
      rw [execQueueSqlImpl]
      split
      · rename_i hgo
        obtain ⟨harray, hqueue⟩ := takeSqlArray_spec (s.sqlQueues name) (min 100 count)
        have hne : (s.sqlQueues name).toList ≠ [] := by
          intro hnil
          rw [(Queue.empty_iff _).mpr hnil] at hgo
          cases hgo.1
        rcases htake : takeSqlArray (s.sqlQueues name) (min 100 count) with ⟨array, queue⟩
        rw [htake] at harray hqueue
        dsimp only at harray hqueue
        have hlen : array.length = min (min 100 count) (s.sqlQueues name).toList.length := by
          rw [harray, List.length_map, List.length_take]
        have hpos := List.length_pos_iff.mpr hne
        have hset : ((s.setQueue name queue).sqlQueues name) = queue := Function.update_self ..
        cases array with
        | nil =>
            simp only [List.length_nil] at hlen
            omega
        | cons q qs =>
            obtain ⟨s₁, t₁, hserve, hqueues, herrors, hdone⟩ := serve_runArray name
              (fun sql hsql => h sql (List.mem_of_mem_take hsql)) 1 (le_refl 1)
              (s.setQueue name queue) t
            rw [← harray] at hserve
            have hleft : (s₁.sqlQueues name).toList =
                (s.sqlQueues name).toList.drop (min 100 count) := by
              rw [hqueues, hset, hqueue]
            obtain ⟨s', t', hserve', hqueue', herrors', hdone'⟩ :=
              ih (count - (q :: qs).length) (by omega) s₁ t₁ fun sql hsql => by
                rw [hleft] at hsql
                exact h sql (List.mem_of_mem_drop hsql)
            rw [hleft] at hqueue' herrors' hdone'
            rw [Nat.sub_self, List.drop_zero] at herrors hdone
            have hmin := Nat.min_le_right 100 count
            -- the chunk, and what the other rounds take
            have hsplit : (s.sqlQueues name).toList.take count =
                (s.sqlQueues name).toList.take (min 100 count) ++
                  ((s.sqlQueues name).toList.drop (min 100 count)).take
                    (count - (q :: qs).length) := by
              rw [hlen]
              by_cases hshort : (s.sqlQueues name).toList.length ≤ min 100 count
              · rw [List.drop_eq_nil_of_le hshort, List.take_nil, List.append_nil,
                  List.take_of_length_le hshort, List.take_of_length_le (le_trans hshort hmin)]
              · rw [Nat.min_eq_left (Nat.le_of_not_le hshort), ← List.take_add,
                  Nat.add_sub_cancel' hmin]
            refine ⟨s', t', (Prog.serve_bind hserve _).trans hserve', ?_, ?_, ?_⟩
            · rw [hqueue', List.drop_drop, hlen]
              by_cases hshort : (s.sqlQueues name).toList.length ≤ min 100 count
              · rw [List.drop_eq_nil_of_le (le_trans hshort (Nat.le_add_right _ _)),
                  List.drop_eq_nil_of_le (le_trans hshort hmin)]
              · rw [Nat.min_eq_left (Nat.le_of_not_le hshort), Nat.add_sub_cancel' hmin]
            · rw [herrors', herrors, hsplit, oneByOne_append, List.map_append, hdone,
                List.append_assoc]
              rfl
            · rw [hdone', hsplit, oneByOne_append, hdone]
      · rename_i hstop
        rw [not_and_or, Bool.not_eq_false, Queue.empty_iff, Nat.not_lt, Nat.le_zero] at hstop
        rcases hstop with hnil | rfl
        · refine ⟨s, t, rfl, ?_, ?_, ?_⟩
          · rw [hnil, List.drop_nil]
          · rw [hnil, List.take_nil, oneByOne, List.map_nil, List.append_nil]
          · rw [hnil, List.take_nil, oneByOne]
        · exact ⟨s, t, rfl, rfl, (List.append_nil _).symm, rfl⟩

variable (M name) in
def execCalls : List Nat → State → Session → Option (State × Session)
  | [], s, t => some (s, t)
  | count :: quotas, s, t =>
      match (execQueueSqlImpl name count s).serve M.answer t with
      | (s, some (), t) => execCalls quotas s t
      | (_, none, _) => none

variable (M name) in
theorem execCalls_eq (quotas : List Nat) (s : State) (t : Session)
    (h : ∀ sql ∈ (s.sqlQueues name).toList, M.Reads sql) :
    ∃ s' t', M.execCalls name quotas s t = some (s', t') ∧
      (s'.sqlQueues name).toList = (s.sqlQueues name).toList.drop quotas.sum ∧
      s'.errorWriteQueue = s.errorWriteQueue ++
        (oneByOne M.attempt ((s.sqlQueues name).toList.take quotas.sum) t.executed).1.map
          (fun sql => (name, some (queuedSql sql))) ∧
      t'.executed =
        (oneByOne M.attempt ((s.sqlQueues name).toList.take quotas.sum) t.executed).2 := by
  induction quotas generalizing s t with
  | nil => exact ⟨s, t, rfl, rfl, (List.append_nil _).symm, rfl⟩
  | cons count quotas ih =>
      obtain ⟨s₁, t₁, hserve, hqueue, herrors, hdone⟩ :=
        serve_execQueueSqlImpl name count s t h
      obtain ⟨s', t', hcalls, hqueue', herrors', hdone'⟩ := ih s₁ t₁ fun sql hsql => by
        rw [hqueue] at hsql
        exact h sql (List.mem_of_mem_drop hsql)
      rw [hqueue] at hqueue' herrors' hdone'
      rw [List.sum_cons, List.take_add, oneByOne_append]
      refine ⟨s', t', ?_, ?_, ?_, ?_⟩
      · rw [execCalls, hserve]
        exact hcalls
      · rw [hqueue', List.drop_drop]
      · rw [herrors', herrors, hdone, List.map_append, List.append_assoc]
      · rw [hdone', hdone]

/-- From the first state to the second, the texts of a queue were executed once each and
in order, but those that MySQL rejects, which were recorded once each and left out. -/
def InOrder (M : MySql) (name : QueueName) (sqls : List Text) (s : State) (t : Session)
    (s' : State) (t' : Session) : Prop :=
  s'.errorWriteQueue = s.errorWriteQueue ++
      (oneByOne M.alone sqls t.executed).1.map (fun sql => (name, some (queuedSql sql))) ∧
    t'.executed = (oneByOne M.alone sqls t.executed).2

def isUnclosed (recorded : QueueName × Option Text) : Bool :=
  match recorded.2 with
  | none => false
  | some sql => ¬ Closed (sql.take (sql.length - sqlStatementCounter.length))

variable (name) in
theorem isUnclosed_queuedSql (sql : Text) :
    isUnclosed (name, some (queuedSql sql)) = true ↔ ¬ Closed (safeSqlSemicolon sql) := by
  have htake : (queuedSql sql).take ((queuedSql sql).length - sqlStatementCounter.length) =
      safeSqlSemicolon sql := by
    rw [queuedSql, List.length_append, Nat.add_sub_cancel, List.take_left]
  rw [isUnclosed]
  dsimp only
  rw [htake, decide_eq_true_iff]

/-- However the calls are cut, they empty the queue, and all its texts are executed once
and in order if and only if no text that MySQL would accept is sent with something else
than one semicolon behind its last statement. -/
theorem executed_in_order_iff (M : MySql) (name : QueueName) (quotas : List Nat) (s : State)
    (t : Session) (hreads : ∀ sql ∈ (s.sqlQueues name).toList, M.Reads sql)
    (hall : (s.sqlQueues name).toList.length ≤ quotas.sum) :
    ∃ s' t', M.execCalls name quotas s t = some (s', t') ∧
      (s'.sqlQueues name).empty = true ∧
      (InOrder M name (s.sqlQueues name).toList s t s' t' ↔
        ∀ pre sql post, (s.sqlQueues name).toList = pre ++ sql :: post →
          (M.alone (oneByOne M.alone pre t.executed).2 sql).1 = true →
            Closed (safeSqlSemicolon sql)) := by
  obtain ⟨s', t', hcalls, hqueue, herrors, hdone⟩ := execCalls_eq M name quotas s t hreads
  rw [List.take_of_length_le hall] at herrors hdone
  rw [List.drop_eq_nil_of_le hall] at hqueue
  refine ⟨s', t', hcalls, (Queue.empty_iff _).mpr hqueue, ?_⟩
  have hiff := oneByOne_eq_iff M.attempt M.alone
    (fun sql => (name, some (queuedSql sql))) isUnclosed
    (fun sql hsql done hbad => attempt_unclosed (hreads sql hsql)
      ((isUnclosed_queuedSql name sql).mp hbad) done)
    (fun sql hsql done hgood => by
      rcases hgood with hgood | hrej
      · refine attempt_closed (hreads sql hsql) ?_ done
        by_contra hc
        rw [(isUnclosed_queuedSql name sql).mpr hc] at hgood
        cases hgood
      · exact attempt_rejected (hreads sql hsql) hrej)
    t.executed
  unfold InOrder
  rw [herrors, hdone, List.append_cancel_left_eq, hiff]
  refine forall_congr' fun pre => forall_congr' fun sql => forall_congr' fun post =>
    imp_congr_right fun _ => imp_congr_right fun _ => ?_
  rw [← Bool.not_eq_true, isUnclosed_queuedSql, not_not]

/-! ## A server that refuses to insert a row twice -/

local instance lawfulText : LawfulBEq Text := inferInstance

def insertOnce : MySql where
  rejects done q := q ≠ sqlStatement ∧ (q ∈ done ∨ sqlStatement <:+ q)
  accepts_counter done := by simp

theorem insertOnce_reads {sql : Text} (hends : (lex .code sql).ends = true)
    (hcounter : sqlStatement ∉ cut .code [] sql) (hne : [] ∉ statements sql) :
    insertOnce.Reads sql where
  ends := hends
  counter := hcounter
  glued done q hq w _ := by
    simp only [insertOnce, decide_eq_true_eq]
    refine ⟨fun h => ?_, .inr ⟨q ++ w, rfl⟩⟩
    have hlen := congrArg List.length h
    rw [List.length_append, List.length_append] at hlen
    have hq0 : q = [] := List.length_eq_zero_iff.mp (by omega)
    exact hne (hq0 ▸ hq)

/-- What `modify_player_info` queues for the device of a new player. -/
def deviceSql (token : String) : Text :=
  "insert into player_device_info(id,`device_token`,`device_type`,`refresh_time`) ".toList ++
    "values('10','".toList ++ token.toList ++ "','ios',now())".toList

def deviceQueue (tokens : List String) : State :=
  tokens.foldl (fun s token => s.push .slow (deviceSql token)) {}

theorem deviceQueue_toList : ((deviceQueue ["ab", "ab", "cd"]).sqlQueues .slow).toList =
    [deviceSql "ab", deviceSql "ab", deviceSql "cd"] := rfl

/-- Two of three texts are the same; the second is recorded. -/
theorem executed_in_order_twice :
    ∃ s' t', insertOnce.execCalls .slow [1, 3000] (deviceQueue ["ab", "ab", "cd"]) {} =
        some (s', t') ∧
      InOrder insertOnce .slow [deviceSql "ab", deviceSql "ab", deviceSql "cd"]
        (deviceQueue ["ab", "ab", "cd"]) {} s' t' := by
  have hreads : ∀ sql ∈ [deviceSql "ab", deviceSql "ab", deviceSql "cd"],
      insertOnce.Reads sql ∧ Closed (safeSqlSemicolon sql) := by
    have hab : insertOnce.Reads (deviceSql "ab") ∧ Closed (safeSqlSemicolon (deviceSql "ab")) :=
      ⟨insertOnce_reads (by decide) (by decide) (by decide), by decide⟩
    have hcd : insertOnce.Reads (deviceSql "cd") ∧ Closed (safeSqlSemicolon (deviceSql "cd")) :=
      ⟨insertOnce_reads (by decide) (by decide) (by decide), by decide⟩
    simp [hab, hcd]
  obtain ⟨s', t', hcalls, -, hiff⟩ := executed_in_order_iff insertOnce .slow [1, 3000]
    (deviceQueue ["ab", "ab", "cd"]) {}
    (fun sql hsql => (hreads sql (deviceQueue_toList ▸ hsql)).1)
    (by rw [deviceQueue_toList]; decide)
  rw [deviceQueue_toList] at hiff
  refine ⟨s', t', hcalls, hiff.mpr fun pre sql post heq _ => (hreads sql ?_).2⟩
  rw [heq]
  simp

/-- A text whose string contains a semicolon is accepted when it is sent alone; from the
queue it is sent without a semicolon at its end, and is not executed. -/
theorem semicolon_in_string_rejected :
    insertOnce.alone [] (deviceSql "a;b") = (true, [deviceSql "a;b"]) ∧
      ∃ s' t', insertOnce.execCalls .slow [3000] (deviceQueue ["a;b"]) {} = some (s', t') ∧
        t'.executed = [] ∧
        s'.errorWriteQueue = [(.slow, some (queuedSql (deviceSql "a;b")))] ∧
        ¬ InOrder insertOnce .slow [deviceSql "a;b"] (deviceQueue ["a;b"]) {} s' t' := by
  have halone : insertOnce.alone [] (deviceSql "a;b") = (true, [deviceSql "a;b"]) := by
    decide +kernel
  have hreads : insertOnce.Reads (deviceSql "a;b") :=
    insertOnce_reads (by decide) (by decide) (by decide)
  have hqueue : ((deviceQueue ["a;b"]).sqlQueues .slow).toList = [deviceSql "a;b"] := rfl
  have hfail : insertOnce.attempt [] (deviceSql "a;b") = (false, []) := by
    refine Prod.ext (attempt_unclosed hreads (by decide) []) ?_
    decide +kernel
  obtain ⟨s', t', hcalls, -, herrors, hdone⟩ := execCalls_eq insertOnce .slow
    [3000] (deviceQueue ["a;b"]) {} (by rw [hqueue]; simpa using hreads)
  rw [hqueue] at herrors hdone
  have hone : oneByOne insertOnce.attempt ([deviceSql "a;b"].take [3000].sum) [] =
      ([deviceSql "a;b"], []) := by
    rw [List.take_of_length_le (by decide), oneByOne, hfail]
    rfl
  have hexec : t'.executed = [] := hdone.trans (congrArg Prod.snd hone)
  refine ⟨halone, s', t', hcalls, hexec, ?_, fun h => ?_⟩
  · rw [herrors]
    change [] ++ List.map _ (oneByOne insertOnce.attempt _ []).1 = _
    rw [hone]
    rfl
  · have hspec := h.2
    rw [hexec, oneByOne, halone] at hspec
    cases hspec

end MySql

end JyQipai.DataService
